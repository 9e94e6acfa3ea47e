import Tp2p.Node.Maintenance

/-! How long a node waits for a peer before it forgets it, given that the clock never
goes back and that it ticks often enough. -/
namespace Tp2p
open Transition

theorem numSeconds_mono {d d' : Int} (h : d ≤ d') : numSeconds d ≤ numSeconds d' :=
  Int.tdiv_le_tdiv (by decide) h

theorem le_numSeconds {k d : Int} (hk : 0 < k) : k ≤ numSeconds d ↔ k * 1000000000 ≤ d := by
  rcases Int.le_total 0 d with hd | hd
  · rw [numSeconds, Int.tdiv_eq_ediv_of_nonneg hd]
    omega
  · have h : numSeconds d ≤ 0 := numSeconds_mono hd
    omega

/-- Of two instants the earlier is the longer ago. -/
theorem lt_numSeconds_of_le {k now p q : Int} (h : k < numSeconds (now - p)) (hq : q ≤ p) :
    k < numSeconds (now - q) :=
  Int.lt_of_lt_of_le h (numSeconds_mono (by omega))

/-- Who has been silent for 180 seconds had been for 60 at any time in the last 120. -/
theorem silent_for_60 {now l p : Int} (silent : 180 < numSeconds (now - p))
    (recent : numSeconds (now - l) ≤ 120) : 60 ≤ numSeconds (l - p) := by
  have h : 181 * 1000000000 ≤ now - p := (le_numSeconds (by decide)).mp silent
  have h' : ¬ 121 * 1000000000 ≤ now - l := by
    rw [← le_numSeconds (by decide)]
    omega
  apply (le_numSeconds (by decide)).mpr
  omega

theorem not_le_of_numSeconds {l p : Int} (h : 60 ≤ numSeconds (l - p)) : ¬ l ≤ p := by
  intro hl
  have : numSeconds (l - p) ≤ numSeconds 0 := numSeconds_mono (by omega)
  exact absurd (Int.le_trans h this) (by decide)

section
variable [Sodium] {U T S : Type}

/-- The clock value passed to a call. -/
def Call.now : Call U T S → DateTime
  | .initComm _ now | .peerConfirm _ _ now _ | .tick _ now _ => now
  | .receive _ d => d.now

def Call.isTick : Call U T S → Bool
  | .tick .. => true
  | _ => false

/-- The events that show that a peer is there. -/
def Event.isSignOfLife : Event U T S → Bool
  | .ping | .pong | .peerConfirm _ => true
  | _ => false

theorem Event.isQuery_of_sign {e : Event U T S} (h : e.isSignOfLife = true) : e.isQuery = false := by
  cases e <;> first | rfl | cases h

variable [DecidableEq T]

/-- When the last tick was; before the first one, when the run began. -/
def lastTick (start : DateTime) : History U T S → DateTime
  | [] => start
  | st :: past => if st.input.isTick then st.input.now else lastTick start past

/-- The clock does not go back, and no tick comes more than 120 seconds after the last. -/
structure Timely (start : DateTime) (past : History U T S) : Prop where
  forward : past.Pairwise fun st st' => st'.input.now ≤ st.input.now
  started : ∀ st ∈ past, start ≤ st.input.now
  ticks : Every (fun older st => st.input.isTick = true →
    numSeconds (st.input.now - lastTick start older) ≤ 120) past

variable [Rmp (Message U T S)] [Subscription S T]

/-- The step returned a `SetPeer` for `pk`. -/
def Step.SetsPeer (st : Step U T S) (pk : Pubkey) : Prop :=
  ∃ actions info, st.result = .ok actions ∧ .setPeer info ∈ syncActions actions ∧
    info.peer.pubkey = pk

/-- The step is a tick that sent a sealed `Ping` to the connection of the record. -/
def Step.Pings (st : Step U T S) (info : PeerInfo) : Prop :=
  ∃ order now nonce actions w, st.input = .tick order now nonce ∧ st.result = .ok actions ∧
    .messageSend info.connectionInfo (.sealed w) ∈ actions ∧
    MessageSealed.seal st.pre.keypair.toPubkey info.peer
      (Message.new ⟨now, nonce info.peer.pubkey⟩ .ping [] : Message U T S) = .ok w

namespace Sync

/-- A record that a call sets is stamped with the time of the call, and stays. -/
theorem Effect.setPeer {s : Sync T} {call : Call U T S} {as : List (SyncAction T)}
    {sends : List (Sending U T S)} (h : Effect s call as sends) {info : PeerInfo}
    (hi : .setPeer info ∈ as) : info.lastPing = call.now ∧
      (s.applySyncActions as).peers.lookup info.peer.pubkey = some info := by
  have single : ∀ {info' : PeerInfo}, info'.lastPing = call.now →
      .setPeer info ∈ [SyncAction.setPeer (T := T) info'] → info.lastPing = call.now ∧
        (s.applySyncActions [.setPeer info']).peers.lookup info.peer.pubkey = some info := by
    intro info' hn hm
    cases List.mem_singleton.mp hm
    exact ⟨hn, (lookup_setPeer ..).trans (if_pos rfl)⟩
  cases h with
  | initComm => cases List.mem_singleton.mp hi
  | peerConfirm | init => exact single rfl hi
  | tick =>
    simp only [List.mem_append, List.mem_map] at hi
    rcases hi with ⟨_, _, h⟩ | ⟨_, _, h⟩ <;> cases h
  | @event w d m _ _ opened effect =>
    generalize m.body = e at effect
    cases effect with
    | hello =>
      rcases List.mem_pair.mp hi with h | h
      · cases h
        exact ⟨rfl, (lookup_setPeer ..).trans (if_pos rfl)⟩
      · cases h
    | peerInit | peerConfirm | ping | pong => exact single rfl hi
    | subscribe | unsubscribe =>
      obtain ⟨_, _, h⟩ := List.mem_map.mp hi
      cases h
    | _ => cases hi

/-- A peer whose record is not set keeps it or loses it. -/
theorem lookup_of_not_set {s : Sync T} {as : List (SyncAction T)} {pk : Pubkey}
    (h : ∀ info, .setPeer info ∈ as → info.peer.pubkey ≠ pk) {info : PeerInfo}
    (known : (s.applySyncActions as).peers.lookup pk = some info) :
    s.peers.lookup pk = some info := by
  induction as generalizing s with
  | nil => exact known
  | cons a as ih =>
    have hl := ih (fun info' hi => h info' (List.mem_cons_of_mem _ hi)) known
    cases a with
    | setPeer info' =>
      rw [lookup_setPeer, if_neg fun he => h info' List.mem_cons_self he.symm] at hl
      exact hl
    | unsetPeer pk' =>
      rw [lookup_unsetPeer] at hl
      split at hl
      · cases hl
      · exact hl
    | _ => simpa using hl

end Sync

namespace Step

theorem SetsPeer.record {s : Sync T} {call : Call U T S} {pk : Pubkey}
    (h : SetsPeer ⟨s, call⟩ pk) : ∃ info, (s.next call).peers.lookup pk = some info ∧
      info.lastPing = call.now := by
  obtain ⟨actions, info, result, hi, rfl⟩ := h
  obtain ⟨as, sends, effect, hsplit⟩ := Sync.exec_effect result
  rw [hsplit.1] at hi
  obtain ⟨hn, hl⟩ := effect.setPeer hi
  refine ⟨info, ?_, hn⟩
  rw [Sync.next_ok result, hsplit.1]
  exact hl

theorem record_of_not_sets {s : Sync T} {call : Call U T S} {pk : Pubkey}
    (h : ¬ SetsPeer ⟨s, call⟩ pk) {info : PeerInfo}
    (known : (s.next call).peers.lookup pk = some info) : s.peers.lookup pk = some info := by
  rcases Attempt.ok_or_error (s.exec call) with ⟨actions, result⟩ | ⟨e, result⟩
  · rw [Sync.next_ok result] at known
    apply Sync.lookup_of_not_set (fun info' hi hp => ?_) known
    exact h ⟨actions, info', result, hi, hp⟩
  · rw [Sync.next_error result] at known
    exact known

/-- Processing a `Ping`, `Pong` or `PeerConfirm` sets the record of its sender. -/
theorem setsPeer_of_sign {s : Sync T} (hs : s.KeysOk) {call : Call U T S} {pk : Pubkey}
    {e : Event U T S} (heard : s.heard call = some (pk, e)) (sign : e.isSignOfLife = true)
    {actions : List (Action U T S)} (result : s.exec call = .ok actions) :
    SetsPeer ⟨s, call⟩ pk := by
  obtain ⟨w, d, m, rfl, opened, rfl, rfl⟩ := Sync.heard_eq_some.mp heard
  obtain ⟨as, sends, effect, hsplit⟩ := Sync.exec_effect result
  suffices h : ∃ info, SyncAction.setPeer info ∈ as ∧ info.peer.pubkey = w.pubkeySender by
    obtain ⟨info, hi, hp⟩ := h
    exact ⟨actions, info, result, by rw [hsplit.1]; exact hi, hp⟩
  cases effect with
  | event opened' effect =>
    cases opened.symm.trans opened'
    generalize m.body = e at sign effect
    cases effect with
    | peerConfirm known | ping known | pong known =>
      exact ⟨_, List.mem_cons_self, (hs.filed known :)⟩
    | unanswered query | query query => cases (Event.isQuery_of_sign sign).symm.trans query
    | _ => cases sign

end Step

variable {name : String} {keypair : Keypair} {config : PeeringConfig}
variable {past : History U T S} {s : Sync T}

/-- A record on file was set by a step of the run, at the time it is stamped with, and has
been as it is ever since. -/
structure SetAt (past : History U T S) (pk : Pubkey) (info : PeerInfo) (newer : History U T S)
    (st : Step U T S) (older : History U T S) : Prop where
  split : past = newer ++ st :: older
  sets : st.SetsPeer pk
  stamped : st.input.now = info.lastPing
  unset : ∀ st' ∈ newer, ¬ st'.SetsPeer pk
  before : ∀ st' ∈ newer, st'.pre.peers.lookup pk = some info
  after : ∀ st' ∈ newer, (st'.pre.next st'.input).peers.lookup pk = some info

theorem NodeRun.setAt (run : NodeRun name keypair config past s) {pk : Pubkey} {info : PeerInfo}
    (known : s.peers.lookup pk = some info) : ∃ newer st older, SetAt past pk info newer st older := by
  induction run with
  | start => cases known
  | @step past s run call ih =>
    by_cases h : Step.SetsPeer ⟨s, call⟩ pk
    · obtain ⟨info', hl, hn⟩ := h.record
      cases known.symm.trans hl
      exact ⟨[], _, past, rfl, h, hn.symm, fun _ h => (List.not_mem_nil h).elim,
        fun _ h => (List.not_mem_nil h).elim, fun _ h => (List.not_mem_nil h).elim⟩
    · have old := Step.record_of_not_sets h known
      obtain ⟨newer, st, older, hset⟩ := ih old
      refine ⟨⟨s, call⟩ :: newer, st, older, by rw [hset.split]; rfl, hset.sets, hset.stamped,
        ?_, ?_, ?_⟩
      · exact List.forall_mem_cons.mpr ⟨h, hset.unset⟩
      · exact List.forall_mem_cons.mpr ⟨old, hset.before⟩
      · exact List.forall_mem_cons.mpr ⟨known, hset.after⟩

omit [Rmp (Message U T S)] [Subscription S T] in
/-- The last tick is among the newer steps, unless it is no later than the rest. -/
theorem lastTick_append (start : DateTime) (newer older : History U T S) :
    (∃ st ∈ newer, st.input.isTick = true ∧ lastTick start (newer ++ older) = st.input.now) ∨
      lastTick start (newer ++ older) = lastTick start older := by
  induction newer with
  | nil => exact .inr rfl
  | cons st newer ih =>
    rw [List.cons_append, lastTick]
    split
    · next h => exact .inl ⟨st, List.mem_cons_self, h, rfl⟩
    · rcases ih with ⟨st', hst, h⟩ | h
      · exact .inl ⟨st', List.mem_cons_of_mem _ hst, h⟩
      · exact .inr h

omit [Rmp (Message U T S)] [Subscription S T] in
theorem lastTick_le {start bound : DateTime} {past : History U T S} (h : start ≤ bound)
    (hp : ∀ st ∈ past, st.input.now ≤ bound) : lastTick start past ≤ bound := by
  induction past with
  | nil => exact h
  | cons st past ih =>
    rw [lastTick]
    split
    · exact hp st List.mem_cons_self
    · exact ih fun st' hst => hp st' (List.mem_cons_of_mem _ hst)

/-- A tick that meets a record which is due, and is there afterwards too, pings it. -/
theorem Step.pings_of_due (pings : PingsSeal U T S) {st : Step U T S} (hs : st.pre.KeysOk)
    (tick : st.input.isTick = true) {pk : Pubkey} {info : PeerInfo}
    (known : st.pre.peers.lookup pk = some info)
    (kept : (st.pre.next st.input).peers.lookup pk = some info)
    (long : 60 ≤ numSeconds (st.input.now - info.lastPing)) : st.Pings info := by
  obtain ⟨pre, call⟩ := st
  cases call with
  | tick order now nonce =>
    have fits : ∀ x ∈ ((order.arrange (HashMap.values pre.peers)).filter (Due now ·)).map
        fun info => (.fresh info now (nonce info.peer.pubkey) .ping : Sending U T S),
        x.message.Serializable := by
      intro x hx
      obtain ⟨_, info', _, _, rfl⟩ := Sync.mem_pings.mp hx
      exact pings now (nonce info'.peer.pubkey)
    have due : Due now info := by
      refine ⟨long, fun overdue => ?_⟩
      rw [Sync.lookup_tick hs (fun _ info' _ _ => pings now (nonce info'.peer.pubkey)), known,
        Option.filter_some, if_neg (by simpa using overdue)] at kept
      cases kept
    have hx : Sending.fresh info now (nonce info.peer.pubkey) .ping ∈
        ((order.arrange (HashMap.values pre.peers)).filter (Due now ·)).map
          fun info => (.fresh info now (nonce info.peer.pubkey) .ping : Sending U T S) :=
      Sync.mem_pings.mpr ⟨pk, info, known, due, rfl⟩
    obtain ⟨actions, result, hsplit⟩ := Sync.exec_succeeds .tick fits
    obtain ⟨⟨c, w⟩, hw, hc, hseal⟩ := Attempt.exists_mem_of_mem_left hsplit.2 hx
    refine ⟨order, now, nonce, actions, w, rfl, result, ?_, hseal⟩
    obtain ⟨a, ha, hcw⟩ := List.mem_filterMap.mp hw
    split at hcw
    · next c' w' =>
      cases hcw
      cases hc
      exact ha
    · cases hcw
  | _ => cases tick

/-- A tick gives up on a peer that is inactive, has not been heard of for 180 seconds, and
was pinged on its connection after it was last heard of. -/
theorem forgotten_after_ping (pings : PingsSeal U T S) (run : NodeRun name keypair config past s)
    {start now : DateTime} {order : IterOrder PeerInfo} {nonce : Pubkey → Nonce}
    (timely : Timely start (⟨s, .tick order now nonce⟩ :: past)) {actions : List (Action U T S)}
    (result : s.tick order now nonce = .ok actions) {pk : Pubkey}
    (forgets : .sync (.unsetPeer pk) ∈ actions) :
    ∃ info, s.peers.lookup pk = some info ∧ info.active = false ∧
      (∀ st ∈ past, st.SetsPeer pk → 180 < numSeconds (now - st.input.now)) ∧
      (∀ st ∈ past, ∀ e actions, st.pre.heard st.input = some (pk, e) → e.isSignOfLife = true →
        st.result = .ok actions → 180 < numSeconds (now - st.input.now)) ∧
      ∃ newer st older, past = newer ++ st :: older ∧ st.Pings info ∧
        ∀ st' ∈ newer, ¬ st'.SetsPeer pk := by
  have hs := run.keysOk
  have hmem : SyncAction.unsetPeer pk ∈ syncActions actions :=
    List.mem_filterMap.mpr ⟨_, forgets, rfl⟩
  obtain ⟨pk', info, known, overdue, hp⟩ :=
    (((Sync.tick_effect result).1.mem_tick hs).mp hmem).resolve_right (by simp)
  cases hp
  obtain ⟨newer, st, older, hset⟩ := run.setAt known
  -- the clock does not go back, so nothing older than the stamp is later than it
  have forward := (List.pairwise_cons.mp timely.forward).2
  rw [hset.split] at forward
  have old : ∀ st' ∈ st :: older, st'.input.now ≤ info.lastPing := by
    have h := (List.pairwise_cons.mp (List.pairwise_append.mp forward).2.1).1
    rw [← hset.stamped]
    exact List.forall_mem_cons.mpr ⟨Int.le_refl _, h⟩
  have heardLong : ∀ st' ∈ past, st'.SetsPeer pk → 180 < numSeconds (now - st'.input.now) := by
    intro st' hst hsets
    rw [hset.split] at hst
    rcases List.mem_append.mp hst with hn | ho
    · exact absurd hsets (hset.unset st' hn)
    · exact lt_numSeconds_of_le overdue.1 (old st' ho)
  refine ⟨info, known, overdue.2, heardLong, fun st' hst e actions' heard sign result' => ?_, ?_⟩
  · obtain ⟨_, run'⟩ := run.earlier hst
    exact heardLong st' hst (Step.setsPeer_of_sign (NodeRun.keysOk run') heard sign result')
  · have long : 60 ≤ numSeconds (lastTick start past - info.lastPing) :=
      silent_for_60 overdue.1 (timely.ticks.1 rfl)
    rw [hset.split] at long
    rcases lastTick_append start newer (st :: older) with ⟨tick, hn, isTick, hl⟩ | hl
    · rw [hl] at long
      obtain ⟨newer', newer'', rfl⟩ := List.append_of_mem hn
      have hpast : past = newer' ++ tick :: (newer'' ++ st :: older) := by
        rw [hset.split, List.append_assoc]
        rfl
      have hmem : tick ∈ past := by
        rw [hpast]
        simp
      obtain ⟨_, run'⟩ := run.earlier hmem
      refine ⟨newer', tick, _, hpast, ?_, fun st' hst => hset.unset st' (by simp [hst])⟩
      exact Step.pings_of_due pings (NodeRun.keysOk run') isTick (hset.before tick hn)
        (hset.after tick hn) long
    · have began : start ≤ info.lastPing := by
        rw [← hset.stamped]
        exact timely.started st (by rw [hset.split]; simp)
      rw [hl] at long
      exact absurd (lastTick_le began old) (not_le_of_numSeconds long)

end

namespace Sandbox

def minute : DateTime := 60000000000

/-- Mallory knocks and is silent; the application ticks every minute and a half. -/
def malloryWaits : List (Call Bool Unit Unit) :=
  [.tick .stored (3 * minute) (fun _ => 2), .tick .stored (minute + 30000000000) (fun _ => 1),
    .receive (.init mallory.toPubkey) (delivered 3 0 0 [])]

/-- The third tick gives up on Mallory, who was pinged before. -/
theorem mallory_was_pinged : ∃ info : PeerInfo, ∃ newer st older,
    history anyone malloryWaits = newer ++ st :: older ∧ Step.Pings st info := by
  have timely : Timely 0 (⟨after anyone malloryWaits, .tick .stored (4 * minute) (fun _ => 3)⟩ ::
      history anyone malloryWaits) := by
    refine ⟨?_, ?_, fun _ => by decide, fun _ => by decide, fun _ => by decide, (fun h => nomatch h),
      True.intro⟩
    · simp [history, trail, malloryWaits, Call.now, minute, delivered]
    · simp [history, trail, malloryWaits, Call.now, minute, delivered]
  have forgets : .sync (.unsetPeer mallory.toPubkey) ∈
      [(.sync (.unsetPeer mallory.toPubkey) : Action Bool Unit Unit)] := List.mem_singleton.mpr rfl
  obtain ⟨info, _, _, _, _, newer, st, older, h, pings, _⟩ :=
    forgotten_after_ping pingsSeal (run anyone malloryWaits) timely (by rfl) forgets
  exact ⟨info, newer, st, older, h, pings⟩

end Sandbox
end Tp2p
