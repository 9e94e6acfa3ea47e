import Tp2p.Node.Frame
import Tp2p.Node.Initiations
import Tp2p.Node.Patience

/-! How long a node that ticks regularly keeps what strangers and failed initiations leave
behind, and how many such entries there are at most. -/
namespace Tp2p
open Transition

theorem lt_of_stamped_since {l now k : Int} (h : l ≤ now) (hk : 0 < k) : l - now < k := by
  omega

theorem lt_add_gap {c l p k gap : Int} (h : l - p < k) (hc : c ≤ l + gap) : c - p < k + gap := by
  omega

theorem le_add_gap {l now gap : Int} (h : l ≤ now) (h' : now ≤ l + gap) : now ≤ now + gap := by
  omega

section
variable [Sodium] {U T S : Type}

/-- From whom the call brings a message. -/
def Call.sender : Call U T S → Option Pubkey
  | .receive message _ => some message.pubkeySender
  | _ => none

/-- The connection on which the call initiates. -/
def Call.initiated : Call U T S → Option ConnectionInfo
  | .initComm addr _ => (ConnectionInfo.new addr).toOption
  | _ => none

variable [DecidableEq T]

/-- The time of the last call; before the first one, when the run began. -/
def clock (start : DateTime) : History U T S → DateTime
  | [] => start
  | st :: _ => st.input.now

/-- The clock does not go back, and no call comes later than `gap` after the last tick. -/
structure Ticking (gap : Int) (start : DateTime) (past : History U T S) : Prop where
  forward : past.Pairwise fun st st' => st'.input.now ≤ st.input.now
  started : ∀ st ∈ past, start ≤ st.input.now
  ticks : Every (fun older st => st.input.now ≤ lastTick start older + gap) past

namespace Ticking
variable {gap : Int} {start : DateTime} {past : History U T S} {st : Step U T S}

theorem older (h : Ticking gap start (st :: past)) : Ticking gap start past :=
  ⟨h.forward.of_cons, fun _ hst => h.started _ (List.mem_cons_of_mem _ hst), h.ticks.2⟩

theorem lastTick_le_now (h : Ticking gap start (st :: past)) : lastTick start past ≤ st.input.now :=
  lastTick_le (h.started st List.mem_cons_self) fun _ hst => List.rel_of_pairwise_cons h.forward hst

theorem clock_le (h : Ticking gap start (st :: past)) :
    clock start (st :: past) ≤ lastTick start (st :: past) + gap := by
  rw [clock, lastTick]
  split
  · exact le_add_gap h.lastTick_le_now h.ticks.1
  · exact h.ticks.1

end Ticking

namespace Sync

/-- An entry that is kept is not older than this, as of the last tick. -/
structure Kept (tick : DateTime) (s : Sync T) : Prop where
  peers : ∀ pk info, s.peers.lookup pk = some info → info.active = false →
    tick - info.lastPing < 181 * 1000000000
  pending : ∀ p ∈ s.pendingPeerInit, tick - p.created < 120 * 1000000000

theorem Pruned.kept {now : DateTime} {s s' : Sync T} (h : Pruned now s s') : Kept now s' where
  peers pk info known inactive := by
    rw [h.peers, Option.filter_eq_some_iff, decide_eq_true_eq] at known
    rw [← Int.not_le, ← le_numSeconds (by decide)]
    intro long
    exact known.2 ⟨Int.lt_of_lt_of_le (by decide) long, inactive⟩
  pending p hp := by
    rw [h.pending, List.mem_filter, decide_eq_true_eq] at hp
    rw [← Int.not_le, ← le_numSeconds (by decide)]
    exact hp.2

variable [Rmp (Message U T S)] [Subscription S T]

/-- A record that a call leaves inactive is that of the sender of the message it brings. -/
theorem Effect.sender_of_inactive {s : Sync T} (hs : s.KeysOk) {call : Call U T S}
    {as : List (SyncAction T)} {sends : List (Sending U T S)} (h : Effect s call as sends)
    {info : PeerInfo} (hi : .setPeer info ∈ as) (inactive : info.active = false) :
    call.sender = some info.peer.pubkey := by
  cases call with
  | receive message d =>
    have within : info.peer.pubkey = message.pubkeySender := (h.within hs).1 _ hi
    rw [Call.sender, within]
  | initComm =>
    cases h
    cases List.mem_singleton.mp hi
  | peerConfirm =>
    -- what the application confirms is active
    cases h
    cases List.mem_singleton.mp hi
    cases inactive
  | tick => exact (h.unsets_of_tick _ hi).elim

/-- A pending initiation is stamped with the time of the call that initiated. -/
theorem Effect.setPendingPeer {s : Sync T} {call : Call U T S} {as : List (SyncAction T)}
    {sends : List (Sending U T S)} (h : Effect s call as sends) {p : PendingPeer}
    (hp : .setPendingPeer p ∈ as) : call.initiated = some p.connectionInfo ∧ p.created = call.now := by
  have initiates := h.initiates hp
  cases call with
  | initComm addr now =>
    cases h with
    | initComm parsed =>
      cases List.mem_singleton.mp hp
      rw [Call.initiated, parsed]
      exact ⟨rfl, rfl⟩
  | _ => cases initiates

theorem pending_next {s : Sync T} {call : Call U T S} {p : PendingPeer}
    (h : p ∈ (s.next call).pendingPeerInit) : p ∈ s.pendingPeerInit ∨
      (call.initiated = some p.connectionInfo ∧ p.created = call.now) := by
  rcases next_cases s call with ⟨as, sends, effect, _, hn⟩ | ⟨_, hn⟩
  · rw [hn] at h
    exact (mem_pending_applySyncActions h).imp_right effect.setPendingPeer
  · rw [hn] at h
    exact .inl h

end Sync

variable [Rmp (Message U T S)] [Subscription S T]
variable {name : String} {keypair : Keypair} {config : PeeringConfig}
variable {past : History U T S} {s : Sync T}

theorem NodeRun.kept (pings : PingsSeal U T S) (run : NodeRun name keypair config past s) {gap : Int}
    {start : DateTime} (ticking : Ticking gap start past) : s.Kept (lastTick start past) := by
  induction run with
  | start => exact ⟨fun _ _ known => (nomatch known), fun _ hp => (List.not_mem_nil hp).elim⟩
  | @step past s run call ih =>
    have kept := ih ticking.older
    have hnow := ticking.lastTick_le_now
    rw [lastTick]
    split
    · next tick =>
      cases call with
      | tick order now nonce => exact (NodeRun.tick_prunes pings run order now nonce).kept
      | _ => cases tick
    · -- what the call adds is stamped with its time, which is past the last tick
      refine ⟨fun pk info known inactive => ?_, fun p hp => ?_⟩
      · by_cases hsets : Step.SetsPeer ⟨s, call⟩ pk
        · obtain ⟨info', hl, stamped⟩ := hsets.record
          cases known.symm.trans hl
          rw [stamped]
          exact lt_of_stamped_since hnow (by decide)
        · exact kept.peers pk info (Step.record_of_not_sets hsets known) inactive
      · rcases Sync.pending_next hp with old | ⟨_, stamped⟩
        · exact kept.pending p old
        · rw [stamped]
          exact lt_of_stamped_since hnow (by decide)

/-- Every inactive record was left so by a message from the peer. -/
theorem NodeRun.inactive_of_message (run : NodeRun name keypair config past s) {pk : Pubkey}
    {info : PeerInfo} (known : s.peers.lookup pk = some info) (inactive : info.active = false) :
    ∃ st ∈ past, st.input.sender = some pk ∧ st.input.now = info.lastPing := by
  induction run with
  | start => cases known
  | @step past s run call ih =>
    by_cases hsets : Step.SetsPeer ⟨s, call⟩ pk
    · obtain ⟨actions, info', result, hi, rfl⟩ := hsets
      obtain ⟨as, sends, effect, hsplit⟩ := Sync.exec_effect result
      rw [hsplit.1] at hi
      obtain ⟨stamped, hl⟩ := effect.setPeer hi
      rw [Sync.next_ok result, hsplit.1] at known
      cases known.symm.trans hl
      exact ⟨_, List.mem_cons_self, effect.sender_of_inactive (NodeRun.keysOk run) hi inactive, stamped.symm⟩
    · obtain ⟨st, hst, h⟩ := ih (Step.record_of_not_sets hsets known)
      exact ⟨st, List.mem_cons_of_mem _ hst, h⟩

/-- Every pending initiation was made by a call of its own. -/
theorem NodeRun.pending_of_initiation (run : NodeRun name keypair config past s) {p : PendingPeer}
    (hp : p ∈ s.pendingPeerInit) :
    ∃ st ∈ past, st.input.initiated = some p.connectionInfo ∧ st.input.now = p.created := by
  induction run with
  | start => cases hp
  | @step past s run call ih =>
    rcases Sync.pending_next hp with old | ⟨initiated, stamped⟩
    · obtain ⟨st, hst, h⟩ := ih old
      exact ⟨st, List.mem_cons_of_mem _ hst, h⟩
    · exact ⟨_, List.mem_cons_self, initiated, stamped.symm⟩

/-- A node that ticks at least every `gap` keeps no inactive record and no pending initiation for
longer than that past its time, and at any moment has at most as many of them as it got messages,
and initiated, since. -/
theorem stale_entries_bounded (pings : PingsSeal U T S) (run : NodeRun name keypair config past s)
    {gap : Int} {start : DateTime} (ticking : Ticking gap start past) :
    (∀ pk info, s.peers.lookup pk = some info → info.active = false →
      clock start past - info.lastPing < 181 * 1000000000 + gap) ∧
    (∀ p ∈ s.pendingPeerInit, clock start past - p.created < 120 * 1000000000 + gap) ∧
    ((HashMap.values s.peers).filter fun info => !info.active).length ≤ past.countP (fun st =>
      st.input.sender.isSome && clock start past - st.input.now < 181 * 1000000000 + gap) ∧
    s.pendingPeerInit.length ≤ past.countP (fun st =>
      st.input.initiated.isSome && clock start past - st.input.now < 120 * 1000000000 + gap) := by
  cases past with
  | nil =>
    cases run
    exact ⟨fun _ _ known => (nomatch known), fun _ hp => (List.not_mem_nil hp).elim, Nat.le_refl 0,
      Nat.le_refl 0⟩
  | cons st past =>
    have kept := NodeRun.kept pings run ticking
    have hc := ticking.clock_le
    have records : ∀ pk info, s.peers.lookup pk = some info → info.active = false →
        clock start (st :: past) - info.lastPing < 181 * 1000000000 + gap := by
      intro pk info known inactive
      exact lt_add_gap (kept.peers pk info known inactive) hc
    have pending : ∀ p ∈ s.pendingPeerInit,
        clock start (st :: past) - p.created < 120 * 1000000000 + gap := by
      intro p hp
      exact lt_add_gap (kept.pending p hp) hc
    have hs := NodeRun.keysOk run
    refine ⟨records, pending, ?_, ?_⟩
    · have once := (Sync.values_nodup hs).sublist ((List.filter_sublist
        (p := fun info : PeerInfo => !info.active)).map (·.peer.pubkey))
      apply Credit.length_le_countP once (fun st => st.input.sender)
      intro info hi
      obtain ⟨hv, inactive⟩ := List.mem_filter.mp hi
      rw [Bool.not_eq_true'] at inactive
      obtain ⟨pk, known⟩ := (HashMap.mem_values s.peers info).mp hv
      obtain ⟨st', hst, sender, stamped⟩ := NodeRun.inactive_of_message run known inactive
      have recent := records pk info known inactive
      rw [← stamped] at recent
      refine ⟨st', hst, Bool.and_eq_true_iff.mpr ⟨?_, decide_eq_true recent⟩, ?_⟩
      · rw [sender, Option.isSome_some]
      · rw [sender, hs.filed known]
    · apply Credit.length_le_countP (NodeRun.pending_nodup run) (fun st => st.input.initiated)
      intro p hp
      obtain ⟨st', hst, initiated, stamped⟩ := NodeRun.pending_of_initiation run hp
      have recent := pending p hp
      rw [← stamped] at recent
      refine ⟨st', hst, Bool.and_eq_true_iff.mpr ⟨?_, decide_eq_true recent⟩, initiated⟩
      rw [initiated, Option.isSome_some]

end

namespace Sandbox

/-- Mallory knocked within four and a half minutes, or is forgotten. -/
theorem mallory_is_recent : ((HashMap.values (after anyone malloryWaits).peers).filter
    fun info => !info.active).length ≤ 1 := by
  have ticking : Ticking (2 * minute) 0 (history anyone malloryWaits) := by
    refine ⟨?_, ?_, by decide, by decide, by decide, True.intro⟩
    · simp [history, trail, malloryWaits, Call.now, minute, delivered]
    · simp [history, trail, malloryWaits, Call.now, minute, delivered]
  exact Nat.le_trans (stale_entries_bounded pingsSeal (run anyone malloryWaits) ticking).2.2.1 (by decide)

end Sandbox
end Tp2p
