import Tp2p.Model.Sandbox
import Tp2p.Node.Alike

/-! The tables of a node rebuilt from the actions that it has returned. -/
namespace Tp2p
open Transition

section
variable [Sodium] {U T S : Type} [DecidableEq T]

namespace Sync
variable (name : String) (keypair : Keypair) (config : PeeringConfig)

omit [Sodium] [DecidableEq T] in
private theorem filterMap_attempts {α β : Type} (f : α → Option β) (before as : List α)
    (attempts : List (List α)) : (before ++ attempts.flatten ++ as).filterMap f =
      before.filterMap f ++ (attempts.map (List.filterMap f)).flatten ++ as.filterMap f := by
  rw [List.filterMap_append, List.filterMap_append, List.filterMap_flatten]

omit [Sodium] [DecidableEq T] in
private theorem prefix_attempts {α β : Type} (f : α → Option β) {as : List α} {attempts : List (List α)}
    (broken : ∀ part ∈ attempts, part <+: as) :
    ∀ ops ∈ attempts.map (List.filterMap f), ops <+: as.filterMap f := by
  intro ops hops
  obtain ⟨part, hpart, rfl⟩ := List.mem_map.mp hops
  exact (broken part hpart).filterMap f

/-- Applying `as` again from its start, after attempts that broke off, comes to the same. -/
theorem applySyncActions_restart (before : List (SyncAction T)) {attempts : List (List (SyncAction T))}
    {as : List (SyncAction T)} (broken : ∀ part ∈ attempts, part <+: as) :
    SameTables ((new name keypair config).applySyncActions (before ++ attempts.flatten ++ as))
      ((new name keypair config).applySyncActions (before ++ as)) := by
  apply SameTables.of_subscribers (inUse_replayed name keypair config _)
    (inUse_replayed name keypair config _)
  · intro pk
    rw [lookup_replayed, lookup_replayed, filterMap_attempts, List.filterMap_append]
    apply KeyedLog.latest_restart
    intro op hop
    obtain ⟨ops, hops, hop⟩ := List.mem_flatten.mp hop
    exact (prefix_attempts SyncAction.peerOp broken ops hops).subset hop
  · rw [pending_replayed, pending_replayed, filterMap_attempts, List.filterMap_append]
    exact KeyedLog.replay_restart _ _ (prefix_attempts SyncAction.pendingOp broken)
  · intro t
    rw [subscribers_replayed, subscribers_replayed, filterMap_attempts, List.filterMap_append]
    exact KeyedLog.replay_restart _ _ (prefix_attempts (SyncAction.subscriptionOp t) broken)

end Sync

variable [Rmp (Message U T S)] [Subscription S T]

/-- The actions on the node that the step returned. -/
def Step.changes (st : Step U T S) : List (SyncAction T) :=
  match st.result with
  | .ok actions => syncActions actions
  | .error _ => []

/-- All of them, oldest first. -/
def journal : History U T S → List (SyncAction T)
  | [] => []
  | st :: past => journal past ++ st.changes

variable {name : String} {keypair : Keypair} {config : PeeringConfig}
variable {past : History U T S} {s : Sync T}

theorem Step.next_eq (st : Step U T S) : st.pre.next st.input = st.pre.applySyncActions st.changes := by
  rw [Step.changes, Step.result]
  rcases Attempt.ok_or_error (st.pre.exec st.input) with ⟨actions, h⟩ | ⟨e, h⟩
  · rw [Sync.next_ok h, h]
  · rw [Sync.next_error h, h]
    rfl

theorem NodeRun.journal (run : NodeRun name keypair config past s) :
    (Sync.new name keypair config).applySyncActions (journal past) = s := by
  induction run with
  | start => rfl
  | @step past s run call ih =>
    rw [Tp2p.journal, Sync.applySyncActions_append, ih]
    exact (Step.next_eq ⟨s, call⟩).symm

theorem NodeRun.sound (run : NodeRun name keypair config past s) : s.Sound := by
  refine ⟨run.keysOk, ?_⟩
  obtain ⟨as, rfl⟩ := run.replayed
  exact Sync.inUse_replayed name keypair config as

/-- A node rebuilt from what was stored: a copy made after `done`, or a new node, has the rest of
the actions applied to it, which may break off and start again any number of times. It has the
tables of the node that returned the actions, and keeps having them whatever is called on both. -/
theorem restart_recovers (run : NodeRun name keypair config past s) {done todo : List (SyncAction T)}
    (log : journal past = done ++ todo) {attempts : List (List (SyncAction T))}
    (broken : ∀ part ∈ attempts, part <+: todo) {calls calls' : List (Call U T S)}
    (same : List.Forall₂ Call.Alike calls calls') :
    Sync.SameTables (reach Sync.next (((Sync.new name keypair config).applySyncActions
        done).applySyncActions (attempts.flatten ++ todo)) calls)
      (reach Sync.next s calls') := by
  have restarted := Sync.applySyncActions_restart name keypair config done broken
  rw [← log, run.journal, List.append_assoc, Sync.applySyncActions_append] at restarted
  have self : Sync.SameSelf s (((Sync.new name keypair config).applySyncActions
      done).applySyncActions (attempts.flatten ++ todo)) :=
    run.sameSelf.symm.trans ((Sync.applySyncActions_sameSelf _ done).trans
      (Sync.applySyncActions_sameSelf _ (attempts.flatten ++ todo)))
  have inUse := (Sync.inUse_replayed name keypair config done).applySyncActions (attempts.flatten ++ todo)
  have restarted' := restarted.symm inUse run.sound.inUse
  have start : Sync.Alike (((Sync.new name keypair config).applySyncActions
      done).applySyncActions (attempts.flatten ++ todo)) s :=
    ⟨self.symm, restarted, ⟨restarted'.keysOk self run.keysOk, inUse⟩, run.sound⟩
  exact (reach_lockstep (fun h hc => h.next hc) start same).tables

/-! The same call twice -/

namespace Sync
variable {s : Sync T}

omit [Rmp (Message U T S)] [Subscription S T] in
theorem SameTables.of_eq {s' : Sync T} (hs : s.InUse) (hs' : s'.InUse) (peers : s'.peers = s.peers)
    (pending : s'.pendingPeerInit = s.pendingPeerInit)
    (subscribers : ∀ t, s'.subscribers t = s.subscribers t) : SameTables s s' :=
  .of_subscribers hs hs' (fun _ => by rw [peers]) (by rw [pending]) fun t => by rw [subscribers]

omit [Rmp (Message U T S)] [Subscription S T] in
/-- A record that is on file already. -/
theorem sameTables_setPeer (hs : s.InUse) {info : PeerInfo}
    (filed : s.peers.lookup info.peer.pubkey = some info) :
    SameTables s (s.applySyncActions [.setPeer info]) := by
  apply SameTables.of_subscribers hs (hs.applySyncActions _)
  · intro pk
    rw [applySyncActions_cons, applySyncActions_nil, lookup_setPeer]
    split
    · next hpk => rw [hpk, filed]
    · rfl
  · exact .refl _
  · exact fun t => .refl _

omit [Rmp (Message U T S)] [Subscription S T] in
/-- A record that is changed once more in the same way. -/
theorem sameTables_amended (hs : s.Sound) (amend : PeerInfo → PeerInfo) {pk : Pubkey}
    {info info' : PeerInfo} (idem : amend (amend info) = amend info)
    (keeps : (amend info).peer.pubkey = info.peer.pubkey) (known : s.peers.lookup pk = some info)
    (known' : (s.applySyncActions [.setPeer (amend info)]).peers.lookup pk = some info') :
    SameTables (s.applySyncActions [.setPeer (amend info)])
      ((s.applySyncActions [.setPeer (amend info)]).applySyncActions [.setPeer (amend info')]) := by
  have filed : (amend info).peer.pubkey = pk := keeps.trans (hs.keysOk.filed known)
  have hset : (s.applySyncActions [.setPeer (amend info)]).peers.lookup pk = some (amend info) :=
    (lookup_setPeer ..).trans (if_pos filed.symm)
  cases known'.symm.trans hset
  rw [idem]
  exact sameTables_setPeer (hs.inUse.applySyncActions _) (by rw [filed, hset])

omit [Rmp (Message U T S)] in
/-- The same event twice. -/
theorem EventEffect.again (hs : s.Sound) {pk : Pubkey} {d : Delivery U T S} {e : Event U T S}
    {as as' : List (SyncAction T)} {sends sends' : List (Sending U T S)}
    (effect : EventEffect s pk d e as sends)
    (effect' : EventEffect (s.applySyncActions as) pk d e as' sends') :
    SameTables (s.applySyncActions as) ((s.applySyncActions as).applySyncActions as') := by
  -- where the first call changes nothing, the second does not either
  have nothing : as = [] → SameTables (s.applySyncActions as)
      ((s.applySyncActions as).applySyncActions as') := by
    rintro rfl
    obtain ⟨rfl, _⟩ := effect.unique effect'
    exact .refl s
  cases effect with
  | hello pending =>
    cases effect' with
    | rogueHello => exact .refl _
    | hello pending' =>
      -- the first `Hello` has used up the initiation
      obtain ⟨p, hp, hc⟩ := pending'
      rw [applySyncActions_cons, applySyncActions_cons, applySyncActions_nil,
        pending_unsetPendingPeer, List.mem_filter, hc] at hp
      simp at hp
    | unanswered h | query h => cases h
  | @peerInit name info allowed known =>
    cases effect' with
    | peerInit _ known' => exact sameTables_amended hs (·.confirmed name d.now) rfl rfl known known'
    | undecided => exact .refl _
    | unanswered h | query h => cases h
  | @peerConfirm name info known =>
    cases effect' with
    | peerConfirm known' => exact sameTables_amended hs (·.confirmed name d.now) rfl rfl known known'
    | unanswered h | query h => cases h
  | ping known =>
    cases effect' with
    | ping known' => exact sameTables_amended hs (·.setLastPing d.now) rfl rfl known known'
    | unanswered h | query h => cases h
  | pong known =>
    cases effect' with
    | pong known' => exact sameTables_amended hs (·.setLastPing d.now) rfl rfl known known'
    | unanswered h | query h => cases h
  | subscribe known =>
    cases effect' with
    | subscribe known' =>
      rw [(peers_of_subscriptions s _ _).1] at known'
      cases known.symm.trans known'
      refine .of_eq (hs.inUse.applySyncActions _) ((hs.inUse.applySyncActions _).applySyncActions _)
        (peers_of_subscriptions _ _ _).1 (pending_of_subscriptions _ _ _).1 fun t => ?_
      rw [subscribers_setSubscriptions (s.applySyncActions _), subscribers_setSubscriptions s]
      split
      · exact addSubscriber_idem _ _
      · rfl
    | unanswered h | query h => cases h
  | unsubscribe known =>
    cases effect' with
    | unsubscribe known' =>
      rw [(peers_of_subscriptions s _ _).2] at known'
      cases known.symm.trans known'
      refine .of_eq (hs.inUse.applySyncActions _) ((hs.inUse.applySyncActions _).applySyncActions _)
        (peers_of_subscriptions _ _ _).2 (pending_of_subscriptions _ _ _).2 fun t => ?_
      rw [subscribers_unsetSubscriptions (s.applySyncActions _), subscribers_unsetSubscriptions s]
      split
      · exact dropSubscriber_idem _ _
      · rfl
    | unanswered h | query h => cases h
  | _ => exact nothing rfl

/-- The same call twice. -/
theorem Effect.again (hs : s.Sound) {call : Call U T S} {as as' : List (SyncAction T)}
    {sends sends' : List (Sending U T S)} (effect : Effect s call as sends)
    (effect' : Effect (s.applySyncActions as) call as' sends') :
    SameTables (s.applySyncActions as) ((s.applySyncActions as).applySyncActions as') := by
  have inUse := hs.inUse.applySyncActions as
  have keysOk := hs.keysOk.applySyncActions (effect.keyed hs.keysOk)
  cases effect with
  | initComm parsed =>
    cases effect' with
    | initComm parsed' =>
      cases parsed.symm.trans parsed'
      refine .of_eq inUse (inUse.applySyncActions _) (peers_setPendingPeer _ _) ?_ fun t => ?_
      · rw [applySyncActions_cons, applySyncActions_nil, applySyncActions_cons, applySyncActions_nil,
          pending_applySyncAction, pending_applySyncAction]
        exact KeyedLog.step_idem _ _ _
      · exact congrFun (subscribers_setPendingPeer _ _) t
  | @peerConfirm pk name now nonce info known =>
    cases effect' with
    | peerConfirm known' => exact sameTables_amended hs (·.confirmed name now) rfl rfl known known'
  | @tick order now nonce =>
    have effect : Effect s (.tick order now nonce : Call U T S) _ _ := .tick
    -- whatever the first tick should have removed is gone
    have nothing : as' = [] := by
      apply List.eq_nil_iff_forall_not_mem.mpr
      intro a ha
      rcases (effect'.mem_tick keysOk).mp ha with ⟨pk, info, hl, overdue, _⟩ | ⟨p, hp, expired, _⟩
      · rw [effect.lookup_tick hs.keysOk, Option.filter_eq_some_iff] at hl
        exact of_decide_eq_true hl.2 overdue
      · rw [pending_of_unsets effect.unsets_of_tick, List.mem_filter] at hp
        refine of_decide_eq_true hp.2 ((effect.mem_tick hs.keysOk).mpr (.inr ?_))
        exact ⟨p, hp.1, expired, rfl⟩
    rw [nothing]
    exact .refl _
  | @init pk d =>
    cases effect' with
    | init =>
      have hset : (s.applySyncActions [.setPeer (s.tmpInfo pk d.connectionInfo d.now)]).peers.lookup pk =
          some (s.tmpInfo pk d.connectionInfo d.now) := (lookup_setPeer ..).trans (if_pos rfl)
      exact sameTables_setPeer inUse hset
  | @event w d m _ _ opened effect =>
    cases effect' with
    | event opened' effect' =>
      have hself := applySyncActions_sameSelf s as
      have key := (hs.keysOk.unwrap_ok.mp opened).1
      have key' := (keysOk.unwrap_ok.mp opened').1
      rw [hself.keypair, key] at key'
      cases key'
      exact effect.again hs effect'

theorem Sound.again (hs : s.Sound) (call : Call U T S) :
    SameTables (s.next call) ((s.next call).next call) := by
  rcases next_cases s call with ⟨as, sends, effect, _, hn⟩ | ⟨_, hn⟩
  · rcases next_cases (s.next call) call with ⟨as', sends', effect', _, hn'⟩ | ⟨_, hn'⟩
    · rw [hn', hn]
      rw [hn] at effect'
      exact effect.again hs effect'
    · rw [hn']
      exact .refl _
  · rw [hn, hn]
    exact .refl _

end Sync

end

namespace Sandbox

/-- Alice reads what was stored about Bob, breaks off, and reads it again. -/
theorem bob_recovered :
    (((Sync.new "a" alice anyone).applySyncActions ((journal (history anyone bobConfirmed)).take 1)
      |>.applySyncActions (journal (history anyone bobConfirmed))).peers.lookup bob.toPubkey) =
      some ⟨⟨"b", bob.toPubkey, sharedKey 2 1⟩, connection 2, true, 0⟩ := by
  have broken : ∀ part ∈ [(journal (history anyone bobConfirmed)).take 1],
      part <+: journal (history anyone bobConfirmed) :=
    List.forall_mem_singleton.mpr (List.take_prefix _ _)
  have same := restart_recovers (run anyone bobConfirmed) (List.nil_append _).symm broken .nil
  exact (same.peers bob.toPubkey).trans rfl

end Sandbox
end Tp2p
