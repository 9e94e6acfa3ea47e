import Tp2p.Lib.KeyedLog
import Tp2p.Model.Sandbox
import Tp2p.Node.Tables

/-! The tables against the log of the actions that were applied: the record of a peer
is the last one set, a pending initiation and a subscription the first one. -/
namespace Tp2p
open KeyedLog

section
variable [Sodium]

namespace SyncAction
variable {T : Type} [DecidableEq T]

/-- What an action means for the peers, by public key. -/
def peerOp : SyncAction T → Option (Op Pubkey PeerInfo)
  | .setPeer peerInfo => some (.put peerInfo)
  | .unsetPeer pubkey => some (.drop pubkey)
  | _ => none

/-- What an action means for the pending initiations, by connection. -/
def pendingOp : SyncAction T → Option (Op ConnectionInfo PendingPeer)
  | .setPendingPeer pendingPeer => some (.put pendingPeer)
  | .unsetPendingPeer connectionInfo => some (.drop connectionInfo)
  | _ => none

/-- What an action means for the subscribers of a topic, by peer. -/
def subscriptionOp (t : T) : SyncAction T → Option (Op Peer PeerInfo)
  | .setSubscription topic peerInfo => if topic = t then some (.put peerInfo) else none
  | .unsetSubscription topic peerInfo => if topic = t then some (.drop peerInfo.peer) else none
  | _ => none

/-- Both sequences have the same actions on each peer, on each connection, and on each
peer's subscription to each topic, in the same order. -/
structure SameOrder (as as' : List (SyncAction T)) : Prop where
  peers : ∀ pk, (as.filterMap peerOp).filter (·.on (·.peer.pubkey) = pk) =
    (as'.filterMap peerOp).filter (·.on (·.peer.pubkey) = pk)
  pending : ∀ c, (as.filterMap pendingOp).filter (·.on (·.connectionInfo) = c) =
    (as'.filterMap pendingOp).filter (·.on (·.connectionInfo) = c)
  subscriptions : ∀ t peer, (as.filterMap (subscriptionOp t)).filter (·.on (·.peer) = peer) =
    (as'.filterMap (subscriptionOp t)).filter (·.on (·.peer) = peer)

end SyncAction

namespace Sync
open SyncAction
variable {T : Type} [DecidableEq T]

/-- The tables are the same up to the order of their lists. -/
structure SameTables (s s' : Sync T) : Prop where
  peers : ∀ pk, s.peers.lookup pk = s'.peers.lookup pk
  pending : s.pendingPeerInit.Perm s'.pendingPeerInit
  subscriptions : ∀ t, Option.Rel List.Perm (s.subscriptions.lookup t) (s'.subscriptions.lookup t)

/-- A topic is a key only while it has subscribers. -/
def InUse (s : Sync T) : Prop := ∀ t entries, s.subscriptions.lookup t = some entries → entries ≠ []

/-- The tables that a sequence of actions calls for. -/
structure Reference (as : List (SyncAction T)) (s : Sync T) : Prop where
  peers : ∀ pk, s.peers.lookup pk = latest (·.peer.pubkey) pk (as.filterMap peerOp)
  pending : s.pendingPeerInit = standing (·.connectionInfo) [] (as.filterMap pendingOp)
  pendingOnce : ∀ c, (s.pendingPeerInit.filter (·.connectionInfo = c)).length =
    if (latest (·.connectionInfo) c (as.filterMap pendingOp)).isSome then 1 else 0
  subscribers : ∀ t, s.subscribers t = standing (·.peer) [] (as.filterMap (subscriptionOp t))
  subscribedOnce : ∀ t peer, ((s.subscribers t).filter (·.peer = peer)).length =
    if (latest (·.peer) peer (as.filterMap (subscriptionOp t))).isSome then 1 else 0
  inUse : s.InUse

theorem lookup_of_inUse {s : Sync T} (h : s.InUse) (t : T) :
    s.subscriptions.lookup t = if s.subscribers t = [] then none else some (s.subscribers t) := by
  cases hl : s.subscriptions.lookup t with
  | none => simp [subscribers, hl]
  | some entries => simp [subscribers, hl, h t entries hl]

theorem SameTables.of_subscribers {s s' : Sync T} (hs : s.InUse) (hs' : s'.InUse)
    (peers : ∀ pk, s.peers.lookup pk = s'.peers.lookup pk)
    (pending : s.pendingPeerInit.Perm s'.pendingPeerInit)
    (subscribers : ∀ t, (s.subscribers t).Perm (s'.subscribers t)) : SameTables s s' := by
  refine ⟨peers, pending, fun t => ?_⟩
  have h := subscribers t
  rw [lookup_of_inUse hs, lookup_of_inUse hs']
  by_cases he : s.subscribers t = []
  · rw [he] at h
    rw [if_pos he, if_pos h.symm.eq_nil]
    exact .none
  · have he' : s'.subscribers t ≠ [] := by
      intro he'
      rw [he'] at h
      exact he h.eq_nil
    rw [if_neg he, if_neg he']
    exact .some h

/-! One action -/

omit [DecidableEq T] in
theorem step_put_eq (entries : List PeerInfo) (info : PeerInfo) :
    step (fun e : PeerInfo => e.peer) entries (.put info) = addSubscriber entries info := by
  have h : entries.any (·.peer = info.peer) = (entries.find? (·.peer == info.peer)).isSome := by
    rw [Bool.eq_iff_iff]
    simp
  rw [step, addSubscriber, h]

theorem lookup_applySyncAction (s : Sync T) (a : SyncAction T) (pk : Pubkey) :
    (s.applySyncAction a).peers.lookup pk = match peerOp a with
      | some op => if op.on (·.peer.pubkey) = pk then op.value else s.peers.lookup pk
      | none => s.peers.lookup pk := by
  cases a with
  | setPeer info =>
    rw [lookup_setPeer]
    exact if_congr eq_comm rfl rfl
  | unsetPeer pk' =>
    rw [lookup_unsetPeer]
    exact if_congr eq_comm rfl rfl
  | _ => simp [peerOp]

theorem pending_applySyncAction (s : Sync T) (a : SyncAction T) :
    (s.applySyncAction a).pendingPeerInit = match pendingOp a with
      | some op => step (·.connectionInfo) s.pendingPeerInit op
      | none => s.pendingPeerInit := by
  cases a with
  | setPendingPeer p =>
    have h : s.pendingPeerInit.any (·.connectionInfo = p.connectionInfo) =
        !(s.findPendingPeerInit p.connectionInfo).isNone := by
      rw [Bool.eq_iff_iff, Option.not_isNone, findPendingPeerInit_isSome]
      simp
    rw [pending_setPendingPeer]
    simp only [pendingOp, step, h]
    cases (s.findPendingPeerInit p.connectionInfo).isNone <;> rfl
  | unsetPendingPeer c =>
    rw [pending_unsetPendingPeer]
    simp only [pendingOp, step]
    apply List.filter_congr
    intro p _
    by_cases hp : p.connectionInfo = c <;> simp [hp]
  | _ => simp [pendingOp]

theorem subscribers_applySyncAction (s : Sync T) (a : SyncAction T) (t : T) :
    (s.applySyncAction a).subscribers t = match subscriptionOp t a with
      | some op => step (·.peer) (s.subscribers t) op
      | none => s.subscribers t := by
  cases a with
  | setSubscription t' info =>
    rw [subscribers_setSubscription]
    by_cases ht : t' = t
    · subst ht
      simp [subscriptionOp, step_put_eq]
    · simp [subscriptionOp, ht, Ne.symm ht]
  | unsetSubscription t' info =>
    rw [subscribers_unsetSubscription]
    by_cases ht : t' = t
    · subst ht
      simp only [if_true, subscriptionOp, step, dropSubscriber]
      apply List.filter_congr
      intro e _
      by_cases he : e.peer = info.peer <;> simp [he]
    · simp [subscriptionOp, ht, Ne.symm ht]
  | _ => simp [subscriptionOp]

theorem InUse.applySyncAction {s : Sync T} (h : s.InUse) (a : SyncAction T) :
    (s.applySyncAction a).InUse := by
  intro t entries hl
  cases a with
  | setSubscription t' info =>
    simp only [Sync.applySyncAction, HashMap.lookup_insert] at hl
    split at hl
    · cases hl
      split
      · next hf =>
        rintro he
        simp [he] at hf
      · simp
    · exact h t entries hl
  | unsetSubscription t' info =>
    simp only [Sync.applySyncAction] at hl
    split at hl
    · split at hl
      · rw [HashMap.lookup_erase] at hl
        split at hl
        · cases hl
        · exact h t entries hl
      · next hne =>
        rw [HashMap.lookup_insert] at hl
        split at hl
        · cases hl
          exact fun he => hne (by rw [he]; rfl)
        · exact h t entries hl
    · exact h t entries hl
  | setPendingPeer p =>
    simp only [Sync.applySyncAction] at hl
    split at hl <;> exact h t entries hl
  | _ => exact h t entries hl

/-! A sequence of actions -/

theorem InUse.applySyncActions {s : Sync T} (h : s.InUse) (as : List (SyncAction T)) :
    (s.applySyncActions as).InUse := by
  induction as generalizing s with
  | nil => exact h
  | cons a as ih => exact ih (h.applySyncAction a)

theorem applySyncActions_concat (s : Sync T) (as : List (SyncAction T)) (a : SyncAction T) :
    s.applySyncActions (as ++ [a]) = (s.applySyncActions as).applySyncAction a := by
  rw [applySyncActions_append]
  rfl

theorem applySyncActions_batches (s : Sync T) (batches : List (List (SyncAction T))) :
    batches.foldl applySyncActions s = s.applySyncActions batches.flatten :=
  List.foldl_flatten.symm

variable (name : String) (keypair : Keypair) (config : PeeringConfig)

theorem lookup_replayed (as : List (SyncAction T)) (pk : Pubkey) :
    ((new name keypair config).applySyncActions as).peers.lookup pk =
      latest (·.peer.pubkey) pk (as.filterMap peerOp) := by
  induction as using List.reverseRecOn with
  | nil => rfl
  | append_singleton as a ih =>
    rw [applySyncActions_concat, lookup_applySyncAction, List.filterMap_append, ih]
    cases ho : peerOp a with
    | none => simp [ho]
    | some op => simp [ho, latest_concat]

theorem pending_replayed (as : List (SyncAction T)) :
    ((new name keypair config).applySyncActions as).pendingPeerInit =
      replay (·.connectionInfo) (as.filterMap pendingOp) := by
  induction as using List.reverseRecOn with
  | nil => rfl
  | append_singleton as a ih =>
    rw [applySyncActions_concat, pending_applySyncAction, List.filterMap_append, ih]
    cases ho : pendingOp a with
    | none => simp [ho]
    | some op => simp [ho, replay_concat]

theorem subscribers_replayed (as : List (SyncAction T)) (t : T) :
    ((new name keypair config).applySyncActions as).subscribers t =
      replay (·.peer) (as.filterMap (subscriptionOp t)) := by
  induction as using List.reverseRecOn with
  | nil => rfl
  | append_singleton as a ih =>
    rw [applySyncActions_concat, subscribers_applySyncAction, List.filterMap_append, ih]
    cases ho : subscriptionOp t a with
    | none => simp [ho]
    | some op => simp [ho, replay_concat]

theorem new_inUse : (new name keypair config : Sync T).InUse := by
  intro t entries hl
  cases hl

theorem inUse_replayed (as : List (SyncAction T)) :
    ((new name keypair config).applySyncActions as).InUse :=
  (new_inUse name keypair config).applySyncActions as

theorem replayed_reference (as : List (SyncAction T)) :
    Reference as ((new name keypair config).applySyncActions as) where
  peers pk := lookup_replayed name keypair config as pk
  pending := by rw [pending_replayed, replay_eq_standing]
  pendingOnce c := by rw [pending_replayed, length_filter_replay]
  subscribers t := by rw [subscribers_replayed, replay_eq_standing]
  subscribedOnce t peer := by rw [subscribers_replayed, length_filter_replay]
  inUse := inUse_replayed name keypair config as

theorem replayed_sameTables {as as' : List (SyncAction T)} (same : SameOrder as as') :
    SameTables ((new name keypair config).applySyncActions as)
      ((new name keypair config).applySyncActions as') := by
  apply SameTables.of_subscribers (inUse_replayed name keypair config as)
    (inUse_replayed name keypair config as')
  · intro pk
    rw [lookup_replayed, lookup_replayed, ← latest_filter, same.peers, latest_filter]
  · rw [pending_replayed, pending_replayed]
    exact replay_perm _ same.pending
  · intro t
    rw [subscribers_replayed, subscribers_replayed]
    exact replay_perm _ (same.subscriptions t)

/-- Whatever the actions and however they are batched, the tables are those that the
sequence calls for, and only the order on each key matters. -/
theorem applySyncActions_refines (batches : List (List (SyncAction T))) :
    Reference batches.flatten (batches.foldl applySyncActions (new name keypair config)) ∧
      ∀ batches' : List (List (SyncAction T)), SameOrder batches.flatten batches'.flatten →
        SameTables (batches.foldl applySyncActions (new name keypair config))
          (batches'.foldl applySyncActions (new name keypair config)) := by
  constructor
  · rw [applySyncActions_batches]
    exact replayed_reference name keypair config _
  · intro batches' same
    rw [applySyncActions_batches, applySyncActions_batches]
    exact replayed_sameTables name keypair config same

end Sync

variable {U T S : Type} [DecidableEq T] [Rmp (Message U T S)] [Subscription S T]
variable {name : String} {keypair : Keypair} {config : PeeringConfig}
variable {past : History U T S} {s : Sync T}

/-- A reachable state is what the actions returned so far call for. -/
theorem NodeRun.replayed (run : NodeRun name keypair config past s) :
    ∃ as, s = (Sync.new name keypair config).applySyncActions as := by
  induction run with
  | start => exact ⟨[], rfl⟩
  | @step past s _ call ih =>
    obtain ⟨as, rfl⟩ := ih
    rcases Attempt.ok_or_error (Sync.exec _ call) with ⟨actions, h⟩ | ⟨e, h⟩
    · exact ⟨as ++ syncActions actions, by rw [Sync.next_ok h, Sync.applySyncActions_append]⟩
    · exact ⟨as, Sync.next_error h⟩

/-- No two pending initiations are for one connection. -/
theorem NodeRun.pending_nodup (run : NodeRun name keypair config past s) :
    (s.pendingPeerInit.map (·.connectionInfo)).Nodup := by
  obtain ⟨as, rfl⟩ := run.replayed
  rw [Sync.pending_replayed]
  exact nodup_replay _ _

end

namespace Sandbox

/-- Two initiations that change places leave the same tables. -/
theorem initiations_commute :
    Sync.SameTables
      ([[.setPendingPeer ⟨connection 2, 0⟩], [.setPendingPeer ⟨connection 3, 1⟩]].foldl
        Sync.applySyncActions (Sync.new "a" alice anyone : Sync Unit))
      ([[.setPendingPeer ⟨connection 3, 1⟩, .setPendingPeer ⟨connection 2, 0⟩]].foldl
        Sync.applySyncActions (Sync.new "a" alice anyone : Sync Unit)) := by
  refine (Sync.applySyncActions_refines "a" alice anyone _).2 _ ⟨fun _ => rfl, fun c => ?_, fun _ _ => rfl⟩
  by_cases h2 : connection 2 = c
  · subst h2
    rfl
  · simp [SyncAction.pendingOp, KeyedLog.Op.on, h2, List.filter_cons]

end Sandbox
end Tp2p
