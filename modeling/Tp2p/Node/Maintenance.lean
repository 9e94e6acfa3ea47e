import Tp2p.Model.Sandbox
import Tp2p.Node.Records
import Tp2p.Node.Reference

/-! The maintenance that `tick` does, action by action, and what becomes of the tables
when its actions are applied in whatever order. -/
namespace Tp2p
open Transition

section
variable [Sodium] {U T S : Type} [DecidableEq T]

/-- The codec has an encoding for every `Ping`. -/
def PingsSeal (U T S : Type) [Rmp (Message U T S)] : Prop :=
  ∀ now nonce, (Message.new ⟨now, nonce⟩ .ping [] : Message U T S).Serializable

namespace Sync

/-- What a tick returns for a peer: nothing for 60 seconds after it was last heard of,
then a `Ping`, and from 180 seconds on the end of it, if it is not confirmed. -/
inductive PeerShare [Rmp (Message U T S)] (s : Sync T) (now : DateTime) (nonce : Pubkey → Nonce)
    (info : PeerInfo) : List (Action U T S) → Prop where
  | recent (h : numSeconds (now - info.lastPing) < 60) : PeerShare s now nonce info []
  | overdue (h : 180 < numSeconds (now - info.lastPing)) (inactive : info.active = false) :
      PeerShare s now nonce info [.sync (.unsetPeer info.peer.pubkey)]
  | due {w : MessageSealed} (h : 60 ≤ numSeconds (now - info.lastPing))
      (kept : numSeconds (now - info.lastPing) ≤ 180 ∨ info.active = true)
      (hseal : MessageSealed.seal s.keypair.toPubkey info.peer
        (Message.new ⟨now, nonce info.peer.pubkey⟩ .ping [] : Message U T S) = .ok w) :
      PeerShare s now nonce info [.messageSend info.connectionInfo (.sealed w)]

/-- What a tick returns for a pending initiation: the end of it after 120 seconds. -/
def pendingShare (now : DateTime) (p : PendingPeer) : List (Action U T S) :=
  if 120 ≤ numSeconds (now - p.created) then [.sync (.unsetPendingPeer p.connectionInfo)] else []

/-- Whom a tick pings. -/
def pinged (s : Sync T) (order : IterOrder PeerInfo) (now : DateTime) : List PeerInfo :=
  (order.arrange (HashMap.values s.peers)).filter (Due now ·)

/-- A tick returns the shares of all peers and then those of all pending initiations,
each of them once. -/
structure Maintenance [Rmp (Message U T S)] (s : Sync T) (order : IterOrder PeerInfo)
    (now : DateTime) (nonce : Pubkey → Nonce) (actions : List (Action U T S)) : Prop where
  shares : ∃ shares, actions = shares.flatten ++ (s.pendingPeerInit.map (pendingShare now)).flatten ∧
    List.Forall₂ (PeerShare s now nonce) (order.arrange (HashMap.values s.peers)) shares
  peersOnce : ((order.arrange (HashMap.values s.peers)).map (·.peer.pubkey)).Nodup
  pendingOnce : (s.pendingPeerInit.map (·.connectionInfo)).Nodup
  pings : List.Forall₂ (Sending.SealedAs s.keypair.toPubkey)
    ((pinged s order now).map fun info =>
      (.fresh info now (nonce info.peer.pubkey) .ping : Sending U T S)) (sealedSends actions)

/-- The overdue peers and the expired initiations are gone, and all else is as it was. -/
structure Pruned (now : DateTime) (s s' : Sync T) : Prop where
  peers : ∀ pk, s'.peers.lookup pk = (s.peers.lookup pk).filter fun info => ¬ Overdue now info
  pending : s'.pendingPeerInit = s.pendingPeerInit.filter fun p => ¬ Expired now p
  subscriptions : s'.subscriptions = s.subscriptions
  self : SameSelf s s'

theorem values_nodup {s : Sync T} (hs : KeysOk s) :
    ((HashMap.values s.peers).map (·.peer.pubkey)).Nodup := by
  have h : (HashMap.values s.peers).map (·.peer.pubkey) = s.peers.keys := by
    rw [HashMap.values, List.map_map]
    apply List.map_congr_left
    intro e he
    exact hs.filed ((HashMap.mem_entries s.peers e.1 e.2).mp he)
  rw [h]
  exact s.peers.keys_nodup

theorem mem_pinged {s : Sync T} {order : IterOrder PeerInfo} {now : DateTime} {info : PeerInfo} :
    info ∈ pinged s order now ↔ (∃ pk, s.peers.lookup pk = some info) ∧ Due now info := by
  simp [pinged, HashMap.mem_values]

theorem pinged_nodup {s : Sync T} (hs : KeysOk s) (order : IterOrder PeerInfo) (now : DateTime) :
    (pinged s order now).Nodup := by
  apply List.Nodup.filter
  exact (order.perm _).nodup_iff.mpr (values_nodup hs).of_map

theorem KeysOk.of_unsets {s : Sync T} (hs : KeysOk s) {as : List (SyncAction T)}
    (h : ∀ a ∈ as, Unsets a) : KeysOk (s.applySyncActions as) := by
  apply hs.applySyncActions
  intro a ha info hw
  cases a with
  | unsetPeer | unsetPendingPeer => cases hw
  | _ => exact absurd (h _ ha) id

/-! What a tick returns -/

section
variable [Rmp (Message U T S)]

omit [DecidableEq T] [Rmp (Message U T S)] in
theorem tickPending_share (now : DateTime) :
    tickPending (U := U) (T := T) (S := S) now = pendingShare now := by
  funext p
  simp only [tickPending, pendingShare]
  split
  · rw [if_neg (by omega)]
  · rw [if_pos (by omega)]

theorem tickPeer_share (pings : PingsSeal U T S) (s : Sync T) (now : DateTime)
    (nonce : Pubkey → Nonce) (info : PeerInfo) :
    ∃ actions : List (Action U T S), s.tickPeer now nonce info = .ok actions := by
  simp only [tickPeer]
  split
  · exact ⟨_, rfl⟩
  · split
    · exact ⟨_, rfl⟩
    · obtain ⟨w, _, hw⟩ := createSealedMessage_succeeds s info.peer
        (pings now (nonce info.peer.pubkey))
      exact ⟨_, Attempt.bind_eq_ok.mpr ⟨_, hw, rfl⟩⟩

theorem peerShare_of_ok {s : Sync T} {now : DateTime} {nonce : Pubkey → Nonce} {info : PeerInfo}
    {actions : List (Action U T S)} (h : s.tickPeer now nonce info = .ok actions) :
    PeerShare s now nonce info actions := by
  simp only [tickPeer] at h
  split at h
  · next hl =>
    cases h
    exact .recent hl
  · next hl =>
    split at h
    · next hover =>
      cases h
      simp only [Bool.and_eq_true, decide_eq_true_eq, Bool.not_eq_true'] at hover
      exact .overdue hover.1 hover.2
    · next hover =>
      obtain ⟨w, hw, h⟩ := Attempt.bind_eq_ok.mp h
      obtain ⟨sealed, hseal, rfl⟩ := createSealedMessage_ok hw
      cases Attempt.pure_eq_ok.mp h
      refine .due (by omega) ?_ hseal
      simp only [Bool.and_eq_true, decide_eq_true_eq, Bool.not_eq_true', not_and,
        Bool.not_eq_false] at hover
      by_cases h180 : numSeconds (now - info.lastPing) ≤ 180
      · exact .inl h180
      · exact .inr (hover (by omega))

variable [Subscription S T]

/-- What a tick returns has the effect of a tick. -/
theorem tick_effect {s : Sync T} {order : IterOrder PeerInfo} {now : DateTime}
    {nonce : Pubkey → Nonce} {actions : List (Action U T S)}
    (h : s.tick order now nonce = .ok actions) :
    Effect (U := U) (S := S) s (.tick order now nonce) (syncActions actions)
        ((pinged s order now).map fun info => .fresh info now (nonce info.peer.pubkey) .ping) ∧
      List.Forall₂ (Sending.SealedAs s.keypair.toPubkey) ((pinged s order now).map fun info =>
        (.fresh info now (nonce info.peer.pubkey) .ping : Sending U T S)) (sealedSends actions) := by
  have h' : s.exec (.tick order now nonce) = .ok actions := h
  obtain ⟨as, sends, effect, rfl, sealed⟩ := exec_effect h'
  obtain ⟨_, rfl⟩ := effect.unique .tick
  exact ⟨effect, sealed⟩

theorem tick_maintenance (pings : PingsSeal U T S) {s : Sync T} (hs : KeysOk s)
    (pending : (s.pendingPeerInit.map (·.connectionInfo)).Nodup) (order : IterOrder PeerInfo)
    (now : DateTime) (nonce : Pubkey → Nonce) :
    ∃ actions : List (Action U T S), s.tick order now nonce = .ok actions ∧
      Maintenance s order now nonce actions := by
  have each : ∀ info ∈ order.arrange (HashMap.values s.peers),
      ∃ share : List (Action U T S), s.tickPeer now nonce info = .ok share :=
    fun info _ => tickPeer_share pings s now nonce info
  obtain ⟨shares, hshares⟩ := Attempt.mapM_succeeds each
  have heq : s.tick order now nonce =
      .ok (shares.flatten ++ (s.pendingPeerInit.map (pendingShare now)).flatten) := by
    rw [tick, hshares, Attempt.bind_ok, tickPending_share]
    rfl
  refine ⟨_, heq, ⟨⟨shares, rfl, ?_⟩, ?_, pending, (tick_effect heq).2⟩⟩
  · exact (Attempt.mapM_eq_ok.mp hshares).imp fun _ _ => peerShare_of_ok
  · exact (((order.perm _).map _).nodup_iff).mpr (values_nodup hs)

/-- Its actions, applied in any order, remove exactly that. -/
theorem tick_prunes {s : Sync T} (hs : KeysOk s)
    (once : (s.pendingPeerInit.map (·.connectionInfo)).Nodup) {order : IterOrder PeerInfo}
    {now : DateTime} {nonce : Pubkey → Nonce} {actions : List (Action U T S)}
    (h : s.tick order now nonce = .ok actions) {as : List (SyncAction T)}
    (perm : as.Perm (syncActions actions)) :
    (∀ a ∈ as, Unsets a) ∧ Pruned now s (s.applySyncActions as) := by
  have effect := (tick_effect h).1
  have unsets : ∀ a ∈ as, Unsets a := fun a ha => effect.unsets_of_tick a (perm.mem_iff.mp ha)
  refine ⟨unsets, fun pk => ?_, ?_, subscriptions_of_unsets unsets, applySyncActions_sameSelf s as⟩
  · rw [← effect.lookup_tick hs, lookup_of_unsets unsets, lookup_of_unsets effect.unsets_of_tick]
    exact if_congr perm.mem_iff rfl rfl
  · rw [pending_of_unsets unsets]
    apply List.filter_congr
    intro p hp
    have hc : .unsetPendingPeer p.connectionInfo ∈ as ↔ Expired now p := by
      rw [perm.mem_iff, effect.mem_tick hs]
      constructor
      · rintro (⟨_, _, _, _, h⟩ | ⟨q, hq, he, h⟩)
        · cases h
        · -- there is no other entry for the connection
          have hpq : p = q := List.inj_on_of_nodup_map once hp hq (SyncAction.unsetPendingPeer.inj h)
          rwa [hpq]
      · intro he
        exact .inr ⟨p, hp, he, rfl⟩
    rw [decide_eq_decide, hc]

/-- What a tick has pruned, the next one at the same time pings again and leaves alone. -/
theorem tick_again {s s' : Sync T} (hs : KeysOk s) (hs' : KeysOk s') {now : DateTime}
    (pruned : Pruned now s s') {order order' : IterOrder PeerInfo} {nonce' : Pubkey → Nonce}
    {actions' : List (Action U T S)} (h : s'.tick order' now nonce' = .ok actions') :
    syncActions actions' = [] ∧ (pinged s' order' now).Perm (pinged s order now) := by
  have kept : ∀ pk info, s'.peers.lookup pk = some info ↔
      s.peers.lookup pk = some info ∧ ¬ Overdue now info := by
    intro pk info
    rw [pruned.peers, Option.filter_eq_some_iff, decide_eq_true_eq]
  constructor
  · apply List.eq_nil_iff_forall_not_mem.mpr
    intro a ha
    rcases ((tick_effect h).1.mem_tick hs').mp ha with ⟨pk, info, hl, ho, _⟩ | ⟨p, hp, he, _⟩
    · exact ((kept pk info).mp hl).2 ho
    · rw [pruned.pending, List.mem_filter] at hp
      exact of_decide_eq_true hp.2 he
  · apply (List.perm_ext_iff_of_nodup (pinged_nodup hs' order' now) (pinged_nodup hs order now)).mpr
    intro info
    rw [mem_pinged, mem_pinged]
    constructor
    · rintro ⟨⟨pk, hl⟩, due⟩
      exact ⟨⟨pk, ((kept pk info).mp hl).1⟩, due⟩
    · rintro ⟨⟨pk, hl⟩, due⟩
      exact ⟨⟨pk, (kept pk info).mpr ⟨hl, due.2⟩⟩, due⟩

end
end Sync

variable [Rmp (Message U T S)] [Subscription S T]
variable {name : String} {keypair : Keypair} {config : PeeringConfig}
variable {past : History U T S} {s : Sync T}

/-- The state after a tick. -/
theorem NodeRun.tick_prunes (pings : PingsSeal U T S) (run : NodeRun name keypair config past s)
    (order : IterOrder PeerInfo) (now : DateTime) (nonce : Pubkey → Nonce) :
    Sync.Pruned now s (s.next (.tick order now nonce : Call U T S)) := by
  have once := NodeRun.pending_nodup run
  obtain ⟨actions, h, _⟩ := Sync.tick_maintenance pings run.keysOk once order now nonce
  have h' : s.exec (.tick order now nonce) = .ok actions := h
  rw [Sync.next_ok h']
  exact (Sync.tick_prunes run.keysOk once h (.refl _)).2

/-- In every reachable state a tick does its maintenance and nothing else, its actions may
be applied in any order, and a second tick at the same time finds nothing left to prune. -/
theorem tick_exact (pings : PingsSeal U T S) (run : NodeRun name keypair config past s)
    (order : IterOrder PeerInfo) (now : DateTime) (nonce : Pubkey → Nonce) :
    ∃ actions : List (Action U T S), s.tick order now nonce = .ok actions ∧
      Sync.Maintenance s order now nonce actions ∧
      ∀ as, as.Perm (syncActions actions) → Sync.Pruned now s (s.applySyncActions as) ∧
        ∀ (order' : IterOrder PeerInfo) (nonce' : Pubkey → Nonce),
          ∃ actions' : List (Action U T S),
            (s.applySyncActions as).tick order' now nonce' = .ok actions' ∧
            Sync.Maintenance (s.applySyncActions as) order' now nonce' actions' ∧
            syncActions actions' = [] ∧
            (Sync.pinged (s.applySyncActions as) order' now).Perm (Sync.pinged s order now) := by
  have hs := run.keysOk
  have once := NodeRun.pending_nodup run
  obtain ⟨actions, h, maintenance⟩ := Sync.tick_maintenance pings hs once order now nonce
  refine ⟨actions, h, maintenance, fun as perm => ?_⟩
  obtain ⟨unsets, pruned⟩ := Sync.tick_prunes hs once h perm
  refine ⟨pruned, fun order' nonce' => ?_⟩
  have hs' := hs.of_unsets unsets
  have once' : ((s.applySyncActions as).pendingPeerInit.map (·.connectionInfo)).Nodup := by
    rw [pruned.pending]
    exact once.sublist (List.filter_sublist.map _)
  obtain ⟨actions', h', maintenance'⟩ := Sync.tick_maintenance pings hs' once' order' now nonce'
  exact ⟨actions', h', maintenance', Sync.tick_again hs hs' pruned h'⟩

end

namespace Sandbox

theorem pingsSeal : PingsSeal Bool Unit Unit := fun _ _ => serializable _

/-- Four minutes after Mallory knocked, a tick forgets Mallory and pings Bob. -/
theorem tick_forgets_mallory : ∃ actions : List (Action Bool Unit Unit),
    (after anyone (.receive (.init mallory.toPubkey) (delivered 3 0 2 []) :: bobConfirmed)).tick
      .stored 240000000000 (fun _ => 7) = .ok actions ∧
    ((after anyone (.receive (.init mallory.toPubkey) (delivered 3 0 2 []) ::
      bobConfirmed)).applySyncActions (syncActions actions)).peers.lookup mallory.toPubkey = none := by
  obtain ⟨actions, h, _, applied⟩ := tick_exact pingsSeal
    (run anyone (.receive (.init mallory.toPubkey) (delivered 3 0 2 []) :: bobConfirmed))
    .stored 240000000000 (fun _ => 7)
  exact ⟨actions, h, ((applied _ (.refl _)).1.peers mallory.toPubkey).trans (by decide)⟩

end Sandbox
end Tp2p
