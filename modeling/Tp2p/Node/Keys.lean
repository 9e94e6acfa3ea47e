import Tp2p.Node.Outcomes

/-! The cached shared keys of a node, and what its gate lets through. -/
namespace Tp2p
open Transition
variable [Sodium]

/-- The cached key is the one shared with the owner of the cached public key. -/
def PeerInfo.Keyed (info : PeerInfo) (ourSeckey : SecretKey) : Prop :=
  info.peer.precomputed = precompute info.peer.pubkey.inner ourSeckey

theorem PeerInfo.Keyed.confirmed {info : PeerInfo} {k : SecretKey} (h : info.Keyed k)
    {name : String} {now : DateTime} : (info.confirmed name now).Keyed k := h

theorem PeerInfo.Keyed.pinged {info : PeerInfo} {k : SecretKey} (h : info.Keyed k)
    {now : DateTime} : (info.setLastPing now).Keyed k := h

/-- The events that need no known sender. -/
def Event.isGreeting {U T S : Type} : Event U T S → Bool
  | .hello | .peerInit _ => true
  | _ => false

namespace Sync
variable {U T S : Type} [DecidableEq T]

/-- Records are filed under their own key, and every cached key is right. -/
structure KeysOk (s : Sync T) : Prop where
  filed : ∀ {pk info}, s.peers.lookup pk = some info → info.peer.pubkey = pk
  peers : ∀ {pk info}, s.peers.lookup pk = some info → info.Keyed s.keypair.seckey
  subscribers : ∀ {t e}, e ∈ s.subscribers t → e.Keyed s.keypair.seckey

/-- A filed peer is determined by its name. -/
theorem KeysOk.peer_eq {s : Sync T} (h : KeysOk s) {pk : Pubkey} {info : PeerInfo}
    (known : s.peers.lookup pk = some info) :
    info.peer = Peer.new info.peer.name pk s.keypair.seckey := by
  have hk := h.peers known
  rw [PeerInfo.Keyed, h.filed known] at hk
  rw [Peer.new, ← hk, ← h.filed known]

/-- The records that an action writes. -/
def written : SyncAction T → Option PeerInfo
  | .setPeer info | .setSubscription _ info => some info
  | _ => none

theorem KeysOk.applySyncAction {s : Sync T} (h : KeysOk s) {a : SyncAction T}
    (ha : ∀ info, written a = some info → info.Keyed s.keypair.seckey) :
    KeysOk (s.applySyncAction a) := by
  have hk : (s.applySyncAction a).keypair = s.keypair := (applySyncAction_sameSelf s a).keypair
  cases a with
  | setPeer new =>
    refine ⟨?_, ?_, h.subscribers⟩
    all_goals
      intro pk info hl
      rw [lookup_setPeer] at hl
      split at hl
    · next hp => cases hl; exact hp.symm
    · exact h.filed hl
    · cases hl; exact ha _ rfl
    · exact h.peers hl
  | unsetPeer pk' =>
    refine ⟨?_, ?_, h.subscribers⟩
    all_goals
      intro pk info hl
      rw [lookup_unsetPeer] at hl
      split at hl
    · cases hl
    · exact h.filed hl
    · cases hl
    · exact h.peers hl
  | setPendingPeer p =>
    have hp := peers_setPendingPeer s p
    have hq := subscribers_setPendingPeer s p
    exact ⟨fun hl => h.filed (hp ▸ hl), fun hl => hk ▸ h.peers (hp ▸ hl),
      fun he => hk ▸ h.subscribers (hq ▸ he)⟩
  | unsetPendingPeer c => exact ⟨h.filed, h.peers, h.subscribers⟩
  | setSubscription t' info =>
    refine ⟨h.filed, h.peers, ?_⟩
    intro t e he
    rw [subscribers_setSubscription] at he
    split at he
    · rcases mem_addSubscriber he with he | rfl
      · exact h.subscribers he
      · exact ha _ rfl
    · exact h.subscribers he
  | unsetSubscription t' info =>
    have hp := peers_unsetSubscription s t' info
    refine ⟨fun hl => h.filed (hp ▸ hl), fun hl => hk ▸ h.peers (hp ▸ hl), ?_⟩
    intro t e he
    rw [subscribers_unsetSubscription] at he
    rw [hk]
    split at he
    · exact h.subscribers (mem_dropSubscriber.mp he).1
    · exact h.subscribers he

theorem KeysOk.applySyncActions {s : Sync T} (h : KeysOk s) {as : List (SyncAction T)}
    (ha : ∀ a ∈ as, ∀ info, written a = some info → info.Keyed s.keypair.seckey) :
    KeysOk (s.applySyncActions as) := by
  induction as generalizing s with
  | nil => exact h
  | cons a as ih =>
    apply ih (h.applySyncAction (ha a List.mem_cons_self))
    intro b hb
    rw [(applySyncAction_sameSelf s a).keypair]
    exact ha b (List.mem_cons_of_mem _ hb)

theorem tmpInfo_keyed (s : Sync T) (pk : Pubkey) (c : ConnectionInfo) (now : DateTime) :
    (s.tmpInfo pk c now).Keyed s.keypair.seckey := rfl

section
variable [Rmp (Message U T S)]

omit [DecidableEq T] in
theorem open_congr {w : MessageSealed} {p q : Peer} (h : p.precomputed = q.precomputed) :
    w.open p = (w.open q : Except Error (Message U T S)) := by
  simp only [MessageSealed.open, h]

theorem unwrap_of_known {s : Sync T} {w : MessageSealed} {info : PeerInfo}
    (known : s.peers.lookup w.pubkeySender = some info) :
    s.unwrapIncomingMessage w = (w.open info.peer : Except Error (Message U T S)) := by
  cases ho : (w.open info.peer : Except Error (Message U T S)) with
  | error e => simp [unwrapIncomingMessage, known, ho]
  | ok m => simp [unwrapIncomingMessage, known, ho]

theorem unwrap_of_unknown {s : Sync T} {w : MessageSealed}
    (unknown : s.peers.lookup w.pubkeySender = none) :
    s.unwrapIncomingMessage w =
      (w.open (Peer.tmp w.pubkeySender s.keypair.seckey) >>= fun m : Message U T S =>
        if m.body.isGreeting then .ok m else .error (.peerNotFound w.pubkeySender)) := by
  simp only [unwrapIncomingMessage, findPeer_none, unknown, Option.isNone_none, if_true]
  congr 1
  funext m
  cases hb : m.body <;> rfl

/-- The gate opens under the key shared with the claimed sender, known or not. -/
theorem KeysOk.unwrap_ok {s : Sync T} (h : KeysOk s) {w : MessageSealed} {m : Message U T S} :
    s.unwrapIncomingMessage w = .ok m ↔
      w.open (Peer.tmp w.pubkeySender s.keypair.seckey) = .ok m ∧
        (m.body.isGreeting ∨ (s.peers.lookup w.pubkeySender).isSome) := by
  cases hl : s.peers.lookup w.pubkeySender with
  | some info =>
    have hc : w.open info.peer =
        (w.open (Peer.tmp w.pubkeySender s.keypair.seckey) : Except Error (Message U T S)) := by
      apply open_congr
      rw [h.peers hl, h.filed hl]
      rfl
    rw [unwrap_of_known hl, hc]
    simp
  | none =>
    rw [unwrap_of_unknown hl, Attempt.bind_eq_ok]
    constructor
    · rintro ⟨m', opened, hm⟩
      split at hm
      · next hg => cases hm; exact ⟨opened, .inl hg⟩
      · cases hm
    · rintro ⟨opened, hg⟩
      exact ⟨m, opened, if_pos (hg.resolve_right Bool.false_ne_true)⟩

end

variable [Rmp (Message U T S)] [Subscription S T]

theorem next_sameSelf (s : Sync T) (call : Call U T S) : SameSelf s (s.next call) := by
  rcases next_cases s call with ⟨as, _, _, _, h⟩ | ⟨_, h⟩
  · rw [h]; exact applySyncActions_sameSelf s as
  · rw [h]; exact .refl s

omit [Rmp (Message U T S)] in
theorem EventEffect.keyed {s : Sync T} {pk : Pubkey} {d : Delivery U T S} {e : Event U T S}
    {as : List (SyncAction T)} {sends : List (Sending U T S)} (h : EventEffect s pk d e as sends)
    (hs : KeysOk s) : ∀ a ∈ as, ∀ info, written a = some info → info.Keyed s.keypair.seckey := by
  intro a ha info hw
  cases h with
  | hello =>
    rcases List.mem_pair.mp ha with rfl | rfl <;> cases hw
    exact tmpInfo_keyed ..
  | peerInit _ known => cases List.mem_singleton.mp ha; cases hw; exact (hs.peers known).confirmed
  | peerConfirm known => cases List.mem_singleton.mp ha; cases hw; exact (hs.peers known).confirmed
  | ping known => cases List.mem_singleton.mp ha; cases hw; exact (hs.peers known).pinged
  | pong known => cases List.mem_singleton.mp ha; cases hw; exact (hs.peers known).pinged
  | subscribe known =>
    obtain ⟨t, _, rfl⟩ := List.mem_map.mp ha
    cases hw
    exact hs.peers known
  | unsubscribe known =>
    obtain ⟨t, _, rfl⟩ := List.mem_map.mp ha
    cases hw
  | _ => cases ha

/-- Every record that an effect writes carries the right key. -/
theorem Effect.keyed {s : Sync T} {call : Call U T S} {as : List (SyncAction T)}
    {sends : List (Sending U T S)} (h : Effect s call as sends) (hs : KeysOk s) :
    ∀ a ∈ as, ∀ info, written a = some info → info.Keyed s.keypair.seckey := by
  intro a ha info hw
  cases h with
  | initComm => cases List.mem_singleton.mp ha; cases hw
  | peerConfirm known => cases List.mem_singleton.mp ha; cases hw; exact (hs.peers known).confirmed
  | tick =>
    simp only [List.mem_append, List.mem_map] at ha
    rcases ha with ⟨_, _, rfl⟩ | ⟨_, _, rfl⟩ <;> cases hw
  | init => cases List.mem_singleton.mp ha; cases hw; exact tmpInfo_keyed ..
  | event _ effect => exact effect.keyed hs a ha info hw

theorem next_keysOk {s : Sync T} (hs : KeysOk s) (call : Call U T S) : KeysOk (s.next call) := by
  rcases next_cases s call with ⟨as, _, he, _, h⟩ | ⟨_, h⟩
  · rw [h]; exact hs.applySyncActions (he.keyed hs)
  · rw [h]; exact hs

theorem new_keysOk (name : String) (keypair : Keypair) (config : PeeringConfig) :
    KeysOk (Sync.new name keypair config : Sync T) := by
  constructor
  · intro pk info h; cases h
  · intro pk info h; cases h
  · intro t e h; cases h

end Sync

section
variable {U T S : Type} [DecidableEq T] [Rmp (Message U T S)] [Subscription S T]
variable {name : String} {keypair : Keypair} {config : PeeringConfig}
variable {past : History U T S} {s : Sync T}

/-- A node keeps its configuration, its name and its keys. -/
theorem NodeRun.sameSelf (run : NodeRun name keypair config past s) :
    Sync.SameSelf (Sync.new name keypair config) s :=
  Run.invariant (.refl _) (fun s call h => h.trans (Sync.next_sameSelf s call)) run

/-- The cached keys are right in every reachable state. -/
theorem NodeRun.keysOk (run : NodeRun name keypair config past s) : s.KeysOk :=
  Run.invariant (Sync.new_keysOk name keypair config) (fun _ call h => Sync.next_keysOk h call) run

end
end Tp2p
