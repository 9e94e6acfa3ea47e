import Tp2p.Model.Sandbox
import Tp2p.Node.Opening

/-! What an incoming message leaves alone: everything about peers other than its
sender, and about connections other than its own. -/
namespace Tp2p
open Transition

section
variable [Sodium]

/-- Whom the message claims to be from. -/
def MessageWrapped.pubkeySender : MessageWrapped → Pubkey
  | .sealed message => message.pubkeySender
  | .init pubkey => pubkey

/-- The action is about this peer or this connection. -/
def SyncAction.Within {T : Type} (pk : Pubkey) (c : ConnectionInfo) : SyncAction T → Prop
  | .setPeer info | .setSubscription _ info | .unsetSubscription _ info => info.peer.pubkey = pk
  | .unsetPeer pk' => pk' = pk
  | .setPendingPeer p => p.connectionInfo = c
  | .unsetPendingPeer c' => c' = c

theorem filter_addSubscriber_of_ne {entries : List PeerInfo} {info : PeerInfo} {q : Pubkey}
    (hq : info.peer.pubkey ≠ q) : (addSubscriber entries info).filter (·.peer.pubkey = q) =
      entries.filter (·.peer.pubkey = q) := by
  unfold addSubscriber
  split
  · rfl
  · simp [hq]

theorem filter_dropSubscriber_of_ne {entries : List PeerInfo} {peer : Peer} {q : Pubkey}
    (hq : peer.pubkey ≠ q) : (dropSubscriber entries peer).filter (·.peer.pubkey = q) =
      entries.filter (·.peer.pubkey = q) := by
  rw [dropSubscriber, List.filter_filter]
  apply List.filter_congr
  intro e _
  by_cases he : e.peer.pubkey = q
  · have hne : e.peer ≠ peer := by
      rintro rfl
      exact hq he
    simp [he, hne]
  · simp [he]

namespace Sync
variable {U T S : Type} [DecidableEq T]

/-- What is kept about the other peers and the other connections is as it was, and in
the same order. -/
structure SameElsewhere (pk : Pubkey) (c : ConnectionInfo) (s s' : Sync T) : Prop where
  peers : ∀ q, q ≠ pk → s'.peers.lookup q = s.peers.lookup q
  subscribers : ∀ q, q ≠ pk → ∀ t, (s'.subscribers t).filter (·.peer.pubkey = q) =
    (s.subscribers t).filter (·.peer.pubkey = q)
  pending : s'.pendingPeerInit.filter (·.connectionInfo ≠ c) =
    s.pendingPeerInit.filter (·.connectionInfo ≠ c)

theorem SameElsewhere.refl (pk : Pubkey) (c : ConnectionInfo) (s : Sync T) :
    SameElsewhere pk c s s :=
  ⟨fun _ _ => rfl, fun _ _ _ => rfl, rfl⟩

theorem SameElsewhere.trans {pk : Pubkey} {c : ConnectionInfo} {s s' s'' : Sync T}
    (h : SameElsewhere pk c s s') (h' : SameElsewhere pk c s' s'') : SameElsewhere pk c s s'' :=
  ⟨fun q hq => (h'.peers q hq).trans (h.peers q hq),
    fun q hq t => (h'.subscribers q hq t).trans (h.subscribers q hq t), h'.pending.trans h.pending⟩

theorem applySyncAction_within (s : Sync T) {pk : Pubkey} {c : ConnectionInfo} {a : SyncAction T}
    (h : a.Within pk c) : SameElsewhere pk c s (s.applySyncAction a) := by
  cases a with
  | setPeer info =>
    refine ⟨fun q hq => ?_, fun _ _ _ => rfl, rfl⟩
    rw [lookup_setPeer, if_neg]
    rintro rfl
    exact hq h
  | unsetPeer pk' =>
    refine ⟨fun q hq => ?_, fun _ _ _ => rfl, rfl⟩
    rw [lookup_unsetPeer, if_neg]
    rintro rfl
    exact hq h
  | setPendingPeer p =>
    refine ⟨fun q _ => by rw [peers_setPendingPeer], fun q _ t => by rw [subscribers_setPendingPeer],
      ?_⟩
    have hp : p.connectionInfo = c := h
    rw [pending_setPendingPeer]
    split
    · simp [hp]
    · rfl
  | unsetPendingPeer c' =>
    refine ⟨fun _ _ => rfl, fun _ _ _ => rfl, ?_⟩
    obtain rfl : c' = c := h
    rw [pending_unsetPendingPeer, List.filter_filter]
    apply List.filter_congr
    intro p _
    by_cases hp : p.connectionInfo = c' <;> simp [hp]
  | setSubscription t' info =>
    refine ⟨fun q _ => by rw [peers_setSubscription], fun q hq t => ?_,
      by rw [pending_setSubscription]⟩
    rw [subscribers_setSubscription]
    split
    · next ht =>
      subst ht
      exact filter_addSubscriber_of_ne fun he => hq (he.symm.trans h)
    · rfl
  | unsetSubscription t' info =>
    refine ⟨fun q _ => by rw [peers_unsetSubscription], fun q hq t => ?_,
      by rw [pending_unsetSubscription]⟩
    rw [subscribers_unsetSubscription]
    split
    · next ht =>
      subst ht
      exact filter_dropSubscriber_of_ne fun he => hq (he.symm.trans h)
    · rfl

theorem applySyncActions_within (s : Sync T) {pk : Pubkey} {c : ConnectionInfo}
    {as : List (SyncAction T)} (h : ∀ a ∈ as, a.Within pk c) :
    SameElsewhere pk c s (s.applySyncActions as) := by
  induction as generalizing s with
  | nil => exact .refl pk c s
  | cons a as ih =>
    have ha := applySyncAction_within s (h a List.mem_cons_self)
    exact ha.trans (ih _ fun b hb => h b (List.mem_cons_of_mem _ hb))

variable [Rmp (Message U T S)] [Subscription S T]

omit [Rmp (Message U T S)] in
/-- An event is about its sender and its connection, and what is sent in return goes to
the sender. -/
theorem EventEffect.within {s : Sync T} (hs : KeysOk s) {pk : Pubkey} {d : Delivery U T S}
    {e : Event U T S} {as : List (SyncAction T)} {sends : List (Sending U T S)}
    (h : EventEffect s pk d e as sends) :
    (∀ a ∈ as, a.Within pk d.connectionInfo) ∧ ∀ x ∈ sends, x.peer.pubkey = pk := by
  cases h with
  | hello =>
    refine ⟨fun a ha => ?_, fun x hx => by cases List.mem_singleton.mp hx; rfl⟩
    rcases List.mem_pair.mp ha with rfl | rfl <;> rfl
  | peerInit _ known | ping known =>
    refine ⟨fun a ha => ?_, fun x hx => ?_⟩
    · cases List.mem_singleton.mp ha
      exact (hs.filed known :)
    · cases List.mem_singleton.mp hx
      exact hs.filed known
  | peerConfirm known | pong known =>
    refine ⟨fun a ha => ?_, fun x hx => by cases hx⟩
    cases List.mem_singleton.mp ha
    exact (hs.filed known :)
  | query _ known =>
    refine ⟨fun a ha => (List.not_mem_nil ha).elim, fun x hx => ?_⟩
    obtain ⟨m, _, rfl⟩ := List.mem_map.mp hx
    exact hs.filed known
  | subscribe known | unsubscribe known =>
    refine ⟨fun a ha => ?_, fun x hx => by cases hx⟩
    obtain ⟨t, _, rfl⟩ := List.mem_map.mp ha
    exact hs.filed known
  | querySubscriptions known =>
    refine ⟨fun a ha => (List.not_mem_nil ha).elim, fun x hx => ?_⟩
    cases List.mem_singleton.mp hx
    exact hs.filed known
  | _ => exact ⟨fun a ha => (List.not_mem_nil ha).elim, fun x hx => (List.not_mem_nil hx).elim⟩

theorem Effect.within {s : Sync T} (hs : KeysOk s) {message : MessageWrapped} {d : Delivery U T S}
    {as : List (SyncAction T)} {sends : List (Sending U T S)}
    (h : Effect s (.receive message d) as sends) :
    (∀ a ∈ as, a.Within message.pubkeySender d.connectionInfo) ∧
      ∀ x ∈ sends, x.peer.pubkey = message.pubkeySender := by
  cases h with
  | init =>
    refine ⟨fun a ha => ?_, fun x hx => ?_⟩
    · cases List.mem_singleton.mp ha
      rfl
    · cases List.mem_singleton.mp hx
      rfl
  | event _ effect => exact effect.within hs

end Sync

variable {U T S : Type} [DecidableEq T] [Rmp (Message U T S)] [Subscription S T]
variable {name : String} {keypair : Keypair} {config : PeeringConfig}
variable {past : History U T S} {s : Sync T}

/-- A message that claims to be from a peer changes nothing about any other, and whatever
goes out sealed in return is sealed under the key shared with that peer. -/
theorem message_stays_with_sender (run : NodeRun name keypair config past s)
    (message : MessageWrapped) (d : Delivery U T S) :
    Sync.SameElsewhere message.pubkeySender d.connectionInfo s (s.next (.receive message d)) ∧
      ∀ actions c w, s.exec (.receive message d) = .ok actions →
        .messageSend c (.sealed w) ∈ actions → ∃ b : Bytes, w.sealedBody =
          sealPrecomputed b w.nonce (precompute message.pubkeySender.inner keypair.seckey) := by
  have hs := run.keysOk
  constructor
  · rcases Sync.next_cases s (.receive message d) with ⟨as, sends, effect, _, h⟩ | ⟨_, h⟩
    · rw [h]
      exact Sync.applySyncActions_within s (effect.within hs).1
    · rw [h]
      exact .refl _ _ s
  · intro actions c w ha hw
    have result : Step.result ⟨s, .receive message d⟩ = .ok actions := ha
    obtain ⟨x, hsends, hseal⟩ := Step.exists_sends result hw
    obtain ⟨_, _, _, _, effect, _, hx⟩ := hsends
    have hkey := effect.sends_keyed hs x hx
    have hpk := (effect.within hs).2 x hx
    obtain ⟨b, _, rfl⟩ := MessageSealed.seal_eq_ok.mp hseal.2
    refine ⟨b, ?_⟩
    rw [hkey, hpk, run.sameSelf.keypair]
    rfl

end

namespace Sandbox

/-- Mallory's `Init` leaves the record of Bob alone. -/
theorem stranger_leaves_bob_alone :
    ((after anyone bobConfirmed).next (.receive (.init mallory.toPubkey) (delivered 3 0 2 []) :
      Call Bool Unit Unit)).peers.lookup bob.toPubkey =
      (after anyone bobConfirmed).peers.lookup bob.toPubkey := by
  apply (message_stays_with_sender (run anyone bobConfirmed) (.init mallory.toPubkey)
    (delivered 3 0 2 [])).1.peers
  decide

end Sandbox
end Tp2p
