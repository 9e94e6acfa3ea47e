import Tp2p.Model.Sandbox
import Tp2p.Node.Keys

/-! Whether a handler knows the sender of an event that the gate let through. -/
namespace Tp2p
open Transition

section
variable [Sodium]

/-- The computation does not end in `PeerNotFound`. -/
structure Finds {α : Type} (x : Except Error α) : Prop where
  ne : ∀ pk, x ≠ .error (.peerNotFound pk)

namespace Finds
variable {α β : Type}

theorem ok (a : α) : Finds (.ok a : Except Error α) := ⟨fun _ h => nomatch h⟩

theorem bind {x : Except Error α} {f : α → Except Error β} (hx : Finds x) (hf : ∀ a, Finds (f a)) :
    Finds (x >>= f) := by
  cases x with
  | error e =>
    constructor
    intro pk h
    exact hx.ne pk (congrArg Except.error (Except.error.inj h))
  | ok a => exact hf a

theorem mapM {f : α → Except Error β} (hf : ∀ a, Finds (f a)) (as : List α) : Finds (as.mapM f) := by
  induction as with
  | nil => exact .ok []
  | cons a as ih =>
    rw [List.mapM_cons]
    exact (hf a).bind fun b => ih.bind fun bs => .ok (b :: bs)

end Finds

variable {U T S : Type}

theorem serialize_finds [Rmp (Message U T S)] (m : Message U T S) : Finds (serialize m) := by
  constructor
  intro pk h
  unfold serialize at h
  split at h <;> cases h

theorem MessageSealed.seal_finds [Rmp (Message U T S)] (pk : Pubkey) (peer : Peer)
    (m : Message U T S) : Finds (MessageSealed.seal pk peer m) :=
  (serialize_finds m).bind fun _ => .ok _

namespace Sync
variable [DecidableEq T] [Rmp (Message U T S)]

theorem createSealedMessage_finds (s : Sync T) (peer : Peer) (body : Event U T S)
    (graph : List (TopicGraphEntry T)) (now : DateTime) (nonce : Nonce) :
    Finds (s.createSealedMessage peer body graph now nonce) :=
  (MessageSealed.seal_finds ..).bind fun _ => .ok _

omit [Rmp (Message U T S)] in
theorem lookup_finds {s : Sync T} {pk : Pubkey} {info : PeerInfo}
    (known : s.peers.lookup pk = some info) (e : Error) :
    Finds (Attempt.okOr (s.findPeer pk none) e) := by
  rw [findPeer_none, known]
  exact .ok info

/-- A confirmation fails for want of a peer exactly when there is none. -/
theorem peerConfirm_finds_iff {s : Sync T} {pk : Pubkey} {name : String} {now : DateTime}
    {nonce : Nonce} :
    Finds (s.peerConfirm pk name now nonce : Except Error (List (Action U T S))) ↔
      (s.peers.lookup pk).isSome := by
  cases hl : s.peers.lookup pk with
  | none =>
    simp only [Option.isSome_none, Bool.false_eq_true, iff_false]
    intro h
    apply h.ne pk
    simp only [peerConfirm, findPeer_none, hl, Attempt.okOr_none, Attempt.bind_error]
  | some info =>
    simp only [Option.isSome_some, iff_true]
    apply (lookup_finds hl _).bind
    intro info'
    exact (createSealedMessage_finds ..).bind fun _ => .ok _

theorem answerQuery_finds {s : Sync T} {pk : Pubkey} {info : PeerInfo}
    (known : s.peers.lookup pk = some info) (messages : List (Message U T S)) :
    Finds (s.answerQuery pk messages) := by
  apply (lookup_finds known _).bind
  intro info'
  apply Finds.mapM
  intro m
  exact (MessageSealed.seal_finds ..).bind fun _ => .ok _

variable [Subscription S T]

/-- Every handler finds a sender that is on file. -/
theorem processEvent_finds_of_known {s : Sync T} {pk : Pubkey} {info : PeerInfo}
    (known : s.peers.lookup pk = some info) (m : Message U T S) (d : Delivery U T S) :
    Finds (s.processEvent m pk d) := by
  cases hb : m.body with
  | hello =>
    simp only [processEvent, processEventHello, hb]
    split
    · exact .ok []
    · exact (createSealedMessage_finds ..).bind fun _ => .ok _
  | peerInit name =>
    simp only [processEvent, processEventPeerInit, hb]
    split
    · exact peerConfirm_finds_iff.mpr (by rw [known]; rfl)
    · exact .ok []
    · exact .ok _
  | peerConfirm name =>
    simp only [processEvent, processEventPeerConfirm, hb]
    exact (lookup_finds known _).bind fun _ => .ok _
  | ping =>
    simp only [processEvent, processEventPing, hb]
    exact (lookup_finds known _).bind fun _ => (createSealedMessage_finds ..).bind fun _ => .ok _
  | pong =>
    simp only [processEvent, processEventPong, hb]
    exact (lookup_finds known _).bind fun _ => .ok _
  | queryMessagesByID ids =>
    simp only [processEvent, processEventQueryMessagesByID, hb]
    split
    · exact .ok []
    · exact answerQuery_finds known d.messages
  | queryMessagesByDepth topic depth =>
    simp only [processEvent, processEventQueryMessagesByDepth, hb]
    split
    · exact .ok []
    · exact answerQuery_finds known d.messages
  | subscribe subscriptions =>
    simp only [processEvent, processEventSubscribe, hb]
    exact (lookup_finds known _).bind fun _ => .ok _
  | unsubscribe topics =>
    simp only [processEvent, processEventUnsubscribe, hb]
    exact (lookup_finds known _).bind fun _ => .ok _
  | querySubscriptions =>
    simp only [processEvent, processEventQuerySubscriptions, hb]
    exact (lookup_finds known _).bind fun _ => (createSealedMessage_finds ..).bind fun _ => .ok _
  | activeSubscriptions topics =>
    simp only [processEvent, processEventActiveSubscriptions, hb]
    exact (lookup_finds known _).bind fun _ => .ok _
  | user data =>
    simp only [processEvent, hb]
    exact .ok []

/-- The message is a `PeerInit` that is to be confirmed at once, of a sender that is
not on file. -/
def ConfirmsStranger (s : Sync T) (m : Message U T S) (pk : Pubkey) : Prop :=
  (∃ name, m.body = .peerInit name) ∧ s.peers.lookup pk = none ∧
    s.peeringConfig.canConfirm pk = some true

/-- What the gate lets through is known to its handler, unless it makes the handler
confirm a stranger. -/
theorem gate_agrees_iff {s : Sync T} {w : MessageSealed} {m : Message U T S}
    (opened : s.unwrapIncomingMessage w = .ok m) (d : Delivery U T S) :
    Finds (s.processEvent m w.pubkeySender d) ↔ ¬ ConfirmsStranger s m w.pubkeySender := by
  cases hl : s.peers.lookup w.pubkeySender with
  | some info =>
    have hn : ¬ ConfirmsStranger s m w.pubkeySender := fun h => nomatch hl.symm.trans h.2.1
    exact iff_of_true (processEvent_finds_of_known hl m d) hn
  | none =>
    -- only the two greetings of a stranger pass the gate
    have hg : m.body.isGreeting = true := by
      rw [unwrap_of_unknown hl] at opened
      obtain ⟨m', _, h⟩ := Attempt.bind_eq_ok.mp opened
      split at h
      · next hg => cases h; exact hg
      · cases h
    cases hb : m.body with
    | hello =>
      have hn : ¬ ConfirmsStranger s m w.pubkeySender := by
        rintro ⟨⟨name, hb'⟩, _⟩
        cases hb.symm.trans hb'
      refine iff_of_true ?_ hn
      simp only [processEvent, processEventHello, hb]
      split
      · exact .ok []
      · exact (createSealedMessage_finds ..).bind fun _ => .ok _
    | peerInit name =>
      have hc : ConfirmsStranger s m w.pubkeySender ↔
          s.peeringConfig.canConfirm w.pubkeySender = some true :=
        ⟨fun h => h.2.2, fun h => ⟨⟨name, hb⟩, hl, h⟩⟩
      rw [hc]
      cases ha : s.peeringConfig.canConfirm w.pubkeySender with
      | none =>
        simp only [processEvent, processEventPeerInit, hb, ha]
        exact iff_of_true (.ok _) (by simp)
      | some allow =>
        cases allow with
        | true =>
          simp only [processEvent, processEventPeerInit, hb, ha, peerConfirm_finds_iff, hl]
          simp
        | false =>
          simp only [processEvent, processEventPeerInit, hb, ha]
          exact iff_of_true (.ok []) (by simp)
    | _ => simp [hb, Event.isGreeting] at hg

end Sync
end

namespace Sandbox

/-- Bob, who is on file, sends his name. -/
theorem known_peerInit_is_processed :
    Finds ((after anyone bobConfirmed).processEvent (message 5 (.peerInit "b")) bob.toPubkey
      (delivered 2 0 6 [])) := by
  refine (Sync.gate_agrees_iff (w := letter bob alice (message 5 (.peerInit "b"))) (by rfl) _).mpr ?_
  rintro ⟨_, unknown, _⟩
  cases unknown

/-- Bob sends his name to a node that lets anyone in but has not heard of him: the gate
lets it through, and the handler finds no peer. -/
theorem stranger_peerInit_is_not_found : ∃ (past : History Bool Unit Unit) (s : Sync Unit)
    (w : MessageSealed) (m : Msg), NodeRun "a" alice anyone past s ∧
      s.unwrapIncomingMessage w = .ok m ∧ (∀ data, m.body ≠ .user data) ∧
      s.processEvent m w.pubkeySender (delivered 2 0 1 []) =
        .error (.peerNotFound w.pubkeySender) := by
  refine ⟨_, _, letter bob alice (message 0 (.peerInit "b")), message 0 (.peerInit "b"),
    run anyone [], by rfl, fun _ => (fun h => nomatch h), by rfl⟩

end Sandbox
end Tp2p
