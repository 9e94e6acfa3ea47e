import Tp2p.Network.Convergence
import Tp2p.Node.Questions

/-! Two nodes that do not turn each other away. What the configuration of a node leaves open its
user is asked; but for that the nodes do what two nodes do that let anybody in. -/
namespace Tp2p
open Transition

section
variable [Sodium]

/-- Two nodes that do not turn each other away, and the connections on which they see each other. -/
structure Encounter extends Pair where
  address : Side → ConnectionInfo
  matching : ∀ p, (keypair p).Matching
  admits : ∀ p, (config p).canConfirm (toPair.pubkey p.other) ≠ some false

namespace Encounter
variable {U T S : Type}

/-- What a node sends to the other. -/
def sent (enc : Encounter) (p : Side) (actions : List (Action U T S)) : List MessageWrapped :=
  sentOn (enc.address p.other) actions

/-- The names in the questions among the actions. -/
def asked (actions : List (Action U T S)) : List String :=
  (questions actions).filterMap fun
    | .peerInit name => some name
    | _ => none

/-! Each user is asked about the other node, and about nobody else -/

section
variable {enc : Encounter} {prompts : Side → List String} {asked : Side → Nat}

theorem prompts_idle (h : ∀ p, prompts p = List.replicate (asked p) (enc.name p.other)) (p : Side) :
    ∀ q, Function.update prompts p (prompts p ++ List.replicate 0 (enc.name p.other)) q =
      List.replicate (asked q) (enc.name q.other) := by
  rw [List.replicate_zero, List.append_nil, Function.update_eq_self]
  exact h

theorem prompts_ask (h : ∀ p, prompts p = List.replicate (asked p) (enc.name p.other)) (p : Side) :
    ∀ q, Function.update prompts p (prompts p ++ List.replicate 1 (enc.name p.other)) q =
      List.replicate (Function.update asked p (asked p + 1) q) (enc.name q.other) := by
  refine Side.forall_of p ?_ ?_
  · rw [Function.update_self, Function.update_self, ← List.replicate_append_replicate, h]
  · rw [Function.update_of_ne (Side.other_ne p), Function.update_of_ne (Side.other_ne p)]
    exact h p.other

/-- An answer is about the other node, and takes one question away. -/
theorem prompts_answer (h : ∀ p, prompts p = List.replicate (asked p) (enc.name p.other)) {p : Side}
    {k : Nat} {name : String} (hk : (prompts p)[k]? = some name) : name = enc.name p.other ∧ 0 < asked p ∧
      ∀ q, Function.update prompts p ((prompts p).eraseIdx k) q =
        List.replicate (Function.update asked p (asked p - 1) q) (enc.name q.other) := by
  rw [h, List.getElem?_replicate] at hk
  split at hk
  · next open_ =>
    cases hk
    refine ⟨rfl, Nat.zero_lt_of_lt open_, Side.forall_of p ?_ ?_⟩
    · rw [Function.update_self, Function.update_self, h, List.eraseIdx_replicate, if_pos open_]
    · rw [Function.update_of_ne (Side.other_ne p), Function.update_of_ne (Side.other_ne p)]
      exact h p.other
  · cases hk

end

/-- The same two, if they let anybody in. -/
def trusting (enc : Encounter) : Link where
  name := enc.name
  keypair := enc.keypair
  config _ := ⟨.publicAgent [] []⟩
  address := enc.address
  matching := enc.matching
  trusts _ := rfl

end Encounter

namespace Sync
variable {U T S : Type} [DecidableEq T]

/-- The node, if it let anybody in. -/
def trusting (s : Sync T) : Sync T := { s with peeringConfig := ⟨.publicAgent [] []⟩ }

theorem applySyncAction_trusting (s : Sync T) (a : SyncAction T) :
    s.trusting.applySyncAction a = (s.applySyncAction a).trusting := by
  cases a with
  | setPendingPeer p =>
    have same : s.trusting.findPendingPeerInit p.connectionInfo =
      s.findPendingPeerInit p.connectionInfo := rfl
    rw [applySyncAction, applySyncAction, same]
    split <;> rfl
  | unsetSubscription t info =>
    have same : s.trusting.subscriptions = s.subscriptions := rfl
    simp only [applySyncAction, same]
    cases s.subscriptions.lookup t with
    | none => rfl
    | some peers =>
      simp only
      split <;> rfl
  | _ => rfl

theorem applySyncActions_trusting (s : Sync T) (as : List (SyncAction T)) :
    s.trusting.applySyncActions as = (s.applySyncActions as).trusting := by
  induction as generalizing s with
  | nil => rfl
  | cons a as ih =>
    rw [applySyncActions_cons, applySyncActions_cons, applySyncAction_trusting, ih]

variable [Rmp (Message U T S)] [Subscription S T]

/-- Whom to let in matters to nothing but a `PeerInit`. -/
theorem exec_trusting {s : Sync T} {call : Call U T S} (allowed : ∀ pk name,
      s.heard call = some (pk, .peerInit name) → s.peeringConfig.canConfirm pk = some true) :
    s.exec call = s.trusting.exec call := by
  cases call with
  | receive message d =>
    cases message with
    | init pk => rfl
    | sealed w =>
      have same : s.trusting.unwrapIncomingMessage w =
          (s.unwrapIncomingMessage w : Except Error (Message U T S)) := rfl
      simp only [exec, receive, same]
      cases opened : (s.unwrapIncomingMessage w : Except Error (Message U T S)) with
      | error e => rfl
      | ok m =>
        have heard := heard_eq_some.mpr ⟨w, d, m, rfl, opened, rfl, rfl⟩
        rw [Attempt.bind_ok, Attempt.bind_ok]
        cases hb : m.body with
        | peerInit name =>
          rw [hb] at heard
          simp only [processEvent, processEventPeerInit, hb, allowed _ _ heard]
          rfl
        | user => simp only [processEvent, hb]
        | _ =>
          simp only [processEvent, hb]
          rfl
  | _ => rfl

omit [Subscription S T] in
theorem heard_trusting (s : Sync T) (call : Call U T S) : s.trusting.heard call = s.heard call := by
  cases call with
  | receive message d => cases message <;> rfl
  | _ => rfl

/-- A node that lets anybody in asks nobody. -/
theorem questions_trusting {s : Sync T} {call : Call U T S} {actions : List (Action U T S)}
    (hexec : s.trusting.exec call = .ok actions) : questions actions = [] := by
  rw [questions_of_exec hexec]
  cases s.trusting.heard call with
  | none => rfl
  | some x =>
    obtain ⟨pk, e⟩ := x
    cases e <;> rfl

end Sync

variable {U T S : Type} [DecidableEq T] [Rmp (Message U T S)]

/-- Node `p` in state `s` is the given party, but for what its user decides. -/
structure Hosts (enc : Encounter) (p : Side) (s : Sync T) (party : Party) : Prop where
  config : s.peeringConfig = enc.config p
  refines : NodeRefines enc.trusting p s.trusting party

variable {enc : Encounter} {p : Side} {s : Sync T} {party : Party}

namespace Hosts

theorem applied (h : Hosts enc p s party) {as : List (SyncAction T)} {party' : Party}
    (hn : NodeRefines enc.trusting p (s.trusting.applySyncActions as) party') :
    Hosts enc p (s.applySyncActions as) party' where
  config := (Sync.applySyncActions_sameSelf s as).peeringConfig.trans h.config
  refines := by
    rw [Sync.applySyncActions_trusting] at hn
    exact hn

theorem allowed (h : Hosts enc p s party) :
    s.peeringConfig.canConfirm (enc.pubkey p.other) = some true ∨
      s.peeringConfig.canConfirm (enc.pubkey p.other) = none := by
  have admits := enc.admits p
  rw [h.config]
  cases hc : (enc.config p).canConfirm (enc.pubkey p.other) with
  | none => exact .inr rfl
  | some b =>
    cases b with
    | true => exact .inl rfl
    | false => exact absurd hc admits

/-- A confirmed party that waits for nothing stands for a node that has the other as an active
peer. -/
theorem peered (h : Hosts enc p s party) (confirmed : party.status = .confirmed)
    (idle : party.pending = false) :
    (∃ info, s.peers.lookup (enc.pubkey p.other) = some info ∧ info.active = true ∧
        info.peer.name = enc.name p.other) ∧
      s.pendingPeerInit = [] := by
  have record := h.refines.record
  have pending := h.refines.pending
  rw [confirmed] at record
  rw [idle, if_neg Bool.false_ne_true, List.map_eq_nil_iff] at pending
  obtain ⟨info, known, _, active, name⟩ := record
  exact ⟨⟨info, known, active, name⟩, pending⟩

variable [Subscription S T]

/-- In this call the node becomes the party, says `out` to the other and asks its user `asks`
times. -/
def Does (enc : Encounter) (p : Side) (s : Sync T) (call : Call U T S) (party : Party)
    (out : List Token) (asks : Nat) : Prop :=
  ∃ actions, s.exec call = .ok actions ∧
    Hosts enc p (s.applySyncActions (syncActions actions)) party ∧
    List.Forall₂ (Carries enc.trusting U T S p.other) out (enc.sent p actions) ∧
    Encounter.asked actions = List.replicate asks (enc.name p.other)

theorem initComm (h : Hosts enc p s party) {addr : String} (now : DateTime)
    (reaches : ConnectionInfo.new addr = .ok (enc.address p.other)) :
    Does enc p s (.initComm addr now : Call U T S) { party with pending := true } [.init] 0 := by
  refine ⟨_, Sync.exec_initComm now reaches, h.applied (h.refines.setPendingPeer now), ?_, rfl⟩
  have hself : s.keypair.toPubkey = enc.trusting.pubkey p.other.other := by
    rw [Side.other_other]
    exact congrArg Keypair.toPubkey h.refines.self.keypair
  rw [Encounter.sent, sentOn_reply, hself]
  exact .cons .init .nil

theorem receive (laws : BoxLaws) (codec : Rmp.RoundTrip (Message U T S))
    (total : ∀ m : Message U T S, m.Serializable) (h : Hosts enc p s party) {tok : Token}
    {m : MessageWrapped} (hm : Carries enc.trusting U T S p tok m) {party' : Party} {out : List Token}
    (hr : party.react tok = some (party', out))
    (allowed : tok = .peerInit → s.peeringConfig.canConfirm (enc.pubkey p.other) = some true)
    {d : Delivery U T S} (via : d.connectionInfo = enc.address p.other) :
    Does enc p s (.receive m d) party' out 0 := by
  obtain ⟨actions, hexec, hn, hsaid⟩ := h.refines.receive laws codec total hm via hr
  have same : s.exec (.receive m d) = s.trusting.exec (.receive m d) := by
    refine Sync.exec_trusting fun pk name heard => ?_
    obtain ⟨rfl, body⟩ := h.refines.heard hm ((Sync.heard_trusting _ _).trans heard)
    exact allowed (by cases tok <;> cases body; rfl)
  refine ⟨actions, same.trans hexec, h.applied hn, hsaid, ?_⟩
  rw [Encounter.asked, Sync.questions_trusting hexec]
  rfl

/-- A `PeerInit` on which the configuration says nothing raises a question and changes nothing. -/
theorem ask (h : Hosts enc p s party) {m : MessageWrapped} (hm : Carries enc.trusting U T S p .peerInit m)
    (known : party.status ≠ .unknown)
    (undecided : s.peeringConfig.canConfirm (enc.pubkey p.other) = none) (d : Delivery U T S) :
    Does enc p s (.receive m d) party [] 1 := by
  cases hm with
  | @sealed _ w m sender opens body =>
    have hb : m.body = .peerInit (enc.name p.other) := (Option.some.inj body).symm
    have opened : s.unwrapIncomingMessage w = .ok m := (h.refines.opened sender opens (.inr known) :)
    have hexec : s.exec (.receive (.sealed w) d) = .ok [.confirm (.peerInit (enc.name p.other))] := by
      rw [Sync.exec_sealed d opened, show w.pubkeySender = enc.pubkey p.other from sender]
      simp only [Sync.processEvent, Sync.processEventPeerInit, hb, undecided]
    exact ⟨_, hexec, h, .nil, rfl⟩

theorem answer (laws : BoxLaws) (codec : Rmp.RoundTrip (Message U T S))
    (total : ∀ m : Message U T S, m.Serializable) (h : Hosts enc p s party)
    (known : party.status ≠ .unknown) (now : DateTime) (nonce : Nonce) :
    Does enc p s (.peerConfirm (enc.pubkey p.other) (enc.name p.other) now nonce : Call U T S)
      { party with status := .confirmed } [.peerConfirm] 0 := by
  have hn := h.refines
  obtain ⟨info, known, hc⟩ := hn.record.known known
  have fits := total (.new ⟨now, nonce⟩ (.peerConfirm s.name) [])
  obtain ⟨w, hseal, hconfirm⟩ := Sync.peerConfirm_succeeds (s := s) known (enc.name p.other) fits
  rw [show info.connectionInfo = enc.address p.other from hc] at hconfirm
  refine ⟨_, hconfirm, h.applied (hn.confirmed known hc now), ?_, rfl⟩
  rw [Encounter.sent, sentOn_reply]
  refine .cons (hn.carries laws codec (hn.keys.filed known) (hn.keys.peers known) hseal ?_) .nil
  rw [show enc.trusting.name p = s.name from hn.self.name.symm]
  rfl

end Hosts

end

namespace Sandbox

/-- Alice lets anybody in, and Bob wants to be asked. -/
def bobWary : Pair where
  name := aliceAndBob.name
  keypair := aliceAndBob.keypair
  config
    | .left => anyone
    | .right => ⟨.confirm [] []⟩

theorem bobWary_admits (p : Side) : (bobWary.config p).canConfirm (bobWary.pubkey p.other) ≠ some false := by
  cases p <;> decide

def bobAsks : Encounter where
  toPair := bobWary
  address
    | .left => connection 1
    | .right => connection 2
  matching p := by cases p <;> rfl
  admits := bobWary_admits

end Sandbox
end Tp2p
