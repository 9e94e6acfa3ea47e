import Tp2p.Network.Encounter
import Tp2p.Network.Introduction

/-! Two nodes that do not turn each other away, over two reliable queues. What the configuration
of a node leaves open its user is asked, and answers in its own time. -/
namespace Tp2p
open Transition

section
variable [Sodium]

/-- The two nodes, what is on its way to each, and the names about which its user is asked. -/
structure ConsentNet (T : Type) [DecidableEq T] extends Net T where
  prompts : Side → List String

namespace Encounter
variable {U T S : Type}

/-- A node is told to initiate contact with the other, the oldest message that is on its way to a
node arrives, or its user says yes to one of the questions. -/
inductive Move (enc : Encounter) (U T S : Type) where
  | initComm (p : Side) (addr : String) (now : DateTime)
      (reaches : ConnectionInfo.new addr = .ok (enc.address p.other))
  | deliver (p : Side) (d : Delivery U T S) (via : d.connectionInfo = enc.address p.other)
  | peerConfirm (p : Side) (i : Nat) (now : DateTime) (nonce : Nonce)

def Move.initiates {enc : Encounter} : Move enc U T S → Bool
  | .initComm .. => true
  | _ => false

variable [DecidableEq T] [Rmp (Message U T S)] [Subscription S T]

/-- A node makes a call, and all returned actions are carried out. -/
def perform (enc : Encounter) (net : ConsentNet T) (p : Side) (call : Call U T S) : ConsentNet T :=
  match (net.node p).exec call with
  | .ok actions =>
    { node := Function.update net.node p ((net.node p).applySyncActions (syncActions actions))
      inbox := Function.update net.inbox p.other (net.inbox p.other ++ enc.sent p actions)
      prompts := Function.update net.prompts p (net.prompts p ++ asked actions) }
  | .error _ => net

def next (enc : Encounter) (net : ConsentNet T) : Move enc U T S → ConsentNet T
  | .initComm p addr now _ => enc.perform net p (.initComm addr now : Call U T S)
  | .deliver p d _ =>
    match net.inbox p with
    | [] => net
    | m :: rest =>
      enc.perform { net with inbox := Function.update net.inbox p rest } p (.receive m d)
  | .peerConfirm p i now nonce =>
    match (net.prompts p)[i]? with
    | none => net
    | some name =>
      enc.perform { net with prompts := Function.update net.prompts p ((net.prompts p).eraseIdx i) } p
        (.peerConfirm (enc.pubkey p.other) name now nonce : Call U T S)

omit [Rmp (Message U T S)] [Subscription S T] in
/-- The call that a move makes, if any. -/
def call (enc : Encounter) (net : ConsentNet T) : Move enc U T S → Option (Side × Call U T S)
  | .initComm p addr now _ => some (p, .initComm addr now)
  | .deliver p d _ => (net.inbox p).head?.map fun m => (p, .receive m d)
  | .peerConfirm p i now nonce =>
    (net.prompts p)[i]?.map fun name => (p, .peerConfirm (enc.pubkey p.other) name now nonce)

/-- No handler returns an error in this step. -/
def Succeeds {enc : Encounter} (st : Taken (ConsentNet T) (Move enc U T S)) : Prop :=
  ∀ p call, enc.call st.pre st.input = some (p, call) → ∃ actions, (st.pre.node p).exec call = .ok actions

/-- Two new nodes, nothing on its way and nothing asked. -/
def start (enc : Encounter) (T : Type) [DecidableEq T] : ConsentNet T :=
  ⟨⟨enc.new T, fun _ => []⟩, fun _ => []⟩

end Encounter

variable {U T S : Type} [DecidableEq T] [Rmp (Message U T S)]

/-- The nodes, the messages and the questions carry out the introduction `i`. -/
structure ConsentRefines (enc : Encounter) (U S : Type) [Rmp (Message U T S)] (net : ConsentNet T)
    (i : Introduction) : Prop where
  config : ∀ p, (net.node p).peeringConfig = enc.config p
  handshake : NetRefines enc.trusting U S ⟨fun p => (net.node p).trusting, net.inbox⟩ i.toHandshake
  prompts : ∀ p, net.prompts p = List.replicate (i.asked p) (enc.name p.other)

variable {enc : Encounter} {net : ConsentNet T} {i : Introduction} {p : Side}

namespace ConsentRefines

theorem start (enc : Encounter) (U S : Type) [Rmp (Message U T S)] :
    ConsentRefines enc U S (enc.start T) .start where
  config _ := rfl
  handshake := .start enc.trusting U S
  prompts _ := rfl

theorem hosts (h : ConsentRefines enc U S net i) (p : Side) : Hosts enc p (net.node p) (i.party p) :=
  ⟨h.config p, h.handshake.node p⟩

variable [Subscription S T]

/-- A node moves, with part of its inbox read, something said to the other, and something asked. -/
theorem perform (h : ConsentRefines enc U S net i) {call : Call U T S} {party : Party}
    {out : List Token} {asks : Nat} (does : Hosts.Does enc p (net.node p) call party out asks)
    {rest : List Token} {unread : List MessageWrapped}
    (hrest : List.Forall₂ (Carries enc.trusting U T S p) rest unread)
    {prompts : Side → List String} {asked : Side → Nat}
    (hprompts : ∀ q, Function.update prompts p (prompts p ++ List.replicate asks (enc.name p.other)) q =
      List.replicate (asked q) (enc.name q.other)) :
    (∃ actions, (net.node p).exec call = .ok actions) ∧ ConsentRefines enc U S
      (enc.perform { node := net.node, inbox := Function.update net.inbox p unread, prompts := prompts } p call)
      { toHandshake := i.toHandshake.move p party rest out, asked := asked } := by
  obtain ⟨actions, hexec, hosts, hout, hasked⟩ := does
  refine ⟨⟨actions, hexec⟩, ?_⟩
  simp only [Encounter.perform, hexec, hasked]
  refine ⟨Side.forall_of p ?_ ?_, ?_, hprompts⟩
  · simp only [Function.update_self]
    exact hosts.config
  · simp only [Function.update_of_ne (Side.other_ne p)]
    exact h.config p.other
  · have hmove := h.handshake.move hosts.refines hrest hout
    simp only [Function.update_of_ne (Side.other_ne p)]
    have same : (fun q => (Function.update net.node p
        ((net.node p).applySyncActions (syncActions actions)) q).trusting) =
        Function.update (fun q => (net.node q).trusting) p
          ((net.node p).applySyncActions (syncActions actions)).trusting :=
      Function.comp_update Sync.trusting net.node p _
    rw [same]
    exact hmove

theorem initComm (h : ConsentRefines enc U S net i) {addr : String} (now : DateTime)
    (reaches : ConnectionInfo.new addr = .ok (enc.address p.other)) :
    (∃ actions : List (Action U T S), (net.node p).exec (.initComm addr now) = .ok actions) ∧
      ConsentRefines enc U S (enc.next net (.initComm p addr now reaches : Encounter.Move enc U T S))
        (i.initiate p) := by
  have hperform := h.perform ((h.hosts p).initComm now reaches) (h.handshake.inbox p)
    (Encounter.prompts_idle h.prompts p)
  rw [Function.update_eq_self] at hperform
  exact hperform

omit [Subscription S T] in
/-- The oldest message that is on its way to a node is the oldest token. -/
theorem oldest (h : ConsentRefines enc U S net i) {tok : Token} {rest : List Token}
    (hq : i.inbox p = tok :: rest) : ∃ m unread, net.inbox p = m :: unread ∧
      Carries enc.trusting U T S p tok m ∧ List.Forall₂ (Carries enc.trusting U T S p) rest unread := by
  have hin : List.Forall₂ (Carries enc.trusting U T S p) (i.inbox p) (net.inbox p) := h.handshake.inbox p
  rw [hq, List.forall₂_cons_left_iff] at hin
  obtain ⟨m, unread, hm, hunread, hinbox⟩ := hin
  exact ⟨m, unread, hinbox, hm, hunread⟩

theorem deliver (laws : BoxLaws) (codec : Rmp.RoundTrip (Message U T S))
    (total : ∀ m : Message U T S, m.Serializable) (h : ConsentRefines enc U S net i) {tok : Token}
    {rest out : List Token} {party : Party} (hq : i.inbox p = tok :: rest)
    (hr : (i.party p).react tok = some (party, out))
    (allowed : tok = .peerInit →
      (net.node p).peeringConfig.canConfirm (enc.pubkey p.other) = some true)
    {d : Delivery U T S} (via : d.connectionInfo = enc.address p.other) :
    ∃ m unread, net.inbox p = m :: unread ∧
      (∃ actions, (net.node p).exec (.receive m d) = .ok actions) ∧
      ConsentRefines enc U S (enc.next net (.deliver p d via)) (i.move p party rest out) := by
  obtain ⟨m, unread, hinbox, hm, hunread⟩ := h.oldest hq
  have does := (h.hosts p).receive laws codec total hm hr allowed via
  refine ⟨m, unread, hinbox, ?_⟩
  simp only [Encounter.next, hinbox]
  exact h.perform does hunread (Encounter.prompts_idle h.prompts p)

/-- A `PeerInit` on which the configuration says nothing becomes a question. -/
theorem ask (h : ConsentRefines enc U S net i) {rest : List Token} (hq : i.inbox p = .peerInit :: rest)
    (known : (i.party p).status ≠ .unknown)
    (undecided : (net.node p).peeringConfig.canConfirm (enc.pubkey p.other) = none)
    {d : Delivery U T S} (via : d.connectionInfo = enc.address p.other) :
    ∃ m unread, net.inbox p = m :: unread ∧
      (∃ actions, (net.node p).exec (.receive m d) = .ok actions) ∧
      ConsentRefines enc U S (enc.next net (.deliver p d via)) (i.ask p rest) := by
  obtain ⟨m, unread, hinbox, hm, hunread⟩ := h.oldest hq
  refine ⟨m, unread, hinbox, ?_⟩
  simp only [Encounter.next, hinbox]
  exact h.perform ((h.hosts p).ask hm known undecided d) hunread (Encounter.prompts_ask h.prompts p)

theorem answer (laws : BoxLaws) (codec : Rmp.RoundTrip (Message U T S))
    (total : ∀ m : Message U T S, m.Serializable) (h : ConsentRefines enc U S net i)
    (sound : i.Sound) {k : Nat} {name : String} (hk : (net.prompts p)[k]? = some name) (now : DateTime)
    (nonce : Nonce) : 0 < i.asked p ∧
      (∃ actions : List (Action U T S),
        (net.node p).exec (.peerConfirm (enc.pubkey p.other) name now nonce) = .ok actions) ∧
      ConsentRefines enc U S (enc.next net (.peerConfirm p k now nonce : Encounter.Move enc U T S))
        (i.answer p) := by
  obtain ⟨rfl, asked, hprompts⟩ := Encounter.prompts_answer h.prompts hk
  have does : Hosts.Does enc p (net.node p)
      (.peerConfirm (enc.pubkey p.other) (enc.name p.other) now nonce : Call U T S) _ _ _ :=
    (h.hosts p).answer laws codec total (sound.known_of_asked p asked p) now nonce
  have hperform := h.perform does (h.handshake.inbox p) (Encounter.prompts_idle hprompts p)
  rw [Function.update_eq_self] at hperform
  simp only [Encounter.next, hk]
  exact ⟨asked, hperform⟩

end ConsentRefines

/-- What every run of the two nodes and their users keeps up. -/
structure Consenting (enc : Encounter) (U S : Type) [Rmp (Message U T S)] [Subscription S T]
    (past : List (Taken (ConsentNet T) (Encounter.Move enc U T S))) (net : ConsentNet T) : Prop where
  refines : ∃ i, ConsentRefines enc U S net i ∧ i.Sound ∧ i.Renewing ∧
    ((∃ st ∈ past, st.input.initiates = true) → i.Converging)
  succeeded : ∀ st ∈ past, Encounter.Succeeds st

variable [Subscription S T] {past : List (Taken (ConsentNet T) (Encounter.Move enc U T S))}

namespace Consenting

/-- A step that keeps everything up and initiates nothing that would not converge. -/
theorem step (hh : Consenting enc U S past net) {move : Encounter.Move enc U T S} {next : ConsentNet T}
    {i : Introduction} (refines : ConsentRefines enc U S next i) (sound : i.Sound)
    (renewing : i.Renewing) (succeeds : Encounter.Succeeds ⟨net, move⟩)
    (converging : move.initiates = true ∨ (∃ st ∈ past, st.input.initiates = true) → i.Converging) :
    Consenting enc U S (⟨net, move⟩ :: past) next where
  refines := by
    refine ⟨i, refines, sound, renewing, ?_⟩
    rintro ⟨st, hst, initiates⟩
    rcases List.mem_cons.mp hst with rfl | hst
    · exact converging (.inl initiates)
    · exact converging (.inr ⟨st, hst, initiates⟩)
  succeeded st hst := by
    rcases List.mem_cons.mp hst with rfl | hst
    · exact succeeds
    · exact hh.succeeded st hst

/-- A node reads the oldest message that is on its way, if any. -/
theorem deliver (laws : BoxLaws) (codec : Rmp.RoundTrip (Message U T S))
    (total : ∀ m : Message U T S, m.Serializable) (hh : Consenting enc U S past net)
    {d : Delivery U T S} (via : d.connectionInfo = enc.address p.other) :
    Consenting enc U S (⟨net, .deliver p d via⟩ :: past) (enc.next net (.deliver p d via)) := by
  obtain ⟨i, refines, sound, renewing, converging⟩ := hh.refines
  have succeeds : ∀ {m unread}, net.inbox p = m :: unread →
      (∃ actions, (net.node p).exec (.receive m d) = .ok actions) →
      Encounter.Succeeds (⟨net, .deliver p d via⟩ : Taken _ (Encounter.Move enc U T S)) := by
    intro m unread hinbox hexec q call hcall
    simp only [Encounter.call, hinbox, List.head?_cons, Option.map_some, Option.some.injEq,
      Prod.mk.injEq] at hcall
    obtain ⟨rfl, rfl⟩ := hcall
    exact hexec
  cases hq : i.inbox p with
  | nil =>
    -- nothing is on its way: no call is made
    have hin : List.Forall₂ (Carries enc.trusting U T S p) (i.inbox p) (net.inbox p) :=
      refines.handshake.inbox p
    rw [hq, List.forall₂_nil_left_iff] at hin
    have hnext : enc.next net (.deliver p d via) = net := by simp only [Encounter.next, hin]
    rw [hnext]
    refine hh.step refines sound renewing ?_ fun h => converging (h.resolve_left nofun)
    intro q call hcall
    simp [Encounter.call, hin] at hcall
  | cons tok rest =>
    by_cases asks : tok = .peerInit ∧
        (net.node p).peeringConfig.canConfirm (enc.pubkey p.other) = none
    · obtain ⟨rfl, undecided⟩ := asks
      have known := sound.known_of_heard p (.inl (by rw [hq]; exact List.mem_cons_self))
      obtain ⟨m, unread, hinbox, hexec, refines'⟩ := refines.ask hq known undecided via
      exact hh.step refines' (sound.ask hq) (renewing.ask hq) (succeeds hinbox hexec)
        fun _ => Introduction.ask_converging renewing hq
    · have allowed := fun htok => (refines.hosts p).allowed.resolve_right fun hnone => asks ⟨htok, hnone⟩
      obtain ⟨party, out, hr⟩ := sound.reacts hq
      obtain ⟨m, unread, hinbox, hexec, refines'⟩ := refines.deliver laws codec total hq hr allowed via
      exact hh.step refines' (sound.move hq hr) (renewing.move hq hr) (succeeds hinbox hexec)
        fun h => (converging (h.resolve_left nofun)).move hq hr

theorem next (laws : BoxLaws) (codec : Rmp.RoundTrip (Message U T S))
    (total : ∀ m : Message U T S, m.Serializable) (hh : Consenting enc U S past net)
    (move : Encounter.Move enc U T S) :
    Consenting enc U S (⟨net, move⟩ :: past) (enc.next net move) := by
  obtain ⟨i, refines, sound, renewing, converging⟩ := hh.refines
  cases move with
  | initComm p addr now reaches =>
    obtain ⟨hexec, refines'⟩ := refines.initComm now reaches
    refine hh.step refines' (sound.initiate p) (renewing.initiate p) ?_
      fun _ => Introduction.initiate_converging p
    intro q call hcall
    cases hcall
    exact hexec
  | deliver p d via => exact hh.deliver laws codec total via
  | peerConfirm p k now nonce =>
    cases hk : (net.prompts p)[k]? with
    | none =>
      -- there is no such question: no call is made
      have hnext : enc.next net (.peerConfirm p k now nonce : Encounter.Move enc U T S) = net := by
        simp only [Encounter.next, hk]
      rw [hnext]
      refine hh.step refines sound renewing ?_ fun h => converging (h.resolve_left nofun)
      intro q call hcall
      simp [Encounter.call, hk] at hcall
    | some name =>
      obtain ⟨asked, hexec, refines'⟩ := refines.answer laws codec total sound hk now nonce
      refine hh.step refines' (sound.answer asked) (renewing.answer p) ?_
        fun _ => Introduction.answer_converging renewing p
      intro q call hcall
      simp only [Encounter.call, hk, Option.map_some, Option.some.injEq, Prod.mk.injEq] at hcall
      obtain ⟨rfl, rfl⟩ := hcall
      exact hexec

theorem of_run (laws : BoxLaws) (codec : Rmp.RoundTrip (Message U T S))
    (total : ∀ m : Message U T S, m.Serializable) (run : Run enc.next (enc.start T) past net) :
    Consenting enc U S past net := by
  refine run.history ?_ fun _ hh move => hh.next laws codec total move
  refine ⟨⟨.start, .start enc U S, Introduction.sound_start, Introduction.renewing_start, ?_⟩,
    fun st hst => by cases hst⟩
  rintro ⟨st, hst, _⟩
  cases hst

end Consenting

/-- However long the users take to answer, and whatever is started anew in the meantime: no handler
fails, and once nothing is on its way and no question is open after at least one `init_comm`, each
node has the other as an active peer under its own name and waits for nobody. -/
theorem consent_converges (laws : BoxLaws) (codec : Rmp.RoundTrip (Message U T S))
    (total : ∀ m : Message U T S, m.Serializable) (run : Run enc.next (enc.start T) past net) :
    (∀ st ∈ past, Encounter.Succeeds st) ∧
      ((∃ st ∈ past, st.input.initiates = true) → (∀ p, net.inbox p = []) → (∀ p, net.prompts p = []) →
        ∀ p, (∃ info, (net.node p).peers.lookup (enc.pubkey p.other) = some info ∧
            info.active = true ∧ info.peer.name = enc.name p.other) ∧
          (net.node p).pendingPeerInit = []) := by
  obtain ⟨⟨i, refines, sound, _, converging⟩, succeeded⟩ := Consenting.of_run laws codec total run
  refine ⟨succeeded, fun initiated quiet unasked p => ?_⟩
  have hquiet : ∀ q, i.inbox q = [] := fun q => by
    have hin : List.Forall₂ (Carries enc.trusting U T S q) (i.inbox q) (net.inbox q) :=
      refines.handshake.inbox q
    rwa [quiet, List.forall₂_nil_right_iff] at hin
  have hanswered : ∀ q, i.asked q = 0 := fun q => by
    have hp := refines.prompts q
    rw [unasked] at hp
    exact (List.replicate_eq_nil_iff _).mp hp.symm
  obtain ⟨hstatus, hpending⟩ :=
    Introduction.confirmed_of_quiet sound (converging initiated) hquiet hanswered p
  exact (refines.hosts p).peered hstatus hpending

end

namespace Sandbox

/-- Alice initiates contact once more while Bob is being asked, so he is asked twice. -/
def patience : List (Encounter.Move bobAsks Bool Unit Unit) :=
  [.deliver .left (delivered 2 0 12 []) rfl, .peerConfirm .right 0 0 11,
    .deliver .right (delivered 1 0 10 []) rfl, .deliver .left (delivered 2 0 9 []) rfl,
    .deliver .left (delivered 2 0 8 []) rfl, .peerConfirm .right 0 0 7,
    .deliver .right (delivered 1 0 6 []) rfl, .initComm .left address 0 (by decide),
    .deliver .right (delivered 1 0 4 []) rfl, .deliver .left (delivered 2 0 3 []) rfl,
    .deliver .right (delivered 1 0 2 []) rfl, .initComm .left address 0 (by decide)]

/-- Bob is asked about Alice before he has her as a peer. -/
example : (reach bobAsks.next (bobAsks.start Unit) (patience.drop 8)).prompts .right = ["a"] := by
  decide

theorem bob_consents : ∃ info,
    ((reach bobAsks.next (bobAsks.start Unit) patience).node .right).peers.lookup
        alice.toPubkey = some info ∧ info.active = true ∧ info.peer.name = "a" := by
  have initiated : ∃ st ∈ trail bobAsks.next (bobAsks.start Unit) patience, st.input.initiates = true :=
    ⟨_, List.mem_of_mem_getLast? rfl, rfl⟩
  have h := (consent_converges idealBox.toBoxLaws roundTrip serializable (Run.of_inputs patience)).2
    initiated ?_ ?_ .right
  · exact h.1
  · intro p
    cases p <;> rfl
  · intro p
    cases p <;> rfl

end Sandbox
end Tp2p
