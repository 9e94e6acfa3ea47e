import Tp2p.Network.Deadlines
import Tp2p.Network.Lookout

/-! Two nodes that do not turn each other away, over two queues that take their time. Both tick, so
what has been silent for too long is given up; and the users take as long as they like. -/
namespace Tp2p
open Transition Mail

section
variable [Sodium]

/-- The two nodes, what is on its way to each and since when, and the names about which its user is
asked. -/
structure TimedNet (T : Type) [DecidableEq T] where
  node : Side → Sync T
  inbox : Side → List (Letter MessageWrapped)
  prompts : Side → List String

namespace TimedNet
variable {U T S : Type}

/-- A node is told to initiate contact with the other, the oldest message that is on its way to a
node arrives, its user says yes to one of the questions, or it ticks. -/
inductive Move (enc : Encounter) (U T S : Type) where
  | initComm (p : Side) (addr : String) (now : DateTime)
      (reaches : ConnectionInfo.new addr = .ok (enc.address p.other))
  | deliver (p : Side) (d : Delivery U T S) (via : d.connectionInfo = enc.address p.other)
  | peerConfirm (p : Side) (i : Nat) (now : DateTime) (nonce : Nonce)
  | tick (p : Side) (order : IterOrder PeerInfo) (now : DateTime) (nonce : Pubkey → Nonce)

namespace Move
variable {enc : Encounter}

def now : Move enc U T S → DateTime
  | .initComm _ _ now _ | .peerConfirm _ _ now _ | .tick _ _ now _ => now
  | .deliver _ d _ => d.now

def initiates : Move enc U T S → Bool
  | .initComm .. => true
  | _ => false

def consents : Move enc U T S → Bool
  | .peerConfirm .. => true
  | _ => false

def ticks (p : Side) : Move enc U T S → Bool
  | .tick q .. => q = p
  | _ => false

end Move

variable [DecidableEq T] [Rmp (Message U T S)] [Subscription S T]

/-- A node makes a call, and all returned actions are carried out. -/
def perform (enc : Encounter) (net : TimedNet T) (p : Side) (call : Call U T S) : TimedNet T :=
  match (net.node p).exec call with
  | .ok actions =>
    { node := Function.update net.node p ((net.node p).applySyncActions (syncActions actions))
      inbox := Function.update net.inbox p.other
        (net.inbox p.other ++ post call.now (enc.sent p actions))
      prompts := Function.update net.prompts p (net.prompts p ++ Encounter.asked actions) }
  | .error _ => net

def next (enc : Encounter) (net : TimedNet T) : Move enc U T S → TimedNet T
  | .initComm p addr now _ => perform enc net p (.initComm addr now : Call U T S)
  | .deliver p d _ =>
    match net.inbox p with
    | [] => net
    | m :: rest =>
      perform enc { net with inbox := Function.update net.inbox p rest } p (.receive m.word d)
  | .peerConfirm p i now nonce =>
    match (net.prompts p)[i]? with
    | none => net
    | some name =>
      perform enc { net with prompts := Function.update net.prompts p ((net.prompts p).eraseIdx i) } p
        (.peerConfirm (enc.pubkey p.other) name now nonce : Call U T S)
  | .tick p order now nonce => perform enc net p (.tick order now nonce : Call U T S)

omit [Rmp (Message U T S)] [Subscription S T] in
/-- The call that a move makes, if any. -/
def call (enc : Encounter) (net : TimedNet T) : Move enc U T S → Option (Side × Call U T S)
  | .initComm p addr now _ => some (p, .initComm addr now)
  | .deliver p d _ => (net.inbox p).head?.map fun m => (p, .receive m.word d)
  | .peerConfirm p i now nonce =>
    (net.prompts p)[i]?.map fun name => (p, .peerConfirm (enc.pubkey p.other) name now nonce)
  | .tick p order now nonce => some (p, .tick order now nonce)

/-- No handler returns an error in this step. -/
def Succeeds {enc : Encounter} (st : Taken (TimedNet T) (Move enc U T S)) : Prop :=
  ∀ p made, call enc st.pre st.input = some (p, made) → ∃ actions, (st.pre.node p).exec made = .ok actions

/-- If the step is a tick, it takes nothing off the tables. -/
def Spares {enc : Encounter} (st : Taken (TimedNet T) (Move enc U T S)) : Prop :=
  ∀ p, st.input.ticks p = true → (next enc st.pre st.input).node = st.pre.node

/-- In this step the clock has not gone back, no message has been on its way for longer than the
delay, and no node has not ticked for longer than the gap. -/
structure Timely {enc : Encounter} (delay gap : Int) (start : DateTime)
    (past : List (Taken (TimedNet T) (Move enc U T S))) (st : Taken (TimedNet T) (Move enc U T S)) :
    Prop where
  started : start ≤ st.input.now
  forward : ∀ st' ∈ past, st'.input.now ≤ st.input.now
  quick : ∀ p, Quick delay (st.pre.inbox p) st.input.now
  ticks : ∀ p, st.input.now ≤ lastTime Move.now (Move.ticks p) start past + gap

omit [Rmp (Message U T S)] [Subscription S T] in
theorem timely_iff {enc : Encounter} {delay gap : Int} {start : DateTime}
    {past : List (Taken (TimedNet T) (Move enc U T S))} {st : Taken (TimedNet T) (Move enc U T S)} :
    Timely delay gap start past st ↔ start ≤ st.input.now ∧ (∀ st' ∈ past, st'.input.now ≤ st.input.now) ∧
      (∀ p, Quick delay (st.pre.inbox p) st.input.now) ∧
      ∀ p, st.input.now ≤ lastTime Move.now (Move.ticks p) start past + gap :=
  ⟨fun ⟨started, forward, quick, ticks⟩ => ⟨started, forward, quick, ticks⟩,
    fun ⟨started, forward, quick, ticks⟩ => ⟨started, forward, quick, ticks⟩⟩

instance {enc : Encounter} {delay gap : Int} {start : DateTime}
    {past : List (Taken (TimedNet T) (Move enc U T S))} {st : Taken (TimedNet T) (Move enc U T S)} :
    Decidable (Timely delay gap start past st) :=
  decidable_of_iff _ timely_iff.symm

/-- Two new nodes, nothing on its way and nothing asked. -/
def start (enc : Encounter) (T : Type) [DecidableEq T] : TimedNet T :=
  ⟨enc.new T, fun _ => [], fun _ => []⟩

end TimedNet

variable {U T S : Type} [DecidableEq T] [Rmp (Message U T S)]

/-- The message from the other node is to node `p` what the letter stands for. -/
def Bears (enc : Encounter) (U T S : Type) [Rmp (Message U T S)] (p : Side) (letter : Letter Word)
    (message : Letter MessageWrapped) : Prop :=
  message.sent = letter.sent ∧ Says enc.trusting U T S p letter.word message.word

/-- The nodes, the messages and the questions carry out the vigil `v`. -/
structure VigilRefines (enc : Encounter) (U S : Type) [Rmp (Message U T S)] (net : TimedNet T)
    (v : Vigil) : Prop where
  node : ∀ p, OnWatch enc p (net.node p) (v.lookout p)
  inbox : ∀ p, List.Forall₂ (Bears enc U T S p) (v.mail p) (net.inbox p)
  prompts : ∀ p, net.prompts p = List.replicate (v.asked p) (enc.name p.other)

variable {enc : Encounter} {net : TimedNet T} {v : Vigil} {p : Side}

namespace VigilRefines

theorem start (enc : Encounter) (U S : Type) [Rmp (Message U T S)] (now : DateTime) :
    VigilRefines enc U S (TimedNet.start enc T) (.start now) where
  node p := .start enc p now
  inbox _ := .nil
  prompts _ := rfl

theorem quick (h : VigilRefines enc U S net v) {delay now : Int} (hq : Quick delay (net.inbox p) now) :
    Quick delay (v.mail p) now := by
  intro letter hl
  obtain ⟨message, hm, sent, _⟩ := Attempt.exists_mem_of_mem_left (h.inbox p) hl
  rw [← sent]
  exact hq message hm

variable [Subscription S T]

/-- A node moves, with part of its inbox read, something said to the other, and something asked. -/
theorem perform (h : VigilRefines enc U S net v) {call : Call U T S} {lookout : Lookout}
    {out : List Word} {asks : Nat} (does : OnWatch.Does enc p (net.node p) call lookout out asks)
    {rest : List (Letter Word)} {unread : List (Letter MessageWrapped)}
    (hrest : List.Forall₂ (Bears enc U T S p) rest unread)
    {prompts : Side → List String} {asked : Side → Nat}
    (hprompts : ∀ q, Function.update prompts p (prompts p ++ List.replicate asks (enc.name p.other)) q =
      List.replicate (asked q) (enc.name q.other)) :
    (∃ actions, (net.node p).exec call = .ok actions) ∧ VigilRefines enc U S
      (.perform enc ⟨net.node, Function.update net.inbox p unread, prompts⟩ p call)
      { v.move p call.now lookout rest out with asked := asked } := by
  obtain ⟨actions, hexec, watch, hout, hasked⟩ := does
  refine ⟨⟨actions, hexec⟩, ?_⟩
  simp only [TimedNet.perform, hexec, hasked]
  have hposted : List.Forall₂ (Bears enc U T S p.other) (post call.now out)
      (post call.now (enc.sent p actions)) :=
    List.forall₂_map_left_iff.mpr (List.forall₂_map_right_iff.mpr (hout.imp fun _ _ hs => ⟨rfl, hs⟩))
  have hne : p ≠ p.other := (Side.other_ne p).symm
  refine ⟨Side.forall_of p ?_ ?_, Side.forall_of p ?_ ?_, hprompts⟩
  · simpa using watch
  · simpa [Function.update_of_ne hne.symm] using h.node p.other
  · simpa [Function.update_of_ne hne] using hrest
  · simpa [Function.update_of_ne hne.symm] using List.rel_append (h.inbox p.other) hposted

theorem initComm (h : VigilRefines enc U S net v) {addr : String} (now : DateTime)
    (reaches : ConnectionInfo.new addr = .ok (enc.address p.other)) : ∃ heard,
      (v.lookout p).Hears now heard (v.lookout p).status ∧
      (∃ actions : List (Action U T S), (net.node p).exec (.initComm addr now) = .ok actions) ∧
      VigilRefines enc U S (.next enc net (.initComm p addr now reaches : TimedNet.Move enc U T S))
        (v.initiate p now heard) := by
  obtain ⟨heard, hears, does⟩ := (h.node p).initComm (U := U) (S := S) now reaches
  have hperform := h.perform does (h.inbox p) (Encounter.prompts_idle h.prompts p)
  rw [Function.update_eq_self] at hperform
  exact ⟨heard, hears, hperform.1, hperform.2.node, hperform.2.inbox, hperform.2.prompts⟩

omit [Subscription S T] in
/-- The oldest message that is on its way to a node is the oldest letter. -/
theorem oldest (h : VigilRefines enc U S net v) {letter : Letter Word} {rest : List (Letter Word)}
    (hq : v.mail p = letter :: rest) : ∃ m unread, net.inbox p = m :: unread ∧
      Says enc.trusting U T S p letter.word m.word ∧
      List.Forall₂ (Bears enc U T S p) rest unread := by
  have hin : List.Forall₂ (Bears enc U T S p) (v.mail p) (net.inbox p) := h.inbox p
  rw [hq, List.forall₂_cons_left_iff] at hin
  obtain ⟨m, unread, ⟨_, said⟩, hunread, hinbox⟩ := hin
  exact ⟨m, unread, hinbox, said, hunread⟩

/-- A node reads the oldest message, and what it does is what the party would do. -/
theorem deliver (h : VigilRefines enc U S net v) {m : Letter MessageWrapped}
    {unread : List (Letter MessageWrapped)} (hinbox : net.inbox p = m :: unread)
    {rest : List (Letter Word)} (hunread : List.Forall₂ (Bears enc U T S p) rest unread)
    {d : Delivery U T S} (via : d.connectionInfo = enc.address p.other) {lookout : Lookout}
    {out : List Word} {asks : Nat}
    (does : OnWatch.Does enc p (net.node p) (.receive m.word d) lookout out asks) {asked : Side → Nat}
    (hasked : ∀ q, Function.update net.prompts p (net.prompts p ++ List.replicate asks (enc.name p.other)) q =
      List.replicate (asked q) (enc.name q.other)) :
    (∃ actions, (net.node p).exec (.receive m.word d) = .ok actions) ∧
      VigilRefines enc U S (.next enc net (.deliver p d via))
        { v.move p d.now lookout rest out with asked := asked } := by
  simp only [TimedNet.next, hinbox]
  exact h.perform does hunread hasked

theorem answer (laws : BoxLaws) (codec : Rmp.RoundTrip (Message U T S))
    (total : ∀ m : Message U T S, m.Serializable) (h : VigilRefines enc U S net v)
    (sound : v.plain.Sound) {k : Nat} {name : String} (hk : (net.prompts p)[k]? = some name)
    (now : DateTime) (nonce : Nonce) : ∃ heard,
      (v.lookout p).Hears now heard .confirmed ∧ 0 < v.asked p ∧
      (∃ actions : List (Action U T S),
        (net.node p).exec (.peerConfirm (enc.pubkey p.other) name now nonce) = .ok actions) ∧
      VigilRefines enc U S (.next enc net (.peerConfirm p k now nonce : TimedNet.Move enc U T S))
        (v.answer p now heard) := by
  obtain ⟨rfl, asked, hprompts⟩ := Encounter.prompts_answer h.prompts hk
  obtain ⟨heard, hears, does⟩ := (h.node p).answer (U := U) (S := S) laws codec total
    (sound.known_of_asked p asked p) now nonce
  have hperform := h.perform does (h.inbox p) (Encounter.prompts_idle hprompts p)
  rw [Function.update_eq_self] at hperform
  simp only [TimedNet.next, hk]
  exact ⟨heard, hears, asked, hperform.1, hperform.2.node, hperform.2.inbox, hperform.2.prompts⟩

/-- A tick that nobody was silent too long for leaves the nodes as they are. -/
theorem tick (laws : BoxLaws) (codec : Rmp.RoundTrip (Message U T S))
    (total : ∀ m : Message U T S, m.Serializable) (h : VigilRefines enc U S net v)
    (order : IterOrder PeerInfo) (now : DateTime) (nonce : Pubkey → Nonce)
    (heard : v.Knows p → now < (v.lookout p).heard + 180 * 1000000000)
    (opened : (v.lookout p).pending = true → now < (v.lookout p).opened + 120 * 1000000000) :
    (∃ actions : List (Action U T S), (net.node p).exec (.tick order now nonce) = .ok actions) ∧
      (TimedNet.next enc net (.tick p order now nonce : TimedNet.Move enc U T S)).node = net.node ∧
      VigilRefines enc U S (.next enc net (.tick p order now nonce : TimedNet.Move enc U T S))
        (v.tick p now) := by
  obtain ⟨does, same⟩ := (h.node p).tick (U := U) (S := S) laws codec total order now nonce heard opened
  have hperform := h.perform does (h.inbox p) (Encounter.prompts_idle h.prompts p)
  rw [Function.update_eq_self] at hperform
  refine ⟨hperform.1, ?_, hperform.2.node, hperform.2.inbox, hperform.2.prompts⟩
  obtain ⟨actions, hexec⟩ := hperform.1
  rw [Sync.next_ok hexec] at same
  simp only [TimedNet.next, TimedNet.perform, hexec, same, Function.update_eq_self]

end VigilRefines

/-- The vigil is told of the moves as they come. -/
structure Told {enc : Encounter} (start : DateTime)
    (past : List (Taken (TimedNet T) (TimedNet.Move enc U T S))) (v : Vigil) : Prop where
  ticked : ∀ p, v.ticked p = lastTime TimedNet.Move.now (TimedNet.Move.ticks p) start past
  begun : v.begun = lastTime TimedNet.Move.now TimedNet.Move.initiates start past
  consented : v.consented ≤ lastTime TimedNet.Move.now TimedNet.Move.consents start past
  converging : (∃ st ∈ past, st.input.initiates = true) → v.plain.Converging

/-- What every run of the two nodes keeps up in which nothing is late. -/
structure Keeping (enc : Encounter) (U S : Type) [Rmp (Message U T S)] [Subscription S T]
    (delay gap : Int) (start : DateTime) (past : List (Taken (TimedNet T) (TimedNet.Move enc U T S)))
    (net : TimedNet T) : Prop where
  refines : ∃ v, VigilRefines enc U S net v ∧ v.Kept delay gap ∧ Told start past v
  done : ∀ st ∈ past, TimedNet.Succeeds st ∧ TimedNet.Spares st

variable [Subscription S T] {past : List (Taken (TimedNet T) (TimedNet.Move enc U T S))}
  {delay gap : Int} {start : DateTime} {move : TimedNet.Move enc U T S}

omit [Subscription S T] in
theorem TimedNet.Timely.prompt (timely : Timely delay gap start past ⟨net, move⟩)
    (h : VigilRefines enc U S net v) (told : Told start past v) : v.Prompt delay gap move.now where
  mail _ := h.quick (timely.quick _)
  ticks p := by
    rw [told.ticked]
    exact timely.ticks p
  ticked p := by
    rw [told.ticked]
    exact lastTime_le _ timely.started timely.forward
  begun := by
    rw [told.begun]
    exact lastTime_le _ timely.started timely.forward
  consented := Int.le_trans told.consented (lastTime_le _ timely.started timely.forward)

omit [Rmp (Message U T S)] [Subscription S T] in
theorem TimedNet.initiated_before (later : move.initiates = false)
    (h : ∃ st ∈ (⟨net, move⟩ : Taken _ _) :: past, st.input.initiates = true) :
    ∃ st ∈ past, st.input.initiates = true := by
  obtain ⟨st, hst, initiates⟩ := h
  rcases List.mem_cons.mp hst with rfl | hst
  · cases later.symm.trans initiates
  · exact ⟨st, hst, initiates⟩

namespace Keeping

/-- A step that keeps everything up. -/
theorem step (hh : Keeping enc U S delay gap start past net) {next : TimedNet T}
    (refines : VigilRefines enc U S next v) (kept : v.Kept delay gap)
    (told : Told start (⟨net, move⟩ :: past) v) (succeeds : TimedNet.Succeeds ⟨net, move⟩)
    (spares : TimedNet.Spares ⟨net, move⟩) :
    Keeping enc U S delay gap start (⟨net, move⟩ :: past) next where
  refines := ⟨v, refines, kept, told⟩
  done st hst := by
    rcases List.mem_cons.mp hst with rfl | hst
    · exact ⟨succeeds, spares⟩
    · exact hh.done st hst

/-- A node reads the oldest message and does what its party would do. -/
theorem read (hh : Keeping enc U S delay gap start past net) (refines : VigilRefines enc U S net v)
    (told : Told start past v) {m : Letter MessageWrapped} {unread : List (Letter MessageWrapped)}
    (hinbox : net.inbox p = m :: unread) {rest : List (Letter Word)}
    (hunread : List.Forall₂ (Bears enc U T S p) rest unread) {d : Delivery U T S}
    (via : d.connectionInfo = enc.address p.other) {lookout : Lookout} {out : List Word} {asks : Nat}
    (does : OnWatch.Does enc p (net.node p) (.receive m.word d) lookout out asks) {asked : Side → Nat}
    (hasked : ∀ q, Function.update net.prompts p (net.prompts p ++ List.replicate asks (enc.name p.other)) q =
      List.replicate (asked q) (enc.name q.other))
    (kept : Vigil.Kept delay gap { v.move p d.now lookout rest out with asked := asked })
    (converging : v.plain.Converging →
      (Vigil.plain { v.move p d.now lookout rest out with asked := asked }).Converging) :
    Keeping enc U S delay gap start (⟨net, .deliver p d via⟩ :: past) (.next enc net (.deliver p d via)) := by
  obtain ⟨hexec, refines'⟩ := refines.deliver hinbox hunread via does hasked
  refine hh.step refines' kept ?_ ?_ fun _ => nofun
  · exact ⟨told.ticked, told.begun, told.consented,
      converging ∘ told.converging ∘ TimedNet.initiated_before rfl⟩
  · intro q call hcall
    simp only [TimedNet.call, hinbox, List.head?_cons, Option.map_some, Option.some.injEq,
      Prod.mk.injEq] at hcall
    obtain ⟨rfl, rfl⟩ := hcall
    exact hexec

/-- A node reads the oldest message that is on its way, if any. -/
theorem deliver (laws : BoxLaws) (codec : Rmp.RoundTrip (Message U T S))
    (total : ∀ m : Message U T S, m.Serializable) (hh : Keeping enc U S delay gap start past net)
    {d : Delivery U T S} (via : d.connectionInfo = enc.address p.other)
    (timely : TimedNet.Timely delay gap start past ⟨net, .deliver p d via⟩) :
    Keeping enc U S delay gap start (⟨net, .deliver p d via⟩ :: past) (.next enc net (.deliver p d via)) := by
  obtain ⟨v, refines, kept, told⟩ := hh.refines
  have prompt := timely.prompt refines told
  cases hq : v.mail p with
  | nil =>
    -- nothing is on its way: no call is made
    have hin : List.Forall₂ (Bears enc U T S p) (v.mail p) (net.inbox p) := refines.inbox p
    rw [hq, List.forall₂_nil_left_iff] at hin
    have hnext : TimedNet.next enc net (.deliver p d via) = net := by simp only [TimedNet.next, hin]
    rw [hnext]
    refine hh.step refines kept ?_ ?_ fun _ => nofun
    · exact ⟨told.ticked, told.begun, told.consented, told.converging ∘ TimedNet.initiated_before rfl⟩
    · intro q call hcall
      simp [TimedNet.call, hin] at hcall
  | cons letter rest =>
    obtain ⟨word, sent⟩ := letter
    obtain ⟨m, unread, hinbox, said, hunread⟩ := refines.oldest hq
    cases word with
    | token tok =>
      have carried := said.carried
      have inbox := Vigil.inbox_of_token hq
      by_cases asks : tok = .peerInit ∧
          (net.node p).peeringConfig.canConfirm (enc.pubkey p.other) = none
      · obtain ⟨rfl, undecided⟩ := asks
        have known := kept.sound.known_of_heard p (.inl (by rw [inbox]; exact List.mem_cons_self))
        obtain ⟨heard, hears, does⟩ := (refines.node p).ask carried known undecided d
        refine hh.read refines told hinbox hunread via does (Encounter.prompts_ask refines.prompts p)
          (kept.ask prompt hq hears) fun _ => ?_
        change (v.ask p d.now heard rest).plain.Converging
        rw [Vigil.plain_ask]
        exact Introduction.ask_converging kept.renewing inbox
      · have allowed := fun htok => (refines.node p).allowed.resolve_right fun hnone => asks ⟨htok, hnone⟩
        obtain ⟨party, out, hr⟩ := kept.sound.reacts inbox
        obtain ⟨heard, hears, does⟩ := (refines.node p).receive laws codec total carried hr allowed via
        refine hh.read refines told hinbox hunread via does (Encounter.prompts_idle refines.prompts p)
          (kept.take prompt hq hr hears) fun converging => ?_
        change (v.take p d.now party heard rest out).plain.Converging
        rw [Vigil.plain_take]
        exact converging.move inbox hr
    | ping | pong =>
      have known := kept.ready.knows hq rfl
      have does := (refines.node p).beat laws codec total said rfl known d
      refine hh.read refines told hinbox hunread via does (Encounter.prompts_idle refines.prompts p)
        (kept.beat prompt hq rfl) fun converging => ?_
      have plain : (v.beat p d.now _ rest).plain = v.plain := Vigil.plain_beat hq rfl
      exact (congrArg Introduction.Converging plain).mpr converging

theorem next (laws : BoxLaws) (codec : Rmp.RoundTrip (Message U T S))
    (total : ∀ m : Message U T S, m.Serializable) (early : 0 ≤ delay)
    (fits : gap + 2 * delay < 120 * 1000000000) (hh : Keeping enc U S delay gap start past net)
    (timely : TimedNet.Timely delay gap start past ⟨net, move⟩) :
    Keeping enc U S delay gap start (⟨net, move⟩ :: past) (.next enc net move) := by
  obtain ⟨v, refines, kept, told⟩ := hh.refines
  have prompt := timely.prompt refines told
  cases move with
  | initComm p addr now reaches =>
    obtain ⟨heard, hears, hexec, refines'⟩ := refines.initComm now reaches
    refine hh.step refines' (kept.initiate prompt hears) ?_ ?_ fun _ => nofun
    · refine ⟨told.ticked, rfl, told.consented, fun _ => ?_⟩
      rw [Vigil.plain_initiate]
      exact Introduction.initiate_converging p
    · intro q call hcall
      cases hcall
      exact hexec
  | deliver p d via => exact hh.deliver laws codec total via timely
  | peerConfirm p k now nonce =>
    cases hk : (net.prompts p)[k]? with
    | none =>
      -- there is no such question: no call is made
      have hnext : TimedNet.next enc net (.peerConfirm p k now nonce : TimedNet.Move enc U T S) = net := by
        simp only [TimedNet.next, hk]
      rw [hnext]
      refine hh.step refines kept ?_ ?_ fun _ => nofun
      · exact ⟨told.ticked, told.begun, prompt.consented, told.converging ∘ TimedNet.initiated_before rfl⟩
      · intro q call hcall
        simp [TimedNet.call, hk] at hcall
    | some name =>
      obtain ⟨heard, hears, asked, hexec, refines'⟩ := refines.answer laws codec total kept.sound hk now nonce
      refine hh.step refines' (kept.answer prompt asked hears) ?_ ?_ fun _ => nofun
      · refine ⟨told.ticked, told.begun, Int.le_refl now, fun _ => ?_⟩
        rw [Vigil.plain_answer]
        exact Introduction.answer_converging kept.renewing p
      · intro q call hcall
        simp only [TimedNet.call, hk, Option.map_some, Option.some.injEq, Prod.mk.injEq] at hcall
        obtain ⟨rfl, rfl⟩ := hcall
        exact hexec
  | tick p order now nonce =>
    obtain ⟨hexec, same, refines'⟩ := refines.tick laws codec total order now nonce
      (kept.not_silent prompt early fits) (kept.not_expired prompt fits)
    refine hh.step refines' (kept.tick prompt p) ?_ ?_ fun _ _ => same
    · refine ⟨Side.forall_of p ?_ ?_, told.begun, told.consented, fun initiated => ?_⟩
      · simp only [Vigil.tick, lastTime, TimedNet.Move.ticks, Function.update_self, decide_true, if_true]
        rfl
      · simp only [Vigil.tick, lastTime, TimedNet.Move.ticks, Function.update_of_ne (Side.other_ne p),
          (Side.other_ne p).symm, decide_false, Bool.false_eq_true, if_false]
        exact told.ticked p.other
      · rw [Vigil.plain_tick]
        exact told.converging (TimedNet.initiated_before rfl initiated)
    · intro q call hcall
      cases hcall
      exact hexec

theorem of_run (laws : BoxLaws) (codec : Rmp.RoundTrip (Message U T S))
    (total : ∀ m : Message U T S, m.Serializable) (early : 0 ≤ delay)
    (fits : gap + 2 * delay < 120 * 1000000000)
    (run : Run (TimedNet.next enc) (TimedNet.start enc T) past net)
    (timely : Every (TimedNet.Timely delay gap start) past) :
    Keeping enc U S delay gap start past net := by
  induction run with
  | start =>
    have told : Told start ([] : List (Taken (TimedNet T) (TimedNet.Move enc U T S))) (.start start) :=
      ⟨fun _ => rfl, rfl, Int.le_refl start, fun ⟨_, hst, _⟩ => (List.not_mem_nil hst).elim⟩
    exact ⟨⟨_, .start enc U S start, Vigil.kept_start delay gap start, told⟩,
      fun _ hst => (List.not_mem_nil hst).elim⟩
  | step _ move ih => exact (ih timely.2).next laws codec total early fits timely.1

end Keeping

/-- If no message takes longer than `delay`, and both nodes tick at least once in any `gap`, then no
handler fails and no tick gives up on anybody. And once the last `init_comm` is four messages ago,
the last consent one, and no question is open, each node has the other as an active peer under its
own name and waits for nobody. -/
theorem peering_in_time (laws : BoxLaws) (codec : Rmp.RoundTrip (Message U T S))
    (total : ∀ m : Message U T S, m.Serializable) (early : 0 ≤ delay)
    (fits : gap + 2 * delay < 120 * 1000000000)
    (run : Run (TimedNet.next enc) (TimedNet.start enc T) past net)
    (timely : Every (TimedNet.Timely delay gap start) past) :
    (∀ st ∈ past, TimedNet.Succeeds st ∧ TimedNet.Spares st) ∧
      ∀ now, (∃ st ∈ past, st.input.initiates = true) → (∀ p, Quick delay (net.inbox p) now) →
        lastTime TimedNet.Move.now TimedNet.Move.initiates start past + 4 * delay < now →
        lastTime TimedNet.Move.now TimedNet.Move.consents start past + delay < now →
        (∀ p, net.prompts p = []) →
        ∀ p, (∃ info, (net.node p).peers.lookup (enc.pubkey p.other) = some info ∧
            info.active = true ∧ info.peer.name = enc.name p.other) ∧
          (net.node p).pendingPeerInit = [] := by
  obtain ⟨⟨v, refines, kept, told⟩, done⟩ := Keeping.of_run laws codec total early fits run timely
  refine ⟨done, fun now initiated quick begun consented unasked p => ?_⟩
  have hquiet : ∀ q, v.plain.inbox q = [] := by
    have hbegun : v.begun + 4 * delay < now := by
      rw [told.begun]
      exact begun
    have hconsented : v.consented + delay < now :=
      Int.lt_of_le_of_lt (Int.add_le_add_right told.consented delay) consented
    exact kept.settled early (fun q => refines.quick (quick q)) hbegun hconsented
  have hanswered : ∀ q, v.asked q = 0 := fun q => by
    have hp := refines.prompts q
    rw [unasked] at hp
    exact (List.replicate_eq_nil_iff _).mp hp.symm
  obtain ⟨hstatus, hpending⟩ :=
    Introduction.confirmed_of_quiet kept.sound (told.converging initiated) hquiet hanswered p
  exact (refines.node p).peered hstatus hpending

end

namespace Sandbox

def second : Int := 1000000000

theorem bob_reached : ConnectionInfo.new address = .ok (bobAsks.address Side.left.other) := by decide

/-- Bob is asked about Alice, and a minute after he has said yes he pings her. -/
def vigil : List (TimedNet.Move bobAsks Bool Unit Unit) :=
  [.tick .right .stored (65 * second) fun _ => 4, .deliver .left (delivered 2 5 3 []) rfl,
    .peerConfirm .right 0 4 2, .deliver .right (delivered 1 3 1 []) rfl,
    .deliver .left (delivered 2 2 0 []) rfl, .deliver .right (delivered 1 1 0 []) rfl,
    .initComm .left address 0 bob_reached]

theorem vigil_timely : Every (TimedNet.Timely (10 * second) (70 * second) 0)
    (trail (TimedNet.next bobAsks) (.start bobAsks Unit) vigil) := by decide

theorem bob_keeps_alice : ∃ info,
    ((reach (TimedNet.next bobAsks) (.start bobAsks Unit) vigil).node .right).peers.lookup
        alice.toPubkey = some info ∧ info.active = true ∧ info.peer.name = "a" := by
  have initiated : ∃ st ∈ trail (TimedNet.next bobAsks) (.start bobAsks Unit) vigil,
      st.input.initiates = true := ⟨_, List.mem_of_mem_getLast? rfl, rfl⟩
  have h := (peering_in_time idealBox.toBoxLaws roundTrip serializable (by decide) (by decide)
    (Run.of_inputs vigil) vigil_timely).2 (66 * second) initiated ?_ ?_ ?_ ?_ .right
  · exact h.1
  all_goals decide

end Sandbox
end Tp2p
