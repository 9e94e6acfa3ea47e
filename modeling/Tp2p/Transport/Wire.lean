import Tp2p.Network.Convergence
import Tp2p.Transport.Application

/-! Two nodes and everything between them: applications that dispatch actions one at a time,
peer managers that write frames, a stream of bytes in each direction, and readers that cut the
frames out of it again. Together they are the two reliable queues of `Link`. -/
namespace Tp2p
open Transition Framing

section
variable [Sodium]

/-- The two nodes, and what is on its way to each: message bytes that its peer manager has yet
to write, bytes in flight to it, bytes in its reader, and frames for its application. -/
structure Wire (T : Type) [DecidableEq T] where
  node : Side → Sync T
  outbox : Side → List Bytes
  flight : Side → Bytes
  reader : Side → ReaderState
  inbox : Side → List PeerEvent

namespace Wire

/-- An application initiates contact, a peer manager writes the next message to the stream, a
reader reads some of the bytes that are there, or an application takes the next frame. -/
inductive Move (link : Link) (U T S : Type) where
  | startComm (p : Side) (addr : String) (now : DateTime)
      (reaches : ConnectionInfo.new addr = .ok (link.address p.other))
  | write (p : Side)
  | read (p : Side) (n : Nat)
  | handle (p : Side) (d : Delivery U T S)

def Move.initiates {link : Link} {U T S : Type} : Move link U T S → Bool
  | .startComm .. => true
  | _ => false

variable {U T S : Type} [DecidableEq T]

def start (link : Link) (T : Type) [DecidableEq T] : Wire T where
  node := link.new T
  outbox _ := []
  flight _ := []
  reader _ := .reading .new
  inbox _ := []

/-- The messages for the other node among the events for the peer manager. -/
def posted (link : Link) (p : Side) (events : List PeerEvent) : List Bytes :=
  events.filterMap fun
    | .send c bytes => if c = link.address p.other then some bytes else none
    | _ => none

/-- The application of a node has done something. -/
def perform (link : Link) (net : Wire T) (p : Side) (done : Sync T × List PeerEvent × Option AppError) :
    Wire T :=
  { net with
    node := Function.update net.node p done.1
    outbox := Function.update net.outbox p (net.outbox p ++ posted link p done.2.1) }

variable [Rmp (Message U T S)] [Rmp MessageWrapped] [Subscription S T]

/-- What the application of a node does in a move, if anything. -/
def done (net : Wire T) {link : Link} : Move link U T S →
    Option (Side × Sync T × List PeerEvent × Option AppError)
  | .startComm p addr now _ => some (p, (net.node p).startComm U S addr now)
  | .handle p d =>
    match net.inbox p with
    | .recv from_ frame :: _ => some (p, (net.node p).handleRecv frame { d with connectionInfo := from_ })
    | _ => none
  | _ => none

def next (overflowChecks : Bool) (link : Link) (net : Wire T) (move : Move link U T S) : Wire T :=
  match move with
  | .startComm p addr now _ => perform link net p ((net.node p).startComm U S addr now)
  | .write p =>
    match net.outbox p with
    | [] => net
    | messageBytes :: unwritten =>
      { net with
        outbox := Function.update net.outbox p unwritten
        flight := Function.update net.flight p.other
          (net.flight p.other ++ createFramedMessage messageBytes) }
  | .read p n =>
    if net.flight p = [] then net
    else
      let pass := readerPass overflowChecks (link.address p.other) (.ok ((net.flight p).take (n + 1)))
        (net.reader p)
      { net with
        flight := Function.update net.flight p ((net.flight p).drop (n + 1))
        reader := Function.update net.reader p pass.2
        inbox := Function.update net.inbox p (net.inbox p ++ pass.1) }
  | .handle p d =>
    match net.inbox p with
    | [] => net
    | .recv from_ frame :: unhandled =>
      perform link { net with inbox := Function.update net.inbox p unhandled } p
        ((net.node p).handleRecv frame { d with connectionInfo := from_ })
    | _ :: unhandled => { net with inbox := Function.update net.inbox p unhandled }

/-- Nothing goes wrong in this step: no error in the application, no reader that ends. -/
structure Succeeds (overflowChecks : Bool) (link : Link) (st : Taken (Wire T) (Move link U T S)) :
    Prop where
  application : ∀ p sync events err, st.pre.done st.input = some (p, sync, events, err) → err = none
  readers : ∀ p, ∃ framed, (next overflowChecks link st.pre st.input).reader p = .reading framed

/-- What the peer manager writes in this step fits into a frame. -/
def Fits {link : Link} (st : Taken (Wire T) (Move link U T S)) : Prop :=
  match st.input with
  | .write p => ∀ messageBytes ∈ (st.pre.outbox p).head?, FitsFrame messageBytes
  | _ => True

instance {link : Link} (st : Taken (Wire T) (Move link U T S)) : Decidable (Fits st) :=
  match st with
  | ⟨pre, .write p⟩ =>
    inferInstanceAs (Decidable (∀ messageBytes ∈ (pre.outbox p).head?, FitsFrame messageBytes))
  | ⟨_, .startComm ..⟩ | ⟨_, .read ..⟩ | ⟨_, .handle ..⟩ => .isTrue True.intro

/-- The bytes are those of the message. -/
def Encodes (messageBytes : Bytes) (msg : MessageWrapped) : Prop :=
  Rmp.serialize msg = .ok messageBytes

/-- The queue of messages to node `p`, from its front to its end: frames for the application,
frames under way, and message bytes that are still to be written. -/
def Queue (overflowChecks : Bool) (link : Link) (p : Side) (inbox : List PeerEvent)
    (reader : ReaderState) (flight : Bytes) (outbox : List Bytes) (msgs : List MessageWrapped) : Prop :=
  ∃ (frames underWay : List Bytes) (buffer : Bytes),
    inbox = frames.map (PeerEvent.recv (link.address p.other)) ∧ reader = .reading ⟨buffer⟩ ∧
    (framing overflowChecks).UnderWay buffer flight underWay ∧
    List.Forall₂ Encodes (frames ++ underWay ++ outbox) msgs

section
variable {overflowChecks : Bool} {link : Link} {p : Side} {inbox : List PeerEvent}
variable {reader : ReaderState} {flight : Bytes} {outbox : List Bytes} {msgs : List MessageWrapped}

theorem Queue.reading (h : Queue overflowChecks link p inbox reader flight outbox msgs) :
    ∃ framed, reader = .reading framed := by
  obtain ⟨_, _, buffer, _, hreader, _⟩ := h
  exact ⟨⟨buffer⟩, hreader⟩

theorem Queue.post (h : Queue overflowChecks link p inbox reader flight outbox msgs)
    {more : List Bytes} {said : List MessageWrapped} (hsaid : List.Forall₂ Encodes more said) :
    Queue overflowChecks link p inbox reader flight (outbox ++ more) (msgs ++ said) := by
  obtain ⟨frames, underWay, buffer, hinbox, hreader, hway, hmsgs⟩ := h
  refine ⟨frames, underWay, buffer, hinbox, hreader, hway, ?_⟩
  rw [← List.append_assoc]
  exact List.rel_append hmsgs hsaid

/-- A message is written to the stream as one frame. -/
theorem Queue.write {messageBytes : Bytes} {unwritten : List Bytes}
    (h : Queue overflowChecks link p inbox reader flight (messageBytes :: unwritten) msgs)
    (fits : FitsFrame messageBytes) :
    Queue overflowChecks link p inbox reader (flight ++ createFramedMessage messageBytes) unwritten msgs := by
  obtain ⟨frames, underWay, buffer, hinbox, hreader, hway, hmsgs⟩ := h
  refine ⟨frames, underWay ++ [messageBytes], buffer, hinbox, hreader, hway.send fits, ?_⟩
  simpa using hmsgs

/-- A read of any size takes frames off the stream. -/
theorem Queue.read (h : Queue overflowChecks link p inbox reader flight outbox msgs)
    (hne : flight ≠ []) (n : Nat) {pass : List PeerEvent × ReaderState}
    (hpass : pass = readerPass overflowChecks (link.address p.other) (.ok (flight.take (n + 1))) reader) :
    Queue overflowChecks link p (inbox ++ pass.1) pass.2 (flight.drop (n + 1)) outbox msgs := by
  obtain ⟨frames, underWay, buffer, rfl, rfl, hway, hmsgs⟩ := h
  rw [← List.take_append_drop (n + 1) flight] at hway
  obtain ⟨arrived, left, missing, rfl, hdrain, hway'⟩ := hway.read
  have hchunk : flight.take (n + 1) ≠ [] := by
    intro h
    rcases List.take_eq_nil_iff.mp h with h | h
    · cases h
    · exact hne h
  have hpass' := hpass.trans (readerPass_ok hchunk hdrain)
  refine ⟨frames ++ arrived, missing, left, ?_, ?_, hway', ?_⟩
  · rw [hpass', List.map_append]
  · rw [hpass']
  · simpa using hmsgs

/-- The frame at the front of the queue is that of the message at its front. -/
theorem Queue.handle {ev : PeerEvent} {unhandled : List PeerEvent}
    (h : Queue overflowChecks link p (ev :: unhandled) reader flight outbox msgs) :
    ∃ frame msg unread, ev = .recv (link.address p.other) frame ∧ msgs = msg :: unread ∧
      Encodes frame msg ∧ Queue overflowChecks link p unhandled reader flight outbox unread := by
  obtain ⟨frames, underWay, buffer, hinbox, hreader, hway, hmsgs⟩ := h
  cases frames with
  | nil => cases hinbox
  | cons frame frames =>
    obtain ⟨rfl, rfl⟩ := List.cons.inj hinbox
    simp only [List.cons_append] at hmsgs
    obtain ⟨msg, unread, hmsg, hunread, rfl⟩ := List.forall₂_cons_left_iff.mp hmsgs
    exact ⟨frame, msg, unread, rfl, rfl, hmsg, frames, underWay, buffer, rfl, hreader, hway, hunread⟩

/-- Where nothing is left to be written, in flight or to be handled, nothing is on its way. -/
theorem Queue.quiet (h : Queue overflowChecks link p [] reader [] [] msgs) :
    msgs = [] ∧ reader = .reading .new := by
  obtain ⟨frames, underWay, buffer, hinbox, rfl, hway, hmsgs⟩ := h
  obtain ⟨rfl, rfl⟩ := hway.done
  obtain rfl : frames = [] := List.map_eq_nil_iff.mp hinbox.symm
  exact ⟨List.forall₂_nil_left_iff.mp hmsgs, rfl⟩

end

/-- The wire and the two reliable queues are in the same state. -/
structure Carried (overflowChecks : Bool) (link : Link) (wire : Wire T) (net : Net T) : Prop where
  node : wire.node = net.node
  queue : ∀ p, Queue overflowChecks link p (wire.inbox p) (wire.reader p) (wire.flight p)
    (wire.outbox p.other) (net.inbox p)

variable {overflowChecks : Bool} {link : Link} {wire : Wire T} {net : Net T} {p : Side}

theorem Carried.start (overflowChecks : Bool) (link : Link) :
    Carried overflowChecks link (Wire.start link T) (link.start T) where
  node := rfl
  queue _ := ⟨[], [], [], rfl, rfl, .nil _, .nil⟩

omit [DecidableEq T] [Rmp (Message U T S)] [Subscription S T] in
/-- The messages that the actions of a node send to the other are posted in order. -/
theorem posted_sendEvents (link : Link) (p : Side) (wireTotal : ∀ msg : MessageWrapped, ∃ bytes, Encodes bytes msg)
    (actions : List (Action U T S)) :
    List.Forall₂ Encodes (posted link p (Sync.sendEvents actions)) (link.sent p actions) := by
  induction actions with
  | nil => exact .nil
  | cons action actions ih =>
    cases action with
    | sync | confirm => exact ih
    | messageSend c msg =>
      obtain ⟨bytes, hbytes⟩ := wireTotal msg
      have hs : serializeWrapped msg = .ok bytes := by
        rw [serializeWrapped, hbytes]
      by_cases hc : c = link.address p.other
      · have hposted : posted link p (Sync.sendEvents (.messageSend c msg :: actions)) =
            bytes :: posted link p (Sync.sendEvents actions) := by
          simp [posted, Sync.sendEvents, hs, Except.toOption, hc]
        have hsent : link.sent p (.messageSend c msg :: actions) = msg :: link.sent p actions := by
          simp [Link.sent, sentOn, hc]
        rw [hposted, hsent]
        exact .cons hbytes ih
      · have hposted : posted link p (Sync.sendEvents (.messageSend c msg :: actions)) =
            posted link p (Sync.sendEvents actions) := by
          simp [posted, Sync.sendEvents, hs, Except.toOption, hc]
        have hsent : link.sent p (.messageSend c msg :: actions) = link.sent p actions := by
          simp [Link.sent, sentOn, hc]
        rw [hposted, hsent]
        exact ih

omit [DecidableEq T] [Rmp (Message U T S)] [Subscription S T] in
theorem not_unserializable (wireTotal : ∀ msg : MessageWrapped, ∃ bytes, Encodes bytes msg)
    (action : Action U T S) : ¬ Sync.Unserializable action := by
  cases action with
  | sync | confirm => exact id
  | messageSend c msg =>
    rintro ⟨err, h⟩
    obtain ⟨bytes, hbytes⟩ := wireTotal msg
    rw [serializeWrapped, hbytes] at h
    cases h

/-- A node makes a call on both levels. -/
theorem Carried.perform (wireTotal : ∀ msg : MessageWrapped, ∃ bytes, Encodes bytes msg)
    (h : Carried overflowChecks link wire net) {call : Call U T S} {actions : List (Action U T S)}
    (returned : (net.node p).exec call = .ok actions) :
    Carried overflowChecks link
      (wire.perform link p ((net.node p).applySyncActions (syncActions actions),
        Sync.sendEvents actions, none))
      (link.perform net p call) := by
  have hne : p ≠ p.other := (Side.other_ne p).symm
  simp only [Link.perform, returned]
  refine ⟨congrArg (Function.update · p _) h.node, Side.forall_of p ?_ ?_⟩
  · have hq := h.queue p
    simpa [Wire.perform, Function.update_of_ne hne, Function.update_of_ne hne.symm] using hq
  · have hq := (h.queue p.other).post (posted_sendEvents link p wireTotal actions)
    simpa [Wire.perform, Side.other_other] using hq

/-- A write, a read, or a move for which nothing is there changes nothing in the queues. -/
theorem Carried.write (h : Carried overflowChecks link wire net) (p : Side)
    (fits : ∀ messageBytes ∈ (wire.outbox p).head?, FitsFrame messageBytes) :
    Carried overflowChecks link (next overflowChecks link wire (.write p : Move link U T S)) net := by
  have hne : p ≠ p.other := (Side.other_ne p).symm
  rw [next]
  cases ho : wire.outbox p with
  | nil => exact h
  | cons messageBytes unwritten =>
    refine ⟨h.node, Side.forall_of p ?_ ?_⟩
    · have hq := h.queue p
      simpa [Function.update_of_ne hne, Function.update_of_ne hne.symm] using hq
    · have hq := h.queue p.other
      rw [Side.other_other, ho] at hq
      have hw := hq.write (fits messageBytes (by rw [ho]; rfl))
      simpa [Side.other_other] using hw

theorem Carried.read (h : Carried overflowChecks link wire net) (p : Side) (n : Nat) :
    Carried overflowChecks link (next overflowChecks link wire (.read p n : Move link U T S)) net := by
  have hne : p ≠ p.other := (Side.other_ne p).symm
  rw [next]
  by_cases hf : wire.flight p = []
  · rw [if_pos hf]
    exact h
  · rw [if_neg hf]
    refine ⟨h.node, Side.forall_of p ?_ ?_⟩
    · have hr := (h.queue p).read hf n rfl
      simpa using hr
    · have hq := h.queue p.other
      simpa [Function.update_of_ne hne.symm] using hq

/-- Part of a queue has been taken off its front. -/
theorem Carried.unread (h : Carried overflowChecks link wire net) {unhandled : List PeerEvent}
    {unread : List MessageWrapped}
    (hq : Queue overflowChecks link p unhandled (wire.reader p) (wire.flight p) (wire.outbox p.other)
      unread) : Carried overflowChecks link
      { wire with inbox := Function.update wire.inbox p unhandled }
      { net with inbox := Function.update net.inbox p unread } := by
  refine ⟨h.node, Side.forall_of p ?_ ?_⟩
  · simpa using hq
  · simpa [Function.update_of_ne (Side.other_ne p)] using h.queue p.other

/-- After `past` the two queues can be where the wire is, and nothing has gone wrong. -/
structure Simulated (overflowChecks : Bool) (link : Link)
    (past : List (Taken (Wire T) (Move link U T S))) (wire : Wire T) : Prop where
  queues : ∃ (past' : List (Taken (Net T) (Link.Move link U T S))) (net : Net T),
    Run link.next (link.start T) past' net ∧ Carried overflowChecks link wire net ∧
      ((∃ st ∈ past, st.input.initiates = true) → ∃ st ∈ past', st.input.initiates = true)
  succeeded : ∀ st ∈ past, Succeeds overflowChecks link st

section
variable {past : List (Taken (Wire T) (Move link U T S))}

/-- The step changes nothing in the queues. -/
theorem Simulated.stutter (h : Simulated overflowChecks link past wire) {move : Move link U T S}
    (quiet : move.initiates = false) (idle : wire.done move = none)
    (carried : ∀ net, Carried overflowChecks link wire net →
      Carried overflowChecks link (next overflowChecks link wire move) net) :
    Simulated overflowChecks link (⟨wire, move⟩ :: past) (next overflowChecks link wire move) := by
  obtain ⟨⟨past', net, run, hc, initiated⟩, succeeded⟩ := h
  have hc' := carried net hc
  refine ⟨⟨past', net, run, hc', fun ⟨st, hst, hi⟩ => ?_⟩, List.forall_mem_cons.mpr ⟨?_, succeeded⟩⟩
  · rcases List.mem_cons.mp hst with rfl | hst
    · exact absurd (hi.symm.trans quiet) (by decide)
    · exact initiated ⟨st, hst, hi⟩
  · exact ⟨fun p sync events err hd => (by cases idle.symm.trans hd), fun p => (hc'.queue p).reading⟩

/-- The step is one step of the queues. -/
theorem Simulated.step (succeeded : ∀ st ∈ past, Succeeds overflowChecks link st)
    {past' : List (Taken (Net T) (Link.Move link U T S))} {net' : Net T}
    (run : Run link.next (link.start T) past' net') {move : Move link U T S} {p : Side}
    {sync : Sync T} {events : List PeerEvent} (done : wire.done move = some (p, sync, events, none))
    (carried : Carried overflowChecks link (next overflowChecks link wire move) net')
    (initiated : (∃ st ∈ (⟨wire, move⟩ :: past : List (Taken (Wire T) (Move link U T S))),
      st.input.initiates = true) → ∃ st ∈ past', st.input.initiates = true) :
    Simulated overflowChecks link (⟨wire, move⟩ :: past) (next overflowChecks link wire move) := by
  refine ⟨⟨past', net', run, carried, initiated⟩, List.forall_mem_cons.mpr ⟨?_, succeeded⟩⟩
  refine ⟨fun p' sync' events' err hd => ?_, fun p => (carried.queue p).reading⟩
  cases done.symm.trans hd
  rfl

/-- What one step of the wire does to the queues. -/
theorem Simulated.next (laws : BoxLaws) (codec : Rmp.RoundTrip (Message U T S))
    (total : ∀ m : Message U T S, m.Serializable) (wireCodec : Rmp.RoundTrip MessageWrapped)
    (wireTotal : ∀ msg : MessageWrapped, ∃ bytes, Encodes bytes msg)
    (h : Simulated overflowChecks link past wire) (move : Move link U T S)
    (fits : Fits ⟨wire, move⟩) :
    Simulated overflowChecks link (⟨wire, move⟩ :: past) (Wire.next overflowChecks link wire move) := by
  have hsucceeded := h.succeeded
  obtain ⟨past', net, run, hc, initiated⟩ := h.queues
  cases move with
  | write p => exact h.stutter rfl rfl fun net hc => hc.write p fits
  | read p n => exact h.stutter rfl rfl fun net hc => hc.read p n
  | startComm p addr now reaches =>
    have run' := run.step (.initComm p addr now reaches : Link.Move link U T S)
    obtain ⟨actions, returned⟩ :=
      (Handshaking.of_run laws codec total run').succeeded _ List.mem_cons_self p _ rfl
    have hdone := Sync.startComm_ok returned fun a _ => not_unserializable wireTotal a
    rw [← congrFun hc.node p] at hdone
    have hperform := hc.perform (p := p) wireTotal returned
    rw [← congrFun hc.node p] at hperform
    refine .step hsucceeded run' (p := p) (by rw [done, hdone]) ?_ fun _ => ⟨_, List.mem_cons_self, rfl⟩
    rw [Wire.next, hdone]
    exact hperform
  | handle p d =>
    cases hi : wire.inbox p with
    | nil =>
      refine h.stutter rfl (by rw [done, hi]) fun net hc => ?_
      rw [Wire.next, hi]
      exact hc
    | cons ev unhandled =>
      have hq := hc.queue p
      rw [hi] at hq
      obtain ⟨frame, msg, unread, rfl, hmsgs, henc, hq⟩ := hq.handle
      have run' := run.step (.deliver p { d with connectionInfo := link.address p.other } rfl)
      obtain ⟨actions, returned⟩ :=
        (Handshaking.of_run laws codec total run').succeeded _ List.mem_cons_self p
          (.receive msg { d with connectionInfo := link.address p.other }) (by simp [Link.call, hmsgs])
      have hdone := Sync.handleRecv_ok (wireCodec msg frame henc) returned
        fun a _ => not_unserializable wireTotal a
      have hperform := (hc.unread (p := p) hq).perform (p := p) wireTotal returned
      rw [← congrFun hc.node p] at hdone
      have hmove : wire.done (.handle p d : Move link U T S) = some (p, (wire.node p).handleRecv frame
          { d with connectionInfo := link.address p.other }) := by
        rw [done, hi]
      refine .step hsucceeded run' (hmove.trans (congrArg (fun x => some (p, x)) hdone)) ?_ ?_
      · rw [Link.next, hmsgs]
        simp only [Wire.next, hi, hdone]
        simp only [← congrFun hc.node p] at hperform
        exact hperform
      · rintro ⟨st, hst, hinit⟩
        rcases List.mem_cons.mp hst with rfl | hst
        · cases hinit
        · obtain ⟨st', hst', hinit'⟩ := initiated ⟨st, hst, hinit⟩
          exact ⟨st', List.mem_cons_of_mem _ hst', hinit'⟩

theorem Simulated.of_run (laws : BoxLaws) (codec : Rmp.RoundTrip (Message U T S))
    (total : ∀ m : Message U T S, m.Serializable) (wireCodec : Rmp.RoundTrip MessageWrapped)
    (wireTotal : ∀ msg : MessageWrapped, ∃ bytes, Encodes bytes msg)
    (run : Run (Wire.next overflowChecks link) (Wire.start link T) past wire)
    (fits : ∀ st ∈ past, Fits st) : Simulated overflowChecks link past wire := by
  induction run with
  | start =>
    refine ⟨⟨[], _, .start, .start overflowChecks link, ?_⟩, fun st hst => by cases hst⟩
    rintro ⟨st, hst, _⟩
    cases hst
  | step _ move ih =>
    have h := ih fun st hst => fits st (List.mem_cons_of_mem _ hst)
    exact h.next laws codec total wireCodec wireTotal move (fits _ List.mem_cons_self)

end

/-- The handshake over bytes: however the streams are cut into reads, and however writing,
reading and handling are interleaved, no application reports an error, no reader ends, and once
nothing is left to be written, in flight or to be handled after at least one `init_comm`, both
nodes are peered and both readers have an empty buffer. -/
theorem wire_peering_converges (laws : BoxLaws) (codec : Rmp.RoundTrip (Message U T S))
    (total : ∀ m : Message U T S, m.Serializable) (wireCodec : Rmp.RoundTrip MessageWrapped)
    (wireTotal : ∀ msg : MessageWrapped, ∃ bytes, Encodes bytes msg)
    {past : List (Taken (Wire T) (Move link U T S))}
    (run : Run (Wire.next overflowChecks link) (Wire.start link T) past wire)
    (fits : ∀ st ∈ past, Fits st) :
    (∀ st ∈ past, Succeeds overflowChecks link st) ∧
      ((∃ st ∈ past, st.input.initiates = true) →
        (∀ p, wire.outbox p = [] ∧ wire.flight p = [] ∧ wire.inbox p = []) → ∀ p,
        (∃ info, (wire.node p).peers.lookup (link.pubkey p.other) = some info ∧
          info.active = true ∧ info.peer.name = link.name p.other) ∧
        (wire.node p).pendingPeerInit = [] ∧ wire.reader p = .reading .new) := by
  obtain ⟨⟨past', net, run', hc, hinit⟩, succeeded⟩ :=
    Simulated.of_run laws codec total wireCodec wireTotal run fits
  refine ⟨succeeded, fun initiated quiet p => ?_⟩
  have hquiet : ∀ q, net.inbox q = [] ∧ wire.reader q = .reading .new := by
    intro q
    have hq := hc.queue q
    rw [(quiet q).2.2, (quiet q).2.1, (quiet q.other).1] at hq
    exact hq.quiet
  obtain ⟨record, pending⟩ := (Handshaking.of_run laws codec total run').peered
    (hinit initiated) (fun q => (hquiet q).1) p
  rw [hc.node]
  exact ⟨record, pending, (hquiet p).2⟩

end Wire
end

namespace Sandbox
open Wire

/-- Whatever `p` has to say reaches the other node, in two reads. -/
def passOn (p : Side) (d : Delivery Bool Unit Unit) : List (Wire.Move aliceToBob Bool Unit Unit) :=
  [.handle p.other d, .read p.other 200, .read p.other 2, .write p]

theorem bob_at_address : ConnectionInfo.new address = .ok (aliceToBob.address .right) := by decide

/-- Alice initiates, and the messages of the handshake pass over the wire. -/
def wireIntroduction : List (Wire.Move aliceToBob Bool Unit Unit) :=
  passOn .right (delivered 2 0 4 []) ++ passOn .left (delivered 1 0 3 []) ++
    passOn .right (delivered 2 0 2 []) ++ passOn .left (delivered 1 0 1 []) ++
    [.startComm .left address 0 bob_at_address]

/-- Alice has Bob as an active peer. -/
theorem wireIntroduction_peers : ∃ info,
    ((reach (Wire.next true aliceToBob) (Wire.start aliceToBob Unit) wireIntroduction).node
      .left).peers.lookup bob.toPubkey = some info ∧ info.active = true ∧ info.peer.name = "b" := by
  have run : Run (Wire.next true aliceToBob) (Wire.start aliceToBob Unit) _ _ :=
    Run.of_inputs wireIntroduction
  have h := (wire_peering_converges idealBox.toBoxLaws roundTrip serializable wrappedRoundTrip
    (fun _ => ⟨_, rfl⟩) run ?_).2 ?_ ?_ .left
  · exact h.1
  · decide
  · decide
  · intro p
    cases p <;> exact ⟨rfl, rfl, rfl⟩

end Sandbox
end Tp2p
