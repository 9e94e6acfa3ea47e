import Tp2p.Lib.HashMap
import Tp2p.Lib.Transition
import Tp2p.Transport.Reader

/-! The event handler of the peer manager: it keeps one stream for every connection that it
writes to, and opens one where there is none. -/
namespace Tp2p
open Transition Framing

/-- What the system says to the calls of one pass: `TcpStream::connect` opens a stream, or
fails, and so does `write_all`, which may have written some of the bytes then. -/
structure Io where
  connect : Except String Nat
  write : Except (String × Nat) Unit

/-- The state of the handler, with what it has done so far: the streams that it had read,
what it has written to each stream and sent to the application, and how it ended. -/
structure PeerManager where
  writers : HashMap ConnectionInfo Nat
  readers : List (ConnectionInfo × Nat)
  written : Nat → Bytes
  app : List PeerEvent
  result : Option (Except String Unit)

namespace PeerManager

def new : PeerManager := ⟨∅, [], fun _ => [], [], none⟩

/-- Have the stream read, and write to it from now on. -/
def register (self : PeerManager) (conninfo : ConnectionInfo) (stream : Nat) : PeerManager :=
  { self with
    writers := self.writers.insert conninfo stream
    readers := self.readers ++ [(conninfo, stream)] }

def write (self : PeerManager) (stream : Nat) (bytes : Bytes) : PeerManager :=
  { self with written := Function.update self.written stream (self.written stream ++ bytes) }

def writeMessage (self : PeerManager) (stream : Nat) (messageBytes : Bytes) (io : Io) : PeerManager :=
  let framedMessage := createFramedMessage messageBytes
  match io.write with
  | .ok () => self.write stream framedMessage
  | .error (err, n) =>
    { self.write stream (framedMessage.take n) with
      result := some (.error ("send -- problem sending msg: " ++ err)) }

/-- One pass of the loop of `event_handler`. -/
def eventHandlerPass (self : PeerManager) (input : PeerEvent × Io) : PeerManager :=
  if self.result.isSome then self
  else
    match input.1 with
    | .incomingConnection conninfo stream =>
      { self.register conninfo stream with app := self.app ++ [.connect conninfo] }
    | .send recipient messageBytes =>
      match self.writers.lookup recipient with
      | some stream => self.writeMessage stream messageBytes input.2
      | none =>
        match input.2.connect with
        | .ok stream => (self.register recipient stream).writeMessage stream messageBytes input.2
        | .error err => { self with result := some (.error ("send -- " ++ err)) }
    | .connect _ | .disconnect _ | .recv _ _ => self
    | .quit => { self with result := some (.ok ()) }

end PeerManager

/-- A pass of the handler, with the state it met. -/
abbrev ManagerStep := Taken PeerManager (PeerEvent × Io)

abbrev ManagerRun : List ManagerStep → PeerManager → Prop :=
  Run PeerManager.eventHandlerPass PeerManager.new

/-- Every stream that comes in or is opened is a new one. -/
def ManagerStep.Fresh (st : ManagerStep) : Prop :=
  ∀ stream, (∃ conninfo, st.input.1 = .incomingConnection conninfo stream) ∨
    st.input.2.connect = .ok stream → ∀ who, (who, stream) ∉ st.pre.readers

/-- The messages that the handler was told to send over a connection since that connection
last came in, oldest first. -/
def sentSince (who : ConnectionInfo) : List ManagerStep → List Bytes
  | [] => []
  | st :: past =>
    if st.pre.result.isSome then sentSince who past
    else
      match st.input.1 with
      | .incomingConnection conninfo _ => if conninfo = who then [] else sentSince who past
      | .send recipient messageBytes =>
        if recipient = who then sentSince who past ++ [messageBytes] else sentSince who past
      | _ => sentSince who past

def PeerManager.Failed (self : PeerManager) : Prop := ∃ err, self.result = some (.error err)

/-- What the handler has done once it was told to send `messages`: each connection has a
stream of its own, and the messages for it are on that stream, up to the one that failed. -/
structure Managed (messages : ConnectionInfo → List Bytes) (m : PeerManager) : Prop where
  read : ∀ {who stream}, m.writers.lookup who = some stream → (who, stream) ∈ m.readers
  owner : ∀ {who who' stream}, (who, stream) ∈ m.readers → (who', stream) ∈ m.readers → who = who'
  untouched : ∀ {stream}, (∀ who, (who, stream) ∉ m.readers) → m.written stream = []
  sent : ∀ {who stream}, m.writers.lookup who = some stream →
    m.written stream <+: (messages who).flatMap createFramedMessage ∧
      (¬ m.Failed → m.written stream = (messages who).flatMap createFramedMessage)
  unsent : ∀ {who}, m.writers.lookup who = none → ¬ m.Failed → messages who = []

namespace Managed
variable {messages : ConnectionInfo → List Bytes} {m : PeerManager} {who : ConnectionInfo}
variable {stream : Nat}

theorem new : Managed (fun _ => []) .new where
  read h := by cases h
  owner h := by cases h
  untouched _ := rfl
  sent h := by cases h
  unsent _ _ := rfl

theorem app (h : Managed messages m) (app : List PeerEvent) : Managed messages { m with app } :=
  ⟨h.read, h.owner, h.untouched, h.sent, h.unsent⟩

theorem quit (h : Managed messages m) (running : ¬ m.Failed) :
    Managed messages { m with result := some (.ok ()) } where
  read := h.read
  owner := h.owner
  untouched := h.untouched
  sent hw := ⟨(h.sent hw).1, fun _ => (h.sent hw).2 running⟩
  unsent hw _ := h.unsent hw running

/-- No stream can be opened for a message. -/
theorem unreachable (h : Managed messages m) (hw : m.writers.lookup who = none) (more : List Bytes)
    (err : String) : Managed (Function.update messages who more)
      { m with result := some (.error err) } where
  read := h.read
  owner := h.owner
  untouched := h.untouched
  sent {who' stream'} hw' := by
    have hwho : who' ≠ who := by
      rintro rfl
      cases hw.symm.trans hw'
    rw [Function.update_of_ne hwho]
    exact ⟨(h.sent hw').1, fun ok => absurd ⟨err, rfl⟩ ok⟩
  unsent _ ok := absurd ⟨err, rfl⟩ ok

/-- A connection that gets a new stream starts afresh. -/
theorem register (h : Managed messages m) (who : ConnectionInfo) (fresh : ∀ who, (who, stream) ∉ m.readers) :
    Managed (Function.update messages who []) (m.register who stream) where
  read {who' stream'} hw := by
    rw [PeerManager.register, HashMap.lookup_insert] at hw
    split at hw
    · next heq => cases hw; simp [PeerManager.register, heq]
    · exact List.mem_append_left _ (h.read hw)
  owner {who' who'' stream'} h' h'' := by
    simp only [PeerManager.register, List.mem_append, List.mem_singleton, Prod.mk.injEq] at h' h''
    rcases h' with h' | ⟨rfl, rfl⟩
    · rcases h'' with h'' | ⟨rfl, rfl⟩
      · exact h.owner h' h''
      · exact absurd h' (fresh who')
    · rcases h'' with h'' | ⟨rfl, _⟩
      · exact absurd h'' (fresh who'')
      · rfl
  untouched {stream'} hs := by
    apply h.untouched
    exact fun who' hmem => hs who' (List.mem_append_left _ hmem)
  sent {who' stream'} hw := by
    rw [PeerManager.register, HashMap.lookup_insert] at hw
    split at hw
    · next heq =>
      cases hw
      subst heq
      have hnew : m.written stream = [] := h.untouched fresh
      rw [Function.update_self]
      exact ⟨by simp [PeerManager.register, hnew], fun _ => by simp [PeerManager.register, hnew]⟩
    · next hne =>
      rw [Function.update_of_ne hne]
      exact h.sent hw
  unsent {who'} hw hr := by
    rw [PeerManager.register, HashMap.lookup_insert] at hw
    split at hw
    · cases hw
    · next hne =>
      rw [Function.update_of_ne hne]
      exact h.unsent hw hr

/-- Bytes on the stream of one connection are on that of no other. -/
theorem ne_of_lookup (h : Managed messages m) (hw : m.writers.lookup who = some stream)
    {who' : ConnectionInfo} {stream' : Nat} (hw' : m.writers.lookup who' = some stream')
    (hne : who' ≠ who) : stream' ≠ stream := by
  rintro rfl
  exact hne (h.owner (h.read hw') (h.read hw))

theorem writeMessage (h : Managed messages m) (running : ¬ m.Failed)
    (hw : m.writers.lookup who = some stream) (messageBytes : Bytes) (io : Io) :
    Managed (Function.update messages who (messages who ++ [messageBytes]))
      (m.writeMessage stream messageBytes io) := by
  -- the new bytes are those of the frame, or the first of them
  have written : ∀ bytes, bytes <+: createFramedMessage messageBytes → ∀ result,
      ((¬ ∃ err, result = some (.error err)) → bytes = createFramedMessage messageBytes) →
      Managed (Function.update messages who (messages who ++ [messageBytes]))
        { m.write stream bytes with result } := by
    intro bytes hbytes result hresult
    have hsent := (h.sent hw).2 running
    refine ⟨h.read, h.owner, fun {stream'} hs => ?_, fun {who' stream'} hw' => ?_,
      fun {who'} hw' hr => ?_⟩
    · have hne : stream' ≠ stream := by
        rintro rfl
        exact hs who (h.read hw)
      exact (Function.update_of_ne hne ..).trans (h.untouched hs)
    · by_cases hwho : who' = who
      · subst hwho
        obtain rfl : stream' = stream := Option.some.inj (hw'.symm.trans hw)
        simp only [PeerManager.write, Function.update_self, List.flatMap_append, List.flatMap_singleton,
          hsent]
        exact ⟨(List.prefix_append_right_inj _).mpr hbytes, fun hr => by rw [hresult hr]⟩
      · have hne := h.ne_of_lookup hw hw' hwho
        simp only [PeerManager.write, Function.update_of_ne hne, Function.update_of_ne hwho]
        exact ⟨(h.sent hw').1, fun _ => (h.sent hw').2 running⟩
    · have hwho : who' ≠ who := by
        rintro rfl
        cases hw'.symm.trans hw
      rw [Function.update_of_ne hwho]
      exact h.unsent hw' running
  rw [PeerManager.writeMessage]
  split
  · have hall := written _ List.prefix_rfl m.result fun _ => rfl
    exact hall
  · exact written _ (List.take_prefix _ _) _ fun ok => absurd ⟨_, rfl⟩ ok

end Managed

/-- One pass, given what was to be sent before. -/
theorem Managed.pass {past : List ManagerStep} {m : PeerManager}
    (h : Managed (fun who => sentSince who past) m) {input : PeerEvent × Io}
    (fresh : ManagerStep.Fresh ⟨m, input⟩) :
    Managed (fun who => sentSince who (⟨m, input⟩ :: past)) (m.eventHandlerPass input) := by
  cases hr : m.result with
  | some result => simpa [PeerManager.eventHandlerPass, sentSince, hr] using h
  | none =>
    have running : ¬ m.Failed := by
      rintro ⟨err, he⟩
      cases hr.symm.trans he
    obtain ⟨ev, io⟩ := input
    simp only [PeerManager.eventHandlerPass, sentSince, hr, Option.isSome_none, Bool.false_eq_true,
      if_false]
    cases ev with
    | incomingConnection conninfo stream =>
      have hreg := h.register conninfo (fresh stream (.inl ⟨conninfo, rfl⟩))
      refine Eq.mp ?_ (hreg.app (m.app ++ [.connect conninfo]))
      congr 1
      funext who
      by_cases hwho : conninfo = who
      · subst hwho; simp
      · simp [hwho, Function.update_of_ne (Ne.symm hwho)]
    | send recipient messageBytes =>
      have hmessages : (fun who => if recipient = who then sentSince who past ++ [messageBytes]
            else sentSince who past) = Function.update (fun who => sentSince who past) recipient
            (sentSince recipient past ++ [messageBytes]) := by
        funext who
        by_cases hwho : recipient = who
        · subst hwho; simp
        · simp [hwho, Function.update_of_ne (Ne.symm hwho)]
      simp only [hmessages]
      cases hw : m.writers.lookup recipient with
      | some stream => exact h.writeMessage running hw messageBytes io
      | none =>
        have hnil : sentSince recipient past = [] := h.unsent hw running
        cases hc : io.connect with
        | ok stream =>
          have hreg := h.register recipient (fresh stream (.inr hc))
          have hlook : (m.register recipient stream).writers.lookup recipient = some stream := by
            rw [PeerManager.register, HashMap.lookup_insert, if_pos rfl]
          have hsend := hreg.writeMessage running hlook messageBytes io
          simpa [hnil] using hsend
        | error err => exact h.unreachable hw _ _
    | quit => exact h.quit running
    | connect | disconnect | recv => exact h

theorem Managed.of_run {past : List ManagerStep} {m : PeerManager} (run : ManagerRun past m)
    (fresh : ∀ st ∈ past, st.Fresh) : Managed (fun who => sentSince who past) m := by
  induction run with
  | start => exact .new
  | step _ input ih =>
    have h := ih fun st hst => fresh st (List.mem_cons_of_mem _ hst)
    exact h.pass (fresh _ List.mem_cons_self)

/-- Whatever else the handler does, and however its bytes arrive, the other end of a connection
gets the messages for it in order: none twice, none of another connection, and all of them once
all bytes are there, unless the handler has failed. To quit is no failure. -/
theorem other_end_reads_in_order {past : List ManagerStep} {m : PeerManager}
    (run : ManagerRun past m) (fresh : ∀ st ∈ past, st.Fresh) {who : ConnectionInfo} {stream : Nat}
    (writer : m.writers.lookup who = some stream) (fits : ∀ body ∈ sentSince who past, FitsFrame body)
    {chunks : List Bytes} {rest : Bytes} (nonempty : ∀ chunk ∈ chunks, chunk ≠ [])
    (arrived : chunks.flatten ++ rest = m.written stream) (overflowChecks : Bool)
    (peer : ConnectionInfo) :
    ∃ received left, received <+: sentSince who past ∧
      reader overflowChecks peer (.reading .new) (chunks.map .ok) =
        (received.map (.recv peer), .reading ⟨left⟩) ∧
      (rest = [] → ¬ m.Failed → received = sentSince who past) := by
  obtain ⟨⟨more, hmore⟩, hall⟩ := (Managed.of_run run fresh).sent writer
  have bytes : chunks.flatten ++ (rest ++ more) = (sentSince who past).flatMap createFramedMessage := by
    rw [← List.append_assoc, arrived, hmore]
  obtain ⟨received, missing, left, hsplit, underWay, hread⟩ :=
    reader_of_prefix overflowChecks peer fits nonempty bytes
  refine ⟨received, left, ⟨missing, hsplit.symm⟩, hread, ?_⟩
  rintro rfl running
  rw [hall running] at hmore
  obtain rfl : more = [] := List.append_right_eq_self.mp hmore
  obtain ⟨rfl, _⟩ := underWay.done
  rw [hsplit, List.append_nil]

namespace Sandbox

/-- Bob connects and is sent two messages, Mallory is sent one in between. -/
def busy : List (PeerEvent × Io) :=
  [(.send (connection 2) [3], ⟨.error "", .ok ()⟩), (.send (connection 3) [9], ⟨.ok 6, .ok ()⟩),
    (.send (connection 2) [1, 2], ⟨.error "", .ok ()⟩),
    (.incomingConnection (connection 2) 5, ⟨.error "", .ok ()⟩)]

theorem bob_reads_both : ∃ received left, received <+: [[1, 2], [3]] ∧
    reader true (connection 1) (.reading .new) ([[0, 0, 0], [2, 1, 2, 0, 0, 0, 1, 3]].map .ok) =
      (received.map (.recv (connection 1)), .reading ⟨left⟩) ∧ received = [[1, 2], [3]] := by
  have run : ManagerRun (trail PeerManager.eventHandlerPass .new busy) _ := Run.of_inputs busy
  have fresh : ∀ st ∈ trail PeerManager.eventHandlerPass .new busy, ManagerStep.Fresh st := by
    intro st hst
    rcases List.mem_cons.mp hst with rfl | hst
    · rintro stream (⟨_, h⟩ | h) <;> cases h
    rcases List.mem_cons.mp hst with rfl | hst
    · rintro stream (⟨_, h⟩ | h)
      · cases h
      · cases h
        intro who h
        cases List.mem_singleton.mp h
    rcases List.mem_cons.mp hst with rfl | hst
    · rintro stream (⟨_, h⟩ | h) <;> cases h
    rcases List.mem_singleton.mp hst with rfl
    rintro stream (⟨_, h⟩ | h) who hmem <;> cases hmem
  have bytes : ([[0, 0, 0], [2, 1, 2, 0, 0, 0, 1, 3]] : List Bytes).flatten ++ [] =
      createFramedMessage [1, 2] ++ createFramedMessage [3] := by decide
  have writer : (reach PeerManager.eventHandlerPass .new busy).writers.lookup (connection 2) = some 5 := rfl
  obtain ⟨received, left, hprefix, hread, hall⟩ :=
    other_end_reads_in_order run fresh writer (by decide) (by decide) bytes true (connection 1)
  exact ⟨received, left, hprefix, hread, hall rfl fun ⟨_, failed⟩ => nomatch failed⟩

end Sandbox
end Tp2p
