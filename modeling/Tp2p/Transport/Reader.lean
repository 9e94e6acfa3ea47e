import Tp2p.Model.Sandbox
import Tp2p.Transport.Frames

/-! The task that reads a connection: it collects what the reads of the stream give, cuts it
into frames, and hands them to the application. -/
namespace Tp2p
open Framing

/-- What the peer manager and the application tell each other. A stream is known by a number. -/
inductive PeerEvent where
  | incomingConnection (conninfo : ConnectionInfo) (stream : Nat)
  | send (recipient : ConnectionInfo) (messageBytes : Bytes)
  | connect (who : ConnectionInfo)
  | disconnect (who : ConnectionInfo)
  | recv (who : ConnectionInfo) (frame : Bytes)
  | quit
  deriving DecidableEq

/-- A connection that is read: the bytes that do not make a frame yet. -/
structure FramedConnection where
  buffer : Bytes
  deriving DecidableEq

/-- How a poll ends, other than with frames. -/
inductive Fault where
  | panic (cause : Panic)
  | error (text : String)
  deriving DecidableEq

namespace FramedConnection

def new : FramedConnection := ⟨[]⟩

def frameDecode (overflowChecks : Bool) (self : FramedConnection) :
    Except Panic (List Bytes × FramedConnection) :=
  match (framing overflowChecks).drain self.buffer with
  | .ok (res, left) => .ok (res, ⟨left⟩)
  | .error cause => .error cause

/-- `read` is what reading the stream returns: an error, or the bytes that are there, none
if the other end has closed it. -/
def pollFrames (overflowChecks : Bool) (self : FramedConnection) (read : Except String Bytes) :
    Except Fault (List Bytes × FramedConnection) :=
  match read with
  | .error err => .error (.error ("PeerManager::bind() -- couldn't read stream: " ++ err))
  | .ok bytes =>
    if bytes.length = 0 then .error (.error "connection closed")
    else
      match frameDecode overflowChecks ⟨self.buffer ++ bytes⟩ with
      | .ok polled => .ok polled
      | .error cause => .error (.panic cause)

end FramedConnection

/-- The task goes on, or it has ended: after the connection was closed, or with a fault. -/
inductive ReaderState where
  | reading (framed : FramedConnection)
  | closed
  | failed (fault : Fault)
  deriving DecidableEq

/-- One pass of the loop of the task, and what it sends to the application. -/
def readerPass (overflowChecks : Bool) (who : ConnectionInfo) (read : Except String Bytes) :
    ReaderState → List PeerEvent × ReaderState
  | .reading framed =>
    match framed.pollFrames overflowChecks read with
    | .ok (frames, framed) => (frames.map (PeerEvent.recv who), .reading framed)
    | .error (.error err) =>
      if err = "connection closed" then ([.disconnect who], .closed) else ([], .failed (.error err))
    | .error (.panic cause) => ([], .failed (.panic cause))
  | .closed => ([], .closed)
  | .failed fault => ([], .failed fault)

def reader (overflowChecks : Bool) (who : ConnectionInfo) :
    ReaderState → List (Except String Bytes) → List PeerEvent × ReaderState
  | state, [] => ([], state)
  | state, read :: reads =>
    let pass := readerPass overflowChecks who read state
    let later := reader overflowChecks who pass.2 reads
    (pass.1 ++ later.1, later.2)

variable {overflowChecks : Bool} {who : ConnectionInfo}

theorem reader_append (state : ReaderState) (reads reads' : List (Except String Bytes)) :
    reader overflowChecks who state (reads ++ reads') =
      ((reader overflowChecks who state reads).1 ++
          (reader overflowChecks who (reader overflowChecks who state reads).2 reads').1,
        (reader overflowChecks who (reader overflowChecks who state reads).2 reads').2) := by
  induction reads generalizing state with
  | nil => rfl
  | cons read reads ih => simp [reader, ih]

theorem reader_failed (fault : Fault) (reads : List (Except String Bytes)) :
    reader overflowChecks who (.failed fault) reads = ([], .failed fault) := by
  induction reads with
  | nil => rfl
  | cons read reads ih => simp [reader, readerPass, ih]

/-- A read of some bytes hands on the frames that they complete. -/
theorem readerPass_ok {buffer chunk left : Bytes} {frames : List Bytes} (hne : chunk ≠ [])
    (h : (framing overflowChecks).drain (buffer ++ chunk) = .ok (frames, left)) :
    readerPass overflowChecks who (.ok chunk) (.reading ⟨buffer⟩) =
      (frames.map (.recv who), .reading ⟨left⟩) := by
  have hlen : chunk.length ≠ 0 := fun h => hne (List.length_eq_zero_iff.mp h)
  rw [readerPass, FramedConnection.pollFrames, if_neg hlen, FramedConnection.frameDecode, h]

theorem readerPass_panic {buffer chunk : Bytes} {cause : Panic} (hne : chunk ≠ [])
    (h : (framing overflowChecks).drain (buffer ++ chunk) = .error cause) :
    readerPass overflowChecks who (.ok chunk) (.reading ⟨buffer⟩) = ([], .failed (.panic cause)) := by
  have hlen : chunk.length ≠ 0 := fun h => hne (List.length_eq_zero_iff.mp h)
  rw [readerPass, FramedConnection.pollFrames, if_neg hlen, FramedConnection.frameDecode, h]

/-- The state in which the cutter leaves the task. -/
def ReaderState.of : Except Panic Bytes → ReaderState
  | .ok left => .reading ⟨left⟩
  | .error cause => .failed (.panic cause)

/-- While the connection is open the task does what the receiver of the frames does. -/
theorem reader_eq_feed (buffer : Bytes) {chunks : List Bytes} (nonempty : ∀ chunk ∈ chunks, chunk ≠ []) :
    reader overflowChecks who (.reading ⟨buffer⟩) (chunks.map Except.ok) =
      (((framing overflowChecks).feed buffer chunks).1.map (PeerEvent.recv who),
        .of ((framing overflowChecks).feed buffer chunks).2) := by
  induction chunks generalizing buffer with
  | nil => rfl
  | cons chunk chunks ih =>
    have hne : chunk ≠ [] := nonempty chunk List.mem_cons_self
    have ih := fun buffer => ih buffer fun c hc => nonempty c (List.mem_cons_of_mem _ hc)
    rw [List.map_cons, reader]
    cases hd : (framing overflowChecks).drain (buffer ++ chunk) with
    | ok drained =>
      obtain ⟨frames, left⟩ := drained
      rw [Cutter.feed_cons_ok _ hd, readerPass_ok hne hd, ih, List.map_append]
    | error cause =>
      rw [Cutter.feed_cons_error _ hd, readerPass_panic hne hd, reader_failed]
      rfl

/-- Of a stream of frames the task hands on the bodies that are there as a whole. -/
theorem reader_of_prefix (overflowChecks : Bool) (who : ConnectionInfo) {bodies chunks : List Bytes}
    {rest : Bytes} (fits : ∀ body ∈ bodies, FitsFrame body) (nonempty : ∀ chunk ∈ chunks, chunk ≠ [])
    (bytes : chunks.flatten ++ rest = bodies.flatMap createFramedMessage) :
    ∃ arrived missing left, bodies = arrived ++ missing ∧
      (framing overflowChecks).UnderWay left rest missing ∧
      reader overflowChecks who (.reading .new) (chunks.map .ok) =
        (arrived.map (.recv who), .reading ⟨left⟩) := by
  obtain ⟨arrived, left, missing, rfl, hscan, hleft⟩ :=
    Format.scan_of_prefix (f := framing overflowChecks) fits bytes
  refine ⟨arrived, missing, left, rfl, ⟨Cutter.cut_of_scan (by rw [hscan]), ?_, hleft⟩, ?_⟩
  · exact fun body hbody => fits body (List.mem_append_right _ hbody)
  · have hfeed := Cutter.feed_eq_scan chunks (framing overflowChecks).cut_nil
      (by rw [List.nil_append, hscan])
    rw [List.nil_append, hscan] at hfeed
    rw [FramedConnection.new, reader_eq_feed [] nonempty, hfeed]
    rfl

/-- However a stream of frames is cut into reads, the application gets the bodies in order,
each as soon as the whole of it is there, and is told when the connection is closed. -/
theorem reader_delivers (overflowChecks : Bool) (who : ConnectionInfo) {bodies chunks : List Bytes}
    {rest : Bytes}
    (fits : ∀ body ∈ bodies, FitsFrame body) (nonempty : ∀ chunk ∈ chunks, chunk ≠ [])
    (bytes : chunks.flatten ++ rest = bodies.flatMap createFramedMessage) :
    ∃ arrived missing left, bodies = arrived ++ missing ∧
      left ++ rest = missing.flatMap createFramedMessage ∧
      (∀ body ∈ missing.head?, left.length < (createFramedMessage body).length) ∧
      reader overflowChecks who (.reading .new) (chunks.map .ok) =
        (arrived.map (.recv who), .reading ⟨left⟩) ∧
      (rest = [] → reader overflowChecks who (.reading .new) (chunks.map .ok ++ [.ok []]) =
        (bodies.map (.recv who) ++ [.disconnect who], .closed)) := by
  obtain ⟨arrived, missing, left, rfl, underWay, hread⟩ :=
    reader_of_prefix overflowChecks who fits nonempty bytes
  refine ⟨arrived, missing, left, rfl, underWay.bytes, ?_, hread, ?_⟩
  · intro body hbody
    obtain ⟨more, rfl⟩ := List.head?_eq_some_iff.mp hbody
    exact Format.length_lt_of_short underWay.short (underWay.fits body List.mem_cons_self)
      underWay.bytes
  · rintro rfl
    obtain ⟨rfl, rfl⟩ := underWay.done
    rw [reader_append, hread, List.append_nil]
    rfl

/-- Where a frame should begin, the stream has a length that no frame can have. -/
def Oversized (stream : Bytes) : Prop :=
  ∃ (bodies : List Bytes) (b0 b1 b2 b3 : UInt8) (rest : Bytes), (∀ body ∈ bodies, FitsFrame body) ∧
    stream = bodies.flatMap createFramedMessage ++ b0 :: b1 :: b2 :: b3 :: rest ∧
    4294967292 ≤ (frameLen b0 b1 b2 b3).toNat

theorem of_frameDecodePass_broken {bytes : Bytes} {cause : Panic}
    (h : frameDecodePass overflowChecks bytes = .broken cause) : cause = oversize overflowChecks ∧
      ∃ b0 b1 b2 b3 rest, bytes = b0 :: b1 :: b2 :: b3 :: rest ∧
        4294967292 ≤ (frameLen b0 b1 b2 b3).toNat := by
  match bytes with
  | [] | [_] | [_, _] | [_, _, _] => cases h
  | b0 :: b1 :: b2 :: b3 :: rest =>
    rw [frameDecodePass_cons] at h
    split at h
    · split at h <;> cases h
    · next hlen =>
      cases h
      exact ⟨rfl, b0, b1, b2, b3, rest, rfl, Nat.le_of_not_lt hlen⟩

theorem oversized_iff (overflowChecks : Bool) (stream : Bytes) :
    Oversized stream ↔ ((framing overflowChecks).scan stream).2 = .error (oversize overflowChecks) := by
  constructor
  · rintro ⟨bodies, b0, b1, b2, b3, rest, fits, rfl, hlen⟩
    have hcut : (framing overflowChecks).cut (b0 :: b1 :: b2 :: b3 :: rest) =
        .broken (oversize overflowChecks) :=
      (frameDecodePass_cons ..).trans (if_neg (Nat.not_lt.mpr hlen))
    have hscan := Format.scan_write (f := framing overflowChecks) fits (b0 :: b1 :: b2 :: b3 :: rest)
    rw [Cutter.scan_broken hcut] at hscan
    exact congrArg Prod.snd hscan
  · intro h
    obtain ⟨fits, tail, hstream, ⟨_, hok⟩ | ⟨e, hcut, _⟩⟩ :=
      Format.scan_sound (f := framing overflowChecks) stream
    · rw [hok] at h
      cases h
    · obtain ⟨_, b0, b1, b2, b3, rest, rfl, hlen⟩ := of_frameDecodePass_broken hcut
      exact ⟨_, b0, b1, b2, b3, rest, fits, hstream, hlen⟩

theorem frameDecodePass_builds (bytes : Bytes) : frameDecodePass false bytes =
    (frameDecodePass true bytes).mapFault fun _ => oversize false := by
  match bytes with
  | [] | [_] | [_, _] | [_, _, _] => rfl
  | b0 :: b1 :: b2 :: b3 :: rest =>
    rw [frameDecodePass_cons, frameDecodePass_cons]
    split
    · split <;> rfl
    · rfl

/-- On every other stream, whoever wrote it, the application gets bodies whose frames make up
the stream to the last one that is there. -/
theorem reader_of_not_oversized (overflowChecks : Bool) (who : ConnectionInfo) {chunks : List Bytes}
    (nonempty : ∀ chunk ∈ chunks, chunk ≠ []) (h : ¬ Oversized chunks.flatten) :
    ∃ (bodies : List Bytes) (left : Bytes), chunks.flatten = bodies.flatMap createFramedMessage ++ left ∧
      (∀ body ∈ bodies, FitsFrame body) ∧ frameDecodePass overflowChecks left = .short ∧
      reader overflowChecks who (.reading .new) (chunks.map .ok) =
        (bodies.map (.recv who), .reading ⟨left⟩) := by
  obtain ⟨fits, tail, hstream, ⟨hshort, hok⟩ | ⟨e, hcut, herror⟩⟩ :=
    Format.scan_sound (f := framing overflowChecks) chunks.flatten
  · refine ⟨_, tail, hstream, fits, hshort, ?_⟩
    have hok' : ((framing overflowChecks).scan ([] ++ chunks.flatten)).2 = .ok tail := by
      rw [List.nil_append, hok]
    have hfeed := Cutter.feed_eq_scan chunks (framing overflowChecks).cut_nil hok'
    rw [List.nil_append] at hfeed
    rw [FramedConnection.new, reader_eq_feed [] nonempty, hfeed, hok]
    rfl
  · obtain ⟨rfl, _⟩ := of_frameDecodePass_broken hcut
    exact absurd ((oversized_iff overflowChecks _).mpr herror) h

theorem reader_of_oversized (overflowChecks : Bool) (who : ConnectionInfo) {chunks : List Bytes}
    (nonempty : ∀ chunk ∈ chunks, chunk ≠ []) (h : Oversized chunks.flatten) :
    (reader overflowChecks who (.reading .new) (chunks.map .ok)).2 =
      .failed (.panic (oversize overflowChecks)) := by
  rw [oversized_iff overflowChecks, ← List.nil_append chunks.flatten] at h
  obtain ⟨_, _, _, _, _, _, hfeed⟩ := Cutter.feed_of_broken chunks (framing overflowChecks).cut_nil h
  rw [FramedConnection.new, reader_eq_feed [] nonempty, hfeed]
  rfl

/-- The reader panics exactly if the stream contains, after some whole frames, a length of
2^32 - 4 or more. On every other stream, whoever wrote it, it hands on bodies whose frames make
up the stream to the last one that is there. The builds with and without overflow checks hand
on the same. -/
theorem reader_panics_iff (overflowChecks : Bool) (who : ConnectionInfo) {chunks : List Bytes}
    (nonempty : ∀ chunk ∈ chunks, chunk ≠ []) :
    ((reader overflowChecks who (.reading .new) (chunks.map .ok)).2 =
        .failed (.panic (oversize overflowChecks)) ↔ Oversized chunks.flatten) ∧
      (¬ Oversized chunks.flatten → ∃ (bodies : List Bytes) (left : Bytes),
        chunks.flatten = bodies.flatMap createFramedMessage ++ left ∧
        (∀ body ∈ bodies, FitsFrame body) ∧ frameDecodePass overflowChecks left = .short ∧
        reader overflowChecks who (.reading .new) (chunks.map .ok) =
          (bodies.map (.recv who), .reading ⟨left⟩)) ∧
      (reader true who (.reading .new) (chunks.map .ok)).1 =
        (reader false who (.reading .new) (chunks.map .ok)).1 := by
  have sound := reader_of_not_oversized overflowChecks who nonempty
  refine ⟨⟨fun h => ?_, reader_of_oversized overflowChecks who nonempty⟩, sound, ?_⟩
  · by_contra hno
    obtain ⟨bodies, left, _, _, _, hread⟩ := sound hno
    rw [hread] at h
    cases h
  · rw [FramedConnection.new, reader_eq_feed [] nonempty, reader_eq_feed [] nonempty,
      Cutter.feed_mapFault (c := (framing true).toCutter) (d := (framing false).toCutter)
        frameDecodePass_builds]

/-- A message arrives as it was sent, however the stream is cut into reads, exactly if it is
shorter than 2^32 - 4 bytes. -/
theorem framed_message_survives_iff {body : Bytes} {chunks : List Bytes}
    (nonempty : ∀ chunk ∈ chunks, chunk ≠ []) (bytes : chunks.flatten = createFramedMessage body) :
    reader overflowChecks who (.reading .new) (chunks.map .ok) = ([.recv who body], .reading .new) ↔
      FitsFrame body := by
  constructor
  · intro h
    have hno : ¬ Oversized chunks.flatten := by
      intro hover
      have hpanic := reader_of_oversized overflowChecks who nonempty hover
      rw [h] at hpanic
      cases hpanic
    obtain ⟨bodies, left, _, fits, _, hread⟩ :=
      reader_of_not_oversized overflowChecks who nonempty hno
    rw [hread] at h
    have hmap := congrArg Prod.fst h
    cases bodies with
    | nil => cases hmap
    | cons body' more =>
      cases (List.cons.inj hmap).1
      exact fits body List.mem_cons_self
  · intro fits
    have hscan := Format.scan_write (f := framing overflowChecks) (List.forall_mem_singleton.mpr fits) []
    have hstream : (framing overflowChecks).scan ([] ++ chunks.flatten) = ([body], .ok []) := by
      rw [List.flatMap_singleton, List.append_nil, Cutter.scan_short (framing overflowChecks).cut_nil]
        at hscan
      rw [List.nil_append, bytes]
      exact hscan
    have hfeed := Cutter.feed_eq_scan chunks (framing overflowChecks).cut_nil (by rw [hstream])
    rw [FramedConnection.new, reader_eq_feed [] nonempty, hfeed, hstream]
    rfl

namespace Sandbox

/-- Two messages in three reads, and the end of the connection. -/
theorem two_messages_delivered :
    reader true (connection 1) (.reading .new)
        ([[0, 0], [0, 2, 1], [2, 0, 0, 0, 1, 3]].map .ok ++ [.ok []]) =
      ([.recv (connection 1) [1, 2], .recv (connection 1) [3], .disconnect (connection 1)], .closed) := by
  have bytes : ([[0, 0], [0, 2, 1], [2, 0, 0, 0, 1, 3]] : List Bytes).flatten ++ [] =
      [[1, 2], [3]].flatMap createFramedMessage := by decide
  obtain ⟨_, _, _, _, _, _, _, h⟩ := reader_delivers true (connection 1) (by decide) (by decide) bytes
  exact h rfl

/-- Four bytes end the reader. -/
theorem four_bytes_panic :
    (reader true (connection 1) (.reading .new) ([[255, 255], [255, 255]].map .ok)).2 =
      .failed (.panic .addOverflow) := by
  have nonempty : ∀ chunk ∈ ([[255, 255], [255, 255]] : List Bytes), chunk ≠ [] := by decide
  apply (reader_panics_iff true (connection 1) nonempty).1.mpr
  exact ⟨[], 255, 255, 255, 255, [], by simp, by decide, by decide⟩

theorem one_message_survives :
    reader false (connection 1) (.reading .new) ([[0, 0, 0], [1, 7]].map .ok) =
      ([.recv (connection 1) [7]], .reading .new) :=
  (framed_message_survives_iff (by decide) (by decide)).mpr (by decide)

end Sandbox
end Tp2p
