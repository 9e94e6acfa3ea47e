import Mathlib.Data.List.Basic

/-! Frames cut off the front of a stream that arrives in pieces of any size. A cutter
decides on what it has seen so far, and more input never changes its mind. -/
namespace Framing
universe u v w

/-- What the front of a stream holds: a frame, not enough for one yet, or something that
can never become one. -/
inductive Front (β : Type u) (α : Type v) (ε : Type w) where
  | frame (a : α) (rest : List β)
  | short
  | broken (e : ε)

/-- The same front, with another name for the fault. -/
def Front.mapFault {β : Type u} {α : Type v} {ε ε' : Type w} (g : ε → ε') : Front β α ε → Front β α ε'
  | .frame a rest => .frame a rest
  | .short => .short
  | .broken e => .broken (g e)

structure Cutter (β : Type u) (α : Type v) (ε : Type w) where
  cut : List β → Front β α ε
  cut_nil : cut [] = .short
  shrinks : ∀ {xs a rest}, cut xs = .frame a rest → rest.length < xs.length
  frame_append : ∀ {xs a rest} (ys), cut xs = .frame a rest → cut (xs ++ ys) = .frame a (rest ++ ys)
  broken_append : ∀ {xs e} (ys), cut xs = .broken e → cut (xs ++ ys) = .broken e

namespace Cutter
variable {β : Type u} {α : Type v} {ε : Type w} (c : Cutter β α ε)

/-- At most `n` frames at the front of a stream, and what comes after them: an unfinished
frame, or the fault. -/
def scanWithin : Nat → List β → List α × Except ε (List β)
  | 0, xs => ([], .ok xs)
  | n + 1, xs =>
    match c.cut xs with
    | .frame a rest => (a :: (scanWithin n rest).1, (scanWithin n rest).2)
    | .short => ([], .ok xs)
    | .broken e => ([], .error e)

/-- All frames at the front of a stream: each takes something off it. -/
def scan (xs : List β) : List α × Except ε (List β) := c.scanWithin (xs.length + 1) xs

/-- All frames at the front of a buffer and the unfinished one after them. A fault takes
the frames before it along. -/
def drain (xs : List β) : Except ε (List α × List β) := (c.scan xs).2.map fun left => ((c.scan xs).1, left)

/-- What a receiver has handed on after some reads, and its buffer, or the fault that ended it. -/
def feed (buffer : List β) : List (List β) → List α × Except ε (List β)
  | [] => ([], .ok buffer)
  | chunk :: chunks =>
    match c.drain (buffer ++ chunk) with
    | .ok (as, left) => (as ++ (feed left chunks).1, (feed left chunks).2)
    | .error e => ([], .error e)

variable {c}

theorem scanWithin_of_lt {n : Nat} {xs : List β} (h : xs.length < n) : c.scanWithin n xs = c.scan xs := by
  suffices hn : ∀ m n (xs : List β), xs.length < m → xs.length < n → c.scanWithin m xs = c.scanWithin n xs from
    hn n (xs.length + 1) xs h (Nat.lt_succ_self _)
  intro m
  induction m with
  | zero =>
    intro n xs hm
    exact absurd hm (Nat.not_lt_zero _)
  | succ m ih =>
    intro n xs hm hn
    cases n with
    | zero => exact absurd hn (Nat.not_lt_zero _)
    | succ n =>
      rw [scanWithin, scanWithin]
      cases hc : c.cut xs with
      | frame a rest =>
        have hlt := c.shrinks hc
        simp only [ih n rest (by omega) (by omega)]
      | short => rfl
      | broken e => rfl

theorem scan_frame {xs rest : List β} {a : α} (h : c.cut xs = .frame a rest) :
    c.scan xs = (a :: (c.scan rest).1, (c.scan rest).2) := by
  rw [scan, scanWithin, h]
  simp only [scanWithin_of_lt (c.shrinks h)]

theorem scan_short {xs : List β} (h : c.cut xs = .short) : c.scan xs = ([], .ok xs) := by
  rw [scan, scanWithin, h]

theorem scan_broken {xs : List β} {e : ε} (h : c.cut xs = .broken e) :
    c.scan xs = ([], .error e) := by
  rw [scan, scanWithin, h]

/-- To argue about a stream, take its frames off the front one by one. -/
theorem scan_induction {P : List β → Prop}
    (frame : ∀ xs a rest, c.cut xs = .frame a rest → P rest → P xs)
    (short : ∀ xs, c.cut xs = .short → P xs)
    (broken : ∀ xs e, c.cut xs = .broken e → P xs) (xs : List β) : P xs := by
  induction hn : xs.length using Nat.strongRecOn generalizing xs with
  | _ n ih =>
    subst hn
    cases h : c.cut xs with
    | frame a rest => exact frame xs a rest h (ih rest.length (c.shrinks h) rest rfl)
    | short => exact short xs h
    | broken e => exact broken xs e h

/-- What is left over is an unfinished frame. -/
theorem cut_of_scan {xs left : List β} (h : (c.scan xs).2 = .ok left) : c.cut left = .short := by
  induction xs using c.scan_induction with
  | frame xs a rest hc ih =>
    rw [scan_frame hc] at h
    exact ih h
  | short xs hc =>
    rw [scan_short hc] at h
    cases h
    exact hc
  | broken xs e hc =>
    rw [scan_broken hc] at h
    cases h

/-- More input continues where the scan stopped. -/
theorem scan_append {xs left : List β} (ys : List β) (h : (c.scan xs).2 = .ok left) :
    c.scan (xs ++ ys) = ((c.scan xs).1 ++ (c.scan (left ++ ys)).1, (c.scan (left ++ ys)).2) := by
  induction xs using c.scan_induction with
  | frame xs a rest hc ih =>
    rw [scan_frame hc] at h ⊢
    rw [scan_frame (c.frame_append ys hc), ih h]
    rfl
  | short xs hc =>
    rw [scan_short hc] at h ⊢
    cases h
    rfl
  | broken xs e hc =>
    rw [scan_broken hc] at h
    cases h

/-- A fault stays where it is. -/
theorem scan_append_error {xs : List β} {e : ε} (ys : List β) (h : (c.scan xs).2 = .error e) :
    c.scan (xs ++ ys) = c.scan xs := by
  induction xs using c.scan_induction with
  | frame xs a rest hc ih =>
    rw [scan_frame hc] at h ⊢
    rw [scan_frame (c.frame_append ys hc), ih h]
  | short xs hc =>
    rw [scan_short hc] at h
    cases h
  | broken xs e' hc => rw [scan_broken (c.broken_append ys hc), scan_broken hc]

theorem drain_eq_ok {xs left : List β} {as : List α} :
    c.drain xs = .ok (as, left) ↔ c.scan xs = (as, .ok left) := by
  cases h : c.scan xs with
  | mk as' r => cases r <;> simp [drain, h, Except.map]

theorem drain_eq_error {xs : List β} {e : ε} :
    c.drain xs = .error e ↔ (c.scan xs).2 = .error e := by
  cases h : c.scan xs with
  | mk as' r => cases r <;> simp [drain, h, Except.map]

theorem feed_cons_ok {buffer chunk left : List β} {as : List α} (chunks : List (List β))
    (h : c.drain (buffer ++ chunk) = .ok (as, left)) :
    c.feed buffer (chunk :: chunks) = (as ++ (c.feed left chunks).1, (c.feed left chunks).2) := by
  rw [feed, h]

theorem feed_cons_error {buffer chunk : List β} {e : ε} (chunks : List (List β))
    (h : c.drain (buffer ++ chunk) = .error e) : c.feed buffer (chunk :: chunks) = ([], .error e) := by
  rw [feed, h]

/-- As long as the stream is sound, how it was cut into reads makes no difference. -/
theorem feed_eq_scan {buffer left : List β} (chunks : List (List β)) (short : c.cut buffer = .short)
    (h : (c.scan (buffer ++ chunks.flatten)).2 = .ok left) :
    c.feed buffer chunks = c.scan (buffer ++ chunks.flatten) := by
  induction chunks generalizing buffer with
  | nil =>
    rw [List.flatten_nil, List.append_nil, scan_short short]
    rfl
  | cons chunk chunks ih =>
    rw [List.flatten_cons, ← List.append_assoc] at h ⊢
    cases hs : c.scan (buffer ++ chunk) with
    | mk as r =>
      cases r with
      | error e =>
        rw [scan_append_error _ (by rw [hs])] at h
        rw [hs] at h
        cases h
      | ok rest =>
        have hrest : (c.scan (buffer ++ chunk)).2 = .ok rest := by rw [hs]
        rw [scan_append _ hrest] at h ⊢
        rw [feed_cons_ok _ (drain_eq_ok.mpr hs), ih (cut_of_scan hrest) h, hs]

/-- A fault in the stream ends the receiver with the read that completes it. The frames of
the reads before are handed on, those of that read are not. -/
theorem feed_of_broken {buffer : List β} {e : ε} (chunks : List (List β))
    (short : c.cut buffer = .short) (h : (c.scan (buffer ++ chunks.flatten)).2 = .error e) :
    ∃ before chunk after, chunks = before ++ chunk :: after ∧
      (∃ left, (c.scan (buffer ++ before.flatten)).2 = .ok left) ∧
      (c.scan (buffer ++ (before ++ [chunk]).flatten)).2 = .error e ∧
      c.feed buffer chunks = ((c.scan (buffer ++ before.flatten)).1, .error e) := by
  induction chunks generalizing buffer with
  | nil =>
    rw [List.flatten_nil, List.append_nil, scan_short short] at h
    cases h
  | cons chunk chunks ih =>
    rw [List.flatten_cons, ← List.append_assoc] at h
    cases hs : c.scan (buffer ++ chunk) with
    | mk as r =>
      cases r with
      | error e' =>
        have hbroken : (c.scan (buffer ++ chunk)).2 = .error e' := by rw [hs]
        rw [scan_append_error _ hbroken, hbroken] at h
        cases h
        refine ⟨[], chunk, chunks, rfl, ⟨buffer, ?_⟩, by simpa using hbroken, ?_⟩
        · rw [List.flatten_nil, List.append_nil, scan_short short]
        · rw [feed_cons_error _ (drain_eq_error.mpr hbroken), List.flatten_nil, List.append_nil,
            scan_short short]
      | ok rest =>
        have hrest : (c.scan (buffer ++ chunk)).2 = .ok rest := by rw [hs]
        rw [scan_append _ hrest] at h
        obtain ⟨before, chunk', after, rfl, ⟨left, hleft⟩, hbroken, hfeed⟩ := ih (cut_of_scan hrest) h
        refine ⟨chunk :: before, chunk', after, rfl, ⟨left, ?_⟩, ?_, ?_⟩
        · rw [List.flatten_cons, ← List.append_assoc, scan_append _ hrest, hleft]
        · rw [List.cons_append, List.flatten_cons, ← List.append_assoc, scan_append _ hrest, hbroken]
        · rw [feed_cons_ok _ (drain_eq_ok.mpr hs), hfeed, List.flatten_cons,
            ← List.append_assoc, scan_append _ hrest, hs]

/-! Cutters that differ in how they name a fault -/

section
variable {ε' : Type w} {d : Cutter β α ε'} {g : ε → ε'}

theorem scan_mapFault (h : ∀ xs, d.cut xs = (c.cut xs).mapFault g) (xs : List β) :
    d.scan xs = ((c.scan xs).1, (c.scan xs).2.mapError g) := by
  have hd := h xs
  induction xs using c.scan_induction with
  | frame xs a rest hc ih =>
    rw [hc] at hd
    rw [scan_frame hd, scan_frame hc, ih (h rest)]
  | short xs hc =>
    rw [hc] at hd
    rw [scan_short hd, scan_short hc]
    rfl
  | broken xs e hc =>
    rw [hc] at hd
    rw [scan_broken hd, scan_broken hc]
    rfl

theorem feed_mapFault (h : ∀ xs, d.cut xs = (c.cut xs).mapFault g) (buffer : List β)
    (chunks : List (List β)) :
    d.feed buffer chunks = ((c.feed buffer chunks).1, (c.feed buffer chunks).2.mapError g) := by
  induction chunks generalizing buffer with
  | nil => rfl
  | cons chunk chunks ih =>
    have hscan := scan_mapFault h (buffer ++ chunk)
    cases hs : c.scan (buffer ++ chunk) with
    | mk as r =>
      rw [hs] at hscan
      cases r with
      | ok left =>
        rw [feed_cons_ok _ (drain_eq_ok.mpr hscan), feed_cons_ok _ (drain_eq_ok.mpr hs), ih]
      | error e =>
        rw [feed_cons_error _ (drain_eq_error.mpr (congrArg Prod.snd hscan)),
          feed_cons_error _ (drain_eq_error.mpr (congrArg Prod.snd hs))]
        rfl

end

end Cutter

/-- A cutter and what writes the frames it cuts. Not every value fits into a frame. -/
structure Format (β : Type u) (α : Type v) (ε : Type w) extends Cutter β α ε where
  write : α → List β
  Fits : α → Prop
  cut_write : ∀ {a} (rest), Fits a → cut (write a ++ rest) = .frame a rest
  canonical : ∀ {xs a rest}, cut xs = .frame a rest → Fits a ∧ xs = write a ++ rest

namespace Format
variable {β : Type u} {α : Type v} {ε : Type w} {f : Format β α ε}

theorem scan_write {as : List α} (fits : ∀ a ∈ as, f.Fits a) (ys : List β) :
    f.scan (as.flatMap f.write ++ ys) = (as ++ (f.scan ys).1, (f.scan ys).2) := by
  induction as with
  | nil => rfl
  | cons a as ih =>
    rw [List.flatMap_cons, List.append_assoc,
      Cutter.scan_frame (f.cut_write _ (fits a List.mem_cons_self)),
      ih fun b hb => fits b (List.mem_cons_of_mem _ hb)]
    rfl

/-- What a scan accepts is what the writer would have written. -/
theorem scan_sound (xs : List β) : (∀ a ∈ (f.scan xs).1, f.Fits a) ∧
    ∃ tail, xs = (f.scan xs).1.flatMap f.write ++ tail ∧
      ((f.cut tail = .short ∧ (f.scan xs).2 = .ok tail) ∨
        ∃ e, f.cut tail = .broken e ∧ (f.scan xs).2 = .error e) := by
  induction xs using f.toCutter.scan_induction with
  | frame xs a rest hc ih =>
    obtain ⟨fits, tail, hrest, h⟩ := ih
    obtain ⟨ha, hxs⟩ := f.canonical hc
    rw [Cutter.scan_frame hc]
    refine ⟨List.forall_mem_cons.mpr ⟨ha, fits⟩, tail, ?_, h⟩
    rw [List.flatMap_cons, List.append_assoc, ← hrest, ← hxs]
  | short xs hc =>
    rw [Cutter.scan_short hc]
    exact ⟨List.forall_mem_nil _, xs, rfl, .inl ⟨hc, rfl⟩⟩
  | broken xs e hc =>
    rw [Cutter.scan_broken hc]
    exact ⟨List.forall_mem_nil _, xs, rfl, .inr ⟨e, hc, rfl⟩⟩

/-- An unfinished frame is shorter than the frame. -/
theorem length_lt_of_short {left rest more : List β} {a : α} (short : f.cut left = .short)
    (fits : f.Fits a) (bytes : left ++ rest = f.write a ++ more) : left.length < (f.write a).length := by
  by_contra hle
  have hprefix : f.write a <+: left := by
    apply List.prefix_of_prefix_length_le (List.prefix_append (f.write a) more) _ (Nat.le_of_not_lt hle)
    rw [← bytes]
    exact List.prefix_append left rest
  obtain ⟨tail, rfl⟩ := hprefix
  rw [f.cut_write tail fits] at short
  cases short

/-- The frames `as` are under way: the receiver holds the first bytes, an unfinished frame,
and the rest of them is in flight. -/
structure UnderWay (f : Format β α ε) (buffer flight : List β) (as : List α) : Prop where
  short : f.cut buffer = .short
  fits : ∀ a ∈ as, f.Fits a
  bytes : buffer ++ flight = as.flatMap f.write

theorem UnderWay.nil (f : Format β α ε) : f.UnderWay [] [] [] :=
  ⟨f.cut_nil, List.forall_mem_nil _, rfl⟩

theorem UnderWay.send {buffer flight : List β} {as : List α} (h : f.UnderWay buffer flight as)
    {a : α} (ha : f.Fits a) : f.UnderWay buffer (flight ++ f.write a) (as ++ [a]) := by
  refine ⟨h.short, ?_, ?_⟩
  · intro b hb
    rcases List.mem_append.mp hb with hb | hb
    · exact h.fits b hb
    · cases List.mem_singleton.mp hb
      exact ha
  · rw [← List.append_assoc, h.bytes, List.flatMap_append, List.flatMap_singleton]

/-- The first part of a written stream is cut into the first of the frames. -/
theorem scan_of_prefix {xs flight : List β} {as : List α} (fits : ∀ a ∈ as, f.Fits a)
    (bytes : xs ++ flight = as.flatMap f.write) : ∃ bs left cs, as = bs ++ cs ∧
      f.scan xs = (bs, .ok left) ∧ left ++ flight = cs.flatMap f.write := by
  induction as generalizing xs with
  | nil =>
    obtain ⟨rfl, rfl⟩ := List.append_eq_nil_iff.mp bytes
    exact ⟨[], [], [], rfl, Cutter.scan_short f.cut_nil, rfl⟩
  | cons a as ih =>
    have whole : f.cut (xs ++ flight) = .frame a (as.flatMap f.write) := by
      rw [bytes, List.flatMap_cons]
      exact f.cut_write _ (fits a List.mem_cons_self)
    cases h : f.cut xs with
    | frame a' rest =>
      rw [f.frame_append _ h] at whole
      obtain ⟨rfl, hrest⟩ := Front.frame.inj whole
      obtain ⟨bs, left, cs, rfl, hscan, hleft⟩ :=
        ih (fun b hb => fits b (List.mem_cons_of_mem _ hb)) hrest
      refine ⟨a' :: bs, left, cs, rfl, ?_, hleft⟩
      rw [Cutter.scan_frame h, hscan]
    | short => exact ⟨[], xs, a :: as, rfl, Cutter.scan_short h, bytes⟩
    | broken e => cases (f.broken_append _ h).symm.trans whole

/-- A read takes frames off the front of those under way, and leaves the others under way. -/
theorem UnderWay.read {buffer chunk flight : List β} {as : List α}
    (h : f.UnderWay buffer (chunk ++ flight) as) : ∃ bs left cs, as = bs ++ cs ∧
      f.drain (buffer ++ chunk) = .ok (bs, left) ∧ f.UnderWay left flight cs := by
  have bytes := h.bytes
  rw [← List.append_assoc] at bytes
  obtain ⟨bs, left, cs, rfl, hscan, hleft⟩ := scan_of_prefix h.fits bytes
  refine ⟨bs, left, cs, rfl, Cutter.drain_eq_ok.mpr hscan, Cutter.cut_of_scan (by rw [hscan]), ?_, hleft⟩
  exact fun a ha => h.fits a (List.mem_append_right _ ha)

/-- Once nothing is in flight, nothing is under way. -/
theorem UnderWay.done {buffer : List β} {as : List α} (h : f.UnderWay buffer [] as) :
    as = [] ∧ buffer = [] := by
  have bytes := h.bytes
  rw [List.append_nil] at bytes
  cases as with
  | nil => exact ⟨rfl, bytes⟩
  | cons a as =>
    have hcut := f.cut_write (as.flatMap f.write) (h.fits a List.mem_cons_self)
    rw [← List.flatMap_cons, ← bytes, h.short] at hcut
    cases hcut

end Format
end Framing
