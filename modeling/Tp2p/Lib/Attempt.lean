import Mathlib.Data.List.Forall2

/-! Fallible computations in `Except`: when a sequence of attempts succeeds. -/
namespace Attempt
variable {ε α β : Type}

/-- `Option::ok_or`. -/
def okOr : Option α → ε → Except ε α
  | some a, _ => .ok a
  | none, e => .error e

@[simp] theorem okOr_some (a : α) (e : ε) : okOr (some a) e = .ok a := rfl
@[simp] theorem okOr_none (e : ε) : okOr (none : Option α) e = .error e := rfl

@[simp] theorem bind_ok (a : α) (f : α → Except ε β) : ((Except.ok a : Except ε α) >>= f) = f a := rfl
@[simp] theorem bind_error (e : ε) (f : α → Except ε β) :
    ((Except.error e : Except ε α) >>= f) = .error e := rfl

theorem bind_eq_ok {x : Except ε α} {f : α → Except ε β} {b : β} :
    (x >>= f) = .ok b ↔ ∃ a, x = .ok a ∧ f a = .ok b := by
  cases x with
  | error e => simp
  | ok a => simp

theorem pure_eq_ok {a b : α} : (pure a : Except ε α) = .ok b ↔ a = b :=
  ⟨fun h => Except.ok.inj h, fun h => congrArg Except.ok h⟩

theorem okOr_eq_ok {o : Option α} {e : ε} {a : α} : okOr o e = .ok a ↔ o = some a := by
  cases o <;> simp

theorem ok_or_error (x : Except ε α) : (∃ a, x = .ok a) ∨ ∃ e, x = .error e := by
  cases x with
  | error e => exact .inr ⟨e, rfl⟩
  | ok a => exact .inl ⟨a, rfl⟩

/-- A traversal succeeds exactly when it succeeds on every element. -/
theorem mapM_eq_ok {f : α → Except ε β} {xs : List α} {ys : List β} :
    xs.mapM f = .ok ys ↔ List.Forall₂ (fun x y => f x = .ok y) xs ys := by
  induction xs generalizing ys with
  | nil => rw [List.mapM_nil, pure_eq_ok, List.forall₂_nil_left_iff, eq_comm]
  | cons x xs ih =>
    rw [List.mapM_cons, bind_eq_ok, List.forall₂_cons_left_iff]
    constructor
    · rintro ⟨y, hy, h⟩
      obtain ⟨zs, hzs, h⟩ := bind_eq_ok.mp h
      exact ⟨y, zs, hy, ih.mp hzs, (pure_eq_ok.mp h).symm⟩
    · rintro ⟨y, zs, hy, hzs, rfl⟩
      exact ⟨y, hy, bind_eq_ok.mpr ⟨zs, ih.mpr hzs, rfl⟩⟩

/-- A traversal that can succeed on every element succeeds. -/
theorem mapM_succeeds {f : α → Except ε β} {xs : List α} (h : ∀ x ∈ xs, ∃ y, f x = .ok y) :
    ∃ ys, xs.mapM f = .ok ys := by
  induction xs with
  | nil => exact ⟨[], rfl⟩
  | cons x xs ih =>
    obtain ⟨y, hy⟩ := h x List.mem_cons_self
    obtain ⟨ys, hys⟩ := ih fun x' hx' => h x' (List.mem_cons_of_mem _ hx')
    exact ⟨y :: ys, by rw [List.mapM_cons, hy, bind_ok, hys]; rfl⟩

/-- The error that a computation ends with. -/
def errorOf : Except ε α → Option ε
  | .ok _ => none
  | .error e => some e

theorem errorOf_eq_some {x : Except ε α} {e : ε} : errorOf x = some e ↔ x = .error e := by
  cases x with
  | error e' => simp [errorOf]
  | ok a => simp [errorOf]

theorem errorOf_eq_none {x : Except ε α} : errorOf x = none ↔ ∃ a, x = .ok a := by
  cases x with
  | error e => simp [errorOf]
  | ok a => simp [errorOf]

theorem errorOf_map (x : Except ε α) (f : α → β) :
    errorOf (do let a ← x; return f a : Except ε β) = errorOf x := by
  cases x <;> rfl

/-- A traversal fails as its first failing element does. -/
theorem errorOf_mapM (f : α → Except ε β) (xs : List α) :
    errorOf (xs.mapM f) = xs.findSome? fun x => errorOf (f x) := by
  induction xs with
  | nil => rfl
  | cons x xs ih =>
    rw [List.mapM_cons, List.findSome?_cons]
    cases f x with
    | error e => rfl
    | ok y =>
      rw [bind_ok, errorOf_map, ih]
      rfl

/-- Looking through the elements that are picked is looking through all and passing over the rest. -/
theorem findSome?_filter_map {γ : Type} (p : α → Prop) [DecidablePred p] (f : α → β) (g : β → Option γ)
    (xs : List α) :
    ((xs.filter (p ·)).map f).findSome? g = xs.findSome? fun x => if p x then g (f x) else none := by
  induction xs with
  | nil => rfl
  | cons x xs ih => by_cases hx : p x <;> simp [List.findSome?_cons, hx, ih]

/-- Whatever the computation returns meets `P`. -/
structure Ensures (x : Except ε α) (P : α → Prop) : Prop where
  of_ok : ∀ a, x = .ok a → P a

theorem ensures_ok {P : α → Prop} {a : α} (h : P a) : Ensures (.ok a : Except ε α) P where
  of_ok := by
    rintro _ ⟨⟩
    exact h

theorem ensures_trivial (x : Except ε α) : Ensures x fun _ => True := ⟨fun _ _ => True.intro⟩

theorem Ensures.bind {x : Except ε α} {f : α → Except ε β} {P : α → Prop} {Q : β → Prop}
    (hx : Ensures x P) (hf : ∀ a, P a → Ensures (f a) Q) : Ensures (x >>= f) Q where
  of_ok := by
    intro b h
    obtain ⟨a, ha, hb⟩ := bind_eq_ok.mp h
    exact (hf a (hx.of_ok a ha)).of_ok b hb

theorem exists_mem_of_mem_left {R : α → β → Prop} {xs : List α} {ys : List β}
    (h : List.Forall₂ R xs ys) {x : α} (hx : x ∈ xs) : ∃ y ∈ ys, R x y := by
  induction h with
  | nil => cases hx
  | cons hr _ ih =>
    rcases List.mem_cons.mp hx with rfl | hx
    · exact ⟨_, List.mem_cons_self, hr⟩
    · obtain ⟨y, hy, hr⟩ := ih hx
      exact ⟨y, List.mem_cons_of_mem _ hy, hr⟩

theorem exists_mem_of_mem_right {R : α → β → Prop} {xs : List α} {ys : List β}
    (h : List.Forall₂ R xs ys) {y : β} (hy : y ∈ ys) : ∃ x ∈ xs, R x y :=
  exists_mem_of_mem_left h.flip hy

end Attempt
