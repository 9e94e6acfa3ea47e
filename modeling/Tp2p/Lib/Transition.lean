import Mathlib.Data.List.Basic

/-! Runs of a deterministic machine that keep their history, and the rules by
which invariants and exact conditions of whole runs follow from single steps. -/
namespace Transition
universe u v
variable {σ : Type u} {ι : Type v}

/-- A step as it was taken: the state it met and the input it was given. -/
structure Taken (σ : Type u) (ι : Type v) where
  pre : σ
  input : ι

/-- The runs of `next` from `s₀`: the steps taken, newest first, and the state reached. -/
inductive Run (next : σ → ι → σ) (s₀ : σ) : List (Taken σ ι) → σ → Prop where
  | start : Run next s₀ [] s₀
  | step {past : List (Taken σ ι)} {s : σ} (run : Run next s₀ past s) (i : ι) :
      Run next s₀ (⟨s, i⟩ :: past) (next s i)

/-- Every step of a history meets `C`, which may look back at the steps before it. -/
def Every (C : List (Taken σ ι) → Taken σ ι → Prop) : List (Taken σ ι) → Prop
  | [] => True
  | st :: past => C past st ∧ Every C past

/-- `P` holds in every state a run went through. -/
def Always (P : List (Taken σ ι) → σ → Prop) : List (Taken σ ι) → σ → Prop
  | [], s => P [] s
  | st :: past, s => P (st :: past) s ∧ Always P past st.pre

variable {next : σ → ι → σ} {s₀ : σ}

theorem Every.trivial (past : List (Taken σ ι)) : Every (fun _ _ => True) past := by
  induction past with
  | nil => exact True.intro
  | cons _ _ ih => exact ⟨True.intro, ih⟩

theorem Every.of_append {C : List (Taken σ ι) → Taken σ ι → Prop} {newer older : List (Taken σ ι)}
    {st : Taken σ ι} (h : Every C (newer ++ st :: older)) : C older st := by
  induction newer with
  | nil => exact h.1
  | cons _ _ ih => exact ih h.2

/-- The state that the given inputs lead to, newest first. -/
def reach (next : σ → ι → σ) (s₀ : σ) : List ι → σ
  | [] => s₀
  | i :: is => next (reach next s₀ is) i

/-- The history that the given inputs leave, newest first. -/
def trail (next : σ → ι → σ) (s₀ : σ) : List ι → List (Taken σ ι)
  | [] => []
  | i :: is => ⟨reach next s₀ is, i⟩ :: trail next s₀ is

namespace Run

/-- Every sequence of inputs is a run. -/
theorem of_inputs (is : List ι) : Run next s₀ (trail next s₀ is) (reach next s₀ is) := by
  induction is with
  | nil => exact .start
  | cons i is ih => exact .step ih i

/-- A state invariant that every step keeps holds wherever a run leads. -/
theorem invariant {I : σ → Prop} (start : I s₀) (step : ∀ s i, I s → I (next s i))
    {past : List (Taken σ ι)} {s : σ} (run : Run next s₀ past s) : I s := by
  induction run with
  | start => exact start
  | step _ i ih => exact step _ i ih

/-- A relation between history and state that every step extends holds of every run. -/
theorem history {I : List (Taken σ ι) → σ → Prop} (start : I [] s₀)
    (step : ∀ {past s}, Run next s₀ past s → I past s → ∀ i, I (⟨s, i⟩ :: past) (next s i))
    {past : List (Taken σ ι)} {s : σ} (run : Run next s₀ past s) : I past s := by
  induction run with
  | start => exact start
  | step run i ih => exact step run ih i

/-- Every step of a run started in a state that a run of its own reaches. -/
theorem earlier {past : List (Taken σ ι)} {s : σ} (run : Run next s₀ past s)
    {st : Taken σ ι} (hst : st ∈ past) : ∃ older, Run next s₀ older st.pre := by
  induction run with
  | start => cases hst
  | @step past s run i ih =>
    rcases List.mem_cons.mp hst with rfl | hst
    · exact ⟨past, run⟩
    · exact ih hst

theorem of_append {newer older : List (Taken σ ι)} {st : Taken σ ι} {s : σ}
    (run : Run next s₀ (newer ++ st :: older) s) : Run next s₀ older st.pre := by
  induction newer generalizing s with
  | nil =>
    cases run with
    | step run => exact run
  | cons _ _ ih =>
    cases run with
    | step run => exact ih run

/-- Two conditions that agree on every step of a run agree on the run. -/
theorem every_iff {E C D : List (Taken σ ι) → Taken σ ι → Prop}
    (step : ∀ {past s}, Run next s₀ past s → ∀ i, E past ⟨s, i⟩ → (C past ⟨s, i⟩ ↔ D past ⟨s, i⟩))
    {past : List (Taken σ ι)} {s : σ} (run : Run next s₀ past s) (every : Every E past) :
    Every C past ↔ Every D past := by
  induction run with
  | start => exact Iff.rfl
  | step run i ih => exact and_congr (step run i every.1) (ih every.2)

/-- The exact condition for a property of whole runs. A strengthening `Q` of the
property `P` survives every step that meets `C`, and a step that does not meet `C`
refutes `P` at once. Steps may be restricted by `E`. -/
theorem exact_under {E C : List (Taken σ ι) → Taken σ ι → Prop} {P Q : List (Taken σ ι) → σ → Prop}
    (start : Q [] s₀)
    (sound : ∀ {past s}, Run next s₀ past s → Q past s → P past s)
    (keep : ∀ {past s}, Run next s₀ past s → Q past s → ∀ i, E past ⟨s, i⟩ → C past ⟨s, i⟩ →
      Q (⟨s, i⟩ :: past) (next s i))
    (refute : ∀ {past s}, Run next s₀ past s → Q past s → ∀ i, E past ⟨s, i⟩ → ¬ C past ⟨s, i⟩ →
      ¬ P (⟨s, i⟩ :: past) (next s i))
    {past : List (Taken σ ι)} {s : σ} (run : Run next s₀ past s) (every : Every E past) :
    Always P past s ↔ Every C past := by
  suffices h : (Always P past s ↔ Every C past) ∧ (Every C past → Q past s) from h.1
  induction run with
  | start => exact ⟨⟨fun _ => True.intro, fun _ => sound .start start⟩, fun _ => start⟩
  | @step past s run i ih =>
    obtain ⟨hiff, hQ⟩ := ih every.2
    refine ⟨⟨fun h => ?_, fun h => ?_⟩, fun h => keep run (hQ h.2) i every.1 h.1⟩
    · have hC := hiff.mp h.2
      refine ⟨?_, hC⟩
      by_contra hn
      exact refute run (hQ hC) i every.1 hn h.1
    · exact ⟨sound (.step run i) (keep run (hQ h.2) i every.1 h.1), hiff.mpr h.2⟩

/-- The same for unrestricted runs. -/
theorem exact {C : List (Taken σ ι) → Taken σ ι → Prop} {P Q : List (Taken σ ι) → σ → Prop}
    (start : Q [] s₀)
    (sound : ∀ {past s}, Run next s₀ past s → Q past s → P past s)
    (keep : ∀ {past s}, Run next s₀ past s → Q past s → ∀ i, C past ⟨s, i⟩ →
      Q (⟨s, i⟩ :: past) (next s i))
    (refute : ∀ {past s}, Run next s₀ past s → Q past s → ∀ i, ¬ C past ⟨s, i⟩ →
      ¬ P (⟨s, i⟩ :: past) (next s i))
    {past : List (Taken σ ι)} {s : σ} (run : Run next s₀ past s) :
    Always P past s ↔ Every C past :=
  run.exact_under start sound (fun run hQ i _ => keep run hQ i) (fun run hQ i _ => refute run hQ i)
    (Every.trivial past)

end Run

/-- A relation comes to an end from every state of an invariant, if each step from there
decreases a measure. -/
theorem acc_of_descent {α : Type u} {β : Type v} {r : α → α → Prop} {lt : β → β → Prop}
    (wf : WellFounded lt) {I : α → Prop} (measure : α → β)
    (keep : ∀ {a a'}, I a → r a a' → I a') (drop : ∀ {a a'}, I a → r a a' → lt (measure a') (measure a))
    {a : α} (ha : I a) : Acc (fun a' a => r a a') a := by
  generalize hm : measure a = m
  induction m using wf.induction generalizing a with
  | h m ih =>
    subst hm
    constructor
    intro a' h
    exact ih (measure a') (drop ha h) (keep ha h) rfl

end Transition
