import Mathlib.Logic.Function.Basic
import Tp2p.Lib.Transition

/-! Several machines side by side, moving one at a time, and what each of them
makes of a common history. -/
namespace Transition
universe u v w
variable {P : Type w} [DecidableEq P] {σ : Type u} {ι : Type v}

/-- One machine moves and the others stand still. -/
def fleet (next : σ → ι → σ) (states : P → σ) (move : P × ι) : P → σ :=
  Function.update states move.1 (next (states move.1) move.2)

/-- The moves of one machine. -/
def own (p : P) (past : List (Taken (P → σ) (P × ι))) : List (Taken σ ι) :=
  past.filterMap fun st => if st.input.1 = p then some ⟨st.pre p, st.input.2⟩ else none

variable {next : σ → ι → σ} {states₀ : P → σ}

/-- In a run of the fleet every machine makes a run of its own. -/
theorem Run.own {past : List (Taken (P → σ) (P × ι))} {states : P → σ}
    (run : Run (fleet next) states₀ past states) (p : P) :
    Run next (states₀ p) (own p past) (states p) := by
  induction run with
  | start => exact .start
  | @step past states _ move ih =>
    obtain ⟨q, i⟩ := move
    by_cases hq : q = p
    · subst hq
      have h := ih.step i
      simpa [Transition.own, fleet] using h
    · have hp : p ≠ q := Ne.symm hq
      simpa [Transition.own, fleet, hq, hp, Function.update_of_ne hp] using ih

theorem mem_own {p : P} {past : List (Taken (P → σ) (P × ι))} {st : Taken σ ι} :
    st ∈ own p past ↔ ∃ move ∈ past, move.input = (p, st.input) ∧ move.pre p = st.pre := by
  simp only [own, List.mem_filterMap]
  refine exists_congr fun move => and_congr_right fun _ => ⟨fun h => ?_, ?_⟩
  · split at h
    · next hp =>
      cases h
      exact ⟨Prod.ext hp rfl, rfl⟩
    · cases h
  · rintro ⟨hi, hpre⟩
    rw [hi, if_pos rfl, hpre]

/-! A machine in whose history more is written down than it is given -/

section
variable {κ : Type*}

/-- Some of what happens is an input of the machine, and the rest leaves it as it is. -/
def witnessing (next : σ → ι → σ) (input : κ → Option ι) (s : σ) (event : κ) : σ :=
  match input event with
  | some i => next s i
  | none => s

/-- The steps of the machine itself. -/
def inputs (input : κ → Option ι) (past : List (Taken σ κ)) : List (Taken σ ι) :=
  past.filterMap fun st => (input st.input).map (⟨st.pre, ·⟩)

theorem mem_inputs {input : κ → Option ι} {past : List (Taken σ κ)} {st : Taken σ ι} :
    st ∈ inputs input past ↔ ∃ st' ∈ past, input st'.input = some st.input ∧ st'.pre = st.pre := by
  simp only [inputs, List.mem_filterMap, Option.map_eq_some_iff]
  refine exists_congr fun st' => and_congr_right fun _ => ⟨?_, ?_⟩
  · rintro ⟨i, hi, rfl⟩
    exact ⟨hi, rfl⟩
  · rintro ⟨hi, hpre⟩
    exact ⟨st.input, hi, by rw [hpre]⟩

theorem Run.inputs {input : κ → Option ι} {past : List (Taken σ κ)} {s₀ s : σ}
    (run : Run (witnessing next input) s₀ past s) :
    Run next s₀ (Transition.inputs input past) s := by
  induction run with
  | start => exact .start
  | @step past s _ event ih =>
    cases h : input event with
    | none => simpa [Transition.inputs, witnessing, h] using ih
    | some i => simpa [Transition.inputs, witnessing, h] using ih.step i

end

/-- The two ends of a conversation. -/
inductive Side where
  | left
  | right
  deriving DecidableEq

namespace Side

def other : Side → Side
  | .left => .right
  | .right => .left

@[simp] theorem other_other (p : Side) : p.other.other = p := by cases p <;> rfl

theorem other_ne (p : Side) : p.other ≠ p := by cases p <;> decide

theorem eq_or_eq_other (p q : Side) : q = p ∨ q = p.other := by
  cases p <;> cases q <;> first | exact .inl rfl | exact .inr rfl

/-- What holds of one end and of the other holds of both. -/
theorem forall_of {C : Side → Prop} (p : Side) (here : C p) (there : C p.other) : ∀ q, C q := by
  intro q
  rcases eq_or_eq_other p q with rfl | rfl
  · exact here
  · exact there

instance {C : Side → Prop} [DecidablePred C] : Decidable (∀ p, C p) :=
  decidable_of_iff (C .left ∧ C .right) ⟨fun h => forall_of .left h.1 h.2, fun h => ⟨h .left, h .right⟩⟩

end Side
end Transition
