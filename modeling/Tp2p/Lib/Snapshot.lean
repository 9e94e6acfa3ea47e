import Mathlib.Logic.Basic

/-! Two decisions taken on one snapshot and applied one after the other, against the runs
in which the later one is taken on what the earlier one left. -/
namespace Snapshot
universe u v
variable {σ : Type u} {δ : Type v} (apply : σ → δ → σ)

/-- Both decide on `s`; what `p` decided is applied first. -/
def both (p q : σ → δ) (s : σ) : σ := apply (apply s (p s)) (q s)

/-- `q` decides on what `p` left. -/
def serial (p q : σ → δ) (s : σ) : σ := apply (apply s (p s)) (q (apply s (p s)))

/-- One of the two orders leaves the same. -/
def Serializable (p q : σ → δ) (s : σ) : Prop :=
  both apply p q s = serial apply p q s ∨ both apply p q s = serial apply q p s

variable {apply} {p q : σ → δ} {s : σ}

theorem both_eq_serial (h : q (apply s (p s)) = q s) : both apply p q s = serial apply p q s := by
  rw [both, serial, h]

theorem both_eq_serial_swap (h : p (apply s (q s)) = p s)
    (comm : apply (apply s (p s)) (q s) = apply (apply s (q s)) (p s)) :
    both apply p q s = serial apply q p s := by
  rw [both, serial, h, comm]

/-- A second decision that changes nothing is as good as a first. -/
theorem both_eq_serial_of_idle (h : ∀ s', apply s' (q s) = s') :
    both apply p q s = serial apply q p s := by
  rw [both, serial, h, h]

/-! A view under which decisions are seen as decisions of their own -/

variable {τ : Type u} {ε : Type v} {apply' : τ → ε → τ} {view : σ → τ} {p' q' : τ → ε}

theorem view_both (hp : ∀ s', view (apply s' (p s)) = apply' (view s') (p' (view s)))
    (hq : ∀ s', view (apply s' (q s)) = apply' (view s') (q' (view s))) :
    view (both apply p q s) = both apply' p' q' (view s) := by
  rw [both, both, hq, hp]

theorem view_serial (hp : view (apply s (p s)) = apply' (view s) (p' (view s)))
    (hq : ∀ s', view (apply s' (q (apply s (p s)))) =
      apply' (view s') (q' (view (apply s (p s))))) :
    view (serial apply p q s) = serial apply' p' q' (view s) := by
  rw [serial, serial, hq, hp]

end Snapshot
