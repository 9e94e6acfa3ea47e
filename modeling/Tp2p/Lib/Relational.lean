import Tp2p.Lib.Transition

/-! Two runs compared. In each rule a relation between the states survives whatever the
inputs of the one run and of the other do. -/
namespace Transition
universe u v w x
variable {σ : Type u} {τ : Type w} {ι : Type v} {κ : Type x}

/-- Two machines in lockstep, the inputs of which are alike. -/
theorem reach_lockstep {f : σ → ι → σ} {g : τ → κ → τ} {R : σ → τ → Prop} {I : ι → κ → Prop}
    (step : ∀ {s t i j}, R s t → I i j → R (f s i) (g t j)) {s : σ} {t : τ} (start : R s t)
    {is : List ι} {js : List κ} (inputs : List.Forall₂ I is js) : R (reach f s is) (reach g t js) := by
  induction inputs with
  | nil => exact start
  | cons h _ ih => exact step ih h

/-- What is left of a run once the inputs that are not relevant are taken out of it. -/
theorem reach_purge {f : σ → ι → σ} {R : σ → σ → Prop} {relevant : ι → Bool} {A : ι → Prop}
    (step : ∀ {s t i}, R s t → A i → relevant i = true → R (f s i) (f t i))
    (skip : ∀ {s t i}, R s t → A i → relevant i = false → R (f s i) t) {s t : σ} (start : R s t)
    {is : List ι} (admissible : ∀ i ∈ is, A i) : R (reach f s is) (reach f t (is.filter relevant)) := by
  induction is with
  | nil => exact start
  | cons i is ih =>
    have ha := admissible i List.mem_cons_self
    have h := ih fun j hj => admissible j (List.mem_cons_of_mem _ hj)
    cases hi : relevant i with
    | true =>
      rw [List.filter_cons_of_pos hi]
      exact step h ha hi
    | false =>
      rw [List.filter_cons_of_neg (by rw [hi]; exact Bool.false_ne_true)]
      exact skip h ha hi

/-- What one machine does is matched by another that moves along with it or stands still: to every
run of the one belongs a run of the other, with the histories related as well as the states. The
steps may be restricted by `E`. -/
theorem Run.simulated {f : σ → ι → σ} {g : τ → κ → τ} {s₀ : σ} {t₀ : τ}
    {E : List (Taken σ ι) → Taken σ ι → Prop}
    {R : List (Taken σ ι) → List (Taken τ κ) → σ → τ → Prop} (start : R [] [] s₀ t₀)
    (step : ∀ {past past' s t}, Run f s₀ past s → Run g t₀ past' t → R past past' s t → ∀ i,
      E past ⟨s, i⟩ → R (⟨s, i⟩ :: past) past' (f s i) t ∨
        ∃ j, R (⟨s, i⟩ :: past) (⟨t, j⟩ :: past') (f s i) (g t j))
    {past : List (Taken σ ι)} {s : σ} (run : Run f s₀ past s) (every : Every E past) :
    ∃ past' t, Run g t₀ past' t ∧ R past past' s t := by
  induction run with
  | start => exact ⟨[], t₀, .start, start⟩
  | step run i ih =>
    obtain ⟨past', t, run', h⟩ := ih every.2
    rcases step run run' h i every.1 with h' | ⟨j, h'⟩
    · exact ⟨past', t, run', h'⟩
    · exact ⟨_, _, run'.step j, h'⟩

end Transition
