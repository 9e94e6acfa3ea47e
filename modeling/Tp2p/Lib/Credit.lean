import Mathlib.Data.List.Perm.Subperm

/-! Credit that does not add up: however often it is earned, it is spent once. A
log lists what happened, newest first. -/
namespace Credit
universe u
variable {α : Type u} (earn spend : α → Bool)

/-- There is credit: something was earned, and nothing spent since. -/
def standing : List α → Bool
  | [] => false
  | a :: past => !spend a && (earn a || standing past)

/-- Whatever was spent was spent on credit. -/
def Honest : List α → Prop
  | [] => True
  | a :: past => (spend a = true → standing earn spend past = true) ∧ Honest past

variable {earn spend}

/-- As many as can each show an entry of the log that names them, there are entries. -/
theorem length_le_countP {β κ : Type u} {key : β → κ} {holders : List β} (once : (holders.map key).Nodup)
    {log : List α} {valid : α → Bool} (names : α → Option κ)
    (entry : ∀ b ∈ holders, ∃ a ∈ log, valid a = true ∧ names a = some (key b)) :
    holders.length ≤ log.countP valid := by
  have named : holders.map key ⊆ (log.filter valid).filterMap names := by
    intro k hk
    obtain ⟨b, hb, rfl⟩ := List.mem_map.mp hk
    obtain ⟨a, ha, hv, hn⟩ := entry b hb
    exact List.mem_filterMap.mpr ⟨a, List.mem_filter.mpr ⟨ha, hv⟩, hn⟩
  calc holders.length = (holders.map key).length := List.length_map key |>.symm
    _ ≤ ((log.filter valid).filterMap names).length := (once.subperm named).length_le
    _ ≤ (log.filter valid).length := List.length_filterMap_le names _
    _ = log.countP valid := List.countP_eq_length_filter.symm

theorem exists_earn {log : List α} (h : standing earn spend log = true) :
    ∃ newer a older, log = newer ++ a :: older ∧ earn a = true ∧ ∀ b ∈ newer, spend b = false := by
  induction log with
  | nil => cases h
  | cons a past ih =>
    simp only [standing, Bool.and_eq_true, Bool.not_eq_true', Bool.or_eq_true] at h
    obtain ⟨hs, he | hp⟩ := h
    · exact ⟨[], a, past, rfl, he, fun b hb => (List.not_mem_nil hb).elim⟩
    · obtain ⟨newer, b, older, rfl, hb, hn⟩ := ih hp
      refine ⟨a :: newer, b, older, rfl, hb, fun c hc => ?_⟩
      rcases List.mem_cons.mp hc with rfl | hc
      · exact hs
      · exact hn c hc

theorem earn_since {mid older : List α} {b : α} (h : standing earn spend (mid ++ b :: older) = true)
    (hb : spend b = true) : ∃ c ∈ mid, earn c = true := by
  induction mid with
  | nil => simp [standing, hb] at h
  | cons a mid ih =>
    simp only [List.cons_append, standing, Bool.and_eq_true, Bool.or_eq_true] at h
    rcases h.2 with he | hp
    · exact ⟨a, List.mem_cons_self, he⟩
    · obtain ⟨c, hc, he⟩ := ih hp
      exact ⟨c, List.mem_cons_of_mem _ hc, he⟩

namespace Honest

theorem older {newer older : List α} (h : Honest earn spend (newer ++ older)) :
    Honest earn spend older := by
  induction newer with
  | nil => exact h
  | cons _ _ ih => exact ih h.2

/-- Before anything is spent, something was earned and not yet spent. -/
theorem earned {newer older : List α} {a : α} (h : Honest earn spend (newer ++ a :: older))
    (ha : spend a = true) : ∃ mid b rest, older = mid ++ b :: rest ∧ earn b = true ∧
      ∀ c ∈ mid, spend c = false :=
  exists_earn (h.older.1 ha)

/-- Between two spendings something is earned. -/
theorem between {newer mid older : List α} {a b : α}
    (h : Honest earn spend (newer ++ a :: (mid ++ b :: older))) (ha : spend a = true)
    (hb : spend b = true) : ∃ c ∈ mid, earn c = true :=
  earn_since (h.older.1 ha) hb

/-- Nothing is spent more often than it is earned. -/
theorem countP_le {log : List α} (h : Honest earn spend log) :
    log.countP spend + (standing earn spend log).toNat ≤ log.countP earn := by
  induction log with
  | nil => exact Nat.le_refl 0
  | cons a past ih =>
    have hp := ih h.2
    rw [List.countP_cons, List.countP_cons]
    cases hs : spend a with
    | false => cases he : earn a <;> simp [standing, hs, he] <;> omega
    | true =>
      have hst := h.1 hs
      rw [hst, Bool.toNat_true] at hp
      cases he : earn a <;> simp [standing, hs] <;> omega

end Honest
end Credit
