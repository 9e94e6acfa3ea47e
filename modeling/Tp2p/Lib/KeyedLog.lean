import Mathlib.Data.List.Induction
import Mathlib.Data.List.Nodup

/-! Logs of operations on a table of keyed entries, and what a table holds after a
log: under one discipline the last entry put for a key, under the other the first
one since the key was last dropped. -/
namespace KeyedLog
universe u v
variable {κ : Type u} {α : Type v}

inductive Op (κ : Type u) (α : Type v) where
  | put (a : α)
  | drop (k : κ)

/-- The key an operation is about. -/
def Op.on (key : α → κ) : Op κ α → κ
  | .put a => key a
  | .drop k => k

/-- What an operation leaves under its key. -/
def Op.value : Op κ α → Option α
  | .put a => some a
  | .drop _ => none

variable [DecidableEq κ] (key : α → κ)

/-- What the last operation on `k` left. -/
def latest (k : κ) (ops : List (Op κ α)) : Option α :=
  (ops.reverse.find? (·.on key = k)).bind Op.value

/-- Some operation drops `k`. -/
def dropped (k : κ) (ops : List (Op κ α)) : Bool :=
  ops.any fun
    | .put _ => false
    | .drop k' => k' = k

/-- The entries that stand after `ops`, where `pre` came before, in the order in which
they were put: nothing stood under the key of such an entry, and it is not dropped. -/
def standing (pre : List (Op κ α)) : List (Op κ α) → List α
  | [] => []
  | .put a :: post =>
    if (latest key (key a) pre).isNone && !dropped (key a) post then
      a :: standing (pre ++ [.put a]) post
    else standing (pre ++ [.put a]) post
  | .drop k :: post => standing (pre ++ [.drop k]) post

/-- A put under a key that is taken changes nothing. -/
def step (entries : List α) : Op κ α → List α
  | .put a => if entries.any (key · = key a) then entries else entries ++ [a]
  | .drop k => entries.filter (key · ≠ k)

def replay (ops : List (Op κ α)) : List α := ops.foldl (step key) []

theorem replay_concat (ops : List (Op κ α)) (op : Op κ α) :
    replay key (ops ++ [op]) = step key (replay key ops) op := by
  rw [replay, List.foldl_append]
  rfl

theorem latest_concat (k : κ) (ops : List (Op κ α)) (op : Op κ α) :
    latest key k (ops ++ [op]) = if op.on key = k then op.value else latest key k ops := by
  rw [latest, List.reverse_append, List.reverse_singleton, List.singleton_append, List.find?_cons]
  by_cases h : op.on key = k <;> simp [h, latest]

theorem latest_concat_put (k : κ) (ops : List (Op κ α)) (a : α) :
    latest key k (ops ++ [.put a]) = if key a = k then some a else latest key k ops :=
  latest_concat key k ops (.put a)

theorem latest_concat_drop (k k' : κ) (ops : List (Op κ α)) :
    latest key k (ops ++ [.drop k']) = if k' = k then none else latest key k ops :=
  latest_concat key k ops (.drop k')

theorem standing_concat_put (pre ops : List (Op κ α)) (a : α) :
    standing key pre (ops ++ [.put a]) =
      standing key pre ops ++ if (latest key (key a) (pre ++ ops)).isNone then [a] else [] := by
  induction ops generalizing pre with
  | nil => simp [standing, dropped]
  | cons op ops ih =>
    cases op with
    | put b =>
      have hd : dropped (key b) (ops ++ [.put a]) = dropped (key b) ops := by
        simp [dropped]
      rw [List.cons_append, standing, standing, hd, ih, List.append_assoc]
      split <;> rfl
    | drop k =>
      rw [List.cons_append, standing, standing, ih, List.append_assoc]
      rfl

theorem standing_concat_drop (pre ops : List (Op κ α)) (k : κ) :
    standing key pre (ops ++ [.drop k]) = (standing key pre ops).filter (key · ≠ k) := by
  induction ops generalizing pre with
  | nil => rfl
  | cons op ops ih =>
    cases op with
    | put b =>
      have hd : dropped (key b) (ops ++ [.drop k]) = (dropped (key b) ops || decide (k = key b)) := by
        simp [dropped]
      rw [List.cons_append, standing, standing, hd, ih]
      by_cases hk : k = key b
      · subst hk
        rw [decide_eq_true rfl, Bool.or_true, Bool.not_true, Bool.and_false, if_neg Bool.false_ne_true]
        split
        · rw [List.filter_cons_of_neg (by simp)]
        · rfl
      · rw [decide_eq_false hk, Bool.or_false]
        split
        · rw [List.filter_cons_of_pos (by simpa using Ne.symm hk)]
        · rfl
    | drop k' =>
      rw [List.cons_append, standing, standing, ih]

/-- A key is in use exactly when the last operation on it put something. -/
theorem exists_standing_iff (k : κ) (ops : List (Op κ α)) :
    (∃ a ∈ standing key [] ops, key a = k) ↔ (latest key k ops).isSome := by
  induction ops using List.reverseRecOn generalizing k with
  | nil => simp [standing, latest]
  | append_singleton ops op ih =>
    cases op with
    | put a =>
      rw [standing_concat_put, List.nil_append, latest_concat_put]
      by_cases hk : key a = k
      · subst hk
        simp only [if_true, Option.isSome_some, iff_true]
        cases hl : latest key (key a) ops with
        | none => exact ⟨a, by simp, rfl⟩
        | some b =>
          obtain ⟨c, hc, hck⟩ := (ih (key a)).mpr (by rw [hl]; rfl)
          exact ⟨c, by simp [hc], hck⟩
      · rw [if_neg hk, ← ih]
        split
        · simp [or_and_right, exists_or, hk]
        · simp
    | drop k' =>
      rw [standing_concat_drop, latest_concat_drop]
      by_cases hk : k' = k
      · subst hk
        simp
      · rw [if_neg hk, ← ih]
        simp only [List.mem_filter, decide_eq_true_eq]
        constructor
        · rintro ⟨a, ⟨ha, _⟩, hak⟩
          exact ⟨a, ha, hak⟩
        · rintro ⟨a, ha, rfl⟩
          exact ⟨a, ⟨ha, fun h => hk h.symm⟩, rfl⟩

/-- Replaying a log leaves what stands after it. -/
theorem replay_eq_standing (ops : List (Op κ α)) : replay key ops = standing key [] ops := by
  induction ops using List.reverseRecOn with
  | nil => rfl
  | append_singleton ops op ih =>
    rw [replay_concat, ih]
    cases op with
    | put a =>
      have h : (standing key [] ops).any (key · = key a) = (latest key (key a) ops).isSome := by
        rw [Bool.eq_iff_iff, ← exists_standing_iff]
        simp
      rw [standing_concat_put, List.nil_append, step, h]
      cases latest key (key a) ops <;> simp
    | drop k => rw [standing_concat_drop, step]

theorem nodup_replay (ops : List (Op κ α)) : ((replay key ops).map key).Nodup := by
  induction ops using List.reverseRecOn with
  | nil => exact List.nodup_nil
  | append_singleton ops op ih =>
    rw [replay_concat]
    cases op with
    | put a =>
      rw [step]
      split
      · exact ih
      · next h =>
        rw [List.map_append, List.nodup_append]
        refine ⟨ih, List.nodup_singleton _, ?_⟩
        intro k hk k' hk'
        obtain ⟨b, hb, rfl⟩ := List.mem_map.mp hk
        cases List.mem_singleton.mp hk'
        intro he
        exact h (List.any_eq_true.mpr ⟨b, hb, decide_eq_true he⟩)
    | drop k => exact ih.sublist (List.filter_sublist.map key)

/-- There is one entry for a key in use, and none for any other. -/
theorem length_filter_replay (k : κ) (ops : List (Op κ α)) :
    ((replay key ops).filter (key · = k)).length = if (latest key k ops).isSome then 1 else 0 := by
  have hn : ((replay key ops).map key).count k ≤ 1 := List.nodup_iff_count_le_one.mp (nodup_replay key ops) k
  have hc : ((replay key ops).filter (key · = k)).length = ((replay key ops).map key).count k := by
    rw [List.count, List.countP_map, List.countP_eq_length_filter]
    rfl
  rw [hc]
  split
  · next h =>
    obtain ⟨a, ha, rfl⟩ := (exists_standing_iff key k ops).mpr h
    rw [← replay_eq_standing] at ha
    have := List.count_pos_iff.mpr (List.mem_map_of_mem (f := key) ha)
    omega
  · next h =>
    rw [List.count_eq_zero, List.mem_map]
    rintro ⟨a, ha, hk⟩
    rw [replay_eq_standing] at ha
    exact h ((exists_standing_iff key k ops).mp ⟨a, ha, hk⟩)

theorem filter_step_of_ne {k : κ} {op : Op κ α} (hk : op.on key ≠ k) (entries : List α) :
    (step key entries op).filter (key · = k) = entries.filter (key · = k) := by
  cases op with
  | put a =>
    rw [step]
    split
    · rfl
    · have ha : key a ≠ k := hk
      simp [ha]
  | drop k' =>
    rw [step, List.filter_filter]
    apply List.filter_congr
    intro a _
    by_cases ha : key a = k
    · have hk' : k ≠ k' := fun h => hk h.symm
      simp [ha, hk']
    · simp [ha]

theorem filter_step (op : Op κ α) (entries : List α) :
    (step key entries op).filter (key · = op.on key) =
      step key (entries.filter (key · = op.on key)) op := by
  cases op with
  | put a =>
    have h : (entries.filter (key · = key a)).any (key · = key a) =
        entries.any (key · = key a) := by simp
    rw [step, step, Op.on, h]
    split
    · rfl
    · simp
  | drop k =>
    rw [step, step, Op.on, List.filter_filter, List.filter_filter]
    apply List.filter_congr
    intro a _
    rw [Bool.and_comm]

/-- The entry for a key depends on the operations on that key alone. -/
theorem filter_replay (k : κ) (ops : List (Op κ α)) :
    (replay key ops).filter (key · = k) = replay key (ops.filter (·.on key = k)) := by
  induction ops using List.reverseRecOn with
  | nil => rfl
  | append_singleton ops op ih =>
    rw [replay_concat, List.filter_append]
    by_cases hk : op.on key = k
    · subst hk
      rw [filter_step, ih, List.filter_singleton, decide_eq_true rfl, cond_true, replay_concat]
    · rw [filter_step_of_ne key hk, ih, List.filter_singleton, decide_eq_false hk, cond_false,
        List.append_nil]

theorem latest_filter (k : κ) (ops : List (Op κ α)) :
    latest key k (ops.filter (·.on key = k)) = latest key k ops := by
  rw [latest, latest, ← List.filter_reverse, List.find?_filter]
  simp

/-- Logs that order the operations on each key alike leave the same entries. -/
theorem replay_perm {ops ops' : List (Op κ α)}
    (same : ∀ k, ops.filter (·.on key = k) = ops'.filter (·.on key = k)) :
    (replay key ops).Perm (replay key ops') := by
  apply (List.perm_ext_iff_of_nodup (nodup_replay key ops).of_map (nodup_replay key ops').of_map).mpr
  intro a
  have h : ∀ ops : List (Op κ α), a ∈ replay key ops ↔
      a ∈ replay key (ops.filter (·.on key = key a)) := by
    intro ops
    rw [← filter_replay]
    simp
  rw [h ops, h ops', same]

end KeyedLog
