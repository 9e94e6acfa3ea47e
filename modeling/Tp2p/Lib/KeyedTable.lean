import Tp2p.Lib.KeyedLog

/-! More on tables with one entry for each key: a log that is read again from an earlier point,
tables that differ in the order of their entries, and the entries under some of the keys. -/
namespace KeyedLog
universe u v
variable {κ : Type u} {α : Type v} [DecidableEq κ] (key : α → κ)

/-! The last entry put for a key -/

theorem latest_append (k : κ) (pre ops : List (Op κ α)) : latest key k (pre ++ ops) =
    if ops.any (·.on key = k) then latest key k ops else latest key k pre := by
  induction ops using List.reverseRecOn with
  | nil => simp
  | append_singleton ops op ih =>
    rw [← List.append_assoc, latest_concat, latest_concat, ih, List.any_append]
    by_cases h : op.on key = k
    · simp [h]
    · simp [h]

/-- Operations that come again later in the log leave no trace. -/
theorem latest_restart (k : κ) (before again ops : List (Op κ α)) (h : ∀ op ∈ again, op ∈ ops) :
    latest key k (before ++ again ++ ops) = latest key k (before ++ ops) := by
  rw [latest_append, latest_append key k before ops]
  split
  · rfl
  · next hops =>
    have hagain : ¬ again.any (·.on key = k) := by
      intro ha
      obtain ⟨op, hop, hk⟩ := List.any_eq_true.mp ha
      exact hops (List.any_eq_true.mpr ⟨op, h op hop, hk⟩)
    rw [latest_append, if_neg hagain]

/-! The first entry put for a key -/

/-- What stands under `k`. -/
def held (k : κ) (entries : List α) : Option α := entries.find? (key · = k)

/-- What an operation makes of what stands under `k`. -/
def heldStep (k : κ) (now : Option α) (op : Op κ α) : Option α :=
  if op.on key = k then
    match op with
    | .put a => now.or (some a)
    | .drop _ => none
  else now

theorem held_step (k : κ) (entries : List α) (op : Op κ α) :
    held key k (step key entries op) = heldStep key k (held key k entries) op := by
  cases op with
  | put a =>
    rw [heldStep, Op.on, step]
    by_cases hk : key a = k
    · subst hk
      rw [if_pos rfl]
      split
      · next h =>
        obtain ⟨b, hb, hkey⟩ := List.any_eq_true.mp h
        have hsome : (held key (key a) entries).isSome := List.find?_isSome.mpr ⟨b, hb, hkey⟩
        obtain ⟨c, hc⟩ := Option.isSome_iff_exists.mp hsome
        rw [hc, Option.some_or]
      · next h =>
        have hnone : held key (key a) entries = none := by
          apply List.find?_eq_none.mpr
          exact fun b hb hkey => h (List.any_eq_true.mpr ⟨b, hb, hkey⟩)
        simp only [held] at hnone ⊢
        rw [List.find?_append, hnone]
        simp
    · rw [if_neg hk]
      split
      · rfl
      · simp [held, List.find?_append, hk]
  | drop k' =>
    rw [heldStep, Op.on, step, held, List.find?_filter, held]
    by_cases hk : k' = k
    · subst hk
      rw [if_pos rfl, List.find?_eq_none]
      simp
    · rw [if_neg hk]
      congr 1
      funext a
      by_cases ha : key a = k
      · have hne : k ≠ k' := Ne.symm hk
        simp [ha, hne]
      · simp [ha]

theorem held_foldl (k : κ) (entries : List α) (ops : List (Op κ α)) :
    held key k (ops.foldl (step key) entries) = ops.foldl (heldStep key k) (held key k entries) := by
  induction ops generalizing entries with
  | nil => rfl
  | cons op ops ih => rw [List.foldl_cons, List.foldl_cons, ih, held_step]

/-- A log that drops `k` forgets what stood there, any other only adds to it. -/
theorem heldStep_foldl (k : κ) (ops : List (Op κ α)) :
    (∃ c, ∀ o, ops.foldl (heldStep key k) o = c) ∨ ∃ c, ∀ o, ops.foldl (heldStep key k) o = o.or c := by
  induction ops using List.reverseRecOn with
  | nil => exact .inr ⟨none, fun o => (Option.or_none).symm⟩
  | append_singleton ops op ih =>
    simp only [List.foldl_append, List.foldl_cons, List.foldl_nil]
    by_cases hk : op.on key = k
    · cases op with
      | drop k' => exact .inl ⟨none, fun o => if_pos hk⟩
      | put a =>
        rcases ih with ⟨c, h⟩ | ⟨c, h⟩
        · exact .inl ⟨c.or (some a), fun o => by rw [h, heldStep, if_pos hk]⟩
        · exact .inr ⟨c.or (some a), fun o => by rw [h, heldStep, if_pos hk, Option.or_assoc]⟩
    · simp only [heldStep, if_neg hk]
      exact ih

/-- The first part of a log leaves nothing that the whole of it does not take away or leave. -/
theorem heldStep_restart (k : κ) {part ops : List (Op κ α)} (h : part <+: ops) (o : Option α) :
    ops.foldl (heldStep key k) (part.foldl (heldStep key k) o) = ops.foldl (heldStep key k) o := by
  rcases heldStep_foldl key k ops with ⟨c, hc⟩ | ⟨c, hc⟩
  · rw [hc, hc]
  · obtain ⟨rest, rfl⟩ := h
    rcases heldStep_foldl key k part with ⟨d, hd⟩ | ⟨d, hd⟩
    · -- then the whole log forgets, too
      have hsame : ∀ o, (part ++ rest).foldl (heldStep key k) o = rest.foldl (heldStep key k) d := by
        intro o
        rw [List.foldl_append, hd]
      rw [hsame, hsame]
    · have hrest := fun o => (hc o).symm.trans (List.foldl_append (l := part))
      rw [hc, hc, hd]
      have hcd : d.or c = c := by
        have h0 := hrest none
        have h1 := hrest d
        rw [hd] at h0 h1
        rw [Option.none_or, Option.none_or] at h0
        rw [Option.or_self, ← h0] at h1
        exact h1
      rw [Option.or_assoc, hcd]

theorem heldStep_restarts (k : κ) {attempts : List (List (Op κ α))} {ops : List (Op κ α)}
    (h : ∀ part ∈ attempts, part <+: ops) (o : Option α) :
    ops.foldl (heldStep key k) (attempts.flatten.foldl (heldStep key k) o) =
      ops.foldl (heldStep key k) o := by
  induction attempts using List.reverseRecOn with
  | nil => rfl
  | append_singleton attempts part ih =>
    rw [List.flatten_append, List.foldl_append, List.flatten_singleton,
      heldStep_restart key k (h part (by simp)), ih fun p hp => h p (List.mem_append_left _ hp)]

/-- An entry stands under its key, if there is one entry for each key. -/
theorem mem_iff_held {entries : List α} (nodup : (entries.map key).Nodup) (a : α) :
    a ∈ entries ↔ held key (key a) entries = some a := by
  constructor
  · intro ha
    induction entries with
    | nil => cases ha
    | cons b entries ih =>
      obtain ⟨hb, nodup⟩ := List.nodup_cons.mp nodup
      rw [held, List.find?_cons]
      rcases List.mem_cons.mp ha with rfl | ha
      · simp
      · have hne : key b ≠ key a := by
          intro he
          exact hb (he ▸ List.mem_map_of_mem ha)
        rw [decide_eq_false hne]
        exact ih nodup ha
  · exact List.mem_of_find?_eq_some

theorem perm_of_held {entries entries' : List α} (nodup : (entries.map key).Nodup)
    (nodup' : (entries'.map key).Nodup) (h : ∀ k, held key k entries = held key k entries') :
    entries.Perm entries' := by
  apply (List.perm_ext_iff_of_nodup nodup.of_map nodup'.of_map).mpr
  intro a
  rw [mem_iff_held key nodup, mem_iff_held key nodup', h]

/-- However often reading a part of the log broke off, reading it to the end leaves the
entries that it should. -/
theorem replay_restart (before : List (Op κ α)) {attempts : List (List (Op κ α))}
    {ops : List (Op κ α)} (h : ∀ part ∈ attempts, part <+: ops) :
    (replay key (before ++ attempts.flatten ++ ops)).Perm (replay key (before ++ ops)) := by
  apply perm_of_held key (nodup_replay key _) (nodup_replay key _)
  intro k
  simp only [replay, List.foldl_append, held_foldl]
  exact heldStep_restarts key k h _

theorem step_idem (entries : List α) (op : Op κ α) :
    step key (step key entries op) op = step key entries op := by
  cases op with
  | put a =>
    have hany : (step key entries (.put a)).any (key · = key a) = true := by
      rw [step]
      split
      · next h => exact h
      · simp
    rw [step, if_pos hany]
  | drop k => simp [step]

/-! Operations on tables that differ in the order of the entries -/

theorem step_perm {entries entries' : List α} (h : entries.Perm entries') (op : Op κ α) :
    (step key entries op).Perm (step key entries' op) := by
  cases op with
  | put a =>
    have hany : entries.any (key · = key a) = entries'.any (key · = key a) := by
      rw [Bool.eq_iff_iff, List.any_eq_true, List.any_eq_true]
      simp only [h.mem_iff]
    rw [step, step, hany]
    split
    · exact h
    · exact h.append_right _
  | drop k => exact h.filter _

/-! The entries under the keys that are in `P` -/

/-- What an operation does to them depends on nothing else. -/
theorem filter_step_keys (P : κ → Bool) (entries : List α) (op : Op κ α) :
    (step key entries op).filter (fun a => P (key a)) =
      if P (op.on key) then step key (entries.filter fun a => P (key a)) op
      else entries.filter fun a => P (key a) := by
  by_cases hP : P (op.on key) = true
  · rw [if_pos hP]
    cases op with
    | put a =>
      have hany : (entries.filter fun b => P (key b)).any (key · = key a) =
          entries.any (key · = key a) := by
        rw [Bool.eq_iff_iff, List.any_eq_true, List.any_eq_true]
        constructor
        · rintro ⟨b, hb, hk⟩
          exact ⟨b, (List.mem_filter.mp hb).1, hk⟩
        · rintro ⟨b, hb, hk⟩
          have hkey : key b = key a := of_decide_eq_true hk
          exact ⟨b, List.mem_filter.mpr ⟨hb, by rw [hkey]; exact hP⟩, hk⟩
      have ha : P (key a) = true := hP
      rw [step, step, hany]
      split
      · rfl
      · rw [List.filter_append, List.filter_singleton, ha, cond_true]
    | drop k =>
      simp only [step, List.filter_filter]
      apply List.filter_congr
      intro a _
      rw [Bool.and_comm]
  · rw [if_neg hP]
    cases op with
    | put a =>
      have ha : P (key a) = false := Bool.eq_false_iff.mpr hP
      rw [step]
      split
      · rfl
      · rw [List.filter_append, List.filter_singleton, ha, cond_false, List.append_nil]
    | drop k =>
      have hk : P k = false := Bool.eq_false_iff.mpr hP
      simp only [step, List.filter_filter]
      apply List.filter_congr
      intro a _
      by_cases ha : key a = k
      · simp [ha, hk]
      · simp [ha]

end KeyedLog
