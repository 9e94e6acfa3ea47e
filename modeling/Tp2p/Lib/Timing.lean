import Tp2p.Lib.Transition

/-! Runs in time: when a step of some kind was last taken, and mail that takes its time, with
letters that know when they were sent. -/
namespace Transition
universe u v w
variable {σ : Type u} {ι : Type v} {τ : Type w}

/-- The time of the last step of this kind; before the first one, when the run began. -/
def lastTime (time : ι → τ) (C : ι → Bool) (start : τ) : List (Taken σ ι) → τ
  | [] => start
  | st :: past => if C st.input then time st.input else lastTime time C start past

theorem lastTime_le [LE τ] {time : ι → τ} (C : ι → Bool) {start now : τ} {past : List (Taken σ ι)}
    (started : start ≤ now) (forward : ∀ st ∈ past, time st.input ≤ now) :
    lastTime time C start past ≤ now := by
  induction past with
  | nil => exact started
  | cons st past ih =>
    rw [lastTime]
    split
    · exact forward st List.mem_cons_self
    · exact ih fun st' h => forward st' (List.mem_cons_of_mem _ h)

instance Every.decidable {C : List (Taken σ ι) → Taken σ ι → Prop} [∀ past st, Decidable (C past st)] :
    (past : List (Taken σ ι)) → Decidable (Every C past)
  | [] => .isTrue True.intro
  | st :: past =>
    have : Decidable (Every C past) := Every.decidable past
    inferInstanceAs (Decidable (C past st ∧ Every C past))

end Transition

namespace Mail
variable {α : Type*}

structure Letter (α : Type*) where
  word : α
  sent : Int

/-- What is sent now. -/
def post (now : Int) (words : List α) : List (Letter α) := words.map (⟨·, now⟩)

/-- A word is in the mail, and was sent by then. -/
def OnItsWay (mail : List (Letter α)) (word : α) (time : Int) : Prop :=
  ∃ letter ∈ mail, letter.word = word ∧ letter.sent ≤ time

/-- No letter takes longer than the delay. -/
def Quick (delay : Int) (mail : List (Letter α)) (now : Int) : Prop :=
  ∀ letter ∈ mail, now ≤ letter.sent + delay

instance (delay : Int) (mail : List (Letter α)) (now : Int) : Decidable (Quick delay mail now) :=
  inferInstanceAs (Decidable (∀ letter ∈ mail, now ≤ letter.sent + delay))

theorem words_post (now : Int) (words : List α) : (post now words).map (·.word) = words := by
  rw [post, List.map_map]
  exact List.map_id words

theorem mem_post {now : Int} {words : List α} {letter : Letter α} :
    letter ∈ post now words ↔ letter.word ∈ words ∧ letter.sent = now := by
  rw [post, List.mem_map]
  constructor
  · rintro ⟨word, hw, rfl⟩
    exact ⟨hw, rfl⟩
  · rintro ⟨hw, rfl⟩
    exact ⟨letter.word, hw, rfl⟩

variable {mail mail' : List (Letter α)} {word : α} {time now delay : Int}

theorem OnItsWay.append (h : OnItsWay mail word time) : OnItsWay (mail ++ mail') word time := by
  obtain ⟨letter, hl, hw⟩ := h
  exact ⟨letter, List.mem_append_left _ hl, hw⟩

theorem onItsWay_post {words : List α} (h : word ∈ words) (hn : now ≤ time) :
    OnItsWay (mail ++ post now words) word time :=
  ⟨⟨word, now⟩, List.mem_append_right _ (mem_post.mpr ⟨h, rfl⟩), rfl, hn⟩

/-- A word that is not among the letters read is still in the mail. -/
theorem OnItsWay.unread {read rest : List (Letter α)} (h : OnItsWay (read ++ rest) word time) :
    (∃ letter ∈ read, letter.word = word ∧ letter.sent ≤ time) ∨ OnItsWay rest word time := by
  obtain ⟨letter, hl, hw⟩ := h
  rcases List.mem_append.mp hl with hl | hl
  · exact .inl ⟨letter, hl, hw⟩
  · exact .inr ⟨letter, hl, hw⟩

/-- What is still on its way was not sent long ago. -/
theorem OnItsWay.recent (h : OnItsWay mail word time) (quick : Quick delay mail now) :
    now ≤ time + delay := by
  obtain ⟨letter, hl, _, hsent⟩ := h
  exact Int.le_trans (quick letter hl) (Int.add_le_add_right hsent delay)

end Mail
