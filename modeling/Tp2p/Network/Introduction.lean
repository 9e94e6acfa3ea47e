import Tp2p.Network.Handshake

/-! The peering handshake between parties some of which ask their user before they confirm. The
user answers when it likes, and in the meantime the handshake may start over. -/
namespace Tp2p
open Transition

/-- A handshake, and how many questions each user has not answered yet. -/
structure Introduction extends Handshake where
  asked : Side → Nat

namespace Introduction

def start : Introduction := ⟨.start, fun _ => 0⟩

def initiate (i : Introduction) (p : Side) : Introduction := { i with toHandshake := i.toHandshake.initiate p }

/-- Party `p` has taken a message as parties do that need not ask. -/
def move (i : Introduction) (p : Side) (party : Party) (rest out : List Token) : Introduction :=
  { i with toHandshake := i.toHandshake.move p party rest out }

/-- Party `p` has taken a `peerInit`, and asks its user. -/
def ask (i : Introduction) (p : Side) (rest : List Token) : Introduction where
  toHandshake := i.toHandshake.move p (i.party p) rest []
  asked := Function.update i.asked p (i.asked p + 1)

/-- The user of party `p` says yes. -/
def answer (i : Introduction) (p : Side) : Introduction where
  toHandshake := i.toHandshake.move p { i.party p with status := .confirmed } (i.inbox p) [.peerConfirm]
  asked := Function.update i.asked p (i.asked p - 1)

/-- Whoever is asked about knows us, and we know it. -/
structure Sound (i : Introduction) : Prop extends Handshake.Sound i.toHandshake where
  known_of_asked : ∀ p, 0 < i.asked p → ∀ q, (i.party q).status ≠ .unknown

/-- An `init` on its way comes with something that confirms its receiver after it, or is waited
for by its sender. -/
def Renewing (i : Introduction) : Prop :=
  ∀ p, .init ∈ i.inbox p → (i.party p.other).pending = true ∨
    Handshake.outcome .unknown (i.inbox p) = .confirmed

/-- Every party that is not going to end up confirmed has something ahead that will confirm it. -/
def Converging (i : Introduction) : Prop :=
  ∀ p, Handshake.outcome (i.party p).status (i.inbox p) = .confirmed ∨ (i.party p).pending = true ∨
    (i.party p.other).pending = true ∨ .peerInit ∈ i.inbox p.other ∨ 0 < i.asked p.other ∨
    0 < i.asked p ∧ .init ∉ i.inbox p

section
variable {inbox : List Token} {status status' : Status} {tok : Token}

/-- After an `init` it does not matter what the party was. -/
theorem outcome_of_init (h : .init ∈ inbox) :
    Handshake.outcome status inbox = Handshake.outcome status' inbox := by
  induction inbox generalizing status status' with
  | nil => cases h
  | cons tok inbox ih =>
    rcases List.mem_cons.mp h with rfl | h
    · rfl
    · exact ih h

/-- Nothing but an `init` undoes a confirmation. -/
theorem outcome_of_no_init (h : .init ∉ inbox) : Handshake.outcome .confirmed inbox = .confirmed := by
  induction inbox with
  | nil => rfl
  | cons tok inbox ih =>
    have hrest : .init ∉ inbox := fun hmem => h (List.mem_cons_of_mem _ hmem)
    cases tok with
    | init => exact absurd List.mem_cons_self h
    | hello | peerInit | peerConfirm => exact ih hrest

theorem outcome_concat_hello :
    Handshake.outcome status (inbox ++ [.hello]) = Handshake.outcome status inbox :=
  Handshake.outcome_append ..

theorem outcome_concat_confirming (h : tok = .peerInit ∨ tok = .peerConfirm) :
    Handshake.outcome status (inbox ++ [tok]) = .confirmed := by
  rw [Handshake.outcome_append]
  rcases h with rfl | rfl <;> rfl

end

/-! Every step keeps what the messages and the questions presume -/

/-- A `peerInit` may be taken and left at that. -/
theorem sound_of_ignored {h : Handshake} (hs : h.Sound) {p : Side} {rest : List Token}
    (hq : h.inbox p = .peerInit :: rest) : (h.move p (h.party p) rest []).Sound := by
  have hrest : ∀ tok ∈ rest, tok ∈ h.inbox p := fun tok h' => by simp [hq, h']
  refine ⟨Side.forall_of p ?_ ?_, Side.forall_of p ?_ ?_, Side.forall_of p ?_ ?_⟩
  · have hk := hs.known_of_said p
    simpa using hk
  · rintro ⟨tok, htok, hne⟩
    simp only [Side.other_other, Handshake.move_inbox_self, Handshake.move_party_other] at htok ⊢
    exact hs.known_of_said p.other ⟨tok, by simpa using hrest tok htok, hne⟩
  · intro heard
    simp only [Handshake.move_inbox_self, Handshake.move_party_self] at heard ⊢
    exact hs.known_of_heard p (heard.imp (hrest _) (hrest _))
  · have hk := hs.known_of_heard p.other
    simpa using hk
  · have ha := hs.answered p
    simpa [hq] using ha
  · have ha := hs.answered p.other
    simpa [hq] using ha

/-- A party may confirm the other as soon as they know each other. -/
theorem sound_of_confirmed {h : Handshake} (hs : h.Sound) (known : ∀ q, (h.party q).status ≠ .unknown)
    (p : Side) : (h.move p { h.party p with status := .confirmed } (h.inbox p) [.peerConfirm]).Sound := by
  have known' : ∀ q, ((h.move p { h.party p with status := .confirmed } (h.inbox p)
      [.peerConfirm]).party q).status ≠ .unknown := by
    refine Side.forall_of p ?_ ?_
    · simp
    · simpa using known p.other
  refine ⟨fun q _ => known' q, fun q _ => known' q, Side.forall_of p ?_ ?_⟩
  · have ha := hs.answered p
    simpa using ha
  · have ha := hs.answered p.other
    simpa using ha

theorem sound_start : Sound start := ⟨Handshake.sound_start, fun _ h => absurd h (Nat.lt_irrefl 0)⟩

section
variable {i : Introduction} {p : Side} {tok : Token} {rest out : List Token} {party : Party}

theorem Sound.initiate (hs : Sound i) (p : Side) : Sound (i.initiate p) where
  toSound := hs.toSound.initiate p
  known_of_asked q hq := by
    have known := hs.known_of_asked q hq
    refine Side.forall_of p ?_ ?_
    · simpa [Introduction.initiate, Handshake.initiate] using known p
    · simpa [Introduction.initiate, Handshake.initiate] using known p.other

theorem Sound.move (hs : Sound i) (hq : i.inbox p = tok :: rest)
    (hr : (i.party p).react tok = some (party, out)) : Sound (i.move p party rest out) where
  toSound := hs.toSound.deliver hq hr
  known_of_asked q hq := by
    have known := hs.known_of_asked q hq
    refine Side.forall_of p ?_ ?_
    · simp only [Introduction.move, Handshake.move_party_self]
      rcases Party.react_known hr with hk | ⟨rfl, _⟩
      · exact hk
      · exact known p
    · simpa [Introduction.move] using known p.other

theorem Sound.ask (hs : Sound i) (hq : i.inbox p = .peerInit :: rest) : Sound (i.ask p rest) where
  toSound := sound_of_ignored hs.toSound hq
  known_of_asked _ _ := by
    refine Side.forall_of p ?_ ?_
    · simpa [Introduction.ask] using hs.known_of_heard p (.inl (by simp [hq]))
    · simpa [Introduction.ask] using hs.known_of_said p.other ⟨.peerInit, by simp [hq], nofun⟩

theorem Sound.answer (hs : Sound i) (hp : 0 < i.asked p) : Sound (i.answer p) where
  toSound := sound_of_confirmed hs.toSound (hs.known_of_asked p hp) p
  known_of_asked _ _ := by
    have known := hs.known_of_asked p hp
    refine Side.forall_of p ?_ ?_
    · simp [Introduction.answer]
    · simpa [Introduction.answer] using known p.other

/-! Every demotion that is on its way is made good for -/

theorem renewing_start : Renewing start := by
  intro p h
  cases h

theorem Renewing.initiate (hn : Renewing i) (p : Side) : Renewing (i.initiate p) := by
  refine Side.forall_of p ?_ ?_
  · simpa [Introduction.initiate, Handshake.initiate] using hn p
  · intro _
    left
    simp [Introduction.initiate, Handshake.initiate]

/-- The `init`s that are left are made good for as before. -/
theorem Renewing.left (hn : Renewing i) (hq : i.inbox p = tok :: rest) (h : .init ∈ rest) :
    (i.party p.other).pending = true ∨ Handshake.outcome .unknown rest = .confirmed := by
  have hp := hn p
  rw [hq] at hp
  refine (hp (List.mem_cons_of_mem _ h)).imp_right fun ho => ?_
  rw [← ho]
  exact outcome_of_init h

theorem Renewing.move (hn : Renewing i) (hq : i.inbox p = tok :: rest)
    (hr : (i.party p).react tok = some (party, out)) : Renewing (i.move p party rest out) := by
  have there := hn p.other
  rw [Side.other_other] at there
  refine Side.forall_of p ?_ ?_
  · simpa [Introduction.move] using hn.left hq
  · simp only [Introduction.move, Side.other_other, Handshake.move_inbox_other,
      Handshake.move_party_self]
    intro h
    cases tok with
    | init =>
      obtain ⟨rfl, rfl⟩ := Party.react_init hr
      rw [outcome_concat_hello]
      exact there (by simpa using h)
    | hello =>
      rcases Party.react_hello hr with ⟨_, _, rfl⟩ | ⟨_, rfl, rfl⟩
      · exact .inr (outcome_concat_confirming (.inl rfl))
      · rw [List.append_nil] at h ⊢
        exact there h
    | peerInit =>
      obtain ⟨_, rfl⟩ := Party.react_peerInit hr
      exact .inr (outcome_concat_confirming (.inr rfl))
    | peerConfirm =>
      obtain ⟨rfl, rfl⟩ := Party.react_peerConfirm hr
      rw [List.append_nil] at h ⊢
      exact there h

theorem Renewing.ask (hn : Renewing i) (hq : i.inbox p = .peerInit :: rest) : Renewing (i.ask p rest) := by
  refine Side.forall_of p ?_ ?_
  · simpa [Introduction.ask] using hn.left hq
  · simpa [Introduction.ask] using hn p.other

theorem Renewing.answer (hn : Renewing i) (p : Side) : Renewing (i.answer p) := by
  refine Side.forall_of p ?_ ?_
  · simpa [Introduction.answer] using hn p
  · intro _
    right
    simp only [Introduction.answer, Handshake.move_inbox_other]
    exact outcome_concat_confirming (.inr rfl)

/-! So is every confirmation that is undone -/

theorem initiate_converging (p : Side) : Converging (i.initiate p) := by
  refine Side.forall_of p ?_ ?_
  · exact .inr (.inl (by simp [Introduction.initiate, Handshake.initiate]))
  · exact .inr (.inr (.inl (by simp [Introduction.initiate, Handshake.initiate])))

theorem Converging.move (hc : Converging i) (hq : i.inbox p = tok :: rest)
    (hr : (i.party p).react tok = some (party, out)) : Converging (i.move p party rest out) := by
  have there := hc p.other
  rw [Side.other_other, hq] at there
  have here : Handshake.outcome (i.party p).status (tok :: rest) = .confirmed ∨
      (i.party p).pending = true ∨ (i.party p.other).pending = true ∨
      (.peerInit ∈ i.inbox p.other ∨ .peerInit ∈ out) ∨ 0 < i.asked p.other ∨
      0 < i.asked p ∧ .init ∉ rest := by
    have h := hc p
    rw [hq] at h
    have older : .init ∉ tok :: rest → .init ∉ rest := fun h hmem => h (List.mem_cons_of_mem _ hmem)
    exact h.imp_right (Or.imp_right (Or.imp_right (Or.imp .inl (Or.imp_right (And.imp_right older)))))
  refine Side.forall_of p ?_ ?_
  · simp only [Introduction.move, Handshake.move_party_self, Handshake.move_inbox_self,
      Handshake.move_party_other, Handshake.move_inbox_other, List.mem_append]
    cases tok with
    | init =>
      obtain ⟨rfl, _⟩ := Party.react_init hr
      exact here
    | hello =>
      rcases Party.react_hello hr with ⟨_, _, rfl⟩ | ⟨_, rfl, _⟩
      · exact .inr (.inr (.inr (.inl (.inr List.mem_cons_self))))
      · exact here
    | peerInit =>
      obtain ⟨rfl, _⟩ := Party.react_peerInit hr
      exact here
    | peerConfirm =>
      obtain ⟨rfl, _⟩ := Party.react_peerConfirm hr
      exact here
  · simp only [Introduction.move, Side.other_other, Handshake.move_party_self,
      Handshake.move_inbox_self, Handshake.move_party_other, Handshake.move_inbox_other]
    cases tok with
    | init =>
      obtain ⟨rfl, rfl⟩ := Party.react_init hr
      rw [outcome_concat_hello]
      simpa using there
    | hello =>
      rcases Party.react_hello hr with ⟨_, _, rfl⟩ | ⟨_, rfl, rfl⟩
      · exact .inl (outcome_concat_confirming (.inl rfl))
      · rw [List.append_nil]
        simpa using there
    | peerInit =>
      obtain ⟨_, rfl⟩ := Party.react_peerInit hr
      exact .inl (outcome_concat_confirming (.inr rfl))
    | peerConfirm =>
      obtain ⟨rfl, rfl⟩ := Party.react_peerConfirm hr
      rw [List.append_nil]
      simpa using there

/-- A question stands for the confirmation, unless an `init` comes in between. -/
theorem ask_converging (hn : Renewing i) (hq : i.inbox p = .peerInit :: rest) :
    Converging (i.ask p rest) := by
  refine Side.forall_of p ?_ ?_
  · by_cases h : .init ∈ rest
    · rcases hn.left hq h with waiting | confirming
      · exact .inr (.inr (.inl (by simpa [Introduction.ask] using waiting)))
      · left
        simp only [Introduction.ask, Handshake.move_inbox_self]
        exact (outcome_of_init h).trans confirming
    · exact .inr (.inr (.inr (.inr (.inr (by simpa [Introduction.ask] using h)))))
  · exact .inr (.inr (.inr (.inr (.inl (by simp [Introduction.ask])))))

theorem answer_converging (hn : Renewing i) (p : Side) : Converging (i.answer p) := by
  refine Side.forall_of p ?_ ?_
  · simp only [Introduction.answer, Handshake.move_party_self, Handshake.move_inbox_self,
      Handshake.move_party_other]
    by_cases h : .init ∈ i.inbox p
    · rcases hn p h with waiting | confirming
      · exact .inr (.inr (.inl waiting))
      · exact .inl ((outcome_of_init h).trans confirming)
    · exact .inl (outcome_of_no_init h)
  · left
    simp only [Introduction.answer, Handshake.move_inbox_other]
    exact outcome_concat_confirming (.inr rfl)

end

/-- Once nothing is on its way and no question is open, both parties are confirmed and wait for
nothing. -/
theorem confirmed_of_quiet {i : Introduction} (hs : Sound i) (hc : Converging i)
    (quiet : ∀ p, i.inbox p = []) (answered : ∀ p, i.asked p = 0) (p : Side) :
    (i.party p).status = .confirmed ∧ (i.party p).pending = false := by
  refine Handshake.confirmed_of_quiet hs.toSound (fun q => ?_) quiet p
  have hq := hc q
  rw [answered, answered] at hq
  simpa using hq

end Introduction
end Tp2p
