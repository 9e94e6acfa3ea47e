import Tp2p.Lib.Fleet

/-! The peering handshake between two parties that trust each other, over two reliable
queues: what each of them has to remember of the other, and why they end up peered
however many handshakes they start and however these cross. -/
namespace Tp2p
open Transition

/-- The four messages of the handshake. -/
inductive Token where
  | init
  | hello
  | peerInit
  | peerConfirm
  deriving DecidableEq

/-- What a party knows of the other. -/
inductive Status where
  | unknown
  | greeted
  | confirmed
  deriving DecidableEq

structure Party where
  status : Status
  pending : Bool
  deriving DecidableEq

namespace Party

/-- How a party takes a message, and what it says in return; an unknown party is not
confirmed. -/
def react (party : Party) : Token → Option (Party × List Token)
  | .init => some ({ party with status := .greeted }, [.hello])
  | .hello => if party.pending then some (⟨.greeted, false⟩, [.peerInit]) else some (party, [])
  | .peerInit =>
    if party.status = .unknown then none else some ({ party with status := .confirmed }, [.peerConfirm])
  | .peerConfirm =>
    if party.status = .unknown then none else some ({ party with status := .confirmed }, [])

variable {party party' : Party} {tok : Token} {out : List Token}

theorem react_init (h : party.react .init = some (party', out)) :
    party' = { party with status := .greeted } ∧ out = [.hello] := by
  cases h
  exact ⟨rfl, rfl⟩

theorem react_hello (h : party.react .hello = some (party', out)) :
    party.pending = true ∧ party' = ⟨.greeted, false⟩ ∧ out = [.peerInit] ∨
      party.pending = false ∧ party' = party ∧ out = [] := by
  simp only [react] at h
  split at h
  · next hp =>
    cases h
    exact .inl ⟨hp, rfl, rfl⟩
  · next hp =>
    cases h
    exact .inr ⟨by simpa using hp, rfl, rfl⟩

theorem react_peerInit (h : party.react .peerInit = some (party', out)) :
    party' = { party with status := .confirmed } ∧ out = [.peerConfirm] := by
  simp only [react] at h
  split at h
  · cases h
  · cases h
    exact ⟨rfl, rfl⟩

theorem react_peerConfirm (h : party.react .peerConfirm = some (party', out)) :
    party' = { party with status := .confirmed } ∧ out = [] := by
  simp only [react] at h
  split at h
  · cases h
  · cases h
    exact ⟨rfl, rfl⟩

theorem react_needs (h : party.react tok = some (party', out))
    (ht : tok = .peerInit ∨ tok = .peerConfirm) : party.status ≠ .unknown := by
  intro hs
  rcases ht with rfl | rfl <;> simp [react, hs] at h

/-- Whoever says something in return knows the other by then. -/
theorem react_known (h : party.react tok = some (party', out)) :
    party'.status ≠ .unknown ∨ party' = party ∧ out = [] := by
  cases tok with
  | init => obtain ⟨rfl, _⟩ := react_init h; exact .inl nofun
  | hello =>
    rcases react_hello h with ⟨_, rfl, _⟩ | ⟨_, rfl, ho⟩
    · exact .inl nofun
    · exact .inr ⟨rfl, ho⟩
  | peerInit => obtain ⟨rfl, _⟩ := react_peerInit h; exact .inl nofun
  | peerConfirm => obtain ⟨rfl, _⟩ := react_peerConfirm h; exact .inl nofun

/-- Only an `init` is answered without the sender knowing us. -/
theorem react_out (h : party.react tok = some (party', out))
    (ho : .peerInit ∈ out ∨ .peerConfirm ∈ out) : tok ≠ .init := by
  rintro rfl
  obtain ⟨_, rfl⟩ := react_init h
  simp at ho

/-- An initiation stays pending until its `hello` comes. -/
theorem react_pending (h : party.react tok = some (party', out)) (hp : party'.pending = true) :
    party.pending = true ∧ tok ≠ .hello := by
  cases tok with
  | init => obtain ⟨rfl, _⟩ := react_init h; exact ⟨hp, nofun⟩
  | hello =>
    rcases react_hello h with ⟨_, rfl, _⟩ | ⟨hn, rfl, _⟩
    · cases hp
    · cases hn.symm.trans hp
  | peerInit => obtain ⟨rfl, _⟩ := react_peerInit h; exact ⟨hp, nofun⟩
  | peerConfirm => obtain ⟨rfl, _⟩ := react_peerConfirm h; exact ⟨hp, nofun⟩

end Party

structure Handshake where
  party : Side → Party
  inbox : Side → List Token

namespace Handshake

def start : Handshake := ⟨fun _ => ⟨.unknown, false⟩, fun _ => []⟩

/-- Party `p` is now `party`, has `rest` left to read and has said `out`. -/
def move (h : Handshake) (p : Side) (party : Party) (rest out : List Token) : Handshake where
  party := Function.update h.party p party
  inbox := Function.update (Function.update h.inbox p rest) p.other (h.inbox p.other ++ out)

/-- Party `p` starts a handshake. -/
def initiate (h : Handshake) (p : Side) : Handshake :=
  h.move p { h.party p with pending := true } (h.inbox p) [.init]

section
variable (h : Handshake) (p : Side) (party : Party) (rest out : List Token)

@[simp] theorem move_party_self : (h.move p party rest out).party p = party :=
  Function.update_self ..

@[simp] theorem move_party_other : (h.move p party rest out).party p.other = h.party p.other :=
  Function.update_of_ne (Side.other_ne p) ..

@[simp] theorem move_inbox_self : (h.move p party rest out).inbox p = rest := by
  simp [move, Function.update_of_ne (Side.other_ne p).symm]

@[simp] theorem move_inbox_other :
    (h.move p party rest out).inbox p.other = h.inbox p.other ++ out :=
  Function.update_self ..

end

/-- Whoever has something to say knows the other, and a pending initiation is on its way. -/
structure Sound (h : Handshake) : Prop where
  known_of_said : ∀ p, (∃ tok ∈ h.inbox p.other, tok ≠ .init) → (h.party p).status ≠ .unknown
  known_of_heard : ∀ p, .peerInit ∈ h.inbox p ∨ .peerConfirm ∈ h.inbox p →
    (h.party p).status ≠ .unknown
  answered : ∀ p, (h.party p).pending = true → .init ∈ h.inbox p.other ∨ .hello ∈ h.inbox p

/-- What the messages on their way will make of a party, short of a `hello` it waits for. -/
def outcome (status : Status) (inbox : List Token) : Status :=
  inbox.foldl (fun status tok => match tok with
    | .init => .greeted
    | .hello => status
    | .peerInit | .peerConfirm => .confirmed) status

/-- Every party that is not going to end up confirmed has something ahead that will confirm it. -/
def Converging (h : Handshake) : Prop :=
  ∀ p, outcome (h.party p).status (h.inbox p) = .confirmed ∨ (h.party p).pending = true ∨
    (h.party p.other).pending = true ∨ .peerInit ∈ h.inbox p.other

theorem outcome_append (status : Status) (inbox : List Token) (tok : Token) :
    outcome status (inbox ++ [tok]) = outcome (outcome status inbox) [tok] :=
  List.foldl_append

theorem sound_start : Sound start := by
  refine ⟨?_, ?_, ?_⟩
  · rintro p ⟨tok, htok, _⟩
    cases htok
  · rintro p (h | h) <;> cases h
  · intro p h
    cases h

theorem Sound.initiate {h : Handshake} (hs : Sound h) (p : Side) : Sound (h.initiate p) := by
  refine ⟨Side.forall_of p ?_ ?_, Side.forall_of p ?_ ?_, Side.forall_of p ?_ ?_⟩
  · rintro ⟨tok, htok, hne⟩
    simp only [Handshake.initiate, move_inbox_other, List.mem_append, List.mem_singleton] at htok
    simp only [Handshake.initiate, move_party_self]
    exact hs.known_of_said p ⟨tok, htok.resolve_right hne, hne⟩
  · have hk := hs.known_of_said p.other
    simpa [Handshake.initiate] using hk
  · have hk := hs.known_of_heard p
    simpa [Handshake.initiate] using hk
  · have hk := hs.known_of_heard p.other
    simpa [Handshake.initiate] using hk
  · intro _
    simp [Handshake.initiate]
  · intro hp
    have hk := hs.answered p.other
    simp only [Handshake.initiate, Side.other_other, move_party_other, move_inbox_self,
      move_inbox_other, List.mem_append] at hp hk ⊢
    rcases hk hp with hk | hk
    · exact .inl hk
    · exact .inr (.inl hk)

theorem initiate_converging {h : Handshake} (p : Side) : Converging (h.initiate p) := by
  refine Side.forall_of p ?_ ?_
  · exact .inr (.inl (by simp [Handshake.initiate]))
  · exact .inr (.inr (.inl (by simp [Handshake.initiate])))

/-- Every message on its way can be taken. -/
theorem Sound.reacts {h : Handshake} (hs : Sound h) {p : Side} {tok : Token} {rest : List Token}
    (hq : h.inbox p = tok :: rest) : ∃ party out, (h.party p).react tok = some (party, out) := by
  have hk := hs.known_of_heard p
  rw [hq] at hk
  cases tok with
  | init => exact ⟨_, _, rfl⟩
  | hello =>
    simp only [Party.react]
    split <;> exact ⟨_, _, rfl⟩
  | peerInit => exact ⟨_, _, if_neg (hk (.inl List.mem_cons_self))⟩
  | peerConfirm => exact ⟨_, _, if_neg (hk (.inr List.mem_cons_self))⟩

section
variable {h : Handshake} {p : Side} {tok : Token} {rest out : List Token} {party : Party}

theorem Sound.said_of_deliver (hs : Sound h) (hq : h.inbox p = tok :: rest)
    (hr : (h.party p).react tok = some (party, out)) (q : Side)
    (said : ∃ tok' ∈ (h.move p party rest out).inbox q.other, tok' ≠ .init) :
    ((h.move p party rest out).party q).status ≠ .unknown := by
  revert q
  refine Side.forall_of p ?_ ?_
  · rintro ⟨tok', htok', hne⟩
    simp only [move_inbox_other, move_party_self] at htok' ⊢
    rcases Party.react_known hr with hk | ⟨rfl, rfl⟩
    · exact hk
    · rw [List.append_nil] at htok'
      exact hs.known_of_said p ⟨tok', htok', hne⟩
  · rintro ⟨tok', htok', hne⟩
    simp only [Side.other_other, move_inbox_self, move_party_other] at htok' ⊢
    refine hs.known_of_said p.other ⟨tok', ?_, hne⟩
    rw [Side.other_other, hq]
    exact List.mem_cons_of_mem _ htok'

theorem Sound.heard_of_deliver (hs : Sound h) (hq : h.inbox p = tok :: rest)
    (hr : (h.party p).react tok = some (party, out)) (q : Side)
    (heard : .peerInit ∈ (h.move p party rest out).inbox q ∨
      .peerConfirm ∈ (h.move p party rest out).inbox q) :
    ((h.move p party rest out).party q).status ≠ .unknown := by
  have hrest : ∀ tok' ∈ rest, tok' ∈ h.inbox p := fun tok' h' => by simp [hq, h']
  revert q
  refine Side.forall_of p ?_ ?_
  · intro heard
    simp only [move_inbox_self, move_party_self] at heard ⊢
    rcases Party.react_known hr with hk | ⟨rfl, _⟩
    · exact hk
    · exact hs.known_of_heard p (heard.imp (hrest _) (hrest _))
  · intro heard
    simp only [move_inbox_other, move_party_other, List.mem_append] at heard ⊢
    by_cases ho : .peerInit ∈ out ∨ .peerConfirm ∈ out
    · -- the answer is to a message of this party, which knows whom it wrote to
      refine hs.known_of_said p.other ⟨tok, ?_, Party.react_out hr ho⟩
      rw [Side.other_other, hq]
      exact List.mem_cons_self
    · have old : .peerInit ∈ h.inbox p.other ∨ .peerConfirm ∈ h.inbox p.other := by tauto
      exact hs.known_of_heard p.other old

theorem Sound.answered_of_deliver (hs : Sound h) (hq : h.inbox p = tok :: rest)
    (hr : (h.party p).react tok = some (party, out)) (q : Side)
    (waiting : ((h.move p party rest out).party q).pending = true) :
    .init ∈ (h.move p party rest out).inbox q.other ∨
      .hello ∈ (h.move p party rest out).inbox q := by
  revert q
  refine Side.forall_of p ?_ ?_
  · intro waiting
    simp only [move_inbox_other, move_inbox_self, move_party_self, List.mem_append] at waiting ⊢
    obtain ⟨waiting, hne⟩ := Party.react_pending hr waiting
    rcases hs.answered p waiting with ha | ha
    · exact .inl (.inl ha)
    · rw [hq] at ha
      exact .inr ((List.mem_cons.mp ha).resolve_left fun he => hne he.symm)
  · intro waiting
    have ha := hs.answered p.other
    simp only [Side.other_other, move_inbox_other, move_inbox_self, move_party_other,
      List.mem_append] at waiting ha ⊢
    rcases ha waiting with ha | ha
    · rw [hq] at ha
      rcases List.mem_cons.mp ha with rfl | ha
      · obtain ⟨_, rfl⟩ := Party.react_init hr
        exact .inr (.inr List.mem_cons_self)
      · exact .inl ha
    · exact .inr (.inl ha)

theorem Sound.deliver (hs : Sound h) (hq : h.inbox p = tok :: rest)
    (hr : (h.party p).react tok = some (party, out)) : Sound (h.move p party rest out) :=
  ⟨hs.said_of_deliver hq hr, hs.heard_of_deliver hq hr, hs.answered_of_deliver hq hr⟩

end

/-- Whatever undoes a confirmation leaves something on its way that renews it. -/
theorem Converging.deliver {h : Handshake} (hc : Converging h) {p : Side} {tok : Token}
    {rest out : List Token} {party : Party} (hq : h.inbox p = tok :: rest)
    (hr : (h.party p).react tok = some (party, out)) : Converging (h.move p party rest out) := by
  have here := hc p
  have there := hc p.other
  rw [hq] at here
  rw [Side.other_other, hq] at there
  refine Side.forall_of p ?_ ?_
  · simp only [move_party_self, move_inbox_self, move_party_other, move_inbox_other, List.mem_append]
    cases tok with
    | init =>
      obtain ⟨rfl, _⟩ := Party.react_init hr
      exact here.imp_right (Or.imp_right (Or.imp_right .inl))
    | hello =>
      rcases Party.react_hello hr with ⟨_, _, rfl⟩ | ⟨_, rfl, _⟩
      · exact .inr (.inr (.inr (.inr List.mem_cons_self)))
      · exact here.imp_right (Or.imp_right (Or.imp_right .inl))
    | peerInit =>
      obtain ⟨rfl, _⟩ := Party.react_peerInit hr
      exact here.imp_right (Or.imp_right (Or.imp_right .inl))
    | peerConfirm =>
      obtain ⟨rfl, _⟩ := Party.react_peerConfirm hr
      exact here.imp_right (Or.imp_right (Or.imp_right .inl))
  · simp only [Side.other_other, move_party_self, move_inbox_self, move_party_other,
      move_inbox_other]
    cases tok with
    | init =>
      obtain ⟨rfl, rfl⟩ := Party.react_init hr
      rw [outcome_append]
      simpa [outcome] using there
    | hello =>
      rcases Party.react_hello hr with ⟨_, _, rfl⟩ | ⟨_, rfl, rfl⟩
      · rw [outcome_append]
        exact .inl rfl
      · rw [List.append_nil]
        simpa using there
    | peerInit =>
      obtain ⟨_, rfl⟩ := Party.react_peerInit hr
      rw [outcome_append]
      exact .inl rfl
    | peerConfirm =>
      obtain ⟨rfl, rfl⟩ := Party.react_peerConfirm hr
      rw [List.append_nil]
      simpa using there

/-- Once nothing is on its way any more, both parties are confirmed and wait for nothing. -/
theorem confirmed_of_quiet {h : Handshake} (hs : Sound h) (hc : Converging h)
    (quiet : ∀ p, h.inbox p = []) (p : Side) :
    (h.party p).status = .confirmed ∧ (h.party p).pending = false := by
  have settled : ∀ q, (h.party q).pending = false := by
    intro q
    by_contra hq
    rcases hs.answered q (by simpa using hq) with ha | ha
    · rw [quiet] at ha
      cases ha
    · rw [quiet] at ha
      cases ha
  refine ⟨?_, settled p⟩
  have h := hc p
  rw [quiet, quiet, settled, settled] at h
  simpa [outcome] using h

end Handshake
end Tp2p
