import Tp2p.Lib.Timing
import Tp2p.Network.Introduction

/-! The introduction against the clock: messages take their time, the parties ping each other, and
a party that has not heard of the other for too long would give up on it. -/
namespace Tp2p
open Transition Mail

/-- What the parties say: the handshake, and that they are still there. -/
inductive Word where
  | token (tok : Token)
  | ping
  | pong
  deriving DecidableEq

def Word.greeting : Word → Option Token
  | .token tok => some tok
  | .ping | .pong => none

/-- What is said to a ping. -/
def Word.echo : Word → List Word
  | .ping => [.pong]
  | .token _ | .pong => []

/-- The handshake in the mail of a party. -/
def greetings (mail : List (Letter Word)) : List Token := mail.filterMap (·.word.greeting)

theorem greetings_append (mail mail' : List (Letter Word)) :
    greetings (mail ++ mail') = greetings mail ++ greetings mail' :=
  List.filterMap_append

theorem mem_greetings {mail : List (Letter Word)} {tok : Token} :
    tok ∈ greetings mail ↔ ∃ letter ∈ mail, letter.word = .token tok := by
  simp only [greetings, List.mem_filterMap]
  refine exists_congr fun letter => and_congr_right fun _ => ?_
  cases letter.word <;> simp [Word.greeting]

namespace Party
variable {party party' : Party} {tok : Token} {out : List Token}

theorem react_keeps_known (h : party.react tok = some (party', out)) (known : party.status ≠ .unknown) :
    party'.status ≠ .unknown := by
  rcases react_known h with hk | ⟨rfl, _⟩
  · exact hk
  · exact known

theorem react_waits (h : party.react tok = some (party', out)) (ht : tok ≠ .hello) :
    party'.pending = party.pending := by
  cases tok with
  | init => obtain ⟨rfl, _⟩ := react_init h; rfl
  | hello => exact absurd rfl ht
  | peerInit => obtain ⟨rfl, _⟩ := react_peerInit h; rfl
  | peerConfirm => obtain ⟨rfl, _⟩ := react_peerConfirm h; rfl

/-- A `hello` is waited for, or changes nothing. -/
theorem react_idle (h : party.react .hello = some (party', out)) :
    party'.status ≠ .unknown ∨ party.pending = false ∧ party' = party ∧ out = [] := by
  rcases react_hello h with ⟨_, rfl, _⟩ | idle
  · exact .inl nofun
  · exact .inr idle

theorem react_settles (h : party.react tok = some (party', out)) :
    party'.status ≠ .unknown ∨ party.pending = false := by
  cases tok with
  | init => obtain ⟨rfl, _⟩ := react_init h; exact .inl nofun
  | hello => exact (react_idle h).imp_right And.left
  | peerInit => obtain ⟨rfl, _⟩ := react_peerInit h; exact .inl nofun
  | peerConfirm => obtain ⟨rfl, _⟩ := react_peerConfirm h; exact .inl nofun

end Party

/-! ### Both parties know each other, or are about to -/

namespace Introduction
variable {i : Introduction} {p : Side} {tok : Token} {rest out : List Token} {party : Party}

/-- Whoever knows the other is known to it, or has a `hello` on its way that the other waits for. -/
def Mutual (i : Introduction) : Prop :=
  ∀ p, (i.party p).status ≠ .unknown → (i.party p.other).status ≠ .unknown ∨
    (i.party p.other).pending = true ∧ .hello ∈ i.inbox p.other

theorem mem_of_outcome {inbox : List Token} (h : Handshake.outcome .unknown inbox = .confirmed) :
    ∃ tok ∈ inbox, tok = .peerInit ∨ tok = .peerConfirm := by
  by_contra hn
  push Not at hn
  suffices low : ∀ status, status ≠ .confirmed → (∀ tok ∈ inbox, tok ≠ .peerInit ∧ tok ≠ .peerConfirm) →
      Handshake.outcome status inbox ≠ .confirmed from low .unknown nofun hn h
  clear h hn
  induction inbox with
  | nil => exact fun status hs _ => hs
  | cons tok inbox ih =>
    intro status hs hall
    have hrest : ∀ tok ∈ inbox, tok ≠ .peerInit ∧ tok ≠ .peerConfirm :=
      fun tok ht => hall tok (List.mem_cons_of_mem _ ht)
    cases tok with
    | init => exact ih .greeted nofun hrest
    | hello => exact ih status hs hrest
    | peerInit => exact absurd rfl (hall .peerInit List.mem_cons_self).1
    | peerConfirm => exact absurd rfl (hall .peerConfirm List.mem_cons_self).2

/-- The sender of an `init` waits for the `hello`, or has had one. -/
theorem Renewing.sender (hn : Renewing i) (hs : Sound i) (h : .init ∈ i.inbox p) :
    (i.party p.other).status ≠ .unknown ∨ (i.party p.other).pending = true := by
  rcases hn p h with waiting | confirming
  · exact .inr waiting
  · obtain ⟨tok, htok, ht⟩ := mem_of_outcome confirming
    refine .inl (hs.known_of_said p.other ⟨tok, by rwa [Side.other_other], ?_⟩)
    rcases ht with rfl | rfl <;> exact nofun

theorem mutual_start : Mutual start := fun _ h => absurd rfl h

theorem Mutual.initiate (hm : Mutual i) (p : Side) : Mutual (i.initiate p) := by
  have here := hm p
  have there := hm p.other
  rw [Side.other_other] at there
  refine Side.forall_of p ?_ ?_
  · simp only [Introduction.initiate, Handshake.initiate, Handshake.move_party_self,
      Handshake.move_party_other, Handshake.move_inbox_other, List.mem_append]
    exact fun known => (here known).imp_right (And.imp_right .inl)
  · simp only [Introduction.initiate, Handshake.initiate, Side.other_other, Handshake.move_party_self,
      Handshake.move_party_other, Handshake.move_inbox_self]
    exact fun known => (there known).imp_right fun h => ⟨True.intro, h.2⟩

theorem Mutual.move (hm : Mutual i) (hs : Sound i) (hn : Renewing i) (hq : i.inbox p = tok :: rest)
    (hr : (i.party p).react tok = some (party, out)) : Mutual (i.move p party rest out) := by
  have here := hm p
  have there := hm p.other
  rw [Side.other_other, hq] at there
  have said : tok ≠ .init → (i.party p.other).status ≠ .unknown := fun ht =>
    hs.known_of_said p.other ⟨tok, by rw [Side.other_other, hq]; exact List.mem_cons_self, ht⟩
  refine Side.forall_of p ?_ ?_
  · simp only [Introduction.move, Handshake.move_party_self, Handshake.move_party_other,
      Handshake.move_inbox_other, List.mem_append]
    intro _
    cases tok with
    | init =>
      obtain ⟨_, rfl⟩ := Party.react_init hr
      have h := hn.sender hs (by rw [hq]; exact List.mem_cons_self)
      exact h.imp_right fun waiting => ⟨waiting, .inr List.mem_cons_self⟩
    | hello | peerInit | peerConfirm => exact .inl (said (by decide))
  · simp only [Introduction.move, Side.other_other, Handshake.move_party_self,
      Handshake.move_party_other, Handshake.move_inbox_self]
    intro known
    rcases there known with hk | ⟨waiting, hmem⟩
    · exact .inl (Party.react_keeps_known hr hk)
    · by_cases ht : tok = .hello
      · subst ht
        rcases Party.react_idle hr with hk | ⟨idle, _⟩
        · exact .inl hk
        · cases idle.symm.trans waiting
      · exact .inr ⟨(Party.react_waits hr ht).trans waiting,
          (List.mem_cons.mp hmem).resolve_left fun he => ht he.symm⟩

theorem Mutual.ask (hm : Mutual i) (hq : i.inbox p = .peerInit :: rest) : Mutual (i.ask p rest) := by
  have here := hm p
  have there := hm p.other
  rw [Side.other_other, hq] at there
  refine Side.forall_of p ?_ ?_
  · simpa [Introduction.ask] using here
  · simpa [Introduction.ask] using there

theorem mutual_answer (hs : Sound i) (hp : 0 < i.asked p) : Mutual (i.answer p) := by
  have known := hs.known_of_asked p hp
  refine Side.forall_of p ?_ ?_
  · exact fun _ => .inl (by simpa [Introduction.answer] using known p.other)
  · exact fun _ => .inl (by simp [Introduction.answer])

end Introduction

/-! ### Letters, and who has heard of whom when -/

/-- A party, when it last heard of the other, and since when its initiation is pending. -/
structure Lookout extends Party where
  heard : Int
  opened : Int

/-- The party initiates, if it has not yet. -/
def Lookout.waiting (lookout : Lookout) (now heard : Int) : Lookout where
  status := lookout.status
  pending := true
  heard := heard
  opened := if lookout.pending then lookout.opened else now

/-- Who is known, but has not been heard of for a minute, is pinged. -/
def Lookout.pings (lookout : Lookout) (now : Int) : List Word :=
  if lookout.status ≠ .unknown ∧ 60 * 1000000000 ≤ now - lookout.heard then [.ping] else []

/-- The party has just heard of the other, or it has not and does not know more of it than before. -/
def Lookout.Hears (lookout : Lookout) (now heard : Int) (status : Status) : Prop :=
  heard = now ∨ heard = lookout.heard ∧ (status ≠ .unknown → lookout.status ≠ .unknown)

/-- An introduction by mail: when each party last looked after the other, when the last handshake
was begun, and when a user last said yes. -/
structure Vigil where
  lookout : Side → Lookout
  mail : Side → List (Letter Word)
  asked : Side → Nat
  ticked : Side → Int
  begun : Int
  consented : Int

namespace Vigil

def start (now : Int) : Vigil where
  lookout _ := ⟨⟨.unknown, false⟩, now, now⟩
  mail _ := []
  asked _ := 0
  ticked _ := now
  begun := now
  consented := now

/-- The introduction without the pings and the clock. -/
def plain (v : Vigil) : Introduction :=
  ⟨⟨fun p => (v.lookout p).toParty, fun p => greetings (v.mail p)⟩, v.asked⟩

def Knows (v : Vigil) (p : Side) : Prop := (v.lookout p).status ≠ .unknown

/-- Party `p` has `rest` left to read, and says `out`. -/
def move (v : Vigil) (p : Side) (now : Int) (lookout : Lookout) (rest : List (Letter Word))
    (out : List Word) : Vigil :=
  { v with
    lookout := Function.update v.lookout p lookout
    mail := Function.update (Function.update v.mail p rest) p.other (v.mail p.other ++ post now out) }

def initiate (v : Vigil) (p : Side) (now heard : Int) : Vigil :=
  { v.move p now ((v.lookout p).waiting now heard) (v.mail p) [.token .init] with begun := now }

def take (v : Vigil) (p : Side) (now : Int) (party : Party) (heard : Int) (rest : List (Letter Word))
    (out : List Token) : Vigil :=
  v.move p now ⟨party, heard, (v.lookout p).opened⟩ rest (out.map .token)

def ask (v : Vigil) (p : Side) (now heard : Int) (rest : List (Letter Word)) : Vigil :=
  { v.move p now { v.lookout p with heard := heard } rest [] with
    asked := Function.update v.asked p (v.asked p + 1) }

def answer (v : Vigil) (p : Side) (now heard : Int) : Vigil :=
  { v.move p now { v.lookout p with status := .confirmed, heard := heard } (v.mail p)
      [.token .peerConfirm] with
    asked := Function.update v.asked p (v.asked p - 1)
    consented := now }

/-- Party `p` has read a ping, which it answers, or a pong. -/
def beat (v : Vigil) (p : Side) (now : Int) (word : Word) (rest : List (Letter Word)) : Vigil :=
  v.move p now { v.lookout p with heard := now } rest word.echo

/-- Party `p` looks after the other. -/
def tick (v : Vigil) (p : Side) (now : Int) : Vigil :=
  { v.move p now (v.lookout p) (v.mail p) ((v.lookout p).pings now) with
    ticked := Function.update v.ticked p now }

section
variable (v : Vigil) (p : Side) (now : Int) (lookout : Lookout) (rest : List (Letter Word))
  (out : List Word)

@[simp] theorem move_lookout_self : (v.move p now lookout rest out).lookout p = lookout :=
  Function.update_self ..

@[simp] theorem move_lookout_other :
    (v.move p now lookout rest out).lookout p.other = v.lookout p.other :=
  Function.update_of_ne (Side.other_ne p) ..

@[simp] theorem move_mail_self : (v.move p now lookout rest out).mail p = rest := by
  simp [move, Function.update_of_ne (Side.other_ne p).symm]

@[simp] theorem move_mail_other :
    (v.move p now lookout rest out).mail p.other = v.mail p.other ++ post now out :=
  Function.update_self ..

theorem plain_move : (v.move p now lookout rest out).plain =
    { v.plain with
      toHandshake := v.plain.toHandshake.move p lookout.toParty (greetings rest)
        (out.filterMap Word.greeting) } := by
  have said : greetings (post now out) = out.filterMap Word.greeting := by
    rw [greetings, post, List.filterMap_map]
    rfl
  have party : (fun q => ((v.move p now lookout rest out).lookout q).toParty) =
      Function.update v.plain.party p lookout.toParty :=
    Function.comp_update Lookout.toParty v.lookout p lookout
  have inbox : (fun q => greetings ((v.move p now lookout rest out).mail q)) =
      (v.plain.toHandshake.move p lookout.toParty (greetings rest)
        (out.filterMap Word.greeting)).inbox := by
    funext q
    revert q
    refine Side.forall_of p ?_ ?_
    · rw [move_mail_self, Handshake.move_inbox_self]
    · rw [move_mail_other, Handshake.move_inbox_other, greetings_append, said]
      rfl
  rw [plain, party, inbox]
  rfl

end

theorem filterMap_tokens (out : List Token) : (out.map Word.token).filterMap Word.greeting = out := by
  rw [List.filterMap_map]
  exact List.filterMap_some

section
variable (v : Vigil) (p : Side) (now heard : Int) (rest : List (Letter Word))

theorem plain_initiate : (v.initiate p now heard).plain = v.plain.initiate p :=
  plain_move v p now _ (v.mail p) [.token .init]

theorem plain_take (party : Party) (out : List Token) :
    (v.take p now party heard rest out).plain = v.plain.move p party (greetings rest) out := by
  rw [take, plain_move, filterMap_tokens]
  rfl

theorem plain_ask : (v.ask p now heard rest).plain = v.plain.ask p (greetings rest) :=
  congrArg (fun i : Introduction => { i with asked := Function.update v.asked p (v.asked p + 1) })
    (plain_move v p now _ rest [])

theorem plain_answer : (v.answer p now heard).plain = v.plain.answer p :=
  congrArg (fun i : Introduction => { i with asked := Function.update v.asked p (v.asked p - 1) })
    (plain_move v p now _ (v.mail p) [.token .peerConfirm])

variable {v p rest} in
/-- A letter of the handshake is what the party of the introduction reads next. -/
theorem inbox_of_token {tok : Token} {sent : Int} (hq : v.mail p = ⟨.token tok, sent⟩ :: rest) :
    v.plain.inbox p = tok :: greetings rest := by
  change greetings (v.mail p) = _
  rw [hq]
  rfl

/-- To read a ping or a pong and to send one is nothing to the introduction. -/
theorem plain_aside {lookout : Lookout} {out : List Word} (same : lookout.toParty = (v.lookout p).toParty)
    (read : greetings rest = greetings (v.mail p)) (said : out.filterMap Word.greeting = []) :
    (v.move p now lookout rest out).plain = v.plain := by
  rw [plain_move, same, read, said, Handshake.move, List.append_nil]
  have party : Function.update v.plain.party p (v.lookout p).toParty = v.plain.party :=
    Function.update_eq_self p v.plain.party
  have inbox : Function.update v.plain.inbox p (greetings (v.mail p)) = v.plain.inbox :=
    Function.update_eq_self p v.plain.inbox
  rw [party, inbox, Function.update_eq_self]

end

end Vigil
end Tp2p
