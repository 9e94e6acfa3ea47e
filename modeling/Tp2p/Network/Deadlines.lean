import Tp2p.Network.Vigil

/-! Why no party gives up on the other, as long as messages are quick and the parties look after
each other, and when a handshake is done. -/
namespace Tp2p
open Transition Mail

/-- The word was sent in time, by a party that takes part in the last handshake begun or whose user
was the last to consent. -/
def Word.InTime (delay begun consented sent : Int) : Word → Prop
  | .token .init => sent ≤ begun
  | .token .hello => sent ≤ begun + delay
  | .token .peerInit => sent ≤ begun + 2 * delay
  | .token .peerConfirm => sent ≤ begun + 3 * delay ∨ sent ≤ consented
  | .ping | .pong => True

/-- No ping or pong comes before a `hello`. -/
def Heralded : List Word → Prop
  | [] => True
  | .token .hello :: _ => True
  | .token _ :: words => Heralded words
  | .ping :: _ | .pong :: _ => False

namespace Vigil

/-- Whoever waits has an `init` on its way or a `hello` coming, and not for longer than a message
takes. -/
def Waited (delay : Int) (v : Vigil) : Prop :=
  ∀ p, (v.lookout p).pending = true →
    OnItsWay (v.mail p.other) (.token .init) (v.lookout p).opened ∨
    OnItsWay (v.mail p) (.token .hello) ((v.lookout p).opened + delay)

/-- Whoever knows the other had heard of it less than a minute before it last looked, or has a
ping on its way or a pong coming. -/
def Watched (delay gap : Int) (v : Vigil) : Prop :=
  ∀ p, v.Knows p → v.ticked p < (v.lookout p).heard + 60 * 1000000000 ∨
    OnItsWay (v.mail p.other) .ping ((v.lookout p).heard + 60 * 1000000000 + gap) ∨
    OnItsWay (v.mail p) .pong ((v.lookout p).heard + 60 * 1000000000 + gap + delay)

/-- Nothing that is on its way of the handshake is older than the last one begun. -/
def Due (delay : Int) (v : Vigil) : Prop :=
  ∀ p, ∀ letter ∈ v.mail p, letter.word.InTime delay v.begun v.consented letter.sent

/-- Whoever does not know the other reads a `hello` that it waits for before any ping or pong. -/
def Ready (v : Vigil) : Prop :=
  ∀ p, v.Knows p ∨ Heralded ((v.mail p).map (·.word)) ∧
    ((∃ letter ∈ v.mail p, letter.word.greeting = none) → (v.lookout p).pending = true)

/-! What one party does to all this -/

section
variable {v : Vigil} {p : Side} {now delay gap : Int} {lookout : Lookout}
  {read rest : List (Letter Word)} {out : List Word}

/-- It is the `hello` that ends the wait. -/
theorem Waited.move (hw : v.Waited delay) (hq : v.mail p = read ++ rest)
    (here : lookout.pending = true →
      (v.lookout p).pending = true ∧ lookout.opened = (v.lookout p).opened ∧
        (∀ letter ∈ read, letter.word ≠ .token .hello) ∨
      .token .init ∈ out ∧ now ≤ lookout.opened)
    (there : ∀ letter ∈ read, letter.word = .token .init →
      .token .hello ∈ out ∧ now ≤ letter.sent + delay) :
    (v.move p now lookout rest out).Waited delay := by
  refine Side.forall_of p ?_ ?_
  · simp only [move_lookout_self, move_mail_self, move_mail_other]
    intro waiting
    rcases here waiting with ⟨waiting, same, unread⟩ | ⟨said, opened⟩
    · rw [same]
      refine (hw p waiting).imp .append fun coming => ?_
      rw [hq] at coming
      exact coming.unread.resolve_left fun ⟨letter, hl, hword, _⟩ => unread letter hl hword
    · exact .inl (onItsWay_post said opened)
  · simp only [Side.other_other, move_lookout_other, move_mail_self, move_mail_other]
    intro waiting
    have h := hw p.other waiting
    rw [Side.other_other, hq] at h
    rcases h with invited | coming
    · rcases invited.unread with ⟨letter, hl, hword, hsent⟩ | invited
      · obtain ⟨hello, quick⟩ := there letter hl hword
        exact .inr (onItsWay_post hello (Int.le_trans quick (Int.add_le_add_right hsent delay)))
      · exact .inl invited
    · exact .inr coming.append

/-- A ping is answered at once. -/
theorem Watched.move (hw : v.Watched delay gap) (hq : v.mail p = read ++ rest) (ticked : v.ticked p ≤ now)
    (here : lookout.status ≠ .unknown → lookout.heard = now ∨
      lookout.heard = (v.lookout p).heard ∧ v.Knows p ∧ ∀ letter ∈ read, letter.word ≠ .pong)
    (there : ∀ letter ∈ read, letter.word = .ping → .pong ∈ out ∧ now ≤ letter.sent + delay) :
    (v.move p now lookout rest out).Watched delay gap := by
  refine Side.forall_of p ?_ ?_
  · simp only [Knows, move_lookout_self, move_mail_self, move_mail_other]
    intro known
    rcases here known with same | ⟨same, known, unread⟩
    · left
      rw [same]
      change v.ticked p < _
      omega
    · rw [same]
      refine (hw p known).imp id (Or.imp .append fun coming => ?_)
      rw [hq] at coming
      exact coming.unread.resolve_left fun ⟨letter, hl, hword, _⟩ => unread letter hl hword
  · simp only [Knows, Side.other_other, move_lookout_other, move_mail_self, move_mail_other]
    intro known
    have h := hw p.other known
    rw [Side.other_other, hq] at h
    refine h.imp id fun h => ?_
    rcases h with pinged | coming
    · rcases pinged.unread with ⟨letter, hl, hword, hsent⟩ | pinged
      · obtain ⟨pong, quick⟩ := there letter hl hword
        exact .inr (onItsWay_post pong (Int.le_trans quick (Int.add_le_add_right hsent delay)))
      · exact .inl pinged
    · exact .inr coming.append

/-- The ping goes out before the gap is over. -/
theorem Watched.tick (hw : v.Watched delay gap) (soon : now ≤ v.ticked p + gap) :
    (v.tick p now).Watched delay gap := by
  have ticked : (v.tick p now).ticked p = now := Function.update_self ..
  have unticked : (v.tick p now).ticked p.other = v.ticked p.other :=
    Function.update_of_ne (Side.other_ne p) ..
  refine Side.forall_of p ?_ ?_
  · rw [ticked]
    simp only [Vigil.tick, Knows, move_lookout_self, move_mail_self, move_mail_other]
    intro known
    rcases hw p known with fresh | pinged | coming
    · by_cases due : 60 * 1000000000 ≤ now - (v.lookout p).heard
      · have said : .ping ∈ (v.lookout p).pings now := by
          rw [Lookout.pings, if_pos ⟨known, due⟩]
          exact List.mem_cons_self
        exact .inr (.inl (onItsWay_post said (by omega)))
      · exact .inl (by omega)
    · exact .inr (.inl pinged.append)
    · exact .inr (.inr coming)
  · rw [unticked]
    simp only [Vigil.tick, Knows, Side.other_other, move_lookout_other, move_mail_self, move_mail_other]
    intro known
    have h := hw p.other known
    rw [Side.other_other] at h
    exact h.imp id (Or.imp id .append)

theorem Due.move (hd : v.Due delay) (lookout : Lookout) (hrest : ∀ letter ∈ rest, letter ∈ v.mail p)
    (said : ∀ word ∈ out, word.InTime delay v.begun v.consented now) :
    (v.move p now lookout rest out).Due delay := by
  refine Side.forall_of p ?_ ?_
  · rw [move_mail_self]
    exact fun letter hl => hd p letter (hrest letter hl)
  · rw [move_mail_other]
    intro letter hl
    rcases List.mem_append.mp hl with hl | hl
    · exact hd p.other letter hl
    · obtain ⟨hword, rfl⟩ := mem_post.mp hl
      exact said letter.word hword

theorem Due.later (hd : v.Due delay) {begun consented : Int} (hb : v.begun ≤ begun)
    (hc : v.consented ≤ consented) : { v with begun := begun, consented := consented }.Due delay := by
  intro p letter hl
  have h := hd p letter hl
  revert h
  cases letter.word with
  | token tok => cases tok <;> simp only [Word.InTime] <;> omega
  | ping | pong => exact id

theorem heralded_of_greetings {words : List Word} (h : ∀ word ∈ words, word.greeting ≠ none) :
    Heralded words := by
  induction words with
  | nil => exact True.intro
  | cons word words ih =>
    have hrest := ih fun word hw => h word (List.mem_cons_of_mem _ hw)
    cases word with
    | token tok => cases tok <;> first | exact True.intro | exact hrest
    | ping | pong => exact absurd rfl (h _ List.mem_cons_self)

theorem heralded_append {words : List Word} (h : Heralded words)
    (hout : (∀ word ∈ out, word.greeting ≠ none) ∨ .token .hello ∈ words) : Heralded (words ++ out) := by
  induction words with
  | nil => exact heralded_of_greetings (hout.resolve_right List.not_mem_nil)
  | cons word words ih =>
    cases word with
    | token tok =>
      cases tok with
      | hello => exact True.intro
      | init | peerInit | peerConfirm =>
        refine ih h (hout.imp_right fun hmem => ?_)
        exact (List.mem_cons.mp hmem).resolve_left nofun
    | ping | pong => exact h.elim

theorem Ready.move (hr : v.Ready) (hq : v.mail p = read ++ rest)
    (keeps : v.Knows p → lookout.status ≠ .unknown)
    (here : lookout.status ≠ .unknown ∨ (v.lookout p).pending = false ∨
      read = [] ∧ ((v.lookout p).pending = true → lookout.pending = true))
    (there : (∀ word ∈ out, word.greeting ≠ none) ∨ v.Knows p.other ∨
      (v.lookout p.other).pending = true ∧ .hello ∈ greetings (v.mail p.other)) :
    (v.move p now lookout rest out).Ready := by
  refine Side.forall_of p ?_ ?_
  · simp only [Knows, move_lookout_self, move_mail_self]
    by_cases known : lookout.status ≠ .unknown
    · exact .inl known
    · obtain ⟨heralded, waits⟩ := (hr p).resolve_left fun hk => known (keeps hk)
      rcases here.resolve_left known with idle | ⟨rfl, kept⟩
      · -- nothing but the handshake is in the mail of a party that waits for nothing
        have plain : ∀ letter ∈ rest, letter.word.greeting ≠ none := by
          intro letter hl hg
          have hmem : letter ∈ v.mail p := by
            rw [hq]
            exact List.mem_append_right _ hl
          cases idle.symm.trans (waits ⟨letter, hmem, hg⟩)
        refine .inr ⟨heralded_of_greetings ?_, ?_⟩
        · intro word hw
          obtain ⟨letter, hl, rfl⟩ := List.mem_map.mp hw
          exact plain letter hl
        · rintro ⟨letter, hl, hg⟩
          exact absurd hg (plain letter hl)
      · rw [List.nil_append] at hq
        rw [← hq]
        exact .inr ⟨heralded, fun beats => kept (waits beats)⟩
  · simp only [Knows, move_lookout_other, move_mail_other]
    by_cases known : (v.lookout p.other).status ≠ .unknown
    · exact .inl known
    · obtain ⟨heralded, waits⟩ := (hr p.other).resolve_left known
      rw [List.map_append, words_post]
      right
      rcases there with tokens | hk | ⟨waiting, hello⟩
      · refine ⟨heralded_append heralded (.inl tokens), fun ⟨letter, hl, hg⟩ => ?_⟩
        rcases List.mem_append.mp hl with hl | hl
        · exact waits ⟨letter, hl, hg⟩
        · exact absurd hg (tokens letter.word (mem_post.mp hl).1)
      · exact absurd hk known
      · obtain ⟨letter, hl, hword⟩ := mem_greetings.mp hello
        refine ⟨heralded_append heralded (.inr ?_), fun _ => waiting⟩
        rw [← hword]
        exact List.mem_map_of_mem hl

end

/-! ### What every step keeps -/

/-- What holds as long as messages are quick and the parties look after each other. -/
structure Kept (delay gap : Int) (v : Vigil) : Prop where
  sound : v.plain.Sound
  renewing : v.plain.Renewing
  known : v.plain.Mutual
  ready : v.Ready
  waited : v.Waited delay
  watched : v.Watched delay gap
  due : v.Due delay

/-- At this time no letter is late, no party is late to look after the other, and nothing has
happened yet that is to come. -/
structure Prompt (delay gap : Int) (v : Vigil) (now : Int) : Prop where
  mail : ∀ p, Quick delay (v.mail p) now
  ticks : ∀ p, now ≤ v.ticked p + gap
  ticked : ∀ p, v.ticked p ≤ now
  begun : v.begun ≤ now
  consented : v.consented ≤ now

section
variable {v : Vigil} {p : Side} {now heard delay gap sent : Int} {rest : List (Letter Word)}

theorem kept_start (delay gap now : Int) : Kept delay gap (start now) where
  sound := Introduction.sound_start
  renewing := Introduction.renewing_start
  known := Introduction.mutual_start
  ready _ := .inr ⟨True.intro, fun ⟨_, hl, _⟩ => (List.not_mem_nil hl).elim⟩
  waited _ h := absurd h Bool.false_ne_true
  watched _ h := absurd rfl h
  due _ _ hl := (List.not_mem_nil hl).elim

theorem Kept.initiate (hk : Kept delay gap v) (hp : Prompt delay gap v now)
    (hheard : (v.lookout p).Hears now heard (v.lookout p).status) :
    Kept delay gap (v.initiate p now heard) where
  sound := by
    rw [plain_initiate]
    exact hk.sound.initiate p
  renewing := by
    rw [plain_initiate]
    exact hk.renewing.initiate p
  known := by
    rw [plain_initiate]
    exact hk.known.initiate p
  ready := by
    have tokens : ∀ word ∈ [Word.token .init], word.greeting ≠ none := List.forall_mem_singleton.mpr nofun
    exact hk.ready.move (List.nil_append _).symm id (.inr (.inr ⟨rfl, fun _ => rfl⟩)) (.inl tokens)
  waited := by
    refine hk.waited.move (List.nil_append _).symm (fun _ => ?_) (List.forall_mem_nil _)
    by_cases waiting : (v.lookout p).pending = true
    · exact .inl ⟨waiting, if_pos waiting, List.forall_mem_nil _⟩
    · exact .inr ⟨List.mem_cons_self, Int.le_of_eq (if_neg waiting).symm⟩
  watched := by
    refine hk.watched.move (List.nil_append _).symm (hp.ticked p) (fun known => ?_) (List.forall_mem_nil _)
    exact hheard.imp_right fun h => ⟨h.1, h.2 known, List.forall_mem_nil _⟩
  due := by
    have old := hk.due.later hp.begun (Int.le_refl v.consented)
    exact old.move _ (fun _ => id) (List.forall_mem_singleton.mpr (Int.le_refl now))

theorem Kept.take (hk : Kept delay gap v) (hp : Prompt delay gap v now) {tok : Token}
    (hq : v.mail p = ⟨.token tok, sent⟩ :: rest) {party : Party} {out : List Token}
    (hr : (v.lookout p).react tok = some (party, out))
    (hheard : (v.lookout p).Hears now heard party.status) :
    Kept delay gap (v.take p now party heard rest out) := by
  have read : v.mail p = [⟨.token tok, sent⟩] ++ rest := hq
  have inbox : v.plain.inbox p = tok :: greetings rest := inbox_of_token hq
  have head : (⟨.token tok, sent⟩ : Letter Word) ∈ v.mail p := by
    rw [hq]
    exact List.mem_cons_self
  have quick : now ≤ sent + delay := hp.mail p _ head
  constructor
  case sound =>
    rw [plain_take]
    exact hk.sound.move inbox hr
  case renewing =>
    rw [plain_take]
    exact hk.renewing.move inbox hr
  case known =>
    rw [plain_take]
    exact hk.known.move hk.sound hk.renewing inbox hr
  case ready =>
    refine hk.ready.move read (Party.react_keeps_known hr) ?_ (.inl ?_)
    · exact (Party.react_settles hr).imp_right .inl
    · exact List.forall_mem_map.mpr fun _ _ => nofun
  case waited =>
    refine hk.waited.move read (fun waiting => ?_) (List.forall_mem_singleton.mpr fun hword => ?_)
    · obtain ⟨waiting, hne⟩ := Party.react_pending hr waiting
      exact .inl ⟨waiting, rfl, List.forall_mem_singleton.mpr fun h => hne (Word.token.inj h)⟩
    · cases Word.token.inj hword
      obtain ⟨_, rfl⟩ := Party.react_init hr
      exact ⟨List.mem_cons_self, quick⟩
  case watched =>
    refine hk.watched.move read (hp.ticked p) (fun known => ?_) (List.forall_mem_singleton.mpr nofun)
    exact hheard.imp_right fun h => ⟨h.1, h.2 known, List.forall_mem_singleton.mpr nofun⟩
  case due =>
    have due : (Word.token tok).InTime delay v.begun v.consented sent := hk.due p _ head
    refine hk.due.move _ (fun letter hl => by rw [hq]; exact List.mem_cons_of_mem _ hl) ?_
    cases tok with
    | init =>
      obtain ⟨_, rfl⟩ := Party.react_init hr
      refine List.forall_mem_singleton.mpr ?_
      simp only [Word.InTime] at due ⊢
      omega
    | hello =>
      rcases Party.react_hello hr with ⟨_, _, rfl⟩ | ⟨_, _, rfl⟩
      · refine List.forall_mem_singleton.mpr ?_
        simp only [Word.InTime] at due ⊢
        omega
      · exact List.forall_mem_nil _
    | peerInit =>
      obtain ⟨_, rfl⟩ := Party.react_peerInit hr
      refine List.forall_mem_singleton.mpr ?_
      simp only [Word.InTime] at due ⊢
      omega
    | peerConfirm =>
      obtain ⟨_, rfl⟩ := Party.react_peerConfirm hr
      exact List.forall_mem_nil _

theorem Kept.ask (hk : Kept delay gap v) (hp : Prompt delay gap v now)
    (hq : v.mail p = ⟨.token .peerInit, sent⟩ :: rest)
    (hheard : (v.lookout p).Hears now heard (v.lookout p).status) :
    Kept delay gap (v.ask p now heard rest) := by
  have read : v.mail p = [⟨.token .peerInit, sent⟩] ++ rest := hq
  have inbox : v.plain.inbox p = .peerInit :: greetings rest := inbox_of_token hq
  have known : v.Knows p := hk.sound.known_of_heard p (.inl (by rw [inbox]; exact List.mem_cons_self))
  constructor
  case sound =>
    rw [plain_ask]
    exact hk.sound.ask inbox
  case renewing =>
    rw [plain_ask]
    exact hk.renewing.ask inbox
  case known =>
    rw [plain_ask]
    exact hk.known.ask inbox
  case ready => exact hk.ready.move read id (.inl known) (.inl (List.forall_mem_nil _))
  case waited =>
    refine hk.waited.move read (fun waiting => ?_) (List.forall_mem_singleton.mpr nofun)
    exact .inl ⟨waiting, rfl, List.forall_mem_singleton.mpr nofun⟩
  case watched =>
    refine hk.watched.move read (hp.ticked p) (fun known => ?_) (List.forall_mem_singleton.mpr nofun)
    exact hheard.imp_right fun h => ⟨h.1, h.2 known, List.forall_mem_singleton.mpr nofun⟩
  case due =>
    refine hk.due.move { v.lookout p with heard := heard } (fun letter hl => ?_) (List.forall_mem_nil _)
    rw [hq]
    exact List.mem_cons_of_mem _ hl

theorem Kept.answer (hk : Kept delay gap v) (hp : Prompt delay gap v now) (asked : 0 < v.asked p)
    (hheard : (v.lookout p).Hears now heard .confirmed) : Kept delay gap (v.answer p now heard) where
  sound := by
    rw [plain_answer]
    exact hk.sound.answer asked
  renewing := by
    rw [plain_answer]
    exact hk.renewing.answer p
  known := by
    rw [plain_answer]
    exact Introduction.mutual_answer hk.sound asked
  ready := by
    have tokens : ∀ word ∈ [Word.token .peerConfirm], word.greeting ≠ none :=
      List.forall_mem_singleton.mpr nofun
    exact hk.ready.move (List.nil_append _).symm (fun _ => nofun) (.inl nofun) (.inl tokens)
  waited := by
    refine hk.waited.move (List.nil_append _).symm (fun waiting => ?_) (List.forall_mem_nil _)
    exact .inl ⟨waiting, rfl, List.forall_mem_nil _⟩
  watched := by
    refine hk.watched.move (List.nil_append _).symm (hp.ticked p) (fun known => ?_) (List.forall_mem_nil _)
    exact hheard.imp_right fun h => ⟨h.1, h.2 known, List.forall_mem_nil _⟩
  due := by
    have old := hk.due.later (Int.le_refl v.begun) hp.consented
    exact old.move { v.lookout p with status := .confirmed, heard := heard } (fun _ => id)
      (List.forall_mem_singleton.mpr (.inr (Int.le_refl now)))

/-- Whoever hears a ping or a pong knows the other. -/
theorem Ready.knows (hr : v.Ready) {word : Word} (hq : v.mail p = ⟨word, sent⟩ :: rest)
    (beats : word.greeting = none) : v.Knows p := by
  refine (hr p).resolve_right fun ⟨heralded, _⟩ => ?_
  rw [hq] at heralded
  cases word with
  | token => cases beats
  | ping | pong => exact heralded

theorem plain_beat {word : Word} (hq : v.mail p = ⟨word, sent⟩ :: rest) (beats : word.greeting = none) :
    (v.beat p now word rest).plain = v.plain := by
  refine v.plain_aside p now rest rfl ?_ ?_
  · rw [hq, greetings, greetings, List.filterMap_cons]
    simp only [beats]
  · cases word <;> rfl

theorem Kept.beat (hk : Kept delay gap v) (hp : Prompt delay gap v now) {word : Word}
    (hq : v.mail p = ⟨word, sent⟩ :: rest) (beats : word.greeting = none) :
    Kept delay gap (v.beat p now word rest) := by
  have read : v.mail p = [⟨word, sent⟩] ++ rest := hq
  have quick : now ≤ sent + delay := hp.mail p ⟨word, sent⟩ (by rw [hq]; exact List.mem_cons_self)
  have known : v.Knows p := hk.ready.knows hq beats
  have unsaid : ∀ {tok}, word ≠ .token tok := by
    rintro tok rfl
    cases beats
  have plain : (v.beat p now word rest).plain = v.plain := plain_beat hq beats
  constructor
  case sound =>
    rw [plain]
    exact hk.sound
  case renewing =>
    rw [plain]
    exact hk.renewing
  case known =>
    rw [plain]
    exact hk.known
  case ready => exact hk.ready.move read id (.inl known) (.inr (hk.known p known))
  case waited =>
    refine hk.waited.move read (fun waiting => ?_) (List.forall_mem_singleton.mpr fun h => absurd h unsaid)
    exact .inl ⟨waiting, rfl, List.forall_mem_singleton.mpr unsaid⟩
  case watched =>
    refine hk.watched.move read (hp.ticked p) (fun _ => .inl rfl) (List.forall_mem_singleton.mpr ?_)
    rintro rfl
    exact ⟨List.mem_cons_self, quick⟩
  case due =>
    refine hk.due.move _ (fun letter hl => ?_) fun said hsaid => ?_
    · rw [hq]
      exact List.mem_cons_of_mem _ hl
    · cases word with
      | ping =>
        cases List.mem_singleton.mp hsaid
        exact True.intro
      | token | pong => cases hsaid

theorem mem_pings {lookout : Lookout} {word : Word} (h : word ∈ lookout.pings now) :
    word = .ping ∧ lookout.status ≠ .unknown := by
  rw [Lookout.pings] at h
  split at h
  · next due => exact ⟨List.mem_singleton.mp h, due.1⟩
  · cases h

theorem plain_tick (v : Vigil) (p : Side) (now : Int) : (v.tick p now).plain = v.plain := by
  refine v.plain_aside p now (v.mail p) rfl rfl (List.filterMap_eq_nil_iff.mpr fun word h => ?_)
  rw [(mem_pings h).1]
  rfl

theorem Kept.tick (hk : Kept delay gap v) (hp : Prompt delay gap v now) (p : Side) :
    Kept delay gap (v.tick p now) := by
  have plain : (v.tick p now).plain = v.plain := v.plain_tick p now
  constructor
  case sound =>
    rw [plain]
    exact hk.sound
  case renewing =>
    rw [plain]
    exact hk.renewing
  case known =>
    rw [plain]
    exact hk.known
  case ready =>
    refine hk.ready.move (List.nil_append _).symm id (.inr (.inr ⟨rfl, id⟩)) ?_
    by_cases known : v.Knows p
    · exact .inr (hk.known p known)
    · exact .inl fun word h => absurd (mem_pings h).2 known
  case waited =>
    refine hk.waited.move (List.nil_append _).symm (fun waiting => ?_) (List.forall_mem_nil _)
    exact .inl ⟨waiting, rfl, List.forall_mem_nil _⟩
  case watched => exact hk.watched.tick (hp.ticks p)
  case due =>
    refine hk.due.move (v.lookout p) (fun _ => id) fun word h => ?_
    rw [(mem_pings h).1]
    exact True.intro

/-! ### Nobody gives up, and what was begun is done in time -/

/-- Nobody is waited for as long as two minutes. -/
theorem Kept.not_expired (hk : Kept delay gap v) (hp : Prompt delay gap v now)
    (fits : gap + 2 * delay < 120 * 1000000000) (waiting : (v.lookout p).pending = true) :
    now < (v.lookout p).opened + 120 * 1000000000 := by
  have soon := hp.ticks p
  have past := hp.ticked p
  rcases hk.waited p waiting with invited | coming
  · have quick := invited.recent (hp.mail p.other)
    omega
  · have quick := coming.recent (hp.mail p)
    omega

/-- Nobody is silent for as long as three minutes. -/
theorem Kept.not_silent (hk : Kept delay gap v) (hp : Prompt delay gap v now) (early : 0 ≤ delay)
    (fits : gap + 2 * delay < 120 * 1000000000) (known : v.Knows p) :
    now < (v.lookout p).heard + 180 * 1000000000 := by
  have soon := hp.ticks p
  rcases hk.watched p known with fresh | pinged | coming
  · omega
  · have quick := pinged.recent (hp.mail p.other)
    omega
  · have quick := coming.recent (hp.mail p)
    omega

/-- Four messages after the last handshake began nothing of it is on its way any more. -/
theorem Kept.settled (hk : Kept delay gap v) (early : 0 ≤ delay) (quick : ∀ p, Quick delay (v.mail p) now)
    (begun : v.begun + 4 * delay < now) (consented : v.consented + delay < now) (p : Side) :
    v.plain.inbox p = [] := by
  refine List.filterMap_eq_nil_iff.mpr fun letter hl => ?_
  have late := quick p letter hl
  have due := hk.due p letter hl
  cases hw : letter.word with
  | ping | pong => rfl
  | token tok =>
    rw [hw] at due
    cases tok <;> simp only [Word.InTime] at due <;> omega

end

end Vigil
end Tp2p
