import Tp2p.Network.Mesh

/-! Two nodes among any number of others. Of what goes on they see a handshake between the two of
them, so it ends as it does when they are alone. -/
namespace Tp2p
open Transition

section
variable [Sodium] {N U T S : Type} [DecidableEq T] [Rmp (Message U T S)] [Subscription S T]
variable {mesh : Mesh N}

/-- Two nodes of the mesh that let each other in. -/
def Mesh.link (mesh : Mesh N) (ends : Side → N)
    (trusts : ∀ e, (mesh.config (ends e)).canConfirm (mesh.pubkey (ends e.other)) = some true) : Link where
  name e := mesh.name (ends e)
  keypair e := mesh.keypair (ends e)
  config e := mesh.config (ends e)
  address e := mesh.address (ends e)
  matching e := mesh.matching (ends e)
  trusts := trusts

/-- Two nodes alone, and the same two in the mesh: they hold the same about each other, and the
same is on its way between them. -/
structure Shows (mesh : Mesh N) (ends : Side → N) (net' : Net T) (net : MeshNet N T) : Prop where
  node : ∀ e, Sync.SameView (mesh.pubkey (ends e.other)) (mesh.reaches (ends e.other))
    (net'.node e) (net.node (ends e))
  inbox : ∀ e, net'.inbox e = net.inbox (ends e) (ends e.other)

variable {ends : Side → N} {net' : Net T} {net : MeshNet N T} {e : Side} {call : Call U T S}

namespace Shows
variable [DecidableEq N]

omit [DecidableEq N] in
theorem start (mesh : Mesh N) (ends : Side → N)
    (trusts : ∀ e, (mesh.config (ends e)).canConfirm (mesh.pubkey (ends e.other)) = some true) :
    Shows mesh ends ((mesh.link ends trusts).start T) (mesh.start T) :=
  ⟨fun _ => .refl .., fun _ => rfl⟩

/-- A call that is about neither of the two leaves everything between them as it is. -/
theorem skip (h : Shows mesh ends net' net) (tidy : mesh.Tidy U S net) {n : N}
    (separate : mesh.Separates call)
    (apart : ∀ e, ends e = n → call.concerns (mesh.pubkey (ends e.other)) (mesh.reaches (ends e.other)) = false) :
    Shows mesh ends net' (mesh.perform net n call) where
  node e := by
    rw [Mesh.perform_node]
    by_cases hn : ends e = n
    · have hview := (h.node e).symm
      rw [hn, Function.update_self]
      rw [hn] at hview
      exact (hview.skip (tidy.keysOk n) (separate _) (apart e hn)).symm
    · rw [Function.update_of_ne hn]
      exact h.node e
  inbox e := by
    by_cases hn : ends e.other = n
    · have unsaid := apart e.other hn
      rw [Side.other_other] at unsaid
      rw [h.inbox e, hn]
      rcases Attempt.ok_or_error ((net.node n).exec call) with ⟨actions, ha⟩ | ⟨err, he⟩
      · rw [Mesh.perform_inbox ha, tidy.nothing_sent ha separate unsaid, List.append_nil]
      · rw [Mesh.perform, he]
    · rw [Mesh.perform_inbox_of_ne net call _ hn]
      exact h.inbox e

/-- A call that comes to the same with both is made by both. -/
theorem perform (h : Shows mesh ends net' net) (distinct : Function.Injective ends)
    (trusts : ∀ e, (mesh.config (ends e)).canConfirm (mesh.pubkey (ends e.other)) = some true)
    (hexec : (net.node (ends e)).exec call = (net'.node e).exec call) :
    Shows mesh ends ((mesh.link ends trusts).perform net' e call) (mesh.perform net (ends e) call) := by
  have hne : ends e.other ≠ ends e := fun he => Side.other_ne e (distinct he)
  rcases Attempt.ok_or_error ((net'.node e).exec call) with ⟨actions, ha⟩ | ⟨err, he⟩
  · have ha' := hexec.trans ha
    refine ⟨Side.forall_of e ?_ ?_, Side.forall_of e ?_ ?_⟩
    · rw [Mesh.perform_node, Link.perform, ha, Function.update_self, Sync.next_ok ha']
      simp only [Function.update_self]
      exact (h.node e).applySyncActions _
    · rw [Mesh.perform_node, Link.perform, ha, Function.update_of_ne hne]
      simp only [Function.update_of_ne (Side.other_ne e)]
      exact h.node e.other
    · rw [Mesh.perform_inbox_of_ne net call _ hne, Link.perform, ha]
      simp only [Function.update_of_ne (Side.other_ne e).symm]
      exact h.inbox e
    · have inbox := h.inbox e.other
      rw [Side.other_other] at inbox ⊢
      rw [Mesh.perform_inbox ha', Link.perform, ha]
      simp only [Function.update_self]
      rw [inbox]
      rfl
  · rw [Link.perform, he, Mesh.perform, hexec.trans he]
    exact h

/-- The oldest message between the two is taken by both. -/
theorem pop (h : Shows mesh ends net' net) (distinct : Function.Injective ends)
    (rest : List MessageWrapped) :
    Shows mesh ends { net' with inbox := Function.update net'.inbox e rest }
      (net.setInbox (ends e) (ends e.other) rest) where
  node := h.node
  inbox := by
    refine Side.forall_of e ?_ ?_
    · simp [MeshNet.setInbox]
    · have hne : ends e.other ≠ ends e := fun he => Side.other_ne e (distinct he)
      simp [MeshNet.setInbox, hne, Function.update_of_ne (Side.other_ne e), h.inbox]

/-- Messages of others are not seen. -/
theorem setInbox_of_ne (h : Shows mesh ends net' net) {n m : N} (hne : ∀ e, ends e = n → ends e.other ≠ m)
    (rest : List MessageWrapped) : Shows mesh ends net' (net.setInbox n m rest) where
  node := h.node
  inbox e := by
    rw [h.inbox, MeshNet.setInbox]
    exact (if_neg fun hnm => hne e hnm.1 hnm.2).symm

end Shows

/-- The step is of one of the two nodes, and about the other. -/
def Between (ends : Side → N) (st : Taken (MeshNet N T) (Mesh.Move mesh U T S)) : Prop :=
  ∃ e, st.input.pair = some (ends e, ends e.other)

/-- The two nodes have nothing to do with each other in this step but the handshake: what their
applications send is not for the other, and what is called on them is not about it. A tick is about
everybody. -/
def Undisturbed (ends : Side → N) (st : Taken (MeshNet N T) (Mesh.Move mesh U T S)) : Prop :=
  match st.input with
  | .initComm .. | .deliver .. => True
  | .post n m .. => ∀ e, ends e = n → ends e.other ≠ m
  | .other n call _ => ∀ e, ends e = n →
    call.concerns (mesh.pubkey (ends e.other)) (mesh.reaches (ends e.other)) = false

/-- A run of the mesh, and the run of the two nodes that is seen in it. -/
structure Projected [DecidableEq N] (mesh : Mesh N) (ends : Side → N) {link : Link}
    (past : List (Taken (MeshNet N T) (Mesh.Move mesh U T S)))
    (past' : List (Taken (Net T) (Link.Move link U T S))) (net : MeshNet N T) (net' : Net T) : Prop where
  shows : Shows mesh ends net' net
  succeeded : ∀ st ∈ past, Between ends st → mesh.Succeeds st
  initiated : (∃ st ∈ past, Between ends st ∧ st.input.initiates = true) →
    ∃ st ∈ past', st.input.initiates = true

namespace Projected
variable [DecidableEq N] {link : Link} {move : Mesh.Move mesh U T S}
variable {past : List (Taken (MeshNet N T) (Mesh.Move mesh U T S))}
variable {past' : List (Taken (Net T) (Link.Move link U T S))}

/-- The two nodes do nothing while the mesh makes a step. -/
theorem skip (h : Projected mesh ends past past' net net') {next : MeshNet N T}
    (hnext : Shows mesh ends net' next)
    (idle : Between ends ⟨net, move⟩ → mesh.Succeeds ⟨net, move⟩ ∧ move.initiates = false) :
    Projected mesh ends (⟨net, move⟩ :: past) past' next net' where
  shows := hnext
  succeeded st hst between := by
    rcases List.mem_cons.mp hst with rfl | hst
    · exact (idle between).1
    · exact h.succeeded st hst between
  initiated := by
    rintro ⟨st, hst, between, initiates⟩
    rcases List.mem_cons.mp hst with rfl | hst
    · cases (idle between).2.symm.trans initiates
    · exact h.initiated ⟨st, hst, between, initiates⟩

theorem step (h : Projected mesh ends past past' net net') {move' : Link.Move link U T S}
    {next : MeshNet N T} {next' : Net T} (hnext : Shows mesh ends next' next)
    (succeeds : mesh.Succeeds ⟨net, move⟩) (initiates : move.initiates = true → move'.initiates = true) :
    Projected mesh ends (⟨net, move⟩ :: past) (⟨net', move'⟩ :: past') next next' where
  shows := hnext
  succeeded st hst between := by
    rcases List.mem_cons.mp hst with rfl | hst
    · exact succeeds
    · exact h.succeeded st hst between
  initiated := by
    rintro ⟨st, hst, between, hi⟩
    rcases List.mem_cons.mp hst with rfl | hst
    · exact ⟨_, List.mem_cons_self, initiates hi⟩
    · obtain ⟨st', hst', hi'⟩ := h.initiated ⟨st, hst, between, hi⟩
      exact ⟨st', List.mem_cons_of_mem _ hst', hi'⟩

theorem start (mesh : Mesh N) (ends : Side → N)
    (trusts : ∀ e, (mesh.config (ends e)).canConfirm (mesh.pubkey (ends e.other)) = some true) :
    Projected mesh ends ([] : List (Taken _ (Mesh.Move mesh U T S)))
      ([] : List (Taken _ (Link.Move (mesh.link ends trusts) U T S))) (mesh.start T)
      ((mesh.link ends trusts).start T) where
  shows := .start mesh ends trusts
  succeeded st hst := by cases hst
  initiated := by
    rintro ⟨st, hst, _⟩
    cases hst

section
variable {trusts : ∀ e, (mesh.config (ends e)).canConfirm (mesh.pubkey (ends e.other)) = some true}
variable {past' : List (Taken (Net T) (Link.Move (mesh.link ends trusts) U T S))}

theorem initComm (h : Projected mesh ends past past' net net') (distinct : Function.Injective ends)
    {addr : String} (now : DateTime) (reaches : ConnectionInfo.new addr = .ok (mesh.address (ends e.other))) :
    Projected mesh ends (⟨net, .initComm (ends e) (ends e.other) addr now reaches⟩ :: past)
      (⟨net', .initComm e addr now reaches⟩ :: past')
      (mesh.next net (.initComm (ends e) (ends e.other) addr now reaches : Mesh.Move mesh U T S))
      ((mesh.link ends trusts).next net' (.initComm e addr now reaches : Link.Move _ U T S)) := by
  have hexec : (net.node (ends e)).exec (.initComm addr now : Call U T S) =
      (net'.node e).exec (.initComm addr now) := by
    simp only [Sync.exec, Sync.initComm, (h.shows.node e).self.keypair]
  refine h.step (h.shows.perform distinct trusts hexec) ?_ fun _ => rfl
  intro n call hcall
  cases hcall
  exact ⟨_, Sync.exec_initComm now reaches⟩

theorem deliver (laws : BoxLaws) (codec : Rmp.RoundTrip (Message U T S))
    (total : ∀ m : Message U T S, m.Serializable) (h : Projected mesh ends past past' net net')
    (run' : Run (mesh.link ends trusts).next ((mesh.link ends trusts).start T) past' net')
    (tidy : mesh.Tidy U S net) (distinct : Function.Injective ends) {message : MessageWrapped}
    {rest : List MessageWrapped} (hq : net.inbox (ends e) (ends e.other) = message :: rest) {d : Delivery U T S}
    (via : d.connectionInfo = mesh.address (ends e.other)) :
    Projected mesh ends (⟨net, .deliver (ends e) (ends e.other) d via⟩ :: past)
      (⟨net', .deliver e d via⟩ :: past')
      (mesh.next net (.deliver (ends e) (ends e.other) d via : Mesh.Move mesh U T S))
      ((mesh.link ends trusts).next net' (.deliver e d via : Link.Move _ U T S)) := by
  have hq' : net'.inbox e = message :: rest := (h.shows.inbox e).trans hq
  have hexec : (net.node (ends e)).exec (.receive message d) = (net'.node e).exec (.receive message d) := by
    obtain ⟨⟨hs, hn, _, _⟩, _⟩ := Handshaking.of_run laws codec total run'
    have hin := hn.inbox e
    rw [hq', List.forall₂_cons_right_iff] at hin
    obtain ⟨tok, _, hm, _, _⟩ := hin
    have sender := tidy.sender _ _ message (by rw [hq]; exact List.mem_cons_self)
    refine (h.shows.node e).receive (hn.node e).keys sender (decide_eq_true via) fun heard => ?_
    -- no query is on its way
    have body := ((hn.node e).heard hm heard).2
    cases tok <;> cases body
  refine h.step ?_ ?_ nofun
  · simp only [Mesh.next, hq, Link.next, hq']
    exact (h.shows.pop distinct rest).perform distinct trusts hexec
  · intro n call hcall
    simp only [Mesh.call, hq, List.head?_cons, Option.map_some, Option.some.injEq,
      Prod.mk.injEq] at hcall
    obtain ⟨rfl, rfl⟩ := hcall
    have succeeded := (Handshaking.of_run laws codec total
      (run'.step (.deliver e d via))).succeeded _ List.mem_cons_self
    rw [hexec]
    exact succeeded e _ (by simp [Link.call, hq'])

/-- Two nodes that are not both of the two have nothing to do with them. -/
theorem apart (h : Projected mesh ends past past' net net') (tidy : mesh.Tidy U S net) {n m : N}
    (apart : ∀ e, ends e = n → ends e.other ≠ m) (hpair : move.pair = some (n, m)) :
    Projected mesh ends (⟨net, move⟩ :: past) past' (mesh.next net move) net' := by
  have idle : ¬ Between ends ⟨net, move⟩ := by
    rintro ⟨e, he⟩
    cases hpair.symm.trans he
    exact apart e rfl rfl
  have foreign : ∀ e, ends e = n → mesh.reaches (ends e.other) (mesh.address m) = false :=
    fun e hn => decide_eq_false fun hm => apart e hn (mesh.addresses hm).symm
  refine h.skip ?_ fun between => absurd between idle
  cases move with
  | initComm n m addr now reaches =>
    cases hpair
    refine h.shows.skip tidy (fun _ => True.intro) fun e hn => ?_
    rw [Sync.concerns_initComm reaches]
    exact foreign e hn
  | deliver n m d via =>
    cases hpair
    cases hq : net.inbox n m with
    | nil => simpa only [Mesh.next, hq] using h.shows
    | cons message rest =>
      simp only [Mesh.next, hq]
      refine (h.shows.setInbox_of_ne apart rest).skip (tidy.pop hq) (tidy.separates hq via) fun e hn => ?_
      apply decide_eq_false
      intro hpk
      have sender := tidy.sender n m message (by rw [hq]; exact List.mem_cons_self)
      exact apart e hn (mesh.keys (hpk.symm.trans sender))
  | post | other => cases hpair

/-- What the two nodes have to do with each other is a step of theirs, and they see no other. -/
theorem next (laws : BoxLaws) (codec : Rmp.RoundTrip (Message U T S))
    (total : ∀ m : Message U T S, m.Serializable) (distinct : Function.Injective ends)
    (run' : Run (mesh.link ends trusts).next ((mesh.link ends trusts).start T) past' net')
    (tidy : mesh.Tidy U S net) (h : Projected mesh ends past past' net net') (move : Mesh.Move mesh U T S)
    (undisturbed : Undisturbed ends ⟨net, move⟩) :
    Projected mesh ends (⟨net, move⟩ :: past) past' (mesh.next net move) net' ∨
      ∃ move', Projected mesh ends (⟨net, move⟩ :: past) (⟨net', move'⟩ :: past') (mesh.next net move)
        ((mesh.link ends trusts).next net' move') := by
  cases move with
  | initComm n m addr now reaches =>
    by_cases pair : ∃ e, ends e = n ∧ ends e.other = m
    · obtain ⟨e, rfl, rfl⟩ := pair
      exact .inr ⟨_, h.initComm distinct now reaches⟩
    · exact .inl (h.apart tidy (fun e hn hm => pair ⟨e, hn, hm⟩) rfl)
  | deliver n m d via =>
    by_cases pair : ∃ e, ends e = n ∧ ends e.other = m
    · obtain ⟨e, rfl, rfl⟩ := pair
      cases hq : net.inbox (ends e) (ends e.other) with
      | nil =>
        have hnext : mesh.next net (.deliver (ends e) (ends e.other) d via) = net := by
          simp only [Mesh.next, hq]
        rw [hnext]
        refine .inl (h.skip h.shows fun _ => ⟨fun _ _ hcall => ?_, rfl⟩)
        simp [Mesh.call, hq] at hcall
      | cons message rest => exact .inr ⟨_, h.deliver laws codec total run' tidy distinct hq via⟩
    · exact .inl (h.apart tidy (fun e hn hm => pair ⟨e, hn, hm⟩) rfl)
  | post n m message own =>
    have unseen : ∀ e, ends e = m → ends e.other ≠ n := by
      rintro e rfl hn
      refine undisturbed e.other hn ?_
      rw [Side.other_other]
    refine .inl (h.skip (h.shows.setInbox_of_ne unseen _) ?_)
    rintro ⟨e, hpair⟩
    cases hpair
  | other n call separates =>
    refine .inl (h.skip (h.shows.skip tidy separates undisturbed) ?_)
    rintro ⟨e, hpair⟩
    cases hpair

end
end Projected

variable [DecidableEq N] {past : List (Taken (MeshNet N T) (Mesh.Move mesh U T S))}

/-- Two nodes that let each other in end up peered, whatever the others do and whoever they are, if
they do nothing else with each other: none of their handlers fails on what comes from the other, and
whenever nothing is on its way between them after one has initiated contact, each has the other as
an active peer under its own name and waits for no answer from it. -/
theorem mesh_peering_converges (laws : BoxLaws) (codec : Rmp.RoundTrip (Message U T S))
    (total : ∀ m : Message U T S, m.Serializable) (run : Run mesh.next (mesh.start T) past net)
    (undisturbed : Every (fun _ st => Undisturbed ends st) past) (distinct : Function.Injective ends)
    (trusts : ∀ e, (mesh.config (ends e)).canConfirm (mesh.pubkey (ends e.other)) = some true) :
    (∀ st ∈ past, Between ends st → mesh.Succeeds st) ∧
      ((∃ st ∈ past, Between ends st ∧ st.input.initiates = true) →
        (∀ e, net.inbox (ends e) (ends e.other) = []) → ∀ e,
          (∃ info, (net.node (ends e)).peers.lookup (mesh.pubkey (ends e.other)) = some info ∧
            info.active = true ∧ info.peer.name = mesh.name (ends e.other)) ∧
          ∀ p ∈ (net.node (ends e)).pendingPeerInit, p.connectionInfo ≠ mesh.address (ends e.other)) := by
  obtain ⟨past', net', run', h⟩ := run.simulated (Projected.start mesh ends trusts)
    (fun run run' h => h.next laws codec total distinct run' (Mesh.tidy_of_run run)) undisturbed
  refine ⟨h.succeeded, fun initiated quiet e => ?_⟩
  have quiet' : ∀ e, net'.inbox e = [] := fun e => (h.shows.inbox e).trans (quiet e)
  have handshaking := Handshaking.of_run laws codec total run'
  obtain ⟨⟨info, known, active, name⟩, pending⟩ := handshaking.peered (h.initiated initiated) quiet' e
  refine ⟨⟨info, (h.shows.node e).record.symm.trans known, active, name⟩, fun p hp hc => ?_⟩
  have hview := (h.shows.node e).pending
  rw [pending, List.filter_nil] at hview
  exact List.filter_eq_nil_iff.mp hview.symm p hp (decide_eq_true hc)

end

namespace Sandbox

inductive Guest where
  | first
  | second
  | third
  deriving DecidableEq

def Guest.number : Guest → UInt8
  | .first => 1
  | .second => 2
  | .third => 3

theorem number_injective : Function.Injective Guest.number := by
  intro a b h
  cases a <;> cases b <;> first | rfl | cases h

/-- Three nodes that let anybody in. -/
def three : Mesh Guest where
  name
    | .first => "a"
    | .second => "b"
    | .third => "c"
  keypair n := party n.number
  config _ := anyone
  address n := connection n.number.toUInt16
  matching _ := rfl
  keys a b h := number_injective (congrArg Pubkey.inner h)
  addresses := by
    intro a b h
    cases a <;> cases b <;> first | rfl | exact absurd h (by decide)

theorem stranger_separates : three.Separates (.receive (.init (party 9).toPubkey) (delivered 9 0 4 [])) := by
  intro n
  cases n <;> decide

theorem reaches_first : ConnectionInfo.new "10.0.0.1:1" = .ok (three.address .first) := by
  decide

theorem reaches_second : ConnectionInfo.new address = .ok (three.address .second) := by
  decide

theorem sent_by_first (now : DateTime) (nonce : UInt8) :
    (delivered 1 now nonce []).connectionInfo = three.address .first :=
  rfl

theorem sent_by_second (now : DateTime) (nonce : UInt8) :
    (delivered 2 now nonce []).connectionInfo = three.address .second :=
  rfl

theorem sent_by_third (now : DateTime) (nonce : UInt8) :
    (delivered 3 now nonce []).connectionInfo = three.address .third :=
  rfl

/-- The first node introduces itself to the second, while the third writes to the first and looks
after its own peers, its application asks the second what it is subscribed to, and somebody else
writes to the second. -/
def meeting : List (Mesh.Move three Bool Unit Unit) :=
  [.deliver .first .second (delivered 2 0 6 []) (sent_by_second 0 6),
    .deliver .second .first (delivered 1 0 5 []) (sent_by_first 0 5),
    .deliver .second .third (delivered 3 0 7 []) (sent_by_third 0 7),
    .post .third .second (.sealed (letter (party 3) bob (message 7 .querySubscriptions))) rfl,
    .other .third (.tick .stored 0 fun _ => 8) fun _ => True.intro,
    .other .second (.receive (.init (party 9).toPubkey) (delivered 9 0 4 [])) stranger_separates,
    .deliver .first .second (delivered 2 0 3 []) (sent_by_second 0 3),
    .initComm .third .first "10.0.0.1:1" 0 reaches_first,
    .deliver .second .first (delivered 1 0 1 []) (sent_by_first 0 1),
    .initComm .first .second address 0 reaches_second]

def firstTwo : Side → Guest
  | .left => .first
  | .right => .second

theorem first_and_second_peered : ∃ info,
    ((reach three.next (three.start Unit) meeting).node .first).peers.lookup (three.pubkey .second) = some info ∧
      info.active = true ∧ info.peer.name = "b" := by
  have distinct : Function.Injective firstTwo := by
    intro e e' he
    cases e <;> cases e' <;> first | rfl | cases he
  have trusts : ∀ e, (three.config (firstTwo e)).canConfirm (three.pubkey (firstTwo e.other)) = some true :=
    fun _ => rfl
  have undisturbed : Every (fun _ st => Undisturbed firstTwo st)
      (trail three.next (three.start Unit) meeting) := by
    refine ⟨True.intro, True.intro, True.intro, ?_, ?_, ?_, True.intro, True.intro, True.intro, True.intro,
      True.intro⟩ <;>
      · intro e
        cases e <;> decide
  have quiet : ∀ e, (reach three.next (three.start Unit) meeting).inbox (firstTwo e) (firstTwo e.other) = [] := by
    intro e
    cases e <;> rfl
  have initiated : ∃ st ∈ trail three.next (three.start Unit) meeting,
      Between firstTwo st ∧ st.input.initiates = true :=
    ⟨_, List.mem_of_mem_getLast? rfl, ⟨.left, rfl⟩, rfl⟩
  exact ((mesh_peering_converges idealBox.toBoxLaws roundTrip serializable (Run.of_inputs meeting)
    undisturbed distinct trusts).2 initiated quiet .left).1

end Sandbox
end Tp2p
