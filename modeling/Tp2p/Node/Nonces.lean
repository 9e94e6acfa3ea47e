import Tp2p.Model.Sandbox
import Tp2p.Node.Records

/-! Whether a node ever seals two plaintexts for one peer under one nonce. -/
namespace Tp2p
open Transition

section
variable [Sodium] {U T S : Type} [DecidableEq T] [Rmp (Message U T S)] [Subscription S T]

/-- The nonces on what a step put on the wire. -/
def Step.nonces (st : Step U T S) : List Nonce :=
  match st.result with
  | .ok actions => (sealedSends actions).map (·.2.nonce)
  | .error _ => []

theorem Step.Sends.nonce_mem {st : Step U T S} {x : Sending U T S} (h : st.Sends x) :
    x.message.id.nonce ∈ st.nonces := by
  obtain ⟨actions, as, sends, hr, _, hs, hx⟩ := h
  obtain ⟨y, hy, hseal⟩ := Attempt.exists_mem_of_mem_left hs.2 hx
  obtain ⟨b, _, hw⟩ := MessageSealed.seal_eq_ok.mp hseal.2
  simp only [Step.nonces, hr]
  exact List.mem_map.mpr ⟨y, hy, by rw [hw]⟩

/-- A nonce drawn in this step was not seen on the wire before. -/
def NoncesFresh (past : History U T S) (st : Step U T S) : Prop :=
  st.isQuery = false → ∀ n ∈ st.nonces, ∀ st' ∈ past, n ∉ st'.nonces

instance (past : History U T S) (st : Step U T S) : Decidable (NoncesFresh past st) :=
  inferInstanceAs (Decidable (_ → _))

/-- The stored messages of this step were received or sealed before. -/
def StoredSeen (past : History U T S) (st : Step U T S) : Prop :=
  ∀ w d, st.input = .receive (.sealed w) d → ∀ m ∈ d.messages,
    (∃ st' ∈ past, ∃ w' d', st'.input = .receive (.sealed w') d' ∧
      st'.pre.unwrapIncomingMessage w' = .ok m) ∨
    ∃ st' ∈ past, ∃ x, st'.Sends x ∧ x.message = m

/-- What was sealed for one peer under one nonce was one plaintext. -/
def NoncesApart (past : History U T S) : Prop :=
  ∀ st₁ ∈ past, ∀ st₂ ∈ past, ∀ x₁ x₂, st₁.Sends x₁ → st₂.Sends x₂ →
    x₁.peer.pubkey = x₂.peer.pubkey → x₁.message.id.nonce = x₂.message.id.nonce →
    serialize x₁.message = serialize x₂.message

/-- The messages that a query is answered with agree with each other, and with what was
sealed for the peer before, wherever they carry the same nonce. -/
def AnswersAgree (past : History U T S) (st : Step U T S) : Prop :=
  ∀ w d e info, st.input = .receive (.sealed w) d →
    st.pre.heard st.input = some (w.pubkeySender, e) → e.isQuery = true →
    st.pre.peers.lookup w.pubkeySender = some info →
    (∀ m ∈ st.pre.answers info d.messages, m.Serializable) →
    ∀ m ∈ st.pre.answers info d.messages,
      (∀ m' ∈ st.pre.answers info d.messages, m.id.nonce = m'.id.nonce →
        serialize m = serialize m') ∧
      ∀ st' ∈ past, ∀ x, st'.Sends x → x.peer.pubkey = w.pubkeySender →
        m.id.nonce = x.message.id.nonce → serialize m = serialize x.message

theorem AnswersAgree.of_no_query {past : History U T S} {st : Step U T S}
    (query : st.isQuery = false) : AnswersAgree past st := by
  intro w d e info _ heard hq
  cases query.symm.trans (Step.isQuery_iff.mpr ⟨_, e, heard, hq⟩)

/-- Outside the queries a call seals at most one message for each peer. -/
theorem Sync.Effect.recipient_once {s : Sync T} (hs : s.KeysOk) {call : Call U T S}
    {as : List (SyncAction T)} {sends : List (Sending U T S)} (h : Sync.Effect s call as sends)
    (query : Step.isQuery ⟨s, call⟩ = false) {x₁ x₂ : Sending U T S} (h₁ : x₁ ∈ sends)
    (h₂ : x₂ ∈ sends) (hp : x₁.peer.pubkey = x₂.peer.pubkey) : x₁ = x₂ := by
  cases h with
  | initComm => cases h₁
  | peerConfirm | init => rw [List.mem_singleton.mp h₁, List.mem_singleton.mp h₂]
  | tick =>
    obtain ⟨pk₁, info₁, known₁, _, rfl⟩ := mem_pings.mp h₁
    obtain ⟨pk₂, info₂, known₂, _, rfl⟩ := mem_pings.mp h₂
    have hpk : pk₁ = pk₂ := by
      rw [← hs.filed known₁, ← hs.filed known₂]
      exact hp
    subst hpk
    cases known₁.symm.trans known₂
    rfl
  | @event w d m _ _ opened effect =>
    have heard : s.heard (.receive (.sealed w) d) = some (w.pubkeySender, m.body) :=
      heard_eq_some.mpr ⟨w, d, m, rfl, opened, rfl, rfl⟩
    have hq : m.body.isQuery = false := by
      by_contra hq
      have : Step.isQuery ⟨s, .receive (.sealed w) d⟩ = true :=
        Step.isQuery_iff.mpr ⟨_, _, heard, by simpa using hq⟩
      cases query.symm.trans this
    generalize m.body = e at effect hq
    cases effect with
    | hello | peerInit | ping | querySubscriptions =>
      rw [List.mem_singleton.mp h₁, List.mem_singleton.mp h₂]
    | query query => cases hq.symm.trans query
    | _ => cases h₁

/-- What a query step sent are answers to its sender. -/
theorem Step.Sends.answer {st : Step U T S} (hs : st.pre.KeysOk) {x : Sending U T S}
    (h : st.Sends x) (query : st.isQuery = true) : ∃ w d e info,
      st.input = .receive (.sealed w) d ∧ st.pre.heard st.input = some (w.pubkeySender, e) ∧
      e.isQuery = true ∧ st.pre.peers.lookup w.pubkeySender = some info ∧
      (∀ m ∈ st.pre.answers info d.messages, m.Serializable) ∧
      x.message ∈ st.pre.answers info d.messages ∧ x.peer.pubkey = w.pubkeySender := by
  obtain ⟨pk, e, heard, hq⟩ := Step.isQuery_iff.mp query
  obtain ⟨actions, as, sends, hr, effect, hsplit, hx⟩ := h
  obtain ⟨w, d, info, m, hi, known, hm, rfl⟩ := effect.query heard hq hx
  obtain ⟨_, _, _, hi', opened, rfl, body⟩ := Sync.heard_eq_some.mp heard
  cases hi.symm.trans hi'
  refine ⟨w, d, e, info, hi, heard, hq, known, fun m' hm' => ?_, hm, hs.filed known⟩
  rw [hi] at effect
  have he := (effect.unique (.of_event opened body (.query hq known))).2
  exact hsplit.serializable (.relay info m') (he ▸ List.mem_map_of_mem hm')

/-- What is sealed in this step agrees with what was sealed before it. -/
theorem NoncesFresh.agree {past : History U T S} {st : Step U T S} (hs : st.pre.KeysOk)
    (fresh : NoncesFresh past st) (agree : AnswersAgree past st) {x : Sending U T S}
    (hx : st.Sends x) {st' : Step U T S} (hst : st' ∈ past) {x' : Sending U T S} (hx' : st'.Sends x')
    (hp : x.peer.pubkey = x'.peer.pubkey) (hn : x.message.id.nonce = x'.message.id.nonce) :
    serialize x.message = serialize x'.message := by
  cases query : st.isQuery with
  | true =>
    obtain ⟨w, d, e, info, hi, heard, hq, known, fits, hm, hpk⟩ := hx.answer hs query
    exact (agree w d e info hi heard hq known fits _ hm).2 st' hst x' hx' (hp.symm.trans hpk) hn
  | false =>
    have h := fresh query _ hx.nonce_mem st' hst
    rw [hn] at h
    exact absurd hx'.nonce_mem h

theorem NoncesApart.next {past : History U T S} (h : NoncesApart past) {s : Sync T} (hs : s.KeysOk)
    {call : Call U T S} (fresh : NoncesFresh past ⟨s, call⟩) (agree : AnswersAgree past ⟨s, call⟩) :
    NoncesApart (⟨s, call⟩ :: past) := by
  intro st₁ h₁ st₂ h₂ x₁ x₂ hx₁ hx₂ hp hn
  rcases List.mem_cons.mp h₁ with rfl | h₁
  · rcases List.mem_cons.mp h₂ with rfl | h₂
    · cases query : Step.isQuery ⟨s, call⟩ with
      | true =>
        obtain ⟨w, d, e, info, hi, heard, hq, known, fits, hm₁, _⟩ := hx₁.answer hs query
        obtain ⟨w', d', e', info', hi', _, _, known', _, hm₂, _⟩ := hx₂.answer hs query
        cases hi.symm.trans hi'
        cases known.symm.trans known'
        exact (agree w d e info hi heard hq known fits _ hm₁).1 _ hm₂ hn
      | false =>
        obtain ⟨_, _, _, _, effect₁, _, hmem₁⟩ := hx₁
        obtain ⟨_, _, _, _, effect₂, _, hmem₂⟩ := hx₂
        rw [← (effect₁.unique effect₂).2] at hmem₂
        rw [effect₁.recipient_once hs query hmem₁ hmem₂ hp]
    · exact fresh.agree hs agree hx₁ h₂ hx₂ hp hn
  · rcases List.mem_cons.mp h₂ with rfl | h₂
    · exact (fresh.agree hs agree hx₂ h₁ hx₁ hp.symm hn.symm).symm
    · exact h st₁ h₁ st₂ h₂ x₁ x₂ hx₁ hx₂ hp hn

theorem NoncesApart.answers {past : History U T S} {s : Sync T} (hs : s.KeysOk) {call : Call U T S}
    (h : NoncesApart (⟨s, call⟩ :: past)) : AnswersAgree past ⟨s, call⟩ := by
  rintro w d e info rfl heard hq known fits m hm
  obtain ⟨_, _, _, hi, opened, _, body⟩ := Sync.heard_eq_some.mp heard
  cases hi
  have sends : ∀ m' ∈ s.answers info d.messages,
      Step.Sends ⟨s, .receive (.sealed w) d⟩ (.relay info m') := fun m' hm' => by
    refine Step.sends_of_effect (.of_event opened body (.query hq known)) (fun x hx => ?_)
      (List.mem_map_of_mem hm')
    obtain ⟨m'', hm'', rfl⟩ := List.mem_map.mp hx
    exact fits m'' hm''
  refine ⟨fun m' hm' hn => ?_, fun st' hst x hx hp hn => ?_⟩
  · exact h _ List.mem_cons_self _ List.mem_cons_self _ _ (sends m hm) (sends m' hm') rfl hn
  · refine h _ List.mem_cons_self st' (List.mem_cons_of_mem _ hst) _ _ (sends m hm) hx ?_ hn
    exact (hs.filed known).trans hp.symm

variable {name : String} {keypair : Keypair} {config : PeeringConfig}
variable {past : History U T S} {s : Sync T}

/-- While the drawn nonces are fresh, no nonce meets two plaintexts for one peer exactly
when the answers to queries repeat no nonce of another message. -/
theorem nonces_apart_iff (run : NodeRun name keypair config past s)
    (fresh : Every NoncesFresh past) :
    Always (fun past _ => NoncesApart past) past s ↔ Every AnswersAgree past := by
  refine Run.exact_under (fun st hst => ?_) (fun _ h => h)
    (fun run h _ fresh agree => h.next (NodeRun.keysOk run) fresh agree)
    (fun run _ _ _ hn h => hn (h.answers (NodeRun.keysOk run))) run fresh
  cases hst

end

namespace Sandbox

/-- A message on the only topic, under a nonce of its author's choice. -/
def post (nonce : UInt8) (data : Bool) : Msg := ⟨⟨0, nonce⟩, [⟨(), [], 1⟩], .user data⟩

def asks (messages : List Msg) : Call Bool Unit Unit :=
  .receive (.sealed (letter bob alice (message 4 (.queryMessagesByDepth () 0))))
    (delivered 2 0 5 messages)

/-- Bob and Mallory introduce themselves, Bob subscribes, and Mallory posts twice under
one nonce. -/
def mallorysPosts : List (Call Bool Unit Unit) :=
  [.receive (.sealed (letter mallory alice (post 9 false))) (delivered 3 0 8 []),
    .receive (.sealed (letter mallory alice (post 9 true))) (delivered 3 0 7 []),
    .receive (.sealed (letter bob alice (message 3 (.subscribe [()])))) (delivered 2 0 6 []),
    .receive (.init mallory.toPubkey) (delivered 3 0 1 []),
    .receive (.init bob.toPubkey) (delivered 2 0 0 [])]

theorem mallorysPosts_fresh (messages : List Msg) : Every NoncesFresh
    (history anyone (asks messages :: mallorysPosts)) := by
  refine ⟨fun query => ?_, by decide, by decide, by decide, by decide, by decide, True.intro⟩
  cases query

/-- Handing Bob one of the two posts is harmless. -/
theorem one_post_apart : Always (fun past _ => NoncesApart past)
    (history anyone (asks [post 9 true] :: mallorysPosts))
    (after anyone (asks [post 9 true] :: mallorysPosts)) := by
  refine (nonces_apart_iff (run anyone _) (mallorysPosts_fresh _)).mpr
    ⟨?_, .of_no_query rfl, .of_no_query rfl, .of_no_query rfl, .of_no_query rfl, .of_no_query rfl,
      True.intro⟩
  rintro w d e info hi _ _ _ _ m hm
  cases hi
  cases List.mem_singleton.mp (List.mem_filter.mp hm).1
  refine ⟨fun m' hm' _ => ?_, fun st' hst x hx _ hn => ?_⟩
  · cases List.mem_singleton.mp (List.mem_filter.mp hm').1
    rfl
  · have unused : ∀ st' ∈ history anyone mallorysPosts, (post 9 true).id.nonce ∉ st'.nonces := by
      decide
    exact absurd (hn ▸ hx.nonce_mem) (unused st' hst)

/-- Handing Bob both posts seals two plaintexts for him under one nonce. -/
theorem two_posts_one_nonce : ∃ (past : History Bool Unit Unit) (s : Sync Unit),
    NodeRun "a" alice anyone past s ∧ Every NoncesFresh past ∧ Every StoredSeen past ∧
      ¬ NoncesApart past := by
  refine ⟨_, _, run anyone (asks [post 9 true, post 9 false] :: mallorysPosts),
    mallorysPosts_fresh _, ⟨?_, ?_, ?_, ?_, ?_, ?_, True.intro⟩, fun h => ?_⟩
  · intro w d hi m hm
    cases hi
    rcases List.mem_pair.mp hm with rfl | rfl
    · exact .inl ⟨_, .tail _ (.head _), _, _, rfl, by rfl⟩
    · exact .inl ⟨_, .head _, _, _, rfl, by rfl⟩
  · intro w d hi m hm
    cases hi
    cases hm
  · intro w d hi m hm
    cases hi
    cases hm
  · intro w d hi m hm
    cases hi
    cases hm
  · intro w d hi
    cases hi
  · intro w d hi
    cases hi
  · have bobInfo : (after anyone mallorysPosts).peers.lookup bob.toPubkey =
        some ⟨⟨"<tmp>", bob.toPubkey, (1, 2)⟩, connection 2, false, 0⟩ := by rfl
    have sends : ∀ m ∈ [post 9 true, post 9 false],
        Step.Sends ⟨after anyone mallorysPosts, asks [post 9 true, post 9 false]⟩
          (.relay ⟨⟨"<tmp>", bob.toPubkey, (1, 2)⟩, connection 2, false, 0⟩ m) := fun m hm => by
      refine Step.sends_of_effect (.of_event (by rfl) rfl (.query rfl bobInfo))
        (fun x _ => serializable x.message) (List.mem_map_of_mem (List.mem_filter.mpr ⟨hm, ?_⟩))
      rcases List.mem_pair.mp hm with rfl | rfl <;> decide
    have same := h _ List.mem_cons_self _ List.mem_cons_self _ _ (sends _ List.mem_cons_self)
      (sends _ (List.mem_cons_of_mem _ List.mem_cons_self)) rfl rfl
    exact absurd same (by decide)

end Sandbox
end Tp2p
