import Tp2p.Model.Sandbox
import Tp2p.Node.Records

/-! What a node gives to a peer that its configuration turns away. -/
namespace Tp2p
open Transition

section
variable [Sodium] {U T S : Type} [DecidableEq T] [Rmp (Message U T S)] [Subscription S T]

/-- The configuration denies `pk`, and so far nothing has overruled it: the application
has not confirmed `pk`, and no `Hello` of `pk` has been accepted. -/
structure Denied (config : PeeringConfig) (past : History U T S) (pk : Pubkey) : Prop where
  refused : config.canConfirm pk = some false
  unconfirmed : ∀ st ∈ past, ∀ name now nonce, st.input ≠ .peerConfirm pk name now nonce
  unanswered : ∀ st ∈ past, st.pre.heard st.input = some (pk, .hello) →
    ∀ a as, st.result ≠ .ok (a :: as)

theorem Denied.before {config : PeeringConfig} {past : History U T S} {st : Step U T S} {pk : Pubkey}
    (h : Denied config (st :: past) pk) : Denied config past pk :=
  ⟨h.refused, fun st' hst => h.unconfirmed st' (List.mem_cons_of_mem _ hst),
    fun st' hst => h.unanswered st' (List.mem_cons_of_mem _ hst)⟩

/-- A `Subscribe` overrules no denial. -/
theorem Denied.after_subscribe {config : PeeringConfig} {past : History U T S} {st : Step U T S}
    {pk pk' : Pubkey} {subscriptions : List S} (h : Denied config past pk)
    (heard : st.pre.heard st.input = some (pk', .subscribe subscriptions)) :
    Denied config (st :: past) pk := by
  refine ⟨h.refused, fun st' hst name now nonce hi => ?_, fun st' hst hh => ?_⟩
  · rcases List.mem_cons.mp hst with rfl | hst
    · rw [hi] at heard
      cases heard
    · exact h.unconfirmed st' hst name now nonce hi
  · rcases List.mem_cons.mp hst with rfl | hst
    · cases heard.symm.trans hh
    · exact h.unanswered st' hst hh

/-- A denied peer has no entry and was never answered with a stored message. -/
structure DeniedGetNothing (config : PeeringConfig) (past : History U T S) (s : Sync T) : Prop where
  unsubscribed : ∀ pk, Denied config past pk → ∀ t, ∀ e ∈ s.subscribers t, e.peer.pubkey ≠ pk
  unserved : ∀ pk, Denied config past pk → ∀ st ∈ past, ∀ x, st.Relays x → x.peer.pubkey ≠ pk

/-- No `Subscribe` with a valid subscription gets through the gate from a denied peer. -/
def DeniedSilent (config : PeeringConfig) (past : History U T S) (st : Step U T S) : Prop :=
  ∀ pk subscriptions, Denied config past pk →
    st.pre.heard st.input = some (pk, .subscribe subscriptions) →
    (Sync.verified subscriptions : List T) = []

theorem DeniedGetNothing.next {config : PeeringConfig} {past : History U T S} {s : Sync T}
    (hs : s.KeysOk) (h : DeniedGetNothing config past s) {call : Call U T S}
    (silent : DeniedSilent config past ⟨s, call⟩) :
    DeniedGetNothing config (⟨s, call⟩ :: past) (s.next call) := by
  constructor
  · intro pk denied t e he
    have old := h.unsubscribed pk denied.before t e
    rcases Sync.quiet_cases s call with ⟨pk', subscriptions, heard⟩ | ⟨pk', topics, heard⟩ | quiet
    · obtain ⟨info, known, _, hn⟩ := Sync.next_of_subscribe hs heard
      rw [hn] at he
      split at he
      · next ht =>
        rcases mem_addSubscriber he with he | rfl
        · exact old he
        · rintro rfl
          cases hs.filed known
          rw [silent _ _ denied.before heard] at ht
          cases ht
      · exact old he
    · obtain ⟨info, _, _, hn⟩ := Sync.next_of_unsubscribe hs heard
      rw [hn] at he
      split at he
      · exact old (mem_dropSubscriber.mp he).1
      · exact old he
    · rw [quiet.subscribers] at he
      exact old he
  · intro pk denied st hst x hx
    rcases List.mem_cons.mp hst with rfl | hst
    · obtain ⟨⟨actions, as, sends, _, effect, _, hmem⟩, hq⟩ := hx
      obtain ⟨pk', e, heard, query⟩ := Step.isQuery_iff.mp hq
      obtain ⟨w, d, info, m, rfl, known, hm, rfl⟩ := effect.query heard query hmem
      -- what is handed on was filtered by an entry of the peer itself
      obtain ⟨entry, _, subscribed⟩ := List.any_eq_true.mp (List.mem_filter.mp hm).2
      obtain ⟨e', he', hp⟩ := Sync.isPeerSubscribedToTopic_iff.mp subscribed
      rw [show (Sending.relay info m).peer = e'.peer from hp.symm]
      exact h.unsubscribed pk denied.before _ e' he'
    · exact h.unserved pk denied.before st hst x hx

theorem DeniedGetNothing.silent {config : PeeringConfig} {past : History U T S} {s : Sync T}
    (hs : s.KeysOk) {call : Call U T S}
    (h : DeniedGetNothing config (⟨s, call⟩ :: past) (s.next call)) :
    DeniedSilent config past ⟨s, call⟩ := by
  intro pk subscriptions denied heard
  obtain ⟨info, known, _, hn⟩ := Sync.next_of_subscribe hs heard
  by_contra hne
  obtain ⟨t, ht⟩ := List.exists_mem_of_ne_nil _ hne
  obtain ⟨e, he, hp⟩ := exists_mem_addSubscriber (s.subscribers t) info
  apply h.unsubscribed pk (denied.after_subscribe heard) t e
  · rw [hn, if_pos ht]
    exact he
  · rw [hp]
    exact hs.filed known

variable {name : String} {keypair : Keypair} {config : PeeringConfig}
variable {past : History U T S} {s : Sync T}

/-- Denied peers get nothing in any state of a run exactly when none of them gets a
`Subscribe` with a valid subscription through the gate. -/
theorem denied_get_nothing_iff (run : NodeRun name keypair config past s) :
    Always (DeniedGetNothing config) past s ↔ Every (DeniedSilent config) past := by
  refine Run.exact ⟨fun _ _ _ e he => ?_, fun _ _ st hst => ?_⟩ (fun _ h => h)
    (fun run h _ silent => h.next (NodeRun.keysOk run) silent)
    (fun run _ _ hn h => hn (h.silent (NodeRun.keysOk run))) run
  · cases he
  · cases hst

end

namespace Sandbox

def closed : PeeringConfig := ⟨.private [bob.toPubkey]⟩

/-- Mallory, whom nobody let in, knocks and pings. -/
def strangerKnocks : List (Call Bool Unit Unit) :=
  [.receive (.sealed (letter mallory alice (message 1 .ping))) (delivered 3 0 2 []),
    .receive (.init mallory.toPubkey) (delivered 3 0 0 [])]

theorem stranger_gets_nothing : Always (DeniedGetNothing closed)
    (history closed strangerKnocks) (after closed strangerKnocks) := by
  refine (denied_get_nothing_iff (run closed strangerKnocks)).mpr ⟨?_, ?_, True.intro⟩
  · intro pk subscriptions _ heard
    cases heard
  · intro pk subscriptions _ heard
    cases heard

def news : Msg := ⟨⟨0, 9⟩, [⟨(), [], 1⟩], .user true⟩

/-- Mallory knocks, and then subscribes and asks for what is stored. -/
def strangerSubscribes : List (Call Bool Unit Unit) :=
  [.receive (.sealed (letter mallory alice (message 1 (.subscribe [()])))) (delivered 3 0 2 []),
    .receive (.init mallory.toPubkey) (delivered 3 0 0 [])]

/-- The stranger has an entry, and its query is answered with the stored message. -/
theorem stranger_is_served : ∃ (past : History Bool Unit Unit) (s : Sync Unit),
    NodeRun "a" alice closed past s ∧ ¬ DeniedGetNothing closed past s ∧
      s.exec (.receive (.sealed (letter mallory alice (message 2 (.queryMessagesByDepth () 0))))
        (delivered 3 0 3 [news]) : Call Bool Unit Unit) =
        .ok [.messageSend (connection 3) (.sealed (letter alice mallory news))] := by
  refine ⟨_, _, run closed strangerSubscribes, fun h => ?_, by rfl⟩
  refine h.unsubscribed mallory.toPubkey ⟨by decide, ?_, ?_⟩ ()
    ⟨⟨"<tmp>", mallory.toPubkey, (1, 3)⟩, connection 3, false, 0⟩ (by decide) rfl
  · intro st hst name now nonce
    rcases List.mem_pair.mp hst with rfl | rfl <;> exact fun h => nomatch h
  · intro st hst heard
    rcases List.mem_pair.mp hst with rfl | rfl <;> cases heard

end Sandbox
end Tp2p
