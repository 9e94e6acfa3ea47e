import Tp2p.Model.Sandbox
import Tp2p.Node.Outcomes

/-! The answers to queries: which topics a peer is told it is subscribed to, and which
stored messages it is sent. -/
namespace Tp2p
open Transition

section
variable [Sodium] {U T S : Type} [DecidableEq T]

/-- The message names one of the topics. -/
def Message.names (m : Message U T S) (topics : List T) : Bool :=
  m.topicGraph.any fun entry => entry.topic ∈ topics

namespace Sync

theorem activeTopics_nodup (s : Sync T) (peer : Peer)
    (iter : IterOrder (Sigma fun _ : T => List PeerInfo)) (keys : IterOrder T) :
    (s.activeTopics peer iter keys).Nodup :=
  (keys.perm _).nodup_iff.mpr (AList.keys_nodup _)

/-- The topics listed for a peer are the ones it is subscribed to. -/
theorem mem_activeTopics {s : Sync T} {peer : Peer}
    {iter : IterOrder (Sigma fun _ : T => List PeerInfo)} {keys : IterOrder T} {t : T} :
    t ∈ s.activeTopics peer iter keys ↔ s.isPeerSubscribedToTopic t peer = true := by
  have hc := HashMap.mem_collected (fun entries : List PeerInfo => (entries.find? (·.peer == peer)).isSome)
    (iter.arrange s.subscriptions.entries) ∅ t
  rw [activeTopics, IterOrder.mem_arrange, ← AList.mem_keys, hc, isPeerSubscribedToTopic]
  constructor
  · rintro (h | ⟨⟨t', entries⟩, he, rfl, hp⟩)
    · cases h
    · rw [IterOrder.mem_arrange, HashMap.mem_entries] at he
      rw [he]
      exact hp
  · intro h
    cases hl : s.subscriptions.lookup t with
    | none =>
      rw [hl] at h
      cases h
    | some entries =>
      rw [hl] at h
      refine .inr ⟨⟨t, entries⟩, ?_, rfl, h⟩
      rw [IterOrder.mem_arrange, HashMap.mem_entries]
      exact hl

/-- A message is for a peer exactly when it names one of the topics listed for it. -/
theorem filterMessageByPeer_eq_names (s : Sync T) (peer : Peer)
    (iter : IterOrder (Sigma fun _ : T => List PeerInfo)) (keys : IterOrder T) :
    s.filterMessageByPeer peer = fun m : Message U T S => m.names (s.activeTopics peer iter keys) := by
  funext m
  rw [filterMessageByPeer, Message.names]
  congr 1
  funext entry
  rw [Bool.eq_iff_iff, decide_eq_true_eq, mem_activeTopics]

variable [Rmp (Message U T S)] [Subscription S T]

/-- The action hands the message on to the peer, sealed for it. -/
def HandsOn (s : Sync T) (info : PeerInfo) (m : Message U T S) (a : Action U T S) : Prop :=
  ∃ w, MessageSealed.seal s.keypair.toPubkey info.peer m = .ok w ∧
    a = .messageSend info.connectionInfo (.sealed w)

/-- Both query handlers do the same on their own events. -/
theorem processEvent_query {s : Sync T} {m : Message U T S} (query : m.body.isQuery = true)
    (pk : Pubkey) (d : Delivery U T S) : s.processEvent m pk d =
      if d.messages.length = 0 then .ok [] else s.answerQuery pk d.messages := by
  cases hb : m.body with
  | queryMessagesByID ids => simp only [processEvent, processEventQueryMessagesByID, hb]
  | queryMessagesByDepth topic depth =>
    simp only [processEvent, processEventQueryMessagesByDepth, hb]
  | _ => simp [hb, Event.isQuery] at query

theorem query_answer_iff {s : Sync T} {pk : Pubkey} {info : PeerInfo}
    (known : s.peers.lookup pk = some info) {m : Message U T S} (query : m.body.isQuery = true)
    (d : Delivery U T S) (actions : List (Action U T S)) :
    s.processEvent m pk d = .ok actions ↔
      List.Forall₂ (HandsOn s info) (d.messages.filter (s.filterMessageByPeer info.peer)) actions := by
  have heach : ∀ x (a : Action U T S),
      (do let sealed ← MessageSealed.seal s.keypair.toPubkey info.peer x
          return Action.messageSend info.connectionInfo (.sealed sealed)) = .ok a ↔
        HandsOn s info x a := by
    intro x a
    rw [Attempt.bind_eq_ok]
    simp only [Attempt.pure_eq_ok, HandsOn, eq_comm (a := a)]
  rw [processEvent_query query]
  split
  · next hm =>
    rw [List.length_eq_zero_iff.mp hm, List.filter_nil, List.forall₂_nil_left_iff]
    exact ⟨fun h => by cases h; rfl, fun h => by rw [h]⟩
  · rw [answerQuery, findPeer_none, known, Attempt.okOr_some, Attempt.bind_ok, Attempt.mapM_eq_ok]
    simp only [heach]

/-- The answer to a query fails as a whole when one of its messages cannot be sealed. -/
theorem query_answered_iff {s : Sync T} {pk : Pubkey} {info : PeerInfo}
    (known : s.peers.lookup pk = some info) {m : Message U T S} (query : m.body.isQuery = true)
    (d : Delivery U T S) : (∃ actions, s.processEvent m pk d = .ok actions) ↔
      ∀ x ∈ d.messages.filter (s.filterMessageByPeer info.peer), x.Serializable := by
  constructor
  · rintro ⟨actions, h⟩ x hx
    rw [query_answer_iff known query] at h
    obtain ⟨a, _, w, hseal, _⟩ := Attempt.exists_mem_of_mem_left h hx
    obtain ⟨b, hb, _⟩ := MessageSealed.seal_eq_ok.mp hseal
    exact ⟨b, hb⟩
  · intro fits
    have each : ∀ x ∈ d.messages.filter (s.filterMessageByPeer info.peer), ∃ a : Action U T S,
        (do let sealed ← MessageSealed.seal s.keypair.toPubkey info.peer x
            return Action.messageSend info.connectionInfo (.sealed sealed)) = .ok a := by
      intro x hx
      obtain ⟨w, hseal⟩ := (fits x hx).sealed s.keypair.toPubkey info.peer
      exact ⟨_, Attempt.bind_eq_ok.mpr ⟨w, hseal, rfl⟩⟩
    obtain ⟨actions, ha⟩ := Attempt.mapM_succeeds each
    rw [processEvent_query query]
    split
    · exact ⟨[], rfl⟩
    · rw [answerQuery, findPeer_none, known, Attempt.okOr_some, Attempt.bind_ok]
      exact ⟨actions, ha⟩

/-- Tell the peer that these are the topics it is subscribed to. -/
def listTopics (s : Sync T) (info : PeerInfo) (d : Delivery U T S) (topics : List T) :
    Except Error (List (Action U T S)) := do
  let sealed ← MessageSealed.seal s.keypair.toPubkey info.peer
    (Message.new ⟨d.now, d.nonce⟩ (.activeSubscriptions topics) [] : Message U T S)
  return [.messageSend info.connectionInfo (.sealed sealed)]

theorem processEvent_querySubscriptions {s : Sync T} {pk : Pubkey} {info : PeerInfo}
    (known : s.peers.lookup pk = some info) {m : Message U T S} (body : m.body = .querySubscriptions)
    (d : Delivery U T S) :
    s.processEvent m pk d = s.listTopics info d (s.activeTopics info.peer d.iter d.keys) := by
  simp only [processEvent, processEventQuerySubscriptions, body]
  rw [findPeer_none, known, Attempt.okOr_some, Attempt.bind_ok, createSealedMessage, bind_assoc]
  simp only [pure_bind]
  rfl

omit [Subscription S T] in
theorem listTopics_eq_ok {s : Sync T} {info : PeerInfo} {d : Delivery U T S} {topics : List T}
    {actions : List (Action U T S)} : s.listTopics info d topics = .ok actions ↔
      ∃ w, MessageSealed.seal s.keypair.toPubkey info.peer
          (Message.new ⟨d.now, d.nonce⟩ (.activeSubscriptions topics) [] : Message U T S) = .ok w ∧
        actions = [.messageSend info.connectionInfo (.sealed w)] := by
  rw [listTopics, Attempt.bind_eq_ok]
  simp only [Attempt.pure_eq_ok, eq_comm (b := actions)]

omit [Subscription S T] in
theorem listTopics_succeeds_iff {s : Sync T} {info : PeerInfo} {d : Delivery U T S} {topics : List T} :
    (∃ actions, s.listTopics info d topics = .ok actions) ↔
      (Message.new ⟨d.now, d.nonce⟩ (.activeSubscriptions topics) [] : Message U T S).Serializable := by
  simp only [listTopics_eq_ok]
  constructor
  · rintro ⟨_, w, hseal, _⟩
    obtain ⟨b, hb, _⟩ := MessageSealed.seal_eq_ok.mp hseal
    exact ⟨b, hb⟩
  · intro fits
    obtain ⟨w, hseal⟩ := fits.sealed s.keypair.toPubkey info.peer
    exact ⟨_, w, hseal, rfl⟩

/-- The topics a known peer is told it is subscribed to are the ones it is subscribed to,
each once, and it is told whenever that list can be written down; and a query is answered with the
stored messages that name one of them, each as often as it is stored and in that order, or not at
all. -/
theorem answers_match_subscriptions {s : Sync T} {pk : Pubkey} {info : PeerInfo}
    (known : s.peers.lookup pk = some info) (iter : IterOrder (Sigma fun _ : T => List PeerInfo))
    (keys : IterOrder T) :
    (s.activeTopics info.peer iter keys).Nodup ∧
    (∀ t, t ∈ s.activeTopics info.peer iter keys ↔ s.isPeerSubscribedToTopic t info.peer = true) ∧
    (∀ (m : Message U T S) d, m.body = .querySubscriptions → d.iter = iter → d.keys = keys →
      (∀ actions, s.processEvent m pk d = .ok actions ↔
        ∃ w, MessageSealed.seal s.keypair.toPubkey info.peer (Message.new ⟨d.now, d.nonce⟩
            (.activeSubscriptions (s.activeTopics info.peer iter keys)) [] : Message U T S) = .ok w ∧
          actions = [.messageSend info.connectionInfo (.sealed w)]) ∧
      ((∃ actions, s.processEvent m pk d = .ok actions) ↔ (Message.new ⟨d.now, d.nonce⟩
        (.activeSubscriptions (s.activeTopics info.peer iter keys)) [] : Message U T S).Serializable)) ∧
    ∀ (m : Message U T S) d, m.body.isQuery = true →
      (∀ actions, s.processEvent m pk d = .ok actions ↔ List.Forall₂ (HandsOn s info)
        (d.messages.filter (·.names (s.activeTopics info.peer iter keys))) actions) ∧
      ((∃ actions, s.processEvent m pk d = .ok actions) ↔
        ∀ x ∈ d.messages, x.names (s.activeTopics info.peer iter keys) = true → x.Serializable) := by
  refine ⟨activeTopics_nodup .., fun t => mem_activeTopics, ?_, fun m d query => ⟨?_, ?_⟩⟩
  · rintro m d body rfl rfl
    rw [processEvent_querySubscriptions known body]
    exact ⟨fun _ => listTopics_eq_ok, listTopics_succeeds_iff⟩
  · intro actions
    rw [query_answer_iff known query, filterMessageByPeer_eq_names s info.peer iter keys]
  · rw [query_answered_iff known query, filterMessageByPeer_eq_names s info.peer iter keys]
    simp only [List.mem_filter, and_imp]

end Sync
end

namespace Sandbox

/-- Bob subscribed to the only topic. -/
def bobListens : List (Call Bool Unit Unit) :=
  .receive (.sealed (letter bob alice (message 5 (.subscribe [()])))) (delivered 2 0 6 []) ::
    bobConfirmed

/-- One message on the topic, and one on none. -/
def storedMessages : List Msg := [⟨⟨0, 9⟩, [⟨(), [], 1⟩], .user true⟩, ⟨⟨0, 8⟩, [], .user false⟩]

/-- Bob asks for what is stored, and is answered. -/
theorem bob_is_answered : ∃ actions : List (Action Bool Unit Unit),
    (after anyone bobListens).processEvent (message 6 (.queryMessagesByDepth () 0)) bob.toPubkey
      (delivered 2 0 7 storedMessages) = .ok actions := by
  have known : (after anyone bobListens).peers.lookup bob.toPubkey =
    some ⟨⟨"b", bob.toPubkey, (1, 2)⟩, connection 2, true, 0⟩ := by rfl
  obtain ⟨_, _, _, answer⟩ :=
    Sync.answers_match_subscriptions (U := Bool) (S := Unit) known .stored .stored
  exact (answer (message 6 (.queryMessagesByDepth () 0)) (delivered 2 0 7 storedMessages) rfl).2.mpr
    fun x _ _ => serializable x

end Sandbox
end Tp2p
