import Mathlib.Logic.Hydra
import Tp2p.Network.Origin

/-! Any number of nodes and the messages in flight between them: whatever is delivered,
and in whatever order, the cascade of answers comes to an end. -/
namespace Tp2p
open Transition Relation

section
variable [Sodium] {U T S : Type}

/-- How many rounds of answers an event can set off. -/
def Event.rank : Event U T S → Nat
  | .hello => 3
  | .peerInit _ => 2
  | .peerConfirm _ | .ping | .queryMessagesByID _ | .queryMessagesByDepth _ _
  | .querySubscriptions => 1
  | _ => 0

/-- The messages among the actions. -/
def sentMessages : Except Error (List (Action U T S)) → List MessageWrapped
  | .ok actions => actions.filterMap fun
    | .messageSend _ message => some message
    | _ => none
  | .error _ => []

/-- Every message that the actions send is sealed. -/
def OnlySealed (actions : List (Action U T S)) : Prop :=
  ∀ c message, .messageSend c message ∈ actions → ∃ w, message = .sealed w

theorem onlySealed_sync (as : List (SyncAction T)) : OnlySealed (as.map (Action.sync (U := U) (S := S))) := by
  intro c message h
  obtain ⟨_, _, h⟩ := List.mem_map.mp h
  cases h

namespace Sync
variable [DecidableEq T] [Rmp (Message U T S)]

theorem createSealedMessage_sealed (s : Sync T) (peer : Peer) (body : Event U T S)
    (graph : List (TopicGraphEntry T)) (now : DateTime) (nonce : Nonce) :
    Attempt.Ensures (s.createSealedMessage peer body graph now nonce) fun message =>
      ∃ w, message = .sealed w where
  of_ok _ h := by
    obtain ⟨w, _, hw⟩ := createSealedMessage_ok h
    exact ⟨w, hw⟩

/-- A reply seals one message and sends it after some changes to the tables. -/
theorem reply_sealed (s : Sync T) (peer : Peer) (body : Event U T S) (now : DateTime) (nonce : Nonce)
    (as : List (SyncAction T)) (c : ConnectionInfo) :
    Attempt.Ensures (do
      let message ← s.createSealedMessage peer body [] now nonce
      return as.map Action.sync ++ [Action.messageSend c message] : Except Error (List (Action U T S)))
      OnlySealed := by
  apply (createSealedMessage_sealed s peer body [] now nonce).bind
  rintro _ ⟨w, rfl⟩
  apply Attempt.ensures_ok
  intro c' message h
  rcases List.mem_append.mp h with h | h
  · exact onlySealed_sync as c' message h
  · cases List.mem_singleton.mp h
    exact ⟨w, rfl⟩

theorem peerConfirm_sealed (s : Sync T) (pk : Pubkey) (name : String) (now : DateTime)
    (nonce : Nonce) : Attempt.Ensures
      (s.peerConfirm pk name now nonce : Except Error (List (Action U T S))) OnlySealed := by
  apply (Attempt.ensures_trivial _).bind
  intro info _
  exact reply_sealed s info.peer _ now nonce [_] _

theorem answerQuery_sealed (s : Sync T) (pk : Pubkey) (messages : List (Message U T S)) :
    Attempt.Ensures (s.answerQuery pk messages) OnlySealed where
  of_ok actions h := by
    intro c message hm
    obtain ⟨info, _, hf⟩ := answerQuery_ok h
    obtain ⟨m, _, w, _, ha⟩ := Attempt.exists_mem_of_mem_right hf hm
    cases ha
    exact ⟨w, rfl⟩

variable [Subscription S T]

theorem processEvent_sealed (s : Sync T) (m : Message U T S) (pk : Pubkey) (d : Delivery U T S) :
    Attempt.Ensures (s.processEvent m pk d) OnlySealed := by
  have nothing : Attempt.Ensures (.ok [] : Except Error (List (Action U T S))) OnlySealed :=
    Attempt.ensures_ok (onlySealed_sync [])
  cases hb : m.body with
  | hello =>
    simp only [processEvent, processEventHello, hb]
    split
    · exact nothing
    · exact reply_sealed s _ _ d.now d.nonce [_, _] _
  | peerInit name =>
    simp only [processEvent, processEventPeerInit, hb]
    split
    · exact peerConfirm_sealed s pk name d.now d.nonce
    · exact nothing
    · apply Attempt.ensures_ok
      intro c message h
      cases List.mem_singleton.mp h
  | peerConfirm name =>
    simp only [processEvent, processEventPeerConfirm, hb]
    exact (Attempt.ensures_trivial _).bind fun _ _ => Attempt.ensures_ok (onlySealed_sync [_])
  | ping =>
    simp only [processEvent, processEventPing, hb]
    exact (Attempt.ensures_trivial _).bind fun info _ =>
      reply_sealed s info.peer _ d.now d.nonce [_] _
  | pong =>
    simp only [processEvent, processEventPong, hb]
    exact (Attempt.ensures_trivial _).bind fun _ _ => Attempt.ensures_ok (onlySealed_sync [_])
  | queryMessagesByID ids =>
    simp only [processEvent, processEventQueryMessagesByID, hb]
    split
    · exact nothing
    · exact answerQuery_sealed s pk d.messages
  | queryMessagesByDepth topic depth =>
    simp only [processEvent, processEventQueryMessagesByDepth, hb]
    split
    · exact nothing
    · exact answerQuery_sealed s pk d.messages
  | subscribe subscriptions =>
    simp only [processEvent, processEventSubscribe, hb]
    apply (Attempt.ensures_trivial _).bind
    intro info _
    apply Attempt.ensures_ok
    intro c message h
    obtain ⟨_, _, h⟩ := List.mem_filterMap.mp h
    obtain ⟨_, _, h⟩ := Option.map_eq_some_iff.mp h
    cases h
  | unsubscribe topics =>
    simp only [processEvent, processEventUnsubscribe, hb]
    apply (Attempt.ensures_trivial _).bind
    intro info _
    apply Attempt.ensures_ok
    intro c message h
    obtain ⟨_, _, h⟩ := List.mem_map.mp h
    cases h
  | querySubscriptions =>
    simp only [processEvent, processEventQuerySubscriptions, hb]
    exact (Attempt.ensures_trivial _).bind fun info _ =>
      reply_sealed s info.peer _ d.now d.nonce [] _
  | activeSubscriptions topics =>
    simp only [processEvent, processEventActiveSubscriptions, hb]
    exact (Attempt.ensures_trivial _).bind fun _ _ => nothing
  | user data =>
    simp only [processEvent, hb]
    exact nothing

/-- A node answers what it receives with sealed messages. -/
theorem receive_sealed (s : Sync T) (message : MessageWrapped) (d : Delivery U T S) :
    Attempt.Ensures (s.receive message d) OnlySealed := by
  cases message with
  | init pk =>
    apply (Attempt.ensures_trivial _).bind
    intro w _
    apply Attempt.ensures_ok
    intro c message h
    rcases List.mem_pair.mp h with h | h
    · cases h
    · cases h
      exact ⟨w, rfl⟩
  | sealed w =>
    apply (Attempt.ensures_trivial _).bind
    intro m _
    exact processEvent_sealed s m w.pubkeySender d

omit [Rmp (Message U T S)] in
/-- What an event makes a node send is of lower rank. -/
theorem EventEffect.rank_lt {s : Sync T} {pk : Pubkey} {d : Delivery U T S} {e : Event U T S}
    {as : List (SyncAction T)} {sends : List (Sending U T S)} (h : EventEffect s pk d e as sends)
    (users : ∀ m ∈ d.messages, ∃ data, m.body = .user data) {x : Sending U T S} (hx : x ∈ sends) :
    x.message.body.rank < e.rank := by
  cases h with
  | hello => cases List.mem_singleton.mp hx; exact Nat.lt_succ_self 2
  | peerInit => cases List.mem_singleton.mp hx; exact Nat.lt_succ_self 1
  | ping | querySubscriptions => cases List.mem_singleton.mp hx; exact Nat.zero_lt_one
  | query query =>
    obtain ⟨m, hm, rfl⟩ := List.mem_map.mp hx
    obtain ⟨data, hdata⟩ := users m (List.mem_filter.mp hm).1
    simp only [Sending.relay, hdata]
    cases e with
    | queryMessagesByID | queryMessagesByDepth => exact Nat.zero_lt_one
    | _ => cases query
  | _ => cases hx

end Sync

/-- The rank of a message at the node that holds `seckey`: that of the event it opens to. -/
def rankAt (U T S : Type) [Rmp (Message U T S)] (seckey : SecretKey) : MessageWrapped → Nat
  | .init _ => 4
  | .sealed w =>
    match (w.open (Peer.tmp w.pubkeySender seckey) : Except Error (Message U T S)) with
    | .ok m => m.body.rank
    | .error _ => 0

variable [DecidableEq T] [Rmp (Message U T S)] [Subscription S T]

omit [DecidableEq T] [Subscription S T] in
/-- A sealed message has the rank of its event at its addressee, and none elsewhere. -/
theorem rankAt_le_of_sealed (ideal : IdealBox) (codec : Rmp.RoundTrip (Message U T S)) {pk : Pubkey}
    {peer : Peer} {m : Message U T S} {w : MessageSealed}
    (hseal : MessageSealed.seal pk peer m = .ok w) (seckey : SecretKey) :
    rankAt U T S seckey (.sealed w) ≤ m.body.rank := by
  simp only [rankAt]
  split
  · next m' opened =>
    obtain ⟨_, _, rfl⟩ := opened_as_sealed ideal codec hseal rfl opened
    exact Nat.le_refl _
  · exact Nat.zero_le _

/-- Whatever a node sends in answer ranks lower, wherever it arrives, than what it answers. -/
theorem rankAt_sent_lt (ideal : IdealBox) (codec : Rmp.RoundTrip (Message U T S)) {s : Sync T}
    (hs : s.KeysOk) {message : MessageWrapped} {d : Delivery U T S}
    (users : ∀ m ∈ d.messages, ∃ data, m.body = .user data) {answer : MessageWrapped}
    (sent : answer ∈ sentMessages (s.exec (.receive message d))) (seckey : SecretKey) :
    rankAt U T S seckey answer < rankAt U T S s.keypair.seckey message := by
  cases hr : s.exec (.receive message d) with
  | error e =>
    rw [hr] at sent
    cases sent
  | ok actions =>
    rw [hr] at sent
    obtain ⟨a, ha, hanswer⟩ := List.mem_filterMap.mp sent
    cases a with
    | messageSend c answer' =>
      cases hanswer
      obtain ⟨w, rfl⟩ := (Sync.receive_sealed s message d).of_ok actions hr c _ ha
      have result : Step.result ⟨s, .receive message d⟩ = .ok actions := hr
      obtain ⟨x, ⟨_, _, _, _, effect, _, hx⟩, hseal⟩ := Step.exists_sends result ha
      apply Nat.lt_of_le_of_lt (rankAt_le_of_sealed ideal codec hseal.2 seckey)
      cases effect with
      | init => cases List.mem_singleton.mp hx; exact Nat.lt_succ_self 3
      | event opened effect =>
        have h := effect.rank_lt users hx
        simp only [rankAt, (hs.unwrap_ok.mp opened).1]
        exact h
    | _ => cases hanswer

/-! The nodes and the messages between them -/

/-- Some nodes, and the messages in flight, each with the node it is bound for. -/
structure World (N T : Type) [DecidableEq T] where
  nodes : N → Sync T
  flight : Multiset (N × MessageWrapped)

variable {N : Type} [DecidableEq N]

/-- A message in flight is delivered, over any connection, at any time and with any stored
user messages at hand. What the node sends in answer goes to any node, or is lost. -/
inductive Delivers (U S : Type) [Rmp (Message U T S)] [Subscription S T] :
    World N T → World N T → Prop where
  | deliver {nodes : N → Sync T} {rest : Multiset (N × MessageWrapped)} (n : N)
      (message : MessageWrapped) (d : Delivery U T S) (answers : Multiset (N × MessageWrapped))
      (users : ∀ m ∈ d.messages, ∃ data, m.body = .user data)
      (sent : answers.map Prod.snd ≤ sentMessages ((nodes n).exec (.receive message d))) :
      Delivers U S ⟨nodes, (n, message) ::ₘ rest⟩
        ⟨Function.update nodes n ((nodes n).next (.receive message d)), answers + rest⟩

namespace World

/-- Every node is in a state it can be in. -/
def Reachable (U S : Type) [Rmp (Message U T S)] [Subscription S T] (world : World N T) : Prop :=
  ∀ n, ∃ (name : String) (keypair : Keypair) (config : PeeringConfig) (past : History U T S),
    NodeRun name keypair config past (world.nodes n)

/-- The ranks of the messages in flight, each at the node it is bound for. -/
def ranks (U S : Type) [Rmp (Message U T S)] (world : World N T) : Multiset Nat :=
  world.flight.map fun (n, message) => rankAt U T S (world.nodes n).keypair.seckey message

theorem Reachable.delivers {world world' : World N T} (reachable : world.Reachable U S)
    (h : Delivers U S world world') : world'.Reachable U S := by
  cases h with
  | @deliver nodes rest n message d answers users sent =>
    intro n'
    by_cases hn : n' = n
    · subst hn
      obtain ⟨name, keypair, config, past, run⟩ := reachable n'
      exact ⟨name, keypair, config, _, by simpa using run.step (.receive message d)⟩
    · obtain ⟨name, keypair, config, past, run⟩ := reachable n'
      exact ⟨name, keypair, config, past, by simpa [Function.update_of_ne hn] using run⟩

/-- A delivery takes one rank out and puts lower ones in. -/
theorem ranks_cutExpand (ideal : IdealBox) (codec : Rmp.RoundTrip (Message U T S))
    {world world' : World N T} (reachable : world.Reachable U S) (h : Delivers U S world world') :
    CutExpand (· < ·) (world'.ranks U S) (world.ranks U S) := by
  cases h with
  | @deliver nodes rest n message d answers users sent =>
    -- the keys of the nodes stay the same
    have keys : ∀ n', (Function.update nodes n ((nodes n).next (.receive message d)) n').keypair =
        (nodes n').keypair := by
      intro n'
      by_cases hn : n' = n
      · subst hn
        rw [Function.update_self, (Sync.next_sameSelf ..).keypair]
      · rw [Function.update_of_ne hn]
    refine ⟨answers.map fun (n', answer) => rankAt U T S (nodes n').keypair.seckey answer,
      rankAt U T S (nodes n).keypair.seckey message, ?_, ?_⟩
    · intro r hr
      obtain ⟨⟨n', answer⟩, ha, rfl⟩ := Multiset.mem_map.mp hr
      obtain ⟨name, keypair, config, past, run⟩ := reachable n
      apply rankAt_sent_lt ideal codec (NodeRun.keysOk run) users
      exact Multiset.mem_coe.mp (Multiset.mem_of_le sent (Multiset.mem_map_of_mem Prod.snd ha))
    · simp only [ranks, keys, Multiset.map_add, Multiset.map_cons]
      rw [← Multiset.singleton_add, add_comm, add_comm (Multiset.map _ answers), ← add_assoc]

end World

/-- From reachable nodes and any messages in flight, every sequence of deliveries is finite:
each takes one message out, and what is sent in answer ranks lower. -/
theorem no_message_storm (ideal : IdealBox) (codec : Rmp.RoundTrip (Message U T S))
    {world : World N T} (reachable : world.Reachable U S) :
    Acc (fun w' w => Delivers U S w w') world ∧
    (∀ run : Nat → World N T, run 0 = world → ¬ ∀ i, Delivers U S (run i) (run (i + 1))) ∧
    ∀ world', Delivers U S world world' →
      CutExpand (· < ·) (world'.ranks U S) (world.ranks U S) := by
  have acc : Acc (fun w' w => Delivers U S w w') world :=
    acc_of_descent (r := Delivers U S) (WellFounded.cutExpand Nat.lt_wfRel.wf) (World.ranks U S)
      (fun hw h => hw.delivers h) (fun hw h => World.ranks_cutExpand ideal codec hw h) reachable
  refine ⟨acc, ?_, fun world' h => World.ranks_cutExpand ideal codec reachable h⟩
  rintro run rfl steps
  exact (acc_iff_isEmpty_descending_chain.mp acc).false ⟨run, rfl, steps⟩

end

namespace Sandbox

/-- Alice and Bob as they were created, and an `Init` of Bob on its way to Alice. -/
def bobKnocks : World Bool Unit where
  nodes b := if b then .new "b" bob anyone else .new "a" alice anyone
  flight := {(false, .init bob.toPubkey)}

/-- The handshake that Bob begins comes to an end. -/
theorem handshake_ends : ¬ ∃ run : Nat → World Bool Unit, run 0 = bobKnocks ∧
    ∀ i, Delivers Bool Unit (run i) (run (i + 1)) := by
  rintro ⟨run, h, steps⟩
  refine (no_message_storm idealBox roundTrip ?_).2.1 run h steps
  intro b
  cases b with
  | false => exact ⟨_, _, _, _, .start⟩
  | true => exact ⟨_, _, _, _, .start⟩

end Sandbox
end Tp2p
