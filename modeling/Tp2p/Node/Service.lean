import Tp2p.Node.LastWord
import Tp2p.Node.Opening
import Tp2p.Node.Queries

/-! What the synchronization is for: a peer is served the stored messages on the topics it
subscribed to, and can read them. -/
namespace Tp2p
open Transition

section
variable [Sodium] {U T S : Type} [DecidableEq T] [Rmp (Message U T S)] [Subscription S T]

/-- The message is on a topic to which the peer subscribed, without taking it back since. -/
def Message.wanted (m : Message U T S) (past : History U T S) (pk : Pubkey) : Bool :=
  m.topicGraph.any fun entry => lastWord past pk entry.topic

/-- The action brings the message to the node `reader`, on the connection `c`. -/
def Action.Serves (a : Action U T S) (reader : Sync T) (c : ConnectionInfo) (m : Message U T S) : Prop :=
  ∃ w, a = .messageSend c (.sealed w) ∧ reader.unwrapIncomingMessage w = .ok m

variable {name : String} {keypair : Keypair} {config : PeeringConfig}
variable {past : History U T S} {s : Sync T}

/-- Every entry holds the current peer, as long as nobody is forgotten or renamed. -/
theorem NodeRun.entriesCurrent (run : NodeRun name keypair config past s)
    (kept : Every (fun _ st => ∀ pk, ¬ st.pre.Forgets st.input pk) past)
    (keep : Every (fun _ st => st.pre.SubscribersKeepName st.input) past) :
    s.EntriesCurrent past := by
  induction run with
  | start =>
    refine ⟨(fun he => nomatch he), fun _ => List.nodup_nil, fun pk t => ⟨?_, fun h => nomatch h⟩⟩
    rintro ⟨e, he, _⟩
    cases he
  | step run call ih => exact (ih kept.2 keep.2).next (NodeRun.keysOk run) kept.1 keep.1

theorem filterMessageByPeer_eq_wanted (run : NodeRun name keypair config past s)
    (kept : Every (fun _ st => ∀ pk, ¬ st.pre.Forgets st.input pk) past)
    (keep : Every (fun _ st => st.pre.SubscribersKeepName st.input) past) {pk : Pubkey}
    {info : PeerInfo} (known : s.peers.lookup pk = some info) :
    s.filterMessageByPeer info.peer = fun m : Message U T S => m.wanted past pk := by
  have follows := (run.entriesCurrent kept keep).follows run.keysOk
  funext m
  simp only [Sync.filterMessageByPeer, Message.wanted, follows.word pk info known]

/-- What is handed on to a peer can be read by its node, once it knows ours. -/
theorem Sync.HandsOn.serves (laws : BoxLaws) (codec : Rmp.RoundTrip (Message U T S))
    (matching : keypair.Matching) (run : NodeRun name keypair config past s) {pk : Pubkey}
    {info : PeerInfo} (known : s.peers.lookup pk = some info) {m : Message U T S} {a : Action U T S}
    (h : s.HandsOn info m a) {name' : String} {keypair' : Keypair} {config' : PeeringConfig}
    {past' : History U T S} {s' : Sync T} (matching' : keypair'.Matching)
    (run' : NodeRun name' keypair' config' past' s') (addressee : keypair'.toPubkey = pk)
    (knows : (s'.peers.lookup keypair.toPubkey).isSome) : a.Serves s' info.connectionInfo m := by
  obtain ⟨w, hseal, rfl⟩ := h
  have hself : s.keypair = keypair := run.sameSelf.keypair
  have keyed := run.keysOk.peers known
  rw [hself] at hseal keyed
  have filed := (run.keysOk.filed known).trans addressee.symm
  have relayed : (Sending.relay info m).SealedAs keypair.toPubkey (info.connectionInfo, w) := ⟨rfl, hseal⟩
  have opens : OpensTo w m info.peer.pubkey :=
    opensTo_of_sealed (x := .relay info m) laws codec matching keyed relayed
  have sender : w.pubkeySender = keypair.toPubkey := by
    obtain ⟨_, _, rfl⟩ := MessageSealed.seal_eq_ok.mp hseal
    rfl
  have reads := (opens _ _ _ _ _ matching' filed.symm run').1
  exact ⟨w, rfl, reads (.inr (by rw [sender]; exact knows))⟩

/-- A query is answered with what the peer wants, whenever all of that can be written down: its node
reads exactly the stored messages on the topics to which it subscribed and which it has not taken
back since, in their order and as often as they are stored. -/
theorem queries_served (laws : BoxLaws) (codec : Rmp.RoundTrip (Message U T S))
    (matching : keypair.Matching) (run : NodeRun name keypair config past s)
    (kept : Every (fun _ st => ∀ pk, ¬ st.pre.Forgets st.input pk) past)
    (keep : Every (fun _ st => st.pre.SubscribersKeepName st.input) past)
    {name' : String} {keypair' : Keypair} {config' : PeeringConfig} {past' : History U T S}
    {s' : Sync T} (matching' : keypair'.Matching) (run' : NodeRun name' keypair' config' past' s')
    (knows : (s'.peers.lookup keypair.toPubkey).isSome) {w : MessageSealed} {m : Message U T S}
    (sender : w.pubkeySender = keypair'.toPubkey) (opened : s.unwrapIncomingMessage w = .ok m)
    (query : m.body.isQuery = true) (d : Delivery U T S) :
    ∃ info, s.peers.lookup keypair'.toPubkey = some info ∧
      ((∃ actions, s.exec (.receive (.sealed w) d) = .ok actions) ↔
        ∀ m ∈ d.messages, m.wanted past keypair'.toPubkey = true → m.Serializable) ∧
      ∀ actions, s.exec (.receive (.sealed w) d) = .ok actions →
        List.Forall₂ (fun m a => a.Serves s' info.connectionInfo m)
          (d.messages.filter (·.wanted past keypair'.toPubkey)) actions := by
  have gate := (run.keysOk.unwrap_ok.mp opened).2
  have foreign : m.body.isGreeting ≠ true := by
    intro hg
    cases hb : m.body <;> simp [hb, Event.isGreeting, Event.isQuery] at hg query
  obtain ⟨info, known⟩ := Option.isSome_iff_exists.mp (gate.resolve_left foreign)
  rw [sender] at known
  have wanted := filterMessageByPeer_eq_wanted run kept keep known
  rw [Sync.exec_sealed d opened, sender]
  refine ⟨info, known, ?_, fun actions result => ?_⟩
  · rw [Sync.query_answered_iff known query, wanted]
    simp only [List.mem_filter, and_imp]
  · rw [Sync.query_answer_iff known query, wanted] at result
    exact result.imp fun _ _ h => h.serves laws codec matching run known matching' run' rfl knows

end

namespace Sandbox

/-- What Alice has stored on the topic, handed on to Bob. -/
def bobServed : List (Action Bool Unit Unit) :=
  [.messageSend (connection 2) (.sealed (letter alice bob ⟨⟨0, 9⟩, [⟨(), [], 1⟩], .user true⟩))]

/-- Bob's node, once it has heard of Alice. -/
def bobNode : Sync Unit :=
  reach Sync.next (.new "b" bob anyone)
    ([.receive (.init alice.toPubkey) (delivered 1 0 0 [])] : List (Call Bool Unit Unit))

/-- Bob asks for what is stored on the topic. -/
def bobQueries : Call Bool Unit Unit :=
  .receive (.sealed (letter bob alice (message 6 (.queryMessagesByDepth () 0))))
    (delivered 2 0 7 storedMessages)

theorem bob_is_served : ∃ info, (after anyone bobListens).peers.lookup bob.toPubkey = some info ∧
    (∃ actions, (after anyone bobListens).exec bobQueries = .ok actions) ∧
    List.Forall₂ (fun m a => a.Serves bobNode info.connectionInfo m)
      (storedMessages.filter (·.wanted (history anyone bobListens) bob.toPubkey)) bobServed := by
  have opened : (after anyone bobConfirmed).unwrapIncomingMessage
      (letter bob alice (message 5 (.subscribe [()]))) = .ok (message 5 (.subscribe [()])) := by rfl
  have kept : Every (fun _ st => ∀ pk, ¬ st.pre.Forgets st.input pk) (history anyone bobListens) := by
    refine ⟨?_, ?_, ?_, True.intro⟩ <;>
      · intro pk h
        cases h
  have keep : Every (fun _ st => st.pre.SubscribersKeepName st.input) (history anyone bobListens) := by
    refine ⟨⟨?_, ?_⟩, ⟨?_, ?_⟩, ⟨?_, ?_⟩, True.intro⟩
    · intro pk c now h
      cases h with
      | hello opened' body => cases opened.symm.trans opened'; cases body
    · intro pk name now h
      cases h with
      | peerInit opened' body | peerConfirm opened' body => cases opened.symm.trans opened'; cases body
    · intro pk c now h
      cases h
    · intro pk name now _ t e he
      cases he
    · intro pk c now _ t e he
      cases he
    · intro pk name now h
      cases h
  have run' : NodeRun "b" bob anyone _ bobNode := Run.of_inputs _
  obtain ⟨info, known, answered, served⟩ :=
    queries_served (w := letter bob alice (message 6 (.queryMessagesByDepth () 0)))
      (m := message 6 (.queryMessagesByDepth () 0)) idealBox.toBoxLaws roundTrip (matching 1)
      (run anyone bobListens) kept keep (matching 2) run' rfl rfl rfl rfl
      (delivered 2 0 7 storedMessages)
  exact ⟨info, known, answered.mpr fun m _ _ => serializable m, served bobServed rfl⟩

end Sandbox
end Tp2p
