import Tp2p.Model.Sandbox
import Tp2p.Node.Outcomes
import Tp2p.Transport.Reader

/-! The application around a node: it takes messages out of the frames it is handed, calls
the handler, and carries out the returned actions one at a time. -/
namespace Tp2p
open Transition

/-- How the loop of the application ends early. -/
inductive AppError [Sodium] where
  | text (err : String)
  | handler (err : Error)

section
variable [Sodium] [Rmp MessageWrapped]

/-- `serialize` and `deserialize` of the application, with their errors as text. -/
def serializeWrapped (msg : MessageWrapped) : Except String Bytes :=
  match Rmp.serialize msg with
  | .ok bytes => .ok bytes
  | .error err => .error ("ser::ser -- " ++ err)

def deserializeWrapped (bytes : Bytes) : Except String MessageWrapped :=
  match Rmp.deserialize bytes with
  | .ok msg => .ok msg
  | .error err => .error ("ser::des -- " ++ err)

variable {U T S : Type} [DecidableEq T]

namespace Sync

/-- What becomes of one action: the node after it, and what the peer manager is told. -/
def actionDispatcher (sync : Sync T) (action : Action U T S) : Except String (Sync T × List PeerEvent) :=
  match action with
  | .sync syncAction => .ok (sync.applySyncActions [syncAction], [])
  | .messageSend conninfo msg => do
    let bytes ← serializeWrapped msg
    return (sync, [.send conninfo bytes])
  | .confirm _ => .ok (sync, [])

/-- The loop over the returned actions. What was done before an error stays done. -/
def dispatch (sync : Sync T) : List (Action U T S) → Sync T × List PeerEvent × Option String
  | [] => (sync, [], none)
  | action :: actions =>
    match sync.actionDispatcher action with
    | .ok (sync, events) =>
      let later := sync.dispatch actions
      (later.1, events ++ later.2.1, later.2.2)
    | .error err => (sync, [], some err)

/-- The messages among the actions, as the peer manager is told to send them. -/
def sendEvents (actions : List (Action U T S)) : List PeerEvent :=
  actions.filterMap fun
    | .messageSend conninfo msg => (serializeWrapped msg).toOption.map (PeerEvent.send conninfo)
    | _ => none

/-- The message among the actions cannot be serialized. -/
def Unserializable : Action U T S → Prop
  | .messageSend _ msg => ∃ err, serializeWrapped msg = .error err
  | _ => False

theorem dispatch_cons {sync sync' : Sync T} {action : Action U T S} {events : List PeerEvent}
    (actions : List (Action U T S)) (h : sync.actionDispatcher action = .ok (sync', events)) :
    sync.dispatch (action :: actions) =
      ((sync'.dispatch actions).1, events ++ (sync'.dispatch actions).2.1,
        (sync'.dispatch actions).2.2) := by
  rw [dispatch, h]

theorem actionDispatcher_ok (sync : Sync T) {action : Action U T S} (h : ¬ Unserializable action) :
    sync.actionDispatcher action = .ok (sync.applySyncActions (syncActions [action]), sendEvents [action]) := by
  cases action with
  | sync | confirm => rfl
  | messageSend conninfo msg =>
    cases hs : serializeWrapped msg with
    | ok bytes =>
      have hevents : sendEvents [(.messageSend conninfo msg : Action U T S)] = [.send conninfo bytes] := by
        simp [sendEvents, hs, Except.toOption]
      rw [actionDispatcher, hs, hevents]
      rfl
    | error err => exact absurd ⟨err, hs⟩ h

/-- The loop does what the actions say, up to the first message that cannot be serialized. -/
inductive Dispatched (sync : Sync T) : List (Action U T S) → Sync T × List PeerEvent × Option String → Prop
  where
  | all {actions : List (Action U T S)} (fit : ∀ action ∈ actions, ¬ Unserializable action) :
      Dispatched sync actions
        (sync.applySyncActions (syncActions actions), sendEvents actions, none)
  | stopped (done : List (Action U T S)) {rest : List (Action U T S)} {conninfo : ConnectionInfo}
      {msg : MessageWrapped} {err : String} (fit : ∀ action ∈ done, ¬ Unserializable action)
      (failed : serializeWrapped msg = .error err) :
      Dispatched sync (done ++ .messageSend conninfo msg :: rest)
        (sync.applySyncActions (syncActions done), sendEvents done, some err)

theorem dispatched (sync : Sync T) (actions : List (Action U T S)) :
    sync.Dispatched actions (sync.dispatch actions) := by
  induction actions generalizing sync with
  | nil => exact .all fun _ h => nomatch h
  | cons action actions ih =>
    by_cases h : Unserializable action
    · cases action with
      | sync | confirm => exact h.elim
      | messageSend conninfo msg =>
        obtain ⟨err, failed⟩ := h
        have hd : sync.dispatch (.messageSend conninfo msg :: actions) = (sync, [], some err) := by
          rw [dispatch, actionDispatcher, failed]
          rfl
        rw [hd]
        exact .stopped [] (fun _ h => nomatch h) failed
    · rw [dispatch_cons _ (sync.actionDispatcher_ok h)]
      -- what is done after the first action is done from the state that it leaves
      have first : ∀ done : List (Action U T S),
          (sync.applySyncActions (syncActions [action])).applySyncActions (syncActions done) =
            sync.applySyncActions (syncActions (action :: done)) ∧
          sendEvents [action] ++ sendEvents done = sendEvents (action :: done) := by
        intro done
        rw [← applySyncActions_append, ← syncActions_append, sendEvents, sendEvents,
          ← List.filterMap_append]
        exact ⟨rfl, rfl⟩
      generalize hr : (sync.applySyncActions (syncActions [action])).dispatch actions = r
      have hd := ih (sync.applySyncActions (syncActions [action]))
      rw [hr] at hd
      cases hd with
      | all fit =>
        rw [(first actions).1, (first actions).2]
        exact .all (List.forall_mem_cons.mpr ⟨h, fit⟩)
      | @stopped done rest conninfo msg err fit failed =>
        rw [(first done).1, (first done).2]
        exact .stopped (action :: done) (List.forall_mem_cons.mpr ⟨h, fit⟩) failed

theorem dispatch_of_serializable (sync : Sync T) {actions : List (Action U T S)}
    (h : ∀ action ∈ actions, ¬ Unserializable action) :
    sync.dispatch actions = (sync.applySyncActions (syncActions actions), sendEvents actions, none) := by
  have hd := sync.dispatched actions
  generalize sync.dispatch actions = r at hd ⊢
  cases hd with
  | all => rfl
  | @stopped done rest conninfo msg err _ failed =>
    exact (h (.messageSend conninfo msg) (by simp) ⟨err, failed⟩).elim

/-- The loop stops with the error of the first message that cannot be serialized. -/
theorem dispatch_of_unserializable (sync : Sync T) {actions : List (Action U T S)}
    (h : ∃ action ∈ actions, Unserializable action) : ∃ done conninfo msg rest err,
      actions = done ++ .messageSend conninfo msg :: rest ∧ (∀ action ∈ done, ¬ Unserializable action) ∧
        serializeWrapped msg = .error err ∧
        sync.dispatch actions = (sync.applySyncActions (syncActions done), sendEvents done, some err) := by
  have hd := sync.dispatched actions
  generalize sync.dispatch actions = r at hd ⊢
  cases hd with
  | all fit =>
    obtain ⟨action, ha, unserializable⟩ := h
    exact absurd unserializable (fit action ha)
  | stopped done fit failed => exact ⟨done, _, _, _, _, rfl, fit, failed, rfl⟩

/-- Where a message is sent, all changes of the tables have been made. -/
def ChangesFirst (actions : List (Action U T S)) : Prop :=
  ∀ done conninfo msg rest, actions = done ++ .messageSend conninfo msg :: rest → syncActions rest = []

/-- Then a message that cannot be serialized does not keep a change from being made. -/
theorem dispatch_state {sync : Sync T} {actions : List (Action U T S)} (first : ChangesFirst actions) :
    (sync.dispatch actions).1 = sync.applySyncActions (syncActions actions) := by
  have hd := sync.dispatched actions
  generalize sync.dispatch actions = r at hd ⊢
  cases hd with
  | all => rfl
  | @stopped done rest conninfo msg err =>
    rw [syncActions_append, syncActions_messageSend, first done conninfo msg rest rfl, List.append_nil]

omit [Rmp MessageWrapped] [DecidableEq T] in
theorem changesFirst_append (as : List (SyncAction T)) {sends : List (Action U T S)}
    (only : syncActions sends = []) : ChangesFirst (as.map Action.sync ++ sends) := by
  intro done conninfo msg rest h
  rcases List.append_eq_append_iff.mp h with ⟨more, rfl, hsends⟩ | ⟨more, has, hsends⟩
  · rw [hsends, syncActions_append, syncActions_messageSend] at only
    exact (List.append_eq_nil_iff.mp only).2
  · cases more with
    | nil =>
      rw [List.nil_append] at hsends
      rw [← hsends, syncActions_messageSend] at only
      exact only
    | cons action more =>
      -- the message would be one of the changes
      obtain ⟨rfl, _⟩ := List.cons.inj hsends
      have hmem : Action.messageSend conninfo msg ∈ as.map (Action.sync (U := U) (S := S)) := by
        rw [has]
        simp
      obtain ⟨_, _, h⟩ := List.mem_map.mp hmem
      cases h

section
variable [Rmp (Message U T S)]

omit [Rmp MessageWrapped] in
theorem reply_changesFirst (s : Sync T) (peer : Peer) (body : Event U T S) (now : DateTime)
    (nonce : Nonce) (as : List (SyncAction T)) (c : ConnectionInfo) :
    Attempt.Ensures (do
      let message ← s.createSealedMessage peer body [] now nonce
      return as.map Action.sync ++ [Action.messageSend c message] : Except Error (List (Action U T S)))
      ChangesFirst :=
  (Attempt.ensures_trivial _).bind fun _ _ => Attempt.ensures_ok (changesFirst_append as rfl)

omit [Rmp MessageWrapped] in
theorem answerQuery_changesFirst (s : Sync T) (pk : Pubkey) (messages : List (Message U T S)) :
    Attempt.Ensures (s.answerQuery pk messages) ChangesFirst where
  of_ok actions h := by
    obtain ⟨info, _, hf⟩ := answerQuery_ok h
    have only : syncActions actions = [] := by
      rw [syncActions, List.filterMap_eq_nil_iff]
      intro a ha
      obtain ⟨_, _, _, _, rfl⟩ := Attempt.exists_mem_of_mem_right hf ha
      rfl
    exact changesFirst_append [] only

variable [Subscription S T]

omit [Rmp MessageWrapped] in
theorem processEvent_changesFirst (s : Sync T) (m : Message U T S) (pk : Pubkey)
    (d : Delivery U T S) : Attempt.Ensures (s.processEvent m pk d) ChangesFirst := by
  have changes : ∀ as : List (SyncAction T), Attempt.Ensures
      (.ok (as.map Action.sync) : Except Error (List (Action U T S))) ChangesFirst := fun as => by
    have h := changesFirst_append as (rfl : syncActions ([] : List (Action U T S)) = [])
    rw [List.append_nil] at h
    exact Attempt.ensures_ok h
  cases hb : m.body with
  | hello =>
    simp only [processEvent, processEventHello, hb]
    split
    · exact changes []
    · exact reply_changesFirst s _ _ d.now d.nonce [_, _] _
  | peerInit name =>
    simp only [processEvent, processEventPeerInit, hb]
    split
    · exact (Attempt.ensures_trivial _).bind fun info _ =>
        reply_changesFirst s info.peer _ d.now d.nonce [_] _
    · exact changes []
    · exact Attempt.ensures_ok (changesFirst_append [] rfl)
  | peerConfirm name =>
    simp only [processEvent, processEventPeerConfirm, hb]
    exact (Attempt.ensures_trivial _).bind fun _ _ => changes [_]
  | ping =>
    simp only [processEvent, processEventPing, hb]
    exact (Attempt.ensures_trivial _).bind fun info _ =>
      reply_changesFirst s info.peer _ d.now d.nonce [_] _
  | pong =>
    simp only [processEvent, processEventPong, hb]
    exact (Attempt.ensures_trivial _).bind fun _ _ => changes [_]
  | queryMessagesByID ids =>
    simp only [processEvent, processEventQueryMessagesByID, hb]
    split
    · exact changes []
    · exact answerQuery_changesFirst s pk d.messages
  | queryMessagesByDepth topic depth =>
    simp only [processEvent, processEventQueryMessagesByDepth, hb]
    split
    · exact changes []
    · exact answerQuery_changesFirst s pk d.messages
  | subscribe subscriptions =>
    simp only [processEvent, processEventSubscribe, hb]
    refine (Attempt.ensures_trivial _).bind fun info _ => ?_
    have h := changes ((subscriptions.filterMap Subscription.verify).map (SyncAction.setSubscription · info))
    rw [List.map_map, List.map_filterMap] at h
    exact h
  | unsubscribe topics =>
    simp only [processEvent, processEventUnsubscribe, hb]
    refine (Attempt.ensures_trivial _).bind fun info _ => ?_
    have h := changes (topics.map (SyncAction.unsetSubscription · info))
    rw [List.map_map] at h
    exact h
  | querySubscriptions =>
    simp only [processEvent, processEventQuerySubscriptions, hb]
    exact (Attempt.ensures_trivial _).bind fun info _ =>
      reply_changesFirst s info.peer _ d.now d.nonce [] _
  | activeSubscriptions topics =>
    simp only [processEvent, processEventActiveSubscriptions, hb]
    exact (Attempt.ensures_trivial _).bind fun _ _ => changes []
  | user data =>
    simp only [processEvent, hb]
    exact changes []

omit [Rmp MessageWrapped] in
/-- Every call but `tick` returns its changes before its messages. -/
theorem exec_changesFirst (s : Sync T) {call : Call U T S}
    (ht : ∀ order now nonce, call ≠ .tick order now nonce) :
    Attempt.Ensures (s.exec call) ChangesFirst := by
  cases call with
  | initComm addr now =>
    exact (Attempt.ensures_trivial _).bind fun c _ =>
      Attempt.ensures_ok (changesFirst_append [_] rfl)
  | peerConfirm pk name now nonce =>
    exact (Attempt.ensures_trivial _).bind fun info _ =>
      reply_changesFirst s info.peer _ now nonce [_] _
  | tick order now nonce => exact absurd rfl (ht order now nonce)
  | receive message d =>
    cases message with
    | init pk =>
      exact (Attempt.ensures_trivial _).bind fun w _ =>
        Attempt.ensures_ok (changesFirst_append [_] rfl)
    | sealed w =>
      exact (Attempt.ensures_trivial _).bind fun m _ => processEvent_changesFirst s m w.pubkeySender d

/-- What the application makes of a frame: the message in it goes to its handler, and the
returned actions are carried out. -/
def handleRecv (sync : Sync T) (messageBytes : Bytes) (d : Delivery U T S) :
    Sync T × List PeerEvent × Option AppError :=
  match deserializeWrapped messageBytes with
  | .error err => (sync, [], some (.text err))
  | .ok msg =>
    match sync.receive msg d with
    | .error err => (sync, [], some (.handler err))
    | .ok actions =>
      let done := sync.dispatch actions
      (done.1, done.2.1, done.2.2.map .text)

theorem handleRecv_ok {s : Sync T} {messageBytes : Bytes} {msg : MessageWrapped} {d : Delivery U T S}
    {actions : List (Action U T S)} (decoded : Rmp.deserialize messageBytes = .ok msg)
    (returned : s.exec (.receive msg d) = .ok actions)
    (serializable : ∀ action ∈ actions, ¬ Unserializable action) : s.handleRecv messageBytes d =
      (s.applySyncActions (syncActions actions), sendEvents actions, none) := by
  have returned : s.receive msg d = .ok actions := returned
  rw [handleRecv, deserializeWrapped, decoded]
  simp only [returned, s.dispatch_of_serializable serializable, Option.map_none]

/-- The application initiates contact. -/
def startComm (U S : Type) (sync : Sync T) (addr : String) (now : DateTime) :
    Sync T × List PeerEvent × Option AppError :=
  match (sync.initComm addr now : Except Error (List (Action U T S))) with
  | .error err => (sync, [], some (.handler err))
  | .ok actions =>
    let done := sync.dispatch actions
    (done.1, done.2.1, done.2.2.map .text)

theorem startComm_ok {s : Sync T} {addr : String} {now : DateTime} {actions : List (Action U T S)}
    (returned : s.exec (.initComm addr now) = .ok actions)
    (serializable : ∀ action ∈ actions, ¬ Unserializable action) : s.startComm U S addr now =
      (s.applySyncActions (syncActions actions), sendEvents actions, none) := by
  have returned : s.initComm addr now = .ok actions := returned
  rw [startComm]
  simp only [returned, s.dispatch_of_serializable serializable, Option.map_none]

/-- Carrying out the returned actions one at a time leaves the node as applying all of its
actions at once does, and hands on every message in order, if all can be serialized. If one
cannot, the loop stops there with its error, and what was done before stays done. Even then no
change is lost, unless the call was a `tick`. -/
theorem dispatch_agrees {s : Sync T} {call : Call U T S} {actions : List (Action U T S)}
    (returned : s.exec call = .ok actions) :
    ((∀ action ∈ actions, ¬ Unserializable action) →
      s.dispatch actions = (s.next call, sendEvents actions, none)) ∧
    ((∃ action ∈ actions, Unserializable action) → ∃ done conninfo msg rest err,
      actions = done ++ .messageSend conninfo msg :: rest ∧ (∀ action ∈ done, ¬ Unserializable action) ∧
        serializeWrapped msg = .error err ∧
        s.dispatch actions = (s.applySyncActions (syncActions done), sendEvents done, some err)) ∧
    ((∀ order now nonce, call ≠ .tick order now nonce) → (s.dispatch actions).1 = s.next call) := by
  rw [next_ok returned]
  exact ⟨s.dispatch_of_serializable, s.dispatch_of_unserializable,
    fun ht => dispatch_state ((exec_changesFirst s ht).of_ok _ returned)⟩

end
end Sync
end

namespace Sandbox
open Codec

private def wrappedCodec : Codec MessageWrapped where
  write
    | .sealed w => 0 :: w.nonce :: w.pubkeySender.inner :: (list byte).write w.sealedBody
    | .init pk => [1, pk.inner]
  read
    | 0 :: nonce :: pk :: rest =>
      ((list byte).read rest).map fun (body, rest) => (.sealed ⟨nonce, ⟨pk⟩, body⟩, rest)
    | 1 :: pk :: rest => some (.init ⟨pk⟩, rest)
    | _ => none
  read_write msg rest := by cases msg <;> simp

instance : Rmp MessageWrapped where
  serialize msg := .ok (wrappedCodec.write msg)
  deserialize bytes :=
    match wrappedCodec.decode bytes with
    | some msg => .ok msg
    | none => .error "Syntax"

theorem wrappedRoundTrip : Rmp.RoundTrip MessageWrapped := by
  intro msg bytes h
  cases h
  simp [Rmp.deserialize, decode_write]

/-- Alice greets Bob. -/
theorem greeting_dispatched : ∃ actions,
    (after anyone []).exec (.receive (.init bob.toPubkey) (delivered 2 0 0 []) :
      Call Bool Unit Unit) = .ok actions ∧
    ((after anyone []).dispatch actions).1 =
      (after anyone []).next (.receive (.init bob.toPubkey) (delivered 2 0 0 []) : Call Bool Unit Unit) :=
  ⟨_, rfl, (Sync.dispatch_agrees rfl).2.2 fun _ _ _ h => nomatch h⟩

end Sandbox
end Tp2p
