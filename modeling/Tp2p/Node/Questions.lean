import Tp2p.Node.Maintenance

/-! What a node asks its user: whom to let in, when its configuration does not say. -/
namespace Tp2p

section
variable [Sodium] {U T S : Type}

/-- The events that the user is asked about. -/
def questions (actions : List (Action U T S)) : List (Event U T S) :=
  actions.filterMap fun
    | .confirm event => some event
    | _ => none

/-- The question that an event from `pk` raises. -/
def PeeringConfig.questions (config : PeeringConfig) : Option (Pubkey × Event U T S) → List (Event U T S)
  | some (pk, .peerInit name) => if config.canConfirm pk = none then [.peerInit name] else []
  | _ => []

def NoQuestion (actions : List (Action U T S)) : Prop := questions actions = []

theorem noQuestion_reply (as : List (SyncAction T)) (c : ConnectionInfo) (message : MessageWrapped) :
    NoQuestion (as.map (Action.sync (U := U) (S := S)) ++ [.messageSend c message]) := by
  induction as with
  | nil => rfl
  | cons a as ih => exact ih

theorem noQuestion_of_forall {actions : List (Action U T S)}
    (h : ∀ event, .confirm event ∉ actions) : NoQuestion actions := by
  apply List.filterMap_eq_nil_iff.mpr
  intro a ha
  cases a with
  | confirm event => exact absurd ha (h event)
  | _ => rfl

namespace Sync
variable [DecidableEq T] [Rmp (Message U T S)]

theorem reply_noQuestion (s : Sync T) (peer : Peer) (body : Event U T S) (now : DateTime) (nonce : Nonce)
    (as : List (SyncAction T)) (c : ConnectionInfo) :
    Attempt.Ensures (do
      let message ← s.createSealedMessage peer body [] now nonce
      return as.map Action.sync ++ [Action.messageSend c message] : Except Error (List (Action U T S)))
      NoQuestion := by
  apply (Attempt.ensures_trivial _).bind
  intro message _
  exact Attempt.ensures_ok (noQuestion_reply as c message)

theorem peerConfirm_noQuestion (s : Sync T) (pk : Pubkey) (name : String) (now : DateTime)
    (nonce : Nonce) : Attempt.Ensures
      (s.peerConfirm pk name now nonce : Except Error (List (Action U T S))) NoQuestion := by
  apply (Attempt.ensures_trivial _).bind
  intro info _
  exact reply_noQuestion s info.peer _ now nonce [_] _

theorem answerQuery_noQuestion (s : Sync T) (pk : Pubkey) (messages : List (Message U T S)) :
    Attempt.Ensures (s.answerQuery pk messages) NoQuestion where
  of_ok actions h := by
    obtain ⟨info, _, hf⟩ := answerQuery_ok h
    refine noQuestion_of_forall fun event ha => ?_
    obtain ⟨m, _, w, _, h⟩ := Attempt.exists_mem_of_mem_right hf ha
    cases h

theorem tick_noQuestion (s : Sync T) (order : IterOrder PeerInfo) (now : DateTime)
    (nonce : Pubkey → Nonce) : Attempt.Ensures
      (s.tick order now nonce : Except Error (List (Action U T S))) NoQuestion where
  of_ok actions h := by
    obtain ⟨shares, hshares, h⟩ := Attempt.bind_eq_ok.mp h
    cases Attempt.pure_eq_ok.mp h
    refine noQuestion_of_forall fun event ha => ?_
    rcases List.mem_append.mp ha with ha | ha
    · obtain ⟨share, hshare, ha⟩ := List.mem_flatten.mp ha
      obtain ⟨info, _, hpeer⟩ := Attempt.exists_mem_of_mem_right (Attempt.mapM_eq_ok.mp hshares) hshare
      cases peerShare_of_ok hpeer with
      | recent => cases ha
      | overdue | due => cases List.mem_singleton.mp ha
    · obtain ⟨share, hshare, ha⟩ := List.mem_flatten.mp ha
      obtain ⟨p, _, rfl⟩ := List.mem_map.mp hshare
      simp only [tickPending] at ha
      split at ha
      · cases ha
      · cases List.mem_singleton.mp ha

variable [Subscription S T]

theorem questions_of_processEvent {s : Sync T} {m : Message U T S} {pk : Pubkey} {d : Delivery U T S}
    {actions : List (Action U T S)} (h : s.processEvent m pk d = .ok actions) :
    questions actions = s.peeringConfig.questions (some (pk, m.body)) := by
  cases hb : m.body with
  | hello =>
    simp only [processEvent, processEventHello, hb] at h
    split at h
    · cases h
      rfl
    · exact (reply_noQuestion s _ _ d.now d.nonce [_, _] _).of_ok actions h
  | peerInit name =>
    simp only [processEvent, processEventPeerInit, hb] at h
    split at h
    · next allowed =>
      rw [PeeringConfig.questions, allowed, if_neg (Option.some_ne_none true)]
      exact (peerConfirm_noQuestion s pk name d.now d.nonce).of_ok actions h
    · next denied =>
      rw [PeeringConfig.questions, denied, if_neg (Option.some_ne_none false)]
      cases h
      rfl
    · next undecided =>
      rw [PeeringConfig.questions, if_pos undecided]
      cases h
      rfl
  | peerConfirm name =>
    simp only [processEvent, processEventPeerConfirm, hb] at h
    obtain ⟨info, _, h⟩ := Attempt.bind_eq_ok.mp h
    cases Attempt.pure_eq_ok.mp h
    rfl
  | ping =>
    simp only [processEvent, processEventPing, hb] at h
    obtain ⟨info, _, h⟩ := Attempt.bind_eq_ok.mp h
    exact (reply_noQuestion s info.peer _ d.now d.nonce [_] _).of_ok actions h
  | pong =>
    simp only [processEvent, processEventPong, hb] at h
    obtain ⟨info, _, h⟩ := Attempt.bind_eq_ok.mp h
    cases Attempt.pure_eq_ok.mp h
    rfl
  | queryMessagesByID ids =>
    simp only [processEvent, processEventQueryMessagesByID, hb] at h
    split at h
    · cases h
      rfl
    · exact (answerQuery_noQuestion s pk d.messages).of_ok actions h
  | queryMessagesByDepth topic depth =>
    simp only [processEvent, processEventQueryMessagesByDepth, hb] at h
    split at h
    · cases h
      rfl
    · exact (answerQuery_noQuestion s pk d.messages).of_ok actions h
  | subscribe subscriptions =>
    simp only [processEvent, processEventSubscribe, hb] at h
    obtain ⟨info, _, h⟩ := Attempt.bind_eq_ok.mp h
    cases Attempt.pure_eq_ok.mp h
    refine noQuestion_of_forall fun event ha => ?_
    obtain ⟨_, _, ha⟩ := List.mem_filterMap.mp ha
    obtain ⟨_, _, h⟩ := Option.map_eq_some_iff.mp ha
    cases h
  | unsubscribe topics =>
    simp only [processEvent, processEventUnsubscribe, hb] at h
    obtain ⟨info, _, h⟩ := Attempt.bind_eq_ok.mp h
    cases Attempt.pure_eq_ok.mp h
    refine noQuestion_of_forall fun event ha => ?_
    obtain ⟨_, _, h⟩ := List.mem_map.mp ha
    cases h
  | querySubscriptions =>
    simp only [processEvent, processEventQuerySubscriptions, hb] at h
    obtain ⟨info, _, h⟩ := Attempt.bind_eq_ok.mp h
    exact (reply_noQuestion s info.peer _ d.now d.nonce [] _).of_ok actions h
  | activeSubscriptions topics =>
    simp only [processEvent, processEventActiveSubscriptions, hb] at h
    obtain ⟨info, _, h⟩ := Attempt.bind_eq_ok.mp h
    cases Attempt.pure_eq_ok.mp h
    rfl
  | user data =>
    simp only [processEvent, hb] at h
    cases h
    rfl

/-- A call asks the user about nothing but the `PeerInit` it processes, and about that exactly if
the configuration leaves it to the user. -/
theorem questions_of_exec {s : Sync T} {call : Call U T S} {actions : List (Action U T S)}
    (h : s.exec call = .ok actions) : questions actions = s.peeringConfig.questions (s.heard call) := by
  cases call with
  | initComm addr now =>
    obtain ⟨c, _, h⟩ := Attempt.bind_eq_ok.mp h
    cases Attempt.pure_eq_ok.mp h
    rfl
  | peerConfirm pk name now nonce => exact (peerConfirm_noQuestion s pk name now nonce).of_ok actions h
  | tick order now nonce => exact (tick_noQuestion s order now nonce).of_ok actions h
  | receive message d =>
    cases message with
    | init pk =>
      obtain ⟨w, _, h⟩ := Attempt.bind_eq_ok.mp h
      cases Attempt.pure_eq_ok.mp h
      rfl
    | sealed w =>
      obtain ⟨m, opened, h⟩ := Attempt.bind_eq_ok.mp h
      rw [questions_of_processEvent h, heard_eq_some.mpr ⟨w, d, m, rfl, opened, rfl, rfl⟩]

end Sync
end
end Tp2p
