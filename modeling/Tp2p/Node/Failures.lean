import Tp2p.Node.Opening

/-! When a call fails, and with which error. -/
namespace Tp2p
open Transition

section
variable [Sodium] {U T S : Type} [Rmp (Message U T S)]

/-- The error of the first message that has no encoding. -/
def firstError (sends : List (Sending U T S)) : Option Error :=
  sends.findSome? fun x => Attempt.errorOf (serialize x.message)

theorem firstError_none {sends : List (Sending U T S)} :
    firstError sends = none ↔ ∀ x ∈ sends, x.message.Serializable := by
  rw [firstError, List.findSome?_eq_none_iff]
  simp only [Attempt.errorOf_eq_none, Message.Serializable]

theorem firstError_single {x : Sending U T S} {e : Error} :
    firstError [x] = some e ↔ serialize x.message = .error e := by
  rw [firstError, List.findSome?_singleton, Attempt.errorOf_eq_some]

theorem MessageSealed.errorOf_seal (pk : Pubkey) (peer : Peer) (m : Message U T S) :
    Attempt.errorOf (MessageSealed.seal pk peer m) = Attempt.errorOf (serialize m) :=
  Attempt.errorOf_map ..

theorem MessageSealed.seal_fails (pk : Pubkey) (peer : Peer) {m : Message U T S} {e : Error}
    (h : serialize m = .error e) : MessageSealed.seal pk peer m = .error e := by
  rw [← Attempt.errorOf_eq_some, errorOf_seal, h]
  rfl

namespace Sync
variable [DecidableEq T]

/-- What keeps a call from having any effect. -/
inductive Refused (s : Sync T) : Call U T S → Error → Prop where
  | address {addr : String} {now : DateTime} {e : Error} (unparsed : ConnectionInfo.new addr = .error e) :
      Refused s (.initComm addr now) e
  | unknown {pk : Pubkey} {name : String} {now : DateTime} {nonce : Nonce}
      (unknown : s.peers.lookup pk = none) :
      Refused s (.peerConfirm pk name now nonce) (.peerNotFound pk)
  | closed {w : MessageSealed} {d : Delivery U T S}
      (closed : openPrecomputed w.sealedBody w.nonce
        (precompute w.pubkeySender.inner s.keypair.seckey) = none) :
      Refused s (.receive (.sealed w) d) .messageOpenFailed
  | garbled {w : MessageSealed} {d : Delivery U T S} {bytes : Bytes} {e : Error}
      (opened : openPrecomputed w.sealedBody w.nonce
        (precompute w.pubkeySender.inner s.keypair.seckey) = some bytes)
      (garbled : (deserialize bytes : Except Error (Message U T S)) = .error e) :
      Refused s (.receive (.sealed w) d) e
  | stranger {w : MessageSealed} {d : Delivery U T S} {m : Message U T S}
      (opened : w.open (Peer.tmp w.pubkeySender s.keypair.seckey) = .ok m)
      (unknown : s.peers.lookup w.pubkeySender = none)
      (needs : m.body.isGreeting = false ∨ ∃ name, m.body = .peerInit name ∧
        s.peeringConfig.canConfirm w.pubkeySender = some true) :
      Refused s (.receive (.sealed w) d) (.peerNotFound w.pubkeySender)

/-- A message that fails to open fails alike whether its sender is known or not. -/
theorem unwrap_of_error {s : Sync T} (hs : s.KeysOk) {w : MessageSealed} {e : Error}
    (h : (w.open (Peer.tmp w.pubkeySender s.keypair.seckey) : Except Error (Message U T S)) = .error e) :
    (s.unwrapIncomingMessage w : Except Error (Message U T S)) = .error e := by
  cases hl : s.peers.lookup w.pubkeySender with
  | none => rw [unwrap_of_unknown hl, h, Attempt.bind_error]
  | some info =>
    have hkey : info.peer.precomputed = precompute w.pubkeySender.inner s.keypair.seckey := by
      have hk := hs.peers hl
      rwa [PeerInfo.Keyed, hs.filed hl] at hk
    rw [unwrap_of_known hl, ← h]
    exact open_congr hkey

theorem createSealedMessage_fails (s : Sync T) (peer : Peer) {body : Event U T S}
    {graph : List (TopicGraphEntry T)} {now : DateTime} {nonce : Nonce} {e : Error}
    (h : serialize (Message.new ⟨now, nonce⟩ body graph) = .error e) :
    s.createSealedMessage peer body graph now nonce = .error e := by
  simp only [createSealedMessage, MessageSealed.create, MessageSealed.seal_fails _ _ h, Attempt.bind_error]

variable [Subscription S T]

/-- A call that is refused fails with the error of the refusal. -/
theorem Refused.exec {s : Sync T} (hs : s.KeysOk) {call : Call U T S} {e : Error}
    (h : Refused s call e) : s.exec call = .error e := by
  cases h with
  | address unparsed => simp only [Sync.exec, initComm, unparsed, Attempt.bind_error]
  | unknown unknown =>
    simp only [Sync.exec, peerConfirm, findPeer_none, unknown, Attempt.okOr_none, Attempt.bind_error]
  | @closed w d closed =>
    have hopen : (w.open (Peer.tmp w.pubkeySender s.keypair.seckey) : Except Error (Message U T S)) =
        .error .messageOpenFailed := by
      simp only [MessageSealed.open, Peer.tmp, Peer.new, closed, Attempt.okOr_none, Attempt.bind_error]
    simp only [Sync.exec, receive, unwrap_of_error hs hopen, Attempt.bind_error]
  | @garbled w d bytes e opened garbled =>
    have hopen : (w.open (Peer.tmp w.pubkeySender s.keypair.seckey) : Except Error (Message U T S)) =
        .error e := by
      simp only [MessageSealed.open, Peer.tmp, Peer.new, opened, Attempt.okOr_some, Attempt.bind_ok, garbled]
    simp only [Sync.exec, receive, unwrap_of_error hs hopen, Attempt.bind_error]
  | @stranger w d m opened unknown needs =>
    rcases needs with needs | ⟨name, body, allowed⟩
    · simp only [Sync.exec, receive, unwrap_unknown unknown needs opened, Attempt.bind_error]
    · have accepted : s.unwrapIncomingMessage w = .ok m :=
        hs.unwrap_ok.mpr ⟨opened, .inl (by rw [body]; rfl)⟩
      rw [exec_sealed d accepted]
      simp only [processEvent, processEventPeerInit, body, allowed, peerConfirm, findPeer_none, unknown,
        Attempt.okOr_none, Attempt.bind_error]

omit [Subscription S T] in
theorem peerConfirm_fails {s : Sync T} {pk : Pubkey} {info : PeerInfo} {name : String} {now : DateTime}
    {nonce : Nonce} {e : Error} (known : s.peers.lookup pk = some info)
    (h : serialize (Message.new ⟨now, nonce⟩ (.peerConfirm s.name) [] : Message U T S) = .error e) :
    (s.peerConfirm pk name now nonce : Except Error (List (Action U T S))) = .error e := by
  simp only [peerConfirm, findPeer_none, known, Attempt.okOr_some, Attempt.bind_ok,
    createSealedMessage_fails s info.peer h, Attempt.bind_error]

omit [Subscription S T] in
theorem answerQuery_fails {s : Sync T} {pk : Pubkey} {info : PeerInfo} {messages : List (Message U T S)}
    {e : Error} (known : s.peers.lookup pk = some info)
    (h : firstError ((messages.filter (s.filterMessageByPeer info.peer)).map (Sending.relay info)) = some e) :
    s.answerQuery pk messages = .error e := by
  rw [firstError, List.findSome?_map] at h
  simp only [answerQuery, findPeer_none, known, Attempt.okOr_some, Attempt.bind_ok]
  rw [← Attempt.errorOf_eq_some, Attempt.errorOf_mapM, ← h]
  congr 1
  funext m
  exact (Attempt.errorOf_map ..).trans (MessageSealed.errorOf_seal ..)

/-- An effect with a message that has no encoding fails as the first such message does. -/
theorem processEvent_fails {s : Sync T} {m : Message U T S} {pk : Pubkey} {d : Delivery U T S}
    {as : List (SyncAction T)} {sends : List (Sending U T S)} (h : EventEffect s pk d m.body as sends)
    {e : Error} (first : firstError sends = some e) : s.processEvent m pk d = .error e := by
  generalize hb : m.body = body at h
  cases h with
  | hello pending =>
    have fails : s.createSealedMessage (Peer.tmp pk s.keypair.seckey)
        (.peerInit s.name : Event U T S) [] d.now d.nonce = .error e :=
      createSealedMessage_fails s _ (firstError_single.mp first)
    have initiated : (s.findPendingPeerInit d.connectionInfo).isNone = false := by
      rw [← Option.not_isSome, findPendingPeerInit_isSome.mpr pending]
      rfl
    simp only [processEvent, processEventHello, hb, initiated, Bool.false_eq_true, if_false, fails,
      Attempt.bind_error]
  | peerInit allowed known =>
    simp only [processEvent, processEventPeerInit, hb, allowed]
    exact peerConfirm_fails known (firstError_single.mp first)
  | @ping info known =>
    have fails : s.createSealedMessage info.peer (.pong : Event U T S) [] d.now d.nonce = .error e :=
      createSealedMessage_fails s _ (firstError_single.mp first)
    simp only [processEvent, processEventPing, hb, findPeer_none, known, Attempt.okOr_some,
      Attempt.bind_ok, fails, Attempt.bind_error]
  | @querySubscriptions info known =>
    have fails : s.createSealedMessage info.peer (.activeSubscriptions
        (s.activeTopics info.peer d.iter d.keys) : Event U T S) [] d.now d.nonce = .error e :=
      createSealedMessage_fails s _ (firstError_single.mp first)
    simp only [processEvent, processEventQuerySubscriptions, hb, findPeer_none, known,
      Attempt.okOr_some, Attempt.bind_ok, fails, Attempt.bind_error]
  | query query known =>
    have stored : d.messages.length ≠ 0 := by
      intro hm
      rw [List.length_eq_zero_iff.mp hm] at first
      cases first
    have fails := answerQuery_fails known first
    cases body with
    | queryMessagesByID ids =>
      simp only [processEvent, processEventQueryMessagesByID, hb, stored, if_false, fails]
    | queryMessagesByDepth topic depth =>
      simp only [processEvent, processEventQueryMessagesByDepth, hb, stored, if_false, fails]
    | _ => cases query
  | _ => cases first

omit [Subscription S T] in
theorem errorOf_tickPeer (s : Sync T) (now : DateTime) (nonce : Pubkey → Nonce) (info : PeerInfo) :
    Attempt.errorOf (s.tickPeer now nonce info : Except Error (List (Action U T S))) =
      if Due now info then
        Attempt.errorOf (serialize (Message.new ⟨now, nonce info.peer.pubkey⟩ .ping [] : Message U T S))
      else none := by
  simp only [tickPeer]
  split
  · next recent =>
    rw [if_neg fun due => by have := due.1; omega]
    rfl
  · next recent =>
    split
    · next late =>
      rw [if_neg fun due => due.2 (by simpa [Overdue] using late)]
      rfl
    · next late =>
      have due : Due now info := ⟨by omega, fun ho => late (by simpa [Overdue] using ho)⟩
      rw [if_pos due, Attempt.errorOf_map, createSealedMessage, Attempt.errorOf_map]
      exact MessageSealed.errorOf_seal ..

theorem exec_fails {s : Sync T} {call : Call U T S} {as : List (SyncAction T)}
    {sends : List (Sending U T S)} (h : Effect s call as sends) {e : Error}
    (first : firstError sends = some e) : s.exec call = .error e := by
  cases h with
  | initComm => cases first
  | peerConfirm known => exact peerConfirm_fails known (firstError_single.mp first)
  | @tick order now nonce =>
    rw [firstError, Attempt.findSome?_filter_map] at first
    have fails : (order.arrange (HashMap.values s.peers)).mapM
        (s.tickPeer now nonce : _ → Except Error (List (Action U T S))) = .error e := by
      rw [← Attempt.errorOf_eq_some, Attempt.errorOf_mapM, ← first]
      congr 1
      funext info
      exact errorOf_tickPeer s now nonce info
    simp only [exec, tick, fails, Attempt.bind_error]
  | @init pk d =>
    have fails : MessageSealed.seal s.keypair.toPubkey (Peer.tmp pk s.keypair.seckey)
        (Message.new ⟨d.now, d.nonce⟩ .hello [] : Message U T S) = .error e :=
      MessageSealed.seal_fails _ _ (firstError_single.mp first)
    simp only [exec, receive, processInitMessage, MessageSealed.create, fails, Attempt.bind_error]
  | @event w d m _ _ opened effect =>
    rw [exec_sealed d opened]
    exact processEvent_fails effect first

omit [Rmp (Message U T S)] in
/-- From a known sender every event has an effect. -/
theorem EventEffect.of_known {s : Sync T} {pk : Pubkey} {info : PeerInfo}
    (known : s.peers.lookup pk = some info) (d : Delivery U T S) (e : Event U T S)
    (needs : e.isGreeting = false) : ∃ as sends, EventEffect s pk d e as sends := by
  cases e with
  | hello | peerInit => cases needs
  | peerConfirm name => exact ⟨_, _, .peerConfirm known⟩
  | ping => exact ⟨_, _, .ping known⟩
  | pong => exact ⟨_, _, .pong known⟩
  | queryMessagesByID ids => exact ⟨_, _, .query rfl known⟩
  | queryMessagesByDepth topic depth => exact ⟨_, _, .query rfl known⟩
  | subscribe subscriptions => exact ⟨_, _, .subscribe known⟩
  | unsubscribe topics => exact ⟨_, _, .unsubscribe known⟩
  | querySubscriptions => exact ⟨_, _, .querySubscriptions known⟩
  | activeSubscriptions topics => exact ⟨_, _, .activeSubscriptions known⟩
  | user data => exact ⟨_, _, .user data⟩

/-- What opens has an effect, unless it calls for a record that is not there. -/
theorem effect_of_opened {s : Sync T} (hs : s.KeysOk) {w : MessageSealed} (d : Delivery U T S)
    {m : Message U T S} (opened : w.open (Peer.tmp w.pubkeySender s.keypair.seckey) = .ok m) :
    (∃ as sends, Effect s (.receive (.sealed w) d) as sends) ∨
      ∃ e, Refused s (.receive (.sealed w) d : Call U T S) e := by
  cases needs : m.body.isGreeting with
  | false =>
    cases hl : s.peers.lookup w.pubkeySender with
    | none => exact .inr ⟨_, .stranger opened hl (.inl needs)⟩
    | some info =>
      obtain ⟨as, sends, effect⟩ := EventEffect.of_known hl d m.body needs
      exact .inl ⟨as, sends, .event (hs.unwrap_ok.mpr ⟨opened, .inr (by rw [hl]; rfl)⟩) effect⟩
  | true =>
    have accepted := hs.unwrap_ok.mpr ⟨opened, .inl needs⟩
    cases hb : m.body with
    | hello =>
      by_cases pending : ∃ p ∈ s.pendingPeerInit, p.connectionInfo = d.connectionInfo
      · exact .inl ⟨_, _, .of_event accepted hb (.hello pending)⟩
      · exact .inl ⟨_, _, .of_event accepted hb (.rogueHello fun p hp hc => pending ⟨p, hp, hc⟩)⟩
    | peerInit name =>
      by_cases allowed : s.peeringConfig.canConfirm w.pubkeySender = some true
      · cases hl : s.peers.lookup w.pubkeySender with
        | none => exact .inr ⟨_, .stranger opened hl (.inr ⟨name, hb, allowed⟩)⟩
        | some info => exact .inl ⟨_, _, .of_event accepted hb (.peerInit allowed hl)⟩
      · exact .inl ⟨_, _, .of_event accepted hb (.undecided allowed)⟩
    | _ =>
      rw [hb] at needs
      cases needs

/-- Every call has an effect or is refused. -/
theorem effect_or_refused {s : Sync T} (hs : s.KeysOk) (call : Call U T S) :
    (∃ as sends, Effect s call as sends) ∨ ∃ e, Refused s call e := by
  cases call with
  | initComm addr now =>
    cases h : ConnectionInfo.new addr with
    | error e => exact .inr ⟨e, .address h⟩
    | ok c => exact .inl ⟨_, _, .initComm h⟩
  | peerConfirm pk name now nonce =>
    cases h : s.peers.lookup pk with
    | none => exact .inr ⟨_, .unknown h⟩
    | some info => exact .inl ⟨_, _, .peerConfirm h⟩
  | tick order now nonce => exact .inl ⟨_, _, .tick⟩
  | receive message d =>
    cases message with
    | init pk => exact .inl ⟨_, _, .init⟩
    | sealed w =>
      cases ho : openPrecomputed w.sealedBody w.nonce (precompute w.pubkeySender.inner s.keypair.seckey) with
      | none => exact .inr ⟨_, .closed ho⟩
      | some bytes =>
        cases hd : (deserialize bytes : Except Error (Message U T S)) with
        | error e => exact .inr ⟨e, .garbled ho hd⟩
        | ok m =>
          have opened : w.open (Peer.tmp w.pubkeySender s.keypair.seckey) = .ok m := by
            simp only [MessageSealed.open, Peer.tmp, Peer.new, ho, Attempt.okOr_some, Attempt.bind_ok, hd]
          exact effect_of_opened hs d opened

end Sync

/-- The errors which say that the caller called the wrong function. -/
def Error.isMisuse : Error → Bool
  | .eventMismatch | .messageNotInit | .missingPubkey => true
  | _ => false

omit [Rmp (Message U T S)] in
theorem ConnectionInfo.new_error {addr : String} {e : Error} (h : ConnectionInfo.new addr = .error e) :
    e.isMisuse = false := by
  unfold ConnectionInfo.new at h
  split at h
  · cases h
  · cases h
    rfl

theorem serialize_error {m : Message U T S} {e : Error} (h : serialize m = .error e) :
    e.isMisuse = false := by
  unfold serialize at h
  split at h
  · cases h
  · cases h
    rfl

theorem deserialize_error {bytes : Bytes} {e : Error}
    (h : (deserialize bytes : Except Error (Message U T S)) = .error e) : e.isMisuse = false := by
  unfold deserialize at h
  split at h
  · cases h
  · cases h
    rfl

theorem firstError_misuse {sends : List (Sending U T S)} {e : Error} (h : firstError sends = some e) :
    e.isMisuse = false := by
  obtain ⟨x, _, hx⟩ := List.exists_of_findSome?_eq_some h
  exact serialize_error (Attempt.errorOf_eq_some.mp hx)

variable [DecidableEq T]

theorem Sync.Refused.misuse {s : Sync T} {call : Call U T S} {e : Error} (h : Refused s call e) :
    e.isMisuse = false := by
  cases h with
  | address unparsed => exact ConnectionInfo.new_error unparsed
  | garbled _ garbled => exact deserialize_error garbled
  | _ => rfl

variable [Subscription S T]
variable {name : String} {keypair : Keypair} {config : PeeringConfig}
variable {past : History U T S} {s : Sync T}

/-- In every state that a node reaches, a call fails exactly if it is refused, or if a message that it
would send has no encoding, and then with the error of the refusal or of the first such message. No
function is called on a message that it is not for. -/
theorem call_fails_iff (run : NodeRun name keypair config past s) (call : Call U T S) (e : Error) :
    (s.exec call = .error e ↔
      Sync.Refused s call e ∨ ∃ as sends, Sync.Effect s call as sends ∧ firstError sends = some e) ∧
    (s.exec call = .error e → e.isMisuse = false) := by
  have hs := run.keysOk
  have reason : s.exec call = .error e →
      Sync.Refused s call e ∨ ∃ as sends, Sync.Effect s call as sends ∧ firstError sends = some e := by
    intro h
    rcases Sync.effect_or_refused hs call with ⟨as, sends, effect⟩ | ⟨e', refused⟩
    · cases first : firstError sends with
      | none =>
        obtain ⟨actions, ha, _⟩ := Sync.exec_succeeds effect (firstError_none.mp first)
        cases h.symm.trans ha
      | some e' =>
        cases h.symm.trans (Sync.exec_fails effect first)
        exact .inr ⟨as, sends, effect, first⟩
    · cases h.symm.trans (refused.exec hs)
      exact .inl refused
  refine ⟨⟨reason, ?_⟩, fun h => ?_⟩
  · rintro (refused | ⟨as, sends, effect, first⟩)
    · exact refused.exec hs
    · exact Sync.exec_fails effect first
  · rcases reason h with refused | ⟨as, sends, effect, first⟩
    · exact refused.misuse
    · exact firstError_misuse first

end

namespace Sandbox

/-- Mallory, who is unknown, pings Alice. -/
theorem stranger_refused : (after anyone []).exec
    (.receive (.sealed (letter mallory alice (message 1 .ping))) (delivered 3 0 0 []) :
      Call Bool Unit Unit) = .error (.peerNotFound mallory.toPubkey) := by
  apply ((call_fails_iff (run anyone []) _ _).1).mpr
  exact .inl (.stranger (by rfl) rfl (.inl rfl))

end Sandbox
end Tp2p
