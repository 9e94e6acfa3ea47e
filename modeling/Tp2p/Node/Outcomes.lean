import Tp2p.Node.Effects

/-! The listed effects are exact: every call that succeeds has one of them, and
every listed effect whose messages can be encoded is that of a successful call. -/
namespace Tp2p
variable [Sodium]

theorem MessageSealed.seal_eq_ok {U T S : Type} [Rmp (Message U T S)] {pk : Pubkey} {peer : Peer}
    {m : Message U T S} {w : MessageSealed} : MessageSealed.seal pk peer m = .ok w ↔
      ∃ b, serialize m = .ok b ∧
        w = ⟨m.id.nonce, pk, sealPrecomputed b m.id.nonce peer.precomputed⟩ := by
  rw [MessageSealed.seal, Attempt.bind_eq_ok]
  simp only [Attempt.pure_eq_ok, eq_comm (a := w)]

theorem Message.Serializable.sealed {U T S : Type} [Rmp (Message U T S)] {m : Message U T S}
    (h : m.Serializable) (pk : Pubkey) (peer : Peer) : ∃ w, MessageSealed.seal pk peer m = .ok w := by
  obtain ⟨b, hb⟩ := h
  exact ⟨_, MessageSealed.seal_eq_ok.mpr ⟨b, hb, rfl⟩⟩

namespace Sync
variable {U T S : Type} [DecidableEq T]

section
variable [Rmp (Message U T S)]

theorem createSealedMessage_ok {s : Sync T} {peer : Peer} {body : Event U T S}
    {graph : List (TopicGraphEntry T)} {now : DateTime} {nonce : Nonce} {w : MessageWrapped}
    (h : s.createSealedMessage peer body graph now nonce = .ok w) :
    ∃ sealed, MessageSealed.seal s.keypair.toPubkey peer (Message.new ⟨now, nonce⟩ body graph) =
      .ok sealed ∧ w = .sealed sealed := by
  obtain ⟨sealed, hs, hw⟩ := Attempt.bind_eq_ok.mp h
  exact ⟨sealed, hs, (Attempt.pure_eq_ok.mp hw).symm⟩

theorem createSealedMessage_succeeds (s : Sync T) (peer : Peer) {body : Event U T S}
    {graph : List (TopicGraphEntry T)} {now : DateTime} {nonce : Nonce}
    (fits : (Message.new ⟨now, nonce⟩ body graph).Serializable) :
    ∃ w, MessageSealed.seal s.keypair.toPubkey peer (Message.new ⟨now, nonce⟩ body graph) = .ok w ∧
      s.createSealedMessage peer body graph now nonce = .ok (.sealed w) := by
  obtain ⟨w, hseal⟩ := fits.sealed s.keypair.toPubkey peer
  exact ⟨w, hseal, Attempt.bind_eq_ok.mpr ⟨w, hseal, rfl⟩⟩

/-- A handler that succeeds has its sender on file. -/
theorem known_of_bind_ok {s : Sync T} {pk : Pubkey} {e : Error} {β : Type}
    {f : PeerInfo → Except Error β} {b : β}
    (h : (Attempt.okOr (s.findPeer pk none) e >>= f) = .ok b) :
    ∃ info, s.peers.lookup pk = some info ∧ f info = .ok b := by
  obtain ⟨info, hi, h⟩ := Attempt.bind_eq_ok.mp h
  rw [Attempt.okOr_eq_ok, findPeer_none] at hi
  exact ⟨info, hi, h⟩

theorem peerConfirm_ok {s : Sync T} {pk : Pubkey} {name : String} {now : DateTime} {nonce : Nonce}
    {actions : List (Action U T S)} (h : s.peerConfirm pk name now nonce = .ok actions) :
    ∃ info message, s.peers.lookup pk = some info ∧
      s.createSealedMessage info.peer (.peerConfirm s.name : Event U T S) [] now nonce = .ok message ∧
      actions = [.sync (.setPeer (info.confirmed name now)),
        .messageSend info.connectionInfo message] := by
  obtain ⟨info, known, h⟩ := known_of_bind_ok h
  obtain ⟨message, hm, h⟩ := Attempt.bind_eq_ok.mp h
  exact ⟨info, message, known, hm, (Attempt.pure_eq_ok.mp h).symm⟩

theorem answerQuery_ok {s : Sync T} {pk : Pubkey} {messages : List (Message U T S)}
    {actions : List (Action U T S)} (h : s.answerQuery pk messages = .ok actions) :
    ∃ info, s.peers.lookup pk = some info ∧
      List.Forall₂ (fun m a => ∃ sealed,
          MessageSealed.seal s.keypair.toPubkey info.peer m = .ok sealed ∧
          a = .messageSend info.connectionInfo (.sealed sealed))
        (messages.filter (s.filterMessageByPeer info.peer)) actions := by
  obtain ⟨info, known, h⟩ := known_of_bind_ok h
  refine ⟨info, known, (Attempt.mapM_eq_ok.mp h).imp fun m a ha => ?_⟩
  obtain ⟨sealed, hs, ha⟩ := Attempt.bind_eq_ok.mp ha
  exact ⟨sealed, hs, (Attempt.pure_eq_ok.mp ha).symm⟩

/-- The actions of a call split into changes of the tables and sealed messages. -/
def Splits (s : Sync T) (actions : List (Action U T S)) (as : List (SyncAction T))
    (sends : List (Sending U T S)) : Prop :=
  syncActions actions = as ∧
    List.Forall₂ (Sending.SealedAs s.keypair.toPubkey) sends (sealedSends actions)

private theorem splits_query {s : Sync T} {info : PeerInfo} {messages : List (Message U T S)}
    {actions : List (Action U T S)}
    (h : List.Forall₂ (fun m a => ∃ sealed,
      MessageSealed.seal s.keypair.toPubkey info.peer m = .ok sealed ∧
      a = .messageSend info.connectionInfo (.sealed sealed)) messages actions) :
    Splits s actions [] (messages.map (Sending.relay info)) := by
  induction h with
  | nil => exact ⟨rfl, .nil⟩
  | cons ha _ ih =>
    obtain ⟨sealed, hs, rfl⟩ := ha
    exact ⟨ih.1, .cons ⟨rfl, hs⟩ ih.2⟩

private theorem splits_reply {s : Sync T} (info : PeerInfo) (as : List (SyncAction T))
    {now : DateTime} {nonce : Nonce} {body : Event U T S} {w : MessageWrapped}
    (h : s.createSealedMessage info.peer body [] now nonce = .ok w) :
    Splits s (as.map Action.sync ++ [.messageSend info.connectionInfo w]) as
      [.fresh info now nonce body] := by
  obtain ⟨sealed, hs, rfl⟩ := createSealedMessage_ok h
  induction as with
  | nil => exact ⟨rfl, .cons ⟨rfl, hs⟩ .nil⟩
  | cons a as ih => exact ⟨congrArg (a :: ·) ih.1, ih.2⟩

private theorem splits_sync {s : Sync T} (as : List (SyncAction T)) :
    Splits s (as.map (Action.sync (U := U) (S := S))) as [] := by
  induction as with
  | nil => exact ⟨rfl, .nil⟩
  | cons a as ih => exact ⟨congrArg (a :: ·) ih.1, ih.2⟩

private theorem Splits.append {s : Sync T} {actions actions' : List (Action U T S)}
    {as as' : List (SyncAction T)} {sends sends' : List (Sending U T S)}
    (h : Splits s actions as sends) (h' : Splits s actions' as' sends') :
    Splits s (actions ++ actions') (as ++ as') (sends ++ sends') := by
  refine ⟨by rw [syncActions_append, h.1, h'.1], ?_⟩
  rw [sealedSends, List.filterMap_append]
  exact List.rel_append h.2 h'.2

theorem Splits.serializable {s : Sync T} {actions : List (Action U T S)} {as : List (SyncAction T)}
    {sends : List (Sending U T S)} (h : Splits s actions as sends) :
    ∀ x ∈ sends, x.message.Serializable := by
  intro x hx
  obtain ⟨y, _, hy⟩ := Attempt.exists_mem_of_mem_left h.2 hx
  obtain ⟨b, hb, _⟩ := MessageSealed.seal_eq_ok.mp hy.2
  exact ⟨b, hb⟩

private theorem tickPeer_effect {s : Sync T} {now : DateTime} {nonce : Pubkey → Nonce}
    {info : PeerInfo} {actions : List (Action U T S)} (h : s.tickPeer now nonce info = .ok actions) :
    Splits s actions (([info].filter (Overdue now ·)).map (SyncAction.unsetPeer ·.peer.pubkey))
      (([info].filter (Due now ·)).map fun info => .fresh info now (nonce info.peer.pubkey) .ping) := by
  simp only [tickPeer] at h
  have ho : (numSeconds (now - info.lastPing) > 180 && !info.active) = true ↔ Overdue now info := by
    simp [Overdue]
  split at h
  · next hl =>
    cases h
    have ho' : ¬ Overdue now info := fun hh => by have := hh.1; omega
    have hd : ¬ Due now info := fun hd => by have := hd.1; omega
    simpa [List.filter_singleton, ho', hd] using splits_sync (s := s) []
  · next hl =>
    split at h
    · next hover =>
      cases h
      have hd : ¬ Due now info := fun hd => hd.2 (ho.mp hover)
      simpa [List.filter_singleton, ho.mp hover, hd] using
        splits_sync (s := s) [.unsetPeer info.peer.pubkey]
    · next hover =>
      obtain ⟨w, hw, h⟩ := Attempt.bind_eq_ok.mp h
      have ho' : ¬ Overdue now info := fun hh => hover (ho.mpr hh)
      have hd : Due now info := ⟨by omega, ho'⟩
      rw [← Attempt.pure_eq_ok.mp h]
      simpa [List.filter_singleton, ho', hd] using splits_reply info [] hw

private theorem tickPending_effect (s : Sync T) (now : DateTime) (pendings : List PendingPeer) :
    Splits s (pendings.map (tickPending (U := U) (T := T) (S := S) now)).flatten
      ((pendings.filter (Expired now ·)).map (SyncAction.unsetPendingPeer ·.connectionInfo)) [] := by
  induction pendings with
  | nil => exact ⟨rfl, .nil⟩
  | cons p pendings ih =>
    have hp : Splits s (tickPending (U := U) (T := T) (S := S) now p)
        (([p].filter (Expired now ·)).map (SyncAction.unsetPendingPeer ·.connectionInfo)) [] := by
      by_cases he : numSeconds (now - p.created) < 120
      · have he' : ¬ Expired now p := Int.not_le.mpr he
        simpa [tickPending, he, List.filter_singleton, he'] using splits_sync (s := s) []
      · have he' : Expired now p := Int.not_lt.mp he
        simpa [tickPending, he, List.filter_singleton, he'] using
          splits_sync (s := s) [.unsetPendingPeer p.connectionInfo]
    have h := hp.append ih
    rwa [← List.map_append, ← List.filter_append, List.singleton_append] at h

private theorem tickPeers_effect {s : Sync T} {now : DateTime} {nonce : Pubkey → Nonce}
    {infos : List PeerInfo} {actions : List (List (Action U T S))}
    (h : List.Forall₂ (fun info as => s.tickPeer now nonce info = .ok as) infos actions) :
    Splits s actions.flatten ((infos.filter (Overdue now ·)).map (SyncAction.unsetPeer ·.peer.pubkey))
      ((infos.filter (Due now ·)).map fun info => .fresh info now (nonce info.peer.pubkey) .ping) := by
  induction h with
  | nil => exact ⟨rfl, .nil⟩
  | cons hi _ ih =>
    have h := (tickPeer_effect hi).append ih
    rwa [← List.map_append, ← List.filter_append, ← List.map_append, ← List.filter_append,
      List.singleton_append] at h

section
variable [Subscription S T]

private theorem query_effect {s : Sync T} {pk : Pubkey} {d : Delivery U T S} {e : Event U T S}
    {actions : List (Action U T S)} (query : e.isQuery)
    (h : (if d.messages.length = 0 then .ok [] else s.answerQuery pk d.messages) = .ok actions) :
    ∃ as sends, EventEffect s pk d e as sends ∧ Splits s actions as sends := by
  split at h
  · next hm =>
    cases h
    exact ⟨_, _, .unanswered query (List.length_eq_zero_iff.mp hm), rfl, .nil⟩
  · obtain ⟨info, known, h⟩ := answerQuery_ok h
    exact ⟨_, _, .query query known, splits_query h⟩

/-- Every way an event handler can succeed is one of the listed effects. -/
theorem processEvent_effect {s : Sync T} {m : Message U T S} {pk : Pubkey} {d : Delivery U T S}
    {actions : List (Action U T S)} (h : s.processEvent m pk d = .ok actions) :
    ∃ as sends, EventEffect s pk d m.body as sends ∧ Splits s actions as sends := by
  cases hb : m.body with
  | hello =>
    simp only [processEvent, processEventHello, hb] at h
    split at h
    · next hp =>
      cases h
      rw [Option.isNone_iff_eq_none, ← Option.not_isSome_iff_eq_none,
        findPendingPeerInit_isSome] at hp
      exact ⟨_, _, .rogueHello (by simpa using hp), rfl, .nil⟩
    · next hp =>
      obtain ⟨w, hw, h⟩ := Attempt.bind_eq_ok.mp h
      rw [Option.isNone_iff_eq_none, ← Option.not_isSome_iff_eq_none, not_not,
        findPendingPeerInit_isSome] at hp
      rw [← Attempt.pure_eq_ok.mp h]
      exact ⟨_, _, .hello hp, splits_reply (s.tmpInfo pk d.connectionInfo d.now) [_, _] hw⟩
  | peerInit name =>
    simp only [processEvent, processEventPeerInit, hb] at h
    split at h
    · next ha =>
      obtain ⟨info, w, known, hw, rfl⟩ := peerConfirm_ok h
      exact ⟨_, _, .peerInit ha known, splits_reply info [_] hw⟩
    · next ha =>
      cases h
      exact ⟨_, _, .undecided (by simp [ha]), rfl, .nil⟩
    · next ha =>
      cases h
      exact ⟨_, _, .undecided (by simp [ha]), rfl, .nil⟩
  | peerConfirm name =>
    simp only [processEvent, processEventPeerConfirm, hb] at h
    obtain ⟨info, known, h⟩ := known_of_bind_ok h
    rw [← Attempt.pure_eq_ok.mp h]
    exact ⟨_, _, .peerConfirm known, splits_sync [_]⟩
  | ping =>
    simp only [processEvent, processEventPing, hb] at h
    obtain ⟨info, known, h⟩ := known_of_bind_ok h
    obtain ⟨w, hw, h⟩ := Attempt.bind_eq_ok.mp h
    rw [← Attempt.pure_eq_ok.mp h]
    exact ⟨_, _, .ping known, splits_reply info [_] hw⟩
  | pong =>
    simp only [processEvent, processEventPong, hb] at h
    obtain ⟨info, known, h⟩ := known_of_bind_ok h
    rw [← Attempt.pure_eq_ok.mp h]
    exact ⟨_, _, .pong known, splits_sync [_]⟩
  | queryMessagesByID ids =>
    simp only [processEvent, processEventQueryMessagesByID, hb] at h
    exact query_effect rfl h
  | queryMessagesByDepth topic depth =>
    simp only [processEvent, processEventQueryMessagesByDepth, hb] at h
    exact query_effect rfl h
  | subscribe subscriptions =>
    simp only [processEvent, processEventSubscribe, hb] at h
    obtain ⟨info, known, h⟩ := known_of_bind_ok h
    refine ⟨_, _, .subscribe known, ?_⟩
    have he : actions = ((subscriptions.filterMap Subscription.verify).map
        (SyncAction.setSubscription · info)).map Action.sync := by
      rw [← Attempt.pure_eq_ok.mp h, List.map_map, List.map_filterMap]
      rfl
    rw [he]
    exact splits_sync _
  | unsubscribe topics =>
    simp only [processEvent, processEventUnsubscribe, hb] at h
    obtain ⟨info, known, h⟩ := known_of_bind_ok h
    refine ⟨_, _, .unsubscribe known, ?_⟩
    have he : actions = (topics.map (SyncAction.unsetSubscription · info)).map Action.sync := by
      rw [← Attempt.pure_eq_ok.mp h, List.map_map]
      rfl
    rw [he]
    exact splits_sync _
  | querySubscriptions =>
    simp only [processEvent, processEventQuerySubscriptions, hb] at h
    obtain ⟨info, known, h⟩ := known_of_bind_ok h
    obtain ⟨w, hw, h⟩ := Attempt.bind_eq_ok.mp h
    rw [← Attempt.pure_eq_ok.mp h]
    exact ⟨_, _, .querySubscriptions known, splits_reply info [] hw⟩
  | activeSubscriptions topics =>
    simp only [processEvent, processEventActiveSubscriptions, hb] at h
    obtain ⟨info, known, h⟩ := known_of_bind_ok h
    rw [← Attempt.pure_eq_ok.mp h]
    exact ⟨_, _, .activeSubscriptions known, rfl, .nil⟩
  | user data =>
    simp only [processEvent, hb] at h
    cases h
    exact ⟨_, _, .user data, rfl, .nil⟩

/-- Every way a call can succeed is one of the listed effects. -/
theorem exec_effect {s : Sync T} {call : Call U T S} {actions : List (Action U T S)}
    (h : s.exec call = .ok actions) :
    ∃ as sends, Effect s call as sends ∧ Splits s actions as sends := by
  cases call with
  | initComm addr now =>
    obtain ⟨c, hc, h⟩ := Attempt.bind_eq_ok.mp h
    rw [← Attempt.pure_eq_ok.mp h]
    exact ⟨_, _, .initComm hc, rfl, .nil⟩
  | peerConfirm pk name now nonce =>
    obtain ⟨info, w, known, hw, rfl⟩ := peerConfirm_ok h
    exact ⟨_, _, .peerConfirm known, splits_reply info [_] hw⟩
  | tick order now nonce =>
    obtain ⟨actions', ha, h⟩ := Attempt.bind_eq_ok.mp h
    rw [← Attempt.pure_eq_ok.mp h]
    have hs := (tickPeers_effect (Attempt.mapM_eq_ok.mp ha)).append
      (tickPending_effect s now s.pendingPeerInit)
    rw [List.append_nil] at hs
    exact ⟨_, _, .tick, hs⟩
  | receive message d =>
    cases message with
    | init pk =>
      obtain ⟨w, hw, h⟩ := Attempt.bind_eq_ok.mp h
      rw [← Attempt.pure_eq_ok.mp h]
      exact ⟨_, _, .init, rfl, .cons ⟨rfl, hw⟩ .nil⟩
    | sealed w =>
      obtain ⟨m, opened, h⟩ := Attempt.bind_eq_ok.mp h
      obtain ⟨as, sends, effect, hs⟩ := processEvent_effect h
      exact ⟨as, sends, .event opened effect, hs⟩

/-! What the handlers of the handshake return -/

theorem processEvent_rogueHello {s : Sync T} {m : Message U T S} {pk : Pubkey} {d : Delivery U T S}
    (body : m.body = .hello)
    (pending : ∀ p ∈ s.pendingPeerInit, p.connectionInfo ≠ d.connectionInfo) :
    s.processEvent m pk d = .ok [] := by
  have hp : (s.findPendingPeerInit d.connectionInfo).isNone := by
    simpa [findPendingPeerInit] using pending
  simp only [processEvent, processEventHello, body, hp, if_true]

theorem processEvent_hello {s : Sync T} {m : Message U T S} {pk : Pubkey} {d : Delivery U T S}
    (body : m.body = .hello) (pending : ∃ p ∈ s.pendingPeerInit, p.connectionInfo = d.connectionInfo)
    (fits : (Message.new ⟨d.now, d.nonce⟩ (.peerInit s.name) [] : Message U T S).Serializable) :
    ∃ w, MessageSealed.seal s.keypair.toPubkey (s.tmpInfo pk d.connectionInfo d.now).peer
        (Message.new ⟨d.now, d.nonce⟩ (.peerInit s.name) [] : Message U T S) = .ok w ∧
      s.processEvent m pk d = .ok [
        .sync (.setPeer (s.tmpInfo pk d.connectionInfo d.now)),
        .sync (.unsetPendingPeer d.connectionInfo), .messageSend d.connectionInfo (.sealed w)] := by
  have hp : (s.findPendingPeerInit d.connectionInfo).isNone = false := by
    simpa [findPendingPeerInit] using pending
  obtain ⟨w, hseal, hw⟩ := createSealedMessage_succeeds s (Peer.tmp pk s.keypair.seckey) fits
  refine ⟨w, hseal, ?_⟩
  simp only [processEvent, processEventHello, body, hp, Bool.false_eq_true, if_false, hw]
  rfl

omit [Subscription S T] in
theorem peerConfirm_succeeds {s : Sync T} {pk : Pubkey} {info : PeerInfo} {now : DateTime}
    {nonce : Nonce} (known : s.peers.lookup pk = some info) (name : String)
    (fits : (Message.new ⟨now, nonce⟩ (.peerConfirm s.name) [] : Message U T S).Serializable) :
    ∃ w, MessageSealed.seal s.keypair.toPubkey info.peer
        (Message.new ⟨now, nonce⟩ (.peerConfirm s.name) [] : Message U T S) = .ok w ∧
      s.peerConfirm (U := U) (S := S) pk name now nonce = .ok [
        .sync (.setPeer (info.confirmed name now)),
        .messageSend info.connectionInfo (.sealed w)] := by
  obtain ⟨w, hseal, hw⟩ := createSealedMessage_succeeds s info.peer fits
  refine ⟨w, hseal, ?_⟩
  simp only [peerConfirm, findPeer_none, known, Attempt.okOr_some, Attempt.bind_ok, hw]
  rfl

theorem processEvent_peerInit {s : Sync T} {m : Message U T S} {pk : Pubkey} {d : Delivery U T S}
    {name : String} {info : PeerInfo} (body : m.body = .peerInit name)
    (allowed : s.peeringConfig.canConfirm pk = some true) (known : s.peers.lookup pk = some info)
    (fits : (Message.new ⟨d.now, d.nonce⟩ (.peerConfirm s.name) [] : Message U T S).Serializable) :
    ∃ w, MessageSealed.seal s.keypair.toPubkey info.peer
        (Message.new ⟨d.now, d.nonce⟩ (.peerConfirm s.name) [] : Message U T S) = .ok w ∧
      s.processEvent m pk d = .ok [
        .sync (.setPeer (info.confirmed name d.now)),
        .messageSend info.connectionInfo (.sealed w)] := by
  simp only [processEvent, processEventPeerInit, body, allowed]
  exact peerConfirm_succeeds known name fits

theorem processEvent_peerConfirm {s : Sync T} {m : Message U T S} {pk : Pubkey}
    {d : Delivery U T S} {name : String} {info : PeerInfo} (body : m.body = .peerConfirm name)
    (known : s.peers.lookup pk = some info) :
    s.processEvent m pk d = .ok [.sync (.setPeer (info.confirmed name d.now))] := by
  simp only [processEvent, processEventPeerConfirm, body, findPeer_none, known, Attempt.okOr_some,
    Attempt.bind_ok]
  rfl

theorem exec_initComm {s : Sync T} {addr : String} {c : ConnectionInfo} (now : DateTime)
    (parsed : ConnectionInfo.new addr = .ok c) :
    s.exec (.initComm addr now : Call U T S) = .ok [
      .sync (.setPendingPeer ⟨c, now⟩), .messageSend c (.init s.keypair.toPubkey)] := by
  simp only [exec, initComm, parsed, Attempt.bind_ok]
  rfl

theorem exec_init (s : Sync T) (pk : Pubkey) (d : Delivery U T S)
    (fits : (Message.new ⟨d.now, d.nonce⟩ .hello [] : Message U T S).Serializable) :
    ∃ w, MessageSealed.seal s.keypair.toPubkey (s.tmpInfo pk d.connectionInfo d.now).peer
        (Message.new ⟨d.now, d.nonce⟩ .hello [] : Message U T S) = .ok w ∧
      s.exec (.receive (.init pk) d) = .ok [
        .sync (.setPeer (s.tmpInfo pk d.connectionInfo d.now)),
        .messageSend d.connectionInfo (.sealed w)] := by
  obtain ⟨w, hseal⟩ := fits.sealed s.keypair.toPubkey (s.tmpInfo pk d.connectionInfo d.now).peer
  exact ⟨w, hseal, Attempt.bind_eq_ok.mpr ⟨w, hseal, rfl⟩⟩

theorem exec_sealed {s : Sync T} {w : MessageSealed} {m : Message U T S} (d : Delivery U T S)
    (opened : s.unwrapIncomingMessage w = .ok m) :
    s.exec (.receive (.sealed w) d) = s.processEvent m w.pubkeySender d := by
  simp only [exec, receive, opened, Attempt.bind_ok]

omit [Subscription S T] in
private theorem query_succeeds {s : Sync T} {pk : Pubkey} {info : PeerInfo}
    {messages : List (Message U T S)} (known : s.peers.lookup pk = some info)
    (hs : ∀ x ∈ (messages.filter (s.filterMessageByPeer info.peer)).map (Sending.relay info),
      x.message.Serializable) :
    ∃ actions, (if messages.length = 0 then .ok [] else s.answerQuery pk messages) = .ok actions ∧
      Splits s actions [] ((messages.filter (s.filterMessageByPeer info.peer)).map
        (Sending.relay info)) := by
  split
  · next hm =>
    rw [List.length_eq_zero_iff.mp hm]
    exact ⟨[], rfl, rfl, .nil⟩
  · have hm : ∀ m ∈ messages.filter (s.filterMessageByPeer info.peer), ∃ a : Action U T S,
        (do let sealed ← MessageSealed.seal s.keypair.toPubkey info.peer m
            return Action.messageSend info.connectionInfo (.sealed sealed)) = .ok a := by
      intro m hm
      have fits : m.Serializable := hs _ (List.mem_map_of_mem hm)
      obtain ⟨w, hseal⟩ := fits.sealed s.keypair.toPubkey info.peer
      exact ⟨_, Attempt.bind_eq_ok.mpr ⟨w, hseal, rfl⟩⟩
    obtain ⟨actions, ha⟩ := Attempt.mapM_succeeds hm
    have h : s.answerQuery pk messages = .ok actions := by
      simp only [answerQuery, findPeer_none, known, Attempt.okOr_some, Attempt.bind_ok]
      exact ha
    obtain ⟨info', known', hf⟩ := answerQuery_ok h
    cases known.symm.trans known'
    exact ⟨actions, h, splits_query hf⟩

/-- Every listed effect of an event happens once its messages can be encoded. -/
theorem processEvent_succeeds {s : Sync T} {m : Message U T S} {pk : Pubkey} {d : Delivery U T S}
    {as : List (SyncAction T)} {sends : List (Sending U T S)}
    (h : EventEffect s pk d m.body as sends) (hs : ∀ x ∈ sends, x.message.Serializable) :
    ∃ actions, s.processEvent m pk d = .ok actions ∧ Splits s actions as sends := by
  generalize hb : m.body = e at h
  cases h with
  | rogueHello pending => exact ⟨[], processEvent_rogueHello hb pending, rfl, .nil⟩
  | hello pending =>
    obtain ⟨w, hseal, h⟩ := processEvent_hello hb pending (hs _ List.mem_cons_self)
    exact ⟨_, h, rfl, .cons ⟨rfl, hseal⟩ .nil⟩
  | peerInit allowed known =>
    obtain ⟨w, hseal, h⟩ := processEvent_peerInit hb allowed known (hs _ List.mem_cons_self)
    exact ⟨_, h, rfl, .cons ⟨rfl, hseal⟩ .nil⟩
  | @undecided name allowed =>
    cases ha : s.peeringConfig.canConfirm pk with
    | none => exact ⟨[.confirm m.body], by simp only [processEvent, processEventPeerInit, hb, ha],
        rfl, .nil⟩
    | some allow =>
      cases allow with
      | true => exact absurd ha allowed
      | false => exact ⟨[], by simp only [processEvent, processEventPeerInit, hb, ha], rfl, .nil⟩
  | peerConfirm known => exact ⟨_, processEvent_peerConfirm hb known, splits_sync [_]⟩
  | @ping info known =>
    have fits : (Message.new ⟨d.now, d.nonce⟩ .pong [] : Message U T S).Serializable :=
      hs _ List.mem_cons_self
    obtain ⟨w, _, hw⟩ := createSealedMessage_succeeds s info.peer fits
    refine ⟨_, ?_, splits_reply info [_] hw⟩
    simp only [processEvent, processEventPing, hb, findPeer_none, known, Attempt.okOr_some,
      Attempt.bind_ok, hw]
    rfl
  | @pong info known =>
    refine ⟨_, ?_, splits_sync [_]⟩
    simp only [processEvent, processEventPong, hb, findPeer_none, known, Attempt.okOr_some,
      Attempt.bind_ok]
    rfl
  | unanswered query stored =>
    refine ⟨[], ?_, rfl, .nil⟩
    cases e with
    | queryMessagesByID ids =>
      simp [processEvent, processEventQueryMessagesByID, hb, stored]
    | queryMessagesByDepth topic depth =>
      simp [processEvent, processEventQueryMessagesByDepth, hb, stored]
    | _ => cases query
  | @query _ info query known =>
    obtain ⟨actions, ha, h⟩ := query_succeeds known hs
    refine ⟨actions, ?_, h⟩
    cases e with
    | queryMessagesByID ids => simpa only [processEvent, processEventQueryMessagesByID, hb] using ha
    | queryMessagesByDepth topic depth =>
      simpa only [processEvent, processEventQueryMessagesByDepth, hb] using ha
    | _ => cases query
  | @subscribe subscriptions info known =>
    refine ⟨((subscriptions.filterMap Subscription.verify).map
      (SyncAction.setSubscription · info)).map Action.sync, ?_, splits_sync _⟩
    simp only [processEvent, processEventSubscribe, hb, findPeer_none, known, Attempt.okOr_some,
      Attempt.bind_ok, List.map_filterMap, Option.map_map]
    rfl
  | @unsubscribe topics info known =>
    refine ⟨(topics.map (SyncAction.unsetSubscription · info)).map Action.sync, ?_, splits_sync _⟩
    simp only [processEvent, processEventUnsubscribe, hb, findPeer_none, known, Attempt.okOr_some,
      Attempt.bind_ok, List.map_map]
    rfl
  | @querySubscriptions info known =>
    have fits : (Message.new ⟨d.now, d.nonce⟩
        (.activeSubscriptions (s.activeTopics info.peer d.iter d.keys)) [] :
          Message U T S).Serializable := hs _ List.mem_cons_self
    obtain ⟨w, _, hw⟩ := createSealedMessage_succeeds s info.peer fits
    refine ⟨_, ?_, splits_reply info [] hw⟩
    simp only [processEvent, processEventQuerySubscriptions, hb, findPeer_none, known,
      Attempt.okOr_some, Attempt.bind_ok, hw]
    rfl
  | @activeSubscriptions topics info known =>
    refine ⟨[], ?_, rfl, .nil⟩
    simp only [processEvent, processEventActiveSubscriptions, hb, findPeer_none, known,
      Attempt.okOr_some, Attempt.bind_ok]
    rfl
  | user data => exact ⟨[], by simp only [processEvent, hb], rfl, .nil⟩

omit [Subscription S T] in
private theorem tickPeer_succeeds {s : Sync T} {now : DateTime} {nonce : Pubkey → Nonce}
    {info : PeerInfo} (hs : Due now info →
      (Message.new ⟨now, nonce info.peer.pubkey⟩ .ping [] : Message U T S).Serializable) :
    ∃ actions : List (Action U T S), s.tickPeer now nonce info = .ok actions := by
  simp only [tickPeer]
  split
  · exact ⟨_, rfl⟩
  · next hl =>
    split
    · exact ⟨_, rfl⟩
    · next hover =>
      have due : Due now info := ⟨by omega, fun ho => hover (by simpa [Overdue] using ho)⟩
      obtain ⟨w, _, hw⟩ := createSealedMessage_succeeds s info.peer (hs due)
      exact ⟨_, Attempt.bind_eq_ok.mpr ⟨_, hw, rfl⟩⟩

/-- Every listed effect happens once its messages can be encoded. -/
theorem exec_succeeds {s : Sync T} {call : Call U T S} {as : List (SyncAction T)}
    {sends : List (Sending U T S)} (h : Effect s call as sends)
    (hs : ∀ x ∈ sends, x.message.Serializable) :
    ∃ actions, s.exec call = .ok actions ∧ Splits s actions as sends := by
  cases h with
  | @initComm addr now c parsed => exact ⟨_, exec_initComm now parsed, rfl, .nil⟩
  | @peerConfirm pk name now nonce info known =>
    obtain ⟨w, hseal, h⟩ := peerConfirm_succeeds known name (hs _ List.mem_cons_self)
    exact ⟨_, h, rfl, .cons ⟨rfl, hseal⟩ .nil⟩
  | @tick order now nonce =>
    have hp : ∀ info ∈ order.arrange (HashMap.values s.peers),
        ∃ actions : List (Action U T S), s.tickPeer now nonce info = .ok actions := fun info hi =>
      tickPeer_succeeds fun hd => hs _ (List.mem_map.mpr
        ⟨info, List.mem_filter.mpr ⟨hi, decide_eq_true hd⟩, rfl⟩)
    obtain ⟨actions, ha⟩ := Attempt.mapM_succeeds hp
    have h := (tickPeers_effect (Attempt.mapM_eq_ok.mp ha)).append
      (tickPending_effect s now s.pendingPeerInit)
    rw [List.append_nil] at h
    refine ⟨_, ?_, h⟩
    simp only [exec, Sync.tick, ha, Attempt.bind_ok]
    rfl
  | @init pk d =>
    obtain ⟨w, hseal, h⟩ := exec_init s pk d (hs _ List.mem_cons_self)
    exact ⟨_, h, rfl, .cons ⟨rfl, hseal⟩ .nil⟩
  | @event w d m _ _ opened effect =>
    obtain ⟨actions, ha, h⟩ := processEvent_succeeds effect hs
    exact ⟨actions, (exec_sealed d opened).trans ha, h⟩

/-- A call that fails changes nothing; one that succeeds has one of the effects. -/
theorem next_cases (s : Sync T) (call : Call U T S) :
    (∃ as sends, Effect s call as sends ∧ (∀ x ∈ sends, x.message.Serializable) ∧
      s.next call = s.applySyncActions as) ∨
      ((∃ e, s.exec call = .error e) ∧ s.next call = s) := by
  rcases Attempt.ok_or_error (s.exec call) with ⟨actions, h⟩ | ⟨e, h⟩
  · obtain ⟨as, sends, he, hs⟩ := exec_effect h
    exact .inl ⟨as, sends, he, hs.serializable, by rw [next_ok h, hs.1]⟩
  · exact .inr ⟨⟨e, h⟩, next_error h⟩

theorem next_of_effect {s : Sync T} {call : Call U T S} {as : List (SyncAction T)}
    {sends : List (Sending U T S)} (h : Effect s call as sends)
    (hs : ∀ x ∈ sends, x.message.Serializable) : s.next call = s.applySyncActions as := by
  obtain ⟨actions, ha, hsplit⟩ := exec_succeeds h hs
  rw [next_ok ha, hsplit.1]

end
end
end Sync
end Tp2p
