import Tp2p.Node.Alike
import Tp2p.Node.Frame
import Tp2p.Node.Maintenance
import Tp2p.Node.Queries

/-! What a node holds about a peer depends on what that peer and the application say about it,
and on the clock. However the calls about other peers are mixed in, it comes to the same. -/
namespace Tp2p
open Transition KeyedLog

section
variable [Sodium] {U T S : Type} [DecidableEq T]

/-- The call is about the peer, or about one of the connections that are its own. -/
def Call.concerns (pk : Pubkey) (own : ConnectionInfo → Bool) : Call U T S → Bool
  | .initComm addr _ =>
    match ConnectionInfo.new addr with
    | .ok c => own c
    | .error _ => false
  | .peerConfirm pk' _ _ _ => pk' = pk
  | .tick .. => true
  | .receive message _ => message.pubkeySender = pk

/-- What arrives on a connection of the peer claims to be from it, and nothing else does. -/
def Call.Separate (pk : Pubkey) (own : ConnectionInfo → Bool) : Call U T S → Prop
  | .receive message d => own d.connectionInfo = true ↔ message.pubkeySender = pk
  | _ => True

instance (pk : Pubkey) (own : ConnectionInfo → Bool) (call : Call U T S) :
    Decidable (call.Separate pk own) :=
  match call with
  | .receive message d => inferInstanceAs (Decidable (own d.connectionInfo = true ↔ message.pubkeySender = pk))
  | .initComm .. | .peerConfirm .. | .tick .. => .isTrue True.intro

/-- The action is about another peer or another connection. -/
def SyncAction.Apart (pk : Pubkey) (own : ConnectionInfo → Bool) : SyncAction T → Prop
  | .setPeer info | .setSubscription _ info | .unsetSubscription _ info => info.peer.pubkey ≠ pk
  | .unsetPeer pk' => pk' ≠ pk
  | .setPendingPeer p => own p.connectionInfo = false
  | .unsetPendingPeer c => own c = false

omit [DecidableEq T] in
theorem SyncAction.Within.apart {pk pk' : Pubkey} {own : ConnectionInfo → Bool} {c : ConnectionInfo}
    {a : SyncAction T} (h : a.Within pk' c) (hpk : pk' ≠ pk) (hc : own c = false) : a.Apart pk own := by
  cases a with
  | setPendingPeer p =>
    have hp : p.connectionInfo = c := h
    rw [Apart, hp, hc]
  | unsetPendingPeer c' =>
    have hp : c' = c := h
    rw [Apart, hp, hc]
  | _ =>
    intro he
    exact hpk (h.symm.trans he)

namespace Sync

/-- Two nodes hold the same about the peer and its connections. -/
structure SameView (pk : Pubkey) (own : ConnectionInfo → Bool) (s s' : Sync T) : Prop where
  self : SameSelf s s'
  record : s.peers.lookup pk = s'.peers.lookup pk
  subscribed : ∀ t, (s.subscribers t).filter (fun e => decide (e.peer.pubkey = pk)) =
    (s'.subscribers t).filter (fun e => decide (e.peer.pubkey = pk))
  pending : s.pendingPeerInit.filter (fun p => own p.connectionInfo) =
    s'.pendingPeerInit.filter (fun p => own p.connectionInfo)

namespace SameView
variable {pk : Pubkey} {own : ConnectionInfo → Bool} {s s' s'' : Sync T}

theorem refl (pk : Pubkey) (own : ConnectionInfo → Bool) (s : Sync T) : SameView pk own s s :=
  ⟨.refl s, rfl, fun _ => rfl, rfl⟩

theorem symm (h : SameView pk own s s') : SameView pk own s' s :=
  ⟨h.self.symm, h.record.symm, fun t => (h.subscribed t).symm, h.pending.symm⟩

theorem trans (h : SameView pk own s s') (h' : SameView pk own s' s'') : SameView pk own s s'' :=
  ⟨h.self.trans h'.self, h.record.trans h'.record,
    fun t => (h.subscribed t).trans (h'.subscribed t), h.pending.trans h'.pending⟩

/-- Nothing but what is held about the peer decides what an action does to it. -/
theorem applySyncAction (h : SameView pk own s s') (a : SyncAction T) :
    SameView pk own (s.applySyncAction a) (s'.applySyncAction a) where
  self := (applySyncAction_sameSelf s a).symm.trans (h.self.trans (applySyncAction_sameSelf s' a))
  record := by rw [lookup_applySyncAction, lookup_applySyncAction, h.record]
  subscribed t := by
    rw [subscribers_applySyncAction, subscribers_applySyncAction]
    cases SyncAction.subscriptionOp t a with
    | none => exact h.subscribed t
    | some op =>
      have hs := filter_step_keys (fun e : PeerInfo => e.peer) (fun peer => decide (peer.pubkey = pk))
      rw [hs, hs, h.subscribed]
  pending := by
    rw [pending_applySyncAction, pending_applySyncAction]
    cases SyncAction.pendingOp a with
    | none => exact h.pending
    | some op =>
      have hs := fun entries => filter_step_keys (fun p : PendingPeer => p.connectionInfo) own entries op
      simp only [hs, h.pending]

theorem applySyncActions (h : SameView pk own s s') (as : List (SyncAction T)) :
    SameView pk own (s.applySyncActions as) (s'.applySyncActions as) := by
  induction as generalizing s s' with
  | nil => exact h
  | cons a as ih => exact ih (h.applySyncAction a)

/-- What an action on another peer or another connection does is not seen. -/
theorem of_apart (s : Sync T) {a : SyncAction T} (h : a.Apart pk own) :
    SameView pk own (s.applySyncAction a) s where
  self := (applySyncAction_sameSelf s a).symm
  record := by
    rw [lookup_applySyncAction]
    cases a with
    | setPeer info => exact if_neg h
    | unsetPeer pk' => exact if_neg h
    | _ => rfl
  subscribed t := by
    have hs := filter_step_keys (fun e : PeerInfo => e.peer) (fun peer => decide (peer.pubkey = pk))
    rw [subscribers_applySyncAction]
    cases a with
    | setSubscription t' info =>
      simp only [SyncAction.subscriptionOp]
      split
      · next op ho =>
        split at ho
        · cases ho
          exact (hs _ _).trans (if_neg fun hd => h (of_decide_eq_true hd))
        · cases ho
      · rfl
    | unsetSubscription t' info =>
      simp only [SyncAction.subscriptionOp]
      split
      · next op ho =>
        split at ho
        · cases ho
          exact (hs _ _).trans (if_neg fun hd => h (of_decide_eq_true hd))
        · cases ho
      · rfl
    | _ => rfl
  pending := by
    have hs := filter_step_keys (fun p : PendingPeer => p.connectionInfo) own
    rw [pending_applySyncAction]
    cases a with
    | setPendingPeer p => exact (hs _ (.put p)).trans (if_neg (Bool.eq_false_iff.mp h))
    | unsetPendingPeer c => exact (hs _ (.drop c)).trans (if_neg (Bool.eq_false_iff.mp h))
    | _ => rfl

theorem of_all_apart (s : Sync T) {as : List (SyncAction T)} (h : ∀ a ∈ as, a.Apart pk own) :
    SameView pk own (s.applySyncActions as) s := by
  induction as generalizing s with
  | nil => exact .refl pk own s
  | cons a as ih =>
    have ha := of_apart s (h a List.mem_cons_self)
    exact (ih _ fun b hb => h b (List.mem_cons_of_mem _ hb)).trans ha

/-! The handlers read nothing else, either -/

theorem isPeerSubscribedToTopic (h : SameView pk own s s') (t : T) {peer : Peer}
    (hpeer : peer.pubkey = pk) : s'.isPeerSubscribedToTopic t peer = s.isPeerSubscribedToTopic t peer := by
  have listed : ∀ entries : List PeerInfo, (∃ e ∈ entries, e.peer = peer) ↔
      ∃ e ∈ entries.filter (fun e => decide (e.peer.pubkey = pk)), e.peer = peer := by
    intro entries
    constructor
    · rintro ⟨e, he, rfl⟩
      exact ⟨e, List.mem_filter.mpr ⟨he, decide_eq_true hpeer⟩, rfl⟩
    · rintro ⟨e, he, rfl⟩
      exact ⟨e, (List.mem_filter.mp he).1, rfl⟩
  rw [Bool.eq_iff_iff, isPeerSubscribedToTopic_iff, isPeerSubscribedToTopic_iff,
    listed (s.subscribers t), listed (s'.subscribers t), h.subscribed]

theorem findPendingPeerInit (h : SameView pk own s s') {c : ConnectionInfo} (hc : own c = true) :
    (s'.findPendingPeerInit c).isNone = (s.findPendingPeerInit c).isNone := by
  have listed : ∀ ps : List PendingPeer, (∃ p ∈ ps, p.connectionInfo = c) ↔
      ∃ p ∈ ps.filter (fun p => own p.connectionInfo), p.connectionInfo = c := by
    intro ps
    constructor
    · rintro ⟨p, hp, rfl⟩
      exact ⟨p, List.mem_filter.mpr ⟨hp, hc⟩, rfl⟩
    · rintro ⟨p, hp, rfl⟩
      exact ⟨p, (List.mem_filter.mp hp).1, rfl⟩
  have hsome : (s'.findPendingPeerInit c).isSome = (s.findPendingPeerInit c).isSome := by
    rw [Bool.eq_iff_iff, findPendingPeerInit_isSome, findPendingPeerInit_isSome,
      listed s.pendingPeerInit, listed s'.pendingPeerInit, h.pending]
  rw [← Option.not_isSome, ← Option.not_isSome, hsome]

variable [Rmp (Message U T S)]

theorem createSealedMessage (h : SameView pk own s s') :
    (s'.createSealedMessage : _ → Event U T S → _) = s.createSealedMessage := by
  funext peer body graph now nonce
  rw [Sync.createSealedMessage, Sync.createSealedMessage, h.self.keypair]

theorem peerConfirm (h : SameView pk own s s') (name : String) (now : DateTime) (nonce : Nonce) :
    (s'.peerConfirm pk name now nonce : Except Error (List (Action U T S))) =
      s.peerConfirm pk name now nonce := by
  simp only [Sync.peerConfirm, findPeer_none, ← h.record, h.createSealedMessage, h.self.name]

theorem answerQuery (h : SameView pk own s s') (hs : s.KeysOk) (messages : List (Message U T S)) :
    s'.answerQuery pk messages = s.answerQuery pk messages := by
  simp only [Sync.answerQuery, findPeer_none, ← h.record]
  cases hl : s.peers.lookup pk with
  | none => rfl
  | some info =>
    have hfilter : s'.filterMessageByPeer info.peer =
        (s.filterMessageByPeer info.peer : Message U T S → Bool) := by
      funext m
      simp only [filterMessageByPeer, h.isPeerSubscribedToTopic _ (hs.filed hl)]
    simp only [Attempt.okOr_some, Attempt.bind_ok, hfilter, h.self.keypair]

variable [Subscription S T]

theorem processEvent (h : SameView pk own s s') (hs : s.KeysOk) {m : Message U T S} {d : Delivery U T S}
    (hown : own d.connectionInfo = true) (hbody : m.body ≠ .querySubscriptions) :
    s'.processEvent m pk d = s.processEvent m pk d := by
  cases hb : m.body with
  | hello =>
    simp only [Sync.processEvent, processEventHello, hb, h.findPendingPeerInit hown,
      h.createSealedMessage, h.self.name, h.self.keypair]
  | peerInit name =>
    simp only [Sync.processEvent, processEventPeerInit, hb, h.self.peeringConfig, h.peerConfirm]
  | peerConfirm name =>
    simp only [Sync.processEvent, processEventPeerConfirm, hb, findPeer_none, ← h.record]
  | ping =>
    simp only [Sync.processEvent, processEventPing, hb, findPeer_none, ← h.record,
      h.createSealedMessage]
  | pong => simp only [Sync.processEvent, processEventPong, hb, findPeer_none, ← h.record]
  | queryMessagesByID ids =>
    simp only [Sync.processEvent, processEventQueryMessagesByID, hb, h.answerQuery hs]
  | queryMessagesByDepth topic depth =>
    simp only [Sync.processEvent, processEventQueryMessagesByDepth, hb, h.answerQuery hs]
  | subscribe subscriptions =>
    simp only [Sync.processEvent, processEventSubscribe, hb, findPeer_none, ← h.record]
  | unsubscribe topics =>
    simp only [Sync.processEvent, processEventUnsubscribe, hb, findPeer_none, ← h.record]
  | querySubscriptions => exact absurd hb hbody
  | activeSubscriptions topics =>
    simp only [Sync.processEvent, processEventActiveSubscriptions, hb, findPeer_none, ← h.record]
  | user data => simp only [Sync.processEvent, hb]

omit [Subscription S T] in
theorem heard (h : SameView pk own s s') {message : MessageWrapped} (hpk : message.pubkeySender = pk)
    (d : Delivery U T S) :
    (s'.heard (.receive message d) : Option (Pubkey × Event U T S)) = s.heard (.receive message d) := by
  cases message with
  | init pk' => rfl
  | sealed w =>
    have record : s.peers.lookup w.pubkeySender = s'.peers.lookup w.pubkeySender := by
      rw [show w.pubkeySender = pk from hpk, h.record]
    simp only [Sync.heard, unwrap_congr h.self.keypair.symm record]

/-- A message from the peer is answered alike. -/
theorem receive (h : SameView pk own s s') (hs : s.KeysOk) {message : MessageWrapped}
    (hpk : message.pubkeySender = pk) {d : Delivery U T S} (hown : own d.connectionInfo = true)
    (hbody : s.heard (.receive message d) ≠ some (pk, .querySubscriptions)) :
    s'.receive message d = s.receive message d := by
  cases message with
  | init pk' => simp only [Sync.receive, processInitMessage, h.self.keypair]
  | sealed w =>
    have record : s.peers.lookup w.pubkeySender = s'.peers.lookup w.pubkeySender := by
      rw [show w.pubkeySender = pk from hpk, h.record]
    rw [Sync.receive, Sync.receive, ← unwrap_congr h.self.keypair.symm record]
    cases opened : (s.unwrapIncomingMessage w : Except Error (Message U T S)) with
    | error e => rfl
    | ok m =>
      have hm : m.body ≠ .querySubscriptions := by
        intro hm
        apply hbody
        rw [Sync.heard, opened]
        exact congrArg some (Prod.ext hpk hm)
      rw [Attempt.bind_ok, Attempt.bind_ok, show w.pubkeySender = pk from hpk,
        h.processEvent hs hown hm]

/-- The topics listed for the peer are the same, but may come in another order. -/
theorem activeTopics_perm (h : SameView pk own s s') {peer : Peer} (hpeer : peer.pubkey = pk)
    (iter : IterOrder (Sigma fun _ : T => List PeerInfo)) (keys : IterOrder T) :
    (s.activeTopics peer iter keys).Perm (s'.activeTopics peer iter keys) := by
  refine (List.perm_ext_iff_of_nodup (activeTopics_nodup ..) (activeTopics_nodup ..)).mpr fun t => ?_
  rw [mem_activeTopics, mem_activeTopics, h.isPeerSubscribedToTopic t hpeer]

/-- So is the answer to a peer that asks for them. -/
theorem receive_querySubscriptions (h : SameView pk own s s') (hs : s.KeysOk)
    {message : MessageWrapped} {d : Delivery U T S}
    (heard : s.heard (.receive message d) = some (pk, .querySubscriptions)) :
    ∃ info topics topics', s.peers.lookup pk = some info ∧ topics.Perm topics' ∧
      s.receive message d = s.listTopics info d topics ∧
      s'.receive message d = s.listTopics info d topics' := by
  obtain ⟨w, _, m, hcall, opened, rfl, hbody⟩ := heard_eq_some.mp heard
  cases hcall
  have opened' : s'.unwrapIncomingMessage w = .ok m := by
    rw [← opened, unwrap_congr h.self.keypair.symm h.record]
  have gate := (hs.unwrap_ok.mp opened).2
  rw [hbody] at gate
  obtain ⟨info, known⟩ := Option.isSome_iff_exists.mp (gate.resolve_left nofun)
  have known' := h.record.symm.trans known
  refine ⟨info, _, _, known, h.activeTopics_perm (hs.filed known) d.iter d.keys, ?_, ?_⟩
  · exact (exec_sealed d opened).trans (processEvent_querySubscriptions known hbody d)
  · refine ((exec_sealed d opened').trans (processEvent_querySubscriptions known' hbody d)).trans ?_
    rw [listTopics, listTopics, h.self.keypair]

/-- The same result does the same to what is held. -/
theorem next_of_exec (h : SameView pk own s s') {call : Call U T S} (hexec : s'.exec call = s.exec call) :
    SameView pk own (s.next call) (s'.next call) := by
  rcases Attempt.ok_or_error (s.exec call) with ⟨actions, ha⟩ | ⟨e, he⟩
  · rw [next_ok ha, next_ok (hexec.trans ha)]
    exact h.applySyncActions _
  · rw [next_error he, next_error (hexec.trans he)]
    exact h

end SameView

variable [Rmp (Message U T S)] [Subscription S T]

/-- A query for the subscriptions changes nothing. -/
theorem next_of_querySubscriptions {s : Sync T} {call : Call U T S} {pk : Pubkey}
    (heard : s.heard call = some (pk, .querySubscriptions)) : s.next call = s := by
  obtain ⟨w, d, m, rfl, opened, rfl, hbody⟩ := heard_eq_some.mp heard
  rcases next_cases s (.receive (.sealed w) d) with ⟨as, sends, effect, _, hn⟩ | ⟨_, hn⟩
  · cases effect with
    | event opened' effect =>
      cases opened.symm.trans opened'
      rw [hbody] at effect
      cases effect with
      | querySubscriptions => exact hn
      | unanswered query | query query => cases query
  · exact hn

omit [DecidableEq T] [Rmp (Message U T S)] [Subscription S T] in
theorem concerns_initComm {pk : Pubkey} {own : ConnectionInfo → Bool} {addr : String} {now : DateTime}
    {c : ConnectionInfo} (parsed : ConnectionInfo.new addr = .ok c) :
    (Call.initComm addr now : Call U T S).concerns pk own = own c := by
  simp only [Call.concerns, parsed]

/-- A call about the peer changes what two nodes hold about it in the same way. -/
theorem SameView.next {name : String} {keypair : Keypair} {config : PeeringConfig}
    {past past' : History U T S} {s s' : Sync T} {pk : Pubkey} {own : ConnectionInfo → Bool}
    (pings : PingsSeal U T S) (run : NodeRun name keypair config past s)
    (run' : NodeRun name keypair config past' s') (h : SameView pk own s s') {call : Call U T S}
    (separate : call.Separate pk own) (concerns : call.concerns pk own = true) :
    SameView pk own (s.next call) (s'.next call) := by
  cases call with
  | initComm addr now =>
    apply h.next_of_exec
    simp only [exec, initComm, h.self.keypair]
  | peerConfirm pk' name now nonce =>
    obtain rfl : pk' = pk := of_decide_eq_true concerns
    exact h.next_of_exec (h.peerConfirm name now nonce)
  | tick order now nonce =>
    have pruned := run.tick_prunes pings order now nonce
    have pruned' := run'.tick_prunes pings order now nonce
    refine ⟨pruned.self.symm.trans (h.self.trans pruned'.self), ?_, fun t => ?_, ?_⟩
    · rw [pruned.peers, pruned'.peers, h.record]
    · rw [subscribers, pruned.subscriptions, subscribers, pruned'.subscriptions]
      exact h.subscribed t
    · rw [pruned.pending, pruned'.pending, List.filter_comm, h.pending, List.filter_comm]
  | receive message d =>
    have hpk : message.pubkeySender = pk := of_decide_eq_true concerns
    by_cases heard : s.heard (.receive message d) = some (pk, (.querySubscriptions : Event U T S))
    · rw [next_of_querySubscriptions heard, next_of_querySubscriptions ((h.heard hpk d).trans heard)]
      exact h
    · exact h.next_of_exec (h.receive run.keysOk hpk (separate.mpr hpk) heard)

/-- A call about others changes nothing about it. -/
theorem SameView.skip {s s' : Sync T} {pk : Pubkey} {own : ConnectionInfo → Bool} (hs : s.KeysOk)
    (h : SameView pk own s s') {call : Call U T S} (separate : call.Separate pk own)
    (concerns : call.concerns pk own = false) : SameView pk own (s.next call) s' := by
  rcases next_cases s call with ⟨as, sends, effect, _, hn⟩ | ⟨_, hn⟩
  · rw [hn]
    refine (of_all_apart s fun a ha => ?_).trans h
    cases call with
    | initComm addr now =>
      cases effect with
      | initComm parsed =>
        cases List.mem_singleton.mp ha
        exact (concerns_initComm parsed).symm.trans concerns
    | peerConfirm pk' name now nonce =>
      cases effect with
      | peerConfirm known =>
        cases List.mem_singleton.mp ha
        intro he
        exact of_decide_eq_false concerns ((hs.filed known).symm.trans he)
    | tick => cases concerns
    | receive message d =>
      have hpk : message.pubkeySender ≠ pk := of_decide_eq_false concerns
      have hc : own d.connectionInfo = false := Bool.eq_false_iff.mpr fun hown => hpk (separate.mp hown)
      exact ((effect.within hs).1 a ha).apart hpk hc
  · rw [hn]
    exact h

end Sync

variable [Rmp (Message U T S)] [Subscription S T]
variable {name : String} {keypair : Keypair} {config : PeeringConfig}
variable {past : History U T S} {s : Sync T}

theorem NodeRun.reaches (run : NodeRun name keypair config past s) (calls : List (Call U T S)) :
    ∃ past' : History U T S, NodeRun name keypair config past' (reach Sync.next s calls) := by
  induction calls with
  | nil => exact ⟨past, run⟩
  | cons call calls ih =>
    obtain ⟨past', run'⟩ := ih
    exact ⟨_, run'.step call⟩

/-- The calls about the peer alone decide what is held about it. -/
theorem NodeRun.view_of_concerns (pings : PingsSeal U T S) (run : NodeRun name keypair config past s)
    {pk : Pubkey} {own : ConnectionInfo → Bool} {calls : List (Call U T S)}
    (separate : ∀ call ∈ calls, call.Separate pk own) :
    Sync.SameView pk own (reach Sync.next s calls)
      (reach Sync.next s (calls.filter (·.concerns pk own))) := by
  let Related (t t' : Sync T) : Prop := (∃ past : History U T S, NodeRun name keypair config past t) ∧
    (∃ past' : History U T S, NodeRun name keypair config past' t') ∧ Sync.SameView pk own t t'
  have start : Related s s := ⟨⟨past, run⟩, ⟨past, run⟩, .refl pk own s⟩
  refine (reach_purge (R := Related) ?_ ?_ start separate).2.2
  · rintro t t' call ⟨⟨_, run⟩, ⟨_, run'⟩, h⟩ hsep hc
    exact ⟨⟨_, run.step call⟩, ⟨_, run'.step call⟩, h.next pings run run' hsep hc⟩
  · rintro t t' call ⟨⟨_, run⟩, run', h⟩ hsep hc
    exact ⟨⟨_, run.step call⟩, run', h.skip (NodeRun.keysOk run) hsep hc⟩

/-- Two runs that make the same calls about a peer, in the same order, mixed with whatever calls
about others, where what arrives on a connection of the peer claims to be from it and nothing else
does: the node holds the same about the peer, and gives it the same answers. Only the list of its
topics may come in another order. -/
theorem peer_independent (pings : PingsSeal U T S) (run : NodeRun name keypair config past s)
    {pk : Pubkey} {own : ConnectionInfo → Bool} {calls calls' : List (Call U T S)}
    (separate : ∀ call ∈ calls, call.Separate pk own)
    (separate' : ∀ call ∈ calls', call.Separate pk own)
    (same : calls.filter (·.concerns pk own) = calls'.filter (·.concerns pk own)) :
    Sync.SameView pk own (reach Sync.next s calls) (reach Sync.next s calls') ∧
      (∀ (message : MessageWrapped) (d : Delivery U T S), message.pubkeySender = pk →
        own d.connectionInfo = true →
        (reach Sync.next s calls).heard (.receive message d) ≠ some (pk, .querySubscriptions) →
        (reach Sync.next s calls').receive message d = (reach Sync.next s calls).receive message d) ∧
      ∀ (message : MessageWrapped) (d : Delivery U T S),
        (reach Sync.next s calls).heard (.receive message d) = some (pk, .querySubscriptions) →
        ∃ info topics topics', (reach Sync.next s calls).peers.lookup pk = some info ∧
          topics.Perm topics' ∧
          (reach Sync.next s calls).receive message d = s.listTopics info d topics ∧
          (reach Sync.next s calls').receive message d = s.listTopics info d topics' := by
  have h := run.view_of_concerns pings separate
  have h' := run.view_of_concerns pings separate'
  rw [← same] at h'
  have view := h.trans h'.symm
  obtain ⟨_, reached⟩ := run.reaches calls
  refine ⟨view, fun message d hpk hown heard => view.receive reached.keysOk hpk hown heard,
    fun message d heard => ?_⟩
  obtain ⟨info, topics, topics', known, perm, answer, answer'⟩ :=
    view.receive_querySubscriptions reached.keysOk heard
  have hself : (reach Sync.next s calls).keypair = s.keypair :=
    (reached.sameSelf.keypair).trans run.sameSelf.keypair.symm
  refine ⟨info, topics, topics', known, perm, ?_, ?_⟩
  · rw [answer, Sync.listTopics, Sync.listTopics, hself]
  · rw [answer', Sync.listTopics, Sync.listTopics, hself]

end

namespace Sandbox

/-- Mallory knocks before or after the application confirms Bob. -/
theorem bob_apart_from_mallory :
    (after anyone [.peerConfirm bob.toPubkey "b" 0 1, .receive (.init mallory.toPubkey) (delivered 3 0 2 []),
        .receive (.init bob.toPubkey) (delivered 2 0 0 [])]).peers.lookup bob.toPubkey =
      (after anyone (.receive (.init mallory.toPubkey) (delivered 3 0 2 []) :: bobConfirmed)).peers.lookup
        bob.toPubkey := by
  have separate : ∀ call ∈ ([.peerConfirm bob.toPubkey "b" 0 1,
      .receive (.init mallory.toPubkey) (delivered 3 0 2 []),
      .receive (.init bob.toPubkey) (delivered 2 0 0 [])] : List (Call Bool Unit Unit)),
      call.Separate bob.toPubkey (· = connection 2) := by decide
  have separate' : ∀ call ∈ .receive (.init mallory.toPubkey) (delivered 3 0 2 []) :: bobConfirmed,
      call.Separate bob.toPubkey (· = connection 2) := by decide
  exact (peer_independent pingsSeal (run anyone []) separate separate' rfl).1.record

end Sandbox
end Tp2p
