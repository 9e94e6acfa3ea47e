import Tp2p.Node.Handlers

/-! Two calls that met one snapshot: what their changes leave, one after the other, against
what the calls leave when the second meets what the first one left. -/
namespace Tp2p
open Snapshot

section
variable [Sodium] {U T S : Type} [DecidableEq T]

namespace Sync

/-- The tables as the handlers read them. -/
def tables (s : Sync T) : Tables T :=
  ⟨fun pk => s.peers.lookup pk, s.pendingPeerInit, s.subscribers⟩

/-- To any node the actions do what was decided. -/
structure CarriesOut (as : List (SyncAction T)) (c : Change T) : Prop where
  tables : ∀ s : Sync T, (s.applySyncActions as).tables = s.tables.apply c

theorem carriesOut_nil : CarriesOut ([] : List (SyncAction T)) .nothing := by
  constructor
  intro s
  rw [Tables.apply_nothing, applySyncActions_nil]

theorem carriesOut_setPeer (info : PeerInfo) :
    CarriesOut ([.setPeer info] : List (SyncAction T)) (.set info.peer.pubkey info) := by
  constructor
  intro s
  apply Tables.ext
  · funext pk
    simp only [tables, applySyncActions_cons, applySyncActions_nil, lookup_setPeer, Tables.apply,
      Change.set]
    split <;> rfl
  · simp [tables, Tables.apply, Change.set, Change.nothing]
  · simp [tables, Tables.apply, Change.set, Change.nothing]

theorem carriesOut_greet (info : PeerInfo) :
    CarriesOut ([.setPeer info, .unsetPendingPeer info.connectionInfo] : List (SyncAction T))
      (.greet info) := by
  constructor
  intro s
  have h := (carriesOut_setPeer info).tables s
  apply Tables.ext
  · exact (congrArg Tables.peers h :)
  · simp only [tables, applySyncActions_cons, applySyncActions_nil, pending_unsetPendingPeer,
      pending_setPeer, Tables.apply, Change.greet]
    apply List.filter_congr
    intro p _
    by_cases hp : p.connectionInfo = info.connectionInfo <;> simp [hp]
  · exact (congrArg Tables.subscribers h :)

theorem carriesOut_amend {s : Sync T} (hs : KeysOk s) {pk : Pubkey} {info : PeerInfo}
    (known : s.peers.lookup pk = some info) (amendment : Amendment) :
    CarriesOut [.setPeer (amendment.apply info)] ((Plan.amend pk amendment).decision s.tables) := by
  have filed : (amendment.apply info).peer.pubkey = pk := by
    cases amendment <;> exact (hs.filed known :)
  have h := carriesOut_setPeer (T := T) (amendment.apply info)
  rwa [filed, ← Plan.decision_amend (t := s.tables) known] at h

theorem carriesOut_subscribe (topics : List T) (info : PeerInfo) :
    CarriesOut (topics.map (SyncAction.setSubscription · info))
      (.resubscribe topics (addSubscriber · info)) := by
  constructor
  intro s
  apply Tables.ext
  · funext pk
    simp only [tables, (peers_of_subscriptions ..).1]
    rfl
  · rw [Tables.pending_apply_of_open fun _ => rfl]
    exact (pending_of_subscriptions ..).1
  · funext topic
    exact subscribers_setSubscriptions ..

theorem carriesOut_unsubscribe (topics : List T) (info : PeerInfo) :
    CarriesOut (topics.map (SyncAction.unsetSubscription · info))
      (.resubscribe topics (dropSubscriber · info.peer)) := by
  constructor
  intro s
  apply Tables.ext
  · funext pk
    simp only [tables, (peers_of_subscriptions ..).2]
    rfl
  · rw [Tables.pending_apply_of_open fun _ => rfl]
    exact (pending_of_subscriptions ..).2
  · funext topic
    exact subscribers_unsetSubscriptions ..

theorem carriesOut_prune {t : Tables T} {as : List (SyncAction T)} {now : DateTime}
    (unsets : ∀ a ∈ as, Unsets a) (peers : ∀ pk, .unsetPeer pk ∈ as ↔ t.Lapsed now pk)
    (pending : ∀ c, .unsetPendingPeer c ∈ as ↔ t.Expires now c) :
    CarriesOut as ((Plan.prune now).decision t) := by
  constructor
  intro s
  apply Tables.ext
  · funext pk
    rw [Plan.peers_prune]
    exact (lookup_of_unsets unsets pk).trans (if_congr (peers pk) rfl rfl)
  · rw [Tables.pending_apply]
    apply (pending_of_unsets unsets).trans
    apply List.filter_congr
    intro p _
    simp [pending, Plan.decision]
  · exact subscribers_of_unsets unsets

/-! Each handler carries out its plan -/

section
variable [Rmp (Message U T S)] {m : Message U T S} {p : Plan T} {t : Tables T}

theorem carriesOut_sending {as : List (SyncAction T)} (fits : m.Serializable)
    (h : CarriesOut as (p.decision t)) : CarriesOut as ((Plan.sending m p).decision t) := by
  rwa [Plan.sending, if_pos fits]

theorem decision_sending_of_nothing (h : p.decision t = .nothing) :
    (Plan.sending m p).decision t = .nothing := by
  rw [Plan.sending]
  split
  · exact h
  · rfl

theorem decision_sending_of_not (h : ¬ m.Serializable) : (Plan.sending m p).decision t = .nothing := by
  rw [Plan.sending, if_neg h]
  rfl

end

variable [Rmp (Message U T S)] [Subscription S T]

/-- An event that has its effect has its plan carried out. -/
theorem EventEffect.carriesOut {s : Sync T} (hs : KeysOk s) {pk : Pubkey} {d : Delivery U T S}
    {e : Event U T S} {as : List (SyncAction T)} {sends : List (Sending U T S)}
    (h : EventEffect s pk d e as sends) (fits : ∀ x ∈ sends, x.message.Serializable) :
    CarriesOut as ((s.eventPlan pk d e).decision s.tables) := by
  cases h with
  | rogueHello pending =>
    rw [eventPlan, decision_sending_of_nothing]
    · exact carriesOut_nil
    · rw [Plan.decision, if_neg]
      rintro ⟨p, hp, hc⟩
      exact pending p hp hc
  | hello pending =>
    have opened : s.tables.Opened (s.tmpInfo pk d.connectionInfo d.now).connectionInfo := pending
    apply carriesOut_sending (fits _ List.mem_cons_self)
    rw [Plan.decision, if_pos opened]
    exact carriesOut_greet _
  | peerInit allowed known =>
    rw [eventPlan, if_pos allowed]
    exact carriesOut_sending (fits _ List.mem_cons_self) (carriesOut_amend hs known (.confirm ..))
  | undecided allowed =>
    rw [eventPlan, if_neg allowed]
    exact carriesOut_nil
  | peerConfirm known => exact carriesOut_amend hs known (.confirm ..)
  | ping known =>
    exact carriesOut_sending (fits _ List.mem_cons_self) (carriesOut_amend hs known (.refresh _))
  | pong known => exact carriesOut_amend hs known (.refresh _)
  | subscribe known =>
    have known' : s.tables.peers pk = some _ := known
    simp only [eventPlan, Plan.decision, known']
    exact carriesOut_subscribe ..
  | unsubscribe known =>
    have known' : s.tables.peers pk = some _ := known
    simp only [eventPlan, Plan.decision, known']
    exact carriesOut_unsubscribe ..
  | unanswered query | query query =>
    cases e with
    | queryMessagesByID | queryMessagesByDepth => exact carriesOut_nil
    | _ => cases query
  | querySubscriptions | activeSubscriptions | user => exact carriesOut_nil

omit [Rmp (Message U T S)] [Subscription S T] in
theorem decision_amend_unknown {s : Sync T} {pk : Pubkey} {amendment : Amendment}
    (h : s.peers.lookup pk = none) : (Plan.amend pk amendment).decision s.tables = .nothing := by
  have h' : s.tables.peers pk = none := h
  simp only [Plan.decision, h']

omit [Rmp (Message U T S)] [Subscription S T] in
theorem decision_subscriptions_unknown {s : Sync T} {pk : Pubkey} {topics : List T}
    {change : List PeerInfo → PeerInfo → List PeerInfo} (h : s.peers.lookup pk = none) :
    (Plan.subscriptions pk topics change).decision s.tables = .nothing := by
  have h' : s.tables.peers pk = none := h
  simp only [Plan.decision, h']

/-- An event that cannot have an effect has decided nothing. -/
theorem eventPlan_idle {s : Sync T} {pk : Pubkey} {d : Delivery U T S} {e : Event U T S}
    (h : ∀ as sends, EventEffect s pk d e as sends → ¬ ∀ x ∈ sends, x.message.Serializable) :
    (s.eventPlan pk d e).decision s.tables = .nothing := by
  have unfit {as : List (SyncAction T)} {x : Sending U T S} (effect : EventEffect s pk d e as [x]) :
      ¬ x.message.Serializable := fun fits => h _ _ effect (List.forall_mem_singleton.mpr fits)
  have silent {as : List (SyncAction T)} (effect : EventEffect s pk d e as []) : False :=
    h _ _ effect (List.forall_mem_nil _)
  -- a peer that is not on file has nothing decided about it
  have unknown {p : Plan T} (hp : s.peers.lookup pk = none → p.decision s.tables = .nothing)
      (known : ∀ info, s.peers.lookup pk = some info → False) : p.decision s.tables = .nothing :=
    hp (Option.eq_none_iff_forall_ne_some.mpr known)
  cases e with
  | hello =>
    by_cases opened : s.tables.Opened d.connectionInfo
    · exact decision_sending_of_not (unfit (.hello opened))
    · apply decision_sending_of_nothing
      exact if_neg opened
  | peerInit name =>
    rw [eventPlan]
    split
    · next allowed =>
      cases known : s.peers.lookup pk with
      | none => exact decision_sending_of_nothing (decision_amend_unknown known)
      | some info => exact decision_sending_of_not (unfit (.peerInit allowed known))
    · rfl
  | peerConfirm name =>
    exact unknown decision_amend_unknown fun info known => silent (.peerConfirm known)
  | ping =>
    cases known : s.peers.lookup pk with
    | none => exact decision_sending_of_nothing (decision_amend_unknown known)
    | some info => exact decision_sending_of_not (unfit (.ping known))
  | pong => exact unknown decision_amend_unknown fun info known => silent (.pong known)
  | subscribe subscriptions =>
    exact unknown decision_subscriptions_unknown fun info known => silent (.subscribe known)
  | unsubscribe topics =>
    exact unknown decision_subscriptions_unknown fun info known => silent (.unsubscribe known)
  | _ => rfl

end Sync

namespace Handler
open Sync
variable [Rmp (Message U T S)] [Subscription S T]

/-- The changes carry out what was decided, and write records with the right keys. -/
structure Spec (h : Handler U T S) (s : Sync T) (c : Change T) : Prop where
  carriesOut : CarriesOut (h.changes s) c
  keyed : ∀ a ∈ h.changes s, ∀ info, written a = some info → info.Keyed s.keypair.seckey

theorem Spec.of_error {h : Handler U T S} {s : Sync T} {c : Change T} {e : Error}
    (he : h.run s = .error e) (idle : c = .nothing) : Spec h s c := by
  constructor
  · rw [changes_error he, idle]
    exact carriesOut_nil
  · intro a ha
    rw [changes_error he] at ha
    cases ha

/-- A call succeeds with one of its effects, or none of them can be had. -/
theorem Spec.of_call {h : Handler U T S} {s : Sync T} (hs : KeysOk s) (call : Call U T S)
    {c : Change T} (hrun : h.run s = s.exec call)
    (carried : ∀ as sends, Effect s call as sends → (∀ x ∈ sends, x.message.Serializable) →
      CarriesOut as c)
    (idle : (∀ as sends, Effect s call as sends → ¬ ∀ x ∈ sends, x.message.Serializable) →
      c = .nothing) : Spec h s c := by
  rcases Attempt.ok_or_error (s.exec call) with ⟨actions, he⟩ | ⟨e, he⟩
  · obtain ⟨as, sends, effect, hsplit⟩ := exec_effect he
    have hc : h.changes s = as := (changes_ok (hrun.trans he)).trans hsplit.1
    constructor
    · rw [hc]
      exact carried as sends effect hsplit.serializable
    · rw [hc]
      exact effect.keyed hs
  · apply Spec.of_error (hrun.trans he)
    apply idle
    intro as sends effect fits
    obtain ⟨actions, he', _⟩ := exec_succeeds effect fits
    cases he.symm.trans he'

theorem spec_tick (pings : PingsSeal U T S) {s : Sync T} (hs : KeysOk s)
    (order : IterOrder PeerInfo) (now : DateTime) (nonce : Pubkey → Nonce) :
    Spec (.tick order now nonce : Handler U T S) s ((Plan.prune now).decision s.tables) := by
  apply Spec.of_call hs (.tick order now nonce) rfl
  · intro as sends effect _
    apply carriesOut_prune effect.unsets_of_tick
    · intro pk
      rw [effect.mem_tick hs]
      simp [Tables.Lapsed, tables]
    · intro c
      rw [effect.mem_tick hs]
      simp [Tables.Expires, tables, and_comm, eq_comm]
  · intro h
    refine absurd ?_ (h _ _ .tick)
    intro x hx
    obtain ⟨info, _, rfl⟩ := List.mem_map.mp hx
    exact pings now _

theorem spec_peerConfirm {s : Sync T} (hs : KeysOk s) (pk : Pubkey) (name : String)
    (now : DateTime) (nonce : Nonce) :
    Spec (.peerConfirm pk name now nonce : Handler U T S) s
      (((Handler.peerConfirm pk name now nonce : Handler U T S).plan s).decision s.tables) := by
  apply Spec.of_call hs (.peerConfirm pk name now nonce) rfl
  · intro as sends effect fits
    cases effect with
    | peerConfirm known =>
      exact carriesOut_sending (fits _ List.mem_cons_self) (carriesOut_amend hs known (.confirm ..))
  · intro h
    cases known : s.peers.lookup pk with
    | none => exact decision_sending_of_nothing (decision_amend_unknown known)
    | some info =>
      apply decision_sending_of_not
      intro fits
      exact h _ _ (.peerConfirm known) (List.forall_mem_singleton.mpr fits)

theorem spec_init {s : Sync T} (hs : KeysOk s) (pk : Pubkey) (c : ConnectionInfo) (now : DateTime)
    (nonce : Nonce) :
    Spec (.processInitMessage (.init pk) c now nonce : Handler U T S) s
      (((Handler.processInitMessage (.init pk) c now nonce : Handler U T S).plan s).decision
        s.tables) := by
  apply Spec.of_call hs (.receive (.init pk) ⟨c, now, nonce, [], .stored, .stored⟩) rfl
  · intro as sends effect fits
    cases effect with
    | init => exact carriesOut_sending (fits _ List.mem_cons_self) (carriesOut_setPeer _)
  · intro h
    apply decision_sending_of_not
    intro fits
    exact h _ _ .init (List.forall_mem_singleton.mpr fits)

theorem spec_event {s : Sync T} (hs : KeysOk s) (handler : EventHandler) (m : Message U T S)
    (pk : Pubkey) (d : Delivery U T S) :
    Spec (.processEvent handler m pk d) s
      (((Handler.processEvent handler m pk d).plan s).decision s.tables) := by
  by_cases handled : m.body.handler = some handler
  · rw [plan, if_pos handled]
    have hrun : (Handler.processEvent handler m pk d).run s = s.processEvent m pk d :=
      EventHandler.run_handled handled
    rcases Attempt.ok_or_error (s.processEvent m pk d) with ⟨actions, he⟩ | ⟨e, he⟩
    · obtain ⟨as, sends, effect, hsplit⟩ := processEvent_effect he
      have hc := (changes_ok (hrun.trans he)).trans hsplit.1
      constructor
      · rw [hc]
        exact effect.carriesOut hs hsplit.serializable
      · rw [hc]
        exact effect.keyed hs
    · apply Spec.of_error (hrun.trans he)
      apply eventPlan_idle
      intro as sends effect fits
      obtain ⟨actions, he', _⟩ := processEvent_succeeds effect fits
      cases he.symm.trans he'
  · rw [plan, if_neg handled]
    rcases Attempt.ok_or_error (handler.run s m pk d) with ⟨actions, he⟩ | ⟨e, he⟩
    · have hc : (Handler.processEvent handler m pk d).changes s = [] := by
        rw [changes_ok (h := .processEvent handler m pk d) he,
          EventHandler.run_unhandled handled he, syncActions_nil]
      constructor
      · rw [hc]
        exact carriesOut_nil
      · rw [hc]
        intro a ha
        cases ha
    · exact Spec.of_error he rfl

theorem spec (pings : PingsSeal U T S) {s : Sync T} (hs : KeysOk s) (h : Handler U T S) :
    Spec h s ((h.plan s).decision s.tables) := by
  cases h with
  | tick order now nonce => exact spec_tick pings hs order now nonce
  | peerConfirm pk name now nonce => exact spec_peerConfirm hs pk name now nonce
  | processInitMessage message c now nonce =>
    cases message with
    | init pk => exact spec_init hs pk c now nonce
    | sealed w => exact Spec.of_error rfl rfl
  | processEvent handler m pk d => exact spec_event hs handler m pk d

/-! Two handlers -/

theorem plan_congr {s s' : Sync T} (same : SameSelf s s') (h : Handler U T S) :
    h.plan s' = h.plan s := by
  cases h with
  | tick | peerConfirm => simp only [plan, same.name]
  | processInitMessage message =>
    cases message with
    | init => simp only [plan, tmpInfo, same.keypair]
    | sealed => rfl
  | processEvent handler m =>
    simp only [plan]
    cases m.body with
    | hello => simp only [eventPlan, tmpInfo, same.name, same.keypair]
    | peerInit => simp only [eventPlan, same.name, same.peeringConfig]
    | _ => rfl

theorem changes_keysOk (pings : PingsSeal U T S) {s : Sync T} (hs : KeysOk s) (h : Handler U T S) :
    KeysOk (s.applySyncActions (h.changes s)) :=
  hs.applySyncActions (h.spec pings hs).keyed

theorem tables_both (pings : PingsSeal U T S) {s : Sync T} (hs : KeysOk s) (h h' : Handler U T S) :
    (both applySyncActions h.changes h'.changes s).tables =
      both Tables.apply (h.plan s).decision (h'.plan s).decision s.tables :=
  view_both (h.spec pings hs).carriesOut.tables (h'.spec pings hs).carriesOut.tables

theorem tables_serial (pings : PingsSeal U T S) {s : Sync T} (hs : KeysOk s)
    (h h' : Handler U T S) : (serial applySyncActions h.changes h'.changes s).tables =
      serial Tables.apply (h.plan s).decision (h'.plan s).decision s.tables := by
  apply view_serial ((h.spec pings hs).carriesOut.tables s)
  have same := plan_congr (applySyncActions_sameSelf s (h.changes s)) h'
  rw [← same]
  exact (h'.spec pings (changes_keysOk pings hs h)).carriesOut.tables

end Handler

theorem Sync.SameTables.of_tables {s s' : Sync T} (hs : s.InUse) (hs' : s'.InUse)
    (h : s.tables = s'.tables) : SameTables s s' := by
  apply SameTables.of_subscribers hs hs'
  · exact congrFun (congrArg Tables.peers h)
  · rw [show s.pendingPeerInit = s'.pendingPeerInit from congrArg Tables.pending h]
  · intro t
    rw [show s.subscribers t = s'.subscribers t from congrFun (congrArg Tables.subscribers h) t]

variable [Rmp (Message U T S)] [Subscription S T]
variable {name : String} {keypair : Keypair} {config : PeeringConfig}
variable {past : History U T S} {s : Sync T}

/-- In every reachable state, what two calls decided there leaves, applied one after the
other, what one of the two orders would have left, unless they are in conflict. -/
theorem snapshot_serializable_iff (pings : PingsSeal U T S)
    (run : NodeRun name keypair config past s) (first second : Handler U T S) :
    (Sync.SameTables (both Sync.applySyncActions first.changes second.changes s)
        (serial Sync.applySyncActions first.changes second.changes s) ∨
      Sync.SameTables (both Sync.applySyncActions first.changes second.changes s)
        (serial Sync.applySyncActions second.changes first.changes s)) ↔
      ¬ Conflict s.tables (first.plan s) (second.plan s) := by
  have hs := run.keysOk
  have inUse (as as' : List (SyncAction T)) :
      ((s.applySyncActions as).applySyncActions as').InUse := by
    obtain ⟨log, rfl⟩ := run.replayed
    exact ((Sync.inUse_replayed name keypair config log).applySyncActions as).applySyncActions as'
  constructor
  · intro same conflict
    rcases same with same | same
    · obtain ⟨pk, hne⟩ := conflict.differs.forth
      apply hne
      rw [← Handler.tables_both pings hs, ← Handler.tables_serial pings hs]
      exact same.peers pk
    · obtain ⟨pk, hne⟩ := conflict.differs.back
      apply hne
      rw [← Handler.tables_both pings hs, ← Handler.tables_serial pings hs]
      exact same.peers pk
  · intro h
    rcases (Plan.serializable_iff ..).mpr h with same | same
    · left
      apply Sync.SameTables.of_tables (inUse _ _) (inUse _ _)
      exact (Handler.tables_both pings hs first second).trans
        (same.trans (Handler.tables_serial pings hs first second).symm)
    · right
      apply Sync.SameTables.of_tables (inUse _ _) (inUse _ _)
      exact (Handler.tables_both pings hs first second).trans
        (same.trans (Handler.tables_serial pings hs second first).symm)

end

namespace Sandbox

/-- Bob introduced himself, and is on file unconfirmed. -/
def bobKnown : Sync Unit := after anyone [.receive (.init bob.toPubkey) (delivered 2 0 0 [])]

def bobConfirms : Handler Bool Unit Unit :=
  .processEvent .peerConfirm (message 1 (.peerConfirm "b")) bob.toPubkey (delivered 2 1 1 [])

def bobPings : Handler Bool Unit Unit :=
  .processEvent .ping (message 2 .ping) bob.toPubkey (delivered 2 2 2 [])

def lateTick : Handler Bool Unit Unit := .tick .stored 240000000000 fun _ => 7

/-- Whatever a tick decided, it does not undo a confirmation that met the same state. -/
theorem confirmation_survives_tick :
    Sync.SameTables (both Sync.applySyncActions lateTick.changes bobConfirms.changes bobKnown)
        (serial Sync.applySyncActions lateTick.changes bobConfirms.changes bobKnown) ∨
      Sync.SameTables (both Sync.applySyncActions lateTick.changes bobConfirms.changes bobKnown)
        (serial Sync.applySyncActions bobConfirms.changes lateTick.changes bobKnown) := by
  apply (snapshot_serializable_iff pingsSeal (run anyone _) lateTick bobConfirms).mpr
  intro h
  cases h with
  | stale _ sets =>
    simp only [lateTick, Handler.plan, Plan.decision] at sets
    split at sets <;> cases sets
  | revived _ _ still => cases still.2

/-- A `Ping` that met the state before the confirmation, and is applied after it, undoes it. -/
theorem confirmation_lost :
    NodeRun "a" alice anyone
        (history anyone [.receive (.init bob.toPubkey) (delivered 2 0 0 [])]) bobKnown ∧
      ((both Sync.applySyncActions bobConfirms.changes bobPings.changes bobKnown).peers.lookup
        bob.toPubkey).map (·.active) = some false ∧
      ¬ Sync.SameTables (both Sync.applySyncActions bobConfirms.changes bobPings.changes bobKnown)
        (serial Sync.applySyncActions bobConfirms.changes bobPings.changes bobKnown) ∧
      ¬ Sync.SameTables (both Sync.applySyncActions bobConfirms.changes bobPings.changes bobKnown)
        (serial Sync.applySyncActions bobPings.changes bobConfirms.changes bobKnown) := by
  refine ⟨run anyone _, by decide, fun h => ?_, fun h => ?_⟩
  · have h' := h.peers bob.toPubkey
    revert h'
    decide
  · have h' := h.peers bob.toPubkey
    revert h'
    decide

end Sandbox
end Tp2p
