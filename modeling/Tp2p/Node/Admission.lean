import Tp2p.Lib.Relational
import Tp2p.Node.Alike
import Tp2p.Node.Maintenance

/-! Two nodes that differ in whom they let in, and get the same calls: the stricter one never
comes to know or to activate anybody whom the other does not. -/
namespace Tp2p
open Transition

section
variable [Sodium]

/-- Whom the one configuration lets in without asking, the other does as well. -/
def PeeringConfig.Stricter (config config' : PeeringConfig) : Prop :=
  ∀ pk, config.canConfirm pk = some true → config'.canConfirm pk = some true

/-- There is no record, or the same as on the other side, or the other side has an active one. -/
def Admitted (r r' : Option PeerInfo) : Prop :=
  r = none ∨ r = r' ∨ ∃ info', r' = some info' ∧ info'.active = true

variable {U T S : Type} [DecidableEq T]

namespace Sync

/-- The one node has let in nobody but whom the other has. -/
structure Admits (s s' : Sync T) : Prop where
  name : s'.name = s.name
  keypair : s'.keypair = s.keypair
  stricter : s.peeringConfig.Stricter s'.peeringConfig
  pending : s'.pendingPeerInit = s.pendingPeerInit
  records : ∀ pk, Admitted (s.peers.lookup pk) (s'.peers.lookup pk)

/-- The same actions do the same to a record that is the same. -/
theorem lookup_congr {s s' : Sync T} {pk : Pubkey} (h : s.peers.lookup pk = s'.peers.lookup pk)
    (as : List (SyncAction T)) :
    (s.applySyncActions as).peers.lookup pk = (s'.applySyncActions as).peers.lookup pk := by
  induction as generalizing s s' with
  | nil => exact h
  | cons a as ih =>
    apply ih
    rw [lookup_applySyncAction, lookup_applySyncAction, h]

theorem pending_congr {s s' : Sync T} (h : s'.pendingPeerInit = s.pendingPeerInit)
    (as : List (SyncAction T)) :
    (s'.applySyncActions as).pendingPeerInit = (s.applySyncActions as).pendingPeerInit := by
  induction as generalizing s s' with
  | nil => exact h
  | cons a as ih =>
    apply ih
    rw [pending_applySyncAction, pending_applySyncAction, h]

theorem pending_of_none (s : Sync T) {as : List (SyncAction T)}
    (h : ∀ a ∈ as, SyncAction.pendingOp a = none) :
    (s.applySyncActions as).pendingPeerInit = s.pendingPeerInit := by
  induction as generalizing s with
  | nil => rfl
  | cons a as ih =>
    have ha := h a List.mem_cons_self
    rw [applySyncActions_cons, ih _ fun b hb => h b (List.mem_cons_of_mem _ hb),
      pending_applySyncAction, ha]

variable [Rmp (Message U T S)] [Subscription S T]

/-- Of what is received, only a `Hello` touches the pending initiations. -/
theorem pending_of_receive (s : Sync T) {message : MessageWrapped} {d : Delivery U T S}
    (h : ∀ pk, s.heard (.receive message d) ≠ some (pk, .hello)) :
    (s.next (.receive message d)).pendingPeerInit = s.pendingPeerInit := by
  rcases next_cases s (.receive message d) with ⟨as, sends, effect, _, hn⟩ | ⟨_, hn⟩
  · rw [hn]
    apply pending_of_none
    intro a ha
    cases effect with
    | init =>
      cases List.mem_singleton.mp ha
      rfl
    | @event w _ m _ _ opened effect =>
      have heard := heard_eq_some.mpr ⟨w, d, m, rfl, opened, rfl, rfl⟩
      generalize m.body = e at heard effect
      cases effect with
      | hello => exact absurd heard (h _)
      | peerInit | peerConfirm | ping | pong =>
        cases List.mem_singleton.mp ha
        rfl
      | subscribe | unsubscribe =>
        obtain ⟨_, _, rfl⟩ := List.mem_map.mp ha
        rfl
      | _ => cases ha
  · rw [hn]

/-- A `Ping` or `Pong` is processed alike by nodes that have the same record of its sender. -/
theorem lookup_next_of_sign {s s' : Sync T} (keypair : s'.keypair = s.keypair) {pk : Pubkey}
    (record : s.peers.lookup pk = s'.peers.lookup pk) {call : Call U T S}
    (heard : s.heard call = some (pk, .ping) ∨ s.heard call = some (pk, .pong)) :
    (s.next call).peers.lookup pk = (s'.next call).peers.lookup pk := by
  have hexec : s'.exec call = s.exec call := by
    rcases heard with heard | heard
    · obtain ⟨w, d, m, rfl, opened, rfl, hm⟩ := heard_eq_some.mp heard
      rw [exec_sealed d opened, exec_sealed d ((unwrap_congr keypair.symm record).symm.trans opened)]
      simp only [processEvent, processEventPing, hm, findPeer_none, record, createSealedMessage, keypair]
    · obtain ⟨w, d, m, rfl, opened, rfl, hm⟩ := heard_eq_some.mp heard
      rw [exec_sealed d opened, exec_sealed d ((unwrap_congr keypair.symm record).symm.trans opened)]
      simp only [processEvent, processEventPong, hm, findPeer_none, record]
  rcases Attempt.ok_or_error (s.exec call) with ⟨actions, ha⟩ | ⟨e, he⟩
  · rw [next_ok ha, next_ok (hexec.trans ha)]
    exact lookup_congr record _
  · rw [next_error he, next_error (hexec.trans he)]
    exact record

namespace Admits
variable {s s' : Sync T}

omit [Rmp (Message U T S)] [Subscription S T] in
theorem tmpInfo (h : Admits s s') (pk : Pubkey) (c : ConnectionInfo) (now : DateTime) :
    s'.tmpInfo pk c now = s.tmpInfo pk c now := by
  rw [Sync.tmpInfo, Sync.tmpInfo, h.keypair]

omit [Subscription S T] in
/-- What the stricter node lets pass, the other does as well. -/
theorem opened (h : Admits s s') (hs : s.KeysOk) (hs' : s'.KeysOk) {w : MessageSealed}
    {m : Message U T S} (opened : s.unwrapIncomingMessage w = .ok m) :
    s'.unwrapIncomingMessage w = .ok m := by
  obtain ⟨ho, gate⟩ := hs.unwrap_ok.mp opened
  refine hs'.unwrap_ok.mpr ⟨by rw [h.keypair]; exact ho, gate.imp_right fun known => ?_⟩
  rcases h.records w.pubkeySender with hn | he | ⟨info', hl, _⟩
  · rw [hn] at known
    cases known
  · rw [← he]
    exact known
  · rw [hl]
    rfl

omit [Subscription S T] in
theorem opened_greeting (h : Admits s s') (hs : s.KeysOk) (hs' : s'.KeysOk) {w : MessageSealed}
    {m : Message U T S} (opened' : s'.unwrapIncomingMessage w = .ok m) (greeting : m.body.isGreeting = true) :
    s.unwrapIncomingMessage w = .ok m := by
  have ho := (hs'.unwrap_ok.mp opened').1
  rw [h.keypair] at ho
  exact hs.unwrap_ok.mpr ⟨ho, .inl greeting⟩

omit [Subscription S T] in
theorem registers_iff (h : Admits s s') (hs : s.KeysOk) (hs' : s'.KeysOk) {call : Call U T S}
    {pk : Pubkey} {c : ConnectionInfo} {now : DateTime} :
    Registers s call pk c now ↔ Registers s' call pk c now := by
  constructor
  · intro registers
    cases registers with
    | init fits => exact .init fits
    | hello opened body pending fits =>
      exact .hello (h.opened hs hs' opened) body (by rw [h.pending]; exact pending)
        (by rw [h.name]; exact fits)
  · intro registers
    cases registers with
    | init fits => exact .init fits
    | hello opened' body pending fits =>
      rw [h.pending] at pending
      rw [h.name] at fits
      exact .hello (h.opened_greeting hs hs' opened' (by rw [body]; rfl)) body pending fits

omit [Subscription S T] in
theorem confirms (h : Admits s s') (hs : s.KeysOk) (hs' : s'.KeysOk) {call : Call U T S}
    {pk : Pubkey} {name : String} {now : DateTime} (confirms : Confirms s call pk name now) :
    Confirms s' call pk name now := by
  cases confirms with
  | app fits => exact .app (by rw [h.name]; exact fits)
  | peerInit opened body allowed fits =>
    exact .peerInit (h.opened hs hs' opened) body (h.stricter _ allowed) (by rw [h.name]; exact fits)
  | peerConfirm opened body => exact .peerConfirm (h.opened hs hs' opened) body

/-- What a call does to the record of a peer on either side. -/
theorem records_next (pings : PingsSeal U T S) (h : Admits s s') (hs : s.KeysOk) (hs' : s'.KeysOk)
    (call : Call U T S) (pk : Pubkey) :
    Admitted ((s.next call).peers.lookup pk) ((s'.next call).peers.lookup pk) := by
  have registered : ∀ {c now}, Registers s call pk c now →
      (s.next call).peers.lookup pk = (s'.next call).peers.lookup pk := by
    intro c now registers
    rw [registers.lookup, ((h.registers_iff hs hs').mp registers).lookup, h.tmpInfo]
  have registered' : ∀ {c now}, Registers s' call pk c now →
      (s.next call).peers.lookup pk = (s'.next call).peers.lookup pk :=
    fun registers => registered ((h.registers_iff hs hs').mpr registers)
  have hr := next_record hs call pk
  have hr' := next_record hs' call pk
  generalize hx : (s.next call).peers.lookup pk = r at hr registered registered' ⊢
  generalize hx' : (s'.next call).peers.lookup pk = r' at hr' registered registered' ⊢
  rcases h.records pk with none | record | ⟨info', known', active⟩
  · -- who is unknown can only be registered
    cases hr with
    | same => exact .inl none
    | registered registers => exact .inr (.inl (registered registers))
    | confirmed known | refreshed known => cases none.symm.trans known
    | forgotten => exact .inl rfl
  · cases hr with
    | registered registers => exact .inr (.inl (registered registers))
    | confirmed known confirms =>
      have known' := record.symm.trans known
      have hl := (h.confirms hs hs' confirms).lookup hs' known'
      exact .inr (.inl (hl.symm.trans hx'))
    | refreshed known heard =>
      have hl := lookup_next_of_sign h.keypair record heard
      exact .inr (.inl (hx.symm.trans (hl.trans hx')))
    | forgotten => exact .inl rfl
    | same =>
      cases hr' with
      | same => exact .inr (.inl record)
      | registered registers => exact .inr (.inl (registered' registers))
      | confirmed => exact .inr (.inr ⟨_, rfl, rfl⟩)
      | refreshed known' heard =>
        have hl := lookup_next_of_sign h.keypair.symm record.symm heard
        exact .inr (.inl (hx.symm.trans (hl.symm.trans hx')))
      | forgotten forgets =>
        cases forgets with
        | tick known' overdue =>
          rw [lookup_tick hs fun _ info _ _ => pings _ _, record.trans known', Option.filter_some,
            if_neg (by simpa using overdue)] at hx
          exact .inl (record.trans known' ▸ hx.symm)
  · cases hr' with
    | same => exact .inr (.inr ⟨info', known', active⟩)
    | registered registers => exact .inr (.inl (registered' registers))
    | confirmed => exact .inr (.inr ⟨_, rfl, rfl⟩)
    | refreshed known =>
      cases known'.symm.trans known
      exact .inr (.inr ⟨_, rfl, active⟩)
    | forgotten forgets =>
      cases forgets with
      | tick known overdue =>
        cases known'.symm.trans known
        cases active.symm.trans overdue.2

/-- The same result does the same to the pending initiations. -/
theorem pending_of_exec (h : Admits s s') {call : Call U T S} (hexec : s'.exec call = s.exec call) :
    (s'.next call).pendingPeerInit = (s.next call).pendingPeerInit := by
  rcases Attempt.ok_or_error (s.exec call) with ⟨actions, ha⟩ | ⟨e, he⟩
  · rw [next_ok ha, next_ok (hexec.trans ha)]
    exact pending_congr h.pending _
  · rw [next_error he, next_error (hexec.trans he)]
    exact h.pending

theorem pending_of_message (h : Admits s s') (hs : s.KeysOk) (hs' : s'.KeysOk) {message : MessageWrapped}
    {d : Delivery U T S} : (s'.next (.receive message d)).pendingPeerInit =
      (s.next (.receive message d)).pendingPeerInit := by
  by_cases hello : ∃ pk, s.heard (.receive message d) = some (pk, .hello)
  · obtain ⟨pk, heard⟩ := hello
    obtain ⟨w, _, m, hcall, opened, rfl, hm⟩ := heard_eq_some.mp heard
    cases hcall
    apply h.pending_of_exec
    have initiated : s'.findPendingPeerInit d.connectionInfo = s.findPendingPeerInit d.connectionInfo := by
      rw [findPendingPeerInit, findPendingPeerInit, h.pending]
    have sealed : (s'.createSealedMessage : _ → Event U T S → _) = s.createSealedMessage := by
      funext peer body graph now nonce
      rw [createSealedMessage, createSealedMessage, h.keypair]
    rw [exec_sealed d opened, exec_sealed d (h.opened hs hs' opened)]
    simp only [processEvent, processEventHello, hm, initiated, sealed, h.keypair, h.name]
  · have quiet' : ∀ pk, s'.heard (.receive message d) ≠ some (pk, .hello) := by
      intro pk heard
      obtain ⟨w, d', m, hcall, opened', rfl, hm⟩ := heard_eq_some.mp heard
      have opened := h.opened_greeting hs hs' opened' (by rw [hm]; rfl)
      exact hello ⟨_, heard_eq_some.mpr ⟨w, d', m, hcall, opened, rfl, hm⟩⟩
    rw [pending_of_receive s' quiet', pending_of_receive s fun pk heard => hello ⟨pk, heard⟩, h.pending]

/-- Whatever is called on both, it stays that way. -/
theorem next {name : String} {keypair : Keypair} {config config' : PeeringConfig}
    {past past' : History U T S} (pings : PingsSeal U T S) (h : Admits s s')
    (run : NodeRun name keypair config past s) (run' : NodeRun name keypair config' past' s')
    (call : Call U T S) : Admits (s.next call) (s'.next call) := by
  have self := next_sameSelf s call
  have self' := next_sameSelf s' call
  refine ⟨?_, ?_, ?_, ?_, fun pk => h.records_next pings run.keysOk run'.keysOk call pk⟩
  · rw [self.name, self'.name, h.name]
  · rw [self.keypair, self'.keypair, h.keypair]
  · rw [self.peeringConfig, self'.peeringConfig]
    exact h.stricter
  · cases call with
    | initComm addr now =>
      apply h.pending_of_exec
      simp only [exec, initComm, h.keypair]
    | peerConfirm pk name now nonce =>
      have unchanged : ∀ t : Sync T, (t.next (.peerConfirm pk name now nonce : Call U T S)).pendingPeerInit =
          t.pendingPeerInit := by
        intro t
        rcases next_cases t (.peerConfirm pk name now nonce : Call U T S) with ⟨_, _, effect, _, hn⟩ | ⟨_, hn⟩
        · cases effect
          rw [hn]
          rfl
        · rw [hn]
      rw [unchanged, unchanged, h.pending]
    | tick order now nonce =>
      rw [(run.tick_prunes pings order now nonce).pending, (run'.tick_prunes pings order now nonce).pending,
        h.pending]
    | receive message d => exact h.pending_of_message run.keysOk run'.keysOk

end Admits
end Sync

variable [Rmp (Message U T S)] [Subscription S T]

/-- Two nodes alike but for their configurations get the same calls. The one with the stricter
configuration knows nobody whom the other does not know, has as active nobody whom the other has not,
and lets no message pass that the other does not. -/
theorem stricter_admits_less (pings : PingsSeal U T S) (name : String) (keypair : Keypair)
    {config config' : PeeringConfig} (stricter : config.Stricter config') (calls : List (Call U T S)) :
    (∀ pk info, (reach Sync.next (Sync.new name keypair config) calls).peers.lookup pk = some info →
      ∃ info', (reach Sync.next (Sync.new name keypair config') calls).peers.lookup pk = some info' ∧
        (info' = info ∨ info'.active = true)) ∧
    (reach Sync.next (Sync.new name keypair config') calls).pendingPeerInit =
      (reach Sync.next (Sync.new name keypair config) calls).pendingPeerInit ∧
    ∀ (w : MessageSealed) (m : Message U T S),
      (reach Sync.next (Sync.new name keypair config) calls).unwrapIncomingMessage w = .ok m →
      (reach Sync.next (Sync.new name keypair config') calls).unwrapIncomingMessage w = .ok m := by
  let Related (s s' : Sync T) : Prop := (∃ past : History U T S, NodeRun name keypair config past s) ∧
    (∃ past : History U T S, NodeRun name keypair config' past s') ∧ s.Admits s'
  have start : Related (Sync.new name keypair config) (Sync.new name keypair config') :=
    ⟨⟨[], .start⟩, ⟨[], .start⟩, rfl, rfl, stricter, rfl, fun _ => .inl rfl⟩
  have step : ∀ {s s' : Sync T} {call call' : Call U T S}, Related s s' → call = call' →
      Related (s.next call) (s'.next call') := by
    intro s s' call call' h he
    obtain ⟨⟨_, run⟩, ⟨_, run'⟩, admits⟩ := h
    subst he
    exact ⟨⟨_, run.step call⟩, ⟨_, run'.step call⟩, admits.next pings run run' call⟩
  have same : List.Forall₂ (fun call call' : Call U T S => call = call') calls calls :=
    List.forall₂_eq_eq_eq ▸ rfl
  obtain ⟨⟨_, run⟩, ⟨_, run'⟩, admits⟩ := reach_lockstep step start same
  refine ⟨fun pk info known => ?_, admits.pending,
    fun w m => admits.opened (NodeRun.keysOk run) (NodeRun.keysOk run')⟩
  rcases admits.records pk with none | record | ⟨info', known', active⟩
  · cases none.symm.trans known
  · exact ⟨info, record.symm.trans known, .inl rfl⟩
  · exact ⟨info', known', .inr active⟩

end

namespace Sandbox

/-- Nobody is let in without the application. -/
def nobody : PeeringConfig := ⟨.private []⟩

/-- Whom the application confirms is active there, too. -/
theorem bob_active_anywhere : ∃ info' : PeerInfo,
    (after anyone bobConfirmed).peers.lookup bob.toPubkey = some info' ∧ info'.active = true := by
  have stricter : nobody.Stricter anyone := fun _ _ => rfl
  have active : ((after nobody bobConfirmed).peers.lookup bob.toPubkey).map (·.active) = some true := by
    decide
  obtain ⟨info, known, hactive⟩ := Option.map_eq_some_iff.mp active
  obtain ⟨info', known', h⟩ := (stricter_admits_less pingsSeal "a" alice stricter
    bobConfirmed).1 bob.toPubkey info known
  refine ⟨info', known', ?_⟩
  rcases h with rfl | h
  · exact hactive
  · exact h

end Sandbox
end Tp2p
