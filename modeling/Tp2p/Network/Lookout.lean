import Tp2p.Network.Encounter
import Tp2p.Network.Vigil
import Tp2p.Node.Retention

/-! What a node knows of the other, and since when: it answers pings, and a tick gives up on nobody
who was heard of in time. -/
namespace Tp2p
open Transition Mail

theorem not_expired_of_lt {now opened : Int} (h : now < opened + 120 * 1000000000) :
    ¬ 120 ≤ numSeconds (now - opened) := by
  rw [le_numSeconds (by decide)]
  omega

theorem not_overdue_of_lt {now heard : Int} (h : now < heard + 180 * 1000000000) :
    ¬ 180 < numSeconds (now - heard) := by
  have hk : (181 : Int) ≤ numSeconds (now - heard) ↔ 181 * 1000000000 ≤ now - heard :=
    le_numSeconds (by decide)
  omega

section
variable [Sodium] {U T S : Type}

/-- The event behind a ping or a pong. -/
def Word.beat : Word → Option (Event U T S)
  | .token _ => none
  | .ping => some .ping
  | .pong => some .pong

/-- The message `m` from the other node is to node `p` what the word stands for. -/
inductive Says (link : Link) (U T S : Type) [Rmp (Message U T S)] (p : Side) :
    Word → MessageWrapped → Prop where
  | token {tok : Token} {m : MessageWrapped} (carried : Carries link U T S p tok m) :
      Says link U T S p (.token tok) m
  | beat {word : Word} {w : MessageSealed} {m : Message U T S}
      (sender : w.pubkeySender = link.pubkey p.other)
      (opens : w.open (Peer.tmp (link.pubkey p.other) (link.keypair p).seckey) = .ok m)
      (body : word.beat = some m.body) : Says link U T S p word (.sealed w)

theorem Says.carried {link : Link} [Rmp (Message U T S)] {p : Side} {tok : Token} {m : MessageWrapped}
    (said : Says link U T S p (.token tok) m) : Carries link U T S p tok m := by
  cases said with
  | token carried => exact carried
  | beat _ _ body => cases body

theorem Carries.sender {link : Link} [Rmp (Message U T S)] {p : Side} {tok : Token} {m : MessageWrapped}
    (hm : Carries link U T S p tok m) : m.pubkeySender = link.pubkey p.other := by
  cases hm with
  | init => rfl
  | sealed sender => exact sender

variable [DecidableEq T]

namespace Sync
variable [Rmp (Message U T S)] [Subscription S T]

theorem processEvent_ping {s : Sync T} {m : Message U T S} {pk : Pubkey} {d : Delivery U T S}
    {info : PeerInfo} (body : m.body = .ping) (known : s.peers.lookup pk = some info)
    (fits : (Message.new ⟨d.now, d.nonce⟩ .pong [] : Message U T S).Serializable) :
    ∃ w, MessageSealed.seal s.keypair.toPubkey info.peer
        (Message.new ⟨d.now, d.nonce⟩ .pong [] : Message U T S) = .ok w ∧
      s.processEvent m pk d = .ok [
        .sync (.setPeer (info.setLastPing d.now)),
        .messageSend info.connectionInfo (.sealed w)] := by
  obtain ⟨w, hseal, hw⟩ := createSealedMessage_succeeds s info.peer fits
  refine ⟨w, hseal, ?_⟩
  simp only [processEvent, processEventPing, body, findPeer_none, known, Attempt.okOr_some,
    Attempt.bind_ok, hw]
  rfl

theorem processEvent_pong {s : Sync T} {m : Message U T S} {pk : Pubkey} {d : Delivery U T S}
    {info : PeerInfo} (body : m.body = .pong) (known : s.peers.lookup pk = some info) :
    s.processEvent m pk d = .ok [.sync (.setPeer (info.setLastPing d.now))] := by
  simp only [processEvent, processEventPong, body, findPeer_none, known, Attempt.okOr_some,
    Attempt.bind_ok]
  rfl

omit [Subscription S T] in
theorem Registers.sender {s : Sync T} {call : Call U T S} {pk : Pubkey} {c : ConnectionInfo}
    {now : DateTime} (h : Registers s call pk c now) : call.sender = some pk := by
  cases h <;> rfl

end Sync

theorem Recorded.refreshed {link : Link} {p : Side} {status : Status} {info : PeerInfo}
    (h : Recorded link p status (some info)) (now : DateTime) :
    Recorded link p status (some (info.setLastPing now)) := by
  cases status with
  | unknown => cases h
  | greeted =>
    obtain ⟨_, hr, hc, inactive⟩ := h
    cases hr
    exact ⟨_, rfl, hc, inactive⟩
  | confirmed =>
    obtain ⟨_, hr, hc, active, name⟩ := h
    cases hr
    exact ⟨_, rfl, hc, active, name⟩

theorem Recorded.of_some {link : Link} {p : Side} {status : Status} {info : PeerInfo}
    (h : Recorded link p status (some info)) : status ≠ .unknown := by
  rintro rfl
  cases h

theorem Hosts.keys {enc : Encounter} {p : Side} {s : Sync T} {party : Party} (h : Hosts enc p s party) :
    s.KeysOk :=
  ⟨h.refines.keys.filed, h.refines.keys.peers, h.refines.keys.subscribers⟩

/-- Node `p` in state `s` is on the given lookout: it has nobody else on file. -/
structure OnWatch (enc : Encounter) (p : Side) (s : Sync T) (lookout : Lookout) : Prop extends
    Hosts enc p s lookout.toParty where
  records : ∀ pk info, s.peers.lookup pk = some info →
    pk = enc.pubkey p.other ∧ info.lastPing = lookout.heard
  opened : ∀ q ∈ s.pendingPeerInit, q.created = lookout.opened

namespace OnWatch
variable {enc : Encounter} {p : Side} {s : Sync T} {lookout : Lookout}

theorem start (enc : Encounter) (p : Side) (now : DateTime) :
    OnWatch enc p (enc.new T p) ⟨⟨.unknown, false⟩, now, now⟩ where
  config := rfl
  refines := .start enc.trusting p
  records _ _ known := (nomatch known)
  opened _ hq := (List.not_mem_nil hq).elim

variable [Rmp (Message U T S)] [Subscription S T]

/-- A call that brings nothing from anybody else files nobody else, and the record of the other is
stamped if it is written. -/
theorem records_next (h : OnWatch enc p s lookout) {call : Call U T S}
    (about : ∀ pk, call.sender = some pk → pk = enc.pubkey p.other) {party : Party}
    (hosts : Hosts enc p (s.next call) party) : ∃ heard,
      lookout.Hears call.now heard party.status ∧
      ∀ pk info, (s.next call).peers.lookup pk = some info →
        pk = enc.pubkey p.other ∧ info.lastPing = heard := by
  have nobody : ∀ pk info, (s.next call).peers.lookup pk = some info → pk = enc.pubkey p.other := by
    intro pk info known
    have hr := Sync.next_record h.keys call pk
    rw [known] at hr
    generalize hrec : some info = record at hr
    cases hr with
    | same => exact (h.records pk info hrec.symm).1
    | registered registers => exact about pk registers.sender
    | confirmed old => exact (h.records pk _ old).1
    | refreshed old => exact (h.records pk _ old).1
    | forgotten => cases hrec
  by_cases sets : Step.SetsPeer ⟨s, call⟩ (enc.pubkey p.other)
  · obtain ⟨info', known', stamped⟩ := sets.record
    refine ⟨call.now, .inl rfl, fun pk info known => ?_⟩
    obtain rfl := nobody pk info known
    cases known.symm.trans known'
    exact ⟨rfl, stamped⟩
  · refine ⟨lookout.heard, .inr ⟨rfl, fun known => ?_⟩, fun pk info known => ?_⟩
    · obtain ⟨info, known, _⟩ := hosts.refines.record.known known
      have old : s.peers.lookup (enc.pubkey p.other) = some info := Step.record_of_not_sets sets known
      have record := h.refines.record
      rw [show s.trusting.peers.lookup (enc.trusting.pubkey p.other) = some info from old] at record
      exact record.of_some
    · obtain rfl := nobody pk info known
      exact h.records _ info (Step.record_of_not_sets sets known)

theorem opened_next (h : OnWatch enc p s lookout) {call : Call U T S} (later : call.initiated = none) :
    ∀ q ∈ (s.next call).pendingPeerInit, q.created = lookout.opened := by
  intro q hq
  refine h.opened q ((Sync.pending_next hq).resolve_right fun ⟨initiates, _⟩ => ?_)
  cases later.symm.trans initiates

/-- In this call the node takes this lookout, says `out` to the other and asks its user `asks`
times. -/
def Does (enc : Encounter) (p : Side) (s : Sync T) (call : Call U T S) (lookout : Lookout)
    (out : List Word) (asks : Nat) : Prop :=
  ∃ actions, s.exec call = .ok actions ∧
    OnWatch enc p (s.applySyncActions (syncActions actions)) lookout ∧
    List.Forall₂ (Says enc.trusting U T S p.other) out (enc.sent p actions) ∧
    Encounter.asked actions = List.replicate asks (enc.name p.other)

theorem of_hosts (h : OnWatch enc p s lookout) {call : Call U T S}
    (about : ∀ pk, call.sender = some pk → pk = enc.pubkey p.other) {opened : DateTime}
    (hopened : ∀ q ∈ (s.next call).pendingPeerInit, q.created = opened) {party : Party}
    {out : List Token} {asks : Nat} (does : Hosts.Does enc p s call party out asks) : ∃ heard,
      lookout.Hears call.now heard party.status ∧
      Does enc p s call ⟨party, heard, opened⟩ (out.map .token) asks := by
  obtain ⟨actions, hexec, hosts, hsaid, hasked⟩ := does
  rw [← Sync.next_ok hexec] at hosts
  obtain ⟨heard, hears, records⟩ := h.records_next about hosts
  refine ⟨heard, hears, actions, hexec, ?_, ?_, hasked⟩
  · rw [← Sync.next_ok hexec]
    exact ⟨hosts, records, hopened⟩
  · exact List.forall₂_map_left_iff.mpr (hsaid.imp fun _ _ => .token)

theorem initComm (h : OnWatch enc p s lookout) {addr : String} (now : DateTime)
    (reaches : ConnectionInfo.new addr = .ok (enc.address p.other)) : ∃ heard,
      lookout.Hears now heard lookout.status ∧
      Does enc p s (.initComm addr now : Call U T S) (lookout.waiting now heard) [.token .init] 0 := by
  have does : Hosts.Does enc p s (.initComm addr now : Call U T S) _ _ _ :=
    h.toHosts.initComm now reaches
  refine h.of_hosts (fun pk hpk => by cases hpk) (fun q hq => ?_) does
  have hexec := Sync.exec_initComm (U := U) (S := S) (s := s) now reaches
  by_cases waiting : lookout.pending = true
  · rw [if_pos waiting]
    -- the initiation that is pending stays as it is
    have found : (s.findPendingPeerInit (enc.address p.other)).isSome = true :=
      Sync.findPendingPeerInit_isSome.mpr (h.refines.pending_iff.mpr waiting)
    have same : ¬ (s.findPendingPeerInit (enc.address p.other)).isNone = true := by
      rw [← Option.not_isSome, found]
      exact Bool.false_ne_true
    rw [Sync.next_ok hexec, syncActions_sync, Sync.applySyncActions_cons, syncActions_messageSend,
      syncActions_nil, Sync.applySyncActions_nil, Sync.pending_setPendingPeer, if_neg same] at hq
    exact h.opened q hq
  · rw [if_neg waiting]
    have pending : s.trusting.pendingPeerInit.map (·.connectionInfo) = _ := h.refines.pending
    rw [if_neg waiting, List.map_eq_nil_iff] at pending
    rcases Sync.pending_next hq with hq | ⟨_, created⟩
    · rw [show s.pendingPeerInit = [] from pending] at hq
      cases hq
    · exact created

theorem receive (laws : BoxLaws) (codec : Rmp.RoundTrip (Message U T S))
    (total : ∀ m : Message U T S, m.Serializable) (h : OnWatch enc p s lookout) {tok : Token}
    {m : MessageWrapped} (hm : Carries enc.trusting U T S p tok m) {party : Party} {out : List Token}
    (hr : lookout.react tok = some (party, out))
    (allowed : tok = .peerInit → s.peeringConfig.canConfirm (enc.pubkey p.other) = some true)
    {d : Delivery U T S} (via : d.connectionInfo = enc.address p.other) : ∃ heard,
      lookout.Hears d.now heard party.status ∧
      Does enc p s (.receive m d) ⟨party, heard, lookout.opened⟩ (out.map .token) 0 :=
  h.of_hosts (fun pk hpk => by cases hpk; exact hm.sender) (h.opened_next rfl)
    (h.toHosts.receive laws codec total hm hr allowed via)

theorem ask (h : OnWatch enc p s lookout) {m : MessageWrapped}
    (hm : Carries enc.trusting U T S p .peerInit m) (known : lookout.status ≠ .unknown)
    (undecided : s.peeringConfig.canConfirm (enc.pubkey p.other) = none) (d : Delivery U T S) : ∃ heard,
      lookout.Hears d.now heard lookout.status ∧
      Does enc p s (.receive m d) { lookout with heard := heard } [] 1 :=
  h.of_hosts (fun pk hpk => by cases hpk; exact hm.sender) (h.opened_next rfl)
    (h.toHosts.ask hm known undecided d)

theorem answer (laws : BoxLaws) (codec : Rmp.RoundTrip (Message U T S))
    (total : ∀ m : Message U T S, m.Serializable) (h : OnWatch enc p s lookout)
    (known : lookout.status ≠ .unknown) (now : DateTime) (nonce : Nonce) : ∃ heard,
      lookout.Hears now heard .confirmed ∧
      Does enc p s (.peerConfirm (enc.pubkey p.other) (enc.name p.other) now nonce : Call U T S)
        { lookout with status := .confirmed, heard := heard } [.token .peerConfirm] 0 :=
  h.of_hosts (fun pk hpk => by cases hpk) (h.opened_next rfl)
    (h.toHosts.answer laws codec total known now nonce)

omit [Subscription S T] in
/-- Whatever a node seals for the other stands at the other for what it was sealed as. -/
theorem carries_beat (laws : BoxLaws) (codec : Rmp.RoundTrip (Message U T S)) (h : OnWatch enc p s lookout)
    {info : PeerInfo} (known : s.peers.lookup (enc.pubkey p.other) = some info) {m : Message U T S}
    {w : MessageSealed} (hseal : MessageSealed.seal s.keypair.toPubkey info.peer m = .ok w) {word : Word}
    (body : word.beat = some m.body) : Says enc.trusting U T S p.other word (.sealed w) := by
  have hself : s.keypair = enc.keypair p := h.refines.self.keypair
  have filed : info.peer.pubkey = enc.pubkey p.other := h.keys.filed known
  obtain ⟨b, hb, hw⟩ := MessageSealed.seal_eq_ok.mp hseal
  refine .beat (m := m) ?_ (MessageSealed.open_of_seal laws codec hseal ?_) body
  · rw [hw, Side.other_other, hself]
    rfl
  · have keyed : info.peer.precomputed = _ := h.keys.peers known
    rw [keyed, hself, filed, Side.other_other]
    exact (enc.matching p).shared_key laws (enc.matching p.other)

/-- The record of the other is stamped. -/
theorem refreshed (h : OnWatch enc p s lookout) {info : PeerInfo}
    (known : s.peers.lookup (enc.pubkey p.other) = some info) (now : DateTime) :
    OnWatch enc p (s.applySyncAction (.setPeer (info.setLastPing now))) { lookout with heard := now } where
  toHosts := by
    have record := h.refines.record
    rw [show s.trusting.peers.lookup (enc.trusting.pubkey p.other) = some info from known] at record
    have filed : (info.setLastPing now).peer.pubkey = enc.pubkey p.other := (h.keys.filed known :)
    have hn : NodeRefines enc.trusting p
        (s.trusting.applySyncActions [.setPeer (info.setLastPing now)]) lookout.toParty :=
      h.refines.setPeer filed (h.keys.peers known).pinged (record.refreshed now)
    exact h.toHosts.applied hn
  records pk info' hl := by
    rw [Sync.lookup_setPeer] at hl
    split at hl
    · next hp =>
      cases hl
      exact ⟨hp.trans (h.keys.filed known :), rfl⟩
    · next hp =>
      exact absurd ((h.records pk info' hl).1.trans (h.keys.filed known).symm) hp
  opened := h.opened

/-- A ping is answered, and what it says is noted; so is a pong. -/
theorem beat (laws : BoxLaws) (codec : Rmp.RoundTrip (Message U T S))
    (total : ∀ m : Message U T S, m.Serializable) (h : OnWatch enc p s lookout) {word : Word}
    {m : MessageWrapped} (hm : Says enc.trusting U T S p word m) (beats : word.greeting = none)
    (known : lookout.status ≠ .unknown) (d : Delivery U T S) :
    Does enc p s (.receive m d) { lookout with heard := d.now } word.echo 0 := by
  obtain ⟨info, known', hc⟩ := h.refines.record.known known
  have onFile : s.peers.lookup (enc.pubkey p.other) = some info := known'
  cases hm with
  | token => cases beats
  | @beat _ w m sender opens body =>
    have opened : s.unwrapIncomingMessage w = .ok m := (h.refines.opened sender opens (.inr known) :)
    have hexec : s.exec (.receive (.sealed w) d) = s.processEvent m (enc.pubkey p.other) d := by
      rw [Sync.exec_sealed d opened, show w.pubkeySender = enc.pubkey p.other from sender]
    cases word with
    | token => cases beats
    | ping =>
      obtain ⟨w', hseal, hping⟩ :=
        Sync.processEvent_ping (d := d) (Option.some.inj body).symm onFile (total _)
      refine ⟨_, hexec.trans hping, h.refreshed onFile d.now, ?_, rfl⟩
      rw [show info.connectionInfo = enc.address p.other from hc, Encounter.sent, sentOn_reply]
      exact .cons (h.carries_beat laws codec onFile hseal rfl) .nil
    | pong =>
      have hpong := Sync.processEvent_pong (d := d) (Option.some.inj body).symm onFile
      exact ⟨_, hexec.trans hpong, h.refreshed onFile d.now, .nil, rfl⟩

/-- There is one record at most. -/
theorem arranged (h : OnWatch enc p s lookout) (order : IterOrder PeerInfo) :
    order.arrange (HashMap.values s.peers) = [] ∧ lookout.status = .unknown ∨
      ∃ info, order.arrange (HashMap.values s.peers) = [info] ∧ lookout.status ≠ .unknown ∧
        s.peers.lookup (enc.pubkey p.other) = some info := by
  have once : ((order.arrange (HashMap.values s.peers)).map (·.peer.pubkey)).Nodup :=
    (((order.perm _).map _).nodup_iff).mpr (Sync.values_nodup h.keys)
  have onFile : ∀ info ∈ order.arrange (HashMap.values s.peers),
      s.peers.lookup (enc.pubkey p.other) = some info ∧ info.peer.pubkey = enc.pubkey p.other := by
    intro info hi
    obtain ⟨pk, known⟩ := (HashMap.mem_values _ _).mp ((order.mem_arrange _ _).mp hi)
    obtain rfl := (h.records pk info known).1
    exact ⟨known, h.keys.filed known⟩
  have record := h.refines.record
  cases hl : order.arrange (HashMap.values s.peers) with
  | nil =>
    left
    refine ⟨rfl, by_contra fun known => ?_⟩
    obtain ⟨info, hk, _⟩ := record.known known
    have hmem := (order.mem_arrange _ _).mpr ((HashMap.mem_values s.peers info).mpr ⟨_, hk⟩)
    rw [hl] at hmem
    cases hmem
  | cons info rest =>
    right
    rw [hl] at once onFile
    obtain ⟨known, filed⟩ := onFile info List.mem_cons_self
    cases rest with
    | nil =>
      rw [show s.trusting.peers.lookup (enc.trusting.pubkey p.other) = some info from known] at record
      exact ⟨info, rfl, record.of_some, known⟩
    | cons info' rest =>
      have filed' := (onFile info' (List.mem_cons_of_mem _ List.mem_cons_self)).2
      have hne := (List.nodup_cons.mp once).1
      exact absurd (by simp [filed, filed']) hne

/-- A tick that nobody was silent too long for takes nothing off the tables. -/
theorem tick (laws : BoxLaws) (codec : Rmp.RoundTrip (Message U T S))
    (total : ∀ m : Message U T S, m.Serializable) (h : OnWatch enc p s lookout)
    (order : IterOrder PeerInfo) (now : DateTime) (nonce : Pubkey → Nonce)
    (heard : lookout.status ≠ .unknown → now < lookout.heard + 180 * 1000000000)
    (opened : lookout.pending = true → now < lookout.opened + 120 * 1000000000) :
    Does enc p s (.tick order now nonce : Call U T S) lookout (lookout.pings now) 0 ∧
      s.next (.tick order now nonce : Call U T S) = s := by
  have pings : PingsSeal U T S := fun _ _ => total _
  have pending : s.trusting.pendingPeerInit.map (·.connectionInfo) = _ := h.refines.pending
  have once : (s.pendingPeerInit.map (·.connectionInfo)).Nodup := by
    rw [show s.pendingPeerInit.map (·.connectionInfo) = _ from pending]
    split
    · exact List.nodup_singleton _
    · exact List.nodup_nil
  obtain ⟨actions, htick, maintenance⟩ := Sync.tick_maintenance pings h.keys once order now nonce
  obtain ⟨shares, hactions, hshares⟩ := maintenance.shares
  have kept : (s.pendingPeerInit.map (Sync.pendingShare (U := U) (T := T) (S := S) now)).flatten = [] := by
    refine List.flatten_eq_nil_iff.mpr (List.forall_mem_map.mpr fun q hq => ?_)
    have waiting : lookout.pending = true := by
      by_contra idle
      rw [if_neg idle, List.map_eq_nil_iff] at pending
      rw [show s.pendingPeerInit = [] from pending] at hq
      cases hq
    have recent := not_expired_of_lt (opened waiting)
    rw [← h.opened q hq] at recent
    exact if_neg recent
  rw [kept, List.append_nil] at hactions
  -- nothing is left but the ping to the other, if it is due
  suffices only : syncActions actions = [] ∧ Encounter.asked actions = [] ∧
      List.Forall₂ (Says enc.trusting U T S p.other) (lookout.pings now) (enc.sent p actions) by
    have same : s.applySyncActions (syncActions actions) = s := by rw [only.1, Sync.applySyncActions_nil]
    refine ⟨⟨actions, htick, ?_, only.2.2, only.2.1⟩, ?_⟩
    · rw [same]
      exact h
    · have hexec : s.exec (.tick order now nonce : Call U T S) = .ok actions := htick
      exact (Sync.next_ok hexec).trans same
  subst hactions
  rcases h.arranged order with ⟨hl, unknown⟩ | ⟨info, hl, known, onFile⟩
  · rw [hl, List.forall₂_nil_left_iff] at hshares
    subst hshares
    rw [Lookout.pings, if_neg fun due => due.1 unknown]
    exact ⟨rfl, rfl, .nil⟩
  · rw [hl, List.forall₂_cons_left_iff] at hshares
    obtain ⟨share, _, hshare, hnil, rfl⟩ := hshares
    obtain rfl := List.forall₂_nil_left_iff.mp hnil
    have stamped : info.lastPing = lookout.heard := (h.records _ info onFile).2
    rw [List.flatten_cons, List.flatten_nil, List.append_nil]
    cases hshare with
    | recent short =>
      rw [Lookout.pings, if_neg]
      · exact ⟨rfl, rfl, .nil⟩
      · rintro ⟨_, long⟩
        have due : (60 : Int) ≤ numSeconds (now - info.lastPing) := by
          rw [le_numSeconds (by decide), stamped]
          exact long
        omega
    | overdue long =>
      rw [stamped] at long
      exact absurd long (not_overdue_of_lt (heard known))
    | due long _ hseal =>
      rw [le_numSeconds (by decide), stamped] at long
      rw [Lookout.pings, if_pos ⟨known, long⟩]
      refine ⟨rfl, rfl, ?_⟩
      obtain ⟨_, hk, hc⟩ := h.refines.record.known known
      cases onFile.symm.trans hk
      rw [show info.connectionInfo = enc.address p.other from hc, Encounter.sent, sentOn_message]
      exact .cons (h.carries_beat laws codec onFile hseal rfl) .nil

end OnWatch
end
end Tp2p
