import Tp2p.Node.Keys

/-! What one call can do to one record, and to the subscribers of one topic. The
calls that write a record are told apart by what they write. -/
namespace Tp2p
open Transition
variable [Sodium]

/-- The two events that are about subscriptions. -/
def Event.isSubscriptionChange {U T S : Type} : Event U T S → Bool
  | .subscribe _ | .unsubscribe _ => true
  | _ => false

namespace Sync
variable {U T S : Type} [DecidableEq T] [Rmp (Message U T S)] [Subscription S T]

omit [Subscription S T] in
theorem heard_eq_some {s : Sync T} {call : Call U T S} {pk : Pubkey} {e : Event U T S} :
    s.heard call = some (pk, e) ↔ ∃ w d m, call = .receive (.sealed w) d ∧
      s.unwrapIncomingMessage w = .ok m ∧ w.pubkeySender = pk ∧ m.body = e := by
  constructor
  · intro h
    cases call with
    | receive message d =>
      cases message with
      | init pk' => cases h
      | sealed w =>
        simp only [heard] at h
        split at h
        · next m hm =>
          cases h
          exact ⟨w, d, m, rfl, hm, rfl, rfl⟩
        · cases h
    | _ => cases h
  · rintro ⟨w, d, m, rfl, hm, rfl, rfl⟩
    simp only [heard, hm]

/-- The call files a nameless, inactive record for the peer: it brings an `Init`,
or a `Hello` on a connection we initiated. -/
inductive Registers (s : Sync T) : Call U T S → Pubkey → ConnectionInfo → DateTime → Prop where
  | init {pk : Pubkey} {d : Delivery U T S}
      (fits : (Message.new ⟨d.now, d.nonce⟩ .hello [] : Message U T S).Serializable) :
      Registers s (.receive (.init pk) d) pk d.connectionInfo d.now
  | hello {w : MessageSealed} {d : Delivery U T S} {m : Message U T S}
      (opened : s.unwrapIncomingMessage w = .ok m) (body : m.body = .hello)
      (pending : ∃ p ∈ s.pendingPeerInit, p.connectionInfo = d.connectionInfo)
      (fits : (Message.new ⟨d.now, d.nonce⟩ (.peerInit s.name) [] : Message U T S).Serializable) :
      Registers s (.receive (.sealed w) d) w.pubkeySender d.connectionInfo d.now

/-- The call names and activates the record of the peer, if there is one. -/
inductive Confirms (s : Sync T) : Call U T S → Pubkey → String → DateTime → Prop where
  | app {pk : Pubkey} {name : String} {now : DateTime} {nonce : Nonce}
      (fits : (Message.new ⟨now, nonce⟩ (.peerConfirm s.name) [] : Message U T S).Serializable) :
      Confirms s (.peerConfirm pk name now nonce) pk name now
  | peerInit {w : MessageSealed} {d : Delivery U T S} {m : Message U T S} {name : String}
      (opened : s.unwrapIncomingMessage w = .ok m) (body : m.body = .peerInit name)
      (allowed : s.peeringConfig.canConfirm w.pubkeySender = some true)
      (fits : (Message.new ⟨d.now, d.nonce⟩ (.peerConfirm s.name) [] : Message U T S).Serializable) :
      Confirms s (.receive (.sealed w) d) w.pubkeySender name d.now
  | peerConfirm {w : MessageSealed} {d : Delivery U T S} {m : Message U T S} {name : String}
      (opened : s.unwrapIncomingMessage w = .ok m) (body : m.body = .peerConfirm name) :
      Confirms s (.receive (.sealed w) d) w.pubkeySender name d.now

/-- The call is a `tick` that gives up on the peer. -/
inductive Forgets (s : Sync T) : Call U T S → Pubkey → Prop where
  | tick {order : IterOrder PeerInfo} {now : DateTime} {nonce : Pubkey → Nonce} {pk : Pubkey}
      {info : PeerInfo} (known : s.peers.lookup pk = some info) (overdue : Overdue now info)
      (fits : ∀ pk' info', s.peers.lookup pk' = some info' → Due now info' →
        (Message.new ⟨now, nonce info'.peer.pubkey⟩ .ping [] : Message U T S).Serializable) :
      Forgets s (.tick order now nonce : Call U T S) pk

/-- What becomes of the record of `pk` in a call. -/
inductive RecordStep (s : Sync T) (call : Call U T S) (pk : Pubkey) : Option PeerInfo → Prop where
  | same : RecordStep s call pk (s.peers.lookup pk)
  | registered {c : ConnectionInfo} {now : DateTime} (h : Registers s call pk c now) :
      RecordStep s call pk (some (s.tmpInfo pk c now))
  | confirmed {info : PeerInfo} {name : String} {now : DateTime}
      (known : s.peers.lookup pk = some info) (h : Confirms s call pk name now) :
      RecordStep s call pk (some (info.confirmed name now))
  | refreshed {info : PeerInfo} {now : DateTime} (known : s.peers.lookup pk = some info)
      (h : s.heard call = some (pk, .ping) ∨ s.heard call = some (pk, .pong)) :
      RecordStep s call pk (some (info.setLastPing now))
  | forgotten (h : Forgets s call pk) : RecordStep s call pk none

/-- The actions of a tick are the removals of the overdue peers and of the expired
initiations. -/
theorem Effect.mem_tick {s : Sync T} (hs : KeysOk s) {order : IterOrder PeerInfo} {now : DateTime}
    {nonce : Pubkey → Nonce} {as : List (SyncAction T)} {sends : List (Sending U T S)}
    (h : Effect s (.tick order now nonce) as sends) {a : SyncAction T} : a ∈ as ↔
      (∃ pk info, s.peers.lookup pk = some info ∧ Overdue now info ∧ a = .unsetPeer pk) ∨
      ∃ p ∈ s.pendingPeerInit, Expired now p ∧ a = .unsetPendingPeer p.connectionInfo := by
  cases h
  simp only [List.mem_append, List.mem_map, List.mem_filter, IterOrder.mem_arrange,
    HashMap.mem_values, decide_eq_true_eq]
  apply or_congr
  · constructor
    · rintro ⟨info, ⟨⟨pk, known⟩, ho⟩, rfl⟩
      exact ⟨pk, info, known, ho, by rw [hs.filed known]⟩
    · rintro ⟨pk, info, known, ho, rfl⟩
      exact ⟨info, ⟨⟨pk, known⟩, ho⟩, by rw [hs.filed known]⟩
  · constructor
    · rintro ⟨p, ⟨hp, he⟩, rfl⟩
      exact ⟨p, hp, he, rfl⟩
    · rintro ⟨p, hp, he, rfl⟩
      exact ⟨p, ⟨hp, he⟩, rfl⟩

theorem Effect.unsets_of_tick {s : Sync T} {order : IterOrder PeerInfo} {now : DateTime}
    {nonce : Pubkey → Nonce} {as : List (SyncAction T)} {sends : List (Sending U T S)}
    (h : Effect s (.tick order now nonce) as sends) : ∀ a ∈ as, Unsets a := by
  cases h
  intro a ha
  simp only [List.mem_append, List.mem_map] at ha
  rcases ha with ⟨_, _, rfl⟩ | ⟨_, _, rfl⟩ <;> exact True.intro

theorem Effect.lookup_tick {s : Sync T} (hs : KeysOk s) {order : IterOrder PeerInfo}
    {now : DateTime} {nonce : Pubkey → Nonce} {as : List (SyncAction T)}
    {sends : List (Sending U T S)} (h : Effect s (.tick order now nonce) as sends) (pk : Pubkey) :
    (s.applySyncActions as).peers.lookup pk =
      (s.peers.lookup pk).filter (fun info => ¬ Overdue now info) := by
  have hpk : .unsetPeer pk ∈ as ↔ ∃ info, s.peers.lookup pk = some info ∧ Overdue now info := by
    rw [h.mem_tick hs]
    simp
  simp only [lookup_of_unsets h.unsets_of_tick, hpk]
  cases hl : s.peers.lookup pk with
  | none => simp
  | some info =>
    by_cases ho : Overdue now info
    · rw [if_pos ⟨info, rfl, ho⟩, Option.filter_some, if_neg (by simpa using ho)]
    · rw [if_neg (by simpa using ho), Option.filter_some, if_pos (decide_eq_true ho)]

theorem lookup_tick {s : Sync T} (hs : KeysOk s) {order : IterOrder PeerInfo} {now : DateTime}
    {nonce : Pubkey → Nonce} (fits : ∀ pk' info', s.peers.lookup pk' = some info' → Due now info' →
      (Message.new ⟨now, nonce info'.peer.pubkey⟩ .ping [] : Message U T S).Serializable)
    (pk : Pubkey) : (s.next (.tick order now nonce : Call U T S)).peers.lookup pk =
      (s.peers.lookup pk).filter (fun info => ¬ Overdue now info) := by
  have effect : Effect (U := U) (S := S) s (.tick order now nonce) _ _ := .tick
  rw [next_of_effect effect]
  · exact effect.lookup_tick hs pk
  · intro x hx
    obtain ⟨pk', info, known, due, rfl⟩ := mem_pings.mp hx
    exact fits pk' info known due

omit [Subscription S T] in
private theorem recordStep_setPeer {s : Sync T} {call : Call U T S} {pk pk' : Pubkey}
    {new : PeerInfo} (filed : new.peer.pubkey = pk')
    (h : pk = pk' → RecordStep s call pk (some new)) :
    RecordStep s call pk ((s.applySyncAction (.setPeer new)).peers.lookup pk) := by
  rw [lookup_setPeer, filed]
  split
  · next hp => exact h hp
  · exact .same

private theorem recordStep_event {s : Sync T} (hs : KeysOk s) {w : MessageSealed}
    {d : Delivery U T S} {m : Message U T S} {as : List (SyncAction T)}
    {sends : List (Sending U T S)} (opened : s.unwrapIncomingMessage w = .ok m)
    (effect : EventEffect s w.pubkeySender d m.body as sends)
    (fits : ∀ x ∈ sends, x.message.Serializable) (pk : Pubkey) :
    RecordStep s (.receive (.sealed w) d) pk ((s.applySyncActions as).peers.lookup pk) := by
  generalize hb : m.body = e at effect
  cases effect with
  | hello pending =>
    apply recordStep_setPeer rfl
    rintro rfl
    exact .registered (.hello opened hb pending (fits _ List.mem_cons_self))
  | peerInit allowed known =>
    refine recordStep_setPeer (hs.filed known :) ?_
    rintro rfl
    exact .confirmed known (.peerInit opened hb allowed (fits _ List.mem_cons_self))
  | peerConfirm known =>
    refine recordStep_setPeer (hs.filed known :) ?_
    rintro rfl
    exact .confirmed known (.peerConfirm opened hb)
  | ping known =>
    refine recordStep_setPeer (hs.filed known :) ?_
    rintro rfl
    exact .refreshed known (.inl (heard_eq_some.mpr ⟨w, d, m, rfl, opened, rfl, hb⟩))
  | pong known =>
    refine recordStep_setPeer (hs.filed known :) ?_
    rintro rfl
    exact .refreshed known (.inr (heard_eq_some.mpr ⟨w, d, m, rfl, opened, rfl, hb⟩))
  | subscribe known =>
    rw [(peers_of_subscriptions ..).1]
    exact .same
  | unsubscribe known =>
    rw [(peers_of_subscriptions ..).2]
    exact .same
  | _ => exact .same

/-- Every call does one of the listed things to the record of a peer. -/
theorem next_record {s : Sync T} (hs : KeysOk s) (call : Call U T S) (pk : Pubkey) :
    RecordStep s call pk ((s.next call).peers.lookup pk) := by
  rcases next_cases s call with ⟨as, sends, he, fits, h⟩ | ⟨_, h⟩
  · rw [h]
    cases he with
    | initComm parsed =>
      rw [applySyncActions_cons, applySyncActions_nil, peers_setPendingPeer]
      exact .same
    | peerConfirm known =>
      refine recordStep_setPeer (hs.filed known :) ?_
      rintro rfl
      exact .confirmed known (.app (fits _ List.mem_cons_self))
    | @tick order now nonce =>
      have fits' : ∀ pk' info', s.peers.lookup pk' = some info' → Due now info' →
          (Message.new ⟨now, nonce info'.peer.pubkey⟩ .ping [] : Message U T S).Serializable := by
        intro pk' info' known due
        apply fits (.fresh info' now (nonce info'.peer.pubkey) .ping)
        exact mem_pings.mpr ⟨pk', info', known, due, rfl⟩
      rw [← h, lookup_tick hs fits']
      cases hl : s.peers.lookup pk with
      | none => rw [Option.filter_none, ← hl]; exact .same
      | some info =>
        by_cases ho : Overdue now info
        · rw [Option.filter_some, if_neg (by simpa using ho)]
          exact .forgotten (.tick hl ho fits')
        · rw [Option.filter_some, if_pos (by simpa using ho), ← hl]
          exact .same
    | init =>
      apply recordStep_setPeer rfl
      rintro rfl
      exact .registered (.init (fits _ List.mem_cons_self))
    | event opened effect => exact recordStep_event hs opened effect fits pk
  · rw [h]
    exact .same

theorem Effect.of_event {s : Sync T} {w : MessageSealed} {d : Delivery U T S}
    {m : Message U T S} {e : Event U T S} {as : List (SyncAction T)} {sends : List (Sending U T S)}
    (opened : s.unwrapIncomingMessage w = .ok m) (body : m.body = e)
    (effect : EventEffect s w.pubkeySender d e as sends) :
    Effect s (.receive (.sealed w) d) as sends :=
  .event opened (body ▸ effect)

theorem Registers.lookup {s : Sync T} {call : Call U T S} {pk : Pubkey} {c : ConnectionInfo}
    {now : DateTime} (h : Registers s call pk c now) :
    (s.next call).peers.lookup pk = some (s.tmpInfo pk c now) := by
  cases h with
  | init fits =>
    rw [next_of_effect .init (List.forall_mem_singleton.mpr fits)]
    exact (lookup_setPeer ..).trans (if_pos rfl)
  | hello opened body pending fits =>
    rw [next_of_effect (.of_event opened body (.hello pending)) (List.forall_mem_singleton.mpr fits)]
    exact (lookup_setPeer ..).trans (if_pos rfl)

theorem Confirms.lookup {s : Sync T} {call : Call U T S} {pk : Pubkey} {name : String}
    {now : DateTime} {info : PeerInfo} (hs : KeysOk s) (known : s.peers.lookup pk = some info)
    (h : Confirms s call pk name now) :
    (s.next call).peers.lookup pk = some (info.confirmed name now) := by
  have hp := (hs.filed known).symm
  cases h with
  | app fits =>
    rw [next_of_effect (.peerConfirm known) (List.forall_mem_singleton.mpr fits)]
    exact (lookup_setPeer ..).trans (if_pos hp)
  | peerInit opened body allowed fits =>
    rw [next_of_effect (.of_event opened body (.peerInit allowed known))
      (List.forall_mem_singleton.mpr fits)]
    exact (lookup_setPeer ..).trans (if_pos hp)
  | peerConfirm opened body =>
    rw [next_of_effect (.of_event opened body (.peerConfirm known)) (List.forall_mem_nil _)]
    exact (lookup_setPeer ..).trans (if_pos hp)

theorem Forgets.lookup {s : Sync T} {call : Call U T S} {pk : Pubkey} (hs : KeysOk s)
    (h : Forgets s call pk) : (s.next call).peers.lookup pk = none := by
  cases h with
  | tick known overdue fits =>
    rw [lookup_tick hs fits, known, Option.filter_some, if_neg (by simpa using overdue)]

/-! The subscribers -/

/-- The topics that a `Subscribe` brings in. -/
def verified (subscriptions : List S) : List T := subscriptions.filterMap Subscription.verify

omit [Subscription S T] in
theorem unwrap_known {s : Sync T} (hs : KeysOk s) {w : MessageSealed} {m : Message U T S}
    (opened : s.unwrapIncomingMessage w = .ok m) (hm : ¬ m.body.isGreeting) :
    ∃ info, s.peers.lookup w.pubkeySender = some info := by
  have h := (hs.unwrap_ok.mp opened).2
  exact Option.isSome_iff_exists.mp (h.resolve_left hm)

theorem next_of_subscribe {s : Sync T} (hs : KeysOk s) {call : Call U T S} {pk : Pubkey}
    {subscriptions : List S} (h : s.heard call = some (pk, .subscribe subscriptions)) :
    ∃ info, s.peers.lookup pk = some info ∧ (s.next call).peers = s.peers ∧
      ∀ t, (s.next call).subscribers t =
        if t ∈ verified subscriptions then addSubscriber (s.subscribers t) info
        else s.subscribers t := by
  obtain ⟨w, d, m, rfl, opened, rfl, hb⟩ := heard_eq_some.mp h
  obtain ⟨info, known⟩ := unwrap_known hs opened (by simp [hb, Event.isGreeting])
  refine ⟨info, known, ?_, fun t => ?_⟩
  · rw [next_of_effect (.of_event opened hb (.subscribe known)) (List.forall_mem_nil _)]
    exact (peers_of_subscriptions ..).1
  · rw [next_of_effect (.of_event opened hb (.subscribe known)) (List.forall_mem_nil _)]
    exact subscribers_setSubscriptions ..

theorem next_of_unsubscribe {s : Sync T} (hs : KeysOk s) {call : Call U T S} {pk : Pubkey}
    {topics : List T} (h : s.heard call = some (pk, .unsubscribe topics)) :
    ∃ info, s.peers.lookup pk = some info ∧ (s.next call).peers = s.peers ∧
      ∀ t, (s.next call).subscribers t =
        if t ∈ topics then dropSubscriber (s.subscribers t) info.peer else s.subscribers t := by
  obtain ⟨w, d, m, rfl, opened, rfl, hb⟩ := heard_eq_some.mp h
  obtain ⟨info, known⟩ := unwrap_known hs opened (by simp [hb, Event.isGreeting])
  refine ⟨info, known, ?_, fun t => ?_⟩
  · rw [next_of_effect (.of_event opened hb (.unsubscribe known)) (List.forall_mem_nil _)]
    exact (peers_of_subscriptions ..).2
  · rw [next_of_effect (.of_event opened hb (.unsubscribe known)) (List.forall_mem_nil _)]
    exact subscribers_unsetSubscriptions ..

/-- The call brings no word about subscriptions. -/
def Quiet (s : Sync T) (call : Call U T S) : Prop :=
  ∀ pk e, s.heard call = some (pk, e) → e.isSubscriptionChange = false

omit [Subscription S T] in
theorem quiet_cases (s : Sync T) (call : Call U T S) :
    (∃ pk subscriptions, s.heard call = some (pk, .subscribe subscriptions)) ∨
      (∃ pk topics, s.heard call = some (pk, .unsubscribe topics)) ∨ Quiet s call := by
  cases h : s.heard call with
  | none => exact .inr (.inr fun pk e he => by cases h.symm.trans he)
  | some x =>
    obtain ⟨pk, e⟩ := x
    cases e with
    | subscribe subscriptions => exact .inl ⟨pk, subscriptions, rfl⟩
    | unsubscribe topics => exact .inr (.inl ⟨pk, topics, rfl⟩)
    | _ => exact .inr (.inr fun pk e he => by cases h.symm.trans he; rfl)

/-- Only `Subscribe` and `Unsubscribe` touch the subscribers. -/
theorem Quiet.subscribers {s : Sync T} {call : Call U T S} (quiet : Quiet s call) :
    (s.next call).subscribers = s.subscribers := by
  rcases next_cases s call with ⟨as, sends, he, _, h⟩ | ⟨_, h⟩
  · rw [h]
    cases he with
    | initComm => exact subscribers_setPendingPeer ..
    | peerConfirm | init => rfl
    | @tick order now nonce =>
      have effect : Effect (U := U) (S := S) s (.tick order now nonce) _ _ := .tick
      exact subscribers_of_unsets effect.unsets_of_tick
    | @event w d m _ _ opened effect =>
      have hq := quiet w.pubkeySender m.body (heard_eq_some.mpr ⟨w, d, m, rfl, opened, rfl, rfl⟩)
      generalize m.body = e at effect hq
      cases effect with
      | subscribe | unsubscribe => cases hq
      | _ => rfl
  · rw [h]

omit [Subscription S T] in
theorem Registers.quiet {s : Sync T} {call : Call U T S} {pk : Pubkey} {c : ConnectionInfo}
    {now : DateTime} (h : Registers s call pk c now) : Quiet s call := by
  intro pk' e he
  obtain ⟨w, d, m, hc, opened, _, rfl⟩ := heard_eq_some.mp he
  cases h with
  | init => cases hc
  | hello opened' body =>
    cases hc
    cases opened.symm.trans opened'
    rw [body]
    rfl

omit [Subscription S T] in
theorem Confirms.quiet {s : Sync T} {call : Call U T S} {pk : Pubkey} {name : String}
    {now : DateTime} (h : Confirms s call pk name now) : Quiet s call := by
  intro pk' e he
  obtain ⟨w, d, m, hc, opened, _, rfl⟩ := heard_eq_some.mp he
  cases h with
  | app => cases hc
  | peerInit opened' body | peerConfirm opened' body =>
    cases hc
    cases opened.symm.trans opened'
    rw [body]
    rfl

omit [Subscription S T] in
theorem Forgets.quiet {s : Sync T} {call : Call U T S} {pk : Pubkey}
    (h : Forgets s call pk) : Quiet s call := by
  cases h
  exact fun _ _ he => by cases he

/-- The entries after a call are the old ones, and those of a peer that just subscribed. -/
theorem mem_subscribers_next {s : Sync T} (hs : KeysOk s) {call : Call U T S} {t : T}
    {e : PeerInfo} (he : e ∈ (s.next call).subscribers t) : e ∈ s.subscribers t ∨
      ∃ pk, s.peers.lookup pk = some e ∧ (s.next call).peers = s.peers := by
  rcases quiet_cases s call with ⟨pk, subscriptions, h⟩ | ⟨pk, topics, h⟩ | quiet
  · obtain ⟨info, known, hp, hn⟩ := next_of_subscribe hs h
    rw [hn] at he
    split at he
    · rcases mem_addSubscriber he with he | rfl
      · exact .inl he
      · exact .inr ⟨pk, known, hp⟩
    · exact .inl he
  · obtain ⟨info, _, _, hn⟩ := next_of_unsubscribe hs h
    rw [hn] at he
    split at he
    · exact .inl (mem_dropSubscriber.mp he).1
    · exact .inl he
  · rw [quiet.subscribers] at he
    exact .inl he

/-! The answers to queries -/

/-- The stored messages that a query of the peer is answered with. -/
def answers (s : Sync T) (info : PeerInfo) (messages : List (Message U T S)) :
    List (Message U T S) :=
  messages.filter (s.filterMessageByPeer info.peer)

theorem Effect.query {s : Sync T} {call : Call U T S} {as : List (SyncAction T)}
    {sends : List (Sending U T S)} (h : Effect s call as sends) {pk : Pubkey} {e : Event U T S}
    (heard : s.heard call = some (pk, e)) (query : e.isQuery) {x : Sending U T S} (hx : x ∈ sends) :
    ∃ w d info m, call = .receive (.sealed w) d ∧ s.peers.lookup pk = some info ∧
      m ∈ s.answers info d.messages ∧ x = .relay info m := by
  obtain ⟨w, d, m, rfl, opened, rfl, rfl⟩ := heard_eq_some.mp heard
  cases h with
  | event opened' effect =>
    cases opened.symm.trans opened'
    generalize m.body = e at query effect
    cases effect with
    | unanswered => cases hx
    | query _ known =>
      obtain ⟨m', hm', rfl⟩ := List.mem_map.mp hx
      exact ⟨w, d, _, m', rfl, known, hm', rfl⟩
    | _ => cases query

end Sync

section
variable {U T S : Type} [DecidableEq T] [Rmp (Message U T S)] [Subscription S T]

/-- In this step the node sealed `x` and sent it. -/
def Step.Sends (st : Step U T S) (x : Sending U T S) : Prop :=
  ∃ actions as sends, st.result = .ok actions ∧ Sync.Effect st.pre st.input as sends ∧
    st.pre.Splits actions as sends ∧ x ∈ sends

/-- The step answers a query. -/
def Step.isQuery (st : Step U T S) : Bool :=
  match st.pre.heard st.input with
  | some (_, e) => e.isQuery
  | none => false

/-- In this step the node handed `x` on in answer to a query. -/
def Step.Relays (st : Step U T S) (x : Sending U T S) : Prop := st.Sends x ∧ st.isQuery = true

omit [Subscription S T] in
theorem Step.isQuery_iff {st : Step U T S} : st.isQuery = true ↔
    ∃ pk e, st.pre.heard st.input = some (pk, e) ∧ e.isQuery = true := by
  cases h : st.pre.heard st.input with
  | none => simp [Step.isQuery, h]
  | some x =>
    obtain ⟨pk, e⟩ := x
    simp [Step.isQuery, h]

/-- Every sealed message among the returned actions is one that the node sealed. -/
theorem Step.exists_sends {st : Step U T S} {actions : List (Action U T S)}
    (result : st.result = .ok actions) {c : ConnectionInfo} {w : MessageSealed}
    (h : .messageSend c (.sealed w) ∈ actions) :
    ∃ x, st.Sends x ∧ x.SealedAs st.pre.keypair.toPubkey (c, w) := by
  obtain ⟨as, sends, effect, hsplit⟩ := Sync.exec_effect result
  have hmem : (c, w) ∈ sealedSends actions := List.mem_filterMap.mpr ⟨_, h, rfl⟩
  obtain ⟨x, hx, hseal⟩ := Attempt.exists_mem_of_mem_right hsplit.2 hmem
  exact ⟨x, ⟨actions, as, sends, result, effect, hsplit, hx⟩, hseal⟩

theorem Step.sends_of_effect {s : Sync T} {call : Call U T S} {as : List (SyncAction T)}
    {sends : List (Sending U T S)} (h : Sync.Effect s call as sends)
    (fits : ∀ x ∈ sends, x.message.Serializable) {x : Sending U T S} (hx : x ∈ sends) :
    Step.Sends ⟨s, call⟩ x := by
  obtain ⟨actions, ha, hs⟩ := Sync.exec_succeeds h fits
  exact ⟨actions, as, sends, ha, h, hs, hx⟩

end
end Tp2p
