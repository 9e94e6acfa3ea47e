import Tp2p.Lib.Relational
import Tp2p.Lib.KeyedTable
import Tp2p.Node.Records
import Tp2p.Node.Reference

/-! Nodes that differ in the order of their lists only. Whatever call is made on both, in
whatever order each of them goes through its hash maps, they stay that way. -/
namespace Tp2p
open Transition KeyedLog
variable [Sodium] {U T S : Type} [DecidableEq T]

/-- The same call, made on two copies of a node, which meet their entries in orders of their own. -/
inductive Call.Alike : Call U T S → Call U T S → Prop where
  | same (call : Call U T S) : Alike call call
  | tick (order order' : IterOrder PeerInfo) (now : DateTime) (nonce : Pubkey → Nonce) :
      Alike (.tick order now nonce) (.tick order' now nonce)
  | receive (message : MessageWrapped) (d : Delivery U T S)
      (iter : IterOrder (Sigma fun _ : T => List PeerInfo)) (keys : IterOrder T) :
      Alike (.receive message d) (.receive message { d with iter, keys })

omit [DecidableEq T] in
theorem Call.Alike.symm {call call' : Call U T S} (h : Call.Alike call call') :
    Call.Alike call' call := by
  cases h with
  | same => exact .same _
  | tick order order' now nonce => exact .tick order' order now nonce
  | receive message d iter keys => exact .receive message _ d.iter d.keys

namespace Sync

theorem SameSelf.symm {s s' : Sync T} (h : SameSelf s s') : SameSelf s' s :=
  ⟨h.peeringConfig.symm, h.name.symm, h.keypair.symm⟩

theorem SameTables.refl (s : Sync T) : SameTables s s :=
  ⟨fun _ => rfl, .refl _, fun t => by cases s.subscriptions.lookup t <;> constructor; exact .refl _⟩

theorem SameTables.subscribers {s s' : Sync T} (h : SameTables s s') (t : T) :
    (s.subscribers t).Perm (s'.subscribers t) := by
  have ht := h.subscriptions t
  rw [Sync.subscribers, Sync.subscribers]
  generalize s.subscriptions.lookup t = entries at ht ⊢
  generalize s'.subscriptions.lookup t = entries' at ht ⊢
  cases ht with
  | none => exact .refl _
  | some h => exact h

/-- An action changes tables that are the same into tables that are the same. -/
theorem SameTables.applySyncAction {s s' : Sync T} (h : SameTables s s') (hs : s.InUse)
    (hs' : s'.InUse) (a : SyncAction T) :
    SameTables (s.applySyncAction a) (s'.applySyncAction a) := by
  apply SameTables.of_subscribers (hs.applySyncAction a) (hs'.applySyncAction a)
  · intro pk
    rw [lookup_applySyncAction, lookup_applySyncAction, h.peers]
  · rw [pending_applySyncAction, pending_applySyncAction]
    cases SyncAction.pendingOp a with
    | none => exact h.pending
    | some op => exact step_perm _ h.pending op
  · intro t
    rw [subscribers_applySyncAction, subscribers_applySyncAction]
    cases SyncAction.subscriptionOp t a with
    | none => exact h.subscribers t
    | some op => exact step_perm _ (h.subscribers t) op

theorem SameTables.applySyncActions {s s' : Sync T} (h : SameTables s s') (hs : s.InUse)
    (hs' : s'.InUse) (as : List (SyncAction T)) :
    SameTables (s.applySyncActions as) (s'.applySyncActions as) := by
  induction as generalizing s s' with
  | nil => exact h
  | cons a as ih => exact ih (h.applySyncAction hs hs' a) (hs.applySyncAction a) (hs'.applySyncAction a)

theorem SameTables.keysOk {s s' : Sync T} (h : SameTables s s') (self : SameSelf s s') (hs : s.KeysOk) :
    s'.KeysOk where
  filed hl := hs.filed ((h.peers _).trans hl)
  peers hl := self.keypair ▸ hs.peers ((h.peers _).trans hl)
  subscribers he := self.keypair ▸ hs.subscribers ((h.subscribers _).mem_iff.mpr he)

/-- What holds of the tables of every reachable state. -/
structure Sound (s : Sync T) : Prop where
  keysOk : s.KeysOk
  inUse : s.InUse

/-- Two such states of one node, the same but for the order in their lists. -/
structure Alike (s s' : Sync T) : Prop where
  self : SameSelf s s'
  tables : SameTables s s'
  left : s.Sound
  right : s'.Sound

theorem Alike.refl {s : Sync T} (h : s.Sound) : Alike s s := ⟨.refl s, .refl s, h, h⟩

theorem SameTables.symm {s s' : Sync T} (h : SameTables s s') (hs : s.InUse) (hs' : s'.InUse) :
    SameTables s' s :=
  .of_subscribers hs' hs (fun pk => (h.peers pk).symm) h.pending.symm fun t => (h.subscribers t).symm

theorem Alike.symm {s s' : Sync T} (h : Alike s s') : Alike s' s where
  self := h.self.symm
  tables := h.tables.symm h.left.inUse h.right.inUse
  left := h.right
  right := h.left

theorem Alike.trans {s s' s'' : Sync T} (h : Alike s s') (h' : Alike s' s'') : Alike s s'' where
  self := h.self.trans h'.self
  tables := .of_subscribers h.left.inUse h'.right.inUse
    (fun pk => (h.tables.peers pk).trans (h'.tables.peers pk)) (h.tables.pending.trans h'.tables.pending)
    fun t => (h.tables.subscribers t).trans (h'.tables.subscribers t)
  left := h.left
  right := h'.right

section
variable {s s' : Sync T}

theorem Alike.pending_iff (h : Alike s s') (c : ConnectionInfo) :
    (∃ p ∈ s'.pendingPeerInit, p.connectionInfo = c) ↔ ∃ p ∈ s.pendingPeerInit, p.connectionInfo = c := by
  simp only [h.tables.pending.mem_iff]

theorem Alike.isPeerSubscribedToTopic (h : Alike s s') (t : T) (peer : Peer) :
    s'.isPeerSubscribedToTopic t peer = s.isPeerSubscribedToTopic t peer := by
  rw [Bool.eq_iff_iff, isPeerSubscribedToTopic_iff, isPeerSubscribedToTopic_iff]
  simp only [(h.tables.subscribers t).mem_iff]

theorem Alike.tmpInfo (h : Alike s s') (pk : Pubkey) (c : ConnectionInfo) (now : DateTime) :
    s'.tmpInfo pk c now = s.tmpInfo pk c now := by
  rw [Sync.tmpInfo, Sync.tmpInfo, h.self.keypair]

/-- Removals with the same members, in whatever order. -/
theorem Alike.unsets (h : Alike s s') {as as' : List (SyncAction T)} (has : ∀ a ∈ as, Unsets a)
    (has' : ∀ a ∈ as', Unsets a) (same : ∀ a, a ∈ as ↔ a ∈ as') :
    SameTables (s.applySyncActions as) (s'.applySyncActions as') := by
  apply SameTables.of_subscribers (h.left.inUse.applySyncActions as) (h.right.inUse.applySyncActions as')
  · intro pk
    rw [lookup_of_unsets has, lookup_of_unsets has', h.tables.peers]
    exact if_congr (same _) rfl rfl
  · rw [pending_of_unsets has, pending_of_unsets has']
    simp only [same]
    exact h.tables.pending.filter _
  · intro t
    rw [subscribers_of_unsets has, subscribers_of_unsets has']
    exact h.tables.subscribers t

variable [Rmp (Message U T S)] [Subscription S T]

omit [Subscription S T] in
/-- The gate looks at the record of the sender and at the keys of the node. -/
theorem unwrap_congr {w : MessageSealed} (keypair : s.keypair = s'.keypair)
    (record : s.peers.lookup w.pubkeySender = s'.peers.lookup w.pubkeySender) :
    (s.unwrapIncomingMessage w : Except Error (Message U T S)) = s'.unwrapIncomingMessage w := by
  cases hl : s.peers.lookup w.pubkeySender with
  | none => rw [unwrap_of_unknown hl, unwrap_of_unknown (record.symm.trans hl), keypair]
  | some info => rw [unwrap_of_known hl, unwrap_of_known (record.symm.trans hl)]

omit [Rmp (Message U T S)] [Subscription S T] in
theorem Alike.filterMessageByPeer (h : Alike s s') (peer : Peer) :
    s'.filterMessageByPeer peer = (s.filterMessageByPeer peer : Message U T S → Bool) := by
  funext m
  simp only [Sync.filterMessageByPeer, h.isPeerSubscribedToTopic]

/-- The tables are changed alike, and the call succeeds on both if on one, unless it changes nothing. -/
structure Corresponds (s s' : Sync T) (as as' : List (SyncAction T)) (sends sends' : List (Sending U T S)) :
    Prop where
  tables : SameTables (s.applySyncActions as) (s'.applySyncActions as')
  fits : ((∀ x ∈ sends, x.message.Serializable) → ∀ x ∈ sends', x.message.Serializable) ∨
    (as = [] ∧ as' = [])

omit [Subscription S T] in
theorem Alike.corresponds (h : Alike s s') (as : List (SyncAction T)) {sends sends' : List (Sending U T S)}
    (fits : (∀ x ∈ sends, x.message.Serializable) → ∀ x ∈ sends', x.message.Serializable) :
    Corresponds s s' as as sends sends' :=
  ⟨h.tables.applySyncActions h.left.inUse h.right.inUse as, .inl fits⟩

omit [Rmp (Message U T S)] in
theorem EventEffect.alike [Rmp (Message U T S)] (h : Alike s s') {pk : Pubkey} {d : Delivery U T S}
    {e : Event U T S} {as : List (SyncAction T)} {sends : List (Sending U T S)}
    (effect : EventEffect s pk d e as sends) (iter : IterOrder (Sigma fun _ : T => List PeerInfo))
    (keys : IterOrder T) : ∃ as' sends', EventEffect s' pk { d with iter, keys } e as' sends' ∧
      Corresponds s s' as as' sends sends' := by
  have known : ∀ {info}, s.peers.lookup pk = some info → s'.peers.lookup pk = some info :=
    fun hl => (h.tables.peers pk).symm.trans hl
  have name : s'.name = s.name := h.self.name
  cases effect with
  | rogueHello pending =>
    refine ⟨_, _, .rogueHello fun p hp => ?_, h.corresponds _ id⟩
    exact pending p (h.tables.pending.mem_iff.mpr hp)
  | hello pending =>
    refine ⟨_, _, .hello ((h.pending_iff _).mpr pending), ?_⟩
    rw [h.tmpInfo, name]
    exact h.corresponds _ id
  | peerInit allowed hl =>
    refine ⟨_, _, .peerInit (h.self.peeringConfig ▸ allowed) (known hl), ?_⟩
    rw [name]
    exact h.corresponds _ id
  | undecided allowed =>
    exact ⟨_, _, .undecided (h.self.peeringConfig ▸ allowed), h.corresponds _ id⟩
  | peerConfirm hl => exact ⟨_, _, .peerConfirm (known hl), h.corresponds _ id⟩
  | ping hl => exact ⟨_, _, .ping (known hl), h.corresponds _ id⟩
  | pong hl => exact ⟨_, _, .pong (known hl), h.corresponds _ id⟩
  | unanswered query stored => exact ⟨_, _, .unanswered query stored, h.corresponds _ id⟩
  | query query hl =>
    refine ⟨_, _, .query query (known hl), ?_⟩
    rw [h.filterMessageByPeer]
    exact h.corresponds _ id
  | subscribe hl => exact ⟨_, _, .subscribe (known hl), h.corresponds _ id⟩
  | unsubscribe hl => exact ⟨_, _, .unsubscribe (known hl), h.corresponds _ id⟩
  | querySubscriptions hl =>
    -- the list of topics may come in another order
    exact ⟨_, _, .querySubscriptions (known hl), h.tables, .inr ⟨rfl, rfl⟩⟩
  | activeSubscriptions hl => exact ⟨_, _, .activeSubscriptions (known hl), h.corresponds _ id⟩
  | user data => exact ⟨_, _, .user data, h.corresponds _ id⟩

theorem Effect.alike (h : Alike s s') {call call' : Call U T S} (hc : Call.Alike call call')
    {as : List (SyncAction T)} {sends : List (Sending U T S)} (effect : Effect s call as sends) :
    ∃ as' sends', Effect s' call' as' sends' ∧ Corresponds s s' as as' sends sends' := by
  -- a delivery is alike to itself with the orders it has
  have received : ∀ {message : MessageWrapped} {d : Delivery U T S}
      (iter : IterOrder (Sigma fun _ : T => List PeerInfo)) (keys : IterOrder T),
      Effect s (.receive message d) as sends → ∃ as' sends',
        Effect s' (.receive message { d with iter, keys }) as' sends' ∧
          Corresponds s s' as as' sends sends' := by
    intro message d iter keys effect
    cases effect with
    | init =>
      refine ⟨_, _, .init, ?_⟩
      rw [h.tmpInfo]
      exact h.corresponds _ id
    | event opened effect =>
      obtain ⟨as', sends', effect', corresponds⟩ := effect.alike h iter keys
      refine ⟨as', sends', .event ?_ effect', corresponds⟩
      exact (unwrap_congr h.self.keypair (h.tables.peers _).symm).trans opened
  have ticked : ∀ {order order' : IterOrder PeerInfo} {now : DateTime} {nonce : Pubkey → Nonce},
      Effect s (.tick order now nonce : Call U T S) as sends → ∃ as' sends',
        Effect s' (.tick order' now nonce : Call U T S) as' sends' ∧
          Corresponds s s' as as' sends sends' := by
    intro order order' now nonce effect
    have effect' : Effect s' (.tick order' now nonce : Call U T S) _ _ := .tick
    refine ⟨_, _, effect', ?_, .inl fun fits x hx => ?_⟩
    · apply h.unsets effect.unsets_of_tick effect'.unsets_of_tick
      intro a
      rw [effect.mem_tick h.left.keysOk, effect'.mem_tick h.right.keysOk]
      simp only [h.tables.peers, h.tables.pending.mem_iff]
    · obtain ⟨pk, info, hl, due, rfl⟩ := mem_pings.mp hx
      cases effect
      exact fits _ (mem_pings.mpr ⟨pk, info, (h.tables.peers pk).trans hl, due, rfl⟩)
  cases hc with
  | tick => exact ticked effect
  | receive => exact received _ _ effect
  | same call =>
    cases call with
    | initComm addr now =>
      cases effect with
      | initComm parsed => exact ⟨_, _, .initComm parsed, h.corresponds _ id⟩
    | peerConfirm pk name now nonce =>
      cases effect with
      | peerConfirm known =>
        refine ⟨_, _, .peerConfirm ((h.tables.peers pk).symm.trans known), ?_⟩
        rw [h.self.name]
        exact h.corresponds _ id
    | tick => exact ticked effect
    | receive message d => exact received d.iter d.keys effect

theorem Sound.next (h : s.Sound) (call : Call U T S) : (s.next call).Sound := by
  refine ⟨next_keysOk h.keysOk call, ?_⟩
  rcases next_cases s call with ⟨as, _, _, _, hn⟩ | ⟨_, hn⟩
  · rw [hn]
    exact h.inUse.applySyncActions as
  · rw [hn]
    exact h.inUse

/-- A call that fails on one of the two changes nothing on the other. -/
theorem Alike.next_of_error (h : Alike s s') {call call' : Call U T S} (hc : Call.Alike call call')
    (fails : s.next call = s) (error : ∃ e, s.exec call = .error e) :
    SameTables (s.next call) (s'.next call') := by
  rw [fails]
  rcases next_cases s' call' with ⟨as', sends', effect', fits', hn'⟩ | ⟨_, hn'⟩
  · obtain ⟨as, sends, effect, corresponds⟩ := effect'.alike h.symm hc.symm
    rcases corresponds.fits with fits | ⟨rfl, rfl⟩
    · obtain ⟨actions, ha, _⟩ := exec_succeeds effect (fits fits')
      obtain ⟨e, he⟩ := error
      cases ha.symm.trans he
    · rw [hn']
      exact h.tables
  · rw [hn']
    exact h.tables

theorem Alike.next (h : Alike s s') {call call' : Call U T S} (hc : Call.Alike call call') :
    Alike (s.next call) (s'.next call') := by
  refine ⟨?_, ?_, h.left.next call, h.right.next call'⟩
  · exact (next_sameSelf s call).symm.trans (h.self.trans (next_sameSelf s' call'))
  · rcases next_cases s call with ⟨as, sends, effect, fits, hn⟩ | ⟨error, hn⟩
    · obtain ⟨as', sends', effect', corresponds⟩ := effect.alike h hc
      rcases corresponds.fits with fits' | ⟨rfl, rfl⟩
      · rw [hn, next_of_effect effect' (fits' fits)]
        exact corresponds.tables
      · rcases next_cases s' call' with ⟨as'', sends'', effect'', _, hn'⟩ | ⟨_, hn'⟩
        · obtain ⟨rfl, _⟩ := effect'.unique effect''
          rw [hn, hn']
          exact h.tables
        · rw [hn, hn']
          exact h.tables
    · exact h.next_of_error hc hn error

end
end Sync
end Tp2p
