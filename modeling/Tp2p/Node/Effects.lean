import Tp2p.Node.Tables

/-! What a successful call does to the tables of a node: one case for each way
a handler can end, with the guard under which it ends so. -/
namespace Tp2p
variable [Sodium]

/-- The record that a confirmation writes. -/
def PeerInfo.confirmed (info : PeerInfo) (name : String) (now : DateTime) : PeerInfo :=
  ((info.setName name).setActive true).setLastPing now

/-- `tick` gives up on this peer: unconfirmed, and silent for more than 180 seconds. -/
def Overdue (now : DateTime) (info : PeerInfo) : Prop :=
  180 < numSeconds (now - info.lastPing) ∧ info.active = false

instance (now : DateTime) (info : PeerInfo) : Decidable (Overdue now info) :=
  inferInstanceAs (Decidable (_ ∧ _))

/-- `tick` pings this peer. -/
def Due (now : DateTime) (info : PeerInfo) : Prop :=
  60 ≤ numSeconds (now - info.lastPing) ∧ ¬ Overdue now info

instance (now : DateTime) (info : PeerInfo) : Decidable (Due now info) :=
  inferInstanceAs (Decidable (_ ∧ _))

/-- `tick` gives up on this initiation: no answer for 120 seconds. -/
def Expired (now : DateTime) (pending : PendingPeer) : Prop :=
  120 ≤ numSeconds (now - pending.created)

instance (now : DateTime) (pending : PendingPeer) : Decidable (Expired now pending) :=
  inferInstanceAs (Decidable (_ ≤ _))

/-- A message on its way to a peer, before it is sealed. -/
structure Sending (U T S : Type) where
  connectionInfo : ConnectionInfo
  peer : Peer
  message : Message U T S

/-- A message made for a peer, under a nonce drawn for it. -/
def Sending.fresh {U T S : Type} (info : PeerInfo) (now : DateTime) (nonce : Nonce)
    (body : Event U T S) : Sending U T S :=
  ⟨info.connectionInfo, info.peer, Message.new ⟨now, nonce⟩ body []⟩

/-- A stored message handed on to a peer. -/
def Sending.relay {U T S : Type} (info : PeerInfo) (message : Message U T S) : Sending U T S :=
  ⟨info.connectionInfo, info.peer, message⟩

/-- What goes out on which connection for a sending of the node with key `pk`. -/
def Sending.SealedAs {U T S : Type} [Rmp (Message U T S)] (pk : Pubkey) (x : Sending U T S)
    (y : ConnectionInfo × MessageSealed) : Prop :=
  y.1 = x.connectionInfo ∧ MessageSealed.seal pk x.peer x.message = .ok y.2

/-- The codec has an encoding for the message. -/
def Message.Serializable {U T S : Type} [Rmp (Message U T S)] (m : Message U T S) : Prop :=
  ∃ b, serialize m = .ok b

/-- The two events that ask for stored messages. -/
def Event.isQuery {U T S : Type} : Event U T S → Bool
  | .queryMessagesByID _ | .queryMessagesByDepth _ _ => true
  | _ => false

/-- The sealed messages among the actions, with the connections they go to. -/
def sealedSends {U T S : Type} (actions : List (Action U T S)) :
    List (ConnectionInfo × MessageSealed) :=
  actions.filterMap fun
    | .messageSend c (.sealed w) => some (c, w)
    | _ => none

@[simp] theorem syncActions_nil {U T S : Type} : syncActions ([] : List (Action U T S)) = [] := rfl

@[simp] theorem syncActions_sync {U T S : Type} (a : SyncAction T) (as : List (Action U T S)) :
    syncActions (.sync a :: as) = a :: syncActions as := rfl

@[simp] theorem syncActions_messageSend {U T S : Type} (c : ConnectionInfo) (m : MessageWrapped)
    (as : List (Action U T S)) : syncActions (.messageSend c m :: as) = syncActions as := rfl

@[simp] theorem syncActions_confirm {U T S : Type} (e : Event U T S) (as : List (Action U T S)) :
    syncActions (.confirm e :: as) = syncActions as := rfl

@[simp] theorem syncActions_append {U T S : Type} (as bs : List (Action U T S)) :
    syncActions (as ++ bs) = syncActions as ++ syncActions bs :=
  List.filterMap_append

namespace Sync
variable {U T S : Type} [DecidableEq T]

/-- The record of a peer known only by its key. -/
def tmpInfo (s : Sync T) (pk : Pubkey) (c : ConnectionInfo) (now : DateTime) : PeerInfo :=
  ⟨Peer.tmp pk s.keypair.seckey, c, false, now⟩

/-- The effect of an event from `pk`: the changes to the tables and the messages
that go out sealed. -/
inductive EventEffect [Subscription S T] (s : Sync T) (pk : Pubkey) (d : Delivery U T S) :
    Event U T S → List (SyncAction T) → List (Sending U T S) → Prop where
  | rogueHello (pending : ∀ p ∈ s.pendingPeerInit, p.connectionInfo ≠ d.connectionInfo) :
      EventEffect s pk d .hello [] []
  | hello (pending : ∃ p ∈ s.pendingPeerInit, p.connectionInfo = d.connectionInfo) :
      EventEffect s pk d .hello
        [.setPeer (s.tmpInfo pk d.connectionInfo d.now), .unsetPendingPeer d.connectionInfo]
        [.fresh (s.tmpInfo pk d.connectionInfo d.now) d.now d.nonce (.peerInit s.name)]
  | peerInit {name : String} {info : PeerInfo}
      (allowed : s.peeringConfig.canConfirm pk = some true) (known : s.peers.lookup pk = some info) :
      EventEffect s pk d (.peerInit name) [.setPeer (info.confirmed name d.now)]
        [.fresh info d.now d.nonce (.peerConfirm s.name)]
  | undecided {name : String} (allowed : s.peeringConfig.canConfirm pk ≠ some true) :
      EventEffect s pk d (.peerInit name) [] []
  | peerConfirm {name : String} {info : PeerInfo} (known : s.peers.lookup pk = some info) :
      EventEffect s pk d (.peerConfirm name) [.setPeer (info.confirmed name d.now)] []
  | ping {info : PeerInfo} (known : s.peers.lookup pk = some info) :
      EventEffect s pk d .ping [.setPeer (info.setLastPing d.now)] [.fresh info d.now d.nonce .pong]
  | pong {info : PeerInfo} (known : s.peers.lookup pk = some info) :
      EventEffect s pk d .pong [.setPeer (info.setLastPing d.now)] []
  | unanswered {e : Event U T S} (query : e.isQuery) (stored : d.messages = []) :
      EventEffect s pk d e [] []
  | query {e : Event U T S} {info : PeerInfo} (query : e.isQuery)
      (known : s.peers.lookup pk = some info) :
      EventEffect s pk d e []
        ((d.messages.filter (s.filterMessageByPeer info.peer)).map (Sending.relay info))
  | subscribe {subscriptions : List S} {info : PeerInfo} (known : s.peers.lookup pk = some info) :
      EventEffect s pk d (.subscribe subscriptions)
        ((subscriptions.filterMap Subscription.verify).map (SyncAction.setSubscription · info)) []
  | unsubscribe {topics : List T} {info : PeerInfo} (known : s.peers.lookup pk = some info) :
      EventEffect s pk d (.unsubscribe topics)
        (topics.map (SyncAction.unsetSubscription · info)) []
  | querySubscriptions {info : PeerInfo} (known : s.peers.lookup pk = some info) :
      EventEffect s pk d .querySubscriptions []
        [.fresh info d.now d.nonce (.activeSubscriptions (s.activeTopics info.peer d.iter d.keys))]
  | activeSubscriptions {topics : List T} {info : PeerInfo}
      (known : s.peers.lookup pk = some info) :
      EventEffect s pk d (.activeSubscriptions topics) [] []
  | user (data : U) : EventEffect s pk d (.user data) [] []

/-- The effect of a call. -/
inductive Effect [Rmp (Message U T S)] [Subscription S T] (s : Sync T) :
    Call U T S → List (SyncAction T) → List (Sending U T S) → Prop where
  | initComm {addr : String} {now : DateTime} {c : ConnectionInfo}
      (parsed : ConnectionInfo.new addr = .ok c) :
      Effect s (.initComm addr now) [.setPendingPeer ⟨c, now⟩] []
  | peerConfirm {pk : Pubkey} {name : String} {now : DateTime} {nonce : Nonce} {info : PeerInfo}
      (known : s.peers.lookup pk = some info) :
      Effect s (.peerConfirm pk name now nonce) [.setPeer (info.confirmed name now)]
        [.fresh info now nonce (.peerConfirm s.name)]
  | tick {order : IterOrder PeerInfo} {now : DateTime} {nonce : Pubkey → Nonce} :
      Effect s (.tick order now nonce)
        (((order.arrange (HashMap.values s.peers)).filter (Overdue now ·)).map
            (SyncAction.unsetPeer ·.peer.pubkey) ++
          (s.pendingPeerInit.filter (Expired now ·)).map
            (SyncAction.unsetPendingPeer ·.connectionInfo))
        (((order.arrange (HashMap.values s.peers)).filter (Due now ·)).map fun info =>
          .fresh info now (nonce info.peer.pubkey) .ping)
  | init {pk : Pubkey} {d : Delivery U T S} :
      Effect s (.receive (.init pk) d) [.setPeer (s.tmpInfo pk d.connectionInfo d.now)]
        [.fresh (s.tmpInfo pk d.connectionInfo d.now) d.now d.nonce .hello]
  | event {w : MessageSealed} {d : Delivery U T S} {m : Message U T S} {as : List (SyncAction T)}
      {sends : List (Sending U T S)} (opened : s.unwrapIncomingMessage w = .ok m)
      (effect : EventEffect s w.pubkeySender d m.body as sends) :
      Effect s (.receive (.sealed w) d) as sends

/-- The pings of a tick are those to the peers that are due. -/
theorem mem_pings {s : Sync T} {order : IterOrder PeerInfo} {now : DateTime}
    {nonce : Pubkey → Nonce} {x : Sending U T S} :
    x ∈ ((order.arrange (HashMap.values s.peers)).filter (Due now ·)).map (fun info =>
        (.fresh info now (nonce info.peer.pubkey) .ping : Sending U T S)) ↔
      ∃ pk info, s.peers.lookup pk = some info ∧ Due now info ∧
        x = .fresh info now (nonce info.peer.pubkey) .ping := by
  simp only [List.mem_map, List.mem_filter, IterOrder.mem_arrange, HashMap.mem_values,
    decide_eq_true_eq]
  constructor
  · rintro ⟨info, ⟨⟨pk, known⟩, due⟩, rfl⟩
    exact ⟨pk, info, known, due, rfl⟩
  · rintro ⟨pk, info, known, due, rfl⟩
    exact ⟨info, ⟨⟨pk, known⟩, due⟩, rfl⟩

/-- The effect of an event is determined. -/
theorem EventEffect.unique [Subscription S T] {s : Sync T} {pk : Pubkey} {d : Delivery U T S}
    {e : Event U T S} {as as' : List (SyncAction T)} {sends sends' : List (Sending U T S)}
    (h : EventEffect s pk d e as sends) (h' : EventEffect s pk d e as' sends') :
    as = as' ∧ sends = sends' := by
  cases h with
  | rogueHello pending =>
    cases h' with
    | rogueHello => exact ⟨rfl, rfl⟩
    | hello pending' =>
      obtain ⟨p, hp, hc⟩ := pending'
      exact absurd hc (pending p hp)
    | unanswered query | query query => cases query
  | hello pending =>
    cases h' with
    | rogueHello pending' =>
      obtain ⟨p, hp, hc⟩ := pending
      exact absurd hc (pending' p hp)
    | hello => exact ⟨rfl, rfl⟩
    | unanswered query | query query => cases query
  | peerInit allowed known =>
    cases h' with
    | peerInit _ known' => cases known.symm.trans known'; exact ⟨rfl, rfl⟩
    | undecided allowed' => exact absurd allowed allowed'
    | unanswered query | query query => cases query
  | undecided allowed =>
    cases h' with
    | peerInit allowed' => exact absurd allowed' allowed
    | undecided => exact ⟨rfl, rfl⟩
    | unanswered query | query query => cases query
  | peerConfirm known =>
    cases h' with
    | peerConfirm known' => cases known.symm.trans known'; exact ⟨rfl, rfl⟩
    | unanswered query | query query => cases query
  | ping known =>
    cases h' with
    | ping known' => cases known.symm.trans known'; exact ⟨rfl, rfl⟩
    | unanswered query | query query => cases query
  | pong known =>
    cases h' with
    | pong known' => cases known.symm.trans known'; exact ⟨rfl, rfl⟩
    | unanswered query | query query => cases query
  | unanswered query stored =>
    cases h' with
    | unanswered => exact ⟨rfl, rfl⟩
    | query => simp [stored]
    | _ => cases query
  | query query known =>
    cases h' with
    | unanswered _ stored => simp [stored]
    | query _ known' => cases known.symm.trans known'; exact ⟨rfl, rfl⟩
    | _ => cases query
  | subscribe known =>
    cases h' with
    | subscribe known' => cases known.symm.trans known'; exact ⟨rfl, rfl⟩
    | unanswered query | query query => cases query
  | unsubscribe known =>
    cases h' with
    | unsubscribe known' => cases known.symm.trans known'; exact ⟨rfl, rfl⟩
    | unanswered query | query query => cases query
  | querySubscriptions known =>
    cases h' with
    | querySubscriptions known' => cases known.symm.trans known'; exact ⟨rfl, rfl⟩
    | unanswered query | query query => cases query
  | activeSubscriptions known =>
    cases h' with
    | activeSubscriptions known' => exact ⟨rfl, rfl⟩
    | unanswered query | query query => cases query
  | user data =>
    cases h' with
    | user => exact ⟨rfl, rfl⟩
    | unanswered query | query query => cases query

/-- The effect of a call is determined. -/
theorem Effect.unique [Rmp (Message U T S)] [Subscription S T] {s : Sync T} {call : Call U T S}
    {as as' : List (SyncAction T)} {sends sends' : List (Sending U T S)}
    (h : Effect s call as sends) (h' : Effect s call as' sends') : as = as' ∧ sends = sends' := by
  cases h with
  | initComm parsed =>
    cases h' with
    | initComm parsed' => cases parsed.symm.trans parsed'; exact ⟨rfl, rfl⟩
  | peerConfirm known =>
    cases h' with
    | peerConfirm known' => cases known.symm.trans known'; exact ⟨rfl, rfl⟩
  | tick => cases h'; exact ⟨rfl, rfl⟩
  | init => cases h'; exact ⟨rfl, rfl⟩
  | event opened effect =>
    cases h' with
    | event opened' effect' =>
      cases opened.symm.trans opened'
      exact effect.unique effect'

end Sync
end Tp2p
