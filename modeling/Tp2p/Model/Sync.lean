import Tp2p.Lib.HashMap
import Tp2p.Model.Message

/-! The `Sync` object: its tables, the actions it hands back, and the handlers.
Every handler only reads the object; `applySyncActions` is what changes it.

A handler that calls `gen_nonce` is given the nonce it returns, and one that
iterates over a hash map is given the order in which the entries come. -/
namespace Tp2p
variable [Sodium]

structure PendingPeer where
  connectionInfo : ConnectionInfo
  created : DateTime
  deriving DecidableEq

inductive SyncAction (T : Type) where
  | setPeer (peerInfo : PeerInfo)
  | unsetPeer (pubkey : Pubkey)
  | setPendingPeer (pendingPeer : PendingPeer)
  | unsetPendingPeer (connectionInfo : ConnectionInfo)
  | setSubscription (topic : T) (peerInfo : PeerInfo)
  | unsetSubscription (topic : T) (peerInfo : PeerInfo)
  deriving DecidableEq

inductive Action (U T S : Type) where
  | messageSend (connectionInfo : ConnectionInfo) (message : MessageWrapped)
  | confirm (event : Event U T S)
  | sync (action : SyncAction T)
  deriving DecidableEq

/-- The actions that pertain to the `Sync` object itself. -/
def syncActions {U T S : Type} (actions : List (Action U T S)) : List (SyncAction T) :=
  actions.filterMap fun
    | .sync action => some action
    | _ => none

structure Sync (T : Type) [DecidableEq T] where
  peeringConfig : PeeringConfig
  name : String
  keypair : Keypair
  peers : HashMap Pubkey PeerInfo
  subscriptions : HashMap T (List PeerInfo)
  pendingPeerInit : List PendingPeer

namespace Sync
variable {U T S : Type} [DecidableEq T]

def new (name : String) (keypair : Keypair) (peeringConfig : PeeringConfig) : Sync T where
  peeringConfig := peeringConfig
  name := name
  keypair := keypair
  peers := ∅
  subscriptions := ∅
  pendingPeerInit := []

def findPeer (self : Sync T) (pubkey : Pubkey) (active : Option Bool) : Option PeerInfo :=
  (self.peers.lookup pubkey).bind fun peerInfo =>
    let activeBool := match active with
      | some activeVal => peerInfo.active == activeVal
      | none => true
    if activeBool then some peerInfo else none

def findPendingPeerInit (self : Sync T) (connectionInfo : ConnectionInfo) : Option PendingPeer :=
  self.pendingPeerInit.find? (·.connectionInfo == connectionInfo)

def isPeerSubscribedToTopic (self : Sync T) (topic : T) (peer : Peer) : Bool :=
  ((self.subscriptions.lookup topic).bind fun peers => peers.find? (·.peer == peer)).isSome

def filterMessageByPeer (self : Sync T) (peer : Peer) (message : Message U T S) : Bool :=
  message.topicGraph.any fun entry => self.isPeerSubscribedToTopic entry.topic peer

def applySyncAction (self : Sync T) : SyncAction T → Sync T
  | .setPeer peerInfo => { self with peers := self.peers.insert peerInfo.peer.pubkey peerInfo }
  | .unsetPeer pubkey => { self with peers := self.peers.erase pubkey }
  | .setPendingPeer pendingPeer =>
    if (self.findPendingPeerInit pendingPeer.connectionInfo).isNone then
      { self with pendingPeerInit := self.pendingPeerInit ++ [pendingPeer] }
    else self
  | .unsetPendingPeer connectionInfo =>
    { self with pendingPeerInit :=
        self.pendingPeerInit.filter fun p => !(p.connectionInfo == connectionInfo) }
  | .setSubscription topic peerInfo =>
    -- `entry(topic).or_insert(vec![])` and a push if no entry has the same peer
    let entry := (self.subscriptions.lookup topic).getD []
    let entry := if (entry.find? (·.peer == peerInfo.peer)).isSome then entry else entry ++ [peerInfo]
    { self with subscriptions := self.subscriptions.insert topic entry }
  | .unsetSubscription topic peerInfo =>
    match self.subscriptions.lookup topic with
    | some peers =>
      let peers := peers.filter (·.peer != peerInfo.peer)
      -- take out the trash
      if peers.length = 0 then { self with subscriptions := self.subscriptions.erase topic }
      else { self with subscriptions := self.subscriptions.insert topic peers }
    | none => self

def applySyncActions (self : Sync T) (actions : List (SyncAction T)) : Sync T :=
  actions.foldl applySyncAction self

section
variable [Rmp (Message U T S)]

def createSealedMessage (self : Sync T) (peerTo : Peer) (body : Event U T S)
    (topicGraph : List (TopicGraphEntry T)) (now : DateTime) (nonce : Nonce) :
    Except Error MessageWrapped := do
  let sealed ← MessageSealed.create self.keypair.toPubkey peerTo now nonce body topicGraph
  return .sealed sealed

/-- What one pass of the first loop of `tick` pushes. -/
def tickPeer (self : Sync T) (now : DateTime) (nonce : Pubkey → Nonce) (peerInfo : PeerInfo) :
    Except Error (List (Action U T S)) :=
  let lastPingSeconds := numSeconds (now - peerInfo.lastPing)
  if lastPingSeconds < 60 then .ok []
  else if lastPingSeconds > 180 && !peerInfo.active then
    .ok [.sync (.unsetPeer peerInfo.peer.pubkey)]
  else do
    let message ← self.createSealedMessage peerInfo.peer (.ping : Event U T S) [] now
      (nonce peerInfo.peer.pubkey)
    return [.messageSend peerInfo.connectionInfo message]

/-- What one pass of the second loop of `tick` pushes. -/
def tickPending (now : DateTime) (pending : PendingPeer) : List (Action U T S) :=
  let secondsSinceCreate := numSeconds (now - pending.created)
  if secondsSinceCreate < 120 then []
  else [.sync (.unsetPendingPeer pending.connectionInfo)]

/-- `nonce pk` is what `gen_nonce` returns for the ping to `pk`. -/
def tick (self : Sync T) (order : IterOrder PeerInfo) (now : DateTime) (nonce : Pubkey → Nonce) :
    Except Error (List (Action U T S)) := do
  let actions ← (order.arrange (HashMap.values self.peers)).mapM (self.tickPeer now nonce)
  return actions.flatten ++ (self.pendingPeerInit.map (tickPending now)).flatten

def processInitMessage (self : Sync T) (messageWrapped : MessageWrapped)
    (connectionInfo : ConnectionInfo) (now : DateTime) (nonce : Nonce) :
    Except Error (List (Action U T S)) :=
  match messageWrapped with
  | .sealed _ => .error .messageNotInit
  | .init pubkey => do
    let newPeer := Peer.tmp pubkey self.keypair.seckey
    let outgoing ← MessageSealed.create self.keypair.toPubkey newPeer now nonce
      (.hello : Event U T S) []
    return [
      .sync (.setPeer ⟨newPeer, connectionInfo, false, now⟩),
      .messageSend connectionInfo (.sealed outgoing)]

def unwrapIncomingMessage (self : Sync T) (message : MessageSealed) :
    Except Error (Message U T S) := do
  let peerFromMaybe := self.findPeer message.pubkeySender none
  let messageOpened ← match peerFromMaybe with
    | some peerFrom => message.open peerFrom.peer
    | none => message.open (Peer.tmp message.pubkeySender self.keypair.seckey)
  if peerFromMaybe.isNone then
    match messageOpened.body with
    -- these two don't require a known sender
    | .hello | .peerInit _ => return messageOpened
    | _ => .error (.peerNotFound message.pubkeySender)
  else return messageOpened

def peerConfirm (self : Sync T) (peerPubkey : Pubkey) (name : String) (now : DateTime)
    (nonce : Nonce) : Except Error (List (Action U T S)) := do
  let body : Event U T S := .peerConfirm self.name
  let peerInfo ← Attempt.okOr (self.findPeer peerPubkey none) (.peerNotFound peerPubkey)
  let connectionInfo := peerInfo.connectionInfo
  let outgoingWrapped ← self.createSealedMessage peerInfo.peer body [] now nonce
  let peerMod := ((peerInfo.setName name).setActive true).setLastPing now
  return [.sync (.setPeer peerMod), .messageSend connectionInfo outgoingWrapped]

def processEventHello (self : Sync T) (messageOpened : Message U T S) (pubkeySender : Pubkey)
    (connectionInfo : ConnectionInfo) (now : DateTime) (nonce : Nonce) :
    Except Error (List (Action U T S)) :=
  match messageOpened.body with
  | .hello =>
    -- a `Hello` counts only if we initiated it
    if (self.findPendingPeerInit connectionInfo).isNone then .ok []
    else do
      let newPeer := Peer.tmp pubkeySender self.keypair.seckey
      let message ← self.createSealedMessage newPeer (.peerInit self.name : Event U T S) [] now nonce
      return [
        .sync (.setPeer ⟨newPeer, connectionInfo, false, now⟩),
        .sync (.unsetPendingPeer connectionInfo),
        .messageSend connectionInfo message]
  | _ => .error .eventMismatch

def processEventPeerInit (self : Sync T) (messageOpened : Message U T S) (pubkeySender : Pubkey)
    (now : DateTime) (nonce : Nonce) : Except Error (List (Action U T S)) :=
  match messageOpened.body with
  | .peerInit name =>
    match self.peeringConfig.canConfirm pubkeySender with
    | some true => self.peerConfirm pubkeySender name now nonce
    | some false => .ok []
    | none => .ok [.confirm messageOpened.body]
  | _ => .error .eventMismatch

def processEventPeerConfirm (self : Sync T) (messageOpened : Message U T S)
    (pubkeySender : Pubkey) (now : DateTime) : Except Error (List (Action U T S)) :=
  match messageOpened.body with
  | .peerConfirm name => do
    let peerInfo ← Attempt.okOr (self.findPeer pubkeySender none) (.peerNotFound pubkeySender)
    let peerMod := ((peerInfo.setName name).setActive true).setLastPing now
    return [.sync (.setPeer peerMod)]
  | _ => .error .eventMismatch

def processEventPing (self : Sync T) (messageOpened : Message U T S) (pubkeySender : Pubkey)
    (now : DateTime) (nonce : Nonce) : Except Error (List (Action U T S)) :=
  match messageOpened.body with
  | .ping => do
    let peerInfo ← Attempt.okOr (self.findPeer pubkeySender none) (.peerNotFound pubkeySender)
    let message ← self.createSealedMessage peerInfo.peer (.pong : Event U T S) [] now nonce
    return [
      .sync (.setPeer (peerInfo.setLastPing now)),
      .messageSend peerInfo.connectionInfo message]
  | _ => .error .eventMismatch

def processEventPong (self : Sync T) (messageOpened : Message U T S) (pubkeySender : Pubkey)
    (now : DateTime) : Except Error (List (Action U T S)) :=
  match messageOpened.body with
  | .pong => do
    let peerInfo ← Attempt.okOr (self.findPeer pubkeySender none) (.peerNotFound pubkeySender)
    return [.sync (.setPeer (peerInfo.setLastPing now))]
  | _ => .error .eventMismatch

/-- The queried messages that a peer is subscribed to, sealed for it. Both query
handlers end in this pipeline. -/
def answerQuery (self : Sync T) (pubkeySender : Pubkey) (messages : List (Message U T S)) :
    Except Error (List (Action U T S)) := do
  let peerInfo ← Attempt.okOr (self.findPeer pubkeySender none) (.peerNotFound pubkeySender)
  (messages.filter (self.filterMessageByPeer peerInfo.peer)).mapM fun m => do
    let sealed ← MessageSealed.seal self.keypair.toPubkey peerInfo.peer m
    return .messageSend peerInfo.connectionInfo (.sealed sealed)

def processEventQueryMessagesByID (self : Sync T) (messageOpened : Message U T S)
    (pubkeySender : Pubkey) (messages : List (Message U T S)) :
    Except Error (List (Action U T S)) :=
  if messages.length = 0 then .ok []
  else
    match messageOpened.body with
    | .queryMessagesByID _ => self.answerQuery pubkeySender messages
    | _ => .error .eventMismatch

def processEventQueryMessagesByDepth (self : Sync T) (messageOpened : Message U T S)
    (pubkeySender : Pubkey) (messages : List (Message U T S)) :
    Except Error (List (Action U T S)) :=
  if messages.length = 0 then .ok []
  else
    match messageOpened.body with
    | .queryMessagesByDepth _ _ => self.answerQuery pubkeySender messages
    | _ => .error .eventMismatch

/-- The topics that have an entry for `peer`, met in the order `iter` and listed
in the order `keys`. -/
def activeTopics (self : Sync T) (peer : Peer) (iter : IterOrder (Sigma fun _ : T => List PeerInfo))
    (keys : IterOrder T) : List T :=
  let subscriptions : HashMap T Bool := (iter.arrange self.subscriptions.entries).foldl
    (fun subscriptions entry =>
      if (entry.2.find? (·.peer == peer)).isSome then subscriptions.insert entry.1 true
      else subscriptions) ∅
  keys.arrange subscriptions.keys

def processEventQuerySubscriptions (self : Sync T) (messageOpened : Message U T S)
    (pubkeySender : Pubkey) (iter : IterOrder (Sigma fun _ : T => List PeerInfo))
    (keys : IterOrder T) (now : DateTime) (nonce : Nonce) : Except Error (List (Action U T S)) :=
  match messageOpened.body with
  | .querySubscriptions => do
    let peerInfo ← Attempt.okOr (self.findPeer pubkeySender none) (.peerNotFound pubkeySender)
    let topics := self.activeTopics peerInfo.peer iter keys
    let sealed ← self.createSealedMessage peerInfo.peer (.activeSubscriptions topics : Event U T S)
      [] now nonce
    return [.messageSend peerInfo.connectionInfo sealed]
  | _ => .error .eventMismatch

end

def processEventSubscribe [Subscription S T] (self : Sync T) (messageOpened : Message U T S)
    (pubkeySender : Pubkey) : Except Error (List (Action U T S)) :=
  match messageOpened.body with
  | .subscribe subscriptions => do
    let peerInfo ← Attempt.okOr (self.findPeer pubkeySender none) (.peerNotFound pubkeySender)
    return subscriptions.filterMap fun subscription =>
      (Subscription.verify subscription).map fun topic => .sync (.setSubscription topic peerInfo)
  | _ => .error .eventMismatch

def processEventUnsubscribe (self : Sync T) (messageOpened : Message U T S)
    (pubkeySender : Pubkey) : Except Error (List (Action U T S)) :=
  match messageOpened.body with
  | .unsubscribe topics => do
    let peerInfo ← Attempt.okOr (self.findPeer pubkeySender none) (.peerNotFound pubkeySender)
    return topics.map fun topic => .sync (.unsetSubscription topic peerInfo)
  | _ => .error .eventMismatch

def processEventActiveSubscriptions (self : Sync T) (messageOpened : Message U T S)
    (pubkeySender : Pubkey) : Except Error (List (Action U T S)) :=
  match messageOpened.body with
  | .activeSubscriptions _ => do
    let _peerInfo ← Attempt.okOr (self.findPeer pubkeySender none) (.peerNotFound pubkeySender)
    return []
  | _ => .error .eventMismatch

def initComm (self : Sync T) (addr : String) (now : DateTime) :
    Except Error (List (Action U T S)) := do
  let connectionInfo ← ConnectionInfo.new addr
  let messageWrapped := MessageWrapped.init self.keypair.toPubkey
  return [
    .sync (.setPendingPeer ⟨connectionInfo, now⟩),
    .messageSend connectionInfo messageWrapped]

end Sync
end Tp2p
