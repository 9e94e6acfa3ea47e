import Tp2p.Lib.Attempt
import Tp2p.Model.Peer

/-! Events, the messages that carry them, and their sealed form on the wire. -/
namespace Tp2p
variable [Sodium] {U T S : Type}

structure MessageID where
  timestamp : DateTime
  nonce : Nonce
  deriving DecidableEq

inductive Event (U T S : Type) where
  | hello
  | peerInit (name : String)
  | peerConfirm (name : String)
  | ping
  | pong
  | queryMessagesByID (ids : List MessageID)
  | queryMessagesByDepth (topic : T) (depth : UInt64)
  | subscribe (subscriptions : List S)
  | unsubscribe (topics : List T)
  | querySubscriptions
  | activeSubscriptions (topics : List T)
  | user (data : U)
  deriving DecidableEq

structure TopicGraphEntry (T : Type) where
  topic : T
  parents : List MessageID
  depth : UInt64
  deriving DecidableEq

structure Message (U T S : Type) where
  id : MessageID
  topicGraph : List (TopicGraphEntry T)
  body : Event U T S
  deriving DecidableEq

def Message.new (id : MessageID) (body : Event U T S) (topicGraph : List (TopicGraphEntry T)) :
    Message U T S :=
  ⟨id, topicGraph, body⟩

/-- The `Subscription` trait: the topic a valid subscription is for. -/
class Subscription (S T : Type) where
  verify : S → Option T

/-- `nonce` and `pubkeySender` travel in the clear. -/
structure MessageSealed where
  nonce : Nonce
  pubkeySender : Pubkey
  sealedBody : Bytes
  deriving DecidableEq

section
variable [Rmp (Message U T S)]

/-- `ser::serialize`. -/
def serialize (message : Message U T S) : Except Error Bytes :=
  match Rmp.serialize message with
  | .ok b => .ok b
  | .error cause => .error (.serialize cause)

/-- `ser::deserialize`. -/
def deserialize (bytes : Bytes) : Except Error (Message U T S) :=
  match Rmp.deserialize bytes with
  | .ok message => .ok message
  | .error cause => .error (.deserialize cause)

namespace MessageSealed

def «seal» (pubkeySender : Pubkey) (peerTo : Peer) (message : Message U T S) :
    Except Error MessageSealed := do
  let serializedBody ← serialize message
  let sealed := sealPrecomputed serializedBody message.id.nonce peerTo.precomputed
  return ⟨message.id.nonce, pubkeySender, sealed⟩

def create (pubkeySender : Pubkey) (peerTo : Peer) (now : DateTime) (nonce : Nonce)
    (body : Event U T S) (topicGraph : List (TopicGraphEntry T)) : Except Error MessageSealed :=
  MessageSealed.seal pubkeySender peerTo (Message.new ⟨now, nonce⟩ body topicGraph)

def «open» (self : MessageSealed) (peerFrom : Peer) : Except Error (Message U T S) := do
  let openBytes ← Attempt.okOr
    (openPrecomputed self.sealedBody self.nonce peerFrom.precomputed) .messageOpenFailed
  deserialize openBytes

end MessageSealed
end

inductive MessageWrapped where
  | sealed (message : MessageSealed)
  | init (pubkey : Pubkey)
  deriving DecidableEq

end Tp2p
