import Tp2p.Lib.Transition
import Tp2p.Model.Sync

/-! A node: a `Sync` object and the application that drives it. The application
makes a call, applies the returned `Sync` actions and only then makes the next. -/
namespace Tp2p
open Transition
variable [Sodium]

/-- What a handler is given besides the message and its sender. `messages` is
what the application has stored for a query. -/
structure Delivery (U T S : Type) where
  connectionInfo : ConnectionInfo
  now : DateTime
  nonce : Nonce
  messages : List (Message U T S)
  iter : IterOrder (Sigma fun _ : T => List PeerInfo)
  keys : IterOrder T

inductive Call (U T S : Type) where
  | initComm (addr : String) (now : DateTime)
  | peerConfirm (pubkey : Pubkey) (name : String) (now : DateTime) (nonce : Nonce)
  | tick (order : IterOrder PeerInfo) (now : DateTime) (nonce : Pubkey → Nonce)
  | receive (message : MessageWrapped) (delivery : Delivery U T S)

namespace Sync
variable {U T S : Type} [DecidableEq T] [Rmp (Message U T S)] [Subscription S T]

/-- The handler that matches the event; a user event has none. -/
def processEvent (self : Sync T) (messageOpened : Message U T S) (pubkeySender : Pubkey)
    (d : Delivery U T S) : Except Error (List (Action U T S)) :=
  match messageOpened.body with
  | .hello => self.processEventHello messageOpened pubkeySender d.connectionInfo d.now d.nonce
  | .peerInit _ => self.processEventPeerInit messageOpened pubkeySender d.now d.nonce
  | .peerConfirm _ => self.processEventPeerConfirm messageOpened pubkeySender d.now
  | .ping => self.processEventPing messageOpened pubkeySender d.now d.nonce
  | .pong => self.processEventPong messageOpened pubkeySender d.now
  | .queryMessagesByID _ =>
    self.processEventQueryMessagesByID messageOpened pubkeySender d.messages
  | .queryMessagesByDepth _ _ =>
    self.processEventQueryMessagesByDepth messageOpened pubkeySender d.messages
  | .subscribe _ => self.processEventSubscribe messageOpened pubkeySender
  | .unsubscribe _ => self.processEventUnsubscribe messageOpened pubkeySender
  | .querySubscriptions =>
    self.processEventQuerySubscriptions messageOpened pubkeySender d.iter d.keys d.now d.nonce
  | .activeSubscriptions _ => self.processEventActiveSubscriptions messageOpened pubkeySender
  | .user _ => .ok []

/-- An `Init` goes to its own handler, a sealed message through the gate. -/
def receive (self : Sync T) (message : MessageWrapped) (d : Delivery U T S) :
    Except Error (List (Action U T S)) :=
  match message with
  | .init _ => self.processInitMessage message d.connectionInfo d.now d.nonce
  | .sealed sealed => do
    let messageOpened ← self.unwrapIncomingMessage sealed
    self.processEvent messageOpened sealed.pubkeySender d

/-- The event that the gate passes on to its handler, with the sender. -/
def heard (self : Sync T) : Call U T S → Option (Pubkey × Event U T S)
  | .receive (.sealed sealed) _ =>
    match self.unwrapIncomingMessage sealed with
    | .ok messageOpened => some (sealed.pubkeySender, messageOpened.body)
    | .error _ => none
  | _ => none

def exec (self : Sync T) : Call U T S → Except Error (List (Action U T S))
  | .initComm addr now => self.initComm addr now
  | .peerConfirm pubkey name now nonce => self.peerConfirm pubkey name now nonce
  | .tick order now nonce => self.tick order now nonce
  | .receive message d => self.receive message d

/-- The state after a call; a call that fails returns no actions. -/
def next (self : Sync T) (call : Call U T S) : Sync T :=
  match self.exec call with
  | .ok actions => self.applySyncActions (syncActions actions)
  | .error _ => self

theorem next_ok {s : Sync T} {call : Call U T S} {actions : List (Action U T S)}
    (h : s.exec call = .ok actions) : s.next call = s.applySyncActions (syncActions actions) := by
  simp [next, h]

theorem next_error {s : Sync T} {call : Call U T S} {e : Error} (h : s.exec call = .error e) :
    s.next call = s := by
  simp [next, h]

end Sync

/-- A call and the state it was made in. -/
abbrev Step (U T S : Type) [DecidableEq T] := Taken (Sync T) (Call U T S)

/-- The calls made so far, newest first. -/
abbrev History (U T S : Type) [DecidableEq T] := List (Step U T S)

section
variable {U T S : Type} [DecidableEq T] [Rmp (Message U T S)] [Subscription S T]

/-- What the call returned. -/
def Step.result (st : Step U T S) : Except Error (List (Action U T S)) := st.pre.exec st.input

end

/-- The runs of a node that was created with this name, keypair and configuration. -/
abbrev NodeRun {U T S : Type} [DecidableEq T] [Rmp (Message U T S)] [Subscription S T]
    (name : String) (keypair : Keypair) (config : PeeringConfig) :
    History U T S → Sync T → Prop :=
  Run Sync.next (Sync.new name keypair config)

end Tp2p
