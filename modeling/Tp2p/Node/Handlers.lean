import Tp2p.Node.Conflicts
import Tp2p.Node.Maintenance

/-! The calls that read a node and hand back changes to it, and the plan of each: what it
does to the tables that it is later applied to is what it decided on those it met. -/
namespace Tp2p
variable [Sodium]

/-- The handlers of the events. -/
inductive EventHandler where
  | hello | peerInit | peerConfirm | ping | pong | queryMessagesByID | queryMessagesByDepth
  | subscribe | unsubscribe | querySubscriptions | activeSubscriptions
  deriving DecidableEq

/-- The handler of an event. -/
def Event.handler {U T S : Type} : Event U T S → Option EventHandler
  | .hello => some .hello
  | .peerInit _ => some .peerInit
  | .peerConfirm _ => some .peerConfirm
  | .ping => some .ping
  | .pong => some .pong
  | .queryMessagesByID _ => some .queryMessagesByID
  | .queryMessagesByDepth _ _ => some .queryMessagesByDepth
  | .subscribe _ => some .subscribe
  | .unsubscribe _ => some .unsubscribe
  | .querySubscriptions => some .querySubscriptions
  | .activeSubscriptions _ => some .activeSubscriptions
  | .user _ => none

/-- A call that only reads the node. -/
inductive Handler (U T S : Type) where
  | tick (order : IterOrder PeerInfo) (now : DateTime) (nonce : Pubkey → Nonce)
  | peerConfirm (peerPubkey : Pubkey) (name : String) (now : DateTime) (nonce : Nonce)
  | processInitMessage (messageWrapped : MessageWrapped) (connectionInfo : ConnectionInfo)
      (now : DateTime) (nonce : Nonce)
  | processEvent (handler : EventHandler) (messageOpened : Message U T S) (pubkeySender : Pubkey)
      (delivery : Delivery U T S)

instance {U T S : Type} [Rmp (Message U T S)] (m : Message U T S) : Decidable m.Serializable :=
  match h : serialize m with
  | .ok b => .isTrue ⟨b, h⟩
  | .error _ => .isFalse fun ⟨_, h'⟩ => nomatch h.symm.trans h'

/-- A plan that is given up if the message that goes with it has no encoding. -/
def Plan.sending {U T S : Type} [Rmp (Message U T S)] (m : Message U T S) (plan : Plan T) : Plan T :=
  if m.Serializable then plan else .idle

section
variable {U T S : Type} [DecidableEq T] [Rmp (Message U T S)] [Subscription S T]

/-- Any handler may be given any event. -/
def EventHandler.run (self : Sync T) (messageOpened : Message U T S) (pubkeySender : Pubkey)
    (d : Delivery U T S) : EventHandler → Except Error (List (Action U T S))
  | .hello => self.processEventHello messageOpened pubkeySender d.connectionInfo d.now d.nonce
  | .peerInit => self.processEventPeerInit messageOpened pubkeySender d.now d.nonce
  | .peerConfirm => self.processEventPeerConfirm messageOpened pubkeySender d.now
  | .ping => self.processEventPing messageOpened pubkeySender d.now d.nonce
  | .pong => self.processEventPong messageOpened pubkeySender d.now
  | .queryMessagesByID => self.processEventQueryMessagesByID messageOpened pubkeySender d.messages
  | .queryMessagesByDepth =>
    self.processEventQueryMessagesByDepth messageOpened pubkeySender d.messages
  | .subscribe => self.processEventSubscribe messageOpened pubkeySender
  | .unsubscribe => self.processEventUnsubscribe messageOpened pubkeySender
  | .querySubscriptions =>
    self.processEventQuerySubscriptions messageOpened pubkeySender d.iter d.keys d.now d.nonce
  | .activeSubscriptions => self.processEventActiveSubscriptions messageOpened pubkeySender

namespace Sync

/-- What an event from `pk` sets out to do. -/
def eventPlan (s : Sync T) (pk : Pubkey) (d : Delivery U T S) : Event U T S → Plan T
  | .hello => .sending (Message.new ⟨d.now, d.nonce⟩ (.peerInit s.name) [] : Message U T S)
      (.greet (s.tmpInfo pk d.connectionInfo d.now))
  | .peerInit name =>
    if s.peeringConfig.canConfirm pk = some true then
      .sending (Message.new ⟨d.now, d.nonce⟩ (.peerConfirm s.name) [] : Message U T S)
        (.amend pk (.confirm name d.now))
    else .idle
  | .peerConfirm name => .amend pk (.confirm name d.now)
  | .ping => .sending (Message.new ⟨d.now, d.nonce⟩ .pong [] : Message U T S)
      (.amend pk (.refresh d.now))
  | .pong => .amend pk (.refresh d.now)
  | .subscribe subscriptions => .subscriptions pk (verified subscriptions) addSubscriber
  | .unsubscribe topics =>
    .subscriptions pk topics fun entries info => dropSubscriber entries info.peer
  | _ => .idle

end Sync

namespace Handler

def run (self : Sync T) : Handler U T S → Except Error (List (Action U T S))
  | .tick order now nonce => self.tick order now nonce
  | .peerConfirm peerPubkey name now nonce => self.peerConfirm peerPubkey name now nonce
  | .processInitMessage messageWrapped connectionInfo now nonce =>
    self.processInitMessage messageWrapped connectionInfo now nonce
  | .processEvent handler messageOpened pubkeySender d =>
    handler.run self messageOpened pubkeySender d

/-- The changes it hands back; none if it fails. -/
def changes (h : Handler U T S) (s : Sync T) : List (SyncAction T) :=
  match h.run s with
  | .ok actions => syncActions actions
  | .error _ => []

def plan (s : Sync T) : Handler U T S → Plan T
  | .tick _ now _ => .prune now
  | .peerConfirm pk name now nonce =>
    .sending (Message.new ⟨now, nonce⟩ (.peerConfirm s.name) [] : Message U T S)
      (.amend pk (.confirm name now))
  | .processInitMessage (.init pk) c now nonce =>
    .sending (Message.new ⟨now, nonce⟩ .hello [] : Message U T S) (.register (s.tmpInfo pk c now))
  | .processInitMessage (.sealed _) _ _ _ => .idle
  | .processEvent handler m pk d =>
    if m.body.handler = some handler then s.eventPlan pk d m.body else .idle

theorem changes_ok {h : Handler U T S} {s : Sync T} {actions : List (Action U T S)}
    (he : h.run s = .ok actions) : h.changes s = syncActions actions := by
  simp only [changes, he]

theorem changes_error {h : Handler U T S} {s : Sync T} {e : Error} (he : h.run s = .error e) :
    h.changes s = [] := by
  simp only [changes, he]

end Handler

theorem EventHandler.run_handled {s : Sync T} {handler : EventHandler} {m : Message U T S}
    {pk : Pubkey} {d : Delivery U T S} (handled : m.body.handler = some handler) :
    handler.run s m pk d = s.processEvent m pk d := by
  simp only [Sync.processEvent]
  cases hb : m.body <;> rw [hb] at handled <;> cases handled <;> rfl

/-- A handler that is given another event hands nothing back. -/
theorem EventHandler.run_unhandled {s : Sync T} {handler : EventHandler} {m : Message U T S}
    {pk : Pubkey} {d : Delivery U T S} (h : m.body.handler ≠ some handler)
    {actions : List (Action U T S)} (he : handler.run s m pk d = .ok actions) : actions = [] := by
  cases handler with
  | queryMessagesByID | queryMessagesByDepth =>
    simp only [run, Sync.processEventQueryMessagesByID, Sync.processEventQueryMessagesByDepth] at he
    split at he
    · cases he
      rfl
    · split at he
      · next hb => exact absurd (congrArg Event.handler hb) h
      · cases he
  | _ =>
    simp only [run, Sync.processEventHello, Sync.processEventPeerInit,
      Sync.processEventPeerConfirm, Sync.processEventPing, Sync.processEventPong,
      Sync.processEventSubscribe, Sync.processEventUnsubscribe,
      Sync.processEventQuerySubscriptions, Sync.processEventActiveSubscriptions] at he
    split at he
    · next hb => exact absurd (congrArg Event.handler hb) h
    · cases he

end
end Tp2p
