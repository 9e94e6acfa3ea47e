import Tp2p.Network.Handshake
import Tp2p.Network.Pair

/-! Two nodes that may peer with each other, over two reliable queues. They carry out
the handshake, so it always ends with both of them peered. -/
namespace Tp2p
open Transition

section
variable [Sodium]

/-- Two nodes that let each other in, and the connections on which they see each other. -/
structure Link extends Pair where
  address : Side → ConnectionInfo
  matching : ∀ p, (keypair p).Matching
  trusts : ∀ p, (config p).canConfirm (toPair.pubkey p.other) = some true

/-- The two nodes and what is on its way to each, oldest first. -/
structure Net (T : Type) [DecidableEq T] where
  node : Side → Sync T
  inbox : Side → List MessageWrapped

namespace Link
variable {U T S : Type} [DecidableEq T]

/-- A node is told to initiate contact with the other, or the oldest message that is on
its way to a node arrives. -/
inductive Move (link : Link) (U T S : Type) where
  | initComm (p : Side) (addr : String) (now : DateTime)
      (reaches : ConnectionInfo.new addr = .ok (link.address p.other))
  | deliver (p : Side) (d : Delivery U T S) (via : d.connectionInfo = link.address p.other)

/-- The move is a call of `init_comm`. -/
def Move.initiates {link : Link} : Move link U T S → Bool
  | .initComm .. => true
  | .deliver .. => false

/-- What a node sends to the other. -/
def sent (link : Link) (p : Side) (actions : List (Action U T S)) : List MessageWrapped :=
  sentOn (link.address p.other) actions

variable [Rmp (Message U T S)] [Subscription S T]

/-- A node makes a call, and all returned actions are carried out. -/
def perform (link : Link) (net : Net T) (p : Side) (call : Call U T S) : Net T :=
  match (net.node p).exec call with
  | .ok actions =>
    { node := Function.update net.node p ((net.node p).applySyncActions (syncActions actions))
      inbox := Function.update net.inbox p.other (net.inbox p.other ++ link.sent p actions) }
  | .error _ => net

def next (link : Link) (net : Net T) : Move link U T S → Net T
  | .initComm p addr now _ => link.perform net p (.initComm addr now : Call U T S)
  | .deliver p d _ =>
    match net.inbox p with
    | [] => net
    | m :: rest =>
      link.perform { net with inbox := Function.update net.inbox p rest } p (.receive m d)

omit [Rmp (Message U T S)] [Subscription S T] in
/-- The call that a move makes, if any. -/
def call (link : Link) (net : Net T) : Move link U T S → Option (Side × Call U T S)
  | .initComm p addr now _ => some (p, .initComm addr now)
  | .deliver p d _ => (net.inbox p).head?.map fun m => (p, .receive m d)

/-- No handler returns an error in this step. -/
def Succeeds (link : Link) (st : Taken (Net T) (Move link U T S)) : Prop :=
  ∀ p call, link.call st.pre st.input = some (p, call) → ∃ actions, (st.pre.node p).exec call = .ok actions

/-- Two new nodes, and nothing on its way. -/
def start (link : Link) (T : Type) [DecidableEq T] : Net T := ⟨link.new T, fun _ => []⟩

end Link

variable {U T S : Type} [DecidableEq T] [Rmp (Message U T S)]

/-- The event behind a token; an `init` is not sealed. -/
def Token.body (name : String) : Token → Option (Event U T S)
  | .init => none
  | .hello => some .hello
  | .peerInit => some (.peerInit name)
  | .peerConfirm => some (.peerConfirm name)

/-- The message `m` from the other node is to node `p` what the token stands for. -/
inductive Carries (link : Link) (U T S : Type) [Rmp (Message U T S)] (p : Side) :
    Token → MessageWrapped → Prop where
  | init : Carries link U T S p .init (.init (link.pubkey p.other))
  | sealed {tok : Token} {w : MessageSealed} {m : Message U T S}
      (sender : w.pubkeySender = link.pubkey p.other)
      (opens : w.open (Peer.tmp (link.pubkey p.other) (link.keypair p).seckey) = .ok m)
      (body : tok.body (link.name p.other) = some m.body) : Carries link U T S p tok (.sealed w)

/-- The record of the other node that goes with a status. -/
def Recorded (link : Link) (p : Side) : Status → Option PeerInfo → Prop
  | .unknown, record => record = none
  | .greeted, record => ∃ info, record = some info ∧
      info.connectionInfo = link.address p.other ∧ info.active = false
  | .confirmed, record => ∃ info, record = some info ∧
      info.connectionInfo = link.address p.other ∧ info.active = true ∧
      info.peer.name = link.name p.other

/-- Node `p` in state `s` is the given party of the handshake. -/
structure NodeRefines (link : Link) (p : Side) (s : Sync T) (party : Party) : Prop where
  self : Sync.SameSelf (link.new T p) s
  keys : s.KeysOk
  record : Recorded link p party.status (s.peers.lookup (link.pubkey p.other))
  pending : s.pendingPeerInit.map (·.connectionInfo) =
    if party.pending then [link.address p.other] else []

/-- The nodes and what is on its way between them carry out the handshake `h`. -/
structure NetRefines (link : Link) (U S : Type) [Rmp (Message U T S)] (net : Net T) (h : Handshake) :
    Prop where
  node : ∀ p, NodeRefines link p (net.node p) (h.party p)
  inbox : ∀ p, List.Forall₂ (Carries link U T S p) (h.inbox p) (net.inbox p)

variable {link : Link} {p : Side} {s : Sync T} {party : Party}

theorem Recorded.known {status : Status} {record : Option PeerInfo} (h : Recorded link p status record)
    (hs : status ≠ .unknown) : ∃ info, record = some info ∧
      info.connectionInfo = link.address p.other := by
  cases status with
  | unknown => exact absurd rfl hs
  | greeted => obtain ⟨info, hr, hc, _⟩ := h; exact ⟨info, hr, hc⟩
  | confirmed => obtain ⟨info, hr, hc, _⟩ := h; exact ⟨info, hr, hc⟩

namespace NodeRefines

theorem start (link : Link) (p : Side) : NodeRefines link p (link.new T p) ⟨.unknown, false⟩ :=
  ⟨.refl _, Sync.new_keysOk .., rfl, rfl⟩

theorem setPeer (hn : NodeRefines link p s party) {info : PeerInfo}
    (hpk : info.peer.pubkey = link.pubkey p.other) (keyed : info.Keyed s.keypair.seckey)
    {status : Status} (record : Recorded link p status (some info)) :
    NodeRefines link p (s.applySyncAction (.setPeer info)) { party with status := status } where
  self := hn.self.trans (Sync.applySyncAction_sameSelf ..)
  keys := hn.keys.applySyncAction fun info' h => by cases h; exact keyed
  record := by
    rw [Sync.lookup_setPeer, if_pos hpk.symm]
    exact record
  pending := hn.pending

theorem registered (hn : NodeRefines link p s party) {c : ConnectionInfo}
    (hc : c = link.address p.other) (now : DateTime) : NodeRefines link p
      (s.applySyncAction (.setPeer (s.tmpInfo (link.pubkey p.other) c now)))
      { party with status := .greeted } :=
  hn.setPeer rfl (Sync.tmpInfo_keyed ..) ⟨_, rfl, hc, rfl⟩

theorem confirmed (hn : NodeRefines link p s party) {info : PeerInfo}
    (known : s.peers.lookup (link.pubkey p.other) = some info)
    (hc : info.connectionInfo = link.address p.other) (now : DateTime) :
    NodeRefines link p
      (s.applySyncAction (.setPeer (info.confirmed (link.name p.other) now)))
      { party with status := .confirmed } := by
  have filed : (info.confirmed (link.name p.other) now).peer.pubkey = link.pubkey p.other :=
    (hn.keys.filed known :)
  exact hn.setPeer filed (hn.keys.peers known).confirmed ⟨_, rfl, hc, rfl, rfl⟩

/-- An initiation is pending exactly when the party waits for an answer. -/
theorem pending_iff (hn : NodeRefines link p s party) :
    (∃ q ∈ s.pendingPeerInit, q.connectionInfo = link.address p.other) ↔ party.pending = true := by
  have hmem : (∃ q ∈ s.pendingPeerInit, q.connectionInfo = link.address p.other) ↔
      link.address p.other ∈ s.pendingPeerInit.map (·.connectionInfo) := by
    rw [List.mem_map]
  rw [hmem, hn.pending]
  split
  · next h => simp [h]
  · next h => simp [h]

theorem unsetPendingPeer (hn : NodeRefines link p s party) :
    NodeRefines link p (s.applySyncAction (.unsetPendingPeer (link.address p.other)))
      { party with pending := false } where
  self := hn.self.trans (Sync.applySyncAction_sameSelf ..)
  keys := hn.keys.applySyncAction fun info' h => by cases h
  record := hn.record
  pending := by
    rw [Sync.pending_unsetPendingPeer, if_neg Bool.false_ne_true, List.map_eq_nil_iff,
      List.filter_eq_nil_iff]
    intro q hq
    have hmem : q.connectionInfo ∈ s.pendingPeerInit.map (·.connectionInfo) := List.mem_map_of_mem hq
    rw [hn.pending] at hmem
    split at hmem
    · simp [List.mem_singleton.mp hmem]
    · cases hmem

theorem setPendingPeer (hn : NodeRefines link p s party) (now : DateTime) :
    NodeRefines link p (s.applySyncAction (.setPendingPeer ⟨link.address p.other, now⟩))
      { party with pending := true } where
  self := hn.self.trans (Sync.applySyncAction_sameSelf ..)
  keys := hn.keys.applySyncAction fun info' h => by cases h
  record := by
    rw [Sync.peers_setPendingPeer]
    exact hn.record
  pending := by
    have hiff := Sync.findPendingPeerInit_isSome.trans hn.pending_iff
    have hpend := hn.pending
    rw [Sync.pending_setPendingPeer, if_pos rfl]
    cases hp : party.pending with
    | true =>
      have hsome := hiff.mpr hp
      rw [hp, if_pos rfl] at hpend
      rw [if_neg (by simpa [Option.isNone_iff_eq_none] using Option.isSome_iff_ne_none.mp hsome)]
      exact hpend
    | false =>
      have hnone : (s.findPendingPeerInit (link.address p.other)).isNone := by
        rw [← Option.not_isSome]
        simpa [hp] using hiff
      rw [hp, if_neg Bool.false_ne_true, List.map_eq_nil_iff] at hpend
      rw [if_pos hnone, hpend]
      rfl

/-- Whatever a node seals for the other stands at the other for the token it was sealed as. -/
theorem carries (laws : BoxLaws) (codec : Rmp.RoundTrip (Message U T S))
    (hn : NodeRefines link p s party) {info : PeerInfo} (hpk : info.peer.pubkey = link.pubkey p.other)
    (keyed : info.Keyed s.keypair.seckey) {m : Message U T S} {w : MessageSealed}
    (hseal : MessageSealed.seal s.keypair.toPubkey info.peer m = .ok w) {tok : Token}
    (body : tok.body (link.name p) = some m.body) : Carries link U T S p.other tok (.sealed w) := by
  have hself : s.keypair = link.keypair p := hn.self.keypair
  obtain ⟨b, hb, hw⟩ := MessageSealed.seal_eq_ok.mp hseal
  refine .sealed (m := m) ?_ (MessageSealed.open_of_seal laws codec hseal ?_) ?_
  · rw [hw, Side.other_other, hself]
    rfl
  · rw [keyed, hself, hpk, Side.other_other]
    exact (link.matching p).shared_key laws (link.matching p.other)
  · rw [Side.other_other]
    exact body

/-- What the gate makes of a sealed message from the other node. -/
theorem opened (hn : NodeRefines link p s party) {w : MessageSealed} {m : Message U T S}
    (sender : w.pubkeySender = link.pubkey p.other)
    (opens : w.open (Peer.tmp (link.pubkey p.other) (link.keypair p).seckey) = .ok m)
    (gate : m.body.isGreeting = true ∨ party.status ≠ .unknown) :
    s.unwrapIncomingMessage w = .ok m := by
  have hself : s.keypair = link.keypair p := hn.self.keypair
  rw [hn.keys.unwrap_ok, sender, hself]
  refine ⟨opens, gate.imp_right fun hs => ?_⟩
  obtain ⟨info, known, _⟩ := hn.record.known hs
  rw [known]
  rfl

variable [Subscription S T]

/-- The node takes the message, becomes the given party and says the given things. -/
def Takes (link : Link) (p : Side) (s : Sync T) (m : MessageWrapped) (d : Delivery U T S)
    (party : Party) (out : List Token) : Prop :=
  ∃ actions, s.exec (.receive m d) = .ok actions ∧
    NodeRefines link p (s.applySyncActions (syncActions actions)) party ∧
    List.Forall₂ (Carries link U T S p.other) out (link.sent p actions)

theorem takes_init (laws : BoxLaws) (codec : Rmp.RoundTrip (Message U T S))
    (total : ∀ m : Message U T S, m.Serializable) (hn : NodeRefines link p s party)
    {d : Delivery U T S} (via : d.connectionInfo = link.address p.other) :
    Takes link p s (.init (link.pubkey p.other)) d { party with status := .greeted } [.hello] := by
  obtain ⟨w, hseal, hexec⟩ := s.exec_init (link.pubkey p.other) d (total _)
  refine ⟨_, hexec, hn.registered via d.now, ?_⟩
  rw [show link.sent p _ = [.sealed w] by simp [Link.sent, sentOn, via]]
  exact .cons (hn.carries laws codec rfl (Sync.tmpInfo_keyed ..) hseal rfl) .nil

theorem takes_hello (laws : BoxLaws) (codec : Rmp.RoundTrip (Message U T S))
    (total : ∀ m : Message U T S, m.Serializable) (hn : NodeRefines link p s party)
    {d : Delivery U T S} (via : d.connectionInfo = link.address p.other) {w : MessageSealed}
    {m : Message U T S}
    (hexec : s.exec (.receive (.sealed w) d) = s.processEvent m (link.pubkey p.other) d)
    (body : m.body = .hello) {party' : Party} {out : List Token}
    (hr : party.react .hello = some (party', out)) : Takes link p s (.sealed w) d party' out := by
  rcases Party.react_hello hr with ⟨waiting, rfl, rfl⟩ | ⟨idle, rfl, rfl⟩
  · have pending := hn.pending_iff.mpr waiting
    rw [← via] at pending
    obtain ⟨w', hseal, hp⟩ := Sync.processEvent_hello body pending (total _)
    refine ⟨_, hexec.trans hp, ?_, ?_⟩
    · have h := (hn.registered via d.now).unsetPendingPeer
      rw [← via] at h
      exact h
    · rw [show link.sent p _ = [.sealed w'] by simp [Link.sent, sentOn, via]]
      refine .cons (hn.carries laws codec rfl (Sync.tmpInfo_keyed ..) hseal ?_) .nil
      rw [show link.name p = s.name from hn.self.name.symm]
      rfl
  · have pending : ∀ q ∈ s.pendingPeerInit, q.connectionInfo ≠ d.connectionInfo := by
      intro q hq hc
      cases idle.symm.trans (hn.pending_iff.mp ⟨q, hq, hc.trans via⟩)
    exact ⟨_, hexec.trans (Sync.processEvent_rogueHello body pending), hn, .nil⟩

theorem takes_peerInit (laws : BoxLaws) (codec : Rmp.RoundTrip (Message U T S))
    (total : ∀ m : Message U T S, m.Serializable) (hn : NodeRefines link p s party)
    {d : Delivery U T S} {w : MessageSealed} {m : Message U T S}
    (hexec : s.exec (.receive (.sealed w) d) = s.processEvent m (link.pubkey p.other) d)
    (body : m.body = .peerInit (link.name p.other)) (hs : party.status ≠ .unknown) :
    Takes link p s (.sealed w) d { party with status := .confirmed } [.peerConfirm] := by
  obtain ⟨info, known, hc⟩ := hn.record.known hs
  have allowed : s.peeringConfig.canConfirm (link.pubkey p.other) = some true := by
    rw [hn.self.peeringConfig]
    exact link.trusts p
  obtain ⟨w', hseal, hp⟩ := Sync.processEvent_peerInit (d := d) body allowed known (total _)
  refine ⟨_, hexec.trans hp, hn.confirmed known hc d.now, ?_⟩
  rw [show link.sent p _ = [.sealed w'] by simp [Link.sent, sentOn, hc]]
  refine .cons (hn.carries laws codec (hn.keys.filed known) (hn.keys.peers known) hseal ?_) .nil
  rw [show link.name p = s.name from hn.self.name.symm]
  rfl

theorem takes_peerConfirm (hn : NodeRefines link p s party) {d : Delivery U T S}
    {w : MessageSealed} {m : Message U T S}
    (hexec : s.exec (.receive (.sealed w) d) = s.processEvent m (link.pubkey p.other) d)
    (body : m.body = .peerConfirm (link.name p.other)) (hs : party.status ≠ .unknown) :
    Takes link p s (.sealed w) d { party with status := .confirmed } [] := by
  obtain ⟨info, known, hc⟩ := hn.record.known hs
  exact ⟨_, hexec.trans (Sync.processEvent_peerConfirm body known), hn.confirmed known hc d.now, .nil⟩

/-- A node takes every message as the party does that it stands for. -/
theorem receive (laws : BoxLaws) (codec : Rmp.RoundTrip (Message U T S))
    (total : ∀ m : Message U T S, m.Serializable) (hn : NodeRefines link p s party) {tok : Token}
    {m : MessageWrapped} {d : Delivery U T S} (hm : Carries link U T S p tok m)
    (via : d.connectionInfo = link.address p.other) {party' : Party} {out : List Token}
    (hr : party.react tok = some (party', out)) : Takes link p s m d party' out := by
  cases hm with
  | init =>
    obtain ⟨rfl, rfl⟩ := Party.react_init hr
    exact hn.takes_init laws codec total via
  | @sealed _ w m sender opens body =>
    have passed : m.body.isGreeting = true ∨ party.status ≠ .unknown →
        s.exec (.receive (.sealed w) d) = s.processEvent m (link.pubkey p.other) d := fun gate => by
      rw [Sync.exec_sealed d (hn.opened sender opens gate), sender]
    cases tok with
    | init => cases body
    | hello =>
      have hb : m.body = .hello := (Option.some.inj body).symm
      exact hn.takes_hello laws codec total via (passed (.inl (by rw [hb]; rfl))) hb hr
    | peerInit =>
      have hb : m.body = .peerInit (link.name p.other) := (Option.some.inj body).symm
      have hs := Party.react_needs hr (.inl rfl)
      obtain ⟨rfl, rfl⟩ := Party.react_peerInit hr
      exact hn.takes_peerInit laws codec total (passed (.inr hs)) hb hs
    | peerConfirm =>
      have hb : m.body = .peerConfirm (link.name p.other) := (Option.some.inj body).symm
      have hs := Party.react_needs hr (.inr rfl)
      obtain ⟨rfl, rfl⟩ := Party.react_peerConfirm hr
      exact hn.takes_peerConfirm (passed (.inr hs)) hb hs

end NodeRefines

variable {net : Net T} {h : Handshake}

namespace NetRefines

theorem start (link : Link) (U S : Type) [Rmp (Message U T S)] :
    NetRefines link U S (link.start T) .start :=
  ⟨NodeRefines.start link, fun _ => .nil⟩

/-- A node moves, with part of its inbox read and something said to the other. -/
theorem move (hn : NetRefines link U S net h) {s' : Sync T} (hs : NodeRefines link p s' party)
    {rest out : List Token} {unread said : List MessageWrapped}
    (hrest : List.Forall₂ (Carries link U T S p) rest unread)
    (hout : List.Forall₂ (Carries link U T S p.other) out said) :
    NetRefines link U S
      { node := Function.update net.node p s'
        inbox := Function.update (Function.update net.inbox p unread) p.other
          (net.inbox p.other ++ said) }
      (h.move p party rest out) := by
  have hne : p ≠ p.other := (Side.other_ne p).symm
  refine ⟨Side.forall_of p ?_ ?_, Side.forall_of p ?_ ?_⟩
  · simpa using hs
  · simpa [Function.update_of_ne hne.symm] using hn.node p.other
  · simpa [Function.update_of_ne hne] using hrest
  · simpa using List.rel_append (hn.inbox p.other) hout

variable [Subscription S T]

theorem initComm (hn : NetRefines link U S net h) {addr : String} (now : DateTime)
    (reaches : ConnectionInfo.new addr = .ok (link.address p.other)) :
    (∃ actions : List (Action U T S), (net.node p).exec (.initComm addr now) = .ok actions) ∧
      NetRefines link U S (link.next net (.initComm p addr now reaches : Link.Move link U T S))
        (h.initiate p) := by
  have hexec := Sync.exec_initComm (U := U) (S := S) (s := net.node p) now reaches
  refine ⟨⟨_, hexec⟩, ?_⟩
  have hself : (net.node p).keypair.toPubkey = link.pubkey p.other.other := by
    rw [(hn.node p).self.keypair, Side.other_other]
    rfl
  have said : List.Forall₂ (Carries link U T S p.other) [.init]
      [.init (net.node p).keypair.toPubkey] := by
    rw [hself]
    exact .cons .init .nil
  have hmove := hn.move ((hn.node p).setPendingPeer now) (hn.inbox p) said
  rw [Function.update_eq_self] at hmove
  simp only [Link.next, Link.perform, hexec]
  simpa [Link.sent, Handshake.initiate] using hmove

theorem deliver (laws : BoxLaws) (codec : Rmp.RoundTrip (Message U T S))
    (total : ∀ m : Message U T S, m.Serializable) (hn : NetRefines link U S net h) {tok : Token}
    {rest out : List Token} {party : Party} (hq : h.inbox p = tok :: rest)
    (hr : (h.party p).react tok = some (party, out)) {d : Delivery U T S}
    (via : d.connectionInfo = link.address p.other) :
    ∃ m unread, net.inbox p = m :: unread ∧
      (∃ actions, (net.node p).exec (.receive m d) = .ok actions) ∧
      NetRefines link U S (link.next net (.deliver p d via)) (h.move p party rest out) := by
  have hin := hn.inbox p
  rw [hq, List.forall₂_cons_left_iff] at hin
  obtain ⟨m, unread, hm, hunread, hinbox⟩ := hin
  obtain ⟨actions, hexec, hs, hsaid⟩ := (hn.node p).receive laws codec total hm via hr
  refine ⟨m, unread, hinbox, ⟨actions, hexec⟩, ?_⟩
  have hmove := hn.move hs hunread hsaid
  simpa only [Link.next, Link.perform, hinbox, hexec, Function.update_of_ne (Side.other_ne p)]
    using hmove

end NetRefines

/-- What every run of the two nodes keeps up. -/
structure Handshaking (link : Link) (U S : Type) [Rmp (Message U T S)] [Subscription S T]
    (past : List (Taken (Net T) (Link.Move link U T S))) (net : Net T) : Prop where
  refines : ∃ h, NetRefines link U S net h ∧ h.Sound ∧
    ((∃ st ∈ past, st.input.initiates = true) → h.Converging)
  succeeded : ∀ st ∈ past, link.Succeeds st

variable [Subscription S T]

theorem Handshaking.next (laws : BoxLaws) (codec : Rmp.RoundTrip (Message U T S))
    (total : ∀ m : Message U T S, m.Serializable)
    {past : List (Taken (Net T) (Link.Move link U T S))} (hh : Handshaking link U S past net)
    (move : Link.Move link U T S) :
    Handshaking link U S (⟨net, move⟩ :: past) (link.next net move) := by
  obtain ⟨⟨h, hn, sound, converging⟩, succeeded⟩ := hh
  have now : ∀ st ∈ (⟨net, move⟩ :: past : List (Taken (Net T) (Link.Move link U T S))),
      link.Succeeds ⟨net, move⟩ → link.Succeeds st := fun st hst hs => by
    rcases List.mem_cons.mp hst with rfl | hst
    · exact hs
    · exact succeeded st hst
  cases move with
  | initComm p addr now' reaches =>
    obtain ⟨hexec, hn'⟩ := hn.initComm now' reaches
    refine ⟨⟨_, hn', sound.initiate p, fun _ => Handshake.initiate_converging p⟩,
      fun st hst => now st hst ?_⟩
    intro q call hcall
    cases hcall
    exact hexec
  | deliver p d via =>
    cases hq : h.inbox p with
    | nil =>
      -- nothing is on its way: no call is made
      have hinbox : net.inbox p = [] := by
        have hin := hn.inbox p
        rwa [hq, List.forall₂_nil_left_iff] at hin
      have hnext : link.next net (.deliver p d via) = net := by
        simp only [Link.next, hinbox]
      rw [hnext]
      refine ⟨⟨h, hn, sound, fun ⟨st, hst, hi⟩ => converging ⟨st, ?_, hi⟩⟩, fun st hst => now st hst ?_⟩
      · rcases List.mem_cons.mp hst with rfl | hst
        · cases hi
        · exact hst
      · intro q call hcall
        simp [Link.call, hinbox] at hcall
    | cons tok rest =>
      obtain ⟨party, out, hr⟩ := sound.reacts hq
      obtain ⟨m, unread, hinbox, hexec, hn'⟩ := hn.deliver laws codec total hq hr via
      refine ⟨⟨_, hn', sound.deliver hq hr, fun ⟨st, hst, hi⟩ => ?_⟩, fun st hst => now st hst ?_⟩
      · refine Handshake.Converging.deliver (converging ⟨st, ?_, hi⟩) hq hr
        rcases List.mem_cons.mp hst with rfl | hst
        · cases hi
        · exact hst
      · intro q call hcall
        simp only [Link.call, hinbox, List.head?_cons, Option.map_some, Option.some.injEq,
          Prod.mk.injEq] at hcall
        obtain ⟨rfl, rfl⟩ := hcall
        exact hexec

theorem Handshaking.of_run (laws : BoxLaws) (codec : Rmp.RoundTrip (Message U T S))
    (total : ∀ m : Message U T S, m.Serializable)
    {past : List (Taken (Net T) (Link.Move link U T S))}
    (run : Run link.next (link.start T) past net) : Handshaking link U S past net := by
  refine run.history ?_ fun _ hh move => hh.next laws codec total move
  refine ⟨⟨.start, .start link U S, Handshake.sound_start, ?_⟩, fun st hst => by cases hst⟩
  rintro ⟨st, hst, _⟩
  cases hst

omit [Subscription S T] in
/-- What a node hears of a message is the event that the message stands for. -/
theorem NodeRefines.heard (hn : NodeRefines link p s party) {tok : Token} {m : MessageWrapped}
    (hm : Carries link U T S p tok m) {d : Delivery U T S} {pk : Pubkey} {e : Event U T S}
    (heard : s.heard (.receive m d) = some (pk, e)) :
    pk = link.pubkey p.other ∧ tok.body (link.name p.other) = some e := by
  obtain ⟨w, _, m', hcall, opened, hpk, hbody⟩ := Sync.heard_eq_some.mp heard
  cases hm with
  | init => cases hcall
  | sealed sender opens body =>
    cases hcall
    have opens' := (hn.keys.unwrap_ok.mp opened).1
    rw [sender, show s.keypair = link.keypair p from hn.self.keypair] at opens'
    cases opens.symm.trans opens'
    exact ⟨hpk.symm.trans sender, body.trans (congrArg some hbody)⟩

/-- Two nodes that have come to rest after an `init_comm` are peered. -/
theorem Handshaking.peered {past : List (Taken (Net T) (Link.Move link U T S))}
    (handshaking : Handshaking link U S past net)
    (initiated : ∃ st ∈ past, st.input.initiates = true) (quiet : ∀ p, net.inbox p = []) (p : Side) :
    (∃ info, (net.node p).peers.lookup (link.pubkey p.other) = some info ∧
      info.active = true ∧ info.peer.name = link.name p.other) ∧
    (net.node p).pendingPeerInit = [] := by
  obtain ⟨⟨h, hn, sound, converging⟩, _⟩ := handshaking
  have hquiet : ∀ q, h.inbox q = [] := fun q => by
    have hin := hn.inbox q
    rwa [quiet, List.forall₂_nil_right_iff] at hin
  obtain ⟨hstatus, hpending⟩ := Handshake.confirmed_of_quiet sound (converging initiated) hquiet p
  have record := (hn.node p).record
  have pending := (hn.node p).pending
  rw [hstatus] at record
  rw [hpending, if_neg Bool.false_ne_true, List.map_eq_nil_iff] at pending
  obtain ⟨info, known, _, active, name⟩ := record
  exact ⟨⟨info, known, active, name⟩, pending⟩

/-- No handler ever returns an error, and whenever nothing is on its way after at least one
`init_comm`, each node has the other as an active peer under its own name and is waiting
for nobody. -/
theorem peering_converges (laws : BoxLaws) (codec : Rmp.RoundTrip (Message U T S))
    (total : ∀ m : Message U T S, m.Serializable)
    {past : List (Taken (Net T) (Link.Move link U T S))}
    (run : Run link.next (link.start T) past net) :
    (∀ st ∈ past, link.Succeeds st) ∧
      ((∃ st ∈ past, st.input.initiates = true) → (∀ p, net.inbox p = []) → ∀ p,
        (∃ info, (net.node p).peers.lookup (link.pubkey p.other) = some info ∧
          info.active = true ∧ info.peer.name = link.name p.other) ∧
        (net.node p).pendingPeerInit = []) := by
  have handshaking := Handshaking.of_run laws codec total run
  exact ⟨handshaking.succeeded, handshaking.peered⟩

end

namespace Sandbox

def aliceToBob : Link where
  toPair := aliceAndBob
  address
    | .left => connection 1
    | .right => connection 2
  matching p := by cases p <;> rfl
  trusts p := by cases p <;> rfl

/-- Alice initiates, and every message of the handshake arrives. -/
def introduction : List (Link.Move aliceToBob Bool Unit Unit) :=
  [.deliver .left (delivered 2 0 4 []) rfl, .deliver .right (delivered 1 0 3 []) rfl,
    .deliver .left (delivered 2 0 2 []) rfl, .deliver .right (delivered 1 0 1 []) rfl,
    .initComm .left address 0 (by decide)]

/-- Alice has Bob as an active peer. -/
theorem introduction_peers : ∃ info,
    ((reach aliceToBob.next (aliceToBob.start Unit) introduction).node .left).peers.lookup
        bob.toPubkey = some info ∧ info.active = true ∧ info.peer.name = "b" := by
  have h := (peering_converges idealBox.toBoxLaws roundTrip serializable
    (Run.of_inputs introduction)).2 ⟨_, .tail _ (.tail _ (.tail _ (.tail _ (.head _)))), rfl⟩ ?_ .left
  · exact h.1
  · intro p
    cases p <;> rfl

end Sandbox
end Tp2p
