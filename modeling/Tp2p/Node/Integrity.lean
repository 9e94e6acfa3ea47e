import Tp2p.Model.Sandbox
import Tp2p.Node.Records

/-! Who can change the record of a known peer: what the messages of others do to
it, and what the peer's own messages do to it. -/
namespace Tp2p
open Transition

section
variable [Sodium]

/-- The name that an event carries. -/
def Event.carriedName {U T S : Type} : Event U T S → Option String
  | .peerInit name | .peerConfirm name => some name
  | _ => none

namespace Sync
variable {U T S : Type} [DecidableEq T] [Rmp (Message U T S)]

/-- The message is sealed, claims to be from `pk` and opens under the key shared with `pk`. -/
def OpenedFrom (s : Sync T) (U S : Type) [Rmp (Message U T S)] (pk : Pubkey) :
    MessageWrapped → Prop
  | .sealed w => w.pubkeySender = pk ∧
      ∃ m : Message U T S, w.open (Peer.tmp pk s.keypair.seckey) = .ok m
  | .init _ => False

/-- The record of `pk`, and the topics it is subscribed to, are as they were. -/
def SameStanding (s s' : Sync T) (pk : Pubkey) : Prop :=
  ∃ info info', s.peers.lookup pk = some info ∧ s'.peers.lookup pk = some info' ∧
    info'.peer.name = info.peer.name ∧ info'.connectionInfo = info.connectionInfo ∧
    info'.active = info.active ∧ info'.lastPing = info.lastPing ∧
    ∀ t, s'.isPeerSubscribedToTopic t info'.peer = s.isPeerSubscribedToTopic t info.peer

/-- The peer is known and confirmed, under its old name or the one the event carries. -/
def StillConfirmed (s s' : Sync T) (pk : Pubkey) (e : Event U T S) : Prop :=
  ∃ info info', s.peers.lookup pk = some info ∧ s'.peers.lookup pk = some info' ∧
    info'.active = true ∧
    (info'.peer.name = info.peer.name ∨ e.carriedName = some info'.peer.name)

variable [Subscription S T]

/-- What somebody else says about their subscriptions says nothing about `pk`. -/
theorem subscribed_next_of_other {s : Sync T} (hs : KeysOk s) {call : Call U T S} {pk : Pubkey}
    (other : ∀ e, s.heard call ≠ some (pk, e)) {peer : Peer} (hp : peer.pubkey = pk) (t : T) :
    (s.next call).isPeerSubscribedToTopic t peer = s.isPeerSubscribedToTopic t peer := by
  have apart : ∀ {pk' e info}, s.heard call = some (pk', e) → s.peers.lookup pk' = some info →
      info.peer ≠ peer := by
    rintro pk' e info h known rfl
    exact other e (((hs.filed known).symm.trans hp) ▸ h)
  rw [Bool.eq_iff_iff, isPeerSubscribedToTopic_iff, isPeerSubscribedToTopic_iff]
  rcases quiet_cases s call with ⟨pk', subscriptions, h⟩ | ⟨pk', topics, h⟩ | quiet
  · obtain ⟨info, known, _, hn⟩ := next_of_subscribe hs h
    rw [hn]
    split
    · exact exists_addSubscriber_iff (· = peer) (apart h known)
    · rfl
  · obtain ⟨info, known, _, hn⟩ := next_of_unsubscribe hs h
    rw [hn]
    split
    · exact exists_dropSubscriber_iff (· = peer) (apart h known)
    · rfl
  · rw [quiet.subscribers]

omit [Subscription S T] in
theorem openedFrom_of_unwrap {s : Sync T} (hs : KeysOk s) {w : MessageSealed} {m : Message U T S}
    (opened : s.unwrapIncomingMessage w = .ok m) :
    s.OpenedFrom U S w.pubkeySender (.sealed w) :=
  ⟨rfl, m, (hs.unwrap_ok.mp opened).1⟩

omit [Subscription S T] in
theorem openedFrom_of_heard {s : Sync T} (hs : KeysOk s) {message : MessageWrapped}
    {d : Delivery U T S} {pk : Pubkey} {e : Event U T S}
    (h : s.heard (.receive message d) = some (pk, e)) : s.OpenedFrom U S pk message := by
  obtain ⟨w, d, m, hc, opened, rfl, _⟩ := heard_eq_some.mp h
  cases hc
  exact openedFrom_of_unwrap hs opened

/-- A record is what a registration would write. -/
theorem eq_tmpInfo {s : Sync T} (hs : KeysOk s) {pk : Pubkey} {info : PeerInfo}
    (known : s.peers.lookup pk = some info) {c : ConnectionInfo} {now : DateTime}
    (hname : info.peer.name = "<tmp>") (hc : info.connectionInfo = c)
    (hactive : info.active = false) (hping : info.lastPing = now) : info = s.tmpInfo pk c now := by
  have hp := hs.peer_eq known
  rw [hname] at hp
  rcases info with ⟨peer, c', active, lastPing⟩
  simp only at hp hc hactive hping
  subst hp hc hactive hping
  rfl

end Sync
end

section
variable [Sodium] {U T S : Type} [DecidableEq T] [Rmp (Message U T S)] [Subscription S T]
variable {name : String} {keypair : Keypair} {config : PeeringConfig}
variable {past : History U T S} {s : Sync T}

/-- A message that the peer did not send leaves its record alone, except for an
`Init` that names it: that one is believed whenever it can be answered. -/
theorem foreign_message_keeps_standing_iff (run : NodeRun name keypair config past s)
    {pk : Pubkey} {info : PeerInfo} (known : s.peers.lookup pk = some info)
    {message : MessageWrapped} (d : Delivery U T S) (foreign : ¬ s.OpenedFrom U S pk message) :
    s.SameStanding (s.next (.receive message d)) pk ↔
      ¬ (message = .init pk ∧ info ≠ s.tmpInfo pk d.connectionInfo d.now ∧
        (Message.new ⟨d.now, d.nonce⟩ .hello [] : Message U T S).Serializable) := by
  have hs := run.keysOk
  have other : ∀ e, s.heard (.receive message d) ≠ some (pk, e) := fun e h =>
    foreign (Sync.openedFrom_of_heard hs h)
  constructor
  · rintro ⟨info₁, info', h, h', hname, hc, hactive, hping, _⟩ ⟨rfl, hne, fits⟩
    cases known.symm.trans h
    cases (Sync.Registers.init fits).lookup.symm.trans h'
    exact hne (Sync.eq_tmpInfo hs known hname.symm hc.symm hactive.symm hping.symm)
  · intro hC
    suffices h : (s.next (.receive message d)).peers.lookup pk = some info from
      ⟨info, info, known, h, rfl, rfl, rfl, rfl, fun t =>
        Sync.subscribed_next_of_other hs other (hs.filed known) t⟩
    have hr := Sync.next_record hs (.receive message d) pk
    generalize (s.next (.receive message d)).peers.lookup pk = r at hr
    cases hr with
    | same => exact known
    | registered h =>
      cases h with
      | init fits =>
        by_contra hne
        exact hC ⟨rfl, fun he => hne (congrArg some he.symm), fits⟩
      | hello opened body => exact absurd (Sync.openedFrom_of_unwrap hs opened) foreign
    | confirmed _ h =>
      cases h with
      | peerInit opened body => exact absurd (Sync.openedFrom_of_unwrap hs opened) foreign
      | peerConfirm opened body => exact absurd (Sync.openedFrom_of_unwrap hs opened) foreign
    | refreshed _ h =>
      rcases h with h | h
      · exact absurd h (other _)
      · exact absurd h (other _)
    | forgotten h => cases h

end

namespace Sandbox

/-- The `Init` of a stranger does not touch what is known of Bob. -/
theorem stranger_keeps_standing : (after anyone bobConfirmed).SameStanding
    ((after anyone bobConfirmed).next
      (.receive (.init mallory.toPubkey) (delivered 3 0 2 []) : Call Bool Unit Unit)) bob.toPubkey :=
  (foreign_message_keeps_standing_iff (run anyone bobConfirmed) (by rfl) _ id).mpr
    fun h => absurd h.1 (by decide)

/-- Anybody can send the `Init` that names Bob, and it undoes his confirmation. -/
theorem forged_init_undoes_confirmation :
    ∃ (past : History Bool Unit Unit) (s : Sync Unit), NodeRun "a" alice anyone past s ∧
      (s.peers.lookup bob.toPubkey).isSome ∧
      ¬ s.OpenedFrom Bool Unit bob.toPubkey (.init bob.toPubkey) ∧
      ¬ s.SameStanding (s.next
        (.receive (.init bob.toPubkey) (delivered 3 0 2 []) : Call Bool Unit Unit)) bob.toPubkey := by
  refine ⟨_, _, run anyone bobConfirmed, by decide, id, ?_⟩
  rintro ⟨info, info', h, h', _, _, hactive, _⟩
  have before : ((after anyone bobConfirmed).peers.lookup bob.toPubkey).map (·.active) =
      some true := by decide
  have now : (((after anyone bobConfirmed).next (.receive (.init bob.toPubkey)
      (delivered 3 0 2 []) : Call Bool Unit Unit)).peers.lookup bob.toPubkey).map (·.active) =
      some false := by decide
  rw [h] at before
  rw [h'] at now
  cases before.symm.trans ((congrArg some hactive).symm.trans now)

end Sandbox

section
variable [Sodium] {U T S : Type} [DecidableEq T] [Rmp (Message U T S)] [Subscription S T]
variable {name : String} {keypair : Keypair} {config : PeeringConfig}
variable {past : History U T S} {s : Sync T}

/-- A peer's own messages keep it confirmed, except for a `Hello` on a connection
that we are still waiting on. -/
theorem own_message_keeps_confirmed_iff (run : NodeRun name keypair config past s)
    {w : MessageSealed} {info : PeerInfo} (known : s.peers.lookup w.pubkeySender = some info)
    (active : info.active = true) {m : Message U T S} (opened : s.unwrapIncomingMessage w = .ok m)
    (d : Delivery U T S) :
    s.StillConfirmed (s.next (.receive (.sealed w) d)) w.pubkeySender m.body ↔
      ¬ (m.body = .hello ∧ (∃ p ∈ s.pendingPeerInit, p.connectionInfo = d.connectionInfo) ∧
        (Message.new ⟨d.now, d.nonce⟩ (.peerInit s.name) [] : Message U T S).Serializable) := by
  have hs := run.keysOk
  constructor
  · rintro ⟨info₁, info', _, h', hactive, _⟩ ⟨body, pending, fits⟩
    cases (Sync.Registers.hello opened body pending fits).lookup.symm.trans h'
    cases hactive
  · intro hC
    have hr := Sync.next_record hs (.receive (.sealed w) d) w.pubkeySender
    unfold Sync.StillConfirmed
    generalize (s.next (.receive (.sealed w) d)).peers.lookup w.pubkeySender = r at hr
    generalize hpk : w.pubkeySender = pk at *
    cases hr with
    | same => exact ⟨info, info, known, known, active, .inl rfl⟩
    | registered h =>
      cases h with
      | hello opened' body pending fits =>
        cases opened.symm.trans opened'
        exact absurd ⟨body, pending, fits⟩ hC
    | confirmed known' h =>
      cases h with
      | peerInit opened' body =>
        cases opened.symm.trans opened'
        exact ⟨info, _, known, rfl, rfl, .inr (by rw [body]; rfl)⟩
      | peerConfirm opened' body =>
        cases opened.symm.trans opened'
        exact ⟨info, _, known, rfl, rfl, .inr (by rw [body]; rfl)⟩
    | refreshed known' _ =>
      cases known.symm.trans known'
      exact ⟨info, _, known, rfl, active, .inl rfl⟩
    | forgotten h => cases h

end

namespace Sandbox

/-- Alice is waiting for an answer on Bob's connection. -/
def bobAwaited : List (Call Bool Unit Unit) := .initComm address 0 :: bobConfirmed

/-- A ping from Bob keeps him confirmed. -/
theorem ping_keeps_confirmed : (after anyone bobAwaited).StillConfirmed
    ((after anyone bobAwaited).next (.receive (.sealed (letter bob alice (message 3 .ping)))
      (delivered 2 0 4 []) : Call Bool Unit Unit)) bob.toPubkey (message 3 .ping).body :=
  (own_message_keeps_confirmed_iff (run anyone bobAwaited) (w := letter bob alice (message 3 .ping))
    (by rfl) (by rfl) (by rfl) (delivered 2 0 4 [])).mpr fun h => absurd h.1 (by decide)

/-- The answer to a repeated initiation undoes the confirmation it comes from. -/
theorem hello_undoes_confirmation :
    ∃ (past : History Bool Unit Unit) (s : Sync Unit) (w : MessageSealed) (m : Msg),
      NodeRun "a" alice anyone past s ∧
      (s.peers.lookup w.pubkeySender).map (·.active) = some true ∧
      s.unwrapIncomingMessage w = .ok m ∧
      ¬ s.StillConfirmed (s.next (.receive (.sealed w) (delivered 2 0 4 []))) w.pubkeySender m.body := by
  refine ⟨_, _, letter bob alice (message 3 .hello), message 3 .hello, run anyone bobAwaited,
    by decide, by rfl, ?_⟩
  rintro ⟨info, info', h, h', hactive, _⟩
  have now : (((after anyone bobAwaited).next (.receive (.sealed (letter bob alice (message 3 .hello)))
      (delivered 2 0 4 []) : Call Bool Unit Unit)).peers.lookup bob.toPubkey).map (·.active) =
      some false := by decide
  rw [show bob.toPubkey = (letter bob alice (message 3 .hello)).pubkeySender from rfl, h'] at now
  cases (congrArg some hactive).symm.trans now

end Sandbox
end Tp2p
