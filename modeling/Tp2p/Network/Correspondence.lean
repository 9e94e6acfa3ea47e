import Tp2p.Network.Origin
import Tp2p.Node.Retention

/-! Why a message arrives: every step of the handshake rests on one before, back to the calls
of the two applications. Here the applications may seal messages of their own, too. -/
namespace Tp2p
open Transition

section
variable [Sodium] {U T S : Type} [DecidableEq T] [Rmp (Message U T S)] [Subscription S T]

/-- Why a node sends the peer a message with this body. -/
inductive Step.Grounds (st : Step U T S) (pk : Pubkey) : Event U T S → Prop where
  | init {d : Delivery U T S} (introduced : st.input = .receive (.init pk) d) : Grounds st pk .hello
  | hello {w : MessageSealed} {d : Delivery U T S} (arrived : st.input = .receive (.sealed w) d)
      (heard : st.pre.heard st.input = some (pk, .hello))
      (pending : ∃ p ∈ st.pre.pendingPeerInit, p.connectionInfo = d.connectionInfo) :
      Grounds st pk (.peerInit st.pre.name)
  | peerInit {name : String} (heard : st.pre.heard st.input = some (pk, .peerInit name))
      (allowed : st.pre.peeringConfig.canConfirm pk = some true)
      (known : (st.pre.peers.lookup pk).isSome) : Grounds st pk (.peerConfirm st.pre.name)
  | app {name : String} {now : DateTime} {nonce : Nonce}
      (called : st.input = .peerConfirm pk name now nonce)
      (known : (st.pre.peers.lookup pk).isSome) : Grounds st pk (.peerConfirm st.pre.name)
  | tick {order : IterOrder PeerInfo} {now : DateTime} {nonce : Pubkey → Nonce} {info : PeerInfo}
      (called : st.input = .tick order now nonce) (known : st.pre.peers.lookup pk = some info)
      (due : Due now info) : Grounds st pk .ping
  | ping (heard : st.pre.heard st.input = some (pk, .ping))
      (known : (st.pre.peers.lookup pk).isSome) : Grounds st pk .pong
  | querySubscriptions {topics : List T} (heard : st.pre.heard st.input = some (pk, .querySubscriptions))
      (known : (st.pre.peers.lookup pk).isSome) : Grounds st pk (.activeSubscriptions topics)
  | query {w : MessageSealed} {d : Delivery U T S} {m : Message U T S} {e : Event U T S}
      (arrived : st.input = .receive (.sealed w) d) (heard : st.pre.heard st.input = some (pk, e))
      (query : e.isQuery = true) (stored : m ∈ d.messages) : Grounds st pk m.body

/-- Nothing goes out without grounds. -/
theorem Step.Sends.grounds {st : Step U T S} (hs : st.pre.KeysOk) {x : Sending U T S}
    (h : st.Sends x) : st.Grounds x.peer.pubkey x.message.body := by
  obtain ⟨s, call⟩ := st
  obtain ⟨_, as, sends, _, effect, _, hx⟩ := h
  have filed : ∀ {pk : Pubkey} {info : PeerInfo}, s.peers.lookup pk = some info →
      info.peer.pubkey = pk ∧ (s.peers.lookup info.peer.pubkey).isSome := by
    intro pk info known
    have hpk : info.peer.pubkey = pk := hs.filed known
    exact ⟨hpk, by rw [hpk, known]; rfl⟩
  cases effect with
  | initComm => cases hx
  | peerConfirm known =>
    obtain rfl := List.mem_singleton.mp hx
    obtain ⟨rfl, some⟩ := filed known
    exact .app rfl some
  | tick =>
    obtain ⟨pk, info, known, due, rfl⟩ := Sync.mem_pings.mp hx
    obtain ⟨rfl, _⟩ := filed known
    exact .tick rfl known due
  | init =>
    obtain rfl := List.mem_singleton.mp hx
    exact .init rfl
  | @event w d m _ _ opened effect =>
    have heard : s.heard (.receive (.sealed w) d) = some (w.pubkeySender, m.body) :=
      Sync.heard_eq_some.mpr ⟨w, d, m, rfl, opened, rfl, rfl⟩
    generalize m.body = e at heard effect
    cases effect with
    | hello pending =>
      obtain rfl := List.mem_singleton.mp hx
      exact .hello rfl heard pending
    | peerInit allowed known =>
      obtain rfl := List.mem_singleton.mp hx
      obtain ⟨hpk, some⟩ := filed known
      rw [← hpk] at heard allowed
      exact .peerInit heard allowed some
    | ping known =>
      obtain rfl := List.mem_singleton.mp hx
      obtain ⟨hpk, some⟩ := filed known
      rw [← hpk] at heard
      exact .ping heard some
    | querySubscriptions known =>
      obtain rfl := List.mem_singleton.mp hx
      obtain ⟨hpk, some⟩ := filed known
      rw [← hpk] at heard
      exact .querySubscriptions heard some
    | query query known =>
      obtain ⟨m', hm', rfl⟩ := List.mem_map.mp hx
      rw [← (filed known).1] at heard
      exact .query rfl heard query (List.mem_filter.mp hm').1
    | _ => cases hx

/-- The name that a message gives its sender. -/
def Event.givenName : Event U T S → Option String
  | .peerInit name | .peerConfirm name => some name
  | _ => none

/-- The application asks for a peer: it initiates, it confirms the key, or it hands out a
stored message that introduces. -/
def Call.Asks (pk : Pubkey) : Call U T S → Prop
  | .initComm _ _ => True
  | .peerConfirm pk' _ _ _ => pk' = pk
  | .tick .. => False
  | .receive _ d => ∃ m ∈ d.messages, m.body.givenName.isSome

/-- The same, or it seals an introduction of its own. -/
def Deed.Asks (pk : Pubkey) : Deed U T S → Prop
  | .call made => made.Asks pk
  | .post pk' m => pk' = pk ∧ m.body.givenName.isSome

omit [Subscription S T] in
/-- Who introduces itself was asked to by its application, had initiated, or was itself
introduced to. -/
theorem Step.Grounds.of_name {st : Step U T S} {pk : Pubkey} {e : Event U T S} (h : st.Grounds pk e)
    (named : e.givenName.isSome) : st.input.Asks pk ∨ st.pre.pendingPeerInit ≠ [] ∨
      ∃ name, st.pre.heard st.input = some (pk, .peerInit name) := by
  cases h with
  | hello arrived heard pending =>
    obtain ⟨p, hp, _⟩ := pending
    exact .inr (.inl (List.ne_nil_of_mem hp))
  | peerInit heard => exact .inr (.inr ⟨_, heard⟩)
  | app called =>
    rw [called]
    exact .inl rfl
  | query arrived heard query stored =>
    rw [arrived]
    exact .inl ⟨_, stored, named⟩
  | _ => cases named

omit [Subscription S T] in
/-- Only the application or a message that names the peer confirms it. -/
theorem Sync.Confirms.named {s : Sync T} {call : Call U T S} {pk : Pubkey} {name : String}
    {now : DateTime} (h : Confirms s call pk name now) :
    (∃ nonce, call = .peerConfirm pk name now nonce) ∨
      ∃ e, s.heard call = some (pk, e) ∧ e.givenName = some name := by
  cases h with
  | app => exact .inl ⟨_, rfl⟩
  | peerInit opened body => exact .inr ⟨_, heard_eq_some.mpr ⟨_, _, _, rfl, opened, rfl, body⟩, rfl⟩
  | peerConfirm opened body => exact .inr ⟨_, heard_eq_some.mpr ⟨_, _, _, rfl, opened, rfl, body⟩, rfl⟩

variable {pair : Pair} {past : PairHistory U T S} {net : Side → Sync T} {p : Side}

/-- An application sealed a message with this body under the key that the two share, or one of the
two had grounds to send such a message, and so had whoever sent what these rest on. -/
inductive Founded (pair : Pair) : PairHistory U T S → Event U T S → Prop where
  | post {newer older : PairHistory U T S} {st : Taken (Side → Sync T) (Side × Deed U T S)} {p : Side}
      {pk : Pubkey} {m : Message U T S} (posts : st.input = (p, .post pk m)) (shares : pair.Shares p pk) :
      Founded pair (newer ++ st :: older) m.body
  | step {newer older : PairHistory U T S} {st : Taken (Side → Sync T) (Side × Deed U T S)} {p : Side}
      {call : Call U T S} {pk : Pubkey} {e : Event U T S} (made : st.input = (p, .call call))
      (shares : pair.Shares p pk) (grounds : Step.Grounds ⟨st.pre p, call⟩ pk e)
      (before : ∀ e', (st.pre p).heard call = some (pk, e') → Founded pair older e') :
      Founded pair (newer ++ st :: older) e

/-- The application of one of the two asks for a peer under the key that they share. -/
def AskedFor (pair : Pair) (past : PairHistory U T S) : Prop :=
  ∃ st ∈ past, ∃ pk, pair.Shares st.input.1 pk ∧ st.input.2.Asks pk

omit [Rmp (Message U T S)] [Subscription S T] in
theorem AskedFor.mono {past' : PairHistory U T S} (h : AskedFor pair past) (sub : past ⊆ past') :
    AskedFor pair past' := by
  obtain ⟨st, hst, asks⟩ := h
  exact ⟨st, sub hst, asks⟩

/-- An introduction is founded only if somebody asked for it. -/
theorem Founded.asked {e : Event U T S} (h : Founded pair past e) (named : e.givenName.isSome)
    (run : PairRun pair past net) : AskedFor pair past := by
  induction h generalizing net with
  | @post newer older st p pk m posts shares =>
    refine ⟨st, List.mem_append_right newer List.mem_cons_self, pk, ?_, ?_⟩
    · rw [posts]
      exact shares
    · rw [posts]
      exact ⟨rfl, named⟩
  | @step newer older st p call pk e made shares grounds before ih =>
    have run' := run.of_append
    have sub : older ⊆ newer ++ st :: older := fun st' hst =>
      List.mem_append_right newer (List.mem_cons_of_mem st hst)
    rcases grounds.of_name named with asks | pending | ⟨name, heard⟩
    · refine ⟨st, List.mem_append_right newer List.mem_cons_self, pk, ?_, ?_⟩
      · rw [made]
        exact shares
      · rw [made]
        exact asks
    · obtain ⟨initiation, hp⟩ := List.exists_mem_of_ne_nil _ pending
      obtain ⟨st', hst, initiated, _⟩ := NodeRun.pending_of_initiation (PairRun.calls run' p) hp
      obtain ⟨move, hmove, made', _⟩ := mem_calls hst
      refine ⟨move, sub hmove, pk, ?_, ?_⟩
      · rw [made']
        exact shares
      · rw [made']
        generalize st'.input = call' at initiated
        cases call' with
        | initComm => exact True.intro
        | _ => cases initiated
    · exact (ih _ heard rfl run').mono sub

end

namespace Sandbox

end Sandbox
end Tp2p
