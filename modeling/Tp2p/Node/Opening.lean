import Tp2p.Model.Sandbox
import Tp2p.Node.Records

/-! What the addressee makes of a sealed message, whether or not it knows the
sender, and over any number of relays. -/
namespace Tp2p
open Transition

section
variable [Sodium] {U T S : Type}

/-- Opening undoes sealing under the same key. -/
theorem MessageSealed.open_of_seal [Rmp (Message U T S)] (laws : BoxLaws)
    (codec : Rmp.RoundTrip (Message U T S)) {pk : Pubkey} {peer peer' : Peer} {m : Message U T S}
    {w : MessageSealed} (hseal : MessageSealed.seal pk peer m = .ok w)
    (hkey : peer'.precomputed = peer.precomputed) : w.open peer' = .ok m := by
  obtain ⟨b, hb, rfl⟩ := MessageSealed.seal_eq_ok.mp hseal
  have hd : deserialize b = (.ok m : Except Error (Message U T S)) := by
    unfold serialize at hb
    split at hb
    · next b' hb' =>
      cases hb
      rw [deserialize, codec m _ hb']
    · cases hb
  simp [MessageSealed.open, hkey, laws.open_seal, hd]

/-- The two parties compute the same key. -/
theorem Keypair.Matching.shared_key {a b : Keypair} (laws : BoxLaws) (ha : a.Matching)
    (hb : b.Matching) : precompute a.pubkey b.seckey = precompute b.pubkey a.seckey := by
  rw [ha, hb]
  exact laws.precompute_comm a.seckey b.seckey

variable [DecidableEq T] [Rmp (Message U T S)]

namespace Sync

/-- An event that needs a known sender is refused from an unknown one. -/
theorem unwrap_unknown {s : Sync T} {w : MessageSealed} {m : Message U T S}
    (unknown : s.peers.lookup w.pubkeySender = none) (needs : m.body.isGreeting = false)
    (opened : w.open (Peer.tmp w.pubkeySender s.keypair.seckey) = .ok m) :
    (s.unwrapIncomingMessage w : Except Error (Message U T S)) =
      .error (.peerNotFound w.pubkeySender) := by
  rw [unwrap_of_unknown unknown, opened, Attempt.bind_ok, needs]
  rfl

variable [Subscription S T]

/-- Whatever a node seals is sealed under the key it shares with the addressee. -/
theorem Effect.sends_keyed {s : Sync T} (hs : KeysOk s) {call : Call U T S}
    {as : List (SyncAction T)} {sends : List (Sending U T S)} (h : Effect s call as sends) :
    ∀ x ∈ sends, x.peer.precomputed = precompute x.peer.pubkey.inner s.keypair.seckey := by
  intro x hx
  cases h with
  | initComm => cases hx
  | peerConfirm known => cases List.mem_singleton.mp hx; exact hs.peers known
  | tick =>
    obtain ⟨pk, info, known, _, rfl⟩ := mem_pings.mp hx
    exact hs.peers known
  | init => cases List.mem_singleton.mp hx; rfl
  | @event w d m _ _ opened effect =>
    generalize m.body = e at effect
    cases effect with
    | hello => cases List.mem_singleton.mp hx; rfl
    | peerInit _ known => cases List.mem_singleton.mp hx; exact hs.peers known
    | ping known => cases List.mem_singleton.mp hx; exact hs.peers known
    | querySubscriptions known => cases List.mem_singleton.mp hx; exact hs.peers known
    | query _ known =>
      obtain ⟨m', _, rfl⟩ := List.mem_map.mp hx
      exact hs.peers known
    | _ => cases hx

end Sync

variable [Subscription S T]

/-- The node with this key opens `w` to exactly `m` once it knows the sender or `m` is a
greeting, and refuses the sender otherwise; this in every state it can be in. -/
def OpensTo (w : MessageSealed) (m : Message U T S) (addressee : Pubkey) : Prop :=
  ∀ (name : String) (keypair : Keypair) (config : PeeringConfig) (past : History U T S) (s : Sync T),
    keypair.Matching → keypair.toPubkey = addressee → NodeRun name keypair config past s →
    (m.body.isGreeting = true ∨ (s.peers.lookup w.pubkeySender).isSome →
      s.unwrapIncomingMessage w = .ok m) ∧
    (m.body.isGreeting = false → s.peers.lookup w.pubkeySender = none →
      (s.unwrapIncomingMessage w : Except Error (Message U T S)) =
        .error (.peerNotFound w.pubkeySender))

/-- What a node seals for a peer opens there. -/
theorem opensTo_of_sealed (laws : BoxLaws) (codec : Rmp.RoundTrip (Message U T S)) {a : Keypair}
    (ha : a.Matching) {x : Sending U T S} {c : ConnectionInfo} {w : MessageSealed}
    (hkey : x.peer.precomputed = precompute x.peer.pubkey.inner a.seckey)
    (hseal : x.SealedAs a.toPubkey (c, w)) : OpensTo w x.message x.peer.pubkey := by
  intro name b config past s hb hpk run
  have hsender : w.pubkeySender = a.toPubkey := by
    obtain ⟨_, _, rfl⟩ := MessageSealed.seal_eq_ok.mp hseal.2
    rfl
  have hself : s.keypair = b := run.sameSelf.keypair
  have opened : w.open (Peer.tmp w.pubkeySender s.keypair.seckey) = .ok x.message := by
    apply MessageSealed.open_of_seal laws codec hseal.2
    rw [hkey, hself, hsender, ← hpk]
    exact ha.shared_key laws hb
  refine ⟨fun h => (run.keysOk.unwrap_ok).mpr ⟨opened, h⟩, fun needs unknown => ?_⟩
  exact Sync.unwrap_unknown unknown needs opened

/-- `w` brings `m` to the holder of a key: some node sealed it for that key, having made
`m` itself or having been brought it in turn. -/
inductive Brings (m : Message U T S) : Pubkey → MessageSealed → Prop where
  | made {name : String} {keypair : Keypair} {config : PeeringConfig} {past : History U T S}
      {s : Sync T} {st : Step U T S} {x : Sending U T S} {c : ConnectionInfo} {w : MessageSealed}
      (matching : keypair.Matching) (run : NodeRun name keypair config past s) (hst : st ∈ past)
      (sends : st.Sends x) (message : x.message = m) (hseal : x.SealedAs keypair.toPubkey (c, w)) :
      Brings m x.peer.pubkey w
  | relayed {name : String} {keypair : Keypair} {config : PeeringConfig} {past : History U T S}
      {s : Sync T} {st st' : Step U T S} {x : Sending U T S} {c : ConnectionInfo}
      {w w' : MessageSealed} (matching : keypair.Matching) (run : NodeRun name keypair config past s)
      (brought : Brings m keypair.toPubkey w') (hst' : st' ∈ past)
      (opened : st'.pre.unwrapIncomingMessage w' = .ok x.message) (hst : st ∈ past)
      (relays : st.Relays x) (hseal : x.SealedAs keypair.toPubkey (c, w)) :
      Brings m x.peer.pubkey w

theorem OpensTo.opened_eq {w : MessageSealed} {m m' : Message U T S} {name : String}
    {keypair : Keypair} {config : PeeringConfig} {past : History U T S} {s : Sync T}
    (h : OpensTo w m keypair.toPubkey) (matching : keypair.Matching)
    (run : NodeRun name keypair config past s) (opened : s.unwrapIncomingMessage w = .ok m') :
    m' = m := by
  obtain ⟨known, unknown⟩ := h name keypair config past s matching rfl run
  cases needs : m.body.isGreeting with
  | true => cases (known (.inl needs)).symm.trans opened; rfl
  | false =>
    cases hl : s.peers.lookup w.pubkeySender with
    | none => cases (unknown needs hl).symm.trans opened
    | some info => cases (known (.inr (by rw [hl]; rfl))).symm.trans opened; rfl

theorem NodeRun.sends_keyed {name : String} {keypair : Keypair} {config : PeeringConfig}
    {past : History U T S} {s : Sync T} (run : NodeRun name keypair config past s)
    {st : Step U T S} (hst : st ∈ past) {x : Sending U T S} (sends : st.Sends x) :
    x.peer.precomputed = precompute x.peer.pubkey.inner keypair.seckey := by
  obtain ⟨older, run'⟩ := run.earlier hst
  obtain ⟨_, _, _, _, effect, _, hx⟩ := sends
  rw [effect.sends_keyed (NodeRun.keysOk run') x hx, (NodeRun.sameSelf run').keypair]
  rfl

/-- However many relays it passes, a message opens as its author sealed it. -/
theorem Brings.opensTo (laws : BoxLaws) (codec : Rmp.RoundTrip (Message U T S))
    {m : Message U T S} {pk : Pubkey} {w : MessageSealed} (h : Brings m pk w) : OpensTo w m pk := by
  induction h with
  | made matching run hst sends message hseal =>
    rw [← message]
    exact opensTo_of_sealed laws codec matching (run.sends_keyed hst sends) hseal
  | relayed matching run _ hst' opened hst relays hseal ih =>
    obtain ⟨_, run'⟩ := run.earlier hst'
    rw [← ih.opened_eq matching run' opened]
    exact opensTo_of_sealed laws codec matching (run.sends_keyed hst relays.1) hseal

variable {name : String} {keypair : Keypair} {config : PeeringConfig}
variable {past : History U T S} {s : Sync T}

/-- The cached keys of a node are right in every reachable state. Whatever it then sends
sealed opens at its addressee to the message that was sealed, whether or not the addressee
knows the node, and so does whatever reaches somebody over relays. -/
theorem sealed_opens_at_addressee (laws : BoxLaws) (codec : Rmp.RoundTrip (Message U T S))
    (matching : keypair.Matching) (run : NodeRun name keypair config past s) :
    (∀ pk info, s.peers.lookup pk = some info → info.peer.pubkey = pk ∧
      info.peer.precomputed = precompute pk.inner keypair.seckey) ∧
    (∀ t, ∀ e ∈ s.subscribers t,
      e.peer.precomputed = precompute e.peer.pubkey.inner keypair.seckey) ∧
    (∀ (call : Call U T S) actions c w, s.exec call = .ok actions →
      .messageSend c (.sealed w) ∈ actions → ∃ x, Step.Sends ⟨s, call⟩ x ∧
        x.SealedAs keypair.toPubkey (c, w) ∧ w.pubkeySender = keypair.toPubkey ∧
        OpensTo w x.message x.peer.pubkey ∧
        (Step.isQuery ⟨s, call⟩ = true → ∃ w' d, call = .receive (.sealed w') d ∧
          x.message ∈ d.messages)) ∧
    ∀ (m : Message U T S) pk w, Brings m pk w → OpensTo w m pk := by
  have hs := run.keysOk
  have hself : s.keypair = keypair := run.sameSelf.keypair
  refine ⟨fun pk info known => ⟨hs.filed known, ?_⟩, fun t e he => ?_,
    fun call actions c w ha hw => ?_, fun m pk w h => h.opensTo laws codec⟩
  · rw [← hself, hs.peers known, hs.filed known]
  · rw [← hself]
    exact hs.subscribers he
  · have result : Step.result ⟨s, call⟩ = .ok actions := ha
    obtain ⟨x, hsends, hseal⟩ := Step.exists_sends result hw
    obtain ⟨_, _, _, _, effect, _, hx⟩ := id hsends
    have hkey := effect.sends_keyed hs x hx
    simp only [hself] at hkey hseal
    refine ⟨x, hsends, hseal, ?_, opensTo_of_sealed laws codec matching hkey hseal, fun query => ?_⟩
    · obtain ⟨_, _, rfl⟩ := MessageSealed.seal_eq_ok.mp hseal.2
      rfl
    · obtain ⟨pk, e, heard, hq⟩ := Step.isQuery_iff.mp query
      obtain ⟨w', d, info, m, hi, _, hm, rfl⟩ := effect.query heard hq hx
      exact ⟨w', d, hi, (List.mem_filter.mp hm).1⟩

end

namespace Sandbox

/-- The `Hello` that answers Mallory's `Init` opens at Mallory's. -/
theorem hello_opens_at_stranger : ∃ x : Sending Bool Unit Unit,
    Step.Sends ⟨after anyone bobConfirmed, .receive (.init mallory.toPubkey) (delivered 3 0 2 [])⟩ x ∧
      OpensTo (letter alice mallory (message 2 .hello)) x.message x.peer.pubkey := by
  obtain ⟨_, _, h, _⟩ := sealed_opens_at_addressee idealBox.toBoxLaws roundTrip (matching 1)
    (run anyone bobConfirmed)
  obtain ⟨x, sends, _, _, opens, _⟩ := h
    (.receive (.init mallory.toPubkey) (delivered 3 0 2 [])) _ _ _ rfl (.tail _ (.head _))
  exact ⟨x, sends, opens⟩

end Sandbox
end Tp2p
