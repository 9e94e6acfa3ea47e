import Tp2p.Network.Pair

/-! Two nodes and an attacker that owns the network between them. Whether a message
that one node accepts as the other's was sealed by the other. -/
namespace Tp2p
open Transition

section
variable [Sodium] {U T S : Type} [DecidableEq T] [Rmp (Message U T S)] [Subscription S T]

/-- What happens at a node: it is called, or its application seals a message of its own for the
holder of a key. -/
inductive Deed (U T S : Type) where
  | call (made : Call U T S)
  | post (pk : Pubkey) (message : Message U T S)

def Deed.made : Deed U T S → Option (Call U T S)
  | .call made => some made
  | .post .. => none

/-- What happened at the two nodes, newest first. What arrives at a node is up to the attacker, so
every call is a move of its own. -/
abbrev PairHistory (U T S : Type) [DecidableEq T] :=
  List (Taken (Side → Sync T) (Side × Deed U T S))

abbrev PairRun (pair : Pair) : PairHistory U T S → (Side → Sync T) → Prop :=
  Run (fleet (witnessing Sync.next Deed.made)) (pair.new T)

/-- The calls made on one of the two. -/
def calls (p : Side) (past : PairHistory U T S) : History U T S := inputs Deed.made (own p past)

/-- Node `p` or its application sealed the message for the holder of `pk`, and it went out as `w`. -/
inductive Emitted (pair : Pair) (past : PairHistory U T S) (p : Side) :
    Pubkey → Message U T S → MessageSealed → Prop where
  | sent {st : Step U T S} {x : Sending U T S} {c : ConnectionInfo} {w : MessageSealed}
      (hst : st ∈ calls p past) (sends : st.Sends x) (hseal : x.SealedAs (pair.pubkey p) (c, w)) :
      Emitted pair past p x.peer.pubkey x.message w
  | posted {st : Taken (Side → Sync T) (Side × Deed U T S)} {pk : Pubkey} {m : Message U T S}
      {w : MessageSealed} (hst : st ∈ past) (posts : st.input = (p, .post pk m))
      (hseal : MessageSealed.seal (pair.pubkey p) (Peer.tmp pk (pair.keypair p).seckey) m = .ok w) :
      Emitted pair past p pk m w

/-- A body that opens under the shared key was sealed at one of the nodes before. The clear fields
around it are the attacker's. -/
def Unforged (pair : Pair) (past : PairHistory U T S)
    (st : Taken (Side → Sync T) (Side × Deed U T S)) : Prop :=
  ∀ w d, st.input.2 = .call (.receive (.sealed w) d) →
    (openPrecomputed w.sealedBody w.nonce (pair.sharedKey st.input.1)).isSome →
    ∃ q pk m w', Emitted pair past q pk m w' ∧ w'.sealedBody = w.sealedBody

/-- What the gate of a node accepts as the other's, the other sealed for it before. -/
def OriginAuthentic (pair : Pair) (past : PairHistory U T S)
    (st : Taken (Side → Sync T) (Side × Deed U T S)) : Prop :=
  ∀ w d m, st.input.2 = .call (.receive (.sealed w) d) →
    w.pubkeySender = pair.pubkey st.input.1.other →
    (st.pre st.input.1).unwrapIncomingMessage w = .ok m →
    ∃ w', Emitted pair past st.input.1.other (pair.pubkey st.input.1) m w'

/-- The key that a node computes with this public key is the one it shares with the other node. -/
def Pair.Shares (pair : Pair) (p : Side) (pk : Pubkey) : Prop :=
  precompute pk.inner (pair.keypair p).seckey = pair.sharedKey p

/-- What was sealed under the shared key, but by the node itself, or by the other for another public
key, comes to the node under the other's name while its gate is open for it, and the other never
sealed these bytes for the node. -/
def Diverted (pair : Pair) (past : PairHistory U T S)
    (st : Taken (Side → Sync T) (Side × Deed U T S)) : Prop :=
  ∃ w d q pk m w', st.input.2 = .call (.receive (.sealed w) d) ∧
    w.pubkeySender = pair.pubkey st.input.1.other ∧
    Emitted pair past q pk m w' ∧ pair.Shares q pk ∧ (q = st.input.1 ∨ pk ≠ pair.pubkey st.input.1) ∧
    w'.sealedBody = w.sealedBody ∧ w'.nonce = w.nonce ∧
    (m.body.isGreeting = true ∨
      ((st.pre st.input.1).peers.lookup (pair.pubkey st.input.1.other)).isSome) ∧
    ∀ m' w'', Emitted pair past st.input.1.other (pair.pubkey st.input.1) m' w'' →
      w''.sealedBody ≠ w.sealedBody

omit [DecidableEq T] [Subscription S T] in
/-- A sealed body gives away its key, its nonce and its message. -/
theorem opened_as_sealed (ideal : IdealBox) (codec : Rmp.RoundTrip (Message U T S)) {pk : Pubkey}
    {peer peer' : Peer} {m m' : Message U T S} {w w' : MessageSealed}
    (hseal : MessageSealed.seal pk peer m = .ok w') (hbody : w'.sealedBody = w.sealedBody)
    (hopen : w.open peer' = .ok m') :
    peer'.precomputed = peer.precomputed ∧ w.nonce = w'.nonce ∧ m = m' := by
  obtain ⟨b, hb, rfl⟩ := MessageSealed.seal_eq_ok.mp hseal
  simp only at hbody
  obtain ⟨b', ho, hd⟩ := Attempt.bind_eq_ok.mp hopen
  rw [Attempt.okOr_eq_ok, ← hbody] at ho
  obtain ⟨hn, hk⟩ := ideal.open_only ho
  have hseal' : w.open peer = .ok m' := by
    rw [← hopen]
    exact Sync.open_congr hk.symm
  have hw : w.open peer = (.ok m : Except Error (Message U T S)) := by
    rw [← MessageSealed.open_of_seal ideal.toBoxLaws codec hseal rfl]
    simp only [MessageSealed.open, ← hbody, hn]
  rw [hseal'] at hw
  cases hw
  exact ⟨hk, hn, rfl⟩

variable {pair : Pair} {past : PairHistory U T S} {net : Side → Sync T} {p : Side}

theorem PairRun.calls (run : PairRun pair past net) (p : Side) :
    NodeRun (pair.name p) (pair.keypair p) (pair.config p) (Tp2p.calls p past) (net p) :=
  (run.own p).inputs

omit [Rmp (Message U T S)] [Subscription S T] in
theorem mem_calls {st : Step U T S} (h : st ∈ calls p past) :
    ∃ move ∈ past, move.input = (p, .call st.input) ∧ move.pre p = st.pre := by
  obtain ⟨event, hevent, made, hpre⟩ := mem_inputs.mp h
  obtain ⟨move, hmove, hinput, hpre'⟩ := mem_own.mp hevent
  refine ⟨move, hmove, ?_, hpre'.trans hpre⟩
  rw [hinput]
  generalize event.input = deed at made
  cases deed with
  | call => cases made; rfl
  | post => cases made

/-- Nothing goes out of a node at which nothing happened. -/
theorem Emitted.moved {pk : Pubkey} {m : Message U T S} {w : MessageSealed}
    (h : Emitted pair past p pk m w) : ∃ move ∈ past, move.input.1 = p := by
  cases h with
  | sent hst =>
    obtain ⟨move, hmove, hinput, _⟩ := mem_calls hst
    exact ⟨move, hmove, congrArg Prod.fst hinput⟩
  | posted hst posts => exact ⟨_, hst, congrArg Prod.fst posts⟩

theorem Emitted.sealed (run : PairRun pair past net) {pk : Pubkey} {m : Message U T S}
    {w : MessageSealed} (h : Emitted pair past p pk m w) :
    MessageSealed.seal (pair.pubkey p) (Peer.tmp pk (pair.keypair p).seckey) m = .ok w := by
  cases h with
  | sent hst sends hseal =>
    have keyed := (run.calls p).sends_keyed hst sends
    obtain ⟨b, hb, rfl⟩ := MessageSealed.seal_eq_ok.mp hseal.2
    exact MessageSealed.seal_eq_ok.mpr ⟨b, hb, by rw [keyed]; rfl⟩
  | posted _ _ hseal => exact hseal

/-- The gate of a node opens messages under the key that it computes with the sender's. -/
theorem PairRun.opened (run : PairRun pair past net) {w : MessageSealed} {m : Message U T S} {pk : Pubkey}
    (hsender : w.pubkeySender = pk) : (net p).unwrapIncomingMessage w = .ok m ↔
      w.open (Peer.tmp pk (pair.keypair p).seckey) = .ok m ∧
        (m.body.isGreeting = true ∨ ((net p).peers.lookup pk).isSome) := by
  have hself : (net p).keypair = pair.keypair p := (run.calls p).sameSelf.keypair
  rw [(run.calls p).keysOk.unwrap_ok, hself, hsender]

omit [DecidableEq T] [Subscription S T] in
theorem Pair.Shares.body_opens {pk : Pubkey} (shares : pair.Shares p pk) {w : MessageSealed}
    {m : Message U T S} (opened : w.open (Peer.tmp pk (pair.keypair p).seckey) = .ok m) :
    (openPrecomputed w.sealedBody w.nonce (pair.sharedKey p)).isSome := by
  obtain ⟨b, ho, _⟩ := Attempt.bind_eq_ok.mp opened
  rw [Attempt.okOr_eq_ok] at ho
  rw [← shares]
  exact Option.isSome_iff_exists.mpr ⟨b, ho⟩

theorem Pair.sharedKey_eq (laws : BoxLaws) (matching : ∀ p, (pair.keypair p).Matching) (p q : Side) :
    pair.sharedKey q = pair.sharedKey p := by
  rcases Side.eq_or_eq_other p q with rfl | rfl
  · rfl
  · exact Pair.sharedKey_other laws matching p

/-- What opens at a node under the shared key was sealed under it, with the same nonce. -/
theorem Emitted.of_opened (ideal : IdealBox) (codec : Rmp.RoundTrip (Message U T S))
    (matching : ∀ p, (pair.keypair p).Matching) (run : PairRun pair past net) {pk : Pubkey}
    (shares : pair.Shares p pk) {w : MessageSealed} {m : Message U T S}
    (opened : w.open (Peer.tmp pk (pair.keypair p).seckey) = .ok m) {q : Side} {pk' : Pubkey}
    {m' : Message U T S} {w' : MessageSealed} (emitted : Emitted pair past q pk' m' w')
    (hbody : w'.sealedBody = w.sealedBody) : pair.Shares q pk' ∧ w'.nonce = w.nonce ∧ m' = m := by
  obtain ⟨hk, hn, hm⟩ := opened_as_sealed ideal codec (emitted.sealed run) hbody opened
  refine ⟨?_, hn.symm, hm⟩
  rw [Pair.Shares, Pair.sharedKey_eq ideal.toBoxLaws matching p q]
  exact hk.symm.trans shares

/-- A diverted message passes the gate, and its origin is not the one it claims. -/
theorem Diverted.not_authentic (laws : BoxLaws) (codec : Rmp.RoundTrip (Message U T S))
    (matching : ∀ p, (pair.keypair p).Matching) (run : PairRun pair past net)
    {move : Side × Deed U T S} (h : Diverted pair past ⟨net, move⟩) :
    ¬ OriginAuthentic pair past ⟨net, move⟩ := by
  obtain ⟨p, deed⟩ := move
  obtain ⟨w, d, q, pk, m, w', hi, hsender, emitted, shares, _, hbody, hnonce, gate, absent⟩ := h
  simp only at hi hsender gate absent
  intro authentic
  have hkey : (Peer.tmp (pair.pubkey p.other) (pair.keypair p).seckey).precomputed =
      (Peer.tmp pk (pair.keypair q).seckey).precomputed :=
    (shares.trans (Pair.sharedKey_eq laws matching p q)).symm
  have opened : w.open (Peer.tmp (pair.pubkey p.other) (pair.keypair p).seckey) = .ok m := by
    rw [← MessageSealed.open_of_seal laws codec (emitted.sealed run) hkey]
    simp only [MessageSealed.open, hbody, hnonce]
  obtain ⟨w'', emitted'⟩ := authentic w d m hi hsender ((run.opened hsender).mpr ⟨opened, gate⟩)
  simp only at emitted'
  apply absent m w'' emitted'
  -- sealing the same message under the same key gives the same bytes
  obtain ⟨b, hb, hw⟩ := MessageSealed.seal_eq_ok.mp (emitted.sealed run)
  obtain ⟨b', hb', hw'⟩ := MessageSealed.seal_eq_ok.mp (emitted'.sealed run)
  cases hb.symm.trans hb'
  have hshared : (Peer.tmp (pair.pubkey p) (pair.keypair p.other).seckey).precomputed =
      (Peer.tmp pk (pair.keypair q).seckey).precomputed := by
    rw [← hkey]
    exact (matching p).shared_key laws (matching p.other)
  rw [← hbody, hw, hw', hshared]

/-- What a node accepts as the other's was sealed by the other for it, exactly in the runs in which
nobody hands a node what was sealed under the same key for somebody else. -/
theorem origin_authentic_iff (ideal : IdealBox) (codec : Rmp.RoundTrip (Message U T S))
    (matching : ∀ p, (pair.keypair p).Matching) (run : PairRun pair past net)
    (unforged : Every (Unforged pair) past) :
    Every (OriginAuthentic pair) past ↔ Every (fun past st => ¬ Diverted pair past st) past := by
  refine Run.every_iff (fun {past net} run move unforged => ?_) run unforged
  refine ⟨fun authentic diverted =>
    diverted.not_authentic ideal.toBoxLaws codec matching run authentic, fun hd => ?_⟩
  intro w d m hi hsender accepted
  obtain ⟨opened, gate⟩ := (PairRun.opened run hsender).mp accepted
  have shares : pair.Shares move.1 (pair.pubkey move.1.other) := rfl
  by_cases meant : ∃ m' w'', Emitted pair past move.1.other (pair.pubkey move.1) m' w'' ∧
      w''.sealedBody = w.sealedBody
  · obtain ⟨m', w'', emitted, hbody⟩ := meant
    obtain ⟨_, _, rfl⟩ := emitted.of_opened ideal codec matching run shares opened hbody
    exact ⟨w'', emitted⟩
  · obtain ⟨q, pk, m', w', emitted, hbody⟩ := unforged w d hi (shares.body_opens opened)
    obtain ⟨shares', hnonce, rfl⟩ := emitted.of_opened ideal codec matching run shares opened hbody
    refine absurd ⟨w, d, q, pk, m', w', hi, hsender, emitted, shares', ?_, hbody, hnonce, gate,
      fun m'' w'' emitted' hb => meant ⟨m'', w'', emitted', hb⟩⟩ hd
    rcases Side.eq_or_eq_other move.1 q with rfl | rfl
    · exact .inl rfl
    · right
      rintro rfl
      exact meant ⟨m', w', emitted, hbody⟩

end

namespace Sandbox

abbrev Move := Side × Deed Bool Unit Unit

def pairHistory (moves : List Move) : PairHistory Bool Unit Unit :=
  trail (fleet (witnessing Sync.next Deed.made)) (aliceAndBob.new Unit) moves

/-- The two nodes after these moves. -/
def pairAfter (moves : List Move) : Side → Sync Unit :=
  reach (fleet (witnessing Sync.next Deed.made)) (aliceAndBob.new Unit) moves

theorem pairRun (moves : List Move) : PairRun aliceAndBob (pairHistory moves) (pairAfter moves) :=
  Run.of_inputs moves

/-- The `Hello` of either party to the other's `Init` goes out sealed. -/
theorem hello_emitted (p : Side) :
    Emitted aliceAndBob (pairHistory
        [(p, .call (.receive (.init (aliceAndBob.pubkey p.other)) (delivered 2 0 0 [])))]) p
      (aliceAndBob.pubkey p.other) (message 0 .hello)
      (letter (aliceAndBob.keypair p) (aliceAndBob.keypair p.other) (message 0 .hello)) := by
  have sends : Step.Sends ⟨aliceAndBob.new Unit p, .receive (.init (aliceAndBob.pubkey p.other))
      (delivered 2 0 0 [])⟩ (.fresh ((aliceAndBob.new Unit p).tmpInfo (aliceAndBob.pubkey p.other)
        (connection 2) 0) 0 0 .hello : Sending Bool Unit Unit) :=
    Step.sends_of_effect .init (fun x _ => serializable x.message) (.head _)
  have hseal : (Sending.fresh ((aliceAndBob.new Unit p).tmpInfo (aliceAndBob.pubkey p.other)
      (connection 2) 0) 0 0 .hello : Sending Bool Unit Unit).SealedAs (aliceAndBob.pubkey p)
        (connection 2, letter (aliceAndBob.keypair p) (aliceAndBob.keypair p.other) (message 0 .hello)) := by
    cases p <;> exact ⟨rfl, rfl⟩
  refine .sent ?_ sends hseal
  cases p <;> exact .head _

/-- Bob answers the `Init` of Alice, and his answer arrives. -/
def bobAnswers : List Move :=
  [(.left, .call (.receive (.sealed (letter bob alice (message 0 .hello))) (delivered 2 0 1 []))),
    (.right, .call (.receive (.init alice.toPubkey) (delivered 2 0 0 [])))]

theorem answer_authentic : Every (OriginAuthentic aliceAndBob) (pairHistory bobAnswers) := by
  refine (origin_authentic_iff idealBox roundTrip ?_ (pairRun bobAnswers)
    ⟨?_, ?_, True.intro⟩).mpr ⟨?_, ?_, True.intro⟩
  · intro p
    cases p <;> rfl
  · intro w d hi _
    cases hi
    exact ⟨.right, _, _, _, hello_emitted .right, rfl⟩
  · intro w d hi
    cases hi
  · rintro ⟨w, d, q, pk, m, w', hi, _, _, _, _, _, _, _, absent⟩
    cases hi
    exact absent _ _ (hello_emitted .right) rfl
  · rintro ⟨w, d, q, pk, m, w', hi, _⟩
    cases hi

/-- Alice answers an `Init` that names Bob, and gets her answer back under Bob's name. -/
def aliceReflected : List Move :=
  [(.left, .call (.receive (.sealed { letter alice bob (message 0 .hello) with
      pubkeySender := bob.toPubkey }) (delivered 2 0 1 []))),
    (.left, .call (.receive (.init bob.toPubkey) (delivered 2 0 0 [])))]

/-- Alice accepts it as Bob's, who has done nothing at all. -/
theorem reflection_accepted : ∃ (past : PairHistory Bool Unit Unit) (net : Side → Sync Unit),
    PairRun aliceAndBob past net ∧ aliceAndBob.pubkey .left ≠ aliceAndBob.pubkey .right ∧
      Every (Unforged aliceAndBob) past ∧ ¬ Every (OriginAuthentic aliceAndBob) past := by
  refine ⟨_, _, pairRun aliceReflected, by decide, ⟨?_, ?_, True.intro⟩, fun h => ?_⟩
  · intro w d hi _
    cases hi
    exact ⟨.left, _, _, _, hello_emitted .left, rfl⟩
  · intro w d hi
    cases hi
  · obtain ⟨w', emitted⟩ := h.1 _ _ (message 0 .hello) rfl rfl (by rfl)
    obtain ⟨move, hmove, hp⟩ := emitted.moved
    cases List.mem_singleton.mp hmove
    cases hp

end Sandbox
end Tp2p
