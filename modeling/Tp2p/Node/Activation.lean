import Tp2p.Model.Sandbox
import Tp2p.Node.Records

/-! What it takes to become an active peer. -/
namespace Tp2p
open Transition

section
variable [Sodium] {U T S : Type} [DecidableEq T] [Rmp (Message U T S)] [Subscription S T]

/-- What happened earlier entitles `pk` to be active: its `PeerInit` met a configuration
that lets it in, the application confirmed it, or it answered on a connection that the
application had opened. -/
inductive Authorised (past : History U T S) (pk : Pubkey) : Prop where
  | peerInit {st : Step U T S} {name : String} (hst : st ∈ past)
      (heard : st.pre.heard st.input = some (pk, .peerInit name))
      (allowed : st.pre.peeringConfig.canConfirm pk = some true) : Authorised past pk
  | app {st : Step U T S} {name : String} {now : DateTime} {nonce : Nonce} (hst : st ∈ past)
      (called : st.input = .peerConfirm pk name now nonce) : Authorised past pk
  | hello {st st' : Step U T S} {w : MessageSealed} {d : Delivery U T S} {a : Action U T S}
      {as : List (Action U T S)} {addr : String} {now : DateTime} (hst : st ∈ past)
      (arrived : st.input = .receive (.sealed w) d)
      (heard : st.pre.heard st.input = some (pk, .hello)) (accepted : st.result = .ok (a :: as))
      (hst' : st' ∈ past) (initiated : st'.input = .initComm addr now)
      (connection : ConnectionInfo.new addr = .ok d.connectionInfo) : Authorised past pk

theorem Authorised.mono {past past' : History U T S} {pk : Pubkey} (h : Authorised past pk)
    (sub : past ⊆ past') : Authorised past' pk := by
  cases h with
  | peerInit hst heard allowed => exact .peerInit (sub hst) heard allowed
  | app hst called => exact .app (sub hst) called
  | hello hst arrived heard accepted hst' initiated connection =>
    exact .hello (sub hst) arrived heard accepted (sub hst') initiated connection

/-- A `PeerConfirm` entitles nobody to anything. -/
theorem Authorised.before_peerConfirm {past : History U T S} {st : Step U T S} {pk pk' : Pubkey}
    {name : String} (confirm : st.pre.heard st.input = some (pk', .peerConfirm name))
    (h : Authorised (st :: past) pk) : Authorised past pk := by
  cases h with
  | peerInit hst heard allowed =>
    rcases List.mem_cons.mp hst with rfl | hst
    · cases confirm.symm.trans heard
    · exact .peerInit hst heard allowed
  | app hst called =>
    rcases List.mem_cons.mp hst with rfl | hst
    · rw [called] at confirm
      cases confirm
    · exact .app hst called
  | hello hst arrived heard accepted hst' initiated connection =>
    rcases List.mem_cons.mp hst with rfl | hst
    · cases confirm.symm.trans heard
    · rcases List.mem_cons.mp hst' with rfl | hst'
      · rw [initiated] at confirm
        cases confirm
      · exact .hello hst arrived heard accepted hst' initiated connection

/-- Every active peer is entitled to be. -/
def ActiveAuthorised (past : History U T S) (s : Sync T) : Prop :=
  ∀ pk info, s.peers.lookup pk = some info → info.active = true → Authorised past pk

/-- A `PeerConfirm` that the gate lets through comes from a peer already entitled to be active. -/
def ConfirmsAuthorised (past : History U T S) (st : Step U T S) : Prop :=
  ∀ pk name, st.pre.heard st.input = some (pk, .peerConfirm name) → Authorised past pk

theorem ActiveAuthorised.next {past : History U T S} {s : Sync T} (hs : s.KeysOk)
    (h : ActiveAuthorised past s) {call : Call U T S} (hc : ConfirmsAuthorised past ⟨s, call⟩) :
    ActiveAuthorised (⟨s, call⟩ :: past) (s.next call) := by
  intro pk info known active
  have sub : past ⊆ ⟨s, call⟩ :: past := List.subset_cons_self _ _
  have hr := Sync.next_record hs call pk
  rw [known] at hr
  generalize hi : some info = r at hr
  cases hr with
  | same => exact (h pk info hi.symm active).mono sub
  | registered _ =>
    cases hi
    cases active
  | confirmed _ hconf =>
    cases hconf with
    | app => exact .app List.mem_cons_self rfl
    | @peerInit w d m name opened body allowed =>
      have heard := Sync.heard_eq_some.mpr ⟨w, d, m, rfl, opened, rfl, body⟩
      exact .peerInit List.mem_cons_self heard allowed
    | @peerConfirm w d m name opened body =>
      have heard := Sync.heard_eq_some.mpr ⟨w, d, m, rfl, opened, rfl, body⟩
      exact (hc _ _ heard).mono sub
  | refreshed known' _ =>
    cases hi
    exact (h pk _ known' active).mono sub
  | forgotten _ => cases hi

/-- The handler of `PeerConfirm` activates whoever sent it. -/
theorem ActiveAuthorised.confirms {past : History U T S} {s : Sync T} (hs : s.KeysOk)
    {call : Call U T S} (h : ActiveAuthorised (⟨s, call⟩ :: past) (s.next call)) :
    ConfirmsAuthorised past ⟨s, call⟩ := by
  intro pk name heard
  obtain ⟨w, d, m, rfl, opened, rfl, body⟩ := Sync.heard_eq_some.mp heard
  obtain ⟨info, known⟩ := Sync.unwrap_known hs opened (by rw [body]; exact Bool.false_ne_true)
  have hl := (Sync.Confirms.peerConfirm (d := d) opened body).lookup hs known
  exact (h _ _ hl rfl).before_peerConfirm heard

variable {name : String} {keypair : Keypair} {config : PeeringConfig}
variable {past : History U T S} {s : Sync T}

/-- Activation is authorised in every state of a run exactly when no `PeerConfirm`
arrives from a known peer that was not entitled to be active before. -/
theorem activation_authorised_iff (run : NodeRun name keypair config past s) :
    Always ActiveAuthorised past s ↔ Every ConfirmsAuthorised past := by
  refine Run.exact ?_ (fun _ h => h) (fun run h _ hc => h.next (NodeRun.keysOk run) hc)
    (fun run _ _ hn h => hn (h.confirms (NodeRun.keysOk run))) run
  intro pk info known
  cases known

end

namespace Sandbox

/-- The application confirmed Bob, and Bob confirms in return. -/
def bobConfirmsBack : List (Call Bool Unit Unit) :=
  .receive (.sealed (letter bob alice (message 5 (.peerConfirm "b")))) (delivered 2 0 6 []) ::
    bobConfirmed

theorem bob_authorised :
    Always ActiveAuthorised (history anyone bobConfirmsBack) (after anyone bobConfirmsBack) := by
  refine (activation_authorised_iff (run anyone bobConfirmsBack)).mpr ⟨?_, ?_, ?_, True.intro⟩
  · intro pk name heard
    have sender : some (bob.toPubkey, Event.peerConfirm "b") = some (pk, .peerConfirm name) := heard
    cases sender
    exact .app List.mem_cons_self rfl
  · intro pk name heard
    cases heard
  · intro pk name heard
    cases heard

def noOne : PeeringConfig := ⟨.private []⟩

/-- A stranger introduces itself, and confirms the peering that nobody offered it. -/
def strangerConfirms : List (Call Bool Unit Unit) :=
  [.receive (.sealed (letter mallory alice (message 1 (.peerConfirm "m")))) (delivered 3 0 0 []),
    .receive (.init mallory.toPubkey) (delivered 3 0 0 [])]

/-- On a node that is closed to everybody the stranger is active. -/
theorem stranger_active : ∃ (past : History Bool Unit Unit) (s : Sync Unit),
    NodeRun "a" alice noOne past s ∧ ¬ ActiveAuthorised past s := by
  refine ⟨_, _, run noOne strangerConfirms, fun h => ?_⟩
  have authorised := h mallory.toPubkey ⟨⟨"m", mallory.toPubkey, (1, 3)⟩, connection 3, true, 0⟩
    (by rfl) rfl
  cases authorised with
  | peerInit hst _ allowed =>
    have closed : ∀ st ∈ history noOne strangerConfirms,
        st.pre.peeringConfig.canConfirm mallory.toPubkey = some false := by decide
    cases (closed _ hst).symm.trans allowed
  | app hst called =>
    rcases List.mem_pair.mp hst with rfl | rfl <;> cases called
  | hello _ _ _ _ hst' initiated =>
    rcases List.mem_pair.mp hst' with rfl | rfl <;> cases initiated

end Sandbox
end Tp2p
