import Tp2p.Lib.Credit
import Tp2p.Model.Sandbox
import Tp2p.Node.Records

/-! What an initiation is good for: one `Hello` on its connection. -/
namespace Tp2p
open Transition

section
variable [Sodium] {U T S : Type} [DecidableEq T]

namespace Step

/-- The step is a call of `init_comm` for this connection. -/
def initiates (c : ConnectionInfo) (st : Step U T S) : Bool :=
  match st.input with
  | .initComm addr _ =>
    match ConnectionInfo.new addr with
    | .ok c' => c' = c
    | .error _ => false
  | _ => false

variable [Rmp (Message U T S)] [Subscription S T]

/-- The step is a call of `process_event_hello` on this connection that returned actions. -/
def acceptsHello (c : ConnectionInfo) (st : Step U T S) : Bool :=
  match st.input, st.pre.heard st.input, st.result with
  | .receive _ d, some (_, .hello), .ok (_ :: _) => d.connectionInfo = c
  | _, _, _ => false

omit [Rmp (Message U T S)] [Subscription S T] in
theorem initiates_initComm {s : Sync T} {addr : String} {c : ConnectionInfo} {now : DateTime}
    (parsed : ConnectionInfo.new addr = .ok c) :
    initiates c (⟨s, .initComm addr now⟩ : Step U T S) = true := by
  simp [initiates, parsed]

/-- A `Hello` is accepted only on a pending connection, and what it calls for is done there. -/
theorem acceptsHello_effect {st : Step U T S} {c : ConnectionInfo}
    (h : st.acceptsHello c = true) : ∃ w d actions sends,
      st.input = .receive (.sealed w) d ∧ d.connectionInfo = c ∧ st.result = .ok actions ∧
      (∃ p ∈ st.pre.pendingPeerInit, p.connectionInfo = c) ∧
      Sync.Effect st.pre st.input [.setPeer (st.pre.tmpInfo w.pubkeySender c d.now),
        .unsetPendingPeer c] sends ∧
      sends = [.fresh (st.pre.tmpInfo w.pubkeySender c d.now) d.now d.nonce
        (.peerInit st.pre.name)] := by
  simp only [acceptsHello] at h
  split at h
  · next message d pk a as hi heard result =>
    obtain rfl : d.connectionInfo = c := of_decide_eq_true h
    obtain ⟨w, d', m, hi', opened, rfl, body⟩ := Sync.heard_eq_some.mp heard
    cases hi.symm.trans hi'
    by_cases pending : ∃ p ∈ st.pre.pendingPeerInit, p.connectionInfo = d.connectionInfo
    · refine ⟨w, d, a :: as, _, hi, rfl, result, pending, ?_, rfl⟩
      rw [hi]
      exact .of_event opened body (.hello pending)
    · -- a rogue `Hello` is answered with nothing
      have rogue : st.result = .ok [] := by
        rw [Step.result, hi, Sync.exec_sealed d opened]
        exact Sync.processEvent_rogueHello body fun p hp hc => pending ⟨p, hp, hc⟩
      cases result.symm.trans rogue
  · cases h

end Step

namespace Sync

theorem mem_pending_applySyncActions {s : Sync T} {as : List (SyncAction T)} {p : PendingPeer}
    (h : p ∈ (s.applySyncActions as).pendingPeerInit) :
    p ∈ s.pendingPeerInit ∨ .setPendingPeer p ∈ as := by
  induction as generalizing s with
  | nil => exact .inl h
  | cons a as ih =>
    rcases ih h with h | h
    · cases a with
      | setPendingPeer p' =>
        rw [pending_setPendingPeer] at h
        split at h
        · rcases List.mem_append.mp h with h | h
          · exact .inl h
          · cases List.mem_singleton.mp h
            exact .inr List.mem_cons_self
        · exact .inl h
      | unsetPendingPeer c =>
        rw [pending_unsetPendingPeer] at h
        exact .inl (List.mem_filter.mp h).1
      | _ => exact .inl (by simpa using h)
    · exact .inr (List.mem_cons_of_mem _ h)

variable [Rmp (Message U T S)] [Subscription S T]

/-- Only `init_comm` adds to the pending initiations. -/
theorem Effect.initiates {s : Sync T} {call : Call U T S} {as : List (SyncAction T)}
    {sends : List (Sending U T S)} (h : Effect s call as sends) {p : PendingPeer}
    (hp : .setPendingPeer p ∈ as) : Step.initiates p.connectionInfo ⟨s, call⟩ = true := by
  cases h with
  | initComm parsed =>
    cases List.mem_singleton.mp hp
    exact Step.initiates_initComm parsed
  | peerConfirm | init => cases List.mem_singleton.mp hp
  | tick =>
    simp only [List.mem_append, List.mem_map] at hp
    rcases hp with ⟨_, _, h⟩ | ⟨_, _, h⟩ <;> cases h
  | @event w d m _ _ opened effect =>
    generalize m.body = e at effect
    cases effect with
    | hello => rcases List.mem_pair.mp hp with h | h <;> cases h
    | peerInit | peerConfirm | ping | pong => cases List.mem_singleton.mp hp
    | subscribe | unsubscribe =>
      obtain ⟨_, _, h⟩ := List.mem_map.mp hp
      cases h
    | _ => cases hp

theorem mem_pending_next {s : Sync T} {call : Call U T S} {p : PendingPeer}
    (h : p ∈ (s.next call).pendingPeerInit) :
    p ∈ s.pendingPeerInit ∨ Step.initiates p.connectionInfo ⟨s, call⟩ = true := by
  rcases next_cases s call with ⟨as, sends, effect, _, hn⟩ | ⟨_, hn⟩
  · rw [hn] at h
    rcases mem_pending_applySyncActions h with h | h
    · exact .inl h
    · exact .inr (effect.initiates h)
  · rw [hn] at h
    exact .inl h

/-- An accepted `Hello` leaves nothing pending on its connection. -/
theorem not_pending_of_acceptsHello {s : Sync T} {call : Call U T S} {c : ConnectionInfo}
    (h : Step.acceptsHello c ⟨s, call⟩ = true) {p : PendingPeer}
    (hp : p ∈ (s.next call).pendingPeerInit) : p.connectionInfo ≠ c := by
  obtain ⟨w, d, actions, sends, _, _, result, _, effect, _⟩ := Step.acceptsHello_effect h
  obtain ⟨as', sends', effect', hsplit⟩ := exec_effect result
  rw [next_ok result, hsplit.1, (effect'.unique effect).1] at hp
  simp only [applySyncActions_cons, applySyncActions_nil, pending_unsetPendingPeer,
    List.mem_filter] at hp
  simpa using hp.2

end Sync

variable [Rmp (Message U T S)] [Subscription S T]
variable {name : String} {keypair : Keypair} {config : PeeringConfig}
variable {past : History U T S} {s : Sync T}

/-- Every pending initiation was made after the last `Hello` accepted on its connection. -/
theorem NodeRun.pending_unused (run : NodeRun name keypair config past s) :
    ∀ p ∈ s.pendingPeerInit, Credit.standing (Step.initiates p.connectionInfo)
      (Step.acceptsHello p.connectionInfo) past = true := by
  induction run with
  | start => exact fun _ hp => (List.not_mem_nil hp).elim
  | @step past s run call ih =>
    intro p hp
    have unused : Step.acceptsHello p.connectionInfo ⟨s, call⟩ = false := by
      rw [Bool.eq_false_iff]
      intro h
      exact Sync.not_pending_of_acceptsHello h hp rfl
    simp only [Credit.standing, unused, Bool.not_false, Bool.true_and, Bool.or_eq_true]
    exact (Sync.mem_pending_next hp).symm.imp_right (ih p)

theorem NodeRun.hellos_honest (run : NodeRun name keypair config past s) (c : ConnectionInfo) :
    Credit.Honest (Step.initiates c) (Step.acceptsHello c) past := by
  induction run with
  | start => exact True.intro
  | @step past s run call ih =>
    refine ⟨fun h => ?_, ih⟩
    obtain ⟨_, _, _, _, _, _, _, ⟨p, hp, rfl⟩, _⟩ := Step.acceptsHello_effect h
    exact NodeRun.pending_unused run p hp

/-- On every connection at most one `Hello` is accepted for an initiation, between any two
the node has initiated again, and what goes out for one goes to its connection. -/
theorem hello_uses_initiation (run : NodeRun name keypair config past s) (c : ConnectionInfo) :
    past.countP (Step.acceptsHello c) ≤ past.countP (Step.initiates c) ∧
    (∀ newer st mid st' older, past = newer ++ st :: (mid ++ st' :: older) →
      Step.acceptsHello c st = true → Step.acceptsHello c st' = true →
      ∃ st'' ∈ mid, Step.initiates c st'' = true) ∧
    ∀ newer st older, past = newer ++ st :: older → Step.acceptsHello c st = true →
      (∃ mid st' rest, older = mid ++ st' :: rest ∧ Step.initiates c st' = true ∧
        ∀ st'' ∈ mid, Step.acceptsHello c st'' = false) ∧
      ∀ actions c' w, st.result = .ok actions → .messageSend c' (.sealed w) ∈ actions → c' = c := by
  have honest := NodeRun.hellos_honest run c
  refine ⟨?_, fun newer st mid st' older hp h h' => ?_, fun newer st older hp h => ⟨?_, ?_⟩⟩
  · have := honest.countP_le
    omega
  · rw [hp] at honest
    exact honest.between h h'
  · rw [hp] at honest
    exact honest.earned h
  · intro actions c' w result hw
    obtain ⟨_, _, _, _, _, _, _, _, effect, rfl⟩ := Step.acceptsHello_effect h
    obtain ⟨x, ⟨_, _, _, _, effect', _, hx⟩, hseal⟩ := Step.exists_sends result hw
    rw [(effect'.unique effect).2] at hx
    cases List.mem_singleton.mp hx
    exact hseal.1

end

namespace Sandbox

/-- The application initiated once, and both Bob and Mallory answered. -/
def twoHellos : List (Call Bool Unit Unit) :=
  [.receive (.sealed (letter mallory alice (message 2 .hello))) (delivered 2 0 3 []),
    .receive (.sealed (letter bob alice (message 1 .hello))) (delivered 2 0 2 []),
    .initComm address 0]

/-- Only one of them was accepted. -/
theorem second_hello_not_accepted :
    (history anyone twoHellos).countP (Step.acceptsHello (connection 2)) ≤ 1 :=
  Nat.le_trans (hello_uses_initiation (run anyone twoHellos) (connection 2)).1 (by decide)

end Sandbox
end Tp2p
