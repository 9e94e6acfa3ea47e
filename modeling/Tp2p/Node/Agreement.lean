import Tp2p.Model.Sandbox
import Tp2p.Node.Records

/-! The table of subscriptions holds copies of the records of the peers. When the
copies are true ones. -/
namespace Tp2p
open Transition

section
variable [Sodium]

namespace Sync
variable {U T S : Type} [DecidableEq T] [Rmp (Message U T S)] [Subscription S T]

/-- Every entry is of a known peer, and names the connection on which it is known. -/
def TablesAgree (s : Sync T) : Prop :=
  ∀ t, ∀ e ∈ s.subscribers t, ∃ info, s.peers.lookup e.peer.pubkey = some info ∧
    info.connectionInfo = e.connectionInfo

/-- A peer that has an entry is neither registered on another connection nor forgotten. -/
structure SubscribersStay (s : Sync T) (call : Call U T S) : Prop where
  registered : ∀ {pk c now}, Registers s call pk c now →
    ∀ t, ∀ e ∈ s.subscribers t, e.peer.pubkey = pk → e.connectionInfo = c
  forgotten : ∀ {pk}, Forgets s call pk → ∀ t, ∀ e ∈ s.subscribers t, e.peer.pubkey ≠ pk

theorem TablesAgree.next {s : Sync T} (hs : KeysOk s) (ha : TablesAgree s) {call : Call U T S}
    (stay : SubscribersStay s call) : TablesAgree (s.next call) := by
  intro t e he
  rcases mem_subscribers_next hs he with he | ⟨pk, known, hp⟩
  · obtain ⟨info, known, hc⟩ := ha t e he
    have hr := next_record hs call e.peer.pubkey
    generalize (s.next call).peers.lookup e.peer.pubkey = r at hr
    cases hr with
    | same => exact ⟨info, known, hc⟩
    | registered h => exact ⟨_, rfl, (stay.registered h t e he rfl).symm⟩
    | confirmed known' _ =>
      cases known.symm.trans known'
      exact ⟨_, rfl, hc⟩
    | refreshed known' _ =>
      cases known.symm.trans known'
      exact ⟨_, rfl, hc⟩
    | forgotten h => exact absurd rfl (stay.forgotten h t e he)
  · exact ⟨e, by rw [hp, hs.filed known]; exact known, rfl⟩

theorem TablesAgree.stay {s : Sync T} (hs : KeysOk s) {call : Call U T S}
    (ha : TablesAgree (s.next call)) : SubscribersStay s call := by
  constructor
  · rintro pk c now h t e he rfl
    obtain ⟨info, hl, hc⟩ := ha t e (by rw [h.quiet.subscribers]; exact he)
    cases h.lookup.symm.trans hl
    exact hc.symm
  · rintro pk h t e he rfl
    obtain ⟨info, hl, _⟩ := ha t e (by rw [h.quiet.subscribers]; exact he)
    cases (h.lookup hs).symm.trans hl

end Sync

variable {U T S : Type} [DecidableEq T] [Rmp (Message U T S)] [Subscription S T]
variable {name : String} {keypair : Keypair} {config : PeeringConfig}
variable {past : History U T S} {s : Sync T}

/-- The tables agree in every state of a run exactly when no peer is moved or
forgotten while it has an entry. -/
theorem tables_agree_iff (run : NodeRun name keypair config past s) :
    Always (fun _ s => s.TablesAgree) past s ↔
      Every (fun _ st => st.pre.SubscribersStay st.input) past := by
  refine Run.exact (fun t e he => ?_) (fun _ h => h) (fun run ha _ => ha.next (NodeRun.keysOk run))
    (fun run _ _ hn ha => hn (ha.stay (NodeRun.keysOk run))) run
  cases he

end

namespace Sandbox

/-- Bob subscribed to the only topic there is. -/
def bobSubscribed : List (Call Bool Unit Unit) :=
  .receive (.sealed (letter bob alice (message 5 (.subscribe [()])))) (delivered 2 0 6 []) ::
    bobConfirmed

/-- The tables agree as long as Bob does not move. -/
theorem bob_in_both_tables :
    Always (fun _ s => s.TablesAgree) (history anyone bobSubscribed) (after anyone bobSubscribed) :=
  (tables_agree_iff (run anyone bobSubscribed)).mpr
    ⟨⟨fun _ _ _ he => (List.not_mem_nil he).elim, fun _ _ _ he => (List.not_mem_nil he).elim⟩,
      ⟨fun _ _ _ he => (List.not_mem_nil he).elim, fun _ _ _ he => (List.not_mem_nil he).elim⟩,
      ⟨fun _ _ _ he => (List.not_mem_nil he).elim, fun _ _ _ he => (List.not_mem_nil he).elim⟩,
      True.intro⟩

/-- Bob comes back on another connection, and is still published to at the old one. -/
theorem reconnect_leaves_old_entry : ∃ (past : History Bool Unit Unit) (s : Sync Unit),
    NodeRun "a" alice anyone past s ∧ ¬ s.TablesAgree := by
  refine ⟨_, _, run anyone (.receive (.init bob.toPubkey) (delivered 4 0 7 []) :: bobSubscribed), ?_⟩
  intro h
  obtain ⟨info, known, hc⟩ := h () ⟨⟨"b", bob.toPubkey, (1, 2)⟩, connection 2, true, 0⟩ (by decide)
  cases known.symm.trans (by rfl : _ = some ⟨⟨"<tmp>", bob.toPubkey, (1, 2)⟩, connection 4, false, 0⟩)
  exact absurd hc (by decide)

end Sandbox
end Tp2p
