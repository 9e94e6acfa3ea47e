import Tp2p.Node.Retention

/-! Why a peer that answers its pings is not given up on. -/
namespace Tp2p
open Transition

theorem pinged_in_time {l now p gap : Int} (h : l < p + 60 * 1000000000) (hg : now ≤ l + gap) :
    now < p + 60 * 1000000000 + gap := by
  omega

theorem fresh_of_le {l p : Int} (h : l ≤ p) : l < p + 60 * 1000000000 := by
  omega

theorem fresh_of_seconds {l p : Int} (h : ¬ 60 ≤ numSeconds (l - p)) :
    l < p + 60 * 1000000000 := by
  have hk : (60 : Int) ≤ numSeconds (l - p) ↔ 60 * 1000000000 ≤ l - p := le_numSeconds (by decide)
  omega

/-- A peer pinged that early is overdue only after the ping has waited. -/
theorem waited {now ping p gap wait : Int} (h : ping < p + 60 * 1000000000 + gap)
    (hw : now ≤ ping + wait) (fits : wait + gap ≤ 121 * 1000000000) : ¬ 180 < numSeconds (now - p) := by
  have hk : (181 : Int) ≤ numSeconds (now - p) ↔ 181 * 1000000000 ≤ now - p := le_numSeconds (by decide)
  omega

theorem not_overdue {now p gap : Int} (h : now < p + 60 * 1000000000 + gap)
    (hg : gap ≤ 121 * 1000000000) : ¬ 180 < numSeconds (now - p) := by
  have hk : (181 : Int) ≤ numSeconds (now - p) ↔ 181 * 1000000000 ≤ now - p := le_numSeconds (by decide)
  omega

section
variable [Sodium] {U T S : Type} [DecidableEq T] [Rmp (Message U T S)] [Subscription S T]

/-- The peer was heard of no later than `wait` after any ping to it that it had not answered. -/
def Answers (pk : Pubkey) (wait : Int) (past : History U T S) (st : Step U T S) : Prop :=
  ∀ newer ping older info, past = newer ++ ping :: older → Step.Pings ping info →
    info.peer.pubkey = pk → (∀ st' ∈ newer, ¬ Step.SetsPeer st' pk) →
    st.input.now ≤ ping.input.now + wait

/-- The last tick found the peer fresh, or it has been pinged since it was last heard of, less
than a minute and the gap after that. -/
def Watched (pk : Pubkey) (gap : Int) (start : DateTime) (past : History U T S) (info : PeerInfo) :
    Prop :=
  lastTick start past < info.lastPing + 60 * 1000000000 ∨
    ∃ newer ping older, past = newer ++ ping :: older ∧ Step.Pings ping info ∧
      ping.input.now < info.lastPing + 60 * 1000000000 + gap ∧ ∀ st' ∈ newer, ¬ Step.SetsPeer st' pk

variable {name : String} {keypair : Keypair} {config : PeeringConfig}
variable {past : History U T S} {s : Sync T}

/-- A ping that was not answered before is not answered by a step that does not set the peer. -/
theorem Watched.older {pk : Pubkey} {gap : Int} {start : DateTime} {info : PeerInfo} {st : Step U T S}
    (h : ∃ newer ping older, past = newer ++ ping :: older ∧ Step.Pings ping info ∧
      ping.input.now < info.lastPing + 60 * 1000000000 + gap ∧ ∀ st' ∈ newer, ¬ Step.SetsPeer st' pk)
    (unset : ¬ st.SetsPeer pk) : Watched pk gap start (st :: past) info := by
  obtain ⟨newer, ping, older, rfl, hp, early, silent⟩ := h
  exact .inr ⟨st :: newer, ping, older, rfl, hp, early, List.forall_mem_cons.mpr ⟨unset, silent⟩⟩

theorem NodeRun.watched (pings : PingsSeal U T S) (run : NodeRun name keypair config past s) {gap : Int}
    {start : DateTime} (ticking : Ticking gap start past) {pk : Pubkey} {info : PeerInfo}
    (known : s.peers.lookup pk = some info) : Watched pk gap start past info := by
  induction run with
  | start => cases known
  | @step past s run call ih =>
    by_cases hsets : Step.SetsPeer ⟨s, call⟩ pk
    · obtain ⟨info', hl, stamped⟩ := hsets.record
      cases known.symm.trans hl
      left
      rw [lastTick, stamped]
      split
      · exact fresh_of_le (Int.le_refl _)
      · exact fresh_of_le ticking.lastTick_le_now
    · have old := Step.record_of_not_sets hsets known
      rcases ih ticking.older old with fresh | pinged
      · by_cases tick : call.isTick = true
        · by_cases long : 60 ≤ numSeconds (call.now - info.lastPing)
          · -- the first tick that finds the peer silent pings it
            have due : Step.Pings ⟨s, call⟩ info :=
              Step.pings_of_due pings (NodeRun.keysOk run) tick old known long
            exact .inr ⟨[], _, past, rfl, due, pinged_in_time fresh ticking.ticks.1,
              List.forall_mem_nil _⟩
          · left
            rw [lastTick, if_pos tick]
            exact fresh_of_seconds long
        · left
          rw [lastTick, if_neg tick]
          exact fresh
      · exact .older pinged hsets

/-- If no ping to a peer goes unanswered for longer than `wait`, and the ticks leave that much time,
the node never gives up on the peer. -/
theorem answering_peer_kept (pings : PingsSeal U T S) (run : NodeRun name keypair config past s)
    {gap wait : Int} {start : DateTime} (ticking : Ticking gap start past) (early : 0 ≤ wait)
    (fits : wait + gap ≤ 121 * 1000000000) {pk : Pubkey} (answers : Every (Answers pk wait) past) :
    Every (fun _ st => (st.pre.peers.lookup pk).isSome →
      ((st.pre.next st.input).peers.lookup pk).isSome) past := by
  induction run with
  | start => exact True.intro
  | @step past s run call ih =>
    refine ⟨fun known => ?_, ih ticking.older answers.2⟩
    obtain ⟨info, hl⟩ := Option.isSome_iff_exists.mp known
    have hr := Sync.next_record (NodeRun.keysOk run) call pk
    generalize (s.next call).peers.lookup pk = r at hr ⊢
    cases hr with
    | same => exact known
    | registered | confirmed | refreshed => rfl
    | forgotten forgets =>
      cases forgets with
      | tick hl' overdue =>
        cases hl.symm.trans hl'
        exfalso
        rcases NodeRun.watched pings run ticking.older hl with
          fresh | ⟨newer, ping, older, hp, hping, hearly, silent⟩
        · exact not_overdue (pinged_in_time fresh ticking.ticks.1) (by omega) overdue.1
        · have filed : info.peer.pubkey = pk := (NodeRun.keysOk run).filed hl
          exact waited hearly (answers.1 newer ping older info hp hping filed silent) fits overdue.1

end

namespace Sandbox

/-- Mallory knocks and is pinged once, and has not had a minute yet to answer. -/
def malloryPinged : List (Call Bool Unit Unit) :=
  [.tick .stored (2 * minute) (fun _ => 2), .tick .stored minute (fun _ => 1),
    .receive (.init mallory.toPubkey) (delivered 3 0 0 [])]

theorem mallory_kept : Every (fun _ st => (st.pre.peers.lookup mallory.toPubkey).isSome →
    ((st.pre.next st.input).peers.lookup mallory.toPubkey).isSome) (history anyone malloryPinged) := by
  have ticking : Ticking minute 0 (history anyone malloryPinged) := by
    refine ⟨?_, ?_, by decide, by decide, by decide, True.intro⟩
    · simp [history, trail, malloryPinged, Call.now, minute, delivered]
    · simp [history, trail, malloryPinged, Call.now, minute, delivered]
  -- only the ticks ping, and none of them is more than a minute ago
  have recent : ∀ (past : History Bool Unit Unit) (st : Step Bool Unit Unit),
      (∀ ping ∈ past, ping.input.isTick = true → st.input.now ≤ ping.input.now + minute) →
      Answers mallory.toPubkey minute past st := by
    intro past st h newer ping older info hp hping _ _
    obtain ⟨_, _, _, _, _, hcall, _⟩ := hping
    apply h ping
    · rw [hp]
      simp
    · rw [hcall]
      rfl
  have answers : Every (Answers mallory.toPubkey minute) (history anyone malloryPinged) := by
    refine ⟨recent _ _ ?_, recent _ _ ?_, recent _ _ ?_, True.intro⟩ <;>
      simp [trail, Call.isTick, Call.now, minute]
  exact answering_peer_kept pingsSeal (run anyone malloryPinged) ticking (by decide) (by decide) answers

end Sandbox
end Tp2p
