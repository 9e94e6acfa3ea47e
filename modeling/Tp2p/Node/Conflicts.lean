import Tp2p.Node.Plans

/-! Two plans that met the same tables leave what one of the two orders leaves, except
in a conflict. -/
namespace Tp2p
open Snapshot
variable [Sodium] {T : Type} [DecidableEq T] {t t' : Tables T} {p q : Plan T}

namespace Plan

/-! What is decided -/

theorem decision_greet_congr {info : PeerInfo}
    (h : t'.Opened info.connectionInfo ↔ t.Opened info.connectionInfo) :
    (Plan.greet info : Plan T).decision t' = (Plan.greet info).decision t :=
  if_congr h rfl rfl

theorem decision_amend {pk : Pubkey} {amendment : Amendment} {info : PeerInfo}
    (known : t.peers pk = some info) :
    (Plan.amend pk amendment : Plan T).decision t = .set pk (amendment.apply info) := by
  simp only [decision, known]

theorem decision_amend_congr {pk : Pubkey} {amendment : Amendment} (h : t'.peers pk = t.peers pk) :
    (Plan.amend pk amendment : Plan T).decision t' = (Plan.amend pk amendment).decision t := by
  simp only [decision, h]

/-- Whatever is decided is decided by the peers and the pending initiations. -/
theorem decision_congr (p : Plan T) (peers : t'.peers = t.peers) (pending : t'.pending = t.pending) :
    p.decision t' = p.decision t := by
  obtain ⟨_, _, subscribers⟩ := t'
  cases peers
  cases pending
  cases p with
  | idle | register | prune => rfl
  | greet info => exact decision_greet_congr .rfl
  | amend pk amendment => exact decision_amend_congr rfl
  | subscriptions pk topics change => rfl

/-- A connection that was left alone is closed as it would have been. -/
theorem closes_after (q : Plan T) {c : Change T} {p : PendingPeer} (hp : p ∈ (t.apply c).pending) :
    (q.decision (t.apply c)).closes p.connectionInfo = (q.decision t).closes p.connectionInfo := by
  obtain ⟨mem, kept⟩ := Tables.mem_pending_apply.mp hp
  cases q with
  | idle | register => rfl
  | greet info =>
    by_cases hc : p.connectionInfo = info.connectionInfo
    · have h : (t.apply c).Opened info.connectionInfo ↔ t.Opened info.connectionInfo := by
        rw [Tables.opened_apply, ← hc, kept, and_iff_left rfl]
      rw [decision_greet_congr h]
    · have h : ∀ t' : Tables T, ((Plan.greet info).decision t').closes p.connectionInfo = false := by
        intro t'
        simp only [decision]
        split
        · exact decide_eq_false hc
        · rfl
      rw [h, h]
  | amend pk amendment =>
    simp only [decision]
    split <;> split <;> rfl
  | subscriptions pk topics change =>
    simp only [decision]
    split <;> split <;> rfl
  | prune now =>
    apply decide_eq_decide.mpr
    rw [Tables.expires_apply, kept, and_iff_left rfl]

/-- The pending initiations are the same whatever the order. -/
theorem pending_serial : (serial Tables.apply p.decision q.decision t).pending =
    (both Tables.apply p.decision q.decision t).pending := by
  apply List.filter_congr
  intro x hx
  rw [closes_after q hx]

theorem pending_swap : (serial Tables.apply q.decision p.decision t).pending =
    (both Tables.apply p.decision q.decision t).pending := by
  rw [pending_serial]
  exact List.filter_comm ..

/-- The plan is not about subscriptions. -/
inductive Silent : Plan T → Prop where
  | idle : Silent .idle
  | register {info : PeerInfo} : Silent (.register info)
  | greet {info : PeerInfo} : Silent (.greet info)
  | amend {pk : Pubkey} {amendment : Amendment} : Silent (.amend pk amendment)
  | prune {now : DateTime} : Silent (.prune now)

theorem Silent.apply (hp : p.Silent) (t t' : Tables T) :
    (t.apply (p.decision t')).subscribers = t.subscribers := by
  cases hp with
  | idle | register | prune => rfl
  | greet | amend =>
    simp only [decision]
    split <;> rfl

theorem both_eq_serial_of_peers (hq : q.Silent)
    (h : ∀ pk, (both Tables.apply p.decision q.decision t).peers pk =
      (serial Tables.apply p.decision q.decision t).peers pk) :
    both Tables.apply p.decision q.decision t = serial Tables.apply p.decision q.decision t := by
  apply Tables.ext (funext h) pending_serial.symm
  rw [both, serial, hq.apply, hq.apply]

theorem both_eq_swap_of_peers (hp : p.Silent) (hq : q.Silent)
    (h : ∀ pk, (both Tables.apply p.decision q.decision t).peers pk =
      (serial Tables.apply q.decision p.decision t).peers pk) :
    both Tables.apply p.decision q.decision t = serial Tables.apply q.decision p.decision t := by
  apply Tables.ext (funext h) pending_swap.symm
  rw [both, serial, hq.apply, hp.apply, hp.apply, hq.apply]

/-! The record of a peer once the decision is carried out -/

theorem peers_register (info : PeerInfo) (t t' : Tables T) (pk : Pubkey) :
    (t.apply ((Plan.register info).decision t')).peers pk =
      if pk = info.peer.pubkey then some info else t.peers pk := by
  simp only [decision, Change.set, Tables.apply]
  split <;> rfl

theorem peers_greet {info : PeerInfo} {t' : Tables T} (opened : t'.Opened info.connectionInfo)
    (t : Tables T) (pk : Pubkey) : (t.apply ((Plan.greet info).decision t')).peers pk =
      if pk = info.peer.pubkey then some info else t.peers pk := by
  simp only [decision, if_pos opened, Change.greet, Change.set, Tables.apply]
  split <;> rfl

theorem apply_greet_of_not_opened {info : PeerInfo} {t' : Tables T}
    (h : ¬ t'.Opened info.connectionInfo) (t : Tables T) :
    t.apply ((Plan.greet info).decision t') = t := by
  rw [decision, if_neg h, Tables.apply_nothing]

theorem peers_amend {pk : Pubkey} {amendment : Amendment} {info : PeerInfo} {t' : Tables T}
    (known : t'.peers pk = some info) (t : Tables T) (pk' : Pubkey) :
    (t.apply ((Plan.amend pk amendment).decision t')).peers pk' =
      if pk' = pk then some (amendment.apply info) else t.peers pk' := by
  simp only [decision_amend known, Change.set, Tables.apply]
  split <;> rfl

theorem apply_amend_of_unknown {pk : Pubkey} {amendment : Amendment} {t' : Tables T}
    (unknown : t'.peers pk = none) (t : Tables T) :
    t.apply ((Plan.amend pk amendment).decision t') = t := by
  simp only [decision, unknown, Tables.apply_nothing]

theorem peers_prune (now : DateTime) (t t' : Tables T) (pk : Pubkey) :
    (t.apply ((Plan.prune now).decision t')).peers pk =
      if t'.Lapsed now pk then none else t.peers pk := by
  simp only [decision, Tables.apply]
  split <;> rfl

/-! Without a conflict there is an order that leaves the same -/

theorem not_opened_greet {info info' : PeerInfo} (opened : t.Opened info'.connectionInfo)
    (same : info.connectionInfo = info'.connectionInfo) :
    ¬ (t.apply ((Plan.greet info').decision t)).Opened info.connectionInfo := by
  rw [Tables.opened_apply, decision, if_pos opened]
  simp [Change.greet, same]

theorem not_opened_prune {now : DateTime} {c : ConnectionInfo}
    (expires : t.Expires now c) :
    ¬ (t.apply ((Plan.prune now).decision t)).Opened c := by
  rw [Tables.opened_apply]
  simp [decision, expires]

/-- Two greetings on one connection. -/
theorem greet_greet {info info' : PeerInfo} (opened : t.Opened info.connectionInfo)
    (same : info.connectionInfo = info'.connectionInfo)
    (h : ¬ Conflict t (.greet info) (.greet info')) :
    Serializable Tables.apply (Plan.greet info).decision (Plan.greet info').decision t := by
  have opened' : t.Opened info'.connectionInfo := same ▸ opened
  have swap (hp : info.peer.pubkey = info'.peer.pubkey ∨ t.peers info.peer.pubkey = some info) :
      both Tables.apply (Plan.greet info).decision (Plan.greet info').decision t =
        serial Tables.apply (Plan.greet info').decision (Plan.greet info).decision t := by
    apply both_eq_swap_of_peers .greet .greet
    intro pk
    rw [both, serial, apply_greet_of_not_opened (not_opened_greet opened' same),
      peers_greet opened', peers_greet opened, peers_greet opened']
    by_cases hk' : pk = info'.peer.pubkey
    · rw [if_pos hk', if_pos hk']
    · rw [if_neg hk', if_neg hk']
      by_cases hk : pk = info.peer.pubkey
      · subst hk
        rw [if_pos rfl, hp.resolve_left hk']
      · rw [if_neg hk]
  by_cases new : t.peers info.peer.pubkey = some info
  · exact .inr (swap (.inr new))
  · by_cases other : info.peer.pubkey = info'.peer.pubkey
    · exact .inr (swap (.inl other))
    · by_cases new' : t.peers info'.peer.pubkey = some info'
      · left
        apply both_eq_serial_of_peers .greet
        intro pk
        rw [both, serial, apply_greet_of_not_opened (not_opened_greet opened same.symm),
          peers_greet opened', peers_greet opened]
        by_cases hk' : pk = info'.peer.pubkey
        · subst hk'
          rw [if_pos rfl, if_neg (Ne.symm other), new']
        · rw [if_neg hk']
      · exact absurd (.twice same opened other new new') h

/-- A record that is set, and would not be removed, stands in either order. -/
theorem prune_then_set {pk : Pubkey} {new : PeerInfo} {now : DateTime}
    (hq : q.Silent) (sets : ∀ (t' : Tables T) pk', (t'.apply (q.decision t)).peers pk' =
      if pk' = pk then some new else t'.peers pk') (fresh : ¬ Overdue now new) :
    both Tables.apply (Plan.prune now).decision q.decision t =
      serial Tables.apply q.decision (Plan.prune now).decision t := by
  apply both_eq_swap_of_peers .prune hq
  intro pk'
  rw [both, serial, sets, peers_prune, peers_prune, sets]
  by_cases hk : pk' = pk
  · subst hk
    have known : (t.apply (q.decision t)).peers pk' = some new := by
      rw [sets, if_pos rfl]
    rw [if_pos rfl, if_neg ((Tables.lapsed_iff known).not.mpr fresh), if_pos rfl]
  · have same : (t.apply (q.decision t)).Lapsed now pk' ↔ t.Lapsed now pk' :=
      Tables.lapsed_congr (by rw [sets, if_neg hk])
    rw [if_neg hk, if_neg hk]
    exact if_congr same.symm rfl rfl

theorem greet_serial {info : PeerInfo} (h : ¬ Conflict t p (.greet info)) :
    Serializable Tables.apply p.decision (Plan.greet info).decision t := by
  by_cases opened : t.Opened info.connectionInfo
  · by_cases hc : (p.decision t).closes info.connectionInfo = false
    · left
      apply both_eq_serial
      apply decision_greet_congr
      rw [Tables.opened_apply, hc, and_iff_left rfl]
    · cases p with
      | idle | register => exact absurd rfl hc
      | amend | subscriptions =>
        refine absurd ?_ hc
        simp only [decision]
        split <;> rfl
      | greet info' =>
        by_cases opened' : t.Opened info'.connectionInfo
        · rw [decision, if_pos opened'] at hc
          have same : info.connectionInfo = info'.connectionInfo := by
            simpa [Change.greet] using hc
          exact greet_greet opened' same.symm h
        · rw [decision, if_neg opened'] at hc
          exact absurd rfl hc
      | prune now =>
        have expires : t.Expires now info.connectionInfo := by simpa [decision] using hc
        exact .inr (prune_then_set .greet (peers_greet opened) fun ho => h (.expired expires ho))
  · exact .inr (both_eq_serial_of_idle (apply_greet_of_not_opened opened))

/-- Only a tick forgets. -/
theorem forgets {pk : Pubkey} (h : (p.decision t).peers pk = some none) :
    ∃ now, p = .prune now ∧ t.Lapsed now pk := by
  cases p with
  | prune now =>
    by_cases lapsed : t.Lapsed now pk
    · exact ⟨now, rfl, lapsed⟩
    · simp [decision, lapsed] at h
  | idle => cases h
  | register info =>
    simp only [decision, Change.set] at h
    split at h <;> cases h
  | greet info =>
    simp only [decision] at h
    split at h
    · simp only [Change.greet, Change.set] at h
      split at h <;> cases h
    · cases h
  | amend pk' amendment =>
    simp only [decision] at h
    split at h
    · simp only [Change.set] at h
      split at h <;> cases h
    · cases h
  | subscriptions pk' topics change =>
    simp only [decision] at h
    split at h <;> cases h

theorem amend_serial {pk : Pubkey} {amendment : Amendment}
    (h : ¬ Conflict t p (.amend pk amendment)) :
    Serializable Tables.apply p.decision (Plan.amend pk amendment).decision t := by
  cases known : t.peers pk with
  | none => exact .inr (both_eq_serial_of_idle (apply_amend_of_unknown known))
  | some info =>
    cases hp : (p.decision t).peers pk with
    | none =>
      left
      apply both_eq_serial
      apply decision_amend_congr
      rw [Tables.peers_apply, hp, Option.getD_none]
    | some record =>
      cases record with
      | none =>
        obtain ⟨now, rfl, lapsed⟩ := forgets hp
        have overdue : Overdue now info := (Tables.lapsed_iff known).mp lapsed
        exact .inr (prune_then_set .amend (peers_amend known) fun ho => h (.revived known overdue ho))
      | some new =>
        left
        apply both_eq_serial
        have known' : (t.apply (p.decision t)).peers pk = some new := by
          rw [Tables.peers_apply, hp, Option.getD_some]
        have same : amendment.apply new = amendment.apply info :=
          not_ne_iff.mp fun differs => h (.stale known hp differs)
        rw [decision_amend known', decision_amend known, same]

theorem subscriptions_frame (pk : Pubkey) (topics : List T)
    (change : List PeerInfo → PeerInfo → List PeerInfo) (t t' : Tables T) :
    (t.apply ((Plan.subscriptions pk topics change).decision t')).peers = t.peers ∧
      (t.apply ((Plan.subscriptions pk topics change).decision t')).pending = t.pending := by
  simp only [decision]
  split
  · simp [Tables.apply, Change.resubscribe]
  · simp [Tables.apply, Change.nothing]

theorem subscriptions_serial (p : Plan T) (pk : Pubkey) (topics : List T)
    (change : List PeerInfo → PeerInfo → List PeerInfo) :
    Serializable Tables.apply p.decision (Plan.subscriptions pk topics change).decision t := by
  have frame := subscriptions_frame pk topics change
  have swap (hp : p.Silent) :
      Serializable Tables.apply p.decision (Plan.subscriptions pk topics change).decision t := by
    right
    apply both_eq_serial_swap (decision_congr p (frame t t).1 (frame t t).2)
    apply Tables.ext
    · rw [(frame ..).1]
      funext pk'
      rw [Tables.peers_apply, Tables.peers_apply, (frame ..).1]
    · rw [(frame ..).2, Tables.pending_apply, Tables.pending_apply, (frame ..).2]
    · rw [hp.apply]
      funext topic
      rw [Tables.subscribers_apply, hp.apply, Tables.subscribers_apply]
  cases p with
  | subscriptions pk' topics' change' =>
    have frame' := subscriptions_frame pk' topics' change' t t
    exact .inl (both_eq_serial (decision_congr _ frame'.1 frame'.2))
  | idle => exact swap .idle
  | register => exact swap .register
  | greet => exact swap .greet
  | amend => exact swap .amend
  | prune => exact swap .prune

/-- A record filed before the removals stands or falls as the old one did. -/
theorem file_then_prune {info : PeerInfo} {now : DateTime}
    (files : ∀ pk, (t.apply (p.decision t)).peers pk =
      if pk = info.peer.pubkey then some info else t.peers pk)
    (h : t.Lapsed now info.peer.pubkey ↔ Overdue now info) :
    both Tables.apply p.decision (Plan.prune now).decision t =
      serial Tables.apply p.decision (Plan.prune now).decision t := by
  apply both_eq_serial_of_peers .prune
  intro pk
  rw [both, serial, peers_prune, peers_prune]
  apply if_congr _ rfl rfl
  by_cases hk : pk = info.peer.pubkey
  · subst hk
    rw [h, Tables.lapsed_iff (by rw [files, if_pos rfl])]
  · exact (Tables.lapsed_congr (by rw [files, if_neg hk])).symm

/-- A record filed after the removals replaces one that stood. -/
theorem prune_then_file {info : PeerInfo} {now : DateTime}
    (hp : p.Silent) (files : ∀ t', t' = t ∨ t' = t.apply ((Plan.prune now).decision t) →
      ∀ pk, (t'.apply (p.decision t')).peers pk =
        if pk = info.peer.pubkey then some info else t'.peers pk)
    (kept : ¬ t.Lapsed now info.peer.pubkey) :
    both Tables.apply p.decision (Plan.prune now).decision t =
      serial Tables.apply (Plan.prune now).decision p.decision t := by
  apply both_eq_swap_of_peers hp .prune
  intro pk
  rw [both, serial, peers_prune, files _ (.inl rfl), files _ (.inr rfl), peers_prune]
  by_cases hk : pk = info.peer.pubkey
  · rw [if_pos hk, if_pos hk, hk, if_neg kept]
  · rw [if_neg hk, if_neg hk]

theorem opened_prune {now : DateTime} {c : ConnectionInfo}
    (opened : t.Opened c) (expires : ¬ t.Expires now c) :
    (t.apply ((Plan.prune now).decision t)).Opened c := by
  rw [Tables.opened_apply]
  exact ⟨opened, decide_eq_false expires⟩

theorem register_prune {info : PeerInfo} {now : DateTime}
    (h : ¬ Conflict t (.register info) (.prune now)) :
    Serializable Tables.apply (Plan.register info).decision (Plan.prune now).decision t := by
  have files : ∀ (t' : Tables T) pk, (t'.apply ((Plan.register info).decision t')).peers pk =
      if pk = info.peer.pubkey then some info else t'.peers pk :=
    fun t' pk => peers_register info t' t' pk
  by_cases lapsed : t.Lapsed now info.peer.pubkey
  · by_cases overdue : Overdue now info
    · exact .inl (file_then_prune (files t) (iff_of_true lapsed overdue))
    · exact absurd (.registered (.inl rfl) lapsed overdue) h
  · exact .inr (prune_then_file .register (fun t' _ => files t') lapsed)

/-- A greeting on an initiation that expires meanwhile comes too late for a lapsed peer. -/
theorem greet_prune_of_expires {info : PeerInfo} {now : DateTime}
    (expires : t.Expires now info.connectionInfo)
    (h : ¬ Conflict t (.greet info) (.prune now)) :
    Serializable Tables.apply (Plan.greet info).decision (Plan.prune now).decision t := by
  have files := peers_greet expires.opened t
  by_cases lapsed : t.Lapsed now info.peer.pubkey
  · right
    apply both_eq_swap_of_peers .greet .prune
    intro pk
    rw [both, serial, apply_greet_of_not_opened (not_opened_prune expires), peers_prune,
      peers_prune, files]
    by_cases hk : pk = info.peer.pubkey
    · rw [hk, if_pos lapsed, if_pos lapsed]
    · rw [if_neg hk]
  · by_cases overdue : Overdue now info
    · exact absurd (.overdue expires lapsed overdue) h
    · exact .inl (file_then_prune files (iff_of_false lapsed overdue))

theorem greet_prune {info : PeerInfo} {now : DateTime}
    (h : ¬ Conflict t (.greet info) (.prune now)) :
    Serializable Tables.apply (Plan.greet info).decision (Plan.prune now).decision t := by
  by_cases opened : t.Opened info.connectionInfo
  · by_cases expires : t.Expires now info.connectionInfo
    · exact greet_prune_of_expires expires h
    · by_cases lapsed : t.Lapsed now info.peer.pubkey
      · by_cases overdue : Overdue now info
        · exact .inl (file_then_prune (peers_greet opened t) (iff_of_true lapsed overdue))
        · exact absurd (.registered (.inr ⟨rfl, opened, expires⟩) lapsed overdue) h
      · right
        apply prune_then_file .greet _ lapsed
        rintro t' (rfl | rfl)
        · exact peers_greet opened t'
        · exact peers_greet (opened_prune opened expires) _
  · left
    apply both_eq_serial
    rw [apply_greet_of_not_opened opened]

/-- A lapsed peer is removed whether its record was amended or not. -/
theorem amend_prune (pk : Pubkey) (amendment : Amendment) (now : DateTime) :
    Serializable Tables.apply (Plan.amend pk amendment).decision (Plan.prune now).decision t := by
  cases known : t.peers pk with
  | none =>
    left
    apply both_eq_serial
    rw [apply_amend_of_unknown known]
  | some info =>
    right
    apply both_eq_swap_of_peers .amend .prune
    intro pk'
    rw [both, serial, peers_prune, peers_amend known]
    by_cases lapsed : t.Lapsed now pk
    · have gone : (t.apply ((Plan.prune now).decision t)).peers pk = none := by
        rw [peers_prune, if_pos lapsed]
      rw [apply_amend_of_unknown gone, peers_prune]
      by_cases hk : pk' = pk
      · rw [hk, if_pos lapsed, if_pos lapsed]
      · rw [if_neg hk]
    · have kept : (t.apply ((Plan.prune now).decision t)).peers pk = some info := by
        rw [peers_prune, if_neg lapsed, known]
      rw [peers_amend kept, peers_prune]
      by_cases hk : pk' = pk
      · rw [if_pos hk, if_pos hk, hk, if_neg lapsed]
      · rw [if_neg hk, if_neg hk]

theorem prune_prune (now now' : DateTime) :
    Serializable Tables.apply (Plan.prune now').decision (Plan.prune now).decision t := by
  left
  apply both_eq_serial_of_peers .prune
  intro pk
  rw [both, serial, peers_prune now, peers_prune now]
  by_cases lapsed : t.Lapsed now' pk
  · have gone : (t.apply ((Plan.prune now').decision t)).peers pk = none := by
      rw [peers_prune, if_pos lapsed]
    rw [gone, ite_self, ite_self]
  · have same : (t.apply ((Plan.prune now').decision t)).Lapsed now pk ↔ t.Lapsed now pk :=
      Tables.lapsed_congr (by rw [peers_prune, if_neg lapsed])
    exact if_congr same.symm rfl rfl

theorem prune_serial {now : DateTime} (h : ¬ Conflict t p (.prune now)) :
    Serializable Tables.apply p.decision (Plan.prune now).decision t := by
  cases p with
  | idle =>
    left
    apply both_eq_serial
    rw [decision, Tables.apply_nothing]
  | register => exact register_prune h
  | greet => exact greet_prune h
  | amend pk amendment => exact amend_prune pk amendment now
  | subscriptions pk topics change =>
    have frame := subscriptions_frame pk topics change t t
    exact .inl (both_eq_serial (decision_congr _ frame.1 frame.2))
  | prune now' => exact prune_prune now now'

theorem serializable_of_not_conflict (h : ¬ Conflict t p q) :
    Serializable Tables.apply p.decision q.decision t := by
  cases q with
  | idle | register => exact .inl (both_eq_serial rfl)
  | greet => exact greet_serial h
  | amend => exact amend_serial h
  | subscriptions pk topics change => exact subscriptions_serial p pk topics change
  | prune => exact prune_serial h

end Plan

/-! In a conflict no order does -/

namespace Amendment

theorem idem (a : Amendment) (info : PeerInfo) : a.apply (a.apply info) = a.apply info := by
  cases a <;> rfl

/-- An amendment covers what another one did between. -/
theorem absorb (a b : Amendment) (info : PeerInfo) :
    a.apply (b.apply (a.apply info)) = a.apply (b.apply info) := by
  cases a <;> cases b <;> rfl

end Amendment

namespace Conflict
open Plan

/-- What sets a record sets it after an amendment too. -/
theorem sets_after {pk : Pubkey} {amendment : Amendment} {info new : PeerInfo}
    (known : t.peers pk = some info) (sets : (p.decision t).peers pk = some (some new)) :
    (serial Tables.apply (Plan.amend pk amendment).decision p.decision t).peers pk = some new ∨
      ∃ amendment' : Amendment, new = amendment'.apply info ∧
        (serial Tables.apply (Plan.amend pk amendment).decision p.decision t).peers pk =
          some (amendment'.apply (amendment.apply info)) := by
  rw [serial, decision_amend known]
  cases p with
  | idle => cases sets
  | register info' => exact .inl (congrArg (Option.getD · _) sets)
  | greet info' =>
    left
    have opened : (t.apply (.set pk (amendment.apply info))).Opened info'.connectionInfo ↔
        t.Opened info'.connectionInfo := Tables.opened_apply.trans (and_iff_left rfl)
    rw [Tables.peers_apply, decision_greet_congr opened, sets, Option.getD_some]
  | amend pk' amendment' =>
    right
    refine ⟨amendment', ?_⟩
    by_cases hk : pk = pk'
    · subst hk
      have known' : (t.apply (.set pk (amendment.apply info))).peers pk =
          some (amendment.apply info) := by
        simp [Tables.peers_apply, Change.set]
      rw [decision_amend known] at sets
      rw [peers_amend known', if_pos rfl]
      simpa [Change.set, eq_comm] using sets
    · simp only [Plan.decision] at sets
      split at sets
      · simp [Change.set, hk] at sets
      · cases sets
  | subscriptions pk' topics change =>
    simp only [Plan.decision] at sets
    split at sets <;> cases sets
  | prune now =>
    simp only [Plan.decision] at sets
    split at sets <;> cases sets

/-- Neither order leaves the same peers. -/
structure Differs (t : Tables T) (p q : Plan T) : Prop where
  forth : ∃ pk, (both Tables.apply p.decision q.decision t).peers pk ≠
    (serial Tables.apply p.decision q.decision t).peers pk
  back : ∃ pk, (both Tables.apply p.decision q.decision t).peers pk ≠
    (serial Tables.apply q.decision p.decision t).peers pk

theorem differs_of_stale {pk : Pubkey} {amendment : Amendment} {info new : PeerInfo}
    (known : t.peers pk = some info) (sets : (p.decision t).peers pk = some (some new))
    (differs : amendment.apply new ≠ amendment.apply info) :
    Differs t p (.amend pk amendment) := by
  have left : (both Tables.apply p.decision (Plan.amend pk amendment).decision t).peers pk =
      some (amendment.apply info) := by
    rw [both, peers_amend known, if_pos rfl]
  refine ⟨⟨pk, ?_⟩, ⟨pk, ?_⟩⟩
  · have known' : (t.apply (p.decision t)).peers pk = some new := by
      rw [Tables.peers_apply, sets, Option.getD_some]
    rw [left, serial, peers_amend known', if_pos rfl]
    exact fun h => differs (Option.some.inj h).symm
  · rw [left]
    intro h
    apply differs
    rcases sets_after known sets with h' | ⟨amendment', rfl, h'⟩
    · have hn : amendment.apply info = new := Option.some.inj (h.trans h')
      rw [← hn, Amendment.idem]
    · have hn : amendment.apply info = amendment'.apply (amendment.apply info) :=
        Option.some.inj (h.trans h')
      rw [← Amendment.absorb, ← hn, Amendment.idem]

theorem differs_of_twice {info info' : PeerInfo}
    (same : info.connectionInfo = info'.connectionInfo) (opened : t.Opened info.connectionInfo)
    (other : info.peer.pubkey ≠ info'.peer.pubkey) (new : t.peers info.peer.pubkey ≠ some info)
    (new' : t.peers info'.peer.pubkey ≠ some info') : Differs t (.greet info) (.greet info') := by
  have opened' : t.Opened info'.connectionInfo := same ▸ opened
  refine ⟨⟨info'.peer.pubkey, ?_⟩, ⟨info.peer.pubkey, ?_⟩⟩
  · rw [both, serial, apply_greet_of_not_opened (not_opened_greet opened same.symm),
      peers_greet opened', if_pos rfl, peers_greet opened, if_neg (Ne.symm other)]
    exact Ne.symm new'
  · rw [both, serial, apply_greet_of_not_opened (not_opened_greet opened' same),
      peers_greet opened', if_neg other, peers_greet opened, if_pos rfl,
      peers_greet opened', if_neg other]
    exact Ne.symm new

theorem differs_of_registered {info : PeerInfo} {now : DateTime}
    (registers : p = .register info ∨ p = .greet info ∧ t.Opened info.connectionInfo ∧
      ¬ t.Expires now info.connectionInfo)
    (lapsed : t.Lapsed now info.peer.pubkey) (fresh : ¬ Overdue now info) :
    Differs t p (.prune now) := by
  have left : (both Tables.apply p.decision (Plan.prune now).decision t).peers
      info.peer.pubkey = none := by
    rw [both, peers_prune, if_pos lapsed]
  refine ⟨⟨info.peer.pubkey, ?_⟩, ⟨info.peer.pubkey, ?_⟩⟩
  · have filed : (t.apply (p.decision t)).peers info.peer.pubkey = some info := by
      rcases registers with rfl | ⟨rfl, opened, _⟩
      · rw [peers_register, if_pos rfl]
      · rw [peers_greet opened, if_pos rfl]
    rw [left, serial, peers_prune, if_neg ((Tables.lapsed_iff filed).not.mpr fresh), filed]
    exact Ne.symm (Option.some_ne_none info)
  · rw [left, serial]
    rcases registers with rfl | ⟨rfl, opened, expires⟩
    · rw [peers_register, if_pos rfl]
      exact Ne.symm (Option.some_ne_none info)
    · rw [peers_greet (opened_prune opened expires), if_pos rfl]
      exact Ne.symm (Option.some_ne_none info)

theorem differs_of_overdue {info : PeerInfo} {now : DateTime}
    (expires : t.Expires now info.connectionInfo) (kept : ¬ t.Lapsed now info.peer.pubkey)
    (overdue : Overdue now info) : Differs t (.greet info) (.prune now) := by
  have filed : (t.apply ((Plan.greet info).decision t)).peers info.peer.pubkey = some info := by
    rw [peers_greet expires.opened, if_pos rfl]
  refine ⟨⟨info.peer.pubkey, ?_⟩, ⟨info.peer.pubkey, ?_⟩⟩
  · rw [both, serial, peers_prune, if_neg kept, filed, peers_prune,
      if_pos ((Tables.lapsed_iff filed).mpr overdue)]
    exact Option.some_ne_none info
  · rw [both, serial, peers_prune, if_neg kept, filed,
      apply_greet_of_not_opened (not_opened_prune expires), peers_prune, if_neg kept]
    exact fun known => kept ⟨info, known.symm, overdue⟩

theorem differs_of_revived {pk : Pubkey} {amendment : Amendment} {info : PeerInfo}
    {now : DateTime} (known : t.peers pk = some info)
    (lapsed : Overdue now info) (still : Overdue now (amendment.apply info)) :
    Differs t (.prune now) (.amend pk amendment) := by
  have amended : (t.apply ((Plan.amend pk amendment).decision t)).peers pk =
      some (amendment.apply info) := by
    rw [peers_amend known, if_pos rfl]
  have gone : (t.apply ((Plan.prune now).decision t)).peers pk = none := by
    rw [peers_prune, if_pos ⟨info, known, lapsed⟩]
  refine ⟨⟨pk, ?_⟩, ⟨pk, ?_⟩⟩
  · rw [both, serial, peers_amend known, if_pos rfl, apply_amend_of_unknown gone, gone]
    exact Option.some_ne_none _
  · rw [both, serial, peers_amend known, if_pos rfl, peers_prune,
      if_pos ((Tables.lapsed_iff amended).mpr still)]
    exact Option.some_ne_none _

theorem differs_of_expired {info : PeerInfo} {now : DateTime}
    (expires : t.Expires now info.connectionInfo) (overdue : Overdue now info) :
    Differs t (.prune now) (.greet info) := by
  have opened : t.Opened info.connectionInfo := expires.opened
  have filed : (t.apply ((Plan.greet info).decision t)).peers info.peer.pubkey = some info := by
    rw [peers_greet opened, if_pos rfl]
  refine ⟨⟨info.peer.pubkey, ?_⟩, ⟨info.peer.pubkey, ?_⟩⟩
  · rw [both, serial, peers_greet opened, if_pos rfl,
      apply_greet_of_not_opened (not_opened_prune expires), peers_prune]
    split
    · exact Option.some_ne_none info
    · next kept => exact fun known => kept ⟨info, known.symm, overdue⟩
  · rw [both, serial, peers_greet opened, if_pos rfl, peers_prune,
      if_pos ((Tables.lapsed_iff filed).mpr overdue)]
    exact Option.some_ne_none info

theorem differs (h : Conflict t p q) : Differs t p q := by
  cases h with
  | stale known sets differs => exact differs_of_stale known sets differs
  | twice same opened other new new' => exact differs_of_twice same opened other new new'
  | registered registers lapsed fresh => exact differs_of_registered registers lapsed fresh
  | overdue expires kept overdue => exact differs_of_overdue expires kept overdue
  | revived known lapsed still => exact differs_of_revived known lapsed still
  | expired expires overdue => exact differs_of_expired expires overdue

end Conflict

/-- The conflicts are exact. -/
theorem Plan.serializable_iff (p q : Plan T) (t : Tables T) :
    Serializable Tables.apply p.decision q.decision t ↔ ¬ Conflict t p q := by
  constructor
  · rintro (same | same) h
    · obtain ⟨pk, hne⟩ := h.differs.forth
      exact hne (by rw [same])
    · obtain ⟨pk, hne⟩ := h.differs.back
      exact hne (by rw [same])
  · exact Plan.serializable_of_not_conflict

end Tp2p
