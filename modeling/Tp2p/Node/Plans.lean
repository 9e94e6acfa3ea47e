import Tp2p.Lib.Snapshot
import Tp2p.Node.Tables
import Tp2p.Node.Effects

/-! What a call sets out to do, apart from the state it meets; and when two calls that meet
the same state get in each other's way. -/
namespace Tp2p
open Snapshot
variable [Sodium] {T : Type}

/-- The tables of a node as its handlers read them. -/
@[ext] structure Tables (T : Type) where
  peers : Pubkey → Option PeerInfo
  pending : List PendingPeer
  subscribers : T → List PeerInfo

/-- What a call decides: the records it sets or removes, the connections whose initiations
it removes, and what it does to the subscribers. -/
structure Change (T : Type) where
  peers : Pubkey → Option (Option PeerInfo)
  closes : ConnectionInfo → Bool
  subscribers : T → List PeerInfo → List PeerInfo

namespace Change

def nothing : Change T := ⟨fun _ => none, fun _ => false, fun _ entries => entries⟩

def set (pk : Pubkey) (info : PeerInfo) : Change T :=
  { nothing with peers := fun pk' => if pk' = pk then some (some info) else none }

def greet (info : PeerInfo) : Change T :=
  { set info.peer.pubkey info with closes := fun c => c = info.connectionInfo }

def resubscribe [DecidableEq T] (topics : List T) (change : List PeerInfo → List PeerInfo) : Change T :=
  ⟨fun _ => none, fun _ => false,
    fun topic entries => if topic ∈ topics then change entries else entries⟩

end Change

namespace Tables

def apply (t : Tables T) (c : Change T) : Tables T where
  peers pk := (c.peers pk).getD (t.peers pk)
  pending := t.pending.filter fun p => !c.closes p.connectionInfo
  subscribers topic := c.subscribers topic (t.subscribers topic)

/-- There is a pending initiation for the connection. -/
def Opened (t : Tables T) (c : ConnectionInfo) : Prop := ∃ p ∈ t.pending, p.connectionInfo = c

/-- There is one that has expired. -/
def Expires (t : Tables T) (now : DateTime) (c : ConnectionInfo) : Prop :=
  ∃ p ∈ t.pending, p.connectionInfo = c ∧ Expired now p

/-- The peer is on file and overdue. -/
def Lapsed (t : Tables T) (now : DateTime) (pk : Pubkey) : Prop :=
  ∃ info, t.peers pk = some info ∧ Overdue now info

instance (t : Tables T) (c : ConnectionInfo) : Decidable (t.Opened c) :=
  inferInstanceAs (Decidable (∃ p ∈ t.pending, p.connectionInfo = c))

instance (t : Tables T) (now : DateTime) (c : ConnectionInfo) : Decidable (t.Expires now c) :=
  inferInstanceAs (Decidable (∃ p ∈ t.pending, p.connectionInfo = c ∧ Expired now p))

theorem lapsed_congr {t t' : Tables T} {now : DateTime} {pk : Pubkey} (h : t'.peers pk = t.peers pk) :
    t'.Lapsed now pk ↔ t.Lapsed now pk := by
  rw [Lapsed, Lapsed, h]

theorem lapsed_iff {t : Tables T} {now : DateTime} {pk : Pubkey} {info : PeerInfo}
    (known : t.peers pk = some info) : t.Lapsed now pk ↔ Overdue now info := by
  constructor
  · rintro ⟨info', h, ho⟩
    cases known.symm.trans h
    exact ho
  · intro ho
    exact ⟨info, known, ho⟩

instance (t : Tables T) (now : DateTime) (pk : Pubkey) : Decidable (t.Lapsed now pk) :=
  match known : t.peers pk with
  | none => .isFalse fun ⟨_, known', _⟩ => nomatch known.symm.trans known'
  | some _ => decidable_of_iff _ (lapsed_iff known).symm

@[simp] theorem apply_nothing (t : Tables T) : t.apply .nothing = t := by
  simp [apply, Change.nothing]

theorem peers_apply (t : Tables T) (c : Change T) (pk : Pubkey) :
    (t.apply c).peers pk = (c.peers pk).getD (t.peers pk) := rfl

theorem pending_apply (t : Tables T) (c : Change T) :
    (t.apply c).pending = t.pending.filter fun p => !c.closes p.connectionInfo := rfl

theorem pending_apply_of_open {t : Tables T} {c : Change T} (h : ∀ conn, c.closes conn = false) :
    (t.apply c).pending = t.pending := by
  simp [pending_apply, h]

theorem subscribers_apply (t : Tables T) (c : Change T) (topic : T) :
    (t.apply c).subscribers topic = c.subscribers topic (t.subscribers topic) := rfl

theorem mem_pending_apply {t : Tables T} {c : Change T} {p : PendingPeer} :
    p ∈ (t.apply c).pending ↔ p ∈ t.pending ∧ c.closes p.connectionInfo = false := by
  simp [apply]

theorem opened_apply {t : Tables T} {c : Change T} {conn : ConnectionInfo} :
    (t.apply c).Opened conn ↔ t.Opened conn ∧ c.closes conn = false := by
  constructor
  · rintro ⟨p, hp, rfl⟩
    exact ⟨⟨p, (mem_pending_apply.mp hp).1, rfl⟩, (mem_pending_apply.mp hp).2⟩
  · rintro ⟨⟨p, hp, rfl⟩, hc⟩
    exact ⟨p, mem_pending_apply.mpr ⟨hp, hc⟩, rfl⟩

theorem expires_apply {t : Tables T} {c : Change T} {now : DateTime} {conn : ConnectionInfo} :
    (t.apply c).Expires now conn ↔ t.Expires now conn ∧ c.closes conn = false := by
  constructor
  · rintro ⟨p, hp, rfl, he⟩
    exact ⟨⟨p, (mem_pending_apply.mp hp).1, rfl, he⟩, (mem_pending_apply.mp hp).2⟩
  · rintro ⟨⟨p, hp, rfl, he⟩, hc⟩
    exact ⟨p, mem_pending_apply.mpr ⟨hp, hc⟩, rfl, he⟩

theorem Expires.opened {t : Tables T} {now : DateTime} {conn : ConnectionInfo}
    (h : t.Expires now conn) : t.Opened conn := by
  obtain ⟨p, hp, hc, _⟩ := h
  exact ⟨p, hp, hc⟩

end Tables

variable [DecidableEq T]

/-- The two ways in which a record is amended. -/
inductive Amendment where
  | confirm (name : String) (now : DateTime)
  | refresh (now : DateTime)

def Amendment.apply : Amendment → PeerInfo → PeerInfo
  | .confirm name now, info => info.confirmed name now
  | .refresh now, info => info.setLastPing now

/-- What a call sets out to do. -/
inductive Plan (T : Type) where
  /-- nothing that concerns the tables -/
  | idle
  /-- file a new record -/
  | register (info : PeerInfo)
  /-- file a new record and take the initiation on its connection out, if there is one -/
  | greet (info : PeerInfo)
  /-- amend the record of a peer, if there is one -/
  | amend (pk : Pubkey) (amendment : Amendment)
  /-- change the subscriptions of a peer, if it is on file -/
  | subscriptions (pk : Pubkey) (topics : List T) (change : List PeerInfo → PeerInfo → List PeerInfo)
  /-- remove what is overdue or expired -/
  | prune (now : DateTime)

/-- What it decides on these tables. -/
def Plan.decision : Plan T → Tables T → Change T
  | .idle, _ => .nothing
  | .register info, _ => .set info.peer.pubkey info
  | .greet info, t =>
    if t.Opened info.connectionInfo then .greet info else .nothing
  | .amend pk amendment, t =>
    match t.peers pk with
    | some info => .set pk (amendment.apply info)
    | none => .nothing
  | .subscriptions pk topics change, t =>
    match t.peers pk with
    | some info => .resubscribe topics (change · info)
    | none => .nothing
  | .prune now, t =>
    ⟨fun pk => if t.Lapsed now pk then some none else none, fun c => t.Expires now c,
      fun _ entries => entries⟩

/-- The second plan, decided before the first was carried out, undoes what the first one did
or does what it would no longer have done, whichever of them had come first. -/
inductive Conflict (t : Tables T) : Plan T → Plan T → Prop where
  /-- a record is amended as it was before it was set -/
  | stale {p : Plan T} {pk : Pubkey} {amendment : Amendment} {info new : PeerInfo}
      (known : t.peers pk = some info) (sets : (p.decision t).peers pk = some (some new))
      (differs : amendment.apply new ≠ amendment.apply info) : Conflict t p (.amend pk amendment)
  /-- one initiation is taken for two greetings -/
  | twice {info info' : PeerInfo} (same : info.connectionInfo = info'.connectionInfo)
      (opened : t.Opened info.connectionInfo) (other : info.peer.pubkey ≠ info'.peer.pubkey)
      (new : t.peers info.peer.pubkey ≠ some info)
      (new' : t.peers info'.peer.pubkey ≠ some info') : Conflict t (.greet info) (.greet info')
  /-- a peer is removed as overdue that has just registered -/
  | registered {p : Plan T} {info : PeerInfo} {now : DateTime}
      (registers : p = .register info ∨ p = .greet info ∧ t.Opened info.connectionInfo ∧
        ¬ t.Expires now info.connectionInfo)
      (lapsed : t.Lapsed now info.peer.pubkey) (fresh : ¬ Overdue now info) :
      Conflict t p (.prune now)
  /-- a greeting on an initiation that is about to expire leaves a record that is overdue -/
  | overdue {info : PeerInfo} {now : DateTime} (expires : t.Expires now info.connectionInfo)
      (kept : ¬ t.Lapsed now info.peer.pubkey) (overdue : Overdue now info) :
      Conflict t (.greet info) (.prune now)
  /-- a peer that was just removed is back, and would be removed again -/
  | revived {pk : Pubkey} {amendment : Amendment} {info : PeerInfo}
      {now : DateTime} (known : t.peers pk = some info) (lapsed : Overdue now info)
      (still : Overdue now (amendment.apply info)) : Conflict t (.prune now) (.amend pk amendment)
  /-- so is one that greets on an initiation that was just removed -/
  | expired {info : PeerInfo} {now : DateTime} (expires : t.Expires now info.connectionInfo)
      (overdue : Overdue now info) : Conflict t (.prune now) (.greet info)

end Tp2p
