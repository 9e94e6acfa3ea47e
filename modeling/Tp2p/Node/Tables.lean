import Tp2p.Model.Node

/-! The three tables of a node as its handlers observe them, and what each
`SyncAction` does to what is observed. -/
namespace Tp2p
variable [Sodium]

/-- The subscribers of a topic once `info` subscribes: an entry with the same peer stays. -/
def addSubscriber (entries : List PeerInfo) (info : PeerInfo) : List PeerInfo :=
  if (entries.find? (·.peer == info.peer)).isSome then entries else entries ++ [info]

/-- The subscribers of a topic once the entries of `peer` are gone. -/
def dropSubscriber (entries : List PeerInfo) (peer : Peer) : List PeerInfo :=
  entries.filter (·.peer != peer)

theorem mem_addSubscriber {entries : List PeerInfo} {info e : PeerInfo}
    (h : e ∈ addSubscriber entries info) : e ∈ entries ∨ e = info := by
  unfold addSubscriber at h
  split at h
  · exact .inl h
  · simpa using h

theorem subset_addSubscriber (entries : List PeerInfo) (info : PeerInfo) :
    entries ⊆ addSubscriber entries info := by
  unfold addSubscriber
  split
  · exact fun _ h => h
  · exact List.subset_append_left _ _

theorem exists_mem_addSubscriber (entries : List PeerInfo) (info : PeerInfo) :
    ∃ e ∈ addSubscriber entries info, e.peer = info.peer := by
  unfold addSubscriber
  split
  · next h => simpa using h
  · exact ⟨info, by simp, rfl⟩

theorem addSubscriber_idem (entries : List PeerInfo) (info : PeerInfo) :
    addSubscriber (addSubscriber entries info) info = addSubscriber entries info := by
  have h : ((addSubscriber entries info).find? (·.peer == info.peer)).isSome := by
    simpa using exists_mem_addSubscriber entries info
  rw [addSubscriber, if_pos h]

/-- A new subscriber says nothing about the others. -/
theorem exists_addSubscriber_iff {entries : List PeerInfo} {info : PeerInfo} (P : Peer → Prop)
    (other : ¬ P info.peer) :
    (∃ e ∈ addSubscriber entries info, P e.peer) ↔ ∃ e ∈ entries, P e.peer := by
  constructor
  · rintro ⟨e, he, hp⟩
    rcases mem_addSubscriber he with he | rfl
    · exact ⟨e, he, hp⟩
    · exact absurd hp other
  · rintro ⟨e, he, hp⟩
    exact ⟨e, subset_addSubscriber _ _ he, hp⟩

theorem mem_dropSubscriber {entries : List PeerInfo} {peer : Peer} {e : PeerInfo} :
    e ∈ dropSubscriber entries peer ↔ e ∈ entries ∧ e.peer ≠ peer := by
  simp [dropSubscriber]

/-- Nor does one that leaves. -/
theorem exists_dropSubscriber_iff {entries : List PeerInfo} {peer : Peer} (P : Peer → Prop)
    (other : ¬ P peer) :
    (∃ e ∈ dropSubscriber entries peer, P e.peer) ↔ ∃ e ∈ entries, P e.peer := by
  constructor
  · rintro ⟨e, he, hp⟩
    exact ⟨e, (mem_dropSubscriber.mp he).1, hp⟩
  · rintro ⟨e, he, hp⟩
    refine ⟨e, mem_dropSubscriber.mpr ⟨he, ?_⟩, hp⟩
    rintro rfl
    exact other hp

theorem dropSubscriber_idem (entries : List PeerInfo) (peer : Peer) :
    dropSubscriber (dropSubscriber entries peer) peer = dropSubscriber entries peer := by
  simp [dropSubscriber]

namespace Sync
variable {U T S : Type} [DecidableEq T]

@[simp] theorem findPeer_none (s : Sync T) (pk : Pubkey) :
    s.findPeer pk none = s.peers.lookup pk := by
  cases h : s.peers.lookup pk <;> simp [findPeer, h]

theorem findPendingPeerInit_isSome {s : Sync T} {c : ConnectionInfo} :
    (s.findPendingPeerInit c).isSome ↔ ∃ p ∈ s.pendingPeerInit, p.connectionInfo = c := by
  simp [findPendingPeerInit]

/-- The entries of a topic; a topic without a list has none. -/
def subscribers (s : Sync T) (t : T) : List PeerInfo := (s.subscriptions.lookup t).getD []

theorem isPeerSubscribedToTopic_iff {s : Sync T} {t : T} {peer : Peer} :
    s.isPeerSubscribedToTopic t peer ↔ ∃ e ∈ s.subscribers t, e.peer = peer := by
  cases h : s.subscriptions.lookup t <;> simp [isPeerSubscribedToTopic, subscribers, h]

/-- What never changes: the configuration, the name and the keys of a node. -/
structure SameSelf (s s' : Sync T) : Prop where
  peeringConfig : s'.peeringConfig = s.peeringConfig
  name : s'.name = s.name
  keypair : s'.keypair = s.keypair

theorem SameSelf.refl (s : Sync T) : SameSelf s s := ⟨rfl, rfl, rfl⟩

theorem SameSelf.trans {s s' s'' : Sync T} (h : SameSelf s s') (h' : SameSelf s' s'') :
    SameSelf s s'' :=
  ⟨h'.peeringConfig.trans h.peeringConfig, h'.name.trans h.name, h'.keypair.trans h.keypair⟩

theorem applySyncAction_sameSelf (s : Sync T) (a : SyncAction T) :
    SameSelf s (s.applySyncAction a) := by
  cases a with
  | setPendingPeer p =>
    simp only [applySyncAction]
    split <;> exact ⟨rfl, rfl, rfl⟩
  | unsetSubscription t info =>
    simp only [applySyncAction]
    split
    · split <;> exact ⟨rfl, rfl, rfl⟩
    · exact .refl s
  | _ => exact ⟨rfl, rfl, rfl⟩

theorem applySyncActions_sameSelf (s : Sync T) (as : List (SyncAction T)) :
    SameSelf s (s.applySyncActions as) := by
  induction as generalizing s with
  | nil => exact .refl s
  | cons a as ih => exact (applySyncAction_sameSelf s a).trans (ih _)

@[simp] theorem applySyncActions_nil (s : Sync T) : s.applySyncActions [] = s := rfl

@[simp] theorem applySyncActions_cons (s : Sync T) (a : SyncAction T) (as : List (SyncAction T)) :
    s.applySyncActions (a :: as) = (s.applySyncAction a).applySyncActions as := rfl

theorem applySyncActions_append (s : Sync T) (as bs : List (SyncAction T)) :
    s.applySyncActions (as ++ bs) = (s.applySyncActions as).applySyncActions bs := by
  simp [applySyncActions]

/-! What each action does to the peers -/

theorem lookup_setPeer (s : Sync T) (info : PeerInfo) (pk : Pubkey) :
    (s.applySyncAction (.setPeer info)).peers.lookup pk =
      if pk = info.peer.pubkey then some info else s.peers.lookup pk :=
  HashMap.lookup_insert s.peers info.peer.pubkey pk info

theorem lookup_unsetPeer (s : Sync T) (pk pk' : Pubkey) :
    (s.applySyncAction (.unsetPeer pk)).peers.lookup pk' =
      if pk' = pk then none else s.peers.lookup pk' :=
  HashMap.lookup_erase s.peers pk pk'

@[simp] theorem peers_setPendingPeer (s : Sync T) (p : PendingPeer) :
    (s.applySyncAction (.setPendingPeer p)).peers = s.peers := by
  simp only [applySyncAction]
  split <;> rfl

@[simp] theorem peers_unsetPendingPeer (s : Sync T) (c : ConnectionInfo) :
    (s.applySyncAction (.unsetPendingPeer c)).peers = s.peers := rfl

@[simp] theorem peers_setSubscription (s : Sync T) (t : T) (info : PeerInfo) :
    (s.applySyncAction (.setSubscription t info)).peers = s.peers := rfl

@[simp] theorem peers_unsetSubscription (s : Sync T) (t : T) (info : PeerInfo) :
    (s.applySyncAction (.unsetSubscription t info)).peers = s.peers := by
  simp only [applySyncAction]
  split
  · split <;> rfl
  · rfl

/-! What each action does to the pending initiations -/

@[simp] theorem pending_setPeer (s : Sync T) (info : PeerInfo) :
    (s.applySyncAction (.setPeer info)).pendingPeerInit = s.pendingPeerInit := rfl

@[simp] theorem pending_unsetPeer (s : Sync T) (pk : Pubkey) :
    (s.applySyncAction (.unsetPeer pk)).pendingPeerInit = s.pendingPeerInit := rfl

theorem pending_setPendingPeer (s : Sync T) (p : PendingPeer) :
    (s.applySyncAction (.setPendingPeer p)).pendingPeerInit =
      if (s.findPendingPeerInit p.connectionInfo).isNone then s.pendingPeerInit ++ [p]
      else s.pendingPeerInit := by
  simp only [applySyncAction]
  split <;> rfl

theorem pending_unsetPendingPeer (s : Sync T) (c : ConnectionInfo) :
    (s.applySyncAction (.unsetPendingPeer c)).pendingPeerInit =
      s.pendingPeerInit.filter (fun p => !(p.connectionInfo == c)) := rfl

@[simp] theorem pending_setSubscription (s : Sync T) (t : T) (info : PeerInfo) :
    (s.applySyncAction (.setSubscription t info)).pendingPeerInit = s.pendingPeerInit := rfl

@[simp] theorem pending_unsetSubscription (s : Sync T) (t : T) (info : PeerInfo) :
    (s.applySyncAction (.unsetSubscription t info)).pendingPeerInit = s.pendingPeerInit := by
  simp only [applySyncAction]
  split
  · split <;> rfl
  · rfl

/-! What each action does to the subscribers -/

@[simp] theorem subscribers_setPeer (s : Sync T) (info : PeerInfo) :
    (s.applySyncAction (.setPeer info)).subscribers = s.subscribers := rfl

@[simp] theorem subscribers_unsetPeer (s : Sync T) (pk : Pubkey) :
    (s.applySyncAction (.unsetPeer pk)).subscribers = s.subscribers := rfl

@[simp] theorem subscribers_setPendingPeer (s : Sync T) (p : PendingPeer) :
    (s.applySyncAction (.setPendingPeer p)).subscribers = s.subscribers := by
  simp only [applySyncAction]
  split <;> rfl

@[simp] theorem subscribers_unsetPendingPeer (s : Sync T) (c : ConnectionInfo) :
    (s.applySyncAction (.unsetPendingPeer c)).subscribers = s.subscribers := rfl

theorem subscribers_setSubscription (s : Sync T) (t t' : T) (info : PeerInfo) :
    (s.applySyncAction (.setSubscription t info)).subscribers t' =
      if t' = t then addSubscriber (s.subscribers t) info else s.subscribers t' := by
  simp only [applySyncAction, subscribers, HashMap.lookup_insert]
  split
  · simp [addSubscriber]
  · rfl

theorem subscribers_unsetSubscription (s : Sync T) (t t' : T) (info : PeerInfo) :
    (s.applySyncAction (.unsetSubscription t info)).subscribers t' =
      if t' = t then dropSubscriber (s.subscribers t) info.peer else s.subscribers t' := by
  cases h : s.subscriptions.lookup t with
  | none =>
    simp only [applySyncAction, h]
    split
    · next he => subst he; simp [subscribers, h, dropSubscriber]
    · rfl
  | some peers =>
    simp only [applySyncAction, h]
    split
    · next he =>
      have hd : dropSubscriber peers info.peer = [] := List.length_eq_zero_iff.mp he
      simp only [subscribers, HashMap.lookup_erase, h, Option.getD_some, hd]
      split <;> rfl
    · simp only [subscribers, HashMap.lookup_insert, h, Option.getD_some]
      split <;> rfl

/-! Runs of actions of one kind -/

theorem subscribers_setSubscriptions (s : Sync T) (topics : List T) (info : PeerInfo) (t : T) :
    (s.applySyncActions (topics.map (SyncAction.setSubscription · info))).subscribers t =
      if t ∈ topics then addSubscriber (s.subscribers t) info else s.subscribers t := by
  induction topics generalizing s with
  | nil => simp
  | cons t' topics ih =>
    simp only [List.map_cons, applySyncActions_cons, ih, subscribers_setSubscription]
    by_cases h : t = t'
    · subst h
      simp [addSubscriber_idem]
    · simp [h]

theorem subscribers_unsetSubscriptions (s : Sync T) (topics : List T) (info : PeerInfo) (t : T) :
    (s.applySyncActions (topics.map (SyncAction.unsetSubscription · info))).subscribers t =
      if t ∈ topics then dropSubscriber (s.subscribers t) info.peer else s.subscribers t := by
  induction topics generalizing s with
  | nil => simp
  | cons t' topics ih =>
    simp only [List.map_cons, applySyncActions_cons, ih, subscribers_unsetSubscription]
    by_cases h : t = t'
    · subst h
      simp [dropSubscriber_idem]
    · simp [h]

theorem peers_of_subscriptions (s : Sync T) (topics : List T) (info : PeerInfo) :
    (s.applySyncActions (topics.map (SyncAction.setSubscription · info))).peers = s.peers ∧
      (s.applySyncActions (topics.map (SyncAction.unsetSubscription · info))).peers = s.peers := by
  constructor
  · induction topics generalizing s with
    | nil => rfl
    | cons t topics ih => simp [ih]
  · induction topics generalizing s with
    | nil => rfl
    | cons t topics ih => simp [ih]

theorem pending_of_subscriptions (s : Sync T) (topics : List T) (info : PeerInfo) :
    (s.applySyncActions (topics.map (SyncAction.setSubscription · info))).pendingPeerInit =
        s.pendingPeerInit ∧
      (s.applySyncActions (topics.map (SyncAction.unsetSubscription · info))).pendingPeerInit =
        s.pendingPeerInit := by
  constructor
  · induction topics generalizing s with
    | nil => rfl
    | cons t topics ih => simp [ih]
  · induction topics generalizing s with
    | nil => rfl
    | cons t topics ih => simp [ih]

/-! Removals, in whatever order -/

/-- The action removes a peer or a pending initiation. -/
def Unsets : SyncAction T → Prop
  | .unsetPeer _ | .unsetPendingPeer _ => True
  | _ => False

theorem lookup_of_unsets {s : Sync T} {as : List (SyncAction T)} (h : ∀ a ∈ as, Unsets a)
    (pk : Pubkey) : (s.applySyncActions as).peers.lookup pk =
      if .unsetPeer pk ∈ as then none else s.peers.lookup pk := by
  induction as generalizing s with
  | nil => rfl
  | cons a as ih =>
    rw [applySyncActions_cons, ih fun b hb => h b (List.mem_cons_of_mem _ hb)]
    cases a with
    | unsetPeer pk' =>
      rw [lookup_unsetPeer]
      by_cases hp : pk = pk' <;> simp [hp]
    | unsetPendingPeer c => simp
    | _ => exact absurd (h _ List.mem_cons_self) id

theorem pending_of_unsets {s : Sync T} {as : List (SyncAction T)} (h : ∀ a ∈ as, Unsets a) :
    (s.applySyncActions as).pendingPeerInit =
      s.pendingPeerInit.filter fun p => .unsetPendingPeer p.connectionInfo ∉ as := by
  induction as generalizing s with
  | nil => simp
  | cons a as ih =>
    rw [applySyncActions_cons, ih fun b hb => h b (List.mem_cons_of_mem _ hb)]
    cases a with
    | unsetPeer pk => simp
    | unsetPendingPeer c =>
      rw [pending_unsetPendingPeer, List.filter_filter]
      apply List.filter_congr
      intro p _
      by_cases hp : p.connectionInfo = c <;> simp [hp]
    | _ => exact absurd (h _ List.mem_cons_self) id

theorem subscriptions_of_unsets {s : Sync T} {as : List (SyncAction T)} (h : ∀ a ∈ as, Unsets a) :
    (s.applySyncActions as).subscriptions = s.subscriptions := by
  induction as generalizing s with
  | nil => rfl
  | cons a as ih =>
    rw [applySyncActions_cons, ih fun b hb => h b (List.mem_cons_of_mem _ hb)]
    cases a with
    | unsetPeer | unsetPendingPeer => rfl
    | _ => exact absurd (h _ List.mem_cons_self) id

theorem subscribers_of_unsets {s : Sync T} {as : List (SyncAction T)} (h : ∀ a ∈ as, Unsets a) :
    (s.applySyncActions as).subscribers = s.subscribers := by
  funext t
  rw [subscribers, subscriptions_of_unsets h, subscribers]

end Sync
end Tp2p
