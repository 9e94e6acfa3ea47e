import Tp2p.Model.Sandbox
import Tp2p.Node.Records

/-! Subscriptions against the last word of each peer. Entries are matched by the
whole peer, its name included, while a peer is known by its public key. -/
namespace Tp2p
open Transition

section
variable [Sodium] {U T S : Type} [DecidableEq T] [Rmp (Message U T S)] [Subscription S T]

/-- Whether the last `Subscribe` or `Unsubscribe` of `pk` that concerned `t` was a `Subscribe`. -/
def lastWord : History U T S → Pubkey → T → Bool
  | [], _, _ => false
  | st :: past, pk, t =>
    match st.pre.heard st.input with
    | some (pk', .subscribe subscriptions) =>
      if pk' = pk ∧ t ∈ Sync.verified subscriptions then true else lastWord past pk t
    | some (pk', .unsubscribe topics) =>
      if pk' = pk ∧ t ∈ topics then false else lastWord past pk t
    | _ => lastWord past pk t

theorem lastWord_subscribe {past : History U T S} {st : Step U T S} {pk : Pubkey}
    {subscriptions : List S} (h : st.pre.heard st.input = some (pk, .subscribe subscriptions))
    (pk' : Pubkey) (t : T) : lastWord (st :: past) pk' t =
      if pk = pk' ∧ t ∈ Sync.verified subscriptions then true else lastWord past pk' t := by
  simp only [lastWord, h]

theorem lastWord_unsubscribe {past : History U T S} {st : Step U T S} {pk : Pubkey}
    {topics : List T} (h : st.pre.heard st.input = some (pk, .unsubscribe topics))
    (pk' : Pubkey) (t : T) : lastWord (st :: past) pk' t =
      if pk = pk' ∧ t ∈ topics then false else lastWord past pk' t := by
  simp only [lastWord, h]

theorem lastWord_quiet {past : History U T S} {st : Step U T S}
    (quiet : st.pre.Quiet st.input) (pk : Pubkey) (t : T) :
    lastWord (st :: past) pk t = lastWord past pk t := by
  simp only [lastWord]
  split
  · next h => cases quiet _ _ h
  · next h => cases quiet _ _ h
  · rfl

namespace Sync

/-- The table says of every known peer what its last word was, and lists nobody twice. -/
structure FollowsLastWord (past : History U T S) (s : Sync T) : Prop where
  word : ∀ pk info, s.peers.lookup pk = some info →
    ∀ t, s.isPeerSubscribedToTopic t info.peer = lastWord past pk t
  once : ∀ t, ((s.subscribers t).map (·.peer.pubkey)).Nodup

/-- A peer that has an entry is neither registered nor confirmed under another name. -/
structure SubscribersKeepName (s : Sync T) (call : Call U T S) : Prop where
  registered : ∀ {pk c now}, Registers s call pk c now →
    ∀ t, ∀ e ∈ s.subscribers t, e.peer.pubkey = pk → e.peer.name = "<tmp>"
  confirmed : ∀ {pk name now}, Confirms s call pk name now →
    ∀ t, ∀ e ∈ s.subscribers t, e.peer.pubkey = pk → e.peer.name = name

/-- The invariant that carries the property: every entry holds the current peer. -/
structure EntriesCurrent (past : History U T S) (s : Sync T) : Prop where
  current : ∀ {t e}, e ∈ s.subscribers t →
    ∃ info, s.peers.lookup e.peer.pubkey = some info ∧ e.peer = info.peer
  once : ∀ t, ((s.subscribers t).map (·.peer.pubkey)).Nodup
  word : ∀ pk t, (∃ e ∈ s.subscribers t, e.peer.pubkey = pk) ↔ lastWord past pk t = true

theorem EntriesCurrent.subscribed_iff {past : History U T S} {s : Sync T} (hs : KeysOk s)
    (h : EntriesCurrent past s) {pk : Pubkey} {info : PeerInfo}
    (known : s.peers.lookup pk = some info) (t : T) :
    s.isPeerSubscribedToTopic t info.peer = true ↔ ∃ e ∈ s.subscribers t, e.peer.pubkey = pk := by
  rw [isPeerSubscribedToTopic_iff]
  constructor
  · rintro ⟨e, he, hp⟩
    exact ⟨e, he, by rw [hp]; exact hs.filed known⟩
  · rintro ⟨e, he, rfl⟩
    obtain ⟨info', known', hp⟩ := h.current he
    cases known.symm.trans known'
    exact ⟨e, he, hp⟩

theorem EntriesCurrent.follows {past : History U T S} {s : Sync T} (hs : KeysOk s)
    (h : EntriesCurrent past s) : FollowsLastWord past s := by
  refine ⟨fun pk info known t => ?_, h.once⟩
  rw [Bool.eq_iff_iff, h.subscribed_iff hs known, h.word]

theorem nodup_addSubscriber {entries : List PeerInfo} {info : PeerInfo}
    (once : (entries.map (·.peer.pubkey)).Nodup)
    (current : ∀ e ∈ entries, e.peer.pubkey = info.peer.pubkey → e.peer = info.peer) :
    ((addSubscriber entries info).map (·.peer.pubkey)).Nodup := by
  unfold addSubscriber
  split
  · exact once
  · next h =>
    simp only [List.find?_isSome, beq_iff_eq, not_exists, not_and] at h
    rw [List.map_append, List.nodup_append]
    refine ⟨once, by simp, ?_⟩
    rintro pk hpk _ hin rfl
    obtain ⟨e, he, hp⟩ := List.mem_map.mp hpk
    cases List.mem_singleton.mp hin
    exact h e he (current e he hp)

theorem EntriesCurrent.next_subscribe {past : History U T S} {s : Sync T} (hs : KeysOk s)
    (h : EntriesCurrent past s) {call : Call U T S} {pk : Pubkey} {subscriptions : List S}
    (heard : s.heard call = some (pk, .subscribe subscriptions)) :
    EntriesCurrent (⟨s, call⟩ :: past) (s.next call) := by
  obtain ⟨info, known, hp, hn⟩ := next_of_subscribe hs heard
  have filed := hs.filed known
  have hcur : ∀ t, ∀ e ∈ s.subscribers t, e.peer.pubkey = pk → e.peer = info.peer := by
    rintro t e he rfl
    obtain ⟨info', known', hp'⟩ := h.current he
    cases known.symm.trans known'
    exact hp'
  refine ⟨fun {t e} he => ?_, fun t => ?_, fun pk' t => ?_⟩
  · rw [hp]
    rw [hn] at he
    split at he
    · rcases mem_addSubscriber he with he | rfl
      · exact h.current he
      · exact ⟨e, by rw [filed]; exact known, rfl⟩
    · exact h.current he
  · rw [hn]
    split
    · exact nodup_addSubscriber (h.once t) fun e he hpk => hcur t e he (hpk.trans filed)
    · exact h.once t
  · rw [lastWord_subscribe heard, hn]
    by_cases ht : t ∈ verified subscriptions
    · by_cases hpk : pk = pk'
      · subst hpk
        obtain ⟨e, he, hpe⟩ := exists_mem_addSubscriber (s.subscribers t) info
        simp only [ht, if_true, and_self, iff_true]
        exact ⟨e, he, by rw [hpe]; exact filed⟩
      · simp only [ht, if_true, hpk, false_and, if_false]
        rw [← h.word]
        exact exists_addSubscriber_iff (·.pubkey = pk') fun hp => hpk (filed.symm.trans hp)
    · simp only [ht, if_false, and_false]
      exact h.word pk' t

theorem EntriesCurrent.next_unsubscribe {past : History U T S} {s : Sync T} (hs : KeysOk s)
    (h : EntriesCurrent past s) {call : Call U T S} {pk : Pubkey} {topics : List T}
    (heard : s.heard call = some (pk, .unsubscribe topics)) :
    EntriesCurrent (⟨s, call⟩ :: past) (s.next call) := by
  obtain ⟨info, known, hp, hn⟩ := next_of_unsubscribe hs heard
  have filed := hs.filed known
  refine ⟨fun {t e} he => ?_, fun t => ?_, fun pk' t => ?_⟩
  · rw [hp]
    rw [hn] at he
    split at he
    · exact h.current (mem_dropSubscriber.mp he).1
    · exact h.current he
  · rw [hn]
    split
    · exact (h.once t).sublist (List.filter_sublist.map _)
    · exact h.once t
  · rw [lastWord_unsubscribe heard, hn]
    by_cases ht : t ∈ topics
    · by_cases hpk : pk = pk'
      · subst hpk
        simp only [ht, if_true, and_self, Bool.false_eq_true, iff_false]
        rintro ⟨e, he, rfl⟩
        obtain ⟨he, hne⟩ := mem_dropSubscriber.mp he
        obtain ⟨info', known', hp'⟩ := h.current he
        cases known.symm.trans known'
        exact hne hp'
      · simp only [ht, if_true, hpk, false_and, if_false]
        rw [← h.word]
        exact exists_dropSubscriber_iff (·.pubkey = pk') fun hp => hpk (filed.symm.trans hp)
    · simp only [ht, if_false, and_false]
      exact h.word pk' t

theorem EntriesCurrent.next_quiet {past : History U T S} {s : Sync T} (hs : KeysOk s)
    (h : EntriesCurrent past s) {call : Call U T S} (quiet : Quiet s call)
    (kept : ∀ pk, ¬ Forgets s call pk) (keep : SubscribersKeepName s call) :
    EntriesCurrent (⟨s, call⟩ :: past) (s.next call) := by
  refine ⟨fun {t e} he => ?_, by rw [quiet.subscribers]; exact h.once, fun pk t => ?_⟩
  · rw [quiet.subscribers] at he
    obtain ⟨info, known, hp⟩ := h.current he
    have hr := next_record hs call e.peer.pubkey
    generalize (s.next call).peers.lookup e.peer.pubkey = r at hr
    cases hr with
    | same => exact ⟨info, known, hp⟩
    | registered hreg =>
      refine ⟨_, rfl, hp.trans ?_⟩
      rw [hs.peer_eq known, ← hp, keep.registered hreg t e he rfl]
      rfl
    | confirmed known' hconf =>
      cases known.symm.trans known'
      refine ⟨_, rfl, hp.trans ?_⟩
      rw [← keep.confirmed hconf t e he rfl, hp]
      rfl
    | refreshed known' _ =>
      cases known.symm.trans known'
      exact ⟨_, rfl, hp⟩
    | forgotten hf => exact absurd hf (kept _)
  · rw [quiet.subscribers, lastWord_quiet quiet]
    exact h.word pk t

theorem EntriesCurrent.next {past : History U T S} {s : Sync T} (hs : KeysOk s)
    (h : EntriesCurrent past s) {call : Call U T S} (kept : ∀ pk, ¬ Forgets s call pk)
    (keep : SubscribersKeepName s call) : EntriesCurrent (⟨s, call⟩ :: past) (s.next call) := by
  rcases quiet_cases s call with ⟨_, _, heard⟩ | ⟨_, _, heard⟩ | quiet
  · exact h.next_subscribe hs heard
  · exact h.next_unsubscribe hs heard
  · exact h.next_quiet hs quiet kept keep

/-- A rename loses the entries under the old name. -/
theorem EntriesCurrent.not_follows {past : History U T S} {s : Sync T} (hs : KeysOk s)
    (h : EntriesCurrent past s) {call : Call U T S} (quiet : Quiet s call) {t : T} {e : PeerInfo}
    (he : e ∈ s.subscribers t) {info' : PeerInfo}
    (known' : (s.next call).peers.lookup e.peer.pubkey = some info')
    (renamed : e.peer.name ≠ info'.peer.name) :
    ¬ FollowsLastWord (⟨s, call⟩ :: past) (s.next call) := by
  intro hf
  have said : lastWord past e.peer.pubkey t = true := (h.word _ t).mp ⟨e, he, rfl⟩
  have found := hf.word e.peer.pubkey info' known' t
  rw [lastWord_quiet quiet, said, isPeerSubscribedToTopic_iff, quiet.subscribers] at found
  obtain ⟨e', he', hp'⟩ := found
  obtain ⟨info, known, hp⟩ := h.current he
  obtain ⟨info₁, known₁, hp₁⟩ := h.current he'
  rw [hp', (next_keysOk hs call).filed known'] at known₁
  cases known.symm.trans known₁
  exact renamed (by rw [hp, ← hp₁, hp'])

theorem EntriesCurrent.keep {past : History U T S} {s : Sync T} (hs : KeysOk s)
    (h : EntriesCurrent past s) {call : Call U T S}
    (hf : FollowsLastWord (⟨s, call⟩ :: past) (s.next call)) : SubscribersKeepName s call := by
  constructor
  · rintro pk c now hreg t e he rfl
    by_contra renamed
    exact h.not_follows hs hreg.quiet he hreg.lookup renamed hf
  · rintro pk name now hconf t e he rfl
    by_contra renamed
    obtain ⟨info, known, _⟩ := h.current he
    exact h.not_follows hs hconf.quiet he (hconf.lookup hs known) renamed hf

end Sync

variable {name : String} {keypair : Keypair} {config : PeeringConfig}
variable {past : History U T S} {s : Sync T}

/-- As long as `tick` forgets nobody, the table follows the last word of every
peer exactly when nobody is renamed while it has an entry. -/
theorem last_word_followed_iff (run : NodeRun name keypair config past s)
    (kept : Every (fun _ st => ∀ pk, ¬ st.pre.Forgets st.input pk) past) :
    Always Sync.FollowsLastWord past s ↔
      Every (fun _ st => st.pre.SubscribersKeepName st.input) past := by
  refine Run.exact_under (Q := Sync.EntriesCurrent) ?_ (fun run h => h.follows (NodeRun.keysOk run))
    (fun run h _ kept keep => h.next (NodeRun.keysOk run) kept keep)
    (fun run h _ _ hn hf => hn (h.keep (NodeRun.keysOk run) hf)) run kept
  refine ⟨(fun he => nomatch he), fun _ => List.nodup_nil, fun pk t => ⟨?_, fun h => nomatch h⟩⟩
  rintro ⟨e, he, _⟩
  cases he

end

namespace Sandbox

/-- Bob subscribes under the name he is known by. -/
def bobSubscribes : List (Call Bool Unit Unit) :=
  [.receive (.sealed (letter bob alice (message 5 (.subscribe [()])))) (delivered 2 0 6 []),
    .receive (.init bob.toPubkey) (delivered 2 0 0 [])]

/-- Bob's last word is followed while his name stands. -/
theorem subscription_follows_last_word :
    Always Sync.FollowsLastWord (history anyone bobSubscribes) (after anyone bobSubscribes) := by
  have opened : (after anyone [.receive (.init bob.toPubkey) (delivered 2 0 0 [])]).unwrapIncomingMessage
      (letter bob alice (message 5 (.subscribe [()]))) = .ok (message 5 (.subscribe [()])) := by rfl
  refine (last_word_followed_iff (run anyone bobSubscribes) ⟨?_, ?_, True.intro⟩).mpr
    ⟨⟨?_, ?_⟩, ⟨?_, ?_⟩, True.intro⟩
  · intro pk h
    cases h
  · intro pk h
    cases h
  · intro pk c now h
    cases h with
    | hello opened' body => cases opened.symm.trans opened'; cases body
  · intro pk name now h
    cases h with
    | peerInit opened' body | peerConfirm opened' body => cases opened.symm.trans opened'; cases body
  · intro pk c now _ t e he
    cases he
  · intro pk name now h
    cases h

/-- Bob subscribes, and is then confirmed under another name. -/
def bobRenamed : List (Call Bool Unit Unit) :=
  .receive (.sealed (letter bob alice (message 7 (.peerConfirm "b")))) (delivered 2 0 8 []) ::
    bobSubscribes

/-- After the confirmation Bob's last word is still `Subscribe`, and he is not subscribed. -/
theorem rename_loses_subscription : ∃ (past : History Bool Unit Unit) (s : Sync Unit),
    NodeRun "a" alice anyone past s ∧
      Every (fun _ st => ∀ pk, ¬ st.pre.Forgets st.input pk) past ∧
      ¬ s.FollowsLastWord past := by
  refine ⟨_, _, run anyone bobRenamed, ⟨?_, ?_, ?_, True.intro⟩, ?_⟩
  · intro pk h; cases h
  · intro pk h; cases h
  · intro pk h; cases h
  · intro h
    have := h.word bob.toPubkey ⟨⟨"b", bob.toPubkey, (1, 2)⟩, connection 2, true, 0⟩ (by rfl) ()
    exact absurd this (by decide)

end Sandbox
end Tp2p
