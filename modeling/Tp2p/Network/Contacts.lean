import Tp2p.Network.Storm
import Tp2p.Node.Retention

/-! Where a node sends what: to the connection on which the peer was registered last, or
to the address that the application has just named. -/
namespace Tp2p
open Transition

section
variable [Sodium] {U T S : Type} [DecidableEq T] [Rmp (Message U T S)] [Subscription S T]

/-- The connection on which the peer was registered last, by its `Init` or by its `Hello` to an
initiation. -/
inductive Contact : History U T S → Pubkey → ConnectionInfo → Prop where
  | here {past : History U T S} {st : Step U T S} {pk : Pubkey} {c : ConnectionInfo} {now : DateTime}
      (registers : Sync.Registers st.pre st.input pk c now) : Contact (st :: past) pk c
  | later {past : History U T S} {st : Step U T S} {pk : Pubkey} {c : ConnectionInfo}
      (contact : Contact past pk c)
      (unregistered : ∀ c' now, ¬ Sync.Registers st.pre st.input pk c' now) : Contact (st :: past) pk c

omit [Subscription S T] in
theorem Sync.Registers.unique {s : Sync T} {call : Call U T S} {pk : Pubkey} {c c' : ConnectionInfo}
    {now now' : DateTime} (h : Registers s call pk c now) (h' : Registers s call pk c' now') : c = c' := by
  cases h <;> cases h' <;> rfl

omit [Subscription S T] in
/-- There is one such connection at most. -/
theorem Contact.unique {past : History U T S} {pk : Pubkey} {c c' : ConnectionInfo}
    (h : Contact past pk c) (h' : Contact past pk c') : c = c' := by
  induction h with
  | here registers =>
    cases h' with
    | here registers' => exact registers.unique registers'
    | later _ unregistered => exact absurd registers (unregistered _ _)
  | later _ unregistered ih =>
    cases h' with
    | here registers' => exact absurd registers' (unregistered _ _)
    | later contact' => exact ih contact'

omit [Subscription S T] in
/-- On that connection something arrived. -/
theorem Contact.arrived {past : History U T S} {pk : Pubkey} {c : ConnectionInfo}
    (h : Contact past pk c) : ∃ st ∈ past, ∃ message d, st.input = .receive message d ∧
      message.pubkeySender = pk ∧ d.connectionInfo = c := by
  induction h with
  | @here _ st _ _ _ registers =>
    refine ⟨_, List.mem_cons_self, ?_⟩
    obtain ⟨s, call⟩ := st
    cases registers with
    | init => exact ⟨_, _, rfl, rfl, rfl⟩
    | hello => exact ⟨_, _, rfl, rfl, rfl⟩
  | later _ _ ih =>
    obtain ⟨st, hst, h⟩ := ih
    exact ⟨st, List.mem_cons_of_mem _ hst, h⟩

/-- A sealed message goes where its recipient is registered by this call, or on file. -/
theorem Step.Sends.contact {st : Step U T S} (hs : st.pre.KeysOk) {x : Sending U T S} (h : st.Sends x) :
    (∃ now, Sync.Registers st.pre st.input x.peer.pubkey x.connectionInfo now) ∨
      ((∀ c now, ¬ Sync.Registers st.pre st.input x.peer.pubkey c now) ∧
        ∃ info, st.pre.peers.lookup x.peer.pubkey = some info ∧
          info.connectionInfo = x.connectionInfo) := by
  obtain ⟨s, call⟩ := st
  obtain ⟨actions, as, sends, _, effect, hsplit, hx⟩ := h
  have fits := Sync.Splits.serializable hsplit
  have filed : ∀ {pk : Pubkey} {info : PeerInfo}, s.peers.lookup pk = some info →
      ∃ info', s.peers.lookup info.peer.pubkey = some info' ∧
        info'.connectionInfo = info.connectionInfo := by
    intro pk info known
    refine ⟨info, ?_, rfl⟩
    rw [(hs.filed known :), known]
  cases effect with
  | initComm => cases hx
  | peerConfirm known =>
    obtain rfl := List.mem_singleton.mp hx
    exact .inr ⟨fun _ _ registers => (nomatch registers), filed known⟩
  | tick =>
    obtain ⟨pk, info, known, due, rfl⟩ := Sync.mem_pings.mp hx
    exact .inr ⟨fun _ _ registers => (nomatch registers), filed known⟩
  | init =>
    have hfit := fits x hx
    obtain rfl := List.mem_singleton.mp hx
    exact .inl ⟨_, .init hfit⟩
  | @event w d m _ _ opened effect =>
    -- nothing but a `Hello` registers anybody
    have other : m.body ≠ .hello → ∀ pk c now, ¬ Sync.Registers s (.receive (.sealed w) d) pk c now := by
      intro hm pk c now registers
      cases registers with
      | hello opened' body =>
        cases opened.symm.trans opened'
        exact hm body
    generalize hb : m.body = e at effect other
    cases effect with
    | hello pending =>
      have hfit := fits x hx
      obtain rfl := List.mem_singleton.mp hx
      exact .inl ⟨_, .hello opened hb pending hfit⟩
    | peerInit _ known | ping known | querySubscriptions known =>
      obtain rfl := List.mem_singleton.mp hx
      exact .inr ⟨other nofun _, filed known⟩
    | query query known =>
      obtain ⟨m', _, rfl⟩ := List.mem_map.mp hx
      refine .inr ⟨other (fun he => ?_) _, filed known⟩
      rw [he] at query
      cases query
    | _ => cases hx

/-- What is sent is the own key, on the connection that the call initiates. -/
def Greets (keypair : Keypair) (st : Step U T S) (c : ConnectionInfo) (message : MessageWrapped) : Prop :=
  st.input.initiated = some c ∧ message = .init keypair.toPubkey

theorem Step.sealed_or_greets {st : Step U T S} {actions : List (Action U T S)}
    (result : st.result = .ok actions) {c : ConnectionInfo} {message : MessageWrapped}
    (sent : .messageSend c message ∈ actions) : (∃ w, message = .sealed w) ∨
      Greets st.pre.keypair st c message := by
  obtain ⟨s, call⟩ := st
  cases call with
  | initComm addr now =>
    obtain ⟨c', parsed, h⟩ := Attempt.bind_eq_ok.mp result
    cases Attempt.pure_eq_ok.mp h
    rcases List.mem_pair.mp sent with h | h
    · cases h
    · cases h
      refine .inr ⟨?_, rfl⟩
      rw [Call.initiated, parsed]
      rfl
  | peerConfirm pk name now nonce =>
    exact .inl ((Sync.peerConfirm_sealed s pk name now nonce).of_ok actions result c message sent)
  | tick order now nonce =>
    obtain ⟨shares, hshares, h⟩ := Attempt.bind_eq_ok.mp result
    cases Attempt.pure_eq_ok.mp h
    rcases List.mem_append.mp sent with h | h
    · obtain ⟨share, hshare, h⟩ := List.mem_flatten.mp h
      obtain ⟨info, _, hpeer⟩ := Attempt.exists_mem_of_mem_right (Attempt.mapM_eq_ok.mp hshares) hshare
      cases Sync.peerShare_of_ok hpeer with
      | recent => cases h
      | overdue => cases List.mem_singleton.mp h
      | due =>
        cases List.mem_singleton.mp h
        exact .inl ⟨_, rfl⟩
    · obtain ⟨share, hshare, h⟩ := List.mem_flatten.mp h
      obtain ⟨p, _, rfl⟩ := List.mem_map.mp hshare
      simp only [Sync.tickPending] at h
      split at h
      · cases h
      · cases List.mem_singleton.mp h
  | receive wrapped d => exact .inl ((Sync.receive_sealed s wrapped d).of_ok actions result c message sent)

variable {name : String} {keypair : Keypair} {config : PeeringConfig}
variable {past : History U T S} {s : Sync T}

/-- Every record carries the connection on which the peer was registered last. -/
theorem NodeRun.contact (run : NodeRun name keypair config past s) {pk : Pubkey} {info : PeerInfo}
    (known : s.peers.lookup pk = some info) : Contact past pk info.connectionInfo := by
  induction run generalizing info with
  | start => cases known
  | @step past s run call ih =>
    by_cases h : ∃ c now, Sync.Registers s call pk c now
    · obtain ⟨c, now, registers⟩ := h
      cases known.symm.trans registers.lookup
      exact .here registers
    · have unregistered : ∀ c now, ¬ Sync.Registers s call pk c now :=
        fun c now registers => h ⟨c, now, registers⟩
      have hr := Sync.next_record (NodeRun.keysOk run) call pk
      rw [known] at hr
      generalize hi : some info = r at hr
      cases hr with
      | same => exact .later (ih hi.symm) unregistered
      | registered registers => exact absurd registers (unregistered _ _)
      | confirmed known' =>
        cases hi
        have contact := ih known'
        exact .later contact unregistered
      | refreshed known' =>
        cases hi
        have contact := ih known'
        exact .later contact unregistered
      | forgotten => cases hi

/-- What the step sends is its own key to an address that the application just named, or sealed
under the key of a peer and on its way to the one connection on which this peer was registered
last. -/
def SendsToContacts (keypair : Keypair) (past : History U T S) (st : Step U T S) : Prop :=
  ∀ actions c message, st.result = .ok actions → .messageSend c message ∈ actions →
    Greets keypair st c message ∨ ∃ (x : Sending U T S) (w : MessageSealed), message = .sealed w ∧
      st.Sends x ∧ x.SealedAs keypair.toPubkey (c, w) ∧
      x.peer.precomputed = precompute x.peer.pubkey.inner keypair.seckey ∧
      (∀ c', Contact (st :: past) x.peer.pubkey c' ↔ c' = c) ∧
      ∃ st' ∈ st :: past, ∃ message' d, st'.input = .receive message' d ∧
        message'.pubkeySender = x.peer.pubkey ∧ d.connectionInfo = c

/-- In every run a node sends nothing to an address that neither its application named nor the peer
used, and every peer is sent its messages on the connection on which it was registered last. -/
theorem sends_to_contacts (run : NodeRun name keypair config past s) :
    Every (SendsToContacts keypair) past := by
  induction run with
  | start => exact True.intro
  | @step past s run call ih =>
    have hkey : s.keypair = keypair := (NodeRun.sameSelf run).keypair
    refine ⟨fun actions c message result sent => ?_, ih⟩
    rcases Step.sealed_or_greets result sent with ⟨w, rfl⟩ | greets
    · obtain ⟨x, sends, hseal⟩ := Step.exists_sends result sent
      have hc : c = x.connectionInfo := hseal.1
      have contact : Contact (⟨s, call⟩ :: past) x.peer.pubkey c := by
        rw [hc]
        rcases sends.contact (NodeRun.keysOk run) with ⟨now, registers⟩ | ⟨unregistered, info, known, hinfo⟩
        · exact .here registers
        · rw [← hinfo]
          exact .later (NodeRun.contact run known) unregistered
      have keyed := NodeRun.sends_keyed (.step run call) List.mem_cons_self sends
      refine .inr ⟨x, w, rfl, sends, ?_, keyed, fun c' => ⟨fun h => h.unique contact, ?_⟩, contact.arrived⟩
      · rw [← hkey]
        exact hseal
      · rintro rfl
        exact contact
    · rw [← hkey]
      exact .inl greets

end

namespace Sandbox

/-- Mallory knocks in the name of Bob, and Bob is pinged at the address of Mallory. -/
def bobMoved : List (Call Bool Unit Unit) :=
  [.tick .stored (3 * minute) (fun _ => 2), .receive (.init bob.toPubkey) (delivered 9 (2 * minute) 0 []),
    .receive (.init bob.toPubkey) (delivered 2 0 0 [])]

example : (after anyone bobMoved.tail).exec (.tick .stored (3 * minute) (fun _ => 2) : Call Bool Unit Unit) =
    .ok [.messageSend (connection 9) (.sealed (letter alice bob ⟨⟨3 * minute, 2⟩, [], .ping⟩))] := by rfl

theorem bob_pinged_where_registered : Every (SendsToContacts alice) (history anyone bobMoved) :=
  sends_to_contacts (run anyone bobMoved)

end Sandbox
end Tp2p
