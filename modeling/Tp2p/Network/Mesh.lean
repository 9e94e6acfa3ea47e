import Tp2p.Lib.Relational
import Tp2p.Network.Contacts
import Tp2p.Network.Convergence
import Tp2p.Node.Independence

/-! Any number of nodes with a queue from each to each, and whoever else they talk to. Whose a
message is and where a record points agree in all of them. -/
namespace Tp2p
open Transition

section
variable [Sodium]

section
variable {U T S : Type} [DecidableEq T] [Rmp (Message U T S)]

/-- Whom a call has sent something is whom it is about. -/
theorem Step.Sends.concerns [Subscription S T] {st : Step U T S} (hs : st.pre.KeysOk) {x : Sending U T S}
    (h : st.Sends x) (own : ConnectionInfo → Bool) : st.input.concerns x.peer.pubkey own = true := by
  obtain ⟨s, call⟩ := st
  obtain ⟨_, as, sends, _, effect, _, hx⟩ := h
  cases call with
  | initComm addr now =>
    cases effect
    cases hx
  | peerConfirm pk name now nonce =>
    cases effect with
    | peerConfirm known =>
      obtain rfl := List.mem_singleton.mp hx
      exact decide_eq_true (hs.filed known).symm
  | tick => rfl
  | receive message d => exact decide_eq_true ((effect.within hs).2 x hx).symm

/-- The connection of a peer is where this peer is registered, and no other. -/
theorem Sync.Registers.own_iff {s : Sync T} {call : Call U T S} {pk pk' : Pubkey}
    {own : ConnectionInfo → Bool} {c : ConnectionInfo} {now : DateTime} (h : Registers s call pk' c now)
    (separate : call.Separate pk own) : own c = true ↔ pk' = pk := by
  cases h with
  | init => exact separate
  | hello => exact separate

end

/-- Nodes that have a key and a connection each of its own. -/
structure Mesh (N : Type) where
  name : N → String
  keypair : N → Keypair
  config : N → PeeringConfig
  address : N → ConnectionInfo
  matching : ∀ n, (keypair n).Matching
  keys : Function.Injective fun n => (keypair n).toPubkey
  addresses : Function.Injective address

/-- The nodes, and what is on its way to each from each, oldest first. -/
structure MeshNet (N T : Type) [DecidableEq T] where
  node : N → Sync T
  inbox : N → N → List MessageWrapped

/-- What is on its way from `m` to `n` is now `rest`. -/
def MeshNet.setInbox {N T : Type} [DecidableEq N] [DecidableEq T] (net : MeshNet N T) (n m : N)
    (rest : List MessageWrapped) : MeshNet N T :=
  { net with inbox := fun j k => if j = n ∧ k = m then rest else net.inbox j k }

namespace Mesh
variable {N U T S : Type}

def pubkey (mesh : Mesh N) (n : N) : Pubkey := (mesh.keypair n).toPubkey

/-- The connection is that of the node. -/
def reaches (mesh : Mesh N) (n : N) (c : ConnectionInfo) : Bool := c = mesh.address n

/-- Whatever the call brings may come from anybody, but it is under the key of a node exactly if it
comes on the connection of that node. -/
def Separates (mesh : Mesh N) (call : Call U T S) : Prop :=
  ∀ n, call.Separate (mesh.pubkey n) (mesh.reaches n)

/-- Node `n` is told to initiate contact with node `m`, the oldest message on its way from `m`
to `n` arrives, the application of `n` sends `m` a message of its own, or anything else is called
on `n`. -/
inductive Move (mesh : Mesh N) (U T S : Type) where
  | initComm (n m : N) (addr : String) (now : DateTime)
      (reaches : ConnectionInfo.new addr = .ok (mesh.address m))
  | deliver (n m : N) (d : Delivery U T S) (via : d.connectionInfo = mesh.address m)
  | post (n m : N) (message : MessageWrapped) (own : message.pubkeySender = mesh.pubkey n)
  | other (n : N) (call : Call U T S) (separates : mesh.Separates call)

variable {mesh : Mesh N}

/-- The node that moves, and the node that this is about. -/
def Move.pair : Move mesh U T S → Option (N × N)
  | .initComm n m .. | .deliver n m .. => some (n, m)
  | .post .. | .other .. => none

def Move.initiates : Move mesh U T S → Bool
  | .initComm .. => true
  | _ => false

/-- What a node sends to node `m`. -/
def sent (mesh : Mesh N) (m : N) (actions : List (Action U T S)) : List MessageWrapped :=
  sentOn (mesh.address m) actions

variable [DecidableEq N] [DecidableEq T] [Rmp (Message U T S)] [Subscription S T]

/-- A node makes a call, and all returned actions are carried out. -/
def perform (mesh : Mesh N) (net : MeshNet N T) (n : N) (call : Call U T S) : MeshNet N T :=
  match (net.node n).exec call with
  | .ok actions =>
    { node := Function.update net.node n ((net.node n).applySyncActions (syncActions actions))
      inbox := fun m k =>
        if k = n then net.inbox m n ++ mesh.sent m actions else net.inbox m k }
  | .error _ => net

def next (mesh : Mesh N) (net : MeshNet N T) : Move mesh U T S → MeshNet N T
  | .initComm n _ addr now _ => mesh.perform net n (.initComm addr now : Call U T S)
  | .deliver n m d _ =>
    match net.inbox n m with
    | [] => net
    | message :: rest => mesh.perform (net.setInbox n m rest) n (.receive message d)
  | .post n m message _ => net.setInbox m n (net.inbox m n ++ [message])
  | .other n call _ => mesh.perform net n call

omit [DecidableEq N] [Rmp (Message U T S)] [Subscription S T] in
/-- The call that a move makes, if any. -/
def call (mesh : Mesh N) (net : MeshNet N T) : Move mesh U T S → Option (N × Call U T S)
  | .initComm n _ addr now _ => some (n, .initComm addr now)
  | .deliver n m d _ => (net.inbox n m).head?.map fun message => (n, .receive message d)
  | .post .. => none
  | .other n call _ => some (n, call)

/-- No handler returns an error in this step. -/
def Succeeds (st : Taken (MeshNet N T) (Move mesh U T S)) : Prop :=
  ∀ n call, mesh.call st.pre st.input = some (n, call) →
    ∃ actions, (st.pre.node n).exec call = .ok actions

/-- New nodes, and nothing on its way. -/
def start (mesh : Mesh N) (T : Type) [DecidableEq T] : MeshNet N T where
  node n := Sync.new (mesh.name n) (mesh.keypair n) (mesh.config n)
  inbox _ _ := []

/-- What every run of the nodes keeps up. -/
structure Tidy (mesh : Mesh N) (U S : Type) [Rmp (Message U T S)] [Subscription S T]
    (net : MeshNet N T) : Prop where
  reached : ∀ n, ∃ past : History U T S,
    NodeRun (mesh.name n) (mesh.keypair n) (mesh.config n) past (net.node n)
  sender : ∀ n m, ∀ message ∈ net.inbox n m, message.pubkeySender = mesh.pubkey m
  filed : ∀ n m pk info, (net.node n).peers.lookup pk = some info →
    (info.connectionInfo = mesh.address m ↔ pk = mesh.pubkey m)

variable {net : MeshNet N T} {n m : N} {call : Call U T S} {actions : List (Action U T S)}
variable {message : MessageWrapped}

omit [DecidableEq N] in
theorem Tidy.keysOk (h : Tidy mesh U S net) (n : N) : (net.node n).KeysOk := by
  obtain ⟨_, run⟩ := h.reached n
  exact run.keysOk

omit [DecidableEq N] in
theorem Tidy.keypair (h : Tidy mesh U S net) (n : N) : (net.node n).keypair = mesh.keypair n := by
  obtain ⟨_, run⟩ := h.reached n
  exact run.sameSelf.keypair

omit [DecidableEq N] in
theorem tidy_start (mesh : Mesh N) : Tidy mesh U S (mesh.start T) where
  reached n := ⟨[], .start⟩
  sender n m message h := by cases h
  filed n m pk info h := by cases h

theorem perform_node (net : MeshNet N T) (n : N) (call : Call U T S) :
    (mesh.perform net n call).node = Function.update net.node n ((net.node n).next call) := by
  rw [perform]
  rcases Attempt.ok_or_error ((net.node n).exec call) with ⟨actions, ha⟩ | ⟨e, he⟩
  · rw [ha, Sync.next_ok ha]
  · rw [he, Sync.next_error he, Function.update_eq_self]

theorem perform_inbox (hexec : (net.node n).exec call = .ok actions) (m : N) :
    (mesh.perform net n call).inbox m n = net.inbox m n ++ mesh.sent m actions := by
  rw [perform, hexec]
  exact if_pos rfl

/-- Nobody else's messages come to be on their way. -/
theorem perform_inbox_of_ne (net : MeshNet N T) (call : Call U T S) (m : N) {k : N} (h : k ≠ n) :
    (mesh.perform net n call).inbox m k = net.inbox m k := by
  rw [perform]
  cases (net.node n).exec call with
  | ok actions => exact if_neg h
  | error e => rfl

omit [DecidableEq N] in
/-- A node sends under its own key. -/
theorem Tidy.sender_of_sent (h : Tidy mesh U S net) (hexec : (net.node n).exec call = .ok actions)
    (hm : message ∈ mesh.sent m actions) : message.pubkeySender = mesh.pubkey n := by
  have result : Step.result (⟨net.node n, call⟩ : Step U T S) = .ok actions := hexec
  rcases Step.sealed_or_greets result (mem_sentOn.mp hm) with ⟨w, rfl⟩ | ⟨_, rfl⟩
  · obtain ⟨x, _, hseal⟩ := Step.exists_sends result (mem_sentOn.mp hm)
    obtain ⟨_, _, rfl⟩ := MessageSealed.seal_eq_ok.mp hseal.2
    exact congrArg Keypair.toPubkey (h.keypair n)
  · exact congrArg Keypair.toPubkey (h.keypair n)

omit [DecidableEq N] in
/-- A call that is not about a node sends it nothing. -/
theorem Tidy.nothing_sent (h : Tidy mesh U S net) (hexec : (net.node n).exec call = .ok actions)
    (separate : mesh.Separates call)
    (apart : call.concerns (mesh.pubkey m) (mesh.reaches m) = false) : mesh.sent m actions = [] := by
  have result : Step.result (⟨net.node n, call⟩ : Step U T S) = .ok actions := hexec
  apply List.eq_nil_iff_forall_not_mem.mpr
  intro message hm
  have ha := mem_sentOn.mp hm
  rcases Step.sealed_or_greets result ha with ⟨w, rfl⟩ | ⟨greeted, _⟩
  · obtain ⟨x, sends, hseal⟩ := Step.exists_sends result ha
    have concerns := sends.concerns (h.keysOk n) (mesh.reaches m)
    have hc : mesh.address m = x.connectionInfo := hseal.1
    -- whoever is sent something on the connection of the node is the node
    have hpk : x.peer.pubkey = mesh.pubkey m := by
      rcases sends.contact (h.keysOk n) with ⟨now, registers⟩ | ⟨_, info, known, hinfo⟩
      · exact (registers.own_iff (separate m)).mp (decide_eq_true hc.symm)
      · exact (h.filed n m _ _ known).mp (hinfo.trans hc.symm)
    rw [hpk] at concerns
    cases apart.symm.trans concerns
  · cases call with
    | initComm addr now =>
      cases hnew : ConnectionInfo.new addr with
      | ok c =>
        rw [Call.initiated, hnew] at greeted
        cases greeted
        rw [Sync.concerns_initComm hnew] at apart
        cases apart.symm.trans (decide_eq_true rfl)
      | error e =>
        rw [Call.initiated, hnew] at greeted
        cases greeted
    | _ => cases greeted

theorem Tidy.perform (h : Tidy mesh U S net) (separate : mesh.Separates call) :
    Tidy mesh U S (mesh.perform net n call) where
  reached k := by
    rw [perform_node]
    by_cases hk : k = n
    · subst hk
      rw [Function.update_self]
      obtain ⟨past, run⟩ := h.reached k
      exact ⟨_, run.step call⟩
    · rw [Function.update_of_ne hk]
      exact h.reached k
  sender m k message hm := by
    by_cases hk : k = n
    · subst hk
      rcases Attempt.ok_or_error ((net.node k).exec call) with ⟨actions, ha⟩ | ⟨e, he⟩
      · rw [perform_inbox ha, List.mem_append] at hm
        rcases hm with hm | hm
        · exact h.sender m k message hm
        · exact h.sender_of_sent ha hm
      · rw [Mesh.perform, he] at hm
        exact h.sender m k message hm
    · rw [perform_inbox_of_ne net call m hk] at hm
      exact h.sender m k message hm
  filed k m pk info known := by
    rw [perform_node] at known
    by_cases hk : k = n
    · subst hk
      rw [Function.update_self] at known
      have hr := Sync.next_record (h.keysOk k) call pk
      rw [known] at hr
      generalize hi : some info = r at hr
      cases hr with
      | same => exact h.filed k m pk info hi.symm
      | registered registers =>
        cases hi
        rw [← registers.own_iff (separate m)]
        exact decide_eq_true_iff.symm
      | confirmed known' =>
        cases hi
        have filed := h.filed k m pk _ known'
        exact filed
      | refreshed known' =>
        cases hi
        have filed := h.filed k m pk _ known'
        exact filed
      | forgotten => cases hi
    · rw [Function.update_of_ne hk] at known
      exact h.filed k m pk info known

theorem Tidy.setInbox (h : Tidy mesh U S net) {rest : List MessageWrapped}
    (own : ∀ message ∈ rest, message.pubkeySender = mesh.pubkey m) :
    Tidy mesh U S (net.setInbox n m rest) where
  reached := h.reached
  sender j k message hm := by
    simp only [MeshNet.setInbox] at hm
    split at hm
    · next hjk =>
      obtain ⟨rfl, rfl⟩ := hjk
      exact own message hm
    · exact h.sender j k message hm
  filed := h.filed

theorem Tidy.pop (h : Tidy mesh U S net) {rest : List MessageWrapped}
    (hq : net.inbox n m = message :: rest) : Tidy mesh U S (net.setInbox n m rest) :=
  h.setInbox fun message' hm => h.sender n m message' (by rw [hq]; exact List.mem_cons_of_mem _ hm)

theorem Tidy.post (h : Tidy mesh U S net) (own : message.pubkeySender = mesh.pubkey n) :
    Tidy mesh U S (net.setInbox m n (net.inbox m n ++ [message])) := by
  refine h.setInbox fun message' hm => ?_
  rcases List.mem_append.mp hm with hm | hm
  · exact h.sender m n message' hm
  · cases List.mem_singleton.mp hm
    exact own

omit [DecidableEq N] in
theorem Tidy.separates (h : Tidy mesh U S net) {rest : List MessageWrapped}
    (hq : net.inbox n m = message :: rest) {d : Delivery U T S} (via : d.connectionInfo = mesh.address m) :
    mesh.Separates (.receive message d) := by
  intro k
  have hpk : message.pubkeySender = mesh.pubkey m := h.sender n m message (by rw [hq]; exact List.mem_cons_self)
  show decide (d.connectionInfo = mesh.address k) = true ↔ message.pubkeySender = mesh.pubkey k
  rw [decide_eq_true_eq, via, hpk, mesh.addresses.eq_iff]
  exact mesh.keys.eq_iff.symm

theorem Tidy.next (h : Tidy mesh U S net) (move : Move mesh U T S) : Tidy mesh U S (mesh.next net move) := by
  cases move with
  | initComm n m addr now reaches => exact h.perform fun _ => True.intro
  | deliver n m d via =>
    cases hq : net.inbox n m with
    | nil => simpa only [Mesh.next, hq] using h
    | cons message rest =>
      simp only [Mesh.next, hq]
      exact (h.pop hq).perform (h.separates hq via)
  | post n m message own => exact h.post own
  | other n call separates => exact h.perform separates

theorem tidy_of_run {past : List (Taken (MeshNet N T) (Move mesh U T S))}
    (run : Run mesh.next (mesh.start T) past net) : Tidy mesh U S net :=
  run.invariant (tidy_start mesh) fun _ move h => h.next move

end Mesh
end
end Tp2p
