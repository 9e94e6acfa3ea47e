import Tp2p.Lib.Codec
import Tp2p.Model.Node

/-! A box and a codec that behave as the crates document, small enough to run:
a sealed body names its nonce and its key, and opens under nothing else. -/
namespace Tp2p.Sandbox
open Transition

/-- The unordered pair of the parties. -/
def sharedKey (p s : UInt8) : UInt8 × UInt8 := if p ≤ s then (p, s) else (s, p)

private theorem sharedKey_comm (p s : UInt8) : sharedKey p s = sharedKey s p := by
  unfold sharedKey
  split <;> split
  · next h h' => rw [UInt8.le_antisymm h h']
  · rfl
  · rfl
  · next h h' => exact absurd (UInt8.le_of_lt (UInt8.not_le.mp h)) h'

/-- The nonce and the two halves of the key stand before the plaintext. -/
def openBody (body : List UInt8) (n : UInt8) (k : UInt8 × UInt8) : Option (List UInt8) :=
  match body with
  | n' :: a :: b :: m => if n' = n ∧ a = k.1 ∧ b = k.2 then some m else none
  | _ => none

instance box : Sodium where
  PublicKey := UInt8
  SecretKey := UInt8
  PrecomputedKey := UInt8 × UInt8
  Nonce := UInt8
  decEqPublicKey := inferInstance
  decEqPrecomputedKey := inferInstance
  decEqNonce := inferInstance
  scalarmultBase s := s
  precompute := sharedKey
  sealPrecomputed m n k := n :: k.1 :: k.2 :: m
  openPrecomputed := openBody

instance (n : Nat) : OfNat Nonce n := inferInstanceAs (OfNat UInt8 n)

/-- The sandbox box is ideal. -/
theorem idealBox : IdealBox where
  precompute_comm := sharedKey_comm
  open_seal m n k := if_pos ⟨rfl, rfl, rfl⟩
  open_only {m m' n n' k k'} h := by
    change (if n = n' ∧ k.1 = k'.1 ∧ k.2 = k'.2 then some m else none) = some m' at h
    split at h
    · next he => exact ⟨he.1.symm, Prod.ext he.2.1.symm he.2.2.symm⟩
    · cases h

/-- A topic, and a subscription that is valid and for that topic. -/
instance : Subscription Unit Unit := ⟨some⟩

abbrev Msg := Message Bool Unit Unit

open Codec

private def intCodec : Codec Int :=
  (pair nat nat).via (fun z => (z.toNat, (-z).toNat)) (fun p => (p.1 : Int) - p.2) (by intro z; omega)

private def depthCodec : Codec UInt64 := nat.via UInt64.toNat UInt64.ofNat (by simp)

private def charCodec : Codec Char :=
  (pair byte (pair byte byte)).via
    (fun c => (.ofNat (c.toNat / 65536), .ofNat (c.toNat / 256 % 256), .ofNat (c.toNat % 256)))
    (fun p => .ofNat (p.1.toNat * 65536 + p.2.1.toNat * 256 + p.2.2.toNat)) (by
      intro c
      have hc : c.toNat < 0x110000 := by
        rcases c.valid with h | h
        · exact Nat.lt_trans h (by decide)
        · exact h.2
      have hn : c.toNat / 65536 % 256 * 65536 + c.toNat / 256 % 256 * 256 + c.toNat % 256 =
        c.toNat := by omega
      simp [hn])

private def stringCodec : Codec String := (list charCodec).via String.toList String.ofList (by simp)

private def boolCodec : Codec Bool :=
  byte.via (fun b => if b then 1 else 0) (fun n => n = 1) (by intro b; cases b <;> rfl)

private def unitCodec : Codec Unit := byte.via (fun _ => 0) (fun _ => ()) (fun _ => rfl)

private def idCodec : Codec MessageID :=
  (pair intCodec byte).via (fun i => (i.timestamp, i.nonce)) (fun p => ⟨p.1, p.2⟩) (fun _ => rfl)

private def entryCodec : Codec (TopicGraphEntry Unit) :=
  (pair (list idCodec) depthCodec).via (fun e => (e.parents, e.depth)) (fun p => ⟨(), p.1, p.2⟩)
    (fun _ => rfl)

/-- One tag byte, then the fields. -/
private def eventCodec : Codec (Event Bool Unit Unit) where
  write
    | .hello => [0]
    | .peerInit name => 1 :: stringCodec.write name
    | .peerConfirm name => 2 :: stringCodec.write name
    | .ping => [3]
    | .pong => [4]
    | .queryMessagesByID ids => 5 :: (list idCodec).write ids
    | .queryMessagesByDepth _ depth => 6 :: depthCodec.write depth
    | .subscribe subscriptions => 7 :: (list unitCodec).write subscriptions
    | .unsubscribe topics => 8 :: (list unitCodec).write topics
    | .querySubscriptions => [9]
    | .activeSubscriptions topics => 10 :: (list unitCodec).write topics
    | .user data => 11 :: boolCodec.write data
  read
    | 0 :: rest => some (.hello, rest)
    | 1 :: rest => (stringCodec.read rest).map fun (name, rest) => (.peerInit name, rest)
    | 2 :: rest => (stringCodec.read rest).map fun (name, rest) => (.peerConfirm name, rest)
    | 3 :: rest => some (.ping, rest)
    | 4 :: rest => some (.pong, rest)
    | 5 :: rest => ((list idCodec).read rest).map fun (ids, rest) => (.queryMessagesByID ids, rest)
    | 6 :: rest =>
      (depthCodec.read rest).map fun (depth, rest) => (.queryMessagesByDepth () depth, rest)
    | 7 :: rest =>
      ((list unitCodec).read rest).map fun (subscriptions, rest) => (.subscribe subscriptions, rest)
    | 8 :: rest => ((list unitCodec).read rest).map fun (topics, rest) => (.unsubscribe topics, rest)
    | 9 :: rest => some (.querySubscriptions, rest)
    | 10 :: rest =>
      ((list unitCodec).read rest).map fun (topics, rest) => (.activeSubscriptions topics, rest)
    | 11 :: rest => (boolCodec.read rest).map fun (data, rest) => (.user data, rest)
    | _ => none
  read_write e rest := by cases e <;> simp

def messageCodec : Codec Msg :=
  (pair idCodec (pair (list entryCodec) eventCodec)).via
    (fun m => (m.id, m.topicGraph, m.body)) (fun p => ⟨p.1, p.2.1, p.2.2⟩) (fun _ => rfl)

instance : Rmp Msg where
  serialize m := .ok (messageCodec.write m)
  deserialize bytes :=
    match messageCodec.decode bytes with
    | some m => .ok m
    | none => .error "Syntax"

/-- Every message is encoded, and decoding undoes encoding. -/
theorem roundTrip : Rmp.RoundTrip Msg := by
  intro m b h
  cases h
  simp [Rmp.deserialize, decode_write]

theorem serializable (m : Msg) : ∃ b, serialize m = .ok b := ⟨_, rfl⟩

/-! Three parties, the connections between them, and what they send -/

def party (key : UInt8) : Keypair := ⟨key, key⟩

theorem matching (key : UInt8) : (party key).Matching := rfl

def alice : Keypair := party 1
def bob : Keypair := party 2
def mallory : Keypair := party 3

/-- The connection that `ConnectionInfo.new` makes of `address port`. -/
def connection (port : UInt16) : ConnectionInfo := ⟨.v4 #v[10, 0, 0, 1] port⟩

def address : String := "10.0.0.1:2"

example : ConnectionInfo.new address = .ok (connection 2) := by decide

def message (nonce : UInt8) (body : Event Bool Unit Unit) : Msg := ⟨⟨0, nonce⟩, [], body⟩

/-- A message sealed by one party for another. -/
def letter (sender receiver : Keypair) (m : Msg) : MessageSealed :=
  ⟨m.id.nonce, sender.toPubkey,
    sealPrecomputed (messageCodec.write m) m.id.nonce (sharedKey receiver.pubkey sender.seckey)⟩

def anyone : PeeringConfig := ⟨.publicAgent [] []⟩

/-- The circumstances of a delivery over the connection with this port. -/
def delivered (port : UInt16) (now : DateTime) (nonce : UInt8) (messages : List Msg) :
    Delivery Bool Unit Unit :=
  ⟨connection port, now, nonce, messages, .stored, .stored⟩

/-- The state after the given calls, newest first, of the node of `alice`. -/
def after (config : PeeringConfig) (calls : List (Call Bool Unit Unit)) : Sync Unit :=
  reach Sync.next (.new "a" alice config) calls

/-- The history that these calls leave. -/
def history (config : PeeringConfig) (calls : List (Call Bool Unit Unit)) : History Bool Unit Unit :=
  trail Sync.next (.new "a" alice config) calls

theorem run (config : PeeringConfig) (calls : List (Call Bool Unit Unit)) :
    NodeRun "a" alice config (history config calls) (after config calls) :=
  Run.of_inputs calls

/-- Bob introduced himself, and the application let him in. -/
def bobConfirmed : List (Call Bool Unit Unit) :=
  [.peerConfirm bob.toPubkey "b" 0 1, .receive (.init bob.toPubkey) (delivered 2 0 0 [])]

end Tp2p.Sandbox
