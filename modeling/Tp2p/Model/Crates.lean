import Mathlib.Data.Int.Init

/-! What the program takes from other crates: `chrono` instants, the
`curve25519xsalsa20poly1305` box of `sodiumoxide`, and the `rmp_serde` codec. -/
namespace Tp2p

/-- A `DateTime<Utc>` in nanoseconds, without leap seconds. -/
abbrev DateTime := Int

/-- `Duration::num_seconds` truncates towards zero. -/
def numSeconds (duration : Int) : Int := duration.tdiv 1000000000

abbrev Bytes := List UInt8

/-- The box of `sodiumoxide`. `scalarmultBase` gives the public key that
`gen_keypair` and `keypair_from_seed` pair with a secret key. -/
class Sodium where
  PublicKey : Type
  SecretKey : Type
  PrecomputedKey : Type
  Nonce : Type
  decEqPublicKey : DecidableEq PublicKey
  decEqPrecomputedKey : DecidableEq PrecomputedKey
  decEqNonce : DecidableEq Nonce
  scalarmultBase : SecretKey → PublicKey
  precompute : PublicKey → SecretKey → PrecomputedKey
  sealPrecomputed : Bytes → Nonce → PrecomputedKey → Bytes
  openPrecomputed : Bytes → Nonce → PrecomputedKey → Option Bytes

export Sodium (PublicKey SecretKey PrecomputedKey Nonce scalarmultBase precompute
  sealPrecomputed openPrecomputed)

instance [Sodium] : DecidableEq PublicKey := Sodium.decEqPublicKey
instance [Sodium] : DecidableEq PrecomputedKey := Sodium.decEqPrecomputedKey
instance [Sodium] : DecidableEq Nonce := Sodium.decEqNonce

/-- The documented behaviour of the box: both parties compute one key, and
opening undoes sealing. -/
structure BoxLaws [Sodium] : Prop where
  precompute_comm : ∀ a b : SecretKey,
    precompute (scalarmultBase a) b = precompute (scalarmultBase b) a
  open_seal : ∀ (m : Bytes) (n : Nonce) (k : PrecomputedKey),
    openPrecomputed (sealPrecomputed m n k) n k = some m

/-- The ideal box: a sealed body opens under its own key and nonce only. Two public keys may still
come to the same key with a secret one. -/
structure IdealBox [Sodium] : Prop extends BoxLaws where
  open_only : ∀ {m m' : Bytes} {n n' : Nonce} {k k' : PrecomputedKey},
    openPrecomputed (sealPrecomputed m n k) n' k' = some m' → n' = n ∧ k' = k

/-- `rmp_serde` at one type. Its errors are known by their debug text, which is
all that `Error` compares. -/
class Rmp (α : Type) where
  serialize : α → Except String Bytes
  deserialize : Bytes → Except String α

/-- Decoding undoes encoding. -/
def Rmp.RoundTrip (α : Type) [Rmp α] : Prop :=
  ∀ (a : α) (b : Bytes), Rmp.serialize a = .ok b → Rmp.deserialize b = .ok a

end Tp2p
