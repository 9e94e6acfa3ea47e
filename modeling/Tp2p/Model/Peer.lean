import Tp2p.Model.Addr
import Tp2p.Model.Crates

/-! Peers, what a node remembers of them, and whom it lets in. -/
namespace Tp2p
variable [Sodium]

structure Pubkey where
  inner : PublicKey
  deriving DecidableEq

/-- The conditions that arise while interacting with the system. An error of
another crate is carried as its debug text. -/
inductive Error where
  | deserialize (cause : String)
  | eventMismatch
  | keypairFromSeedFailed
  | messageNotInit
  | messageOpenFailed
  | missingPubkey
  | parseError (cause : String)
  | peerNotFound (pubkey : Pubkey)
  | serialize (cause : String)
  deriving DecidableEq

structure Keypair where
  pubkey : PublicKey
  seckey : SecretKey

def Keypair.toPubkey (self : Keypair) : Pubkey := ⟨self.pubkey⟩

/-- The halves belong together, as in every generated keypair. -/
def Keypair.Matching (self : Keypair) : Prop := self.pubkey = scalarmultBase self.seckey

structure ConnectionInfo where
  inner : SocketAddr
  deriving DecidableEq

def ConnectionInfo.new (addr : String) : Except Error ConnectionInfo :=
  match SocketAddr.parse addr with
  | some sock => .ok ⟨sock⟩
  | none => .error (.parseError "AddrParseError(Socket)")

structure Peer where
  name : String
  pubkey : Pubkey
  precomputed : PrecomputedKey
  deriving DecidableEq

def Peer.new (name : String) (pubkey : Pubkey) (ourSeckey : SecretKey) : Peer :=
  ⟨name, pubkey, precompute pubkey.inner ourSeckey⟩

/-- A temporary, nameless peer. -/
def Peer.tmp (pubkey : Pubkey) (ourSeckey : SecretKey) : Peer :=
  Peer.new "<tmp>" pubkey ourSeckey

structure PeerInfo where
  peer : Peer
  connectionInfo : ConnectionInfo
  active : Bool
  lastPing : DateTime
  deriving DecidableEq

namespace PeerInfo

def setName (self : PeerInfo) (name : String) : PeerInfo :=
  { self with peer := { self.peer with name } }

def setActive (self : PeerInfo) (active : Bool) : PeerInfo := { self with active }

def setLastPing (self : PeerInfo) (lastPing : DateTime) : PeerInfo := { self with lastPing }

end PeerInfo

inductive ConfirmationMode where
  | «private» (whitelist : List Pubkey)
  | confirm (whitelist blacklist : List Pubkey)
  | publicAgent (whitelist blacklist : List Pubkey)

structure PeeringConfig where
  confirmation : ConfirmationMode

def PeeringConfig.canConfirm (self : PeeringConfig) (peerPubkey : Pubkey) : Option Bool :=
  match self.confirmation with
  | .private whitelist =>
    if (whitelist.find? (· == peerPubkey)).isSome then some true else some false
  | .confirm whitelist blacklist =>
    if (blacklist.find? (· == peerPubkey)).isSome then some false
    else if (whitelist.find? (· == peerPubkey)).isSome then some true
    else none
  | .publicAgent whitelist blacklist =>
    if (blacklist.find? (· == peerPubkey)).isSome then some false
    else if (whitelist.find? (· == peerPubkey)).isSome then some true
    else some true

end Tp2p
