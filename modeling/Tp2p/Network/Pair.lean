import Tp2p.Lib.Fleet
import Tp2p.Node.Opening

/-! Two nodes, and the key they share. -/
namespace Tp2p
open Transition

section
variable [Sodium]

/-- Who the two nodes are. -/
structure Pair where
  name : Side → String
  keypair : Side → Keypair
  config : Side → PeeringConfig

namespace Pair
variable {pair : Pair}

def pubkey (pair : Pair) (p : Side) : Pubkey := (pair.keypair p).toPubkey

/-- The nodes as they were created. -/
def new (pair : Pair) (T : Type) [DecidableEq T] (p : Side) : Sync T :=
  Sync.new (pair.name p) (pair.keypair p) (pair.config p)

/-- The key that a node shares with the other. -/
def sharedKey (pair : Pair) (p : Side) : PrecomputedKey :=
  precompute (pair.keypair p.other).pubkey (pair.keypair p).seckey

theorem sharedKey_other (laws : BoxLaws) (matching : ∀ p, (pair.keypair p).Matching) (p : Side) :
    pair.sharedKey p.other = pair.sharedKey p := by
  cases p with
  | left => exact (matching .left).shared_key laws (matching .right)
  | right => exact (matching .right).shared_key laws (matching .left)

end Pair

section
variable {U T S : Type}

/-- What the actions send on a connection. -/
def sentOn (c : ConnectionInfo) (actions : List (Action U T S)) : List MessageWrapped :=
  actions.filterMap fun
    | .messageSend c' message => if c' = c then some message else none
    | _ => none

theorem mem_sentOn {c : ConnectionInfo} {actions : List (Action U T S)} {message : MessageWrapped} :
    message ∈ sentOn c actions ↔ .messageSend c message ∈ actions := by
  simp only [sentOn, List.mem_filterMap]
  constructor
  · rintro ⟨action, ha, hs⟩
    cases action with
    | messageSend c' message' =>
      simp only at hs
      split at hs
      · next hc =>
        cases hs
        rw [← hc]
        exact ha
      · cases hs
    | _ => cases hs
  · intro ha
    exact ⟨_, ha, if_pos rfl⟩

@[simp] theorem sentOn_message (c : ConnectionInfo) (m : MessageWrapped) :
    sentOn c ([.messageSend c m] : List (Action U T S)) = [m] := by
  simp [sentOn]

@[simp] theorem sentOn_reply (c : ConnectionInfo) (a : SyncAction T) (m : MessageWrapped) :
    sentOn c ([.sync a, .messageSend c m] : List (Action U T S)) = [m] := by
  simp [sentOn]

end
end

namespace Sandbox

def aliceAndBob : Pair where
  name
    | .left => "a"
    | .right => "b"
  keypair
    | .left => alice
    | .right => bob
  config _ := anyone

end Sandbox
end Tp2p
