import Mathlib.Data.List.Basic

/-! Socket addresses and the parser behind `addr.parse::<SocketAddr>()`. -/
namespace Tp2p

inductive SocketAddr where
  | v4 (ip : Vector UInt8 4) (port : UInt16)
  | v6 (ip : Vector UInt16 8) (port : UInt16) (flowinfo scopeId : UInt32)
  deriving DecidableEq

namespace AddrParser

/-- A reader takes a value off the front of the text, or fails and takes nothing. -/
abbrev Reader (α : Type) := List Char → Option (α × List Char)

def readGivenChar (c : Char) : Reader Unit
  | d :: rest => if d = c then some ((), rest) else none
  | [] => none

/-- `char::to_digit`. -/
def toDigit (radix : Nat) (c : Char) : Option Nat :=
  let d :=
    if '0' ≤ c ∧ c ≤ '9' then some (c.toNat - '0'.toNat)
    else if 'a' ≤ c ∧ c ≤ 'z' then some (c.toNat - 'a'.toNat + 10)
    else if 'A' ≤ c ∧ c ≤ 'Z' then some (c.toNat - 'A'.toNat + 10)
    else none
  d.filter (· < radix)

/-- The longest run of digits at the front, and what follows it. -/
def spanDigits (radix : Nat) : List Char → List Nat × List Char
  | [] => ([], [])
  | c :: rest =>
    match toDigit radix c with
    | some d => let (ds, rest') := spanDigits radix rest; (d :: ds, rest')
    | none => ([], c :: rest)

/-- `bound` is one more than the largest value of the number type that is read. -/
def readNumber (radix : Nat) (maxDigits : Option Nat) (allowZeroPrefix : Bool) (bound : Nat) :
    Reader Nat := fun s =>
  let (digits, rest) := spanDigits radix s
  let value := digits.foldl (fun acc d => acc * radix + d) 0
  if maxDigits.any (· < digits.length) then none
  else if digits = [] then none
  else if !allowZeroPrefix && digits.head? == some 0 && 1 < digits.length then none
  else if value < bound then some (value, rest)
  else none

/-- A separator stands before every element but the first. -/
def readSeparator {α : Type} (sep : Char) (index : Nat) (inner : Reader α) : Reader α := fun s =>
  if 0 < index then do let (_, s) ← readGivenChar sep s; inner s
  else inner s

/-- Octal notation is not accepted in an octet. -/
def readIpv4Addr : Reader (Vector UInt8 4) := fun s => do
  let octet := readNumber 10 (some 3) false UInt8.size
  let (a, s) ← readSeparator '.' 0 octet s
  let (b, s) ← readSeparator '.' 1 octet s
  let (c, s) ← readSeparator '.' 2 octet s
  let (d, s) ← readSeparator '.' 3 octet s
  return (#v[.ofNat a, .ofNat b, .ofNat c, .ofNat d], s)

/-- Reads up to `left` more groups, of which `index` precede; the flag says that
the groups end in an embedded IPv4 address. -/
def readGroups (index : Nat) : Nat → List Char → (List Nat × Bool) × List Char
  | 0, s => (([], false), s)
  | left + 1, s =>
    let ipv4 := if 0 < left then readSeparator ':' index readIpv4Addr s else none
    match ipv4 with
    | some (v4, s) =>
      (([v4[0].toNat * 256 + v4[1].toNat, v4[2].toNat * 256 + v4[3].toNat], true), s)
    | none =>
      match readSeparator ':' index (readNumber 16 (some 4) true UInt16.size) s with
      | some (group, s) =>
        let ((groups, v4), s) := readGroups (index + 1) left s
        ((group :: groups, v4), s)
      | none => (([], false), s)

def ipv6OfGroups (groups : List Nat) : Vector UInt16 8 :=
  .ofFn fun i => .ofNat (groups.getD i 0)

/-- A `::` stands for at least one group of zeroes, and no IPv4 part may precede it. -/
def readIpv6Addr : Reader (Vector UInt16 8) := fun s =>
  let ((head, headIpv4), s) := readGroups 0 8 s
  if head.length = 8 then some (ipv6OfGroups head, s)
  else if headIpv4 then none
  else do
    let (_, s) ← readGivenChar ':' s
    let (_, s) ← readGivenChar ':' s
    let ((tail, _), s) := readGroups 0 (8 - (head.length + 1)) s
    return (ipv6OfGroups (head ++ List.replicate (8 - head.length - tail.length) 0 ++ tail), s)

def readPort : Reader Nat := fun s => do
  let (_, s) ← readGivenChar ':' s
  readNumber 10 none true UInt16.size s

def readScopeId : Reader Nat := fun s => do
  let (_, s) ← readGivenChar '%' s
  readNumber 10 none true UInt32.size s

def readSocketAddrV4 : Reader SocketAddr := fun s => do
  let (ip, s) ← readIpv4Addr s
  let (port, s) ← readPort s
  return (.v4 ip (.ofNat port), s)

def readSocketAddrV6 : Reader SocketAddr := fun s => do
  let (_, s) ← readGivenChar '[' s
  let (ip, s) ← readIpv6Addr s
  let (scopeId, s) := (readScopeId s).getD (0, s)
  let (_, s) ← readGivenChar ']' s
  let (port, s) ← readPort s
  return (.v6 ip (.ofNat port) 0 (.ofNat scopeId), s)

end AddrParser

/-- The whole text has to be one address. -/
def SocketAddr.parse (addr : String) : Option SocketAddr :=
  match AddrParser.readSocketAddrV4 addr.toList <|> AddrParser.readSocketAddrV6 addr.toList with
  | some (sock, []) => some sock
  | _ => none

example : SocketAddr.parse "54.228.109.71:3338" = some (.v4 #v[54, 228, 109, 71] 3338) := by decide
example : SocketAddr.parse "127.0.0.01:1" = none := by decide
example : SocketAddr.parse "[fe80::1%7]:80" = some (.v6 #v[0xfe80, 0, 0, 0, 0, 0, 0, 1] 80 0 7) := by decide

end Tp2p
