import Mathlib.Data.List.Basic

/-! Codecs over bytes that carry their own round trip: what is written is read
back off the front of any byte string it is followed by. -/

structure Codec (α : Type) where
  write : α → List UInt8
  read : List UInt8 → Option (α × List UInt8)
  read_write : ∀ a rest, read (write a ++ rest) = some (a, rest)

namespace Codec
variable {α β : Type}

attribute [simp] read_write

/-- The whole byte string is one value. -/
def decode (c : Codec α) (bytes : List UInt8) : Option α :=
  match c.read bytes with
  | some (a, []) => some a
  | _ => none

theorem decode_write (c : Codec α) (a : α) : c.decode (c.write a) = some a := by
  have h := c.read_write a []
  rw [List.append_nil] at h
  simp [decode, h]

def byte : Codec UInt8 where
  write b := [b]
  read
    | b :: rest => some (b, rest)
    | [] => none
  read_write _ _ := rfl

/-- Unary numbers. -/
def readNat : List UInt8 → Option (Nat × List UInt8)
  | [] => none
  | b :: rest => if b = 0 then some (0, rest) else (readNat rest).map fun (n, rest) => (n + 1, rest)

def nat : Codec Nat where
  write n := List.replicate n 1 ++ [0]
  read := readNat
  read_write n rest := by
    induction n with
    | zero => rfl
    | succ n ih => simpa [List.replicate_succ, readNat] using ih

/-- Carry a codec along a section of `g`. -/
def via (c : Codec α) (f : β → α) (g : α → β) (h : ∀ b, g (f b) = b) : Codec β where
  write b := c.write (f b)
  read bytes := (c.read bytes).map fun (a, rest) => (g a, rest)
  read_write b rest := by simp [h]

def pair (c : Codec α) (d : Codec β) : Codec (α × β) where
  write p := c.write p.1 ++ d.write p.2
  read bytes := (c.read bytes).bind fun (a, rest) => (d.read rest).map fun (b, rest) => ((a, b), rest)
  read_write p rest := by simp [List.append_assoc]

def readList (c : Codec α) : Nat → List UInt8 → Option (List α × List UInt8)
  | 0, bytes => some ([], bytes)
  | n + 1, bytes =>
    (c.read bytes).bind fun (a, rest) => (readList c n rest).map fun (as, rest) => (a :: as, rest)

private theorem readList_write (c : Codec α) (as : List α) (rest : List UInt8) :
    readList c as.length (as.flatMap c.write ++ rest) = some (as, rest) := by
  induction as with
  | nil => rfl
  | cons a as ih => simp [readList, List.append_assoc, ih]

/-- The length comes first. -/
def list (c : Codec α) : Codec (List α) where
  write as := nat.write as.length ++ as.flatMap c.write
  read bytes := (nat.read bytes).bind fun (n, rest) => readList c n rest
  read_write as rest := by simp [List.append_assoc, readList_write]

end Codec
