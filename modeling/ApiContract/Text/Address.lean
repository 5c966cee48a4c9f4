import ApiContract.Number.Decimal
import ApiContract.Text.Identity

/-!
# Network addresses

Four decimal bytes with points, and eight groups of hexadecimal digits with colons, where `::`
stands for one or more groups of zeros and the last two groups may be written as four bytes.
-/

namespace ApiContract.Address

/-- A decimal number up to 255 without superfluous zeros, and the rest. -/
def byte (cs : List Char) : Option (List Char) :=
  let ds := cs.takeWhile Char.isDigit
  if ds.isEmpty ∨ 3 < ds.length ∨ (1 < ds.length ∧ ds.head? = some '0') ∨
      255 < Decimal.natOfDigits ds then none
  else some (cs.drop ds.length)

def point : List Char → Option (List Char)
  | '.' :: rest => some rest
  | _ => none

/-- Four bytes with points between them, and the rest. -/
def fourBytes (cs : List Char) : Option (List Char) :=
  byte cs >>= point >>= byte >>= point >>= byte >>= point >>= byte

/-- One to four hexadecimal digits, and the rest. -/
def group (cs : List Char) : Option (List Char) :=
  let ds := cs.takeWhile isHexDigit
  if ds.isEmpty ∨ 4 < ds.length then none else some (cs.drop ds.length)

/-- The colon before every group but the first. -/
def separator (first : Bool) (cs : List Char) : Option (List Char) :=
  if first then some cs
  else match cs with
    | ':' :: rest => some rest
    | _ => none

/-- Up to `room` groups: how many were read, whether four bytes ended them, and the rest. -/
def groups : Nat → Bool → List Char → Nat × Bool × List Char
  | 0, _, cs => (0, false, cs)
  | room + 1, first, cs =>
    let bytes := if room = 0 then none else separator first cs >>= fourBytes
    match bytes with
    | some rest => (2, true, rest)
    | none =>
      match separator first cs >>= group with
      | some rest =>
        let (n, ended, rest) := groups room false rest
        (n + 1, ended, rest)
      | none => (0, false, cs)

def isIpv4 (s : String) : Bool := fourBytes s.toList == some []

def isIpv6 (s : String) : Bool :=
  let (head, ended, rest) := groups 8 true s.toList
  if head = 8 then rest.isEmpty
  else if ended then false
  else match rest with
    | ':' :: ':' :: rest => (groups (7 - head) true rest).2.2.isEmpty
    | _ => false

end ApiContract.Address
