import ApiContract.Keyed
import ApiContract.Number.Decimal

/-!
# JSON values

Whole numbers and binary fractions are kept apart, since `1` and `1.0` are different values here.
The members of an object stand in key order.
-/

namespace ApiContract

inductive Json where
  | null
  | bool (b : Bool)
  | int (n : Int)
  | float (x : Binary64)
  | string (s : String)
  | array (elements : List Json)
  | object (members : List (String × Json))
  deriving Inhabited

namespace Json

/-- Whole numbers with a sign lie below this, and not below its negative. -/
def signedEnd : Nat := 9223372036854775808

/-- Whole numbers without a sign lie below this. -/
def unsignedEnd : Nat := 18446744073709551616

mutual

def decEq : (a b : Json) → Decidable (a = b)
  | null, null => isTrue rfl
  | bool a, bool b => if h : a = b then isTrue (h ▸ rfl) else isFalse (by simp [h])
  | int a, int b => if h : a = b then isTrue (h ▸ rfl) else isFalse (by simp [h])
  | float a, float b => if h : a = b then isTrue (h ▸ rfl) else isFalse (by simp [h])
  | string a, string b => if h : a = b then isTrue (h ▸ rfl) else isFalse (by simp [h])
  | array a, array b => match decEqElements a b with
    | isTrue h => isTrue (h ▸ rfl)
    | isFalse h => isFalse (by simp [h])
  | object a, object b => match decEqMembers a b with
    | isTrue h => isTrue (h ▸ rfl)
    | isFalse h => isFalse (by simp [h])
  | null, bool _ | null, int _ | null, float _ | null, string _ | null, array _ | null, object _
  | bool _, null | bool _, int _ | bool _, float _ | bool _, string _ | bool _, array _
  | bool _, object _
  | int _, null | int _, bool _ | int _, float _ | int _, string _ | int _, array _
  | int _, object _
  | float _, null | float _, bool _ | float _, int _ | float _, string _ | float _, array _
  | float _, object _
  | string _, null | string _, bool _ | string _, int _ | string _, float _ | string _, array _
  | string _, object _
  | array _, null | array _, bool _ | array _, int _ | array _, float _ | array _, string _
  | array _, object _
  | object _, null | object _, bool _ | object _, int _ | object _, float _ | object _, string _
  | object _, array _ => isFalse (by simp)

def decEqElements : (a b : List Json) → Decidable (a = b)
  | [], [] => isTrue rfl
  | [], _ :: _ | _ :: _, [] => isFalse (by simp)
  | x :: a, y :: b => match decEq x y, decEqElements a b with
    | isTrue h, isTrue h' => isTrue (by rw [h, h'])
    | isFalse h, _ => isFalse (by simp [h])
    | _, isFalse h => isFalse (by simp [h])

def decEqMembers : (a b : List (String × Json)) → Decidable (a = b)
  | [], [] => isTrue rfl
  | [], _ :: _ | _ :: _, [] => isFalse (by simp)
  | (k, x) :: a, (l, y) :: b =>
    if hk : k = l then
      match decEq x y, decEqMembers a b with
      | isTrue h, isTrue h' => isTrue (by rw [hk, h, h'])
      | isFalse h, _ => isFalse (by simp [h])
      | _, isFalse h => isFalse (by simp [h])
    else isFalse (by simp [hk])

end

instance : DecidableEq Json := decEq

mutual

/-- Equal as values: like equality, but for the sign of a zero. -/
def sameValue : Json → Json → Bool
  | null, null => true
  | bool a, bool b => a == b
  | int a, int b => a == b
  | float a, float b => a.sameValue b
  | string a, string b => a == b
  | array a, array b => sameElements a b
  | object a, object b => sameMembers a b
  | _, _ => false

def sameElements : List Json → List Json → Bool
  | [], [] => true
  | x :: a, y :: b => sameValue x y && sameElements a b
  | _, _ => false

def sameMembers : List (String × Json) → List (String × Json) → Bool
  | [], [] => true
  | (k, x) :: a, (l, y) :: b => k == l && sameValue x y && sameMembers a b
  | _, _ => false

end

mutual

theorem sameValue_refl : (j : Json) → j.sameValue j = true
  | null => rfl
  | bool _ | int _ | string _ => by simp only [sameValue, BEq.rfl]
  | float x => by rw [sameValue, Binary64.sameValue_refl]
  | array xs => by rw [sameValue, sameElements_refl xs]
  | object ms => by rw [sameValue, sameMembers_refl ms]

theorem sameElements_refl : (xs : List Json) → sameElements xs xs = true
  | [] => rfl
  | x :: xs => by rw [sameElements, sameValue_refl x, sameElements_refl xs, Bool.and_self]

theorem sameMembers_refl : (ms : List (String × Json)) → sameMembers ms ms = true
  | [] => rfl
  | (k, x) :: ms => by
    rw [sameMembers, sameValue_refl x, sameMembers_refl ms, BEq.rfl, Bool.and_self, Bool.and_self]

end

/-- An object from members in any order, a later one standing over an earlier of the same key. -/
def ofMembers (members : List (String × Json)) : Json := object (Keyed.ofList members)

def strings (xs : List String) : Json := array (xs.map string)

def ofNat (n : Nat) : Json := int n

/-- Whole numbers and binary fractions alike, as the nearest binary fraction. -/
def toBinary64? : Json → Option Binary64
  | int n => Binary64.ofInt? n
  | float x => some x
  | _ => none

def isNull : Json → Bool
  | null => true
  | _ => false

def string? : Json → Option String
  | string s => some s
  | _ => none

def bool? : Json → Option Bool
  | bool b => some b
  | _ => none

def array? : Json → Option (List Json)
  | array xs => some xs
  | _ => none

def object? : Json → Option (Keyed Json)
  | object fs => some fs
  | _ => none

/-- The member of an object under a key. -/
def get? (j : Json) (key : String) : Option Json :=
  match j with
  | object fs => Keyed.get? fs key
  | _ => none

/-- Every element a string. -/
def strings? (j : Json) : Option (List String) := do
  (← j.array?).mapM string?

end Json

end ApiContract
