/-!
# Universally unique identifiers
-/

namespace ApiContract

def isHexDigit (c : Char) : Bool :=
  c.isDigit || ('a' ≤ c && c ≤ 'f') || ('A' ≤ c && c ≤ 'F')

/-- Groups of hexadecimal digits of the given lengths with hyphens between them. -/
def isHexGroups : List Nat → List Char → Bool
  | [], cs => cs.isEmpty
  | [n], cs => cs.length == n && cs.all isHexDigit
  | n :: ns, cs =>
    (cs.take n).length == n && (cs.take n).all isHexDigit &&
      match cs.drop n with
      | '-' :: rest => isHexGroups ns rest
      | _ => false

def isUuid (s : String) : Bool := isHexGroups [8, 4, 4, 4, 12] s.toList

end ApiContract
