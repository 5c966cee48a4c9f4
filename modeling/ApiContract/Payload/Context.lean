import ApiContract.KeyCase
import ApiContract.Registry.Basic

/-!
# What a payload is read against

A payload is read with the names that one scope can see and with keys in one case. Walks over
payloads follow a definition down to a fixed depth.
-/

namespace ApiContract

structure Context where
  view : View
  case : KeyCase

/-- The deepest level that a walk still enters; the root is at level zero. -/
def nestingLimit : Nat := 128

/-- The key of a field in a payload. A name fixed for it wins over the key case. -/
def Field.wireName (case : KeyCase) (f : Field) : String := f.rename.getD (case.apply f.name)

/-- The first variant with a tag. -/
def Variant.tagged? (variants : List Variant) (tag : String) : Option Variant :=
  variants.find? fun v => v.tag == some tag

theorem Variant.tag_of_tagged? {variants : List Variant} {tag : String} {v : Variant}
    (hv : Variant.tagged? variants tag = some v) : v.tag = some tag := by
  simpa using List.find?_some hv

/-- The variant whose tag an object holds under a key. -/
def Variant.chosenBy? (variants : List Variant) (key : String) (j : Json) : Option Variant :=
  (j.get? key >>= Json.string?) >>= tagged? variants

/-- The scalar kind a literal's value belongs to, for values that have one of their own. -/
def Json.literalKind? : Json → Option ScalarKind
  | bool _ => some .boolean
  | int _ => some .integer
  | float _ => some .float
  | _ => none

end ApiContract
