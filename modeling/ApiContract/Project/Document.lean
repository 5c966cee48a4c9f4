import ApiContract.Json.Reader
import ApiContract.KeyCase
import ApiContract.Resource.Basic

/-!
# Contract documents

A document declares types and resources of one namespace.
-/

namespace ApiContract

structure ContractDocument where
  nspace : String
  keyCase : Option KeyCase := none
  types : Keyed Definition := []
  resources : List Resource := []

namespace ContractDocument

/-- The types of a document by name. -/
def typesOfJson? (j : Json) : Option (Keyed Definition) := do
  (← j.object?).mapM fun (name, j) => do return (name, ← Definition.ofJson? j)

def ofJson? (j : Json) : Option ContractDocument := do
  let r ← j.recordOf? ["namespace", "key_case", "types", "resources"]
  return { nspace := ← Json.required r "namespace" Json.string?
           keyCase := ← Json.optional r "key_case" KeyCase.ofJson?
           types := ← Json.defaulted r "types" [] typesOfJson?
           resources := ← Json.defaulted r "resources" [] (Json.listOf? Resource.ofJson?) }

def ofText? (text : String) : Option ContractDocument := Json.read? Json.maxNesting text >>= ofJson?

end ContractDocument

end ApiContract
