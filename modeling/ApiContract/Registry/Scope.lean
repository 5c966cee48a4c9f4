import ApiContract.Json.Record

/-!
# Scopes of names

A name is registered globally, for one API, or for one contract of an API. From a scope its own
names are visible and those of the scopes around it, the inner ones first.
-/

namespace ApiContract

inductive Scope where
  | global
  | api (name : String)
  | contract (api name : String)
  deriving DecidableEq, Inhabited

namespace Scope

/-- The scope around this one. -/
def parent? : Scope → Option Scope
  | global => none
  | api _ => some global
  | contract a _ => some (api a)

/-- The scope and those around it, innermost first. -/
def chain : Scope → List Scope
  | global => [global]
  | api a => [api a, global]
  | contract a c => [contract a c, api a, global]

theorem chain_eq (s : Scope) :
    s.chain = s :: ((s.parent?.map chain).getD []) := by
  cases s <;> rfl

def apiName? : Scope → Option String
  | global => none
  | api a | contract a _ => some a

def text : Scope → String
  | global => "global"
  | api a => "api:" ++ a
  | contract a c => "contract:" ++ a ++ "/" ++ c

/-- The global scope before APIs, APIs before contracts; each by name. -/
def before : Scope → Scope → Bool
  | global, global => false
  | global, _ => true
  | api _, global => false
  | api a, api b => a < b
  | api _, contract _ _ => true
  | contract a c, contract b d => a < b || (a == b && c < d)
  | contract _ _, _ => false

def ofJson? : Json → Option Scope
  | .object [("api", .string a)] => some (api a)
  | .object [("contract", j)] => do
    let r ← j.recordOf? ["api", "contract"]
    return contract (← Json.required r "api" Json.string?)
      (← Json.required r "contract" Json.string?)
  | j => do if (← j.choice?) = "global" then some global else none

end Scope

end ApiContract
