import ApiContract.Registry.Basic

/-!
# Dependencies between names

A type depends on the names its definition mentions, another name on its target. `recursiveNames`
looks for the names on a cycle of dependencies, and `ordered` lists every name a scope can see with
its dependencies in front of it, as far as cycles allow.
-/

namespace ApiContract

namespace Registry

/-- The names a name depends on, each with the scope it is looked up from. -/
def dependencies (r : Registry) (scope : Scope) (name : String) : List (String × Scope) :=
  match r.lookup scope name with
  | some (found, .defined t) => t.definition.references.map fun n => (n, found)
  | some (_, .aliasOf s n) => [(n, s)]
  | _ => []

/-- The number of dependencies all entries have together. -/
def dependencyCount (r : Registry) : Nat :=
  r.tables.foldr
    (fun (s, t) n => t.keys.foldr (fun name n => (r.dependencies s name).length + n) n) 0

/-- References that lead to no type, each with the visible name that makes it. -/
def unresolved (r : Registry) (scope : Scope) : List (String × String) :=
  (r.visible scope).flatMap fun (name, found) =>
    (r.dependencies found name).filterMap fun (dep, depScope) =>
      match r.resolve depScope dep with
      | .ok _ => none
      | .error _ => some (name, dep)

/-- Whether a name on the path can be reached from the pending names; the last pending name comes
first. The first argument bounds the number of steps. -/
def reachesPath (r : Registry) (path : List String) :
    Nat → List String → List (String × Scope) → Bool
  | 0, _, _ => false
  | _ + 1, _, [] => false
  | fuel + 1, seen, (name, scope) :: pending =>
    if seen.contains name then reachesPath r path fuel seen pending
    else
      let deps := r.dependencies scope name
      deps.any (fun (dep, _) => path.contains dep) ||
        reachesPath r path fuel (name :: seen) (deps.reverse ++ pending)

/-- A search for cycles: the names visited, and those marked as recursive. -/
structure CycleSearch where
  visited : List String := []
  recursive : List String := []

/-- Visits a name and what it depends on; `path` leads to it, the nearest name first. -/
def searchCycles (r : Registry) :
    Nat → List String → String → Scope → CycleSearch → CycleSearch
  | 0, _, _, _, found => found
  | fuel + 1, path, name, scope, found =>
    let path := name :: path
    (r.dependencies scope name).foldl
      (fun found (dep, depScope) =>
        if !r.contains depScope dep then found
        else if path.contains dep then
          { found with recursive := dep :: path.takeWhile (· != dep) ++ found.recursive }
        else if !found.visited.contains dep then
          searchCycles r fuel path dep depScope found
        else if found.recursive.contains dep &&
            r.reachesPath path (r.dependencyCount + 1) [] [(dep, depScope)] then
          { found with recursive := path ++ found.recursive }
        else found)
      { found with visited := name :: found.visited }

/-- The names that searches from the visible names mark: those that take part in a cycle of
dependencies, and some that only lead to one. -/
def recursiveNames (r : Registry) (scope : Scope) : List String :=
  let found := (r.visible scope).foldl
    (fun found (name, holder) =>
      if found.visited.contains name then found
      else r.searchCycles (r.size + 1) [] name holder found)
    ({} : CycleSearch)
  sortedNames found.recursive

/-- What a name in dependency order stands for. -/
inductive Listing where
  | defined (type : NamedType)
  | aliasOf (target : String)

structure OrderedType where
  name : String
  listing : Listing
  recursive : Bool

/-- A traversal: the names visited, and the types listed so far, the last one first. -/
structure Traversal where
  visited : List String := []
  listed : List OrderedType := []

/-- Lists a name after what it depends on, unless it was visited before. -/
def visit (r : Registry) (recursive : List String) :
    Nat → String → Scope → Traversal → Except ConfigurationError Traversal
  | 0, _, _, done => .ok done
  | fuel + 1, name, scope, done =>
    if done.visited.contains name then .ok done
    else do
      let done ← (r.dependencies scope name).foldlM
        (fun done (dep, depScope) =>
          if r.contains depScope dep then visit r recursive fuel dep depScope done else .ok done)
        { done with visited := name :: done.visited }
      let listing ← match r.lookup scope name with
        | some (_, .defined t) => .ok (Listing.defined t)
        | some (_, .aliasOf _ target) => .ok (Listing.aliasOf target)
        | some (found, .placeholder) => .error (.undefinedPlaceholder name found)
        | none => .error (.unknownType name scope)
      .ok { done with
        listed := { name, listing, recursive := recursive.contains name } :: done.listed }

/-- Every visible name and what it depends on, dependencies in front. -/
def ordered (r : Registry) (scope : Scope) : Except ConfigurationError (List OrderedType) := do
  let recursive := r.recursiveNames scope
  let done ← (r.visible scope).foldlM
    (fun done (name, holder) => r.visit recursive (r.size + 1) name holder done)
    ({} : Traversal)
  .ok done.listed.reverse

end Registry

end ApiContract
