import ApiContract.Error
import ApiContract.Schema.Codec

/-!
# The registry of named types

Each scope keeps a table from names to entries. A name is first free, may be reserved by a
placeholder, and then stands for a type or for another name for good. `lookup` finds the innermost
entry of a name; `resolve` follows other names to a type, for a limited number of steps.
-/

namespace ApiContract

inductive Entry where
  | placeholder
  | defined (type : NamedType)
  | aliasOf (scope : Scope) (name : String)
  deriving Inhabited

/-- The tables of all scopes, in scope order. A scope without names has no table. -/
structure Registry where
  tables : List (Scope × Keyed Entry) := []
  deriving Inhabited

namespace Registry

def empty : Registry := {}

/-- The table of one scope. -/
def table (r : Registry) (scope : Scope) : Keyed Entry := (r.tables.lookup scope).getD []

def entry? (r : Registry) (scope : Scope) (name : String) : Option Entry :=
  (r.table scope).get? name

/-- Puts a table at its scope's place, over the one that stood there. -/
def putTable (scope : Scope) (table : Keyed Entry) :
    List (Scope × Keyed Entry) → List (Scope × Keyed Entry)
  | [] => [(scope, table)]
  | (s, t) :: rest =>
    if scope.before s then (scope, table) :: (s, t) :: rest
    else if scope = s then (scope, table) :: rest
    else (s, t) :: putTable scope table rest

def put (r : Registry) (scope : Scope) (name : String) (e : Entry) : Registry :=
  { r with tables := putTable scope (Keyed.insert name e (r.table scope)) r.tables }

/-- The number of entries in all scopes. -/
def size (r : Registry) : Nat := r.tables.foldr (fun (_, t) n => t.length + n) 0

def scopes (r : Registry) : List Scope := r.tables.map (·.1)

/-! ### Registration -/

/-- Reserves a name that is free in a scope; the second part says whether it was. -/
def reserve (r : Registry) (scope : Scope) (name : String) : Registry × Bool :=
  match r.entry? scope name with
  | some _ => (r, false)
  | none => (r.put scope name .placeholder, true)

/-- Registers a type. Doing so again with the same definition changes nothing. -/
def register (r : Registry) (scope : Scope) (t : NamedType) :
    Except ConfigurationError Registry := do
  t.check
  match r.entry? scope t.name with
  | none | some .placeholder => .ok (r.put scope t.name (.defined t))
  | some (.defined other) =>
    if other.definition.sameValue t.definition then .ok r
    else .error (.conflictingDefinition t.name scope)
  | some (.aliasOf _ _) => .error (.conflictingDefinition t.name scope)

/-- Registers a type under a name that must be reserved in the scope. -/
def define (r : Registry) (scope : Scope) (t : NamedType) :
    Except ConfigurationError Registry :=
  match r.entry? scope t.name with
  | none => .error (.unknownType t.name scope)
  | some _ => r.register scope t

/-- Makes a name stand for another one, as seen from a scope of its own. -/
def makeAlias (r : Registry) (scope : Scope) (name : String) (targetScope : Scope)
    (target : String) : Except ConfigurationError Registry :=
  match r.entry? scope name with
  | none | some .placeholder => .ok (r.put scope name (.aliasOf targetScope target))
  | some (.aliasOf s n) =>
    if s = targetScope ∧ n = target then .ok r
    else .error (.conflictingDefinition name scope)
  | some (.defined _) => .error (.conflictingDefinition name scope)

/-! ### Lookup -/

/-- The entry of a name in the first of some scopes that has one, and that scope. -/
def lookupIn (r : Registry) (name : String) : List Scope → Option (Scope × Entry)
  | [] => none
  | s :: rest =>
    match r.entry? s name with
    | some e => some (s, e)
    | none => lookupIn r name rest

/-- The entry a name has from a scope, and the scope that holds it. -/
def lookup (r : Registry) (scope : Scope) (name : String) : Option (Scope × Entry) :=
  r.lookupIn name scope.chain

def contains (r : Registry) (scope : Scope) (name : String) : Bool :=
  (r.lookup scope name).isSome

/-- How often one name may lead to another before a search is given up. -/
def maxHops : Nat := 16

/-- Follows names to a type, looking at most as many of them up as the first argument says. -/
def resolveWithin (r : Registry) : Nat → Scope → String → Except ConfigurationError NamedType
  | 0, scope, name => .error (.unknownType name scope)
  | hops + 1, scope, name =>
    match r.lookup scope name with
    | some (_, .defined t) => .ok t
    | some (found, .placeholder) => .error (.undefinedPlaceholder name found)
    | some (_, .aliasOf s n) => resolveWithin r hops s n
    | none => .error (.unknownType name scope)

/-- The type a name stands for from a scope. -/
def resolve (r : Registry) (scope : Scope) (name : String) :
    Except ConfigurationError NamedType :=
  r.resolveWithin maxHops scope name

/-- The names visible from a scope, each with the scope that holds it. -/
def visible (r : Registry) (scope : Scope) : Keyed Scope :=
  scope.chain.foldr
    (fun s names => (r.table s).foldl (fun names p => Keyed.insert p.1 s names) names) []

end Registry

/-- A registry as seen from one scope. -/
structure View where
  registry : Registry
  scope : Scope

namespace View

def resolve (v : View) (name : String) : Except ConfigurationError NamedType :=
  v.registry.resolve v.scope name

/-- The definition a name stands for, if it stands for one. -/
def definition? (v : View) (name : String) : Option Definition :=
  match v.resolve name with
  | .ok t => some t.definition
  | .error _ => none

/-- Follows references to a definition that is none, for a limited number of steps. The second part
says whether any definition on the way allows `null`. -/
def derefWithin (v : View) (name : String) : Nat → Definition → Bool →
    Except ConfigurationError (Definition × Bool)
  | 0, _, _ => .error (.invalidDefinition name .endlessReferences)
  | hops + 1, d, nullable =>
    match d.kind with
    | .reference target => do
      let t ← v.resolve target
      derefWithin v name hops t.definition (nullable || t.definition.nullable)
    | _ => .ok (d, nullable)

def deref (v : View) (d : Definition) : Except ConfigurationError (Definition × Bool) :=
  v.derefWithin (d.target?.getD "") Registry.maxHops d d.nullable

/-- The values of a registered enumeration. -/
def enumValues (v : View) (name : String) : Except ConfigurationError (List String) := do
  let t ← v.resolve name
  match t.definition.inlineValues? with
  | some values => .ok values
  | none => .error (.invalidDefinition name .notAnEnum)

end View

end ApiContract
