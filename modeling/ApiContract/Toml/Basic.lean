import ApiContract.Json

/-!
# Tables of a TOML document

A document is built line by line. A table comes into being by its own header, by a longer header
that passes through it, or by a dotted key; which of them it was decides what may still be added.
-/

namespace ApiContract

inductive TableOrigin where
  | declared
  | implied
  | dotted
  deriving DecidableEq

inductive TomlNode where
  | value (j : Json)
  | table (origin : TableOrigin) (entries : List (String × TomlNode))
  /-- A list of tables, of which the last one is still open. -/
  | tables (closed : List (List (String × TomlNode))) (current : List (String × TomlNode))
  deriving Inhabited

abbrev TomlTable := Keyed TomlNode

namespace TomlTable

/-- Gives a value to a dotted key. No header may have declared a table on its way. -/
def define (j : Json) : List String → TomlTable → Option TomlTable
  | [], _ => none
  | [key], t => if Keyed.contains t key then none else some (Keyed.insert key (.value j) t)
  | key :: rest, t =>
    match Keyed.get? t key with
    | none => do return Keyed.insert key (.table .dotted (← define j rest [])) t
    | some (.table .declared _) => none
    | some (.table origin entries) => do
      return Keyed.insert key (.table origin (← define j rest entries)) t
    | some _ => none

/-- Changes the table that a header's path leads to. -/
def within (change : TomlTable → Option TomlTable) : List String → TomlTable → Option TomlTable
  | [], t => change t
  | key :: rest, t =>
    match Keyed.get? t key with
    | none => do return Keyed.insert key (.table .implied (← within change rest [])) t
    | some (.table origin entries) => do
      return Keyed.insert key (.table origin (← within change rest entries)) t
    | some (.tables closed current) => do
      return Keyed.insert key (.tables closed (← within change rest current)) t
    | some (.value _) => none

/-- Declares a table under a key. Only a table implied so far can be declared again. -/
def declare (key : String) (t : TomlTable) : Option TomlTable :=
  match Keyed.get? t key with
  | none => some (Keyed.insert key (.table .declared []) t)
  | some (.table .implied entries) => some (Keyed.insert key (.table .declared entries) t)
  | some _ => none

/-- Begins one more table of a list of tables. -/
def append (key : String) (t : TomlTable) : Option TomlTable :=
  match Keyed.get? t key with
  | none => some (Keyed.insert key (.tables [] []) t)
  | some (.tables closed current) => some (Keyed.insert key (.tables (closed ++ [current]) []) t)
  | some _ => none

end TomlTable

mutual

def TomlNode.toJson : TomlNode → Json
  | .value j => j
  | .table _ entries => .object (TomlNode.entriesToJson entries)
  | .tables closed current =>
    .array (TomlNode.tablesToJson closed ++ [.object (TomlNode.entriesToJson current)])

def TomlNode.entriesToJson : List (String × TomlNode) → Keyed Json
  | [] => []
  | (key, node) :: rest => (key, node.toJson) :: TomlNode.entriesToJson rest

def TomlNode.tablesToJson : List (List (String × TomlNode)) → List Json
  | [] => []
  | entries :: rest => .object (TomlNode.entriesToJson entries) :: TomlNode.tablesToJson rest

end

/-- A table as an object. -/
def TomlTable.toJson (t : TomlTable) : Json := .object (TomlNode.entriesToJson t)

end ApiContract
