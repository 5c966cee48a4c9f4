import ApiContract.Output.Comment
import ApiContract.Output.Quoted
import ApiContract.Output.Settings

/-!
# Type expressions

The types of generated declarations as trees, and how they are written.
-/

namespace ApiContract

mutual

inductive TypeExpr where
  /-- A type of the language itself, such as `string`. -/
  | builtin (word : String)
  /-- A registered type. -/
  | named (name : String)
  /-- One value. -/
  | literal (value : Json)
  | oneOf (alternatives : List TypeExpr)
  | orNull (e : TypeExpr)
  | list (element : TypeExpr)
  | record (members : List TypeMember)

/-- A member of a record with its documentation. -/
structure TypeMember where
  docs : Documentation
  key : String
  optional : Bool
  type : TypeExpr

end

namespace TypeExpr

instance : Inhabited TypeExpr := ⟨builtin "unknown"⟩

/-- Whether a text holds an alternative bar with blanks around it. -/
def hasBar : List Char → Bool
  | ' ' :: '|' :: ' ' :: _ => true
  | _ :: rest => hasBar rest
  | [] => false

/-- An element type with an alternative in it stands in parentheses. -/
def listText (element : String) : String :=
  if hasBar element.toList then "(" ++ element ++ ")[]" else element ++ "[]"

mutual

/-- The text of a type on a line some steps in. -/
def text (i : Indentation) (depth : Nat) : TypeExpr → String
  | builtin word => word
  | named name => name
  | literal value => Script.literal value
  | oneOf alternatives => String.intercalate " | " (texts i depth alternatives)
  | orNull e => text i depth e ++ " | null"
  | list element => listText (text i depth element)
  | record [] => "\x7b\x7d"
  | record (m :: rest) =>
    "\x7b\n" ++ memberLines i (depth + 1) (m :: rest) ++ i.margin depth ++ "\x7d"

def texts (i : Indentation) (depth : Nat) : List TypeExpr → List String
  | [] => []
  | e :: rest => text i depth e :: texts i depth rest

def memberLines (i : Indentation) (depth : Nat) : List TypeMember → String
  | [] => ""
  | { docs, key, optional, type } :: rest =>
    docs.comment (i.margin depth) ++ i.margin depth ++ Script.key key ++
      (if optional then "?" else "") ++ ": " ++ text i depth type ++ ";\n" ++
      memberLines i depth rest

end

mutual

/-- The registered types a type mentions, in order of mention. -/
def names : TypeExpr → List String
  | builtin _ | literal _ => []
  | named name => [name]
  | oneOf alternatives => namesOfList alternatives
  | orNull e => names e
  | list element => names element
  | record members => namesOfMembers members

def namesOfList : List TypeExpr → List String
  | [] => []
  | e :: rest => names e ++ namesOfList rest

def namesOfMembers : List TypeMember → List String
  | [] => []
  | { type, .. } :: rest => names type ++ namesOfMembers rest

end

end TypeExpr

end ApiContract
