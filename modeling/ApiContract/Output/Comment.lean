import ApiContract.Json.Text
import ApiContract.Schema.Definition

/-!
# Documentation comments

A comment of one line stays on that line; a longer one puts each line behind a star.
-/

namespace ApiContract

/-- A line without a carriage return at its end. -/
def dropCarriageReturn (line : List Char) : List Char :=
  if line.getLast? = some '\r' then line.dropLast else line

/-- The lines of a text. A line feed ends a line, alone or after a carriage return; what follows the
last one is a line unless it is empty. -/
def lines (cs : List Char) : List (List Char) := go [] cs
where
  /-- `line` holds the characters of the current line, the last one first. -/
  go (line : List Char) : List Char → List (List Char)
    | [] => if line.isEmpty then [] else [line.reverse]
    | c :: rest =>
      if c = '\n' then dropCarriageReturn line.reverse :: go [] rest else go (c :: line) rest

namespace Documentation

/-- The lines a comment has. -/
def commentLines (d : Documentation) : List String :=
  (lines (d.description.getD "").toList).map String.ofList ++
    (d.example?.map fun j => "@example " ++ j.text).toList ++
    if d.deprecated then ["@deprecated"] else []

/-- The comment in front of a declaration that stands at a margin; nothing where there is nothing to
say. -/
def comment (d : Documentation) (margin : String) : String :=
  match d.commentLines with
  | [] => ""
  | [line] => margin ++ "/** " ++ line ++ " */\n"
  | several =>
    margin ++ "/**\n" ++ String.join (several.map fun line => margin ++ " * " ++ line ++ "\n") ++
      margin ++ " */\n"

end Documentation

end ApiContract
