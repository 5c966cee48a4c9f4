/-!
# Patterns of text

A pattern denotes a relation between positions of a text: it leads from `i` to `j` when it matches
the characters between them. `reach` computes the image of a whole set of positions at once. A set
of positions is a natural number whose bit `i` stands for position `i`, so that one step over a
character is a shift, and a repetition is the closure of its body.
-/

namespace ApiContract

abbrev CharSet := Char → Bool

/-- A condition on a position, given the characters on either side of it. -/
abbrev Boundary := Option Char → Option Char → Bool

inductive Pattern where
  | empty
  | one (set : CharSet)
  | boundary (condition : Boundary)
  | seq (first second : Pattern)
  | either (left right : Pattern)
  | many (body : Pattern)
  | counted (body : Pattern) (least : Nat) (more : Option Nat)

namespace Pattern

/-- A set of positions in a text. -/
abbrev Positions := Nat

/-- The positions whose next character is in the set. -/
def starts (set : CharSet) : Nat → List Char → Positions
  | _, [] => 0
  | i, c :: rest => (if set c then 1 <<< i else 0) + starts set (i + 1) rest

/-- The positions at which a condition holds, from position `i` and the character before it. -/
def holding (condition : Boundary) : Nat → Option Char → List Char → Positions
  | i, before, [] => if condition before none then 1 <<< i else 0
  | i, before, c :: rest =>
    (if condition before (some c) then 1 <<< i else 0) + holding condition (i + 1) (some c) rest

/-- The least set that contains `s` and is closed under `step`; the first argument bounds how often
it may grow. -/
def closure (step : Positions → Positions) : Nat → Positions → Positions
  | 0, s => s
  | n + 1, s =>
    let grown := s ||| step s
    if grown = s then s else closure step n grown

def iterate (step : Positions → Positions) : Nat → Positions → Positions
  | 0, s => s
  | n + 1, s => iterate step n (step s)

/-- All positions reached with at most `n` steps. -/
def upTo (step : Positions → Positions) : Nat → Positions → Positions
  | 0, s => s
  | n + 1, s =>
    let grown := s ||| step s
    if grown = s then s else upTo step n grown

/-- The positions to which the pattern leads from the positions `s` of a text. -/
def reach (text : List Char) : Pattern → Positions → Positions
  | empty, s => s
  | one set, s => (s &&& starts set 0 text) <<< 1
  | boundary condition, s => s &&& holding condition 0 none text
  | seq p q, s => reach text q (reach text p s)
  | either p q, s => reach text p s ||| reach text q s
  | many p, s => closure (reach text p) (text.length + 1) s
  | counted p least none, s =>
    closure (reach text p) (text.length + 1) (iterate (reach text p) least s)
  | counted p least (some more), s =>
    upTo (reach text p) more (iterate (reach text p) least s)

/-- Whether the pattern matches some part of the text. -/
def occursIn (p : Pattern) (text : List Char) : Bool :=
  p.reach text (1 <<< (text.length + 1) - 1) != 0

/-- Patterns one after another. -/
def sequence : List Pattern → Pattern
  | [] => empty
  | [p] => p
  | p :: rest => seq p (sequence rest)

/-- Patterns of which one has to match. -/
def alternatives : List Pattern → Pattern
  | [] => empty
  | [p] => p
  | p :: rest => either p (alternatives rest)

end Pattern

end ApiContract
