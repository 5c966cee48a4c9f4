import ApiContract.Pattern.Property

/-!
# Patterns as they are written

What a pattern is made of before it is known which texts match: the classes with their operations,
the groups, and the flags that are in force. A pattern may not be nested too deeply, nor may it need
too many steps once its repetitions are written out.
-/

namespace ApiContract.Pattern

/-- What is in force at a place of a pattern. -/
structure Flags where
  ignoreCase : Bool := false
  multiLine : Bool := false
  dotAll : Bool := false
  verbose : Bool := false
  unicode : Bool := true
  crlf : Bool := false

/-- A class as the flags take it. -/
def Flags.cased (f : Flags) (s : CharSet) : CharSet :=
  if !f.ignoreCase then s
  else if f.unicode then CharClass.ignoringCase s
  else CharClass.ignoringAsciiCase s

/-! ### Classes -/

/-- How two sides of a class are joined. -/
abbrev SetOperation := CharSet → CharSet → CharSet

/-- A class between brackets, or a part of one. -/
inductive ClassTree where
  | leaf (set : CharSet)
  | items (parts : List ClassTree)
  | joined (operation : SetOperation) (left right : ClassTree)
  | bracketed (negated : Bool) (inner : ClassTree)

namespace ClassTree

/-- Parts side by side; one alone stands for itself. -/
def ofParts : List ClassTree → ClassTree
  | [] => leaf CharClass.none
  | [part] => part
  | parts => items parts

/-- A side of an operation with the one before it, if there is one. -/
def joinedTo : Option (ClassTree × SetOperation) → ClassTree → ClassTree
  | none, side => side
  | some (left, operation), side => joined operation left side

mutual

/-- The characters in a class, given the flags that are in force in it. -/
def set (f : Flags) : ClassTree → CharSet
  | leaf s => s
  | items parts => sets f parts
  | joined operation left right => operation (f.cased (left.set f)) (f.cased (right.set f))
  | bracketed negated inner =>
    let s := f.cased (inner.set f)
    if negated then CharClass.complement s else s

def sets (f : Flags) : List ClassTree → CharSet
  | [] => CharClass.none
  | part :: rest => CharClass.union (part.set f) (sets f rest)

end

mutual

/-- How many levels there are: brackets, parts side by side, and operations. -/
def depth : ClassTree → Nat
  | leaf _ => 0
  | items parts => depths parts + 1
  | joined _ left right => max left.depth right.depth + 1
  | bracketed _ inner => inner.depth + 1

def depths : List ClassTree → Nat
  | [] => 0
  | part :: rest => max part.depth (depths rest)

end

end ClassTree

/-! ### Patterns -/

inductive Tree where
  | empty
  /-- Flags for what follows. -/
  | setting
  | boundary (condition : Boundary)
  | one (set : CharSet)
  | bracketed (f : Flags) (part : ClassTree)
  | group (inner : Tree)
  | counted (body : Tree) (least : Nat) (more : Option Nat)
  | sequence (parts : List Tree)
  | branches (parts : List Tree)

namespace Tree

/-- Parts one after another; one alone stands for itself. -/
def ofParts : List Tree → Tree
  | [] => empty
  | [part] => part
  | parts => sequence parts

mutual

def pattern : Tree → Pattern
  | empty | setting => .empty
  | boundary condition => .boundary condition
  | one set => .one set
  | bracketed f part => .one (part.set f)
  | group inner => inner.pattern
  | counted body least more => .counted body.pattern least more
  | sequence parts => .sequence (patterns parts)
  | branches parts => .alternatives (patterns parts)

def patterns : List Tree → List Pattern
  | [] => []
  | part :: rest => part.pattern :: patterns rest

end

mutual

def depth : Tree → Nat
  | empty | setting | boundary _ | one _ => 0
  | bracketed _ part => part.depth
  | group inner | counted inner _ _ => inner.depth + 1
  | sequence parts | branches parts => depths parts + 1

def depths : List Tree → Nat
  | [] => 0
  | part :: rest => max part.depth (depths rest)

end

mutual

/-- How many steps there are at least, from one character to the next. A repetition has its body as
often as it may be passed, or as it has to be if there is no end. -/
def steps : Tree → Nat
  | empty | setting | boundary _ => 0
  | one _ | bracketed _ _ => 1
  | group inner => inner.steps
  | counted body least none => max least 1 * body.steps
  | counted body least (some more) => (least + more) * body.steps
  | sequence parts => totalSteps parts
  | branches parts => mostSteps parts

def totalSteps : List Tree → Nat
  | [] => 0
  | part :: rest => part.steps + totalSteps rest

def mostSteps : List Tree → Nat
  | [] => 0
  | part :: rest => max part.steps (mostSteps rest)

end

def maxDepth : Nat := 250

/-- A pattern may take up 10 MiB, and each step takes up 32 bytes. -/
def maxSteps : Nat := 10 * 1024 * 1024 / 32

/-- Whether a pattern keeps the limits. What steps need besides is left out of account. -/
def isModest (t : Tree) : Bool := t.depth ≤ maxDepth && t.steps ≤ maxSteps

end Tree

end ApiContract.Pattern
