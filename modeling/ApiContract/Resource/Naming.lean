import ApiContract.Text.Words

/-!
# Names of resources

A resource is named in the singular with capitals; associations and root keys use the plural and
lower case. The rules of number are those of regular English nouns.
-/

namespace ApiContract

/-- An identifier as the name of a type. -/
def typeName (name : String) : String := Words.pascal name

/-- What is left of a text in front of an ending, if it has that ending. -/
def stem? (ending word : List Char) : Option (List Char) :=
  if ending.isSuffixOf word then some (word.take (word.length - ending.length)) else none

namespace Noun

def singularChars (word : List Char) : List Char :=
  match stem? "ies".toList word with
  | some stem => stem ++ ['y']
  | none =>
    let sibilant := ["sses", "shes", "ches", "xes"].findSome? fun ending =>
      (stem? ending.toList word).map fun stem => stem ++ ending.toList.dropLast.dropLast
    match sibilant with
    | some singular => singular
    | none =>
      match stem? ['s'] word with
      | some stem => if (stem? ['s', 's'] word).isSome then word else stem
      | none => word

def isVowel (c : Char) : Bool := c == 'a' || c == 'e' || c == 'i' || c == 'o' || c == 'u'

def pluralChars (word : List Char) : List Char :=
  match stem? ['y'] word with
  | some stem =>
    if (stem.getLast?.map isVowel).getD false then word ++ ['s'] else stem ++ "ies".toList
  | none =>
    if ["s", "x", "ch", "sh"].any fun ending => ending.toList.isSuffixOf word then
      word ++ "es".toList
    else word ++ ['s']

/-- The singular of a word. -/
def singular (word : String) : String := String.ofList (singularChars word.toList)

/-- The plural of a word. -/
def plural (word : String) : String := String.ofList (pluralChars word.toList)

end Noun

/-- The keys under which responses hold one record and several. -/
structure RootKey where
  singular : String
  plural : String
  deriving DecidableEq, Inhabited

/-- The root keys that a type's name suggests. -/
def RootKey.ofTypeName (name : String) : RootKey :=
  let singular := Words.snake name
  { singular, plural := Noun.plural singular }

end ApiContract
