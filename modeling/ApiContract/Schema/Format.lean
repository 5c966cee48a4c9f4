import ApiContract.Pattern.Reader
import ApiContract.Schema.Scalar
import ApiContract.Temporal.Instant
import ApiContract.Text.Address

/-!
# Which strings have a format
-/

namespace ApiContract

/-- A part without `@` and blanks, `@`, and such a part again with a point inside it. -/
def isEmail (s : String) : Bool :=
  let cs := s.toList
  let account := cs.takeWhile (· != '@')
  let host := cs.drop (account.length + 1)
  !account.isEmpty && !cs.any isBlank && !host.contains '@' && host.dropLast.tail.contains '.'

def isSchemeChar (c : Char) : Bool := c.isAlphanum || c == '+' || c == '.' || c == '-'

/-- A scheme, a colon, and at least one character after it, none of them blank. -/
def isUri (s : String) : Bool :=
  let cs := s.toList
  let scheme := cs.takeWhile isSchemeChar
  (scheme.head?.map Char.isAlpha).getD false &&
    match cs.drop scheme.length with
    | ':' :: rest => !rest.isEmpty && !rest.any isBlank
    | _ => false

namespace StringFormat

/-- Whether a string has the format. A pattern that is none excludes nothing. -/
def accepts (format : StringFormat) (s : String) : Bool :=
  match format with
  | email => isEmail s
  | uri => isUri s
  | uuid => isUuid s
  | date => isDate s
  | datetime => isDatetime s
  | ipv4 => Address.isIpv4 s
  | ipv6 => Address.isIpv6 s
  | pattern source => (patternOccurs? source s).getD true

end StringFormat

end ApiContract
