import Callboard.Text.Blank

/-!
# Identifiers

An identifier is an ASCII letter or an underscore, followed by ASCII letters,
digits and underscores. A key ahead is an identifier and a colon, with blanks in
front of either.
-/

set_option autoImplicit false

namespace Callboard.Text

def isIdentifierStart (c : CodePoint) : Bool := isLetter c || c == underscore

def isIdentifierPart (c : CodePoint) : Bool := isIdentifierStart c || isAsciiDigit c

def opensKey (c : CodePoint) : Bool := c == openBrace || c == comma

/-- A key ahead: the blanks in front of the identifier, the identifier, and the
blanks in front of the colon. -/
structure KeyAhead where
  before : Text
  name : Text
  behind : Text
  deriving DecidableEq

def keyAhead? (t : Text) : Option KeyAhead :=
  match skipBlank t with
  | [] => none
  | c :: r =>
    if isIdentifierStart c then
      let after := r.dropWhile isIdentifierPart
      match skipBlank after with
      | colon :: _ =>
        some ⟨t.takeWhile isBlank, c :: r.takeWhile isIdentifierPart, after.takeWhile isBlank⟩
      | _ => none
    else none

/-- The code points that a key takes, the colon left out. -/
def KeyAhead.size (k : KeyAhead) : Nat := k.before.length + k.name.length + k.behind.length

end Callboard.Text
