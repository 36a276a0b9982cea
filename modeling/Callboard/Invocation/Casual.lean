import Callboard.Text.Identifier

/-!
# The casual syntax

Argument text may be typed with apostrophes for quotes and with bare keys.
Normalization turns both into strict literals: first every apostrophe becomes a
quote, then every bare key behind a separator is quoted and the blanks in front
of its colon are dropped. It knows nothing of strings, and works on them as well.
-/

set_option autoImplicit false

namespace Callboard.Invocation

open Text

def straightenQuotes (t : Text) : Text := t.map (fun c => if c = apostrophe then quote else c)

/-- The first argument counts the code points that are already written: those of the key
last found. -/
def quoteKeysFrom : Nat → Text → Text
  | _, [] => []
  | written + 1, _ :: r => quoteKeysFrom written r
  | 0, c :: r =>
    if opensKey c then
      match keyAhead? r with
      | some k => [c] ++ k.before ++ [quote] ++ k.name ++ [quote] ++ quoteKeysFrom k.size r
      | none => c :: quoteKeysFrom 0 r
    else c :: quoteKeysFrom 0 r

def quoteKeys (t : Text) : Text := quoteKeysFrom 0 t

def normalize (t : Text) : Text := quoteKeys (straightenQuotes t)

end Callboard.Invocation
