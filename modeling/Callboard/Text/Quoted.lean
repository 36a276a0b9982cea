import Callboard.Text.Printable

/-!
# Quoted texts

How a text is shown inside a message. It stands between apostrophes, or between
double quotes when it holds an apostrophe and no double quote. The delimiter, the
backslash and every code point that is not printable are escaped.
-/

set_option autoImplicit false

namespace Callboard.Text

def quotedCodePoint (delimiter c : CodePoint) : Text :=
  if c = delimiter ∨ c = backslash then [backslash, c]
  else if c = 0x0A then chars "\\n"
  else if c = 0x0D then chars "\\r"
  else if c = 0x09 then chars "\\t"
  else if isPrintable c then [c]
  else if c < 0x100 then chars "\\x" ++ hex 2 c
  else if c < 0x10000 then chars "\\u" ++ hex 4 c
  else chars "\\U" ++ hex 8 c

def delimiterFor (t : Text) : CodePoint :=
  if t.contains apostrophe && !t.contains quote then quote else apostrophe

def quoted (t : Text) : Text :=
  let delimiter := delimiterFor t
  [delimiter] ++ t.flatMap (quotedCodePoint delimiter) ++ [delimiter]

end Callboard.Text
