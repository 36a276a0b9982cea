import Callboard.Text.Basic

/-!
# What can be encoded

UTF-8 has no form for a surrogate code point, and ASCII none for a code point above
0x7F. The first run of code points that cannot be encoded is what an encoding error
names.
-/

set_option autoImplicit false

namespace Callboard.Text

/-- A run of code points that cannot be encoded: how many code points are in front,
the first one of the run, and how many they are. -/
structure Unencodable where
  position : Nat
  first : CodePoint
  count : Nat
  deriving DecidableEq

namespace Unencodable

def escape (c : CodePoint) : Text :=
  if c < 0x100 then chars "\\x" ++ hex 2 c
  else if c < 0x10000 then chars "\\u" ++ hex 4 c
  else chars "\\U" ++ hex 8 c

def subject (u : Unencodable) : Text :=
  if u.count = 1 then
    chars "character '" ++ escape u.first ++ chars "' in position " ++ decimal u.position
  else
    chars "characters in position " ++ decimal u.position ++ chars "-" ++
      decimal (u.position + u.count - 1)

def message (u : Unencodable) : Text :=
  chars "'utf-8' codec can't encode " ++ u.subject ++ chars ": surrogates not allowed"

def asciiMessage (u : Unencodable) : Text :=
  chars "'ascii' codec can't encode " ++ u.subject ++ chars ": ordinal not in range(128)"

end Unencodable

/-- The second argument counts the code points that are already read. -/
def firstRunFrom (p : CodePoint → Bool) : Nat → Text → Option Unencodable
  | _, [] => none
  | position, c :: t =>
    if p c then some ⟨position, c, 1 + (t.takeWhile p).length⟩ else firstRunFrom p (position + 1) t

def isAscii (c : CodePoint) : Bool := c < 0x80

def unencodable? (t : Text) : Option Unencodable := firstRunFrom isSurrogate 0 t

def beyondAscii? (t : Text) : Option Unencodable := firstRunFrom (fun c => !isAscii c) 0 t

theorem firstRunFrom_eq_none_iff (p : CodePoint → Bool) (position : Nat) (t : Text) :
    firstRunFrom p position t = none ↔ t.any p = false := by
  induction t generalizing position with
  | nil => simp [firstRunFrom]
  | cons c t ih =>
    by_cases h : p c = true
    · simp [firstRunFrom, h]
    · simp [firstRunFrom, h, ih]

theorem unencodable?_eq_none_iff (t : Text) :
    unencodable? t = none ↔ t.any isSurrogate = false :=
  firstRunFrom_eq_none_iff isSurrogate 0 t

end Callboard.Text
