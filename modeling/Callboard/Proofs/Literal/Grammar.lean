import Callboard.Literal.Reader
import Callboard.Proofs.Number.Spelling
import Callboard.Proofs.Value.Fields

/-!
# The grammar of literals

What a literal is and which value it stands for, said without a reader. A document
is one value with blanks around it. Values are texts between quotes, numbers, four
words, lists and mappings; blanks may stand between any two tokens, and a comma may
follow the last item. The grammar is cut off at a depth: a value takes one level, and
its items take theirs inside of it.
-/

set_option autoImplicit false

namespace Callboard.Literal

open Text

def Blanks (b : Text) : Prop := b.all isBlank = true

theorem blanks_nil : Blanks [] := rfl

theorem blanks_space : Blanks [space] := rfl

theorem Blanks.append {a b : Text} (ha : Blanks a) (hb : Blanks b) : Blanks (a ++ b) := by
  unfold Blanks at *
  rw [List.all_append, ha, hb]
  rfl

def escapeLetters : List (CodePoint × CodePoint) := [
  (quote, quote), (backslash, backslash), (slash, slash), (0x62, 0x08), (0x66, 0x0C),
  (0x6E, 0x0A), (0x72, 0x0D), (0x74, 0x09)]

inductive HexEscape : Text → CodePoint → Prop where
  | mk {a b c d : CodePoint} {x y z w : Nat} (ha : hexValue? a = some x)
      (hb : hexValue? b = some y) (hc : hexValue? c = some z) (hd : hexValue? d = some w) :
      HexEscape [backslash, Json.letterU, a, b, c, d] (0x1000 * x + 0x100 * y + 0x10 * z + w)

def LowAhead (t : Text) : Prop :=
  ∃ e low r, HexEscape e low ∧ isLowSurrogate low = true ∧ t = e ++ r

/-- The inside of a quoted token, and the text that it stands for. An escaped high
surrogate directly in front of an escaped low one stands for one code point with it. -/
inductive Inside : Text → Text → Prop where
  | empty : Inside [] []
  | plain {c : CodePoint} {r t : Text} (hq : c ≠ quote) (hb : c ≠ backslash) (hn : c ≠ newline)
      (h : Inside r t) : Inside (c :: r) (c :: t)
  | letter {e c : CodePoint} {r t : Text} (hl : (e, c) ∈ escapeLetters) (h : Inside r t) :
      Inside (backslash :: e :: r) (c :: t)
  | pair {e f r t : Text} {high low : CodePoint} (he : HexEscape e high) (hf : HexEscape f low)
      (hh : isHighSurrogate high = true) (hl : isLowSurrogate low = true) (h : Inside r t) :
      Inside (e ++ (f ++ r)) (joinSurrogates high low :: t)
  | hex {e r t : Text} {c : CodePoint} (he : HexEscape e c)
      (hc : isHighSurrogate c = true → ¬ LowAhead r) (h : Inside r t) : Inside (e ++ r) (c :: t)

def Quoted (s t : Text) : Prop := ∃ inside, s = quote :: (inside ++ [quote]) ∧ Inside inside t

def words : List (Text × Value) := [
  (chars "true", .bool true), (chars "false", .bool false), (chars "null", .null),
  (chars "undefined", .null)]

section
variable (D : Text → Value → Prop)

/-- What may stand between the brackets of a list whose items are given by `D`. -/
inductive Items : Text → List Value → Prop where
  | empty {b : Text} (hb : Blanks b) : Items b []
  | last {a t b : Text} {v : Value} (ha : Blanks a) (ht : D t v) (hb : Blanks b) :
      Items (a ++ (t ++ b)) [v]
  | more {a t b r : Text} {v : Value} {vs : List Value} (ha : Blanks a) (ht : D t v)
      (hb : Blanks b) (hr : Items r vs) : Items (a ++ (t ++ (b ++ comma :: r))) (v :: vs)

inductive Pair : Text → Text × Value → Prop where
  | mk {a s b c t d k : Text} {v : Value} (ha : Blanks a) (hs : Quoted s k) (hb : Blanks b)
      (hc : Blanks c) (ht : D t v) (hd : Blanks d) :
      Pair (a ++ (s ++ (b ++ colon :: (c ++ (t ++ d))))) (k, v)

inductive Pairs : Text → List (Text × Value) → Prop where
  | empty {b : Text} (hb : Blanks b) : Pairs b []
  | last {t : Text} {p : Text × Value} (ht : Pair D t p) : Pairs t [p]
  | more {t r : Text} {p : Text × Value} {ps : List (Text × Value)} (ht : Pair D t p)
      (hr : Pairs r ps) : Pairs (t ++ comma :: r) (p :: ps)

inductive Over : Text → Value → Prop where
  | text {s t : Text} (h : Quoted s t) : Over s (.text t)
  | int {s : Text} {n : Numeral} (h : Numeral.Spells s n) (hi : Numeral.Integral s)
      (hl : n.whole.length ≤ integerDigitLimit) : Over s (.int n.toInt)
  | float {s : Text} {n : Numeral} (h : Numeral.Spells s n) (hf : ¬ Numeral.Integral s) :
      Over s (.float n.toBinary64)
  | word {s : Text} {v : Value} (h : (s, v) ∈ words) : Over s v
  | list {body : Text} {vs : List Value} (h : Items D body vs) :
      Over (openBracket :: (body ++ [closeBracket])) (.list vs)
  | mapping {body : Text} {ps : List (Text × Value)} (h : Pairs D body ps) :
      Over (openBrace :: (body ++ [closeBrace])) (.record (settled ps))

end

/-- The text is a value that takes at most the given number of levels. -/
def Denotes : Nat → Text → Value → Prop
  | 0 => fun _ _ => False
  | levels + 1 => Over (Denotes levels)

/-- A whole text that is one value, nowhere deeper than the greatest depth. -/
def Document (t : Text) (v : Value) : Prop :=
  ∃ a body b, t = a ++ (body ++ b) ∧ Blanks a ∧ Denotes (maxDepth + 1) body v ∧ Blanks b

end Callboard.Literal
