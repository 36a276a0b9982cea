import Callboard.Proofs.Literal.AnyDepth
import Callboard.Proofs.Literal.Cursor

/-!
# The moves of the cursor

Everything that one step of the machine can do, with the text that it takes: blanks and
one token. Where a step stops with a failure, what stands at the cursor is at fault or
lies too deep, and the reason says which token would have been right there.
-/

set_option autoImplicit false

namespace Callboard.Literal

open Text

/-- What may come next where reading stops: a value, a quoted token, or nothing that could be
chosen freely. -/
inductive Due where
  | value
  | token
  | nothing

def Reason.due : Reason → Due
  | .nestingTooDeep | .unexpectedEnd | .unknownIdentifier _ | .unexpectedCharacter _
  | .numberOutOfRange => .value
  | .unterminatedString | .invalidEscape | .expectedKey => .token
  | .expectedColon | .expectedSeparator _ | .trailingText => .nothing

def Lacks (expected : List CodePoint) (s : Text) : Prop :=
  ∀ c ∈ s.head?, isBlank c = false ∧ c ∉ expected

theorem Lacks.cons {expected : List CodePoint} {s : Text} (h : Lacks expected s) {c : CodePoint}
    (hc : ∀ r, s ≠ c :: r) : Lacks (c :: expected) s := by
  intro d hd
  refine ⟨(h d hd).1, ?_⟩
  rw [List.mem_cons, not_or]
  refine ⟨?_, (h d hd).2⟩
  rintro rfl
  obtain ⟨r, hr⟩ := List.head?_eq_some_iff.mp hd
  exact hc r hr

theorem exists_blanks (s : Text) :
    ∃ a s', s = a ++ s' ∧ Blanks a ∧ skipBlank s = s' ∧ Lacks [] s' := by
  obtain ⟨a, ha, hs⟩ := skipBlank_eq s
  exact ⟨a, skipBlank s, hs, ha, rfl, fun c hc => ⟨dropWhile_head s c hc, List.not_mem_nil⟩⟩

/-- What stands at the cursor where reading stops. Depth is no fault of what stands there. -/
def Fault : Stop → Prop
  | ⟨.nestingTooDeep, _⟩ => False
  | ⟨.unexpectedEnd, s⟩ => s = []
  | ⟨.unknownIdentifier word, s⟩ =>
    ∃ c r rest, word = c :: r ∧ isWordStart c = true ∧ r.all isWordPart = true ∧
      s = word ++ rest ∧ (∀ d ∈ rest.head?, isWordPart d = false) ∧ ∀ v, (word, v) ∉ words
  | ⟨.unexpectedCharacter c, s⟩ =>
    ∃ r, s = c :: r ∧ isBlank c = false ∧ ∀ t v rest, Denoted t v → s ≠ t ++ rest
  | ⟨.unterminatedString, s⟩ =>
    ∃ r, s = quote :: r ∧ ∀ body rest, Enclosed body → r ≠ body ++ quote :: rest
  | ⟨.invalidEscape, s⟩ =>
    ∃ body rest, s = quote :: (body ++ quote :: rest) ∧ Enclosed body ∧ ∀ t, ¬ Inside body t
  | ⟨.numberOutOfRange, s⟩ =>
    ∃ t n rest, s = t ++ rest ∧ Numeral.Spells t n ∧ Numeral.Integral t ∧
      integerDigitLimit < n.whole.length
  | ⟨.expectedKey, s⟩ => Lacks [quote, closeBrace] s
  | ⟨.expectedColon, s⟩ => Lacks [colon] s
  | ⟨.expectedSeparator closer, s⟩ => Lacks [comma, closer] s
  | ⟨.trailingText, s⟩ => s ≠ [] ∧ Lacks [] s

theorem readText_error {r : Text} {e : Stop} (h : readText (quote :: r) = .error e) :
    e.rest = quote :: r ∧ e.reason.due = .token ∧ Fault e := by
  unfold readText at h
  rw [List.tail_cons] at h
  split at h
  · next hnone =>
    cases h
    refine ⟨rfl, rfl, r, rfl, ?_⟩
    rintro body rest henclosed rfl
    rw [henclosed.inside?] at hnone
    cases hnone
  · next body rest hcut =>
    split at h
    · next hnone =>
      cases h
      obtain ⟨rfl, henclosed⟩ := inside?_sound hcut
      refine ⟨rfl, rfl, body, rest, rfl, henclosed, ?_⟩
      intro t ht
      obtain ⟨ps, hps, -⟩ := ht.pieces?
      rw [Json.unescape?, hps] at hnone
      cases hnone
    · cases h

theorem ofWord?_eq_none {w : Text} (h : ofWord? w = none) (v : Value) : (w, v) ∉ words := by
  intro hmem
  rw [ofWord?_of_mem hmem] at h
  cases h

theorem ofNumeral?_eq_none {t : Text} {n : Numeral} (ht : Numeral.Spells t n)
    (h : ofNumeral? n = none) : Numeral.Integral t ∧ integerDigitLimit < n.whole.length := by
  unfold ofNumeral? at h
  split at h
  · next hint =>
    split at h
    · next hlong => exact ⟨ht.isInteger_iff.mp hint, hlong⟩
    · cases h
  · cases h

theorem no_value_ahead {c : CodePoint} {r : Text} (hscan : Numeral.scan? (c :: r) = none)
    (hword : isWordStart c = false) (hdelimiter : isDelimiter c = false) {t : Text} {v : Value}
    (ht : Denoted t v) (rest : Text) : c :: r ≠ t ++ rest := by
  intro heq
  cases denoted_iff_over.mp ht with
  | text h =>
    obtain ⟨body, rfl, -⟩ := h
    obtain ⟨rfl, -⟩ := List.cons.inj heq
    cases hdelimiter
  | int h _ _ => exact h.scan?_ne_none rest (heq ▸ hscan)
  | float h _ => exact h.scan?_ne_none rest (heq ▸ hscan)
  | word h =>
    obtain ⟨d, u, rfl, -, hstart, -⟩ := word_starts h
    obtain ⟨rfl, -⟩ := List.cons.inj heq
    rw [hstart] at hword
    cases hword
  | list _ =>
    obtain ⟨rfl, -⟩ := List.cons.inj heq
    cases hdelimiter
  | mapping _ =>
    obtain ⟨rfl, -⟩ := List.cons.inj heq
    cases hdelimiter

theorem readAtom_error {s : Text} {e : Stop} (hs : Lacks [quote, openBracket, openBrace] s)
    (h : readAtom s = .error e) : e.rest = s ∧ e.reason.due = .value ∧ Fault e := by
  unfold readAtom at h
  split at h
  · next n rest hscan =>
    split at h
    · cases h
    · next hnone =>
      cases h
      obtain ⟨t, rfl, ht⟩ := Numeral.scan?_sound hscan
      obtain ⟨hint, hlong⟩ := ofNumeral?_eq_none ht hnone
      exact ⟨rfl, rfl, t, n, rest, rfl, ht, hint, hlong⟩
  next hscan =>
  split at h
  · cases h
    exact ⟨rfl, rfl, rfl⟩
  next _ c r =>
  have hc : isBlank c = false ∧ c ∉ [quote, openBracket, openBrace] := hs c rfl
  split at h
  · next hstart =>
    dsimp only at h
    split at h
    · cases h
    · next hnone =>
      cases h
      refine ⟨rfl, rfl, c, r.takeWhile isWordPart, r.dropWhile isWordPart, rfl, hstart,
        List.all_takeWhile, ?_, dropWhile_head r, ofWord?_eq_none hnone⟩
      rw [List.cons_append, List.takeWhile_append_dropWhile]
  · next hstart =>
    cases h
    refine ⟨rfl, rfl, r, rfl, hc.1, fun t v rest ht => no_value_ahead hscan ?_ ?_ ht rest⟩
    · simpa using hstart
    · simpa [isDelimiter, and_assoc] using hc.2

theorem readSeparator_error {closer : CodePoint} {s : Text} {e : Stop}
    (h : readSeparator closer s = .error e) :
    e = ⟨.expectedSeparator closer, skipBlank s⟩ ∧ Fault e := by
  have hhead : ∀ c ∈ (skipBlank s).head?, isBlank c = false := dropWhile_head s
  unfold readSeparator at h
  split at h
  · next hs =>
    cases h
    rw [hs]
    exact ⟨rfl, by simp [Fault, Lacks]⟩
  next c r hs =>
  rw [hs] at hhead
  split at h
  · cases h
  split at h
  · cases h
  next hcomma hcloser =>
  cases h
  rw [hs]
  refine ⟨rfl, ?_⟩
  intro d hd
  obtain rfl : c = d := by simpa using hd
  exact ⟨hhead c rfl, by simp [hcomma, hcloser]⟩

namespace Config

/-- One move, and the text that it takes. Blanks come first. -/
inductive Moves : Config → Config → Prop where
  | tooDeep {stack : List Frame} {s : Text} (hdepth : maxDepth < stack.length) :
      Moves (.value stack s) (.ended (.error ⟨.nestingTooDeep, s⟩))
  | openList {stack : List Frame} {a r : Text} (hdepth : stack.length ≤ maxDepth)
      (ha : Blanks a) : Moves (.value stack (a ++ openBracket :: r)) (.items stack [] r)
  | openMapping {stack : List Frame} {a r : Text} (hdepth : stack.length ≤ maxDepth)
      (ha : Blanks a) : Moves (.value stack (a ++ openBrace :: r)) (.pairs stack [] r)
  | scalar {stack : List Frame} {a t r : Text} {v : Value} (hdepth : stack.length ≤ maxDepth)
      (ha : Blanks a) (ht : Denoted t v) : Moves (.value stack (a ++ (t ++ r))) (.back stack v r)
  | noValue {stack : List Frame} {a : Text} {e : Stop} (ha : Blanks a)
      (hdue : e.reason.due ≠ .nothing) (he : Fault e) :
      Moves (.value stack (a ++ e.rest)) (.ended (.error e))
  | closeList {stack : List Frame} {done : List Value} {a r : Text} (ha : Blanks a) :
      Moves (.items stack done (a ++ closeBracket :: r)) (.back stack (.list done) r)
  | item {stack : List Frame} {done : List Value} {a r : Text} (ha : Blanks a) :
      Moves (.items stack done (a ++ r)) (.value (.list done :: stack) r)
  | closeMapping {stack : List Frame} {done : List (Text × Value)} {a r : Text} (ha : Blanks a) :
      Moves (.pairs stack done (a ++ closeBrace :: r)) (.back stack (.record (settled done)) r)
  | field {stack : List Frame} {done : List (Text × Value)} {a t b r k : Text} (ha : Blanks a)
      (ht : Quoted t k) (hb : Blanks b) :
      Moves (.pairs stack done (a ++ (t ++ (b ++ colon :: r))))
        (.value (.mapping done k :: stack) r)
  | noKey {stack : List Frame} {done : List (Text × Value)} {a : Text} {e : Stop} (ha : Blanks a)
      (hdue : e.reason.due = .token) (he : Fault e) :
      Moves (.pairs stack done (a ++ e.rest)) (.ended (.error e))
  | noColon {stack : List Frame} {done : List (Text × Value)} {a t b s k : Text} (ha : Blanks a)
      (ht : Quoted t k) (hb : Blanks b) (he : Fault ⟨.expectedColon, s⟩) :
      Moves (.pairs stack done (a ++ (t ++ (b ++ s)))) (.ended (.error ⟨.expectedColon, s⟩))
  | whole {v : Value} {b : Text} (hb : Blanks b) : Moves (.back [] v b) (.ended (.ok v))
  | trailing {v : Value} {b s : Text} (hb : Blanks b) (he : Fault ⟨.trailingText, s⟩) :
      Moves (.back [] v (b ++ s)) (.ended (.error ⟨.trailingText, s⟩))
  | nextItem {stack : List Frame} {done : List Value} {v : Value} {b r : Text} (hb : Blanks b) :
      Moves (.back (.list done :: stack) v (b ++ comma :: r)) (.items stack (done ++ [v]) r)
  | lastItem {stack : List Frame} {done : List Value} {v : Value} {b r : Text} (hb : Blanks b) :
      Moves (.back (.list done :: stack) v (b ++ closeBracket :: r))
        (.back stack (.list (done ++ [v])) r)
  | nextField {stack : List Frame} {done : List (Text × Value)} {k : Text} {v : Value} {b r : Text}
      (hb : Blanks b) :
      Moves (.back (.mapping done k :: stack) v (b ++ comma :: r))
        (.pairs stack (done ++ [(k, v)]) r)
  | lastField {stack : List Frame} {done : List (Text × Value)} {k : Text} {v : Value} {b r : Text}
      (hb : Blanks b) :
      Moves (.back (.mapping done k :: stack) v (b ++ closeBrace :: r))
        (.back stack (.record (settled (done ++ [(k, v)]))) r)
  | noSeparator {stack : List Frame} {frame : Frame} {v : Value} {b s : Text}
      (hb : Blanks b) (he : Fault ⟨.expectedSeparator frame.closer, s⟩) :
      Moves (.back (frame :: stack) v (b ++ s))
        (.ended (.error ⟨.expectedSeparator frame.closer, s⟩))
  | stay {result : Except Stop Value} : Moves (.ended result) (.ended result)

theorem enter_moves (stack : List Frame) (s : Text) : Moves (.value stack s) (enter stack s) := by
  unfold enter
  by_cases hdepth : maxDepth < stack.length
  · rw [if_pos hdepth]
    exact .tooDeep hdepth
  rw [if_neg hdepth]
  have hdepth := Nat.le_of_not_lt hdepth
  obtain ⟨a, s, rfl, ha, hs, hhead⟩ := exists_blanks s
  rw [hs]
  split
  · exact .noValue (e := ⟨.unexpectedEnd, []⟩) ha (by simp [Reason.due]) rfl
  · exact .openList hdepth ha
  · exact .openMapping hdepth ha
  · next r =>
    cases htext : readText (quote :: r) with
    | error e =>
      obtain ⟨hrest, hdue, he⟩ := readText_error htext
      rw [← hrest]
      exact .noValue ha (by simp [hdue]) he
    | ok p =>
      obtain ⟨t, rest⟩ := p
      obtain ⟨token, htoken, hr⟩ := readText_eq_ok_iff.mp htext
      rw [hr]
      exact .scalar hdepth ha (denoted_iff_over.mpr (.text htoken))
  · next hlist hmapping hquote =>
    cases hatom : readAtom s with
    | error e =>
      have hlacks : Lacks [quote, openBracket, openBrace] s :=
        ((hhead.cons hmapping).cons hlist).cons hquote
      obtain ⟨hrest, hdue, he⟩ := readAtom_error hlacks hatom
      rw [← hrest]
      exact .noValue ha (by simp [hdue]) he
    | ok p =>
      obtain ⟨v, rest⟩ := p
      obtain ⟨t, rfl, ht⟩ := readAtom_sound Denoted hatom
      exact .scalar hdepth ha (denoted_iff_over.mpr ht)

theorem turnItems_moves (stack : List Frame) (done : List Value) (s : Text) :
    Moves (.items stack done s) (turnItems stack done s) := by
  unfold turnItems
  obtain ⟨a, s, rfl, ha, hs, -⟩ := exists_blanks s
  rw [hs]
  split
  · exact .closeList ha
  · exact .item ha

theorem turnPairs_moves (stack : List Frame) (done : List (Text × Value)) (s : Text) :
    Moves (.pairs stack done s) (turnPairs stack done s) := by
  unfold turnPairs
  obtain ⟨a, s, rfl, ha, hs, hhead⟩ := exists_blanks s
  rw [hs]
  split
  · rw [assignAll_eq_settled]
    exact .closeMapping ha
  · next r =>
    cases htext : readText (quote :: r) with
    | error e =>
      obtain ⟨hrest, hdue, he⟩ := readText_error htext
      rw [← hrest]
      exact .noKey ha hdue he
    | ok p =>
      obtain ⟨k, rest⟩ := p
      obtain ⟨token, htoken, hr⟩ := readText_eq_ok_iff.mp htext
      obtain ⟨b, rest, rfl, hb, hrest, hhead⟩ := exists_blanks rest
      rw [hr]
      show Moves _ (enterField stack done k _)
      unfold enterField
      rw [hrest]
      split
      · exact .field ha htoken hb
      · next hcolon => exact .noColon ha htoken hb (hhead.cons hcolon)
  · next hclosed hquote =>
    exact .noKey (e := ⟨.expectedKey, s⟩) ha rfl ((hhead.cons hclosed).cons hquote)

theorem leave_moves (stack : List Frame) (v : Value) (s : Text) :
    Moves (.back stack v s) (leave stack v s) := by
  cases stack with
  | nil =>
    unfold leave
    obtain ⟨a, s, rfl, ha, hs, hhead⟩ := exists_blanks s
    dsimp only
    rw [hs]
    cases s with
    | nil =>
      rw [List.append_nil]
      exact .whole ha
    | cons c r => exact .trailing ha ⟨List.cons_ne_nil c r, hhead⟩
  | cons frame stack =>
    -- both kinds of container look for a separator first
    have hstop : ∀ e, readSeparator frame.closer s = .error e →
        Moves (.back (frame :: stack) v s) (.ended (.error e)) := by
      intro e hsep
      obtain ⟨rfl, he⟩ := readSeparator_error hsep
      obtain ⟨b, s, rfl, hb, hs, -⟩ := exists_blanks s
      rw [hs] at he ⊢
      exact .noSeparator hb he
    cases frame with
    | list done =>
      unfold leave
      dsimp only
      cases hsep : readSeparator closeBracket s with
      | error e => exact hstop e hsep
      | ok p =>
        obtain ⟨more, r⟩ := p
        obtain ⟨b, hb, rfl⟩ := readSeparator_sound hsep
        cases more with
        | false => exact .lastItem hb
        | true => exact .nextItem hb
    | mapping done k =>
      unfold leave
      dsimp only
      cases hsep : readSeparator closeBrace s with
      | error e => exact hstop e hsep
      | ok p =>
        obtain ⟨more, r⟩ := p
        obtain ⟨b, hb, rfl⟩ := readSeparator_sound hsep
        rw [assignAll_eq_settled]
        cases more with
        | false => exact .lastField hb
        | true => exact .nextField hb

theorem step_moves (c : Config) : Moves c (step c) := by
  cases c with
  | value stack s => exact enter_moves stack s
  | items stack done s => exact turnItems_moves stack done s
  | pairs stack done s => exact turnPairs_moves stack done s
  | back stack v s => exact leave_moves stack v s
  | ended result => exact .stay

end Config

end Callboard.Literal
