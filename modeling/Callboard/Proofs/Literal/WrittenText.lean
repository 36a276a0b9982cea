import Callboard.Proofs.Invocation.Calm
import Callboard.Proofs.Json.Escape

/-!
# Written texts

A written text is a quoted token of the text, and normalization leaves it alone. Both
are seen code point by code point: what a code point is written as stands for it in
front of anything, and the keys that are hidden afterwards change no more than the
separators in front of them.
-/

set_option autoImplicit false

namespace Callboard.Literal

open Text Invocation

theorem stops_backslash : Stops backslash := by decide

theorem opensKey_cases {c : CodePoint} (h : opensKey c = true) : c = openBrace ∨ c = comma := by
  simpa [opensKey] using h

theorem stops_of_opensKey {c : CodePoint} (h : opensKey c = true) : Stops c := by
  rcases opensKey_cases h with rfl | rfl <;> decide

theorem not_opensKey_of_blank {c : CodePoint} (h : isBlank c = true) : opensKey c = false := by
  cases hc : opensKey c with
  | false => rfl
  | true =>
    rw [(stops_of_opensKey hc).1] at h
    cases h

theorem not_opensKey_of_part {c : CodePoint} (h : isIdentifierPart c = true) :
    opensKey c = false := by
  cases hc : opensKey c with
  | false => rfl
  | true =>
    rw [(stops_of_opensKey hc).2.1] at h
    cases h

/-- Hiding changes a text only behind its first separator. -/
theorem sameToStop_hideKeys (r : Text) : SameToStop r (hideKeys r) := by
  induction r with
  | nil => exact .inl rfl
  | cons x r ih =>
    by_cases hx : opensKey x = true
    · -- the first separator is where the two texts part, whatever becomes of it
      have hstops := stops_of_opensKey hx
      rw [hideKeys]
      split
      · exact .inr ⟨[], r, _, x, backslash, hstops, stops_backslash, rfl, rfl⟩
      · exact .inr ⟨[], r, _, x, x, hstops, hstops, rfl, rfl⟩
    · have hskip : hideKeys (x :: r) = x :: hideKeys r := by simp [hideKeys, hx]
      rw [hskip]
      exact ih.cons x

theorem keyFree_hideKeys (r : Text) : KeyFree (hideKeys r) := by
  induction r with
  | nil => trivial
  | cons c r ih =>
    rw [hideKeys]
    split
    · next h =>
      have hescape : ∀ d ∈ unicodeEscape c, opensKey d = false := by
        rcases opensKey_cases (Bool.and_eq_true_iff.mp h).1 with rfl | rfl <;> decide
      exact keyFree_append hescape ih
    · next h =>
      refine ⟨fun hc => ?_, ih⟩
      rw [(sameToStop_hideKeys r).keyAhead?]
      simpa [hc] using h

theorem not_mem_hideKeys {d : CodePoint} (hd : d ∉ unicodeEscape comma ∧ d ∉ unicodeEscape openBrace)
    {r : Text} (h : d ∉ r) : d ∉ hideKeys r := by
  induction r with
  | nil => exact h
  | cons c r ih =>
    simp only [List.mem_cons, not_or] at h
    have hr := ih h.2
    rw [hideKeys]
    split
    · next hc =>
      rcases opensKey_cases (Bool.and_eq_true_iff.mp hc).1 with rfl | rfl
      · simp [hd.2, hr]
      · simp [hd.1, hr]
    · simp [h.1, hr]

theorem hideKeys_append {a : Text} (ha : ∀ c ∈ a, opensKey c = false) (r : Text) :
    hideKeys (a ++ r) = a ++ hideKeys r := by
  induction a with
  | nil => rfl
  | cons c a ih =>
    have hc := ha c (by simp)
    have ih := ih (fun d hd => ha d (List.mem_cons_of_mem c hd))
    simp [hideKeys, hc, ih]

theorem mem_unicodeEscape {c d : CodePoint} (h : d ∈ unicodeEscape c) :
    opensKey d = false ∧ d ≠ apostrophe := by
  have hdigit : ∀ n < 16, opensKey (hexDigit n) = false ∧ hexDigit n ≠ apostrophe := by decide
  have hmem : d ∈ [backslash, Json.letterU, hexDigit (c / 16 / 16 / 16 % 16),
    hexDigit (c / 16 / 16 % 16), hexDigit (c / 16 % 16), hexDigit (c % 16)] := h
  simp only [List.mem_cons, List.not_mem_nil, or_false] at hmem
  rcases hmem with rfl | rfl | rfl | rfl | rfl | rfl
  · decide
  · decide
  · exact hdigit _ (Nat.mod_lt _ (by decide))
  · exact hdigit _ (Nat.mod_lt _ (by decide))
  · exact hdigit _ (Nat.mod_lt _ (by decide))
  · exact hdigit _ (Nat.mod_lt _ (by decide))

/-- What a code point is written as before keys are hidden. -/
inductive Spelled : CodePoint → Text → Prop where
  | letter {e c : CodePoint} (h : (e, c) ∈ escapeLetters) : Spelled c [backslash, e]
  | hex {c : CodePoint} (h : c < 0x80) : Spelled c (unicodeEscape c)
  | plain {c : CodePoint} (hq : c ≠ quote) (hb : c ≠ backslash) (hn : c ≠ newline)
      (ha : c ≠ apostrophe) : Spelled c [c]

theorem hideApostrophes_of_not_mem {t : Text} (h : apostrophe ∉ t) : hideApostrophes t = t := by
  induction t with
  | nil => rfl
  | cons c t ih =>
    simp only [List.mem_cons, not_or] at h
    have ht := ih h.2
    simp only [hideApostrophes, List.flatMap_cons] at ht ⊢
    rw [ht, if_neg (Ne.symm h.1)]
    rfl

theorem spelled (c : CodePoint) : Spelled c (hideApostrophes (Json.escaped c)) := by
  by_cases happ : c = apostrophe
  · subst happ
    exact .hex (by decide)
  have hescapes := Json.escaped_escapes c
  generalize Json.escaped c = s at hescapes
  cases hescapes with
  | letter h =>
    have hletters : ∀ p ∈ escapeLetters, apostrophe ∉ [backslash, p.1] := by decide
    rw [hideApostrophes_of_not_mem (hletters _ h)]
    exact .letter h
  | hex h =>
    have hescape : apostrophe ∉ unicodeEscape c := fun hmem => (mem_unicodeEscape hmem).2 rfl
    rw [hideApostrophes_of_not_mem hescape]
    exact .hex (by unfold CodePoint at *; omega)
  | plain hq hb hc =>
    rw [hideApostrophes_of_not_mem (by simpa using Ne.symm happ)]
    exact .plain hq hb (by rintro rfl; exact absurd hc (by decide)) happ

theorem Inside.escape_low {c : CodePoint} (h : c < 0x10000) (hs : isHighSurrogate c = false)
    {body t : Text} (hbody : Inside body t) : Inside (unicodeEscape c ++ body) (c :: t) :=
  .hex (hexEscape_unicodeEscape h) (fun hh => by simp [hs] at hh) hbody

theorem hideKeys_spelled {c : CodePoint} {s : Text} (h : Spelled c s) (r : Text) :
    ∃ p, hideKeys (s ++ r) = p ++ hideKeys r ∧
      ∀ body t, Inside body t → Inside (p ++ body) (c :: t) := by
  cases h with
  | @letter e c he =>
    refine ⟨[backslash, e], hideKeys_append ?_ r, fun body t hbody => .letter he hbody⟩
    have hletters : ∀ p ∈ escapeLetters, opensKey p.1 = false := by decide
    intro d hd
    simp only [List.mem_cons, List.not_mem_nil, or_false] at hd
    rcases hd with rfl | rfl
    · decide
    · exact hletters _ he
  | hex hc =>
    refine ⟨unicodeEscape c, hideKeys_append (fun d hd => (mem_unicodeEscape hd).1) r, ?_⟩
    intro body t hbody
    have hs : isHighSurrogate c = false := by
      simp only [isHighSurrogate, Bool.and_eq_false_iff, decide_eq_false_iff_not]
      unfold CodePoint at *
      omega
    exact .escape_low (by unfold CodePoint at *; omega) hs hbody
  | plain hq hb hn ha =>
    rw [List.singleton_append, hideKeys]
    split
    · next hc =>
      -- a separator in front of a key: its escape stands for it as well
      refine ⟨unicodeEscape c, rfl, fun body t hbody => ?_⟩
      rcases opensKey_cases (Bool.and_eq_true_iff.mp hc).1 with rfl | rfl
      · exact .escape_low (by decide) (by decide) hbody
      · exact .escape_low (by decide) (by decide) hbody
    · exact ⟨[c], rfl, fun body t hbody => .plain hq hb hn hbody⟩

theorem hideApostrophes_append (a b : Text) :
    hideApostrophes (a ++ b) = hideApostrophes a ++ hideApostrophes b := by
  simp [hideApostrophes]

theorem hideKeys_inside (t r : Text) :
    ∃ body, hideKeys (hideApostrophes (t.flatMap Json.escaped) ++ r) = body ++ hideKeys r ∧
      Inside body t := by
  induction t with
  | nil => exact ⟨[], rfl, .empty⟩
  | cons c t ih =>
    obtain ⟨body, hbody, hinside⟩ := ih
    obtain ⟨p, hp, hpiece⟩ :=
      hideKeys_spelled (spelled c) (hideApostrophes (t.flatMap Json.escaped) ++ r)
    refine ⟨p ++ body, ?_, hpiece body t hinside⟩
    rw [List.flatMap_cons, hideApostrophes_append, List.append_assoc, hp, hbody,
      List.append_assoc]

theorem writeText_eq (t : Text) : ∃ body, writeText t = quote :: (body ++ [quote]) ∧
    Inside body t := by
  obtain ⟨body, hbody, hinside⟩ := hideKeys_inside t [quote]
  refine ⟨body, ?_, hinside⟩
  have hfront : hideApostrophes [quote] = [quote] := by decide
  rw [writeText, Json.string, hideApostrophes_append, hideApostrophes_append, hfront,
    List.append_assoc, hideKeys_append (by decide), hbody]
  rfl

theorem writeText_quoted (t : Text) : Quoted (writeText t) t := writeText_eq t

theorem Enclosed.no_newline {body : Text} (h : Enclosed body) : newline ∉ body := by
  induction h with
  | empty => simp
  | plain _ _ hn _ ih => exact List.not_mem_cons_of_ne_of_not_mem (Ne.symm hn) ih
  | escape hn _ ih =>
    have htail := List.not_mem_cons_of_ne_of_not_mem (Ne.symm hn) ih
    exact List.not_mem_cons_of_ne_of_not_mem (by decide) htail

theorem not_mem_hideApostrophes (t : Text) : apostrophe ∉ hideApostrophes t := by
  induction t with
  | nil => exact List.not_mem_nil
  | cons c t ih =>
    rw [← List.singleton_append, hideApostrophes_append, List.mem_append, not_or]
    refine ⟨fun h => ?_, ih⟩
    by_cases hc : c = apostrophe
    · subst hc
      exact absurd h (by decide)
    · rw [hideApostrophes_of_not_mem (by simpa using Ne.symm hc)] at h
      exact hc (List.mem_singleton.mp h).symm

/-- Normalization leaves a written text alone, behind a separator as well. -/
theorem writeText_quiet (t : Text) : Quiet (writeText t) := by
  obtain ⟨body, hbody, hinside⟩ := writeText_eq t
  refine ⟨⟨?_, ?_, keyFree_hideKeys _⟩, ?_⟩
  · exact not_mem_hideKeys (by decide) (not_mem_hideApostrophes _)
  · rw [hbody]
    refine List.not_mem_cons_of_ne_of_not_mem (by decide) ?_
    rw [List.mem_append, not_or]
    exact ⟨hinside.enclosed.no_newline, by decide⟩
  · rw [hbody]
    exact Stops.opens_nothing (by decide) _

end Callboard.Literal
