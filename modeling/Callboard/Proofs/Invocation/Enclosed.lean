import Callboard.Dispatch.Entry
import Callboard.Proofs.Invocation.CasualGrammar
import Callboard.Proofs.Literal.Row

/-!
# Arguments stay in their list

Argument text is put between brackets and read as a list. Whatever brackets, quotes and
backslashes the text has of its own, the list ends with the bracket that was put behind it,
or the text is refused. So the values of a text are those of a row of literals, and it makes
no difference that blank text is not read at all.
-/

set_option autoImplicit false

namespace Callboard.Invocation

open Text Literal

theorem normalize_blanks {b : Text} (hb : Blanks b) : normalize b = b := by
  have hbecomes := becomes_blanks hb []
  rw [List.append_nil] at hbecomes
  exact hbecomes.trans (List.append_nil b)

def itemsOf : Except DecodeError Value → Except DecodeError (List Value)
  | .ok (.list vs) => .ok vs
  | .ok v => .ok [v]
  | .error e => .error e

theorem decode_eq_read (raw : Text) :
    decode (some raw) = itemsOf (Literal.read (bracketed (normalize raw))) := by
  by_cases hblank : Blanks raw
  · have hread : Literal.read (bracketed raw) = .ok (.list []) :=
      read_bracketed.mpr ⟨[], rfl, .empty hblank⟩
    rw [decode_blank hblank, normalize_blanks hblank, hread]
    rfl
  · have hstrip : (strip raw).isEmpty = false := by
      rw [← Bool.not_eq_true, List.isEmpty_iff, strip_eq_nil_iff]
      exact hblank
    simp only [decode, hstrip, Bool.false_eq_true, if_false]
    show _ = itemsOf (Literal.read ([openBracket] ++ normalize raw ++ [closeBracket]))
    cases Literal.read ([openBracket] ++ normalize raw ++ [closeBracket]) with
    | error e => rfl
    | ok v => cases v <;> rfl

theorem decode_eq_ok_iff {raw : Text} {vs : List Value} :
    decode (some raw) = .ok vs ↔ Literal.read (bracketed (normalize raw)) = .ok (.list vs) := by
  rw [decode_eq_read]
  cases hread : Literal.read (bracketed (normalize raw)) with
  | error e => simp [itemsOf]
  | ok v =>
    obtain ⟨ws, rfl, -⟩ := read_bracketed.mp hread
    simp [itemsOf]

theorem decode_eq_error_iff {raw : Text} {e : DecodeError} :
    decode (some raw) = .error e ↔ Literal.read (bracketed (normalize raw)) = .error e := by
  rw [decode_eq_read]
  cases hread : Literal.read (bracketed (normalize raw)) with
  | error e => simp [itemsOf]
  | ok v =>
    obtain ⟨ws, rfl, -⟩ := read_bracketed.mp hread
    simp [itemsOf]

theorem decode_items_iff {raw : Text} {vs : List Value} :
    decode (some raw) = .ok vs ↔ Items (Denotes maxDepth) (normalize raw) vs := by
  rw [decode_eq_ok_iff, read_bracketed]
  simp

structure Encloses (raw : Text) : Prop where
  values : ∀ vs, Dispatch.valuesOf (some raw) = .ok vs ↔
    vs = [] ∧ Blanks (normalize raw) ∨ Row (Denotes maxDepth) (normalize raw) vs
  /-- The bracket that is put behind the text ends the list: what follows is not read. -/
  closed : ∀ vs, Dispatch.valuesOf (some raw) = .ok vs → ∀ rest,
    readValue (maxDepth + 1) (openBracket :: (normalize raw ++ closeBracket :: rest)) =
      .ok (.list vs, rest)
  /-- If a bracket of the text itself would end the list, the text is refused. -/
  broken : ∀ body rest v, normalize raw = body ++ closeBracket :: rest →
    Denotes (maxDepth + 1) (bracketed body) v →
    ∃ reason position, Dispatch.valuesOf (some raw) = .error (.argumentDecode reason position)
  whole : ∀ vs, Dispatch.valuesOf (some raw) = .ok vs ↔
    Literal.read (bracketed (normalize raw)) = .ok (.list vs)
  refused : ∀ p, Dispatch.valuesOf (some raw) = .error p ↔
    ∃ e, Literal.read (bracketed (normalize raw)) = .error e ∧
      p = .argumentDecode e.reason.message e.position
  otherwise : ¬ Blanks (normalize raw) → (∀ vs, ¬ Row (Denotes maxDepth) (normalize raw) vs) →
    ∃ reason position, Dispatch.valuesOf (some raw) = .error (.argumentDecode reason position)

theorem valuesOf_items_iff {raw : Text} {vs : List Value} :
    Dispatch.valuesOf (some raw) = .ok vs ↔ Items (Denotes maxDepth) (normalize raw) vs := by
  rw [Dispatch.valuesOf_eq_ok_iff, decode_items_iff]

theorem valuesOf_refused {raw : Text}
    (h : ∀ vs, ¬ Items (Denotes maxDepth) (normalize raw) vs) :
    ∃ reason position, Dispatch.valuesOf (some raw) = .error (.argumentDecode reason position) := by
  cases hvalues : Dispatch.valuesOf (some raw) with
  | ok vs => exact absurd (valuesOf_items_iff.mp hvalues) (h vs)
  | error p =>
    obtain ⟨e, -, rfl⟩ := Dispatch.valuesOf_eq_error_iff.mp hvalues
    exact ⟨_, _, rfl⟩

/-- Argument text comes to the values of its row, or to none if it is blank. Otherwise it is
refused, and it never gets out of the brackets that are put around it. -/
theorem values_enclosed (raw : Text) :
    Encloses raw ∧ Dispatch.valuesOf none = .ok [] ∧
      Literal.read (bracketed (normalize [])) = .ok (.list []) := by
  refine ⟨?_, rfl, read_bracketed.mpr ⟨[], rfl, .empty rfl⟩⟩
  constructor
  case values =>
    intro vs
    rw [valuesOf_items_iff, items_iff]
  case closed =>
    intro vs h
    exact readValue_items (valuesOf_items_iff.mp h)
  case broken =>
    intro body rest v hsplit hbody
    exact valuesOf_refused fun vs h => not_closed_before h hsplit v hbody
  case whole =>
    intro vs
    rw [Dispatch.valuesOf_eq_ok_iff, decode_eq_ok_iff]
  case refused =>
    intro p
    simp only [Dispatch.valuesOf_eq_error_iff, decode_eq_error_iff]
    rfl
  case otherwise =>
    intro hblank hrow
    apply valuesOf_refused
    intro vs h
    rcases items_iff.mp h with ⟨-, hb⟩ | hr
    · exact hblank hb
    · exact hrow vs hr

/-- A list that the text itself would close, and open once more. -/
example : Dispatch.valuesOf (some (chars "1], [2")) =
    .error (.argumentDecode (chars "unexpected trailing text") 3) := by rfl

end Callboard.Invocation
