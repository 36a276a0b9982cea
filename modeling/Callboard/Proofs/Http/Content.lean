import Callboard.Http.Body
import Callboard.Http.Content
import Callboard.Proofs.Json.ReadBack

/-!
# What can be sent

A value of texts, words and integers of no more digits than are written is always written
as JSON, and its text has a surrogate exactly if one of its texts has. So such a value can be
sent unless one of its texts has no encoding, and whoever reads what was sent gets the value.
-/

set_option autoImplicit false

namespace Callboard

namespace Text

def Sendable (t : Text) : Prop := t.any isSurrogate = false

instance (t : Text) : Decidable (Sendable t) := inferInstanceAs (Decidable (_ = _))

theorem sendable_append {a b : Text} : Sendable (a ++ b) ↔ Sendable a ∧ Sendable b := by
  rw [Sendable, List.any_append, Bool.or_eq_false_iff]
  rfl

theorem Sendable.of_subset {a b : Text} (hb : Sendable b) (h : a ⊆ b) : Sendable a := by
  rw [Sendable, List.any_eq_false] at *
  exact fun c hc => hb c (h hc)

theorem sendable_decimal (n : Nat) : Sendable (decimal n) := by
  rw [Sendable, List.any_eq_false]
  intro c hc
  obtain ⟨d, hd, rfl⟩ := List.mem_map.mp hc
  have hlt : d < 10 := digits_decimals n d hd
  have hdigit : ∀ e < 10, isSurrogate (ofDigit e) = false := by decide
  rw [hdigit d hlt]
  exact Bool.false_ne_true

theorem sendable_signedDecimal (i : Int) : Sendable (signedDecimal i) := by
  cases i with
  | ofNat n => exact sendable_decimal n
  | negSucc n =>
    have hsign : Sendable [minus] := by decide
    exact sendable_append.mpr ⟨hsign, sendable_decimal (n + 1)⟩

theorem unencodable?_isSome (t : Text) : (unencodable? t).isSome = t.any isSurrogate := by
  have h := unencodable?_eq_none_iff t
  cases hu : unencodable? t with
  | none => exact (h.mp hu).symm
  | some u =>
    cases ht : t.any isSurrogate with
    | true => rfl
    | false =>
      rw [h.mpr ht] at hu
      cases hu

end Text

namespace Json

open Text

theorem escaped_any (c : CodePoint) : (escaped c).any isSurrogate = isSurrogate c := by
  have h := escaped_escapes c
  generalize escaped c = s at h
  cases h with
  | letter h =>
    have hletters : ∀ p ∈ Literal.escapeLetters,
        ([backslash, p.1] : Text).any isSurrogate = isSurrogate p.2 := by decide
    exact hletters _ h
  | hex h =>
    have hdigits : ∀ d < 0x20,
        (Literal.unicodeEscape d).any isSurrogate = isSurrogate d := by decide
    exact hdigits c h
  | plain => simp

theorem string_any (t : Text) : (string t).any isSurrogate = t.any isSurrogate := by
  have hquote : ([quote] : Text).any isSurrogate = false := by decide
  have hescaped : (t.flatMap escaped).any isSurrogate = t.any isSurrogate := by
    simp [List.any_flatMap, escaped_any]
  rw [string, List.any_append, List.any_append, hquote, hescaped, Bool.false_or, Bool.or_false]

end Json

namespace Http

open Text

/-- A value of texts, words, integers, lists and records, nested no deeper than the number says.
The names of fields are different and have an encoding. -/
inductive Wordy : Nat → Value → Prop where
  | null {n : Nat} : Wordy n .null
  | bool {n : Nat} (b : Bool) : Wordy n (.bool b)
  | text {n : Nat} (t : Text) : Wordy n (.text t)
  | int {n : Nat} {i : Int} (h : i.natAbs < 10 ^ integerDigitLimit) : Wordy n (.int i)
  | list {n : Nat} {items : List Value} (h : ∀ v ∈ items, Wordy n v) : Wordy (n + 1) (.list items)
  | record {n : Nat} {fields : List (Text × Value)} (hn : (fields.map Prod.fst).Nodup)
      (hk : ∀ f ∈ fields, Sendable f.1) (h : ∀ f ∈ fields, Wordy n f.2) :
      Wordy (n + 1) (.record fields)

theorem Wordy.ofText? {n : Nat} (t : Option Text) : Wordy n (.ofText? t) := by
  cases t with
  | none => exact .null
  | some t => exact .text t

theorem Wordy.of_keys {n : Nat} {fields : List (Text × Value)} (keys : List Text)
    (hkeys : fields.map Prod.fst = keys) (hn : keys.Nodup) (hk : ∀ k ∈ keys, Sendable k)
    (h : ∀ v ∈ fields.map Prod.snd, Wordy n v) : Wordy (n + 1) (.record fields) := by
  subst hkeys
  exact .record hn (fun f hf => hk f.1 (List.mem_map_of_mem hf))
    (fun f hf => h f.2 (List.mem_map_of_mem hf))

open Json in
theorem Wordy.readsBack {n : Nat} {v : Value} (h : Wordy n v) : ReadsBack compact n v := by
  induction h with
  | null => exact .null
  | bool b => exact .bool b
  | text t => exact .text t
  | int _ => exact .int _
  | list _ ih => exact .list compact_legible ih
  | record hn _ _ ih => exact .record compact_legible hn ih

/-- The value is written as a text that has a surrogate exactly if one of its texts has. -/
def WrittenExactly (v : Value) : Prop :=
  ∃ t, Json.write Json.compact v = .ok t ∧ t.any isSurrogate = (unencodableIn? v).isSome

theorem clear_text {t : Text} : unencodableIn? (.text t) = none ↔ Sendable t :=
  unencodable?_eq_none_iff t

theorem clear_ofText? {t : Option Text} :
    unencodableIn? (.ofText? t) = none ↔ ∀ u ∈ t, Sendable u := by
  cases t with
  | none => exact iff_of_true rfl fun u hu => nomatch hu
  | some t =>
    rw [Value.ofText?, clear_text]
    simp

theorem clear_list {items : List Value} :
    unencodableIn? (.list items) = none ↔ ∀ v ∈ items, unencodableIn? v = none := by
  rw [unencodableIn?]
  induction items with
  | nil => simp [unencodableAmong?]
  | cons v vs ih => rw [unencodableAmong?, Option.or_eq_none_iff, ih, List.forall_mem_cons]

theorem clear_record {fields : List (Text × Value)} :
    unencodableIn? (.record fields) = none ↔ ∀ f ∈ fields, unencodableIn? f.2 = none := by
  rw [Value.record, unencodableIn?]
  induction fields with
  | nil => simp [unencodableUnder?]
  | cons f fields ih =>
    rw [List.map_cons, unencodableUnder?, Option.or_eq_none_iff, ih, List.forall_mem_cons]

theorem writeItems_exactly {items : List Value} (h : ∀ v ∈ items, WrittenExactly v) :
    ∃ ts, Json.writeItems Json.compact items = .ok ts ∧
      ts.any (fun t => t.any isSurrogate) = (unencodableAmong? items).isSome := by
  induction items with
  | nil => exact ⟨[], rfl, rfl⟩
  | cons v vs ih =>
    obtain ⟨t, ht, hany⟩ := h v List.mem_cons_self
    obtain ⟨ts, hts, hanys⟩ := ih fun w hw => h w (List.mem_cons_of_mem v hw)
    refine ⟨t :: ts, by simp only [Json.writeItems, ht, hts], ?_⟩
    rw [List.any_cons, hany, hanys, unencodableAmong?, Option.isSome_or]

theorem writeEntries_exactly {fields : List (Text × Value)} (hk : ∀ f ∈ fields, Sendable f.1)
    (h : ∀ f ∈ fields, WrittenExactly f.2) :
    ∃ ts, Json.writeEntries Json.compact (fields.map fun f => (.text f.1, f.2)) = .ok ts ∧
      ts.any (fun t => t.any isSurrogate) =
        (unencodableUnder? (fields.map fun f => (.text f.1, f.2))).isSome := by
  induction fields with
  | nil => exact ⟨[], rfl, rfl⟩
  | cons f fields ih =>
    obtain ⟨t, ht, hany⟩ := h f List.mem_cons_self
    obtain ⟨ts, hts, hanys⟩ := ih (fun g hg => hk g (List.mem_cons_of_mem f hg))
      (fun g hg => h g (List.mem_cons_of_mem f hg))
    have hkey : (Json.string f.1 ++ Json.compact.keySeparator).any isSurrogate = false := by
      have hcolon : Json.compact.keySeparator.any isSurrogate = false := by decide
      rw [List.any_append, Json.string_any, hk f List.mem_cons_self, hcolon]
      rfl
    refine ⟨(Json.string f.1 ++ Json.compact.keySeparator ++ t) :: ts, ?_, ?_⟩
    · simp only [List.map_cons, Json.writeEntries, Json.key, ht, hts]
    · rw [List.any_cons, List.any_append, hkey, hany, hanys, List.map_cons, unencodableUnder?,
        Option.isSome_or, Bool.false_or]

theorem enclosed_any {a b : CodePoint} (ha : isSurrogate a = false) (hb : isSurrogate b = false)
    (ts : List Text) : ([a] ++ join Json.compact.itemSeparator ts ++ [b]).any isSurrogate =
      ts.any (fun t => t.any isSurrogate) := by
  have hcomma : Json.compact.itemSeparator.any isSurrogate = false := by decide
  rw [List.any_append, List.any_append, any_join _ hcomma]
  simp [ha, hb]

theorem WrittenExactly.record {fields : List (Text × Value)} (hk : ∀ f ∈ fields, Sendable f.1)
    (h : ∀ f ∈ fields, WrittenExactly f.2) : WrittenExactly (.record fields) := by
  obtain ⟨ts, hts, hany⟩ := writeEntries_exactly hk h
  refine ⟨[openBrace] ++ join Json.compact.itemSeparator ts ++ [closeBrace],
    by simp only [Value.record, Json.write, hts], ?_⟩
  rw [enclosed_any (by decide) (by decide), hany, Value.record, unencodableIn?]

theorem writtenExactly_int {i : Int} (h : i.natAbs < 10 ^ integerDigitLimit) :
    WrittenExactly (.int i) := by
  have hlength : (digits i.natAbs).length ≤ integerDigitLimit :=
    digits_length_le_of_lt (by decide) h
  have htext : Value.intText? i = some (signedDecimal i) := if_neg (Nat.not_lt.mpr hlength)
  refine ⟨signedDecimal i, by simp only [Json.write, Json.integer, htext], ?_⟩
  rw [sendable_signedDecimal i]
  rfl

theorem Wordy.written {n : Nat} {v : Value} (h : Wordy n v) : WrittenExactly v := by
  induction h with
  | null => exact ⟨_, rfl, by decide⟩
  | bool b => cases b <;> exact ⟨_, rfl, by decide⟩
  | text t => exact ⟨_, rfl, by rw [Json.string_any, unencodableIn?, unencodable?_isSome]⟩
  | int h => exact writtenExactly_int h
  | list _ ih =>
    obtain ⟨ts, hts, hany⟩ := writeItems_exactly ih
    refine ⟨[openBracket] ++ join Json.compact.itemSeparator ts ++ [closeBracket],
      by simp only [Json.write, hts], ?_⟩
    rw [enclosed_any (by decide) (by decide), hany, unencodableIn?]
  | record _ hk _ ih => exact .record hk ih

/-- The body is what is sent of the value, and whoever reads it as JSON gets the value. -/
structure Carries (body : Text) (v : Value) : Prop where
  sent : content v = .ok body
  read : Body.ofJson body = .value v

section
variable {v : Value} (h : Wordy Body.nestingLimit v)
include h

theorem Wordy.carried (hv : unencodableIn? v = none) : ∃ body, Carries body v := by
  obtain ⟨t, ht, hany⟩ := h.written
  have hnone : unencodable? t = none := by
    rw [unencodable?_eq_none_iff, hany, hv]
    rfl
  refine ⟨t, by simp only [content, ht, hnone], ?_⟩
  rw [Body.ofJson, h.readsBack.read ht]

theorem Wordy.described (hv : unencodableIn? v = none) :
    ∃ body, describedContent v = .ok body ∧ Carries body v := by
  obtain ⟨body, hbody⟩ := h.carried hv
  exact ⟨body, by rw [describedContent, hv, hbody.sent], hbody⟩

theorem Wordy.content_error (hv : (unencodableIn? v).isSome = true) :
    ∃ f, content v = .error f := by
  obtain ⟨t, ht, hany⟩ := h.written
  rw [hv, ← unencodable?_isSome, Option.isSome_iff_exists] at hany
  obtain ⟨u, hu⟩ := hany
  exact ⟨unencodable u, by simp only [content, ht, hu]⟩

end

end Http

end Callboard
