import Callboard.Proofs.Text.Join
import Callboard.Proofs.Literal.Acceptance
import Callboard.Proofs.Literal.WrittenText
import Callboard.Proofs.Number.ReadBack

/-!
# Written values

A value that can be written is written as a text that the grammar reads as the same
value, its tuples as lists, and that normalization leaves alone. A list has the text of
the tuple with the same items, so writing what was read gives the text again.
-/

set_option autoImplicit false

namespace Callboard

namespace Value

mutual
/-- The value with a list in the place of every tuple. -/
def listed : Value → Value
  | .list items => .list (listedItems items)
  | .tuple items => .list (listedItems items)
  | .mapping entries => .mapping (listedEntries entries)
  | .null => .null
  | .bool b => .bool b
  | .int i => .int i
  | .float x => .float x
  | .text t => .text t
  | .bytes t => .bytes t
  | .set items => .set items
  | .object => .object

def listedItems : List Value → List Value
  | [] => []
  | v :: vs => listed v :: listedItems vs

def listedEntries : List (Value × Value) → List (Value × Value)
  | [] => []
  | (k, v) :: entries => (k, listed v) :: listedEntries entries
end

theorem listedItems_eq (items : List Value) : listedItems items = items.map listed := by
  induction items with
  | nil => rfl
  | cons v vs ih => rw [listedItems, ih, List.map_cons]

theorem listed_record (fields : List (Text × Value)) :
    listed (.record fields) = .record (fields.map (fun f => (f.1, listed f.2))) := by
  rw [record, listed, record]
  congr 1
  induction fields with
  | nil => rfl
  | cons f fields ih => rw [List.map_cons, listedEntries, ih]; rfl

end Value

namespace Literal

open Text Invocation

/-- A value that can be written, nested no deeper than the given number of levels: it is
made of null, truth values, integers within the limit of digits, finite doubles, texts,
lists, tuples, and mappings with different texts as keys. -/
inductive Writable : Nat → Value → Prop where
  | null {levels : Nat} : Writable (levels + 1) .null
  | bool {levels : Nat} (b : Bool) : Writable (levels + 1) (.bool b)
  | int {levels : Nat} {i : Int} (h : (digits i.natAbs).length ≤ integerDigitLimit) :
      Writable (levels + 1) (.int i)
  | float {levels : Nat} {x : Binary64} (h : x.isFinite = true) : Writable (levels + 1) (.float x)
  | text {levels : Nat} (t : Text) : Writable (levels + 1) (.text t)
  | list {levels : Nat} {items : List Value} (h : ∀ v ∈ items, Writable levels v) :
      Writable (levels + 1) (.list items)
  | tuple {levels : Nat} {items : List Value} (h : ∀ v ∈ items, Writable levels v) :
      Writable (levels + 1) (.tuple items)
  | mapping {levels : Nat} {fields : List (Text × Value)} (hn : (fields.map Prod.fst).Nodup)
      (h : ∀ f ∈ fields, Writable levels f.2) : Writable (levels + 1) (.record fields)

structure WrittenAs (levels : Nat) (v : Value) (t : Text) : Prop where
  write : Literal.write v = .ok t
  write_listed : Literal.write v.listed = .ok t
  denotes : Denotes levels t v.listed
  quiet : Quiet t

theorem quiet_of_plain {t : Text} (hkey : keyAhead? t = none)
    (h : ∀ c ∈ t, c ≠ apostrophe ∧ c ≠ newline ∧ opensKey c = false) : Quiet t := by
  have hfree : KeyFree t := keyFree_of_no_separator fun c hc => (h c hc).2.2
  exact ⟨⟨fun hc => (h _ hc).1 rfl, fun hc => (h _ hc).2.1 rfl, hfree⟩, hkey⟩

theorem plain_of_digit {c : Nat} {d : Nat} (h : digit? c = some d) :
    isIdentifierStart c = false ∧ c ≠ apostrophe ∧ c ≠ newline ∧ opensKey c = false := by
  have hrange : 0x30 ≤ c ∧ c ≤ 0x39 ∨ 0x80 ≤ c := by
    unfold digit? at h
    split at h
    · split at h
      · next hc => exact .inl (by simpa [isAsciiDigit] using hc)
      · cases h
    · next hc => exact .inr (Nat.not_lt.mp hc)
  simp only [isIdentifierStart, isLetter, isLower, isUpper, opensKey, Bool.or_eq_false_iff,
    Bool.and_eq_false_iff, decide_eq_false_iff_not, beq_eq_false_iff_ne, ne_eq, CodePoint,
    underscore, apostrophe, newline, openBrace, comma]
  omega

theorem quiet_of_spells {t : Text} {n : Numeral} (h : Numeral.Spells t n) : Quiet t := by
  apply quiet_of_plain
  · obtain ⟨c, r, rfl, hc⟩ := spells_starts h
    have hblank := hc.1
    obtain ⟨c', r', heq, hc⟩ := h.head
    obtain ⟨rfl, rfl⟩ := List.cons.inj heq
    have hstart : isIdentifierStart c = false := by
      rcases hc with ⟨d, hd⟩ | hc
      · exact (plain_of_digit hd).1
      · simp only [List.mem_cons, List.not_mem_nil, or_false] at hc
        rcases hc with rfl | rfl | rfl <;> decide
    simp [keyAhead?, skipBlank_cons_of_not_blank hblank, hstart]
  · intro c hc
    rcases h.mem hc with ⟨d, hd⟩ | hc
    · exact (plain_of_digit hd).2
    · simp only [List.mem_cons, List.not_mem_nil, or_false] at hc
      rcases hc with rfl | rfl | rfl | rfl | rfl <;> decide

theorem writtenAs_word {levels : Nat} {v : Value} {t : Text} (hmem : (t, v) ∈ words)
    (hwrite : write v = .ok t) (hlisted : v.listed = v) (hkey : keyAhead? t = none)
    (h : ∀ c ∈ t, c ≠ apostrophe ∧ c ≠ newline ∧ opensKey c = false) :
    WrittenAs (levels + 1) v t := by
  refine ⟨hwrite, by rw [hlisted, hwrite], ?_, quiet_of_plain hkey h⟩
  rw [hlisted]
  exact .word hmem

theorem writtenAs_int {levels : Nat} {i : Int} (h : (digits i.natAbs).length ≤ integerDigitLimit) :
    ∃ t, WrittenAs (levels + 1) (.int i) t := by
  have htext : Value.intText? i = some (signedDecimal i) := if_neg (Nat.not_lt.mpr h)
  obtain ⟨n, hspells, hint, hlen, rfl⟩ := Value.intText?_spelled htext
  have hwrite : write (.int n.toInt) = .ok (signedDecimal n.toInt) := by rw [write, htext]
  exact ⟨_, hwrite, hwrite, .int hspells hint hlen, quiet_of_spells hspells⟩

theorem writtenAs_float {levels : Nat} {x : Binary64} (h : x.isFinite = true) :
    ∃ t, WrittenAs (levels + 1) (.float x) t := by
  obtain ⟨n, hspells, hint, hread⟩ := Binary64.write_spelled h
  have hwrite : write (.float x) = .ok x.write := by rw [write, if_pos h]
  have hdenotes : Denotes (levels + 1) x.write (.float n.toBinary64) := .float hspells hint
  rw [hread] at hdenotes
  exact ⟨_, hwrite, hwrite, hdenotes, quiet_of_spells hspells⟩

theorem writtenAs_text {levels : Nat} (t : Text) :
    WrittenAs (levels + 1) (.text t) (writeText t) :=
  ⟨rfl, rfl, .text (writeText_quoted t), writeText_quiet t⟩

section
variable {levels : Nat}

theorem Items.behind_blanks {D : Text → Value → Prop} {b t : Text} {vs : List Value}
    (hb : Blanks b) (h : Items D t vs) : Items D (b ++ t) vs := by
  cases h with
  | empty hc => exact .empty (hb.append hc)
  | last ha ht hc =>
    rw [← List.append_assoc]
    exact .last (hb.append ha) ht hc
  | more ha ht hc hr =>
    rw [← List.append_assoc]
    exact .more (hb.append ha) ht hc hr

theorem writeItems_length {vs : List Value} {ts : List Text} (h : writeItems vs = .ok ts) :
    ts.length = vs.length := by
  induction vs generalizing ts with
  | nil =>
    obtain rfl := Except.ok.inj h
    rfl
  | cons v vs ih =>
    rw [writeItems] at h
    split at h
    · cases h
    split at h
    · cases h
    next us hus =>
    obtain rfl := Except.ok.inj h
    rw [List.length_cons, List.length_cons, ih hus]

theorem writeItems_written {items : List Value}
    (h : ∀ v ∈ items, ∃ t, WrittenAs levels v t) :
    ∃ ts, writeItems items = .ok ts ∧ writeItems (Value.listedItems items) = .ok ts ∧
      Items (Denotes levels) (join (chars ", ") ts) (Value.listedItems items) ∧
      Quiet (join (chars ", ") ts) := by
  induction items with
  | nil => exact ⟨[], rfl, rfl, .empty blanks_nil, .nil⟩
  | cons v vs ih =>
    obtain ⟨t, ht⟩ := h v (by simp)
    obtain ⟨ts, hts, hlisted, hitems, hquiet⟩ := ih (fun w hw => h w (List.mem_cons_of_mem v hw))
    have hlen := writeItems_length hts
    refine ⟨t :: ts, ?_, ?_, ?_⟩
    · simp only [writeItems, ht.write, hts]
    · simp only [Value.listedItems, writeItems, ht.write_listed, hlisted]
    cases vs with
    | nil =>
      obtain rfl : ts = [] := List.length_eq_zero_iff.mp hlen
      have hlast := Items.last blanks_nil ht.denotes blanks_nil
      rw [List.append_nil] at hlast
      exact ⟨hlast, ht.quiet⟩
    | cons w ws =>
      have hne : ts ≠ [] := by
        rintro rfl
        cases hlen
      rw [join_cons _ _ hne]
      refine ⟨?_, ht.quiet.append_item hquiet⟩
      rw [List.append_assoc]
      exact .more blanks_nil ht.denotes blanks_nil (hitems.behind_blanks blanks_space)

/-- A list and a tuple of the same items have one text, which is read as the list. -/
theorem writtenAs_items {items : List Value} (h : ∀ v ∈ items, ∃ t, WrittenAs levels v t) :
    ∃ t, WrittenAs (levels + 1) (.list items) t ∧ WrittenAs (levels + 1) (.tuple items) t := by
  obtain ⟨ts, hts, hlisted, hitems, hquiet⟩ := writeItems_written h
  have hwrite : write (.list (Value.listedItems items)) =
      .ok ([openBracket] ++ join (chars ", ") ts ++ [closeBracket]) := by rw [write, hlisted]
  have hdenotes : Denotes (levels + 1) ([openBracket] ++ join (chars ", ") ts ++ [closeBracket])
      (.list (Value.listedItems items)) := .list hitems
  have henclosed : Quiet ([openBracket] ++ join (chars ", ") ts ++ [closeBracket]) :=
    hquiet.enclosed (by decide) (by decide) (by decide)
  exact ⟨_, ⟨by rw [write, hts], hwrite, hdenotes, henclosed⟩,
    ⟨by rw [write, hts], hwrite, hdenotes, henclosed⟩⟩

theorem Pairs.behind_blanks {D : Text → Value → Prop} {b t : Text} {ps : List (Text × Value)}
    (hb : Blanks b) (h : Pairs D t ps) : Pairs D (b ++ t) ps := by
  have hpair : ∀ {t p}, Pair D t p → Pair D (b ++ t) p := by
    intro t p ht
    cases ht with
    | mk ha hs hc hd ht he =>
      rw [← List.append_assoc]
      exact .mk (hb.append ha) hs hc hd ht he
  cases h with
  | empty hc => exact .empty (hb.append hc)
  | last ht => exact .last (hpair ht)
  | more ht hr =>
    rw [← List.append_assoc]
    exact .more (hpair ht) hr

theorem writeEntries_length {entries : List (Value × Value)} {ts : List Text}
    (h : writeEntries entries = .ok ts) : ts.length = entries.length := by
  induction entries generalizing ts with
  | nil =>
    obtain rfl := Except.ok.inj h
    rfl
  | cons e entries ih =>
    obtain ⟨k, v⟩ := e
    unfold writeEntries at h
    split at h
    · next heq => cases heq
    · next heq =>
      obtain ⟨heq, rfl⟩ := List.cons.inj heq
      split at h
      · cases h
      split at h
      · cases h
      next us hus =>
      obtain rfl := Except.ok.inj h
      rw [List.length_cons, List.length_cons, ih hus]
    · cases h

theorem pair_written (k : Text) {t : Text} {v : Value} (ht : WrittenAs levels v t) :
    Pair (Denotes levels) (writeText k ++ chars ": " ++ t) (k, v.listed) ∧
      Quiet (writeText k ++ chars ": " ++ t) := by
  constructor
  · have h := Pair.mk blanks_nil (writeText_quoted k) blanks_nil blanks_space ht.denotes blanks_nil
    rw [List.append_nil] at h
    rw [List.append_assoc]
    exact h
  · obtain ⟨body, hbody, -⟩ := writeText_eq k
    have hkey := writeText_quiet k
    rw [hbody] at hkey ⊢
    have hcolon : Calm (chars ": " ++ t) := (ht.quiet.behind_space.toCalm).cons (by decide)
    have h : Quiet ((quote :: body) ++ quote :: (chars ": " ++ t)) :=
      Quiet.append hkey (by decide) (by decide) hcolon
    simpa using h

theorem writeEntries_written {fields : List (Text × Value)}
    (h : ∀ f ∈ fields, ∃ t, WrittenAs levels f.2 t) :
    ∃ ts, writeEntries (fields.map (fun f => (.text f.1, f.2))) = .ok ts ∧
      writeEntries (fields.map (fun f => (.text f.1, f.2.listed))) = .ok ts ∧
      Pairs (Denotes levels) (join (chars ", ") ts) (fields.map (fun f => (f.1, f.2.listed))) ∧
      Quiet (join (chars ", ") ts) := by
  induction fields with
  | nil => exact ⟨[], rfl, rfl, .empty blanks_nil, .nil⟩
  | cons f fields ih =>
    obtain ⟨t, ht⟩ := h f (by simp)
    obtain ⟨ts, hts, hlisted, hpairs, hquiet⟩ := ih (fun g hg => h g (List.mem_cons_of_mem f hg))
    obtain ⟨hpair, hfirst⟩ := pair_written f.1 ht
    have hlen := writeEntries_length hts
    refine ⟨(writeText f.1 ++ chars ": " ++ t) :: ts, ?_, ?_, ?_⟩
    · simp only [List.map_cons, writeEntries, ht.write, hts]
    · simp only [List.map_cons, writeEntries, ht.write_listed, hlisted]
    cases fields with
    | nil =>
      obtain rfl : ts = [] := List.length_eq_zero_iff.mp hlen
      exact ⟨.last hpair, hfirst⟩
    | cons g gs =>
      have hne : ts ≠ [] := by
        rintro rfl
        cases hlen
      rw [join_cons _ _ hne]
      refine ⟨?_, hfirst.append_item hquiet⟩
      rw [List.append_assoc]
      exact .more hpair (hpairs.behind_blanks blanks_space)

/-- Every value that can be written has a text that the grammar reads as the value, and that
normalization leaves alone. -/
theorem Writable.written {v : Value} (h : Writable levels v) : ∃ t, WrittenAs levels v t := by
  induction h with
  | null => exact ⟨_, writtenAs_word (by simp [words]) rfl rfl (by decide) (by decide)⟩
  | bool b =>
    cases b with
    | false => exact ⟨_, writtenAs_word (by simp [words]) rfl rfl (by decide) (by decide)⟩
    | true => exact ⟨_, writtenAs_word (by simp [words]) rfl rfl (by decide) (by decide)⟩
  | int h => exact writtenAs_int h
  | float h => exact writtenAs_float h
  | text t => exact ⟨_, writtenAs_text t⟩
  | list h ih =>
    obtain ⟨t, ht, -⟩ := writtenAs_items ih
    exact ⟨t, ht⟩
  | tuple h ih =>
    obtain ⟨t, -, ht⟩ := writtenAs_items ih
    exact ⟨t, ht⟩
  | @mapping levels fields hn h ih =>
    obtain ⟨ts, hts, hlisted, hpairs, hquiet⟩ := writeEntries_written ih
    have hkeys : ((fields.map (fun f => (f.1, f.2.listed))).map Prod.fst).Nodup := by
      rw [List.map_map]
      exact hn
    refine ⟨[openBrace] ++ join (chars ", ") ts ++ [closeBrace], ?_, ?_, ?_, ?_⟩
    · rw [Value.record, write, hts]
    · rw [Value.listed_record, Value.record, List.map_map, write]
      simp only [Function.comp_def, hlisted]
    · have hdenotes : Denotes (levels + 1) _ _ := .mapping hpairs
      rw [settled_of_nodup hkeys, ← Value.listed_record] at hdenotes
      exact hdenotes
    · exact hquiet.enclosed (by decide) (by decide) (by decide)

end

end Literal

end Callboard
