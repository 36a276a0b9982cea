import Callboard.Proofs.Invocation.Enclosed
import Callboard.Proofs.Invocation.RoundTrip

/-!
# Calls in canonical form

A call that was read can be written, and is then read back with the same values. It
keeps its name as well, with one exception: a name that ends with a blank loses the
blank when there are no values, since it is then written without parentheses.
-/

set_option autoImplicit false

namespace Callboard.Invocation

open Text Literal

theorem parse?_name {t : Text} {inv : Invocation} (h : parse? t = some inv) :
    inv.name ≠ [] ∧ openParen ∉ inv.name ∧ ∀ c ∈ inv.name.head?, isBlank c = false := by
  have hshape : Shape (strip t) inv := split?_eq_some_iff.mp h
  refine ⟨hshape.name_ne_nil, hshape.name_no_paren, ?_⟩
  rw [hshape.head]
  exact strip_head t

theorem decode_denoted {raw : Option Text} {args : List Value} (h : decode raw = .ok args) :
    ∀ v ∈ args, ∃ u, Denotes maxDepth u v := by
  cases raw with
  | none =>
    obtain rfl := Except.ok.inj h
    simp
  | some raw =>
    intro v hv
    obtain ⟨u, -, hu⟩ := (decode_items_iff.mp h).denoted hv
    exact ⟨u, hu⟩

theorem decode_writable {raw : Option Text} {args : List Value} (h : decode raw = .ok args)
    (hfinite : ∀ v ∈ args, v.finite = true) :
    args.map Value.listed = args ∧ ∀ v ∈ args, Writable maxDepth v := by
  constructor
  · have hsame : ∀ v ∈ args, v.listed = v := by
      intro v hv
      obtain ⟨u, hu⟩ := decode_denoted h v hv
      exact hu.stable.1
    rw [List.map_congr_left hsame]
    simp
  · intro v hv
    obtain ⟨u, hu⟩ := decode_denoted h v hv
    exact hu.stable.2 (hfinite v hv)

theorem parse?_stripped {name : Text} (hne : name ≠ []) (hp : openParen ∉ name)
    (hfirst : ∀ c ∈ name.head?, isBlank c = false) : parse? name = some ⟨strip name, none⟩ := by
  obtain ⟨b, hb⟩ := strip_eq_prefix name
  rw [dropWhile_of_head hfirst] at hb
  have hstrip : strip name ≠ [] := by
    intro hnil
    have hall := (strip_eq_nil_iff name).mp hnil
    obtain ⟨c, r, rfl⟩ := List.exists_cons_of_ne_nil hne
    simp [hfirst c rfl] at hall
  have hparen : openParen ∉ strip name := by
    intro hmem
    rw [hb] at hp
    exact hp (List.mem_append_left b hmem)
  exact split?_eq_some_iff.mpr (.bare hstrip hparen)

theorem strip_eq_iff {name : Text} (hfirst : ∀ c ∈ name.head?, isBlank c = false) :
    strip name = name ↔ ∀ c ∈ name.getLast?, isBlank c = false := by
  constructor
  · intro h
    rw [← h]
    exact strip_last name
  · exact strip_of_ends hfirst

/-- A call that was read is written as an invocation with the same values. The name is kept,
and the text written again is the same, exactly when the call has values or its name does
not end with a blank; otherwise the name is read without those blanks. -/
theorem canonical_keeps_name_iff {target : Text} {name : Text} {raw : Option Text}
    {args : List Value} (hparse : parse? target = some ⟨name, raw⟩)
    (hdecode : decode raw = .ok args) (hfinite : ∀ v ∈ args, v.finite = true) :
    ∃ c inv, write name args = .ok c ∧ parse? c = some inv ∧ decode inv.arguments = .ok args ∧
      (inv.name = name ∧ write inv.name args = .ok c ↔
        args ≠ [] ∨ ∀ b ∈ name.getLast?, isBlank b = false) ∧
      (args = [] → inv.name = strip name) := by
  obtain ⟨hne, hp, hfirst⟩ := parse?_name hparse
  obtain ⟨hlisted, hargs⟩ := decode_writable hdecode hfinite
  cases args with
  | nil =>
    refine ⟨name, _, rfl, parse?_stripped hne hp hfirst, rfl, ?_, fun _ => rfl⟩
    rw [← strip_eq_iff hfirst]
    constructor
    · rintro ⟨hname, -⟩
      exact .inr hname
    · intro h
      have hname : strip name = name := h.resolve_left (by simp)
      exact ⟨hname, by simp only [hname, write]⟩
  | cons v vs =>
    obtain ⟨t, inside, hwrite, hagain, hread, -⟩ := call_reads_back hne hp hfirst hargs
    rw [hlisted] at hread
    refine ⟨t, _, hwrite, hagain, hread, ?_, by simp⟩
    exact ⟨fun _ => .inl (by simp), fun _ => ⟨rfl, hwrite⟩⟩

theorem canonical_keeps_name_one :
    parse? (chars "f( 1,)") = some ⟨chars "f", some (chars " 1,")⟩ ∧
      decode (some (chars " 1,")) = .ok [.int 1] ∧ (∀ v ∈ [Value.int 1], v.finite = true) ∧
      ∃ c inv, write (chars "f") [.int 1] = .ok c ∧ parse? c = some inv ∧
        decode inv.arguments = .ok [.int 1] ∧
        (inv.name = chars "f" ∧ write inv.name [.int 1] = .ok c ↔
          [Value.int 1] ≠ [] ∨ ∀ b ∈ (chars "f").getLast?, isBlank b = false) ∧
        ([Value.int 1] = [] → inv.name = strip (chars "f")) := by
  have hparse : parse? (chars "f( 1,)") = some ⟨chars "f", some (chars " 1,")⟩ := by decide
  have hdecode : decode (some (chars " 1,")) = .ok [.int 1] := by rfl
  have hfinite : ∀ v ∈ [Value.int 1], v.finite = true := by simp [Value.finite]
  exact ⟨hparse, hdecode, hfinite, canonical_keeps_name_iff hparse hdecode hfinite⟩

/-- The name in front of empty parentheses keeps its blank, and loses it when it is written. -/
theorem canonical_drops_blank :
    ∃ name c, parse? (chars "params ()") = some ⟨name, some []⟩ ∧ decode (some []) = .ok [] ∧
      write name [] = .ok c ∧ ∀ inv, parse? c = some inv → inv.name ≠ name := by
  refine ⟨chars "params ", chars "params ", by decide, by rfl, by rfl, ?_⟩
  intro inv h
  have hread : parse? (chars "params ") = some ⟨chars "params", none⟩ := by decide
  rw [hread] at h
  obtain rfl := Option.some.inj h
  decide

end Callboard.Invocation
