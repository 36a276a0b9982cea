import Callboard.Proofs.Invocation.Shape
import Callboard.Proofs.Literal.Written

/-!
# Written invocations read back

An invocation that is written with a name and values is read as the same name and the
same values. The name must not hold a parenthesis or begin with a blank, and without
values it must not end with a blank either, since it then stands alone.
-/

set_option autoImplicit false

namespace Callboard.Invocation

open Text Literal

structure Callable (name : Text) (args : List Value) : Prop where
  ne_nil : name ≠ []
  no_paren : openParen ∉ name
  first : ∀ c ∈ name.head?, isBlank c = false
  last : args = [] → ∀ c ∈ name.getLast?, isBlank c = false

theorem parse?_bare {name : Text} (h : Callable name []) : parse? name = some ⟨name, none⟩ := by
  rw [parse?, strip_of_ends h.first (h.last rfl)]
  exact split?_eq_some_iff.mpr (.bare h.ne_nil h.no_paren)

theorem parse?_call {name inside : Text} (hne : name ≠ []) (hp : openParen ∉ name)
    (hfirst : ∀ c ∈ name.head?, isBlank c = false) (hn : newline ∉ inside) :
    parse? (name ++ [openParen] ++ inside ++ [closeParen]) = some ⟨name, some inside⟩ := by
  have hshape := Shape.call hne hp hn
  have hassoc : name ++ [openParen] ++ inside ++ [closeParen] =
      name ++ openParen :: (inside ++ [closeParen]) := by simp
  have hhead : ∀ c ∈ (name ++ openParen :: (inside ++ [closeParen])).head?, isBlank c = false := by
    rw [← hshape.head]
    exact hfirst
  have hlast : ∀ c ∈ (name ++ openParen :: (inside ++ [closeParen])).getLast?, isBlank c = false := by
    intro c hc
    rw [← hassoc, List.getLast?_concat] at hc
    obtain rfl := Option.some.inj hc
    decide
  rw [parse?, hassoc, strip_of_ends hhead hlast]
  exact split?_eq_some_iff.mpr hshape

theorem decode_items {t : Text} {vs : List Value} (hquiet : Quiet t) (hne : strip t ≠ [])
    (h : Items (Denotes maxDepth) t vs) : decode (some t) = .ok vs := by
  have hread : Literal.read ([openBracket] ++ t ++ [closeBracket]) = .ok (.list vs) := by
    refine read_eq_ok_iff.mpr ⟨[], [openBracket] ++ t ++ [closeBracket], [], by simp, rfl, ?_, rfl⟩
    exact Over.list h
  have hblank : (strip t).isEmpty = false := by simpa using hne
  simp only [decode, hblank, hquiet.normalize, hread, Bool.false_eq_true, if_false]

theorem strip_items_ne_nil {D : Text → Value → Prop} (hopens : ∀ t v, D t v → Opens t) {t : Text}
    {vs : List Value} (h : Items D t vs) (hne : vs ≠ []) : strip t ≠ [] := by
  have hblank : ∀ {a t b : Text} {v : Value}, D t v → ¬ (a ++ (t ++ b)).all isBlank = true := by
    intro a t b v ht hall
    obtain ⟨c, r, rfl, hc, -⟩ := hopens t v ht
    simp [hc] at hall
  intro hstrip
  rw [strip_eq_nil_iff] at hstrip
  cases h with
  | empty _ => exact hne rfl
  | last _ ht _ => exact hblank ht hstrip
  | more _ ht _ _ => exact hblank ht hstrip

theorem call_reads_back {name : Text} {v : Value} {vs : List Value} (hne : name ≠ [])
    (hp : openParen ∉ name) (hfirst : ∀ c ∈ name.head?, isBlank c = false)
    (hargs : ∀ w ∈ v :: vs, Writable maxDepth w) :
    ∃ t raw, write name (v :: vs) = .ok t ∧ parse? t = some ⟨name, some raw⟩ ∧
      decode (some raw) = .ok ((v :: vs).map Value.listed) ∧
      write name ((v :: vs).map Value.listed) = .ok t := by
  obtain ⟨ts, hts, hlisted, hitems, hquiet⟩ :=
    writeItems_written (fun w hw => (hargs w hw).written)
  rw [Value.listedItems_eq] at hlisted hitems
  have hstrip := strip_items_ne_nil (fun _ _ => Denotes.opens) hitems (by simp)
  refine ⟨name ++ [openParen] ++ join (chars ", ") ts ++ [closeParen], _, ?_,
    parse?_call hne hp hfirst hquiet.no_newline, decode_items hquiet hstrip hitems, ?_⟩
  · simp only [write, hts]
  · rw [List.map_cons] at hlisted ⊢
    simp only [write, hlisted]

/-- Every call that can be written is read back as the same name and the same values, with
its tuples as lists, and what was read is written as the same text. -/
theorem write_reads_back {name : Text} {args : List Value} (hname : Callable name args)
    (hargs : ∀ v ∈ args, Writable maxDepth v) :
    ∃ t inv, write name args = .ok t ∧ parse? t = some inv ∧ inv.name = name ∧
      decode inv.arguments = .ok (args.map Value.listed) ∧
      write inv.name (args.map Value.listed) = .ok t := by
  cases args with
  | nil => exact ⟨name, _, rfl, parse?_bare hname, rfl, rfl, rfl⟩
  | cons v vs =>
    obtain ⟨t, raw, hwrite, hparse, hdecode, hagain⟩ :=
      call_reads_back hname.ne_nil hname.no_paren hname.first hargs
    exact ⟨t, _, hwrite, hparse, rfl, hdecode, hagain⟩

def nestedValues : List Value := [
  .tuple [.int (-5), .text (chars "it's, b: (\n"), .float (.zero true)],
  .record [(chars "a, k:", .list []), (chars "", .null)]]

theorem nestedValues_writable : ∀ v ∈ nestedValues, Writable maxDepth v := by
  intro v hv
  simp only [nestedValues, List.mem_cons, List.not_mem_nil, or_false] at hv
  rcases hv with rfl | rfl
  · refine .tuple (fun w hw => ?_)
    simp only [List.mem_cons, List.not_mem_nil, or_false] at hw
    rcases hw with rfl | rfl | rfl
    · exact .int (by decide)
    · exact .text _
    · exact .float rfl
  · refine .mapping (by decide) (fun f hf => ?_)
    simp only [List.mem_cons, List.not_mem_nil, or_false] at hf
    rcases hf with rfl | rfl
    · exact .list (by simp)
    · exact .null

theorem write_reads_back_nested :
    Callable (chars "run") nestedValues ∧
      (∀ v ∈ nestedValues, Writable maxDepth v) ∧
      ∃ t inv, write (chars "run") nestedValues = .ok t ∧ parse? t = some inv ∧
        inv.name = chars "run" ∧
        decode inv.arguments = .ok (nestedValues.map Value.listed) ∧
        write inv.name (nestedValues.map Value.listed) = .ok t := by
  have hname : Callable (chars "run") nestedValues :=
    ⟨by decide, by decide, by decide, by simp [nestedValues]⟩
  exact ⟨hname, nestedValues_writable, write_reads_back hname nestedValues_writable⟩

end Callboard.Invocation
