import Callboard.Proofs.Literal.Written

/-!
# What is read can be written

Every value that the grammar denotes can be written, unless one of its doubles is not
finite, and has no tuples. Integers keep within the limit of digits, since they have no
more digits than their token, and a mapping has every key once.
-/

set_option autoImplicit false

namespace Callboard

namespace Value

mutual
def finite : Value → Bool
  | .float x => x.isFinite
  | .list items => allFinite items
  | .tuple items => allFinite items
  | .set items => allFinite items
  | .mapping entries => entriesFinite entries
  | _ => true

def allFinite : List Value → Bool
  | [] => true
  | v :: vs => finite v && allFinite vs

def entriesFinite : List (Value × Value) → Bool
  | [] => true
  | (k, v) :: entries => finite k && finite v && entriesFinite entries
end

theorem allFinite_iff (items : List Value) :
    allFinite items = true ↔ ∀ v ∈ items, v.finite = true := by
  induction items with
  | nil => simp [allFinite]
  | cons v vs ih => simp [allFinite, ih]

theorem finite_record_iff (fields : List (Text × Value)) :
    finite (.record fields) = true ↔ ∀ f ∈ fields, f.2.finite = true := by
  rw [record, finite]
  induction fields with
  | nil => simp [entriesFinite]
  | cons f fields ih =>
    rw [List.map_cons, entriesFinite, Bool.and_eq_true, ih]
    simp [finite]

end Value

namespace Literal

open Text

section
variable {D : Text → Value → Prop}

theorem Items.denoted {t : Text} {vs : List Value} (h : Items D t vs) {v : Value} (hv : v ∈ vs) :
    ∃ u, u <:+: t ∧ D u v := by
  induction h with
  | empty _ => cases hv
  | @last a u b w _ ht _ =>
    obtain rfl := List.mem_singleton.mp hv
    exact ⟨u, ⟨a, b, by simp⟩, ht⟩
  | @more a u b r w ws _ ht _ _ ih =>
    rcases List.mem_cons.mp hv with rfl | hv
    · exact ⟨u, ⟨a, b ++ comma :: r, by simp⟩, ht⟩
    · obtain ⟨u', hu', hv⟩ := ih hv
      exact ⟨u', hu'.trans ⟨a ++ u ++ b ++ [comma], [], by simp⟩, hv⟩

theorem Pair.denoted {t : Text} {p : Text × Value} (h : Pair D t p) : ∃ u, u <:+: t ∧ D u p.2 := by
  cases h with
  | @mk a s b c u d k v _ _ _ _ ht _ =>
    exact ⟨u, ⟨a ++ s ++ b ++ [colon] ++ c, d, by simp⟩, ht⟩

theorem Pairs.denoted {t : Text} {ps : List (Text × Value)} (h : Pairs D t ps) {p : Text × Value}
    (hp : p ∈ ps) : ∃ u, u <:+: t ∧ D u p.2 := by
  induction h with
  | empty _ => cases hp
  | last ht =>
    obtain rfl := List.mem_singleton.mp hp
    exact ht.denoted
  | @more s r q qs ht _ ih =>
    rcases List.mem_cons.mp hp with rfl | hp
    · obtain ⟨u, hu, hv⟩ := ht.denoted
      exact ⟨u, hu.trans ⟨[], comma :: r, by simp⟩, hv⟩
    · obtain ⟨u, hu, hv⟩ := ih hp
      exact ⟨u, hu.trans ⟨s ++ [comma], [], by simp⟩, hv⟩

end

def Stable (levels : Nat) (v : Value) : Prop :=
  v.listed = v ∧ (v.finite = true → Writable levels v)

theorem Stable.list {levels : Nat} {vs : List Value} (h : ∀ w ∈ vs, Stable levels w) :
    Stable (levels + 1) (.list vs) := by
  constructor
  · rw [Value.listed, Value.listedItems_eq, List.map_congr_left (fun w hw => (h w hw).1)]
    simp
  · intro hfinite
    rw [Value.finite, Value.allFinite_iff] at hfinite
    exact .list (fun w hw => (h w hw).2 (hfinite w hw))

theorem Stable.record {levels : Nat} {fields : List (Text × Value)}
    (hn : (fields.map Prod.fst).Nodup) (h : ∀ f ∈ fields, Stable levels f.2) :
    Stable (levels + 1) (.record fields) := by
  constructor
  · have hsame : ∀ f ∈ fields, (f.1, f.2.listed) = f := by
      intro f hf
      rw [(h f hf).1]
    rw [Value.listed_record, List.map_congr_left hsame]
    simp
  · intro hfinite
    rw [Value.finite_record_iff] at hfinite
    exact .mapping hn (fun f hf => (h f hf).2 (hfinite f hf))

theorem Denotes.stable {levels : Nat} {t : Text} {v : Value} (h : Denotes levels t v) :
    Stable levels v := by
  induction levels generalizing t v with
  | zero => exact h.elim
  | succ levels ih =>
    cases h with
    | text _ => exact ⟨rfl, fun _ => .text _⟩
    | int h hi hl => exact ⟨rfl, fun _ => .int ((Value.digits_toInt_length h hi).trans hl)⟩
    | float _ _ => exact ⟨rfl, fun hfinite => .float hfinite⟩
    | word h =>
      simp only [words, List.mem_cons, Prod.mk.injEq, List.not_mem_nil, or_false] at h
      rcases h with ⟨-, rfl⟩ | ⟨-, rfl⟩ | ⟨-, rfl⟩ | ⟨-, rfl⟩
      · exact ⟨rfl, fun _ => .bool true⟩
      · exact ⟨rfl, fun _ => .bool false⟩
      · exact ⟨rfl, fun _ => .null⟩
      · exact ⟨rfl, fun _ => .null⟩
    | list h =>
      apply Stable.list
      intro w hw
      obtain ⟨u, -, hu⟩ := h.denoted hw
      exact ih hu
    | @mapping body ps h =>
      apply Stable.record (settled_nodup ps)
      intro f hf
      obtain ⟨u, -, hu⟩ := h.denoted (mem_of_mem_settled hf)
      exact ih hu

theorem over_bracket {D : Text → Value → Prop} {r : Text} {v : Value}
    (h : Over D (openBracket :: r) v) :
    ∃ body vs, r = body ++ [closeBracket] ∧ v = .list vs ∧ Items D body vs := by
  have hdelimiter : isDelimiter openBracket = true := by decide
  generalize hs : openBracket :: r = s at h
  cases h with
  | text h =>
    obtain ⟨inside, rfl, -⟩ := h
    cases hs
  | int h _ _ =>
    obtain ⟨c, u, rfl, -, -, -, hc⟩ := spells_starts h
    obtain ⟨rfl, -⟩ := List.cons.inj hs
    rw [hdelimiter] at hc
    cases hc
  | float h _ =>
    obtain ⟨c, u, rfl, -, -, -, hc⟩ := spells_starts h
    obtain ⟨rfl, -⟩ := List.cons.inj hs
    rw [hdelimiter] at hc
    cases hc
  | word h =>
    simp only [words, List.mem_cons, Prod.mk.injEq, List.not_mem_nil, or_false] at h
    rcases h with ⟨rfl, -⟩ | ⟨rfl, -⟩ | ⟨rfl, -⟩ | ⟨rfl, -⟩ <;> cases hs
  | list h => exact ⟨_, _, (List.cons.inj hs).2, rfl, h⟩
  | mapping _ => cases hs

theorem document_bracket {t : Text} {v : Value} (h : Document (openBracket :: t) v) :
    ∃ body vs b, t = body ++ closeBracket :: b ∧ v = .list vs ∧ Items (Denotes maxDepth) body vs ∧
      Blanks b := by
  obtain ⟨a, body, b, ht, ha, hbody, hb⟩ := h
  obtain ⟨c, r, rfl, -⟩ := hbody.opens
  cases a with
  | nil =>
    obtain ⟨rfl, rfl⟩ := List.cons.inj ht
    obtain ⟨inner, vs, rfl, rfl, hitems⟩ := over_bracket hbody
    exact ⟨inner, vs, b, by simp, rfl, hitems, hb⟩
  | cons x a =>
    obtain ⟨rfl, -⟩ := List.cons.inj ht
    cases ha

end Literal

end Callboard
