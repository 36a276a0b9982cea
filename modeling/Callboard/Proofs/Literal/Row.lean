import Callboard.Proofs.Literal.Image

/-!
# Rows of literals

What stands between the brackets of a list is nothing but blanks, or a row: literals with
commas between them and perhaps one behind the last. A row in brackets is read as the list of
its values, and a text in brackets that is read as anything is a row or blank.
-/

set_option autoImplicit false

namespace Callboard.Literal

open Text

section
variable {D : Text → Value → Prop}

inductive Padded (D : Text → Value → Prop) : Text → Value → Prop where
  | mk {a t b : Text} {v : Value} (ha : Blanks a) (ht : D t v) (hb : Blanks b) :
      Padded D (a ++ (t ++ b)) v

def Row (D : Text → Value → Prop) (t : Text) (vs : List Value) : Prop :=
  vs ≠ [] ∧ ∃ ts, List.Forall₂ (Padded D) ts vs ∧
    (t = join [comma] ts ∨ ∃ b, Blanks b ∧ t = join [comma] ts ++ comma :: b)

theorem items_nil_iff {t : Text} : Items D t [] ↔ Blanks t := by
  constructor
  · intro h
    cases h with
    | empty hb => exact hb
  · exact .empty

theorem Row.single {t : Text} {v : Value} (h : Padded D t v) : Row D t [v] :=
  ⟨by simp, [t], .cons h .nil, .inl rfl⟩

theorem Row.closing {t b : Text} {v : Value} (h : Padded D t v) (hb : Blanks b) :
    Row D (t ++ comma :: b) [v] :=
  ⟨by simp, [t], .cons h .nil, .inr ⟨b, hb, rfl⟩⟩

theorem Row.cons {t r : Text} {v : Value} {vs : List Value} (h : Padded D t v) (hr : Row D r vs) :
    Row D (t ++ comma :: r) (v :: vs) := by
  obtain ⟨hne, ts, hts, hr⟩ := hr
  have hcons : join [comma] (t :: ts) = t ++ comma :: join [comma] ts := by
    cases hts with
    | nil => exact absurd rfl hne
    | cons _ _ => simp [join]
  refine ⟨by simp, t :: ts, .cons h hts, ?_⟩
  rw [hcons]
  rcases hr with rfl | ⟨b, hb, rfl⟩
  · exact .inl rfl
  · exact .inr ⟨b, hb, by simp⟩

theorem Items.row {t : Text} {vs : List Value} (h : Items D t vs) (hne : vs ≠ []) : Row D t vs := by
  induction h with
  | empty _ => exact absurd rfl hne
  | last ha ht hb => exact .single (.mk ha ht hb)
  | @more a t b r v vs ha ht hb hr ih =>
    have hassoc : a ++ (t ++ (b ++ comma :: r)) = a ++ (t ++ b) ++ comma :: r := by simp
    rw [hassoc]
    by_cases hvs : vs = []
    · subst hvs
      exact .closing (.mk ha ht hb) (items_nil_iff.mp hr)
    · exact .cons (.mk ha ht hb) (ih hvs)

theorem Padded.items {t : Text} {v : Value} (h : Padded D t v) : Items D t [v] := by
  cases h with
  | mk ha ht hb => exact .last ha ht hb

theorem Padded.items_cons {t r : Text} {v : Value} {vs : List Value} (h : Padded D t v)
    (hr : Items D r vs) : Items D (t ++ comma :: r) (v :: vs) := by
  cases h with
  | mk ha ht hb =>
    rw [List.append_assoc, List.append_assoc]
    exact .more ha ht hb hr

theorem Row.items {t : Text} {vs : List Value} (h : Row D t vs) : Items D t vs := by
  obtain ⟨hne, ts, hts, ht⟩ := h
  induction hts generalizing t with
  | nil => exact absurd rfl hne
  | @cons u v us vs hu hus ih =>
    cases hus with
    | nil =>
      rcases ht with rfl | ⟨b, hb, rfl⟩
      · exact hu.items
      · exact hu.items_cons (.empty hb)
    | @cons u' v' us vs hu' hus =>
      have hjoin : join [comma] (u :: u' :: us) = u ++ comma :: join [comma] (u' :: us) := by
        simp [join]
      rw [hjoin] at ht
      rcases ht with rfl | ⟨b, hb, rfl⟩
      · exact hu.items_cons (ih (by simp) (.inl rfl))
      · rw [List.append_assoc, List.cons_append]
        exact hu.items_cons (ih (by simp) (.inr ⟨b, hb, rfl⟩))

theorem items_iff {t : Text} {vs : List Value} :
    Items D t vs ↔ vs = [] ∧ Blanks t ∨ Row D t vs := by
  constructor
  · intro h
    by_cases hvs : vs = []
    · subst hvs
      exact .inl ⟨rfl, items_nil_iff.mp h⟩
    · exact .inr (h.row hvs)
  · rintro (⟨rfl, hb⟩ | h)
    · exact .empty hb
    · exact h.items

end

def bracketed (t : Text) : Text := openBracket :: (t ++ [closeBracket])

theorem readValue_items {levels : Nat} {t : Text} {vs : List Value}
    (h : Items (Denotes levels) t vs) (rest : Text) :
    readValue (levels + 1) (openBracket :: (t ++ closeBracket :: rest)) = .ok (.list vs, rest) := by
  have hfuel : t.length < (t ++ closeBracket :: rest).length + 1 := by
    rw [List.length_append]
    omega
  have hskip : skipBlank (openBracket :: (t ++ closeBracket :: rest)) =
      openBracket :: (t ++ closeBracket :: rest) := skipBlank_cons_of_not_blank (by decide) _
  rcases readItems_complete (fun _ _ => Denotes.opens) (readValue_complete levels levels) h hfuel
    rest with hitems | ⟨e, he, -⟩
  · unfold readValue
    simp only [hskip, hitems]
  · exact absurd he.1 (Nat.lt_irrefl _)

/-- Between brackets nothing but items is read, and the last bracket is the one put there. -/
theorem document_bracketed {t : Text} {v : Value} :
    Document (bracketed t) v ↔ ∃ vs, v = .list vs ∧ Items (Denotes maxDepth) t vs := by
  constructor
  · intro h
    obtain ⟨body, vs, b, ht, rfl, hitems, hb⟩ := document_bracket h
    refine ⟨vs, rfl, ?_⟩
    rcases List.eq_nil_or_concat b with rfl | ⟨b, c, rfl⟩
    · rwa [List.append_cancel_right ht]
    · -- the text would end with a blank
      have hlast := congrArg List.getLast? ht
      have hblank : isBlank c = true := List.all_eq_true.mp hb c (by simp)
      rw [List.concat_eq_append, ← List.cons_append, ← List.append_assoc, List.getLast?_concat,
        List.getLast?_concat] at hlast
      obtain rfl := Option.some.inj hlast
      cases hblank
  · rintro ⟨vs, rfl, hitems⟩
    exact ⟨[], bracketed t, [], by simp, rfl, .list hitems, rfl⟩

theorem read_bracketed {t : Text} {v : Value} :
    read (bracketed t) = .ok v ↔ ∃ vs, v = .list vs ∧ Items (Denotes maxDepth) t vs :=
  read_eq_ok_iff.trans document_bracketed

/-- Where the items of a text are all of it, no bracket of its own ends the list before. -/
theorem not_closed_before {levels : Nat} {t : Text} {vs : List Value}
    (h : Items (Denotes levels) t vs) {body rest : Text} (ht : t = body ++ closeBracket :: rest)
    (v : Value) : ¬ Denotes (levels + 1) (bracketed body) v := by
  intro hbody
  obtain ⟨inner, ws, hinner, -, hitems⟩ := over_bracket hbody
  rw [← List.append_cancel_right hinner] at hitems
  have hwhole := readValue_items h []
  have hbefore := readValue_items hitems (rest ++ [closeBracket])
  have hassoc : t ++ [closeBracket] = body ++ closeBracket :: (rest ++ [closeBracket]) := by
    rw [ht, List.append_assoc, List.cons_append]
  rw [hassoc, hbefore] at hwhole
  have hrest := (Prod.mk.inj (Except.ok.inj hwhole)).2
  simp at hrest

end Callboard.Literal
