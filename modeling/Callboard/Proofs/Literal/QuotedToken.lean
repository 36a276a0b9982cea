import Callboard.Proofs.Literal.Grammar

/-!
# Reading quoted tokens

A quoted token is read in two steps. The cut looks for the closing quote and knows
no more of escapes than that a backslash takes the next code point with it; the
escapes are read afterwards. Both together take the quoted tokens of the grammar and
nothing else.
-/

set_option autoImplicit false

namespace Callboard.Literal

open Text

inductive Enclosed : Text → Prop where
  | empty : Enclosed []
  | plain {c : CodePoint} {r : Text} (hq : c ≠ quote) (hb : c ≠ backslash) (hn : c ≠ newline)
      (h : Enclosed r) : Enclosed (c :: r)
  | escape {c : CodePoint} {r : Text} (hn : c ≠ newline) (h : Enclosed r) :
      Enclosed (backslash :: c :: r)

theorem inside?_sound {s body rest : Text} (h : inside? s = some (body, rest)) :
    s = body ++ quote :: rest ∧ Enclosed body := by
  fun_induction inside? s generalizing body with
  | case1 => simp at h
  | case2 r =>
    obtain ⟨rfl, rfl⟩ : [] = body ∧ r = rest := by simpa using h
    exact ⟨rfl, .empty⟩
  | case3 => simp at h
  | case4 => simp at h
  | case5 => simp at h
  | case6 c r hn ih =>
    obtain ⟨p, hp, heq⟩ := Option.map_eq_some_iff.mp h
    obtain ⟨rfl, rfl⟩ := Prod.mk.injEq .. ▸ heq
    obtain ⟨rfl, henc⟩ := ih hp
    exact ⟨rfl, .escape hn henc⟩
  | case7 c r hq hn hend hesc ih =>
    obtain ⟨p, hp, heq⟩ := Option.map_eq_some_iff.mp h
    obtain ⟨rfl, rfl⟩ := Prod.mk.injEq .. ▸ heq
    obtain ⟨rfl, henc⟩ := ih hp
    have hb : c ≠ backslash := by
      intro hc
      cases hr : p.1 ++ quote :: p.2 with
      | nil => exact hend hc hr
      | cons a r => exact hesc a r hc hr
    exact ⟨rfl, .plain hq hb hn henc⟩

theorem inside?_cons {c : CodePoint} (hq : c ≠ quote) (hb : c ≠ backslash) (hn : c ≠ newline)
    (r : Text) : inside? (c :: r) = (inside? r).map (fun p => (c :: p.1, p.2)) := by
  rw [inside?]
  · exact hq
  · exact hn
  · intro hc _
    exact hb hc
  · intro _ _ hc _
    exact hb hc

theorem Enclosed.inside? {body : Text} (h : Enclosed body) (rest : Text) :
    inside? (body ++ quote :: rest) = some (body, rest) := by
  induction h with
  | empty => rfl
  | plain hq hb hn _ ih => 
    rw [List.cons_append, inside?_cons hq hb hn, ih]
    rfl
  | escape hn _ ih => simp [Literal.inside?, hn, ih]

theorem letter?_of_mem {e c : CodePoint} (h : (e, c) ∈ escapeLetters) :
    Json.letter? e = some c := by
  simp only [escapeLetters, List.mem_cons, Prod.mk.injEq, List.not_mem_nil, or_false] at h
  rcases h with ⟨rfl, rfl⟩ | ⟨rfl, rfl⟩ | ⟨rfl, rfl⟩ | ⟨rfl, rfl⟩ | ⟨rfl, rfl⟩ | ⟨rfl, rfl⟩ |
    ⟨rfl, rfl⟩ | ⟨rfl, rfl⟩ <;> rfl

theorem mem_of_letter? {e c : CodePoint} (h : Json.letter? e = some c) :
    (e, c) ∈ escapeLetters := by
  unfold Json.letter? at h
  split at h
  · next he =>
    obtain rfl : e = c := by simpa using h
    rcases he with rfl | rfl | rfl <;> simp [escapeLetters]
  iterate 5
    split at h
    · next he =>
      obtain rfl := Option.some.inj h
      subst he
      decide
  simp at h

theorem hex4?_eq_some {a b c d : CodePoint} {n : Nat} (h : Json.hex4? a b c d = some n) :
    HexEscape [backslash, Json.letterU, a, b, c, d] n := by
  unfold Json.hex4? at h
  split at h
  · next x y z w ha hb hc hd =>
    obtain rfl : ((x * 16 + y) * 16 + z) * 16 + w = n := by simpa using h
    have heq : ((x * 16 + y) * 16 + z) * 16 + w = 0x1000 * x + 0x100 * y + 0x10 * z + w := by
      omega
    rw [heq]
    exact .mk ha hb hc hd
  · simp at h

theorem hex4?_of_values {a b c d : CodePoint} {x y z w : Nat} (ha : hexValue? a = some x)
    (hb : hexValue? b = some y) (hc : hexValue? c = some z) (hd : hexValue? d = some w) :
    Json.hex4? a b c d = some (0x1000 * x + 0x100 * y + 0x10 * z + w) := by
  unfold Json.hex4?
  rw [ha, hb, hc, hd]
  simp only [Option.some.injEq]
  omega

inductive Begins : Text → Json.Piece → Text → Prop where
  | plain {c : CodePoint} {r : Text} (hb : c ≠ backslash) : Begins (c :: r) (.plain c) r
  | letter {e c : CodePoint} {r : Text} (hl : (e, c) ∈ escapeLetters) :
      Begins (backslash :: e :: r) (.escape c) r
  | hex {e r : Text} {c : CodePoint} (he : HexEscape e c) : Begins (e ++ r) (.escape c) r

theorem Begins.pieces? {s r : Text} {p : Json.Piece} (h : Begins s p r) :
    Json.pieces? s = (Json.pieces? r).map (p :: ·) := by
  cases h with
  | plain hb => exact Json.pieces?.eq_5 _ _ (by simp [hb]) (by simp [hb]) (by simp [hb])
  | @letter e c r hl =>
    rw [Json.pieces?.eq_3]
    · rw [letter?_of_mem hl]
    · intro a b c d r he _
      subst he
      cases letter?_of_mem hl
  | hex he =>
    obtain ⟨ha, hb, hc, hd⟩ := he
    simp [Json.pieces?, hex4?_of_values ha hb hc hd]

theorem pieces?_eq_nil {s : Text} (h : Json.pieces? s = some []) : s = [] := by
  fun_cases Json.pieces? s <;> simp_all [Json.pieces?]

theorem begins_of_pieces? {s : Text} (h : (Json.pieces? s).isSome) (hne : s ≠ []) :
    ∃ p r, Begins s p r := by
  fun_cases Json.pieces? s with
  | case1 => exact absurd rfl hne
  | case2 a b c d r hx => simp [Json.pieces?, hx] at h
  | case3 a b c d r n hx => exact ⟨_, _, .hex (hex4?_eq_some hx)⟩
  | case4 e r hu hl =>
    rw [Json.pieces?.eq_3 _ _ hu, hl] at h
    simp at h
  | case5 e r hu c hl => exact ⟨_, _, .letter (mem_of_letter? hl)⟩
  | case6 => simp [Json.pieces?] at h
  | case7 c r h1 h2 h3 =>
    refine ⟨_, _, .plain (fun hc => ?_)⟩
    cases r with
    | nil => exact h3 hc rfl
    | cons e r => exact h2 e r hc rfl

theorem pieces?_eq_cons {s : Text} {p : Json.Piece} {ps : List Json.Piece}
    (h : Json.pieces? s = some (p :: ps)) : ∃ r, Begins s p r ∧ Json.pieces? r = some ps := by
  have hne : s ≠ [] := by
    rintro rfl
    simp [Json.pieces?] at h
  obtain ⟨q, r, hq⟩ := begins_of_pieces? (by rw [h]; rfl) hne
  rw [hq.pieces?] at h
  obtain ⟨qs, hqs, heq⟩ := Option.map_eq_some_iff.mp h
  obtain ⟨rfl, rfl⟩ := List.cons.inj heq
  exact ⟨r, hq, hqs⟩

theorem isHighSurrogate_of_letter {e c : CodePoint} (h : (e, c) ∈ escapeLetters) :
    isHighSurrogate c = false ∧ isLowSurrogate c = false := by
  simp only [escapeLetters, List.mem_cons, Prod.mk.injEq, List.not_mem_nil, or_false] at h
  rcases h with ⟨rfl, rfl⟩ | ⟨rfl, rfl⟩ | ⟨rfl, rfl⟩ | ⟨rfl, rfl⟩ | ⟨rfl, rfl⟩ | ⟨rfl, rfl⟩ |
    ⟨rfl, rfl⟩ | ⟨rfl, rfl⟩ <;> decide

/-- A low surrogate can only be escaped by its digits. -/
theorem Begins.hex_of_low {s r : Text} {low : CodePoint} (h : Begins s (.escape low) r)
    (hl : isLowSurrogate low = true) : ∃ e, HexEscape e low ∧ s = e ++ r := by
  cases h with
  | letter h => simp [(isHighSurrogate_of_letter h).2] at hl
  | hex he => exact ⟨_, he, rfl⟩

theorem Begins.hex_of_high {s r : Text} {high : CodePoint} (h : Begins s (.escape high) r)
    (hh : isHighSurrogate high = true) : ∃ e, HexEscape e high ∧ s = e ++ r := by
  cases h with
  | letter h => simp [(isHighSurrogate_of_letter h).1] at hh
  | hex he => exact ⟨_, he, rfl⟩

/-- An escape stands for itself unless a surrogate pair begins with it. -/
theorem assemble_escape {c : CodePoint} {ps : List Json.Piece}
    (h : ∀ low qs, ps = .escape low :: qs → isHighSurrogate c = true → isLowSurrogate low = false) :
    Json.assemble (.escape c :: ps) = c :: Json.assemble ps := by
  cases ps with
  | nil => rfl
  | cons p qs =>
    cases p with
    | plain d => rfl
    | escape low =>
      have hno : (isHighSurrogate c && isLowSurrogate low) = false := by
        cases hc : isHighSurrogate c with
        | false => rfl
        | true => simp [h low qs rfl hc]
      simp [Json.assemble, hno]

theorem lowAhead_iff {r : Text} {ps : List Json.Piece} (hps : Json.pieces? r = some ps) :
    LowAhead r ↔ ∃ low qs, ps = .escape low :: qs ∧ isLowSurrogate low = true := by
  constructor
  · rintro ⟨e, low, r', he, hl, rfl⟩
    rw [(Begins.hex he).pieces?] at hps
    obtain ⟨qs, -, rfl⟩ := Option.map_eq_some_iff.mp hps
    exact ⟨low, qs, rfl, hl⟩
  · rintro ⟨low, qs, rfl, hl⟩
    obtain ⟨r', hb, -⟩ := pieces?_eq_cons hps
    obtain ⟨e, he, rfl⟩ := hb.hex_of_low hl
    exact ⟨e, low, r', he, hl, rfl⟩

theorem Inside.pieces? {body t : Text} (h : Inside body t) :
    ∃ ps, Json.pieces? body = some ps ∧ Json.assemble ps = t := by
  induction h with
  | empty => exact ⟨[], rfl, rfl⟩
  | @plain c r t hq hb hn _ ih =>
    obtain ⟨ps, hps, rfl⟩ := ih
    exact ⟨.plain c :: ps, by rw [(Begins.plain hb).pieces?, hps]; rfl, rfl⟩
  | @letter e c r t hl _ ih =>
    obtain ⟨ps, hps, rfl⟩ := ih
    refine ⟨.escape c :: ps, by rw [(Begins.letter hl).pieces?, hps]; rfl, ?_⟩
    exact assemble_escape (fun _ _ _ hc => by simp [(isHighSurrogate_of_letter hl).1] at hc)
  | @pair e f r t high low he hf hh hl _ ih =>
    obtain ⟨ps, hps, rfl⟩ := ih
    refine ⟨.escape high :: .escape low :: ps, ?_, by simp [Json.assemble, hh, hl]⟩
    rw [(Begins.hex he).pieces?, (Begins.hex hf).pieces?, hps]
    rfl
  | @hex e r t c he hc _ ih =>
    obtain ⟨ps, hps, rfl⟩ := ih
    refine ⟨.escape c :: ps, by rw [(Begins.hex he).pieces?, hps]; rfl, ?_⟩
    refine assemble_escape (fun low qs heq hh => ?_)
    have hno := mt (lowAhead_iff hps).mpr (hc hh)
    simpa using fun hl => hno ⟨low, qs, heq, hl⟩

theorem hexValue?_ne {c : CodePoint} {x : Nat} (h : hexValue? c = some x) :
    c ≠ quote ∧ c ≠ backslash ∧ c ≠ newline := by
  refine ⟨?_, ?_, ?_⟩ <;> rintro rfl <;> cases h

theorem HexEscape.enclosed {e r : Text} {c : CodePoint} (he : HexEscape e c)
    (h : Enclosed r) : Enclosed (e ++ r) := by
  obtain ⟨ha, hb, hc, hd⟩ := he
  have plain : ∀ {d : CodePoint} {x : Nat} {u : Text}, hexValue? d = some x → Enclosed u →
      Enclosed (d :: u) :=
    fun hx hu => .plain (hexValue?_ne hx).1 (hexValue?_ne hx).2.1 (hexValue?_ne hx).2.2 hu
  exact .escape (by decide) (plain ha (plain hb (plain hc (plain hd h))))

theorem Enclosed.of_cons {c : CodePoint} {r : Text} (h : Enclosed (c :: r)) (hb : c ≠ backslash) :
    c ≠ quote ∧ c ≠ newline ∧ Enclosed r := by
  cases h with
  | plain hq _ hn hr => exact ⟨hq, hn, hr⟩
  | escape _ _ => exact absurd rfl hb

theorem Enclosed.of_hexEscape {e r : Text} {c : CodePoint} (he : HexEscape e c)
    (h : Enclosed (e ++ r)) : Enclosed r := by
  obtain ⟨ha, hb, hc, hd⟩ := he
  cases h with
  | plain _ hb _ _ => exact absurd rfl hb
  | escape _ h =>
    have h := (h.of_cons (hexValue?_ne ha).2.1).2.2
    have h := (h.of_cons (hexValue?_ne hb).2.1).2.2
    have h := (h.of_cons (hexValue?_ne hc).2.1).2.2
    exact (h.of_cons (hexValue?_ne hd).2.1).2.2

theorem Inside.enclosed {body t : Text} (h : Inside body t) : Enclosed body := by
  induction h with
  | empty => exact .empty
  | plain hq hb hn _ ih => exact .plain hq hb hn ih
  | @letter e c r t hl _ ih =>
    refine .escape ?_ ih
    rintro rfl
    cases letter?_of_mem hl
  | pair he hf _ _ _ ih => exact he.enclosed (hf.enclosed ih)
  | hex he _ _ ih => exact he.enclosed ih

theorem Begins.inside_escape {s r t : Text} {c : CodePoint} (hb : Begins s (.escape c) r)
    (henc : Enclosed s) (hno : isHighSurrogate c = true → ¬ LowAhead r)
    (h : Enclosed r → Inside r t) : Inside s (c :: t) := by
  cases hb with
  | letter hl =>
    cases henc with
    | plain _ hb _ _ => exact absurd rfl hb
    | escape _ hr => exact .letter hl (h hr)
  | hex he => exact .hex he hno (h (henc.of_hexEscape he))

theorem inside_assemble {body : Text} {ps : List Json.Piece} (henc : Enclosed body)
    (h : Json.pieces? body = some ps) : Inside body (Json.assemble ps) := by
  fun_induction Json.assemble ps generalizing body with
  | case1 =>
    rw [pieces?_eq_nil h]
    exact .empty
  | case2 c ps ih =>
    obtain ⟨r, hb, hr⟩ := pieces?_eq_cons h
    cases hb with
    | plain hb =>
      obtain ⟨hq, hn, henc⟩ := henc.of_cons hb
      exact .plain hq hb hn (ih henc hr)
  | case3 high low ps hp ih =>
    obtain ⟨r, hb, hr⟩ := pieces?_eq_cons h
    obtain ⟨r', hb', hr'⟩ := pieces?_eq_cons hr
    obtain ⟨hh, hl⟩ : isHighSurrogate high = true ∧ isLowSurrogate low = true := by simpa using hp
    obtain ⟨e, he, rfl⟩ := hb.hex_of_high hh
    obtain ⟨f, hf, rfl⟩ := hb'.hex_of_low hl
    exact .pair he hf hh hl (ih ((henc.of_hexEscape he).of_hexEscape hf) hr')
  | case4 high low ps hp ih =>
    -- two escapes that are no pair: the first stands for itself
    obtain ⟨r, hb, hr⟩ := pieces?_eq_cons h
    refine hb.inside_escape henc (fun hh hlow => hp ?_) (fun hr' => ih hr' hr)
    obtain ⟨low', qs, heq, hl⟩ := (lowAhead_iff hr).mp hlow
    cases heq
    rw [hh, hl]
    rfl
  | case5 c ps hno ih =>
    obtain ⟨r, hb, hr⟩ := pieces?_eq_cons h
    refine hb.inside_escape henc (fun hh hlow => ?_) (fun hr' => ih hr' hr)
    obtain ⟨low, qs, heq, -⟩ := (lowAhead_iff hr).mp hlow
    exact hno low qs heq

/-- The reader of quoted tokens and the grammar agree on what is at the front of a text. -/
theorem readText_eq_ok_iff {s rest t : Text} :
    readText (quote :: s) = .ok (t, rest) ↔ ∃ token, Quoted token t ∧ quote :: s = token ++ rest := by
  constructor
  · intro h
    unfold readText at h
    split at h
    · cases h
    next body rest' hcut =>
    split at h
    · cases h
    next t' ht =>
    obtain ⟨rfl, rfl⟩ : t' = t ∧ rest' = rest := by simpa using h
    obtain ⟨hs, henc⟩ := inside?_sound hcut
    obtain ⟨ps, hps, rfl⟩ := Option.map_eq_some_iff.mp ht
    refine ⟨quote :: (body ++ [quote]), ⟨body, rfl, inside_assemble henc hps⟩, ?_⟩
    rw [List.tail_cons] at hs
    simp [hs]
  · rintro ⟨token, ⟨body, rfl, hbody⟩, hs⟩
    obtain ⟨ps, hps, rfl⟩ := hbody.pieces?
    obtain rfl : s = body ++ quote :: rest := by simpa using hs
    simp [readText, hbody.enclosed.inside?, Json.unescape?, hps]

end Callboard.Literal
