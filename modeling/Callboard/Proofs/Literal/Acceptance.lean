import Callboard.Proofs.Literal.QuotedToken
import Callboard.Proofs.Text.Span

/-!
# What the reader accepts

The reader takes the documents of the grammar and nothing else, and returns the
value that the grammar gives them. The tokens come first, then the items of lists
and mappings for any reader of their values, and then the values by their levels.
Where a value stops, nothing may follow that a token could go on with.
-/

set_option autoImplicit false

namespace Callboard.Literal

open Text

def Ends (rest : Text) : Prop :=
  ∀ c ∈ rest.head?, isBlank c = true ∨ c = comma ∨ c = closeBracket ∨ c = closeBrace

theorem digit?_of_blank {c : Nat} (h : isBlank c = true) : digit? c = none := by
  have hspaces : ∀ d < 11, digit? (0x2000 + d) = none := by decide
  simp only [isBlank, Bool.or_eq_true, Bool.and_eq_true, decide_eq_true_eq, beq_iff_eq,
    CodePoint] at h
  by_cases hlow : c < 0x30
  · exact Numeral.digit?_eq_none_of_lt hlow
  by_cases hmid : 0x2000 ≤ c ∧ c ≤ 0x200A
  · obtain ⟨d, hd, rfl⟩ : ∃ d, d < 11 ∧ c = 0x2000 + d := ⟨c - 0x2000, by omega, by omega⟩
    exact hspaces d hd
  have hrest : c = 0x85 ∨ c = 0xA0 ∨ c = 0x1680 ∨ c = 0x2028 ∨ c = 0x2029 ∨ c = 0x202F ∨
      c = 0x205F ∨ c = 0x3000 := by omega
  rcases hrest with rfl | rfl | rfl | rfl | rfl | rfl | rfl | rfl <;> decide

theorem not_token_of_blank {c : Nat} (h : isBlank c = true) :
    c ≠ dot ∧ Numeral.isExponentMark c = false ∧ isWordPart c = false := by
  simp only [isBlank, Bool.or_eq_true, Bool.and_eq_true, decide_eq_true_eq, beq_iff_eq,
    CodePoint] at h
  refine ⟨?_, ?_, ?_⟩
  · rintro rfl
    revert h
    decide
  · simp only [Numeral.isExponentMark, Bool.or_eq_false_iff, beq_eq_false_iff_ne, CodePoint]
    omega
  · simp only [isWordPart, isWordStart, isLetter, isLower, isUpper, isAsciiDigit,
      Bool.or_eq_false_iff, Bool.and_eq_false_iff, decide_eq_false_iff_not, beq_eq_false_iff_ne,
      underscore, CodePoint]
    omega

theorem Ends.closed {rest : Text} (h : Ends rest) : Numeral.Closed rest := by
  intro c hc
  rcases h c hc with hb | rfl | rfl | rfl
  · exact ⟨digit?_of_blank hb, (not_token_of_blank hb).1, (not_token_of_blank hb).2.1⟩
  all_goals decide

theorem Ends.not_wordPart {rest : Text} (h : Ends rest) {c : CodePoint} (hc : c ∈ rest.head?) :
    isWordPart c = false := by
  rcases h c hc with hb | rfl | rfl | rfl
  · exact (not_token_of_blank hb).2.2
  all_goals decide

def Opens (t : Text) : Prop :=
  ∃ c r, t = c :: r ∧ isBlank c = false ∧ c ≠ closeBracket ∧ c ≠ closeBrace

theorem not_blank_of_digit {c : CodePoint} {d : Nat} (h : digit? c = some d) :
    isBlank c = false := by
  cases hb : isBlank c with
  | false => rfl
  | true => simp [digit?_of_blank hb] at h

def isDelimiter (c : CodePoint) : Bool := c == quote || c == openBracket || c == openBrace

theorem digit_not_delimiter {c : CodePoint} {d : Nat} (h : digit? c = some d) :
    isDelimiter c = false ∧ c ≠ closeBracket ∧ c ≠ closeBrace := by
  refine ⟨?_, ?_, ?_⟩
  · cases hc : isDelimiter c with
    | false => rfl
    | true =>
      simp only [isDelimiter, Bool.or_eq_true, beq_iff_eq] at hc
      rcases hc with (rfl | rfl) | rfl <;> cases h
  · rintro rfl
    cases h
  · rintro rfl
    cases h

def Starts (c : CodePoint) : Prop :=
  isBlank c = false ∧ c ≠ closeBracket ∧ c ≠ closeBrace ∧ isDelimiter c = false

instance (c : CodePoint) : Decidable (Starts c) := inferInstanceAs (Decidable (_ ∧ _ ∧ _ ∧ _))

theorem opens_of_starts {c : CodePoint} (h : Starts c) (r : Text) : Opens (c :: r) :=
  ⟨c, r, rfl, h.1, h.2.1, h.2.2.1⟩

theorem starts_of_digit {c : CodePoint} {d : Nat} (h : digit? c = some d) : Starts c := by
  obtain ⟨hdelimiter, hbracket, hbrace⟩ := digit_not_delimiter h
  exact ⟨not_blank_of_digit h, hbracket, hbrace, hdelimiter⟩

theorem spells_starts {t : Text} {n : Numeral} (h : Numeral.Spells t n) :
    ∃ c r, t = c :: r ∧ Starts c := by
  obtain ⟨c, r, rfl, ⟨d, hd⟩ | hc⟩ := h.head
  · exact ⟨c, r, rfl, starts_of_digit hd⟩
  · simp only [List.mem_cons, List.not_mem_nil, or_false] at hc
    refine ⟨c, r, rfl, ?_⟩
    rcases hc with rfl | rfl | rfl <;> decide

theorem ofWord?_eq_some {w : Text} {v : Value} (h : ofWord? w = some v) : (w, v) ∈ words := by
  unfold ofWord? at h
  split at h
  · next hw => simp [words, hw, ← Option.some.inj h]
  split at h
  · next hw => simp [words, hw, ← Option.some.inj h]
  split at h
  · next hw => simp [words, hw, ← Option.some.inj h]
  split at h
  · next hw => simp [words, hw, ← Option.some.inj h]
  · cases h

theorem ofWord?_of_mem {w : Text} {v : Value} (h : (w, v) ∈ words) : ofWord? w = some v := by
  simp only [words, List.mem_cons, Prod.mk.injEq, List.not_mem_nil, or_false] at h
  rcases h with ⟨rfl, rfl⟩ | ⟨rfl, rfl⟩ | ⟨rfl, rfl⟩ | ⟨rfl, rfl⟩ <;> rfl

theorem word_starts {w : Text} {v : Value} (h : (w, v) ∈ words) :
    ∃ c r, w = c :: r ∧ Starts c ∧ isWordStart c = true ∧ r.all isWordPart = true ∧
      digit? c = none ∧ c ∉ [plus, minus, dot] := by
  simp only [words, List.mem_cons, Prod.mk.injEq, List.not_mem_nil, or_false] at h
  rcases h with ⟨rfl, -⟩ | ⟨rfl, -⟩ | ⟨rfl, -⟩ | ⟨rfl, -⟩
  all_goals exact ⟨_, _, rfl, by decide⟩

theorem scan?_eq_none {c : CodePoint} (hd : digit? c = none) (hc : c ∉ [plus, minus, dot])
    (r : Text) : Numeral.scan? (c :: r) = none := by
  simp only [List.mem_cons, List.not_mem_nil, or_false, not_or] at hc
  have hsign : Numeral.scanSign (c :: r) = (false, c :: r) := by
    simp [Numeral.scanSign, hc.1, hc.2.1]
  have hdigits : Numeral.scanDigits (c :: r) = ([], c :: r) := by simp [Numeral.scanDigits, hd]
  unfold Numeral.scan?
  rw [hsign]
  simp only [hdigits]
  split
  · next h =>
    simp only [Prod.mk.injEq, List.cons.injEq] at h
    exact absurd h.2.1 hc.2.2
  · rfl
  · next h => simp at h
  · next h => simp at h

theorem readAtom_sound (D : Text → Value → Prop) {s rest : Text} {v : Value}
    (h : readAtom s = .ok (v, rest)) : ∃ t, s = t ++ rest ∧ Over D t v := by
  unfold readAtom at h
  split at h
  · next n rest' hscan =>
    split at h
    · next v' hv =>
      obtain ⟨rfl, rfl⟩ : v' = v ∧ rest' = rest := by simpa using h
      obtain ⟨t, rfl, ht⟩ := Numeral.scan?_sound hscan
      refine ⟨t, rfl, ?_⟩
      unfold ofNumeral? at hv
      split at hv
      · next hint =>
        split at hv
        · cases hv
        · next hlen =>
          obtain rfl := Option.some.inj hv
          exact .int ht (ht.isInteger_iff.mp hint) (Nat.not_lt.mp hlen)
      · next hint =>
        obtain rfl := Option.some.inj hv
        exact .float ht (mt ht.isInteger_iff.mpr hint)
    · cases h
  · split at h
    · cases h
    next c r _ =>
    split at h
    · dsimp only at h
      split at h
      · next v' hv =>
        obtain ⟨rfl, rfl⟩ : v' = v ∧ r.dropWhile isWordPart = rest := by simpa using h
        refine ⟨c :: r.takeWhile isWordPart, ?_, .word (ofWord?_eq_some hv)⟩
        rw [List.cons_append, List.takeWhile_append_dropWhile]
      · cases h
    · cases h

theorem readAtom_spells {t rest : Text} {n : Numeral} {v : Value} (ht : Numeral.Spells t n)
    (hv : ofNumeral? n = some v) (hrest : Ends rest) : readAtom (t ++ rest) = .ok (v, rest) := by
  unfold readAtom
  rw [ht.scan? hrest.closed]
  simp only [hv]

theorem readAtom_word {t rest : Text} {v : Value} (ht : (t, v) ∈ words) (hrest : Ends rest) :
    readAtom (t ++ rest) = .ok (v, rest) := by
  have hword := ofWord?_of_mem ht
  obtain ⟨c, r, rfl, -, hstart, hall, hd, hc⟩ := word_starts ht
  have htake := span_of_all hall (fun c hc => hrest.not_wordPart hc)
  unfold readAtom
  rw [List.cons_append, scan?_eq_none hd hc]
  simp only [hstart, if_true, htake.1, htake.2, hword]

theorem readSeparator_sound {closer : CodePoint} {s r : Text} {more : Bool}
    (h : readSeparator closer s = .ok (more, r)) :
    ∃ b, Blanks b ∧ s = b ++ (if more then comma else closer) :: r := by
  obtain ⟨b, hb, hs⟩ := skipBlank_eq s
  refine ⟨b, hb, ?_⟩
  unfold readSeparator at h
  split at h
  · cases h
  next c r' hskip =>
  rw [hskip] at hs
  split at h
  · next hc =>
    obtain ⟨rfl, rfl⟩ : true = more ∧ r' = r := by simpa using h
    rw [hs, hc]
    rfl
  split at h
  · next hc =>
    obtain ⟨rfl, rfl⟩ : false = more ∧ r' = r := by simpa using h
    rw [hs, hc]
    rfl
  · cases h

theorem readSeparator_comma (closer : CodePoint) {b : Text} (hb : Blanks b) (r : Text) :
    readSeparator closer (b ++ comma :: r) = .ok (true, r) := by
  have hskip : skipBlank (b ++ comma :: r) = comma :: r := skipBlank_append_cons hb (by decide) r
  simp [readSeparator, hskip]

theorem readSeparator_closer {closer : CodePoint} (hblank : isBlank closer = false)
    (hcomma : closer ≠ comma) {b : Text} (hb : Blanks b) (r : Text) :
    readSeparator closer (b ++ closer :: r) = .ok (false, r) := by
  have hskip : skipBlank (b ++ closer :: r) = closer :: r :=
    skipBlank_append_cons hb hblank r
  simp [readSeparator, hskip, hcomma]

section
variable {read : Text → Except Stop (Value × Text)} {D : Text → Value → Prop} {E : Stop → Prop}

def Sound (read : Text → Except Stop (Value × Text)) (D : Text → Value → Prop) : Prop :=
  ∀ s v rest, read s = .ok (v, rest) → ∃ a t, Blanks a ∧ D t v ∧ s = a ++ (t ++ rest)

/-- Reading comes to `a`, unless it stops in a way that `E` allows. -/
def Yields {α : Type} (E : Stop → Prop) (result : Except Stop α) (a : α) : Prop :=
  result = .ok a ∨ ∃ e, E e ∧ result = .error e

/-- A reader takes every value of `D` that ends where it has to, unless it stops in a way
that `E` allows. -/
def Complete (E : Stop → Prop) (read : Text → Except Stop (Value × Text))
    (D : Text → Value → Prop) : Prop :=
  ∀ a t v rest, Blanks a → D t v → Ends rest → Yields E (read (a ++ (t ++ rest))) (v, rest)

theorem readItems_sound (hread : Sound read D) {fuel : Nat} {s rest : Text} {vs : List Value}
    (h : readItems read fuel s = .ok (vs, rest)) :
    ∃ body, s = body ++ closeBracket :: rest ∧ Items D body vs := by
  induction fuel generalizing s vs with
  | zero => cases h
  | succ fuel ih =>
    obtain ⟨b, hb, hs⟩ : ∃ b, Blanks b ∧ s = b ++ skipBlank s := skipBlank_eq s
    unfold readItems at h
    split at h
    · next r hskip =>
      obtain ⟨rfl, rfl⟩ : [] = vs ∧ r = rest := by simpa using h
      exact ⟨b, by rw [hs, hskip], .empty hb⟩
    next s' _ =>
    split at h
    · cases h
    next v r hv =>
    obtain ⟨a, t, ha, ht, hs'⟩ := hread _ _ _ hv
    split at h
    · cases h
    · next r' hsep =>
      obtain ⟨rfl, rfl⟩ : [v] = vs ∧ r' = rest := by simpa using h
      obtain ⟨c, hc, rfl⟩ := readSeparator_sound hsep
      refine ⟨(b ++ a) ++ (t ++ c), ?_, .last (hb.append ha) ht hc⟩
      rw [hs, hs']
      simp
    · next r' hsep =>
      obtain ⟨c, hc, rfl⟩ := readSeparator_sound hsep
      split at h
      · cases h
      next vs' rest' hrest =>
      obtain ⟨rfl, rfl⟩ : v :: vs' = vs ∧ rest' = rest := by simpa using h
      obtain ⟨body, rfl, hbody⟩ := ih hrest
      refine ⟨(b ++ a) ++ (t ++ (c ++ comma :: body)), ?_, .more (hb.append ha) ht hc hbody⟩
      rw [hs, hs']
      simp

theorem Opens.skipBlank {a t : Text} (ht : Opens t) (ha : Blanks a) (rest : Text) :
    skipBlank (a ++ (t ++ rest)) = t ++ rest := by
  obtain ⟨c, r, rfl, hc, -⟩ := ht
  exact skipBlank_append_cons ha hc (r ++ rest)

theorem ends_of_blanks {b : Text} (hb : Blanks b) {c : CodePoint}
    (hc : c = comma ∨ c = closeBracket ∨ c = closeBrace) (r : Text) : Ends (b ++ c :: r) := by
  intro x hx
  cases b with
  | nil =>
    obtain rfl : c = x := by simpa using hx
    exact .inr hc
  | cons y b =>
    obtain rfl : y = x := by simpa using hx
    have hy : isBlank y = true ∧ b.all isBlank = true := by simpa [Blanks] using hb
    exact .inl hy.1

theorem readItems_item {fuel : Nat} {s t : Text} (hs : skipBlank s = t)
    (ht : ∀ r, t ≠ closeBracket :: r) :
    readItems read (fuel + 1) s =
      match read t with
      | .error e => .error e
      | .ok (v, r) =>
        match readSeparator closeBracket r with
        | .error e => .error e
        | .ok (false, r') => .ok ([v], r')
        | .ok (true, r') =>
          match readItems read fuel r' with
          | .error e => .error e
          | .ok (vs, rest) => .ok (v :: vs, rest) := by
  rw [readItems, hs]
  split
  · next r => exact absurd rfl (ht r)
  · rfl

theorem Opens.not_closed {t : Text} (ht : Opens t) (rest r : Text) :
    t ++ rest ≠ closeBracket :: r := by
  obtain ⟨c, u, rfl, -, hc, -⟩ := ht
  exact fun h => hc (List.cons.inj h).1

theorem readItems_complete (hopens : ∀ t v, D t v → Opens t) (hread : Complete E read D)
    {body : Text} {vs : List Value} (h : Items D body vs) {fuel : Nat} (hfuel : body.length < fuel)
    (rest : Text) : Yields E (readItems read fuel (body ++ closeBracket :: rest)) (vs, rest) := by
  induction h generalizing fuel with
  | @empty b hb =>
    obtain ⟨fuel, rfl⟩ : ∃ n, fuel = n + 1 := ⟨fuel - 1, by omega⟩
    have hskip : skipBlank (b ++ closeBracket :: rest) = closeBracket :: rest :=
      skipBlank_append_cons hb (by decide) rest
    exact .inl (by simp [readItems, hskip])
  | @last a t b v ha ht hb =>
    obtain ⟨fuel, rfl⟩ : ∃ n, fuel = n + 1 := ⟨fuel - 1, by omega⟩
    have hskip := (hopens t v ht).skipBlank ha (b ++ closeBracket :: rest)
    have hv := hread [] t v (b ++ closeBracket :: rest) rfl ht (ends_of_blanks hb (by simp) rest)
    have hsep : readSeparator closeBracket (b ++ closeBracket :: rest) = .ok (false, rest) :=
      readSeparator_closer (by decide) (by decide) hb rest
    rw [List.append_assoc, List.append_assoc,
      readItems_item hskip ((hopens t v ht).not_closed _)]
    rcases hv with hv | ⟨e, he, hv⟩
    · rw [List.nil_append] at hv
      exact .inl (by simp only [hv, hsep])
    · rw [List.nil_append] at hv
      exact .inr ⟨e, he, by simp only [hv]⟩
  | @more a t b r v vs ha ht hb hr ih =>
    obtain ⟨fuel, rfl⟩ : ∃ n, fuel = n + 1 := ⟨fuel - 1, by omega⟩
    have hskip := (hopens t v ht).skipBlank ha (b ++ comma :: (r ++ closeBracket :: rest))
    have hv := hread [] t v (b ++ comma :: (r ++ closeBracket :: rest)) rfl ht
      (ends_of_blanks hb (by simp) _)
    have hsep := readSeparator_comma closeBracket hb (r ++ closeBracket :: rest)
    have hshort : r.length < fuel := by
      simp only [List.length_append, List.length_cons] at hfuel
      omega
    have hassoc : a ++ (t ++ (b ++ comma :: r)) ++ closeBracket :: rest =
        a ++ (t ++ (b ++ comma :: (r ++ closeBracket :: rest))) := by simp
    rw [hassoc, readItems_item hskip ((hopens t v ht).not_closed _)]
    rw [List.nil_append] at hv
    rcases hv with hv | ⟨e, he, hv⟩
    · rcases ih hshort with hrest | ⟨e, he, hrest⟩
      · exact .inl (by simp only [hv, hsep, hrest])
      · exact .inr ⟨e, he, by simp only [hv, hsep, hrest]⟩
    · exact .inr ⟨e, he, by simp only [hv]⟩

theorem readPairs_sound (hread : Sound read D) {fuel : Nat} {s rest : Text}
    {ps : List (Text × Value)} (h : readPairs read fuel s = .ok (ps, rest)) :
    ∃ body, s = body ++ closeBrace :: rest ∧ Pairs D body ps := by
  induction fuel generalizing s ps with
  | zero => cases h
  | succ fuel ih =>
    obtain ⟨a, ha, hs⟩ : ∃ a, Blanks a ∧ s = a ++ skipBlank s := skipBlank_eq s
    unfold readPairs at h
    split at h
    · next r hskip =>
      obtain ⟨rfl, rfl⟩ : [] = ps ∧ r = rest := by simpa using h
      exact ⟨a, by rw [hs, hskip], .empty ha⟩
    · next r₀ hskip =>
      split at h
      · cases h
      next k r₁ hkey =>
      obtain ⟨token, htoken, hr₁⟩ := readText_eq_ok_iff.mp hkey
      obtain ⟨b, hb, hs₁⟩ : ∃ b, Blanks b ∧ r₁ = b ++ skipBlank r₁ := skipBlank_eq r₁
      split at h
      · next r₂ hcolon =>
        split at h
        · cases h
        next v r₃ hv =>
        obtain ⟨c, t, hc, ht, rfl⟩ := hread _ _ _ hv
        split at h
        · cases h
        · next r₄ hsep =>
          obtain ⟨rfl, rfl⟩ : [(k, v)] = ps ∧ r₄ = rest := by simpa using h
          obtain ⟨d, hd, rfl⟩ := readSeparator_sound hsep
          refine ⟨_, ?_, .last (.mk ha htoken hb hc ht hd)⟩
          rw [hs, hskip, hr₁, hs₁, hcolon]
          simp
        · next r₄ hsep =>
          obtain ⟨d, hd, rfl⟩ := readSeparator_sound hsep
          split at h
          · cases h
          next ps' rest' hrest =>
          obtain ⟨rfl, rfl⟩ : (k, v) :: ps' = ps ∧ rest' = rest := by simpa using h
          obtain ⟨body, rfl, hbody⟩ := ih hrest
          refine ⟨_, ?_, .more (.mk ha htoken hb hc ht hd) hbody⟩
          rw [hs, hskip, hr₁, hs₁, hcolon]
          simp
      · cases h
    · cases h

theorem Pair.steps (hread : Complete E read D) {t k : Text} {v : Value} (h : Pair D t (k, v))
    {x : CodePoint} (hx : x = comma ∨ x = closeBracket ∨ x = closeBrace) (rest : Text) :
    ∃ r₀ r₁ r₂ d, skipBlank (t ++ x :: rest) = quote :: r₀ ∧
      readText (quote :: r₀) = .ok (k, r₁) ∧ skipBlank r₁ = colon :: r₂ ∧
      Yields E (read r₂) (v, d ++ x :: rest) ∧ Blanks d := by
  cases h with
  | @mk a s b c t d _ _ ha hs hb hc ht hd =>
    have htoken := hs
    obtain ⟨body, rfl, -⟩ := hs
    refine ⟨_, _, _, d, ?_, readText_eq_ok_iff.mpr ⟨_, htoken, rfl⟩,
      skipBlank_append_cons hb (by decide) _,
      hread c t v (d ++ x :: rest) hc ht (ends_of_blanks hd hx rest), hd⟩
    rw [List.append_assoc, List.cons_append]
    refine (skipBlank_append_cons ha (by decide) _).trans ?_
    simp

theorem readPairs_complete (hread : Complete E read D) {body : Text} {ps : List (Text × Value)}
    (h : Pairs D body ps) {fuel : Nat} (hfuel : body.length < fuel) (rest : Text) :
    Yields E (readPairs read fuel (body ++ closeBrace :: rest)) (ps, rest) := by
  induction h generalizing fuel with
  | @empty b hb =>
    obtain ⟨fuel, rfl⟩ : ∃ n, fuel = n + 1 := ⟨fuel - 1, by omega⟩
    have hskip : skipBlank (b ++ closeBrace :: rest) = closeBrace :: rest :=
      skipBlank_append_cons hb (by decide) rest
    exact .inl (by simp [readPairs, hskip])
  | @last t p ht =>
    obtain ⟨fuel, rfl⟩ : ∃ n, fuel = n + 1 := ⟨fuel - 1, by omega⟩
    obtain ⟨r₀, r₁, r₂, d, hskip, hkey, hcolon, hv, hd⟩ :=
      ht.steps hread (.inr (.inr rfl)) rest
    have hsep : readSeparator closeBrace (d ++ closeBrace :: rest) = .ok (false, rest) :=
      readSeparator_closer (by decide) (by decide) hd rest
    unfold readPairs
    rcases hv with hv | ⟨e, he, hv⟩
    · exact .inl (by simp only [hskip, hkey, hcolon, hv, hsep])
    · exact .inr ⟨e, he, by simp only [hskip, hkey, hcolon, hv]⟩
  | @more t r p ps ht hr ih =>
    obtain ⟨fuel, rfl⟩ : ∃ n, fuel = n + 1 := ⟨fuel - 1, by omega⟩
    have hshort : r.length < fuel := by
      simp only [List.length_append, List.length_cons] at hfuel
      omega
    obtain ⟨r₀, r₁, r₂, d, hskip, hkey, hcolon, hv, hd⟩ :=
      ht.steps hread (.inl rfl) (r ++ closeBrace :: rest)
    have hsep := readSeparator_comma closeBrace hd (r ++ closeBrace :: rest)
    rw [List.append_assoc, List.cons_append]
    unfold readPairs
    rcases hv with hv | ⟨e, he, hv⟩
    · rcases ih hshort with hrest | ⟨e, he, hrest⟩
      · exact .inl (by simp only [hskip, hkey, hcolon, hv, hsep, hrest])
      · exact .inr ⟨e, he, by simp only [hskip, hkey, hcolon, hv, hsep, hrest]⟩
    · exact .inr ⟨e, he, by simp only [hskip, hkey, hcolon, hv]⟩

end

theorem opens_of_over {D : Text → Value → Prop} {t : Text} {v : Value} (h : Over D t v) :
    Opens t := by
  cases h with
  | text h =>
    obtain ⟨body, rfl, -⟩ := h
    exact ⟨_, _, rfl, by decide⟩
  | int h _ _ =>
    obtain ⟨c, r, rfl, hc⟩ := spells_starts h
    exact opens_of_starts hc r
  | float h _ =>
    obtain ⟨c, r, rfl, hc⟩ := spells_starts h
    exact opens_of_starts hc r
  | word h =>
    obtain ⟨c, r, rfl, hc, -⟩ := word_starts h
    exact opens_of_starts hc r
  | list _ => exact ⟨_, _, rfl, by decide⟩
  | mapping _ => exact ⟨_, _, rfl, by decide⟩

theorem Denotes.opens {levels : Nat} {t : Text} {v : Value} (h : Denotes levels t v) : Opens t := by
  cases levels with
  | zero => exact h.elim
  | succ levels => exact opens_of_over h

theorem readValue_atom {levels : Nat} {s r : Text} {c : CodePoint} (hs : skipBlank s = c :: r)
    (hc : Starts c) : readValue (levels + 1) s = readAtom (c :: r) := by
  obtain ⟨-, -, -, hc⟩ := hc
  simp only [isDelimiter, Bool.or_eq_false_iff, beq_eq_false_iff_ne] at hc
  unfold readValue
  rw [hs]
  split
  · next heq => cases heq
  · next heq => exact absurd (List.cons.inj heq).1 hc.1.2
  · next heq => exact absurd (List.cons.inj heq).1 hc.2
  · next heq => exact absurd (List.cons.inj heq).1 hc.1.1
  · rfl

theorem readValue_sound (levels : Nat) : Sound (readValue levels) (Denotes levels) := by
  induction levels with
  | zero =>
    intro s v rest h
    cases h
  | succ levels ih =>
    intro s v rest h
    obtain ⟨a, ha, hs⟩ : ∃ a, Blanks a ∧ s = a ++ skipBlank s := skipBlank_eq s
    unfold readValue at h
    split at h
    · cases h
    · next r hskip =>
      split at h
      · cases h
      next vs rest' hitems =>
      obtain ⟨rfl, rfl⟩ : Value.list vs = v ∧ rest' = rest := by simpa using h
      obtain ⟨body, rfl, hbody⟩ := readItems_sound ih hitems
      refine ⟨a, _, ha, .list hbody, ?_⟩
      rw [hs, hskip]
      simp
    · next r hskip =>
      split at h
      · cases h
      next ps rest' hpairs =>
      obtain ⟨rfl, rfl⟩ : Value.record (assignAll ps) = v ∧ rest' = rest := by simpa using h
      obtain ⟨body, rfl, hbody⟩ := readPairs_sound ih hpairs
      rw [assignAll_eq_settled]
      refine ⟨a, _, ha, .mapping hbody, ?_⟩
      rw [hs, hskip]
      simp
    · next r hskip =>
      split at h
      · cases h
      next t rest' htext =>
      obtain ⟨rfl, rfl⟩ : Value.text t = v ∧ rest' = rest := by simpa using h
      obtain ⟨token, htoken, hr⟩ := readText_eq_ok_iff.mp htext
      exact ⟨a, token, ha, .text htoken, by rw [hs, hskip, hr]⟩
    · obtain ⟨t, ht, hover⟩ := readAtom_sound (Denotes levels) h
      exact ⟨a, t, ha, hover, by rw [← ht, ← hs]⟩

def TooDeep (levels needed : Nat) (e : Stop) : Prop := levels < needed ∧ e.reason = .nestingTooDeep

theorem TooDeep.succ {levels needed : Nat} {e : Stop} (h : TooDeep levels needed e) :
    TooDeep (levels + 1) (needed + 1) e :=
  ⟨Nat.succ_lt_succ h.1, h.2⟩

/-- A value is read as what it denotes, or there are not enough levels for it and reading
stops for that reason. -/
theorem readValue_complete (levels needed : Nat) :
    Complete (TooDeep levels needed) (readValue levels) (Denotes needed) := by
  induction needed generalizing levels with
  | zero =>
    intro a t v rest ha h
    exact h.elim
  | succ needed ih =>
    intro a t v rest ha h hrest
    cases levels with
    | zero => exact .inr ⟨⟨.nestingTooDeep, _⟩, ⟨Nat.succ_pos needed, rfl⟩, rfl⟩
    | succ levels =>
    have ih := ih levels
    have hskip := h.opens.skipBlank ha rest
    -- the first code point of a value decides which reader takes it
    cases h with
    | text h =>
      have htoken := h
      obtain ⟨body, rfl, -⟩ := h
      have hread : readText (quote :: (body ++ [quote] ++ rest)) = .ok (_, rest) :=
        readText_eq_ok_iff.mpr ⟨_, htoken, rfl⟩
      rw [List.cons_append] at hskip ⊢
      unfold readValue
      exact .inl (by simp only [hskip, hread])
    | @int _ n h hi hl =>
      obtain ⟨c, r, rfl, hc⟩ := spells_starts h
      rw [readValue_atom hskip hc]
      refine .inl (readAtom_spells h ?_ hrest)
      simp [ofNumeral?, h.isInteger_iff.mpr hi, Nat.not_lt.mpr hl]
    | @float _ n h hf =>
      obtain ⟨c, r, rfl, hc⟩ := spells_starts h
      rw [readValue_atom hskip hc]
      refine .inl (readAtom_spells h ?_ hrest)
      simp [ofNumeral?, mt h.isInteger_iff.mp hf]
    | word h =>
      have hread := readAtom_word h hrest
      obtain ⟨c, r, rfl, hc, -⟩ := word_starts h
      rw [readValue_atom hskip hc]
      exact .inl hread
    | @list body vs h =>
      have hfuel : body.length < (body ++ closeBracket :: rest).length + 1 := by
        simp only [List.length_append]
        omega
      have hitems := readItems_complete (fun _ _ => Denotes.opens) ih h hfuel rest
      have hassoc : openBracket :: (body ++ [closeBracket]) ++ rest =
          openBracket :: (body ++ closeBracket :: rest) := by simp
      rw [hassoc] at hskip ⊢
      unfold readValue
      rcases hitems with hitems | ⟨e, he, hitems⟩
      · exact .inl (by simp only [hskip, hitems])
      · exact .inr ⟨e, he.succ, by simp only [hskip, hitems]⟩
    | @mapping body ps h =>
      have hfuel : body.length < (body ++ closeBrace :: rest).length + 1 := by
        simp only [List.length_append]
        omega
      have hpairs := readPairs_complete ih h hfuel rest
      have hassoc : openBrace :: (body ++ [closeBrace]) ++ rest =
          openBrace :: (body ++ closeBrace :: rest) := by simp
      rw [hassoc] at hskip ⊢
      unfold readValue
      rcases hpairs with hpairs | ⟨e, he, hpairs⟩
      · exact .inl (by simp only [hskip, hpairs, assignAll_eq_settled])
      · exact .inr ⟨e, he.succ, by simp only [hskip, hpairs]⟩

theorem read_eq_ok_iff {t : Text} {v : Value} : read t = .ok v ↔ Document t v := by
  constructor
  · intro h
    unfold read readWhole at h
    split at h
    · next v' hwhole =>
      obtain rfl : v' = v := by simpa using h
      split at hwhole
      · cases hwhole
      next w rest hw =>
      split at hwhole
      · next hrest =>
        obtain rfl : w = v' := by simpa using hwhole
        obtain ⟨a, body, ha, hbody, rfl⟩ := readValue_sound _ _ _ _ hw
        exact ⟨a, body, rest, rfl, ha, hbody, (skipBlank_eq_nil_iff rest).mp hrest⟩
      · cases hwhole
    · cases h
  · rintro ⟨a, body, b, rfl, ha, hbody, hb⟩
    have hends : Ends b := by
      intro c hc
      exact .inl (List.all_eq_true.mp hb c (List.mem_of_mem_head? hc))
    have hrest : skipBlank b = [] := (skipBlank_eq_nil_iff b).mpr hb
    rcases readValue_complete (maxDepth + 1) (maxDepth + 1) a body v b ha hbody hends with
      hvalue | ⟨e, he, -⟩
    · simp only [read, readWhole, hvalue, hrest]
    · exact absurd he.1 (Nat.lt_irrefl _)

/-- The reader accepts exactly the documents and returns what they denote, which is one
value for each; every other text is refused. -/
theorem read_accepts_documents (t : Text) (v : Value) :
    (read t = .ok v ↔ Document t v) ∧ (∀ w, Document t v → Document t w → v = w) ∧
      ((∃ e, read t = .error e) ↔ ∀ w, ¬ Document t w) := by
  refine ⟨read_eq_ok_iff, fun w hv hw => ?_, ?_⟩
  · have h := (read_eq_ok_iff.mpr hv).symm.trans (read_eq_ok_iff.mpr hw)
    exact Except.ok.inj h
  · constructor
    · rintro ⟨e, he⟩ w hw
      rw [read_eq_ok_iff.mpr hw] at he
      cases he
    · intro hno
      cases h : read t with
      | error e => exact ⟨e, rfl⟩
      | ok w => exact absurd (read_eq_ok_iff.mp h) (hno w)

end Callboard.Literal
