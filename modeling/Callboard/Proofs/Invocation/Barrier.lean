import Callboard.Proofs.Invocation.KeyQuoting
import Callboard.Proofs.Literal.WrittenText

/-!
# Written texts are barriers

Normalization does not look for strings, but it can be cut at the quotes of one: no match
goes beyond a quote. A written text is left as it is, because the separators that are escaped
in it are those at which a bare key would have been quoted. Where that is, is said once for
each of the two, by what matches at the front of a text.
-/

set_option autoImplicit false

namespace Callboard.Invocation

open Text Literal

theorem quoteKeys_quote (t : Text) : quoteKeys (quote :: t) = quote :: quoteKeys t :=
  quoteKeys_cons fun h => absurd h (by decide)

theorem quoteKeys_around (a b : Text) :
    quoteKeys (a ++ quote :: b) = quoteKeys a ++ quote :: quoteKeys b := by
  rw [quoteKeys_append_stop a (by decide), quoteKeys_quote]

theorem straightenQuotes_around (a b : Text) :
    straightenQuotes (a ++ quote :: b) = straightenQuotes a ++ quote :: straightenQuotes b :=
  straightenQuotes_append a (quote :: b)

theorem normalize_cut (a b : Text) :
    normalize (a ++ quote :: b) = normalize a ++ quote :: normalize b := by
  rw [normalize, straightenQuotes_around, quoteKeys_around, normalize, normalize]

/-- What stands between two quotes is normalized by itself, and so is what stands around them. -/
theorem normalize_around (a body b : Text) :
    normalize (a ++ quote :: (body ++ [quote]) ++ b) =
      normalize a ++ normalize (quote :: (body ++ [quote])) ++ normalize b := by
  have hinner : normalize (quote :: (body ++ [quote])) = quote :: (normalize body ++ [quote]) := by
    have hfront := normalize_cut [] (body ++ [quote])
    rw [normalize_cut body []] at hfront
    exact hfront
  have hassoc : a ++ quote :: (body ++ [quote]) ++ b = a ++ quote :: (body ++ quote :: b) := by simp
  rw [hassoc, normalize_cut, normalize_cut, hinner]
  simp

/-- Rewriting from the left to the right: what a match at the front stands for is written, and
matching goes on behind the match; without one a code point is kept. The text is counted from
the given place, and the places where matches begin are listed. -/
inductive Rewrites (M : Text → Text → Text → Prop) : Nat → Text → Text → List Nat → Prop where
  | done (i : Nat) : Rewrites M i [] [] []
  | keep {i : Nat} {c : CodePoint} {t u : Text} {ps : List Nat}
      (h : ∀ m w r, c :: t = m ++ r → ¬ M m w r) (ht : Rewrites M (i + 1) t u ps) :
      Rewrites M i (c :: t) (c :: u) ps
  | replace {i : Nat} {m w r u : Text} {ps : List Nat} (h : M m w r)
      (hr : Rewrites M (i + m.length) r u ps) : Rewrites M i (m ++ r) (w ++ u) (i :: ps)

/-- A separator with a key behind it, which is not part of the match. It is escaped. -/
def Lookalike (m w r : Text) : Prop :=
  ∃ c b k d r', opensKey c = true ∧ b.all isBlank = true ∧ Identifier k ∧ d.all isBlank = true ∧
    m = [c] ∧ r = b ++ (k ++ (d ++ colon :: r')) ∧ w = unicodeEscape c

/-- A separator and a bare key with its colon. The key is quoted. -/
def BareKey (m w _r : Text) : Prop :=
  ∃ c b k d, opensKey c = true ∧ b.all isBlank = true ∧ Identifier k ∧ d.all isBlank = true ∧
    m = c :: (b ++ (k ++ (d ++ [colon]))) ∧ w = c :: (b ++ (quote :: (k ++ [quote, colon])))

def HoldsKeyAt (t : Text) (i : Nat) : Prop :=
  ∃ a c b k d r, t = a ++ c :: (b ++ (k ++ (d ++ colon :: r))) ∧ a.length = i ∧
    opensKey c = true ∧ b.all isBlank = true ∧ Identifier k ∧ d.all isBlank = true

def keyPlaces : Nat → Text → List Nat
  | _, [] => []
  | i, c :: r =>
    if opensKey c && (keyAhead? r).isSome then i :: keyPlaces (i + 1) r else keyPlaces (i + 1) r

theorem keyAhead?_isSome_iff {t : Text} : (keyAhead? t).isSome = true ↔
    ∃ b k d r, t = b ++ (k ++ (d ++ colon :: r)) ∧ b.all isBlank = true ∧ Identifier k ∧
      d.all isBlank = true := by
  constructor
  · intro h
    obtain ⟨⟨b, k, d⟩, hkey⟩ := Option.isSome_iff_exists.mp h
    obtain ⟨hb, hk, hd, r, rfl⟩ := keyAhead?_eq_some_iff.mp hkey
    exact ⟨b, k, d, r, rfl, hb, hk, hd⟩
  · rintro ⟨b, k, d, r, rfl, hb, hk, hd⟩
    rw [keyAhead?_of_parts hb hk hd]
    rfl

theorem holdsKeyAt_zero {c : CodePoint} {t : Text} :
    HoldsKeyAt (c :: t) 0 ↔ opensKey c = true ∧ (keyAhead? t).isSome = true := by
  constructor
  · rintro ⟨a, x, b, k, d, r, heq, ha, hx, hb, hk, hd⟩
    obtain rfl := List.length_eq_zero_iff.mp ha
    obtain ⟨rfl, rfl⟩ := List.cons.inj heq
    exact ⟨hx, keyAhead?_isSome_iff.mpr ⟨b, k, d, r, rfl, hb, hk, hd⟩⟩
  · rintro ⟨hc, hkey⟩
    obtain ⟨b, k, d, r, rfl, hb, hk, hd⟩ := keyAhead?_isSome_iff.mp hkey
    exact ⟨[], c, b, k, d, r, rfl, rfl, hc, hb, hk, hd⟩

theorem holdsKeyAt_succ {c : CodePoint} {t : Text} {i : Nat} :
    HoldsKeyAt (c :: t) (i + 1) ↔ HoldsKeyAt t i := by
  constructor
  · rintro ⟨a, x, b, k, d, r, heq, ha, hrest⟩
    cases a with
    | nil => simp at ha
    | cons y a => exact ⟨a, x, b, k, d, r, (List.cons.inj heq).2, Nat.succ.inj ha, hrest⟩
  · rintro ⟨a, x, b, k, d, r, rfl, rfl, hrest⟩
    exact ⟨c :: a, x, b, k, d, r, rfl, rfl, hrest⟩

theorem mem_keyPlaces {i j : Nat} {t : Text} :
    j ∈ keyPlaces i t ↔ ∃ n, j = i + n ∧ HoldsKeyAt t n := by
  induction t generalizing i with
  | nil =>
    constructor
    · intro h
      cases h
    · rintro ⟨n, -, a, c, b, k, d, r, heq, -⟩
      simp at heq
  | cons c t ih =>
    have hsplit : (∃ n, j = i + n ∧ HoldsKeyAt (c :: t) n) ↔
        (j = i ∧ (opensKey c = true ∧ (keyAhead? t).isSome = true)) ∨ j ∈ keyPlaces (i + 1) t := by
      rw [ih]
      constructor
      · rintro ⟨n, rfl, hn⟩
        cases n with
        | zero => exact .inl ⟨rfl, holdsKeyAt_zero.mp hn⟩
        | succ n => exact .inr ⟨n, by omega, holdsKeyAt_succ.mp hn⟩
      · rintro (⟨rfl, h⟩ | ⟨n, rfl, hn⟩)
        · exact ⟨0, rfl, holdsKeyAt_zero.mpr h⟩
        · exact ⟨n + 1, by omega, holdsKeyAt_succ.mpr hn⟩
    rw [hsplit, keyPlaces, ← Bool.and_eq_true]
    split
    · next h => simp [h]
    · next h => simp [h]

theorem keyPlaces_append {x : Text} (hx : ∀ c ∈ x, opensKey c = false) (i : Nat) (r : Text) :
    keyPlaces i (x ++ r) = keyPlaces (i + x.length) r := by
  induction x generalizing i with
  | nil => rfl
  | cons c x ih =>
    have hc := hx c List.mem_cons_self
    rw [List.cons_append, keyPlaces, hc, Bool.false_and, if_neg Bool.false_ne_true,
      ih (fun d hd => hx d (List.mem_cons_of_mem c hd)), List.length_cons]
    congr 1
    omega

theorem lookalike_front {c : CodePoint} {t m w r : Text} (heq : c :: t = m ++ r)
    (h : Lookalike m w r) : opensKey c = true ∧ (keyAhead? t).isSome = true := by
  obtain ⟨x, b, k, d, r', hx, hb, hk, hd, rfl, rfl, -⟩ := h
  rw [List.singleton_append] at heq
  obtain ⟨rfl, rfl⟩ := List.cons.inj heq
  exact ⟨hx, keyAhead?_isSome_iff.mpr ⟨b, k, d, r', rfl, hb, hk, hd⟩⟩

theorem bareKey_front {c : CodePoint} {t m w r : Text} (heq : c :: t = m ++ r)
    (h : BareKey m w r) : opensKey c = true ∧ (keyAhead? t).isSome = true := by
  obtain ⟨x, b, k, d, hx, hb, hk, hd, rfl, -⟩ := h
  have hparts : x :: (b ++ (k ++ (d ++ [colon]))) ++ r = x :: (b ++ (k ++ (d ++ colon :: r))) := by
    simp
  rw [hparts] at heq
  obtain ⟨rfl, rfl⟩ := List.cons.inj heq
  exact ⟨hx, keyAhead?_isSome_iff.mpr ⟨b, k, d, r, rfl, hb, hk, hd⟩⟩

theorem hideKeys_rewrites (i : Nat) (t : Text) :
    Rewrites Lookalike i t (hideKeys t) (keyPlaces i t) := by
  induction t generalizing i with
  | nil => exact .done i
  | cons c t ih =>
    rw [hideKeys, keyPlaces]
    split
    · next h =>
      obtain ⟨hc, hkey⟩ := Bool.and_eq_true_iff.mp h
      obtain ⟨b, k, d, r, rfl, hb, hk, hd⟩ := keyAhead?_isSome_iff.mp hkey
      exact .replace (m := [c]) ⟨c, b, k, d, r, hc, hb, hk, hd, rfl, rfl, rfl⟩ (ih (i + 1))
    · next h =>
      exact .keep (fun m w r heq hm => h (Bool.and_eq_true_iff.mpr (lookalike_front heq hm)))
        (ih (i + 1))

/-- No separator stands in a bare key, so no match is hidden by the one before it. -/
theorem bareKey_no_separator {b k d : Text} (hb : b.all isBlank = true) (hk : Identifier k)
    (hd : d.all isBlank = true) : ∀ c ∈ b ++ (k ++ (d ++ [colon])), opensKey c = false := by
  intro c hc
  simp only [List.mem_append, List.mem_singleton] at hc
  rcases hc with hc | hc | hc | rfl
  · exact not_opensKey_of_blank (List.all_eq_true.mp hb c hc)
  · exact not_opensKey_of_part (hk.part hc)
  · exact not_opensKey_of_blank (List.all_eq_true.mp hd c hc)
  · rfl

theorem quoteKeys_rewrites (i : Nat) (t : Text) :
    Rewrites BareKey i t (quoteKeys t) (keyPlaces i t) := by
  -- behind a match the rest is shorter, though not a tail of what was matched
  induction hlength : t.length using Nat.strongRecOn generalizing i t with
  | ind n ih =>
  cases t with
  | nil => exact .done i
  | cons c t =>
    rw [List.length_cons] at hlength
    by_cases h : opensKey c = true ∧ (keyAhead? t).isSome = true
    · obtain ⟨hc, hkey⟩ := h
      have hplaces : keyPlaces i (c :: t) = i :: keyPlaces (i + 1) t := by
        rw [keyPlaces, hc, hkey]
        rfl
      obtain ⟨b, k, d, r, rfl, hb, hk, hd⟩ := keyAhead?_isSome_iff.mp hkey
      have hparts : b ++ (k ++ (d ++ colon :: r)) = b ++ (k ++ (d ++ [colon])) ++ r := by simp
      have hbehind : keyPlaces (i + 1) (b ++ (k ++ (d ++ colon :: r))) =
          keyPlaces (i + (c :: (b ++ (k ++ (d ++ [colon])))).length) r := by
        rw [hparts, keyPlaces_append (bareKey_no_separator hb hk hd), List.length_cons]
        congr 1
        omega
      have hwritten : quoteKeys (c :: (b ++ (k ++ (d ++ colon :: r)))) =
          c :: (b ++ (quote :: (k ++ [quote, colon]))) ++ quoteKeys r := by
        rw [quoteKeys_key hc hb hk hd]
        simp
      have hshorter : r.length < n := by
        rw [hparts, List.length_append] at hlength
        omega
      rw [hplaces, hbehind, hwritten, hparts]
      exact .replace ⟨c, b, k, d, hc, hb, hk, hd, rfl, rfl⟩ (ih r.length hshorter _ r rfl)
    · have hkept : quoteKeys (c :: t) = c :: quoteKeys t :=
        quoteKeys_cons fun hc => Option.not_isSome_iff_eq_none.mp fun hkey => h ⟨hc, hkey⟩
      have hplaces : keyPlaces i (c :: t) = keyPlaces (i + 1) t := by
        rw [keyPlaces, if_neg]
        rwa [Bool.and_eq_true]
      rw [hkept, hplaces]
      exact .keep (fun m w r heq hm => h (bareKey_front heq hm)) (ih t.length (by omega) _ t rfl)

def Token (m : Text) : Prop := ∃ body, m = quote :: (body ++ [quote]) ∧ Enclosed body

theorem Token.inside? {m : Text} (h : Token m) (r : Text) :
    ∃ body, m = quote :: (body ++ [quote]) ∧ Literal.inside? (m ++ r).tail = some (body, r) := by
  obtain ⟨body, rfl, hbody⟩ := h
  have hassoc : (quote :: (body ++ [quote]) ++ r).tail = body ++ quote :: r := by simp
  exact ⟨body, rfl, by rw [hassoc, hbody.inside?]⟩

theorem Token.unique {m m' r r' : Text} (h : Token m) (h' : Token m') (heq : m ++ r = m' ++ r') :
    m = m' := by
  obtain ⟨body, hm, hbody⟩ := h.inside? r
  obtain ⟨body', hm', hbody'⟩ := h'.inside? r'
  rw [heq, hbody'] at hbody
  obtain ⟨rfl, rfl⟩ := Prod.mk.inj (Option.some.inj hbody)
  rw [hm, hm']

/-- A written text keeps normalization from going on across it, in any surroundings. It holds
neither an apostrophe nor a newline, is the token at the front of what begins with it, and is
read as the text. The separators that are escaped in it are those at which a bare key would
have been quoted. -/
theorem written_barrier (t a b : Text) :
    normalize (a ++ writeText t ++ b) = normalize a ++ writeText t ++ normalize b ∧
      apostrophe ∉ writeText t ∧ newline ∉ writeText t ∧
      (∃ body, writeText t = quote :: (body ++ [quote]) ∧
        Literal.inside? (writeText t ++ b).tail = some (body, b)) ∧
      (Token (writeText t) ∧ ∀ m r, Token m → writeText t ++ b = m ++ r → m = writeText t) ∧
      readText (writeText t ++ b) = .ok (t, b) ∧
      ∃ ps, (∀ i, i ∈ ps ↔ HoldsKeyAt (hideApostrophes (Json.string t)) i) ∧
        Rewrites Lookalike 0 (hideApostrophes (Json.string t)) (writeText t) ps ∧
        Rewrites BareKey 0 (hideApostrophes (Json.string t))
          (quoteKeys (hideApostrophes (Json.string t))) ps := by
  have hquiet := writeText_quiet t
  obtain ⟨body, hbody, hinside⟩ := writeText_eq t
  have htoken : Token (writeText t) := ⟨body, hbody, hinside.enclosed⟩
  refine ⟨?_, hquiet.no_apostrophe, hquiet.no_newline, htoken.inside? b,
    ⟨htoken, fun m r hm heq => (htoken.unique hm heq).symm⟩, ?_, ?_⟩
  · have haround := normalize_around a body b
    rwa [← hbody, hquiet.normalize] at haround
  · have hread : readText (quote :: (body ++ quote :: b)) = .ok (t, b) :=
      readText_eq_ok_iff.mpr ⟨writeText t, writeText_quoted t, by simp [hbody]⟩
    simpa [hbody] using hread
  · refine ⟨keyPlaces 0 (hideApostrophes (Json.string t)), fun i => ?_,
      hideKeys_rewrites 0 _, quoteKeys_rewrites 0 _⟩
    simp [mem_keyPlaces]

end Callboard.Invocation
