import Callboard.Proofs.Invocation.KeyQuoting
import Callboard.Proofs.Invocation.RoundTrip

/-!
# The grammar of the casual syntax

Casual arguments are lists and mappings as in the grammar of literals, with texts
between two apostrophes or two quotes, without escapes, and with keys that may be bare
identifiers. Normalization knows nothing of this nesting, and still turns every casual
value into a literal of the same value: behind a separator it meets either a bare key,
or an item or a quoted key that is no key to it.
-/

set_option autoImplicit false

namespace Callboard.Invocation

open Text Literal

structure Plain (s : Text) : Prop where
  no_apostrophe : apostrophe ∉ s
  no_quote : quote ∉ s
  no_backslash : backslash ∉ s
  no_newline : newline ∉ s
  no_key : ¬ HoldsKey s

inductive Enclosing : CodePoint → Prop where
  | apostrophe : Enclosing apostrophe
  | quote : Enclosing quote

inductive Typed : Text → Text → Prop where
  | mk {q : CodePoint} {s : Text} (hq : Enclosing q) (hs : Plain s) : Typed (q :: (s ++ [q])) s

inductive TypedKey : Text → Text → Prop where
  | typed {s k : Text} (h : Typed s k) : TypedKey s k
  | bare {k : Text} (h : Identifier k) : TypedKey k k

section
variable (D : Text → Value → Prop)

inductive CasualPair : Text → Text × Value → Prop where
  | mk {a s b c t d k : Text} {v : Value} (ha : Blanks a) (hs : TypedKey s k) (hb : Blanks b)
      (hc : Blanks c) (ht : D t v) (hd : Blanks d) :
      CasualPair (a ++ (s ++ (b ++ colon :: (c ++ (t ++ d))))) (k, v)

inductive CasualPairs : Text → List (Text × Value) → Prop where
  | empty {b : Text} (hb : Blanks b) : CasualPairs b []
  | last {t : Text} {p : Text × Value} (ht : CasualPair D t p) : CasualPairs t [p]
  | more {t r : Text} {p : Text × Value} {ps : List (Text × Value)} (ht : CasualPair D t p)
      (hr : CasualPairs r ps) : CasualPairs (t ++ comma :: r) (p :: ps)

/-- A casual value whose items are given by `D`. Numbers and words are those of literals,
and of a key that is given twice the last value counts. -/
inductive CasualOver : Text → Value → Prop where
  | text {s t : Text} (h : Typed s t) : CasualOver s (.text t)
  | int {s : Text} {n : Numeral} (h : Numeral.Spells s n) (hi : Numeral.Integral s)
      (hl : n.whole.length ≤ integerDigitLimit) : CasualOver s (.int n.toInt)
  | float {s : Text} {n : Numeral} (h : Numeral.Spells s n) (hf : ¬ Numeral.Integral s) :
      CasualOver s (.float n.toBinary64)
  | word {s : Text} {v : Value} (h : (s, v) ∈ words) : CasualOver s v
  | list {body : Text} {vs : List Value} (h : Items D body vs) :
      CasualOver (openBracket :: (body ++ [closeBracket])) (.list vs)
  | mapping {body : Text} {ps : List (Text × Value)} (h : CasualPairs D body ps) :
      CasualOver (openBrace :: (body ++ [closeBrace])) (.record (settled ps))

end

/-- The text is a casual value that takes at most the given number of levels. -/
def Casual : Nat → Text → Value → Prop
  | 0 => fun _ _ => False
  | levels + 1 => CasualOver (Casual levels)

/-- Normalization turns the one text into the other, whatever stands behind it. -/
def Becomes (t u : Text) : Prop :=
  ∀ rest, quoteKeys (straightenQuotes t ++ rest) = u ++ quoteKeys rest

theorem Becomes.append {a b u w : Text} (ha : Becomes a u) (hb : Becomes b w) :
    Becomes (a ++ b) (u ++ w) := by
  intro rest
  rw [straightenQuotes_append, List.append_assoc, ha, hb, List.append_assoc]

theorem Becomes.cons {c : CodePoint} {t u : Text} (hc : c ≠ apostrophe ∧ opensKey c = false)
    (h : Becomes t u) : Becomes (c :: t) (c :: u) := by
  intro rest
  have hstraight : straightenQuotes (c :: t) = c :: straightenQuotes t := by
    simp [straightenQuotes, hc.1]
  rw [hstraight, List.cons_append, quoteKeys_cons fun hopens => by simp [hc.2] at hopens, h rest]
  rfl

theorem becomes_self {t : Text} (h : ∀ c ∈ t, c ≠ apostrophe ∧ opensKey c = false) :
    Becomes t t := by
  induction t with
  | nil => exact fun rest => rfl
  | cons c t ih => exact .cons (h c (by simp)) (ih fun d hd => h d (List.mem_cons_of_mem c hd))

theorem becomes_append_stop {t u : Text} (h : quoteKeys (straightenQuotes t) = u) {c : CodePoint}
    (hc : Stops c) (hopens : opensKey c = false) : Becomes (t ++ [c]) (u ++ [c]) := by
  intro rest
  have hstraight : straightenQuotes [c] = [c] := straightenQuotes_eq (by simp [hc.2.2.2.symm])
  rw [straightenQuotes_append, hstraight, List.append_assoc, List.singleton_append,
    quoteKeys_append_stop _ hc, h, quoteKeys_cons fun h => by simp [hopens] at h]
  simp

theorem becomes_blanks {b : Text} (hb : Blanks b) : Becomes b b := by
  apply becomes_self
  intro c hc
  have hblank : isBlank c = true := List.all_eq_true.mp hb c hc
  constructor
  · rintro rfl
    cases hblank
  · exact not_opensKey_of_blank hblank

theorem colon_not_mem_blanks {b : Text} (hb : Blanks b) : colon ∉ b := by
  intro hmem
  have hblank : isBlank colon = true := List.all_eq_true.mp hb _ hmem
  cases hblank

theorem straightenQuotes_blanks {b : Text} (hb : Blanks b) : straightenQuotes b = b := by
  apply straightenQuotes_eq
  intro hmem
  have hblank : isBlank apostrophe = true := List.all_eq_true.mp hb _ hmem
  cases hblank

theorem keyAhead?_append_blanks {a : Text} (ha : Blanks a) {t : Text} (h : keyAhead? t = none) :
    keyAhead? (a ++ t) = none :=
  keyAhead?_skipBlank (skipBlank_append_blank ha t) h

/-- What normalization makes of a casual value: a literal of the same value, wherever it
stands, with no key at its front. -/
structure Straightens (D : Text → Value → Prop) (t : Text) (v : Value) : Prop where
  becomes : ∃ u, D u v ∧ Becomes t u
  no_key : ∀ b, Blanks b → keyAhead? (straightenQuotes t ++ b) = none

theorem inside_self {t : Text} (hq : quote ∉ t) (hb : backslash ∉ t) (hn : newline ∉ t) :
    Inside t t := by
  induction t with
  | nil => exact .empty
  | cons c t ih =>
    rw [List.mem_cons, not_or] at hq hb hn
    exact .plain (Ne.symm hq.1) (Ne.symm hb.1) (Ne.symm hn.1) (ih hq.2 hb.2 hn.2)

theorem Typed.becomes {s t : Text} (h : Typed s t) : ∃ u, Quoted u t ∧ Becomes s u := by
  obtain ⟨hq, hs⟩ := h
  have hinside : Inside t t := inside_self hs.no_quote hs.no_backslash hs.no_newline
  have hsame : quoteKeys (straightenQuotes t) = t := by
    rw [straightenQuotes_eq hs.no_apostrophe]
    exact quoteKeysFrom_of_keyFree ((keyFree_iff t).mpr hs.no_key)
  have hquotes : Becomes (quote :: (t ++ [quote])) (quote :: (t ++ [quote])) :=
    .cons (by decide) (becomes_append_stop hsame (by decide) (by decide))
  refine ⟨quote :: (t ++ [quote]), ⟨t, rfl, hinside⟩, ?_⟩
  cases hq with
  | quote => exact hquotes
  | apostrophe =>
    intro rest
    have hstraight : straightenQuotes (apostrophe :: (t ++ [apostrophe])) =
        straightenQuotes (quote :: (t ++ [quote])) := by simp [straightenQuotes]
    rw [hstraight, hquotes rest]

theorem Typed.starts {s t : Text} (h : Typed s t) :
    ∃ r, straightenQuotes s = quote :: r := by
  obtain ⟨hq, -⟩ := h
  cases hq with
  | apostrophe => exact ⟨_, rfl⟩
  | quote => exact ⟨_, rfl⟩

structure Bare (t : Text) : Prop where
  no_separator : ∀ c ∈ t, c ≠ apostrophe ∧ opensKey c = false
  no_quote : quote ∉ t
  no_colon : colon ∉ t

theorem bare_of_spells {t : Text} {n : Numeral} (h : Numeral.Spells t n) : Bare t := by
  have hplain : ∀ c ∈ t, c ≠ apostrophe ∧ opensKey c = false ∧ c ≠ quote ∧ c ≠ colon := by
    intro c hc
    rcases h.mem hc with ⟨d, hd⟩ | hc
    · obtain ⟨-, happ, -, hopens⟩ := plain_of_digit hd
      refine ⟨happ, hopens, ?_, ?_⟩
      · rintro rfl
        cases hd
      · rintro rfl
        cases hd
    · simp only [List.mem_cons, List.not_mem_nil, or_false] at hc
      rcases hc with rfl | rfl | rfl | rfl | rfl <;> decide
  constructor
  · exact fun c hc => ⟨(hplain c hc).1, (hplain c hc).2.1⟩
  · exact fun hc => (hplain _ hc).2.2.1 rfl
  · exact fun hc => (hplain _ hc).2.2.2 rfl

theorem bare_of_word {t : Text} {v : Value} (h : (t, v) ∈ words) : Bare t := by
  have hplain : ∀ w ∈ words, (∀ c ∈ w.1, c ≠ apostrophe ∧ opensKey c = false) ∧ quote ∉ w.1 ∧
      colon ∉ w.1 := by
    intro w hw
    simp only [words, List.mem_cons, List.not_mem_nil, or_false] at hw
    rcases hw with rfl | rfl | rfl | rfl <;> decide
  obtain ⟨hseparator, hquote, hcolon⟩ := hplain _ h
  exact ⟨hseparator, hquote, hcolon⟩

theorem Bare.no_key {t b : Text} (h : Bare t) (hb : Blanks b) : keyAhead? (t ++ b) = none := by
  apply keyAhead?_of_not_mem
  intro hmem
  rcases List.mem_append.mp hmem with hmem | hmem
  · exact h.no_colon hmem
  · exact colon_not_mem_blanks hb hmem

theorem straightens_bare {D : Text → Value → Prop} {t : Text} {v : Value} (h : D t v)
    (ht : Bare t) : Straightens D t v := by
  refine ⟨⟨t, h, becomes_self ht.no_separator⟩, fun b hb => ?_⟩
  rw [straightenQuotes_eq fun hc => (ht.no_separator _ hc).1 rfl]
  exact ht.no_key hb

section
variable {C D : Text → Value → Prop} (ih : ∀ t v, C t v → Straightens D t v)
include ih

theorem Items.straightens {t : Text} {vs : List Value} (h : Items C t vs) :
    keyAhead? (straightenQuotes t) = none ∧ ∃ u, Items D u vs ∧ quoteKeys (straightenQuotes t) = u := by
  induction h with
  | @empty b hb =>
    rw [straightenQuotes_blanks hb]
    refine ⟨keyAhead?_of_not_mem (colon_not_mem_blanks hb), b, .empty hb, ?_⟩
    have hbecomes := becomes_blanks hb []
    rw [straightenQuotes_blanks hb, List.append_nil] at hbecomes
    exact hbecomes.trans (List.append_nil b)
  | @last a t b v ha ht hb =>
    obtain ⟨⟨u, hu, hbecomes⟩, hkey⟩ := ih t v ht
    constructor
    · rw [straightenQuotes_append, straightenQuotes_append, straightenQuotes_blanks ha,
        straightenQuotes_blanks hb]
      exact keyAhead?_append_blanks ha (hkey b hb)
    · refine ⟨a ++ (u ++ b), .last ha hu hb, ?_⟩
      have hall := ((becomes_blanks ha).append (hbecomes.append (becomes_blanks hb))) []
      rw [List.append_nil] at hall
      exact hall.trans (List.append_nil _)
  | @more a t b r v vs ha ht hb _ ihr =>
    obtain ⟨⟨u, hu, hbecomes⟩, hkey⟩ := ih t v ht
    obtain ⟨hkeyr, w, hw, hr⟩ := ihr
    have hsplit : straightenQuotes (a ++ (t ++ (b ++ comma :: r))) =
        straightenQuotes (a ++ (t ++ b)) ++ comma :: straightenQuotes r := by
      simp [straightenQuotes]
    rw [hsplit]
    constructor
    · rw [keyAhead?_append_stop _ (by decide), straightenQuotes_append, straightenQuotes_append,
        straightenQuotes_blanks ha, straightenQuotes_blanks hb]
      exact keyAhead?_append_blanks ha (hkey b hb)
    · -- what follows the comma begins with no key, so the comma is passed over
      refine ⟨a ++ (u ++ (b ++ comma :: w)), .more ha hu hb hw, ?_⟩
      have hall := (becomes_blanks ha).append (hbecomes.append (becomes_blanks hb))
      rw [hall, quoteKeys_cons fun _ => hkeyr, hr]
      simp

theorem CasualPair.straightens {t : Text} {p : Text × Value} (h : CasualPair C t p) :
    ∃ u, Pair D u p ∧ ∀ sep rest, opensKey sep = true →
      quoteKeys (sep :: (straightenQuotes t ++ rest)) = sep :: (u ++ quoteKeys rest) := by
  cases h with | @mk a s b c t d k v ha hs hb hc ht hd =>
  obtain ⟨⟨u, hu, hbecomes⟩, -⟩ := ih t v ht
  have hvalue := (becomes_blanks hc).append (hbecomes.append (becomes_blanks hd))
  have hsplit : straightenQuotes (a ++ (s ++ (b ++ colon :: (c ++ (t ++ d))))) =
      a ++ (straightenQuotes s ++ (b ++ colon :: straightenQuotes (c ++ (t ++ d)))) := by
    rw [straightenQuotes_append, straightenQuotes_append, straightenQuotes_append,
      straightenQuotes_blanks ha, straightenQuotes_blanks hb]
    rfl
  rw [hsplit]
  cases hs with
  | bare hk =>
    -- the key is quoted, and the blanks behind it are dropped
    have hnot : ∀ x, isIdentifierPart x = false → x ∉ s := by
      intro x hx hmem
      rw [hk.part hmem] at hx
      cases hx
    have hinside : Inside s s :=
      inside_self (hnot _ (by decide)) (hnot _ (by decide)) (hnot _ (by decide))
    have hstraight : straightenQuotes s = s := straightenQuotes_eq (hnot _ (by decide))
    refine ⟨a ++ (quote :: (s ++ [quote]) ++ ([] ++ colon :: (c ++ (u ++ d)))),
      .mk ha ⟨s, rfl, hinside⟩ blanks_nil hc hu hd, fun sep rest hsep => ?_⟩
    have hkey := quoteKeys_key hsep ha hk hb (straightenQuotes (c ++ (t ++ d)) ++ rest)
    rw [hvalue] at hkey
    simpa [hstraight] using hkey
  | typed hk =>
    obtain ⟨w, hw, hkey⟩ := hk.becomes
    obtain ⟨r, hr⟩ := hk.starts
    refine ⟨a ++ (w ++ (b ++ colon :: (c ++ (u ++ d)))), .mk ha hw hb hc hu hd,
      fun sep rest hsep => ?_⟩
    have hnone : keyAhead? (a ++ (straightenQuotes s ++
        (b ++ colon :: straightenQuotes (c ++ (t ++ d)))) ++ rest) = none := by
      rw [hr, List.append_assoc]
      exact keyAhead?_append_blanks ha (Stops.opens_nothing (by decide) _)
    have hall := (becomes_blanks ha).append
      (hkey.append ((becomes_blanks hb).append (hvalue.cons (c := colon) (by decide)))) rest
    rw [hsplit] at hall
    rw [quoteKeys_cons fun _ => hnone, hall]

theorem CasualPairs.straightens {t : Text} {ps : List (Text × Value)} (h : CasualPairs C t ps) :
    ∃ u, Pairs D u ps ∧ ∀ sep, opensKey sep = true →
      quoteKeys (sep :: straightenQuotes t) = sep :: u := by
  induction h with
  | @empty b hb =>
    refine ⟨b, .empty hb, fun sep _ => ?_⟩
    have hbecomes := becomes_blanks hb []
    rw [straightenQuotes_blanks hb, List.append_nil] at hbecomes
    rw [straightenQuotes_blanks hb,
      quoteKeys_cons fun _ => keyAhead?_of_not_mem (colon_not_mem_blanks hb), hbecomes]
    simp [quoteKeys, quoteKeysFrom]
  | last ht =>
    obtain ⟨u, hu, hpair⟩ := ht.straightens ih
    refine ⟨u, .last hu, fun sep hsep => ?_⟩
    have hlast := hpair sep [] hsep
    rw [List.append_nil] at hlast
    exact hlast.trans (by simp [quoteKeys, quoteKeysFrom])
  | @more t r p ps ht _ ihr =>
    obtain ⟨u, hu, hpair⟩ := ht.straightens ih
    obtain ⟨w, hw, hrest⟩ := ihr
    refine ⟨u ++ comma :: w, .more hu hw, fun sep hsep => ?_⟩
    have hsplit : straightenQuotes (t ++ comma :: r) =
        straightenQuotes t ++ comma :: straightenQuotes r := straightenQuotes_append t (comma :: r)
    rw [hsplit, hpair sep _ hsep, hrest comma (by decide)]

theorem CasualOver.straightens {t : Text} {v : Value} (h : CasualOver C t v) :
    Straightens (Over D) t v := by
  -- between brackets and quotes no key is at the front
  have hfront : ∀ {c : CodePoint} {r : Text}, Stops c → straightenQuotes t = c :: r →
      ∀ b, Blanks b → keyAhead? (straightenQuotes t ++ b) = none := by
    intro c r hc heq b _
    rw [heq]
    exact hc.opens_nothing _
  cases h with
  | text h =>
    obtain ⟨u, hu, hbecomes⟩ := h.becomes
    obtain ⟨r, hr⟩ := h.starts
    exact ⟨⟨u, .text hu, hbecomes⟩, hfront (by decide) hr⟩
  | int h hi hl => exact straightens_bare (.int h hi hl) (bare_of_spells h)
  | float h hf => exact straightens_bare (.float h hf) (bare_of_spells h)
  | word h => exact straightens_bare (.word h) (bare_of_word h)
  | list h =>
    obtain ⟨-, u, hu, hbody⟩ := Items.straightens ih h
    have hbecomes := becomes_append_stop hbody (c := closeBracket) (by decide) (by decide)
    exact ⟨⟨_, .list hu, hbecomes.cons (c := openBracket) (by decide)⟩,
      hfront (c := openBracket) (by decide) rfl⟩
  | @mapping body ps h =>
    obtain ⟨u, hu, hbody⟩ := h.straightens ih
    have hbecomes : Becomes (openBrace :: body ++ [closeBrace]) (openBrace :: u ++ [closeBrace]) :=
      becomes_append_stop (t := openBrace :: body) (hbody openBrace (by decide)) (by decide)
        (by decide)
    exact ⟨⟨_, .mapping hu, hbecomes⟩, hfront (c := openBrace) (by decide) rfl⟩

end

theorem Casual.straightens {levels : Nat} {t : Text} {v : Value} (h : Casual levels t v) :
    Straightens (Denotes levels) t v := by
  induction levels generalizing t v with
  | zero => exact h.elim
  | succ levels ih => exact CasualOver.straightens (fun _ _ => ih) h

theorem Casual.opens {levels : Nat} {t : Text} {v : Value} (h : Casual levels t v) : Opens t := by
  cases levels with
  | zero => exact h.elim
  | succ levels =>
    cases h with
    | text h =>
      obtain ⟨hq, -⟩ := h
      cases hq with
      | apostrophe => exact opens_of_starts (by decide) _
      | quote => exact ⟨_, _, rfl, by decide⟩
    | int h _ _ =>
      obtain ⟨c, r, rfl, hc⟩ := spells_starts h
      exact opens_of_starts hc r
    | float h _ =>
      obtain ⟨c, r, rfl, hc⟩ := spells_starts h
      exact opens_of_starts hc r
    | word h =>
      simp only [words, List.mem_cons, Prod.mk.injEq, List.not_mem_nil, or_false] at h
      rcases h with ⟨rfl, -⟩ | ⟨rfl, -⟩ | ⟨rfl, -⟩ | ⟨rfl, -⟩ <;>
        exact opens_of_starts (by decide) _
    | list _ => exact ⟨_, _, rfl, by decide⟩
    | mapping _ => exact ⟨_, _, rfl, by decide⟩

theorem decode_blank {b : Text} (hb : Blanks b) : decode (some b) = .ok [] := by
  have hstrip : (strip b).isEmpty = true := by
    rw [(strip_eq_nil_iff b).mpr hb]
    rfl
  simp [decode, hstrip]

/-- Casual arguments are decoded to the values that they stand for. -/
theorem decode_casual {t : Text} {vs : List Value} (h : Items (Casual maxDepth) t vs) :
    decode (some t) = .ok vs ∧ (∀ b, Blanks b → decode (some b) = .ok []) ∧ decode none = .ok [] := by
  refine ⟨?_, fun b => decode_blank, rfl⟩
  by_cases hvs : vs = []
  · subst hvs
    cases h with
    | empty hb => exact decode_blank hb
  · have hstrip : (strip t).isEmpty = false := by
      simpa using strip_items_ne_nil (fun _ _ => Casual.opens) h hvs
    obtain ⟨-, u, hu, hnormal⟩ := Items.straightens (fun _ _ => Casual.straightens) h
    have hread : Literal.read ([openBracket] ++ normalize t ++ [closeBracket]) = .ok (.list vs) := by
      rw [normalize, hnormal]
      exact read_eq_ok_iff.mpr ⟨[], [openBracket] ++ u ++ [closeBracket], [], by simp, rfl,
        Over.list hu, rfl⟩
    simp only [decode, hstrip, hread, Bool.false_eq_true, if_false]

def casualText : Text := chars "\x7ba: 'x, y', true : [null,], 'a':true\x7d, "

theorem casualText_items :
    Items (Casual maxDepth) casualText
      [.record [(chars "a", .bool true), (chars "true", .list [.null])]] := by
  have hitems : Items (Casual 62) (chars "null,") [.null] :=
    .more (a := []) (b := []) (t := chars "null") blanks_nil (.word (by simp [words])) blanks_nil
      (.empty blanks_nil)
  have hlist : Casual 63 (chars "[null,]") (.list [.null]) := CasualOver.list hitems
  have hplain : Plain (chars "x, y") := by
    refine ⟨by decide, by decide, by decide, by decide, ?_⟩
    rw [← keyFree_iff]
    exact ⟨by decide, by decide, by decide, by decide, trivial⟩
  have htext : Casual 63 (chars "'x, y'") (.text (chars "x, y")) :=
    CasualOver.text (.mk (q := apostrophe) (s := chars "x, y") .apostrophe hplain)
  have hfirst : CasualPair (Casual 63) (chars "a: 'x, y'") (chars "a", .text (chars "x, y")) :=
    .mk (a := []) (b := []) (c := [space]) (d := []) blanks_nil
      (.bare ⟨0x61, [], rfl, by decide, by decide⟩) blanks_nil blanks_space htext blanks_nil
  have hword : CasualPair (Casual 63) (chars " true : [null,]") (chars "true", .list [.null]) :=
    .mk (a := [space]) (b := [space]) (c := [space]) (d := []) blanks_space
      (.bare ⟨0x74, chars "rue", rfl, by decide, by decide⟩) blanks_space blanks_space hlist
      blanks_nil
  have hname : Plain (chars "a") := by
    refine ⟨by decide, by decide, by decide, by decide, ?_⟩
    rw [← keyFree_iff]
    exact ⟨by decide, trivial⟩
  have hkey : TypedKey (chars "'a'") (chars "a") :=
    .typed (.mk (q := apostrophe) (s := chars "a") .apostrophe hname)
  have hlast : CasualPair (Casual 63) (chars " 'a':true") (chars "a", .bool true) :=
    .mk (a := [space]) (b := []) (c := []) (d := []) blanks_space hkey blanks_nil blanks_nil
      (t := chars "true") (CasualOver.word (by simp [words])) blanks_nil
  have hmapping : Casual 64 (chars "\x7ba: 'x, y', true : [null,], 'a':true\x7d")
      (.record [(chars "a", .bool true), (chars "true", .list [.null])]) :=
    CasualOver.mapping (.more hfirst (.more hword (.last hlast)))
  exact .more (a := []) (b := []) blanks_nil hmapping blanks_nil (.empty blanks_space)

theorem decode_casual_mapping :
    Items (Casual maxDepth) casualText
        [.record [(chars "a", .bool true), (chars "true", .list [.null])]] ∧
      decode (some casualText) =
        .ok [.record [(chars "a", .bool true), (chars "true", .list [.null])]] :=
  ⟨casualText_items, (decode_casual casualText_items).1⟩

end Callboard.Invocation
