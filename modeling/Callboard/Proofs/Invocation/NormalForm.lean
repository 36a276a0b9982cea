import Callboard.Proofs.Invocation.Enclosed

/-!
# What normalization leaves alone

A normalized text holds neither apostrophes nor bare keys, so normalizing it again changes
nothing. Strict argument text is left alone as well, unless one of its quoted tokens holds
what looks like a bare key: between the tokens of a literal no bare key can stand.
-/

set_option autoImplicit false

namespace Callboard.Literal

open Text

/-- The quoted tokens of a text, from the left to the right. -/
inductive QuotedTokens : Text → List Text → Prop where
  | none {t : Text} (h : quote ∉ t) : QuotedTokens t []
  | more {a s k r : Text} {ss : List Text} (ha : quote ∉ a) (hs : Quoted s k)
      (h : QuotedTokens r ss) : QuotedTokens (a ++ (s ++ r)) (s :: ss)

theorem QuotedTokens.append {a b : Text} {ss ts : List Text} (ha : QuotedTokens a ss)
    (hb : QuotedTokens b ts) : QuotedTokens (a ++ b) (ss ++ ts) := by
  induction ha with
  | @none a h =>
    cases hb with
    | none hb => exact .none (by simp [h, hb])
    | @more c s k r ss hc hs hr =>
      rw [← List.append_assoc]
      exact .more (by simp [h, hc]) hs hr
  | more ha hs _ ih =>
    rw [List.append_assoc, List.append_assoc]
    exact .more ha hs ih

theorem QuotedTokens.cons {c : CodePoint} {t : Text} {ss : List Text} (hc : c ≠ quote)
    (h : QuotedTokens t ss) : QuotedTokens (c :: t) ss :=
  (QuotedTokens.none (t := [c]) (by simpa using Ne.symm hc)).append h

theorem QuotedTokens.of_blanks {b : Text} (hb : Blanks b) : QuotedTokens b [] := by
  apply QuotedTokens.none
  intro hmem
  have hblank : isBlank quote = true := List.all_eq_true.mp hb _ hmem
  cases hblank

theorem QuotedTokens.pad {a t b : Text} {ss : List Text} (ha : Blanks a) (h : QuotedTokens t ss)
    (hb : Blanks b) : QuotedTokens (a ++ (t ++ b)) ss := by
  have hall := (QuotedTokens.of_blanks ha).append (h.append (.of_blanks hb))
  simpa using hall

theorem Quoted.token {s k : Text} (h : Quoted s k) : QuotedTokens s [s] := by
  have hone : QuotedTokens ([] ++ (s ++ [])) [s] := .more (by simp) h (.none (by simp))
  simpa using hone

theorem Quoted.unique {s k s' k' r r' : Text} (h : Quoted s k) (h' : Quoted s' k')
    (heq : s ++ r = s' ++ r') : s = s' ∧ r = r' := by
  obtain ⟨u, hu⟩ : ∃ u, s ++ r = quote :: u := by
    obtain ⟨body, rfl, -⟩ := h
    exact ⟨_, rfl⟩
  have hread : readText (quote :: u) = .ok (k, r) := readText_eq_ok_iff.mpr ⟨s, h, hu.symm⟩
  have hread' : readText (quote :: u) = .ok (k', r') :=
    readText_eq_ok_iff.mpr ⟨s', h', by rw [← hu, heq]⟩
  rw [hread] at hread'
  obtain rfl : r = r' := (Prod.mk.inj (Except.ok.inj hread')).2
  exact ⟨List.append_cancel_right heq, rfl⟩

theorem Quoted.starts {s k : Text} (h : Quoted s k) : ∃ r, s = quote :: r := by
  obtain ⟨body, rfl, -⟩ := h
  exact ⟨_, rfl⟩

theorem QuotedTokens.unique {t : Text} {ss ts : List Text} (h : QuotedTokens t ss)
    (h' : QuotedTokens t ts) : ss = ts := by
  induction h generalizing ts with
  | @none t h =>
    cases h' with
    | none _ => rfl
    | more _ hs _ =>
      obtain ⟨u, rfl⟩ := hs.starts
      simp at h
  | @more a s k r ss ha hs _ ih =>
    generalize ht : a ++ (s ++ r) = t at h'
    obtain ⟨u, hu⟩ := hs.starts
    cases h' with
    | none h =>
      rw [← ht, hu] at h
      simp at h
    | @more a' s' k' r' ts ha' hs' hr' =>
      -- both begin with the first quote, and one quoted token begins there
      obtain ⟨u', hu'⟩ := hs'.starts
      have hupTo : ∀ {b v : Text}, quote ∉ b → upTo quote (b ++ quote :: v) = b :=
        fun hb => upTo_eq hb (by simp)
      have ht' : a ++ quote :: (u ++ r) = a' ++ quote :: (u' ++ r') := by simpa [hu, hu'] using ht
      have hsame := congrArg (upTo quote) ht'
      rw [hupTo ha, hupTo ha'] at hsame
      subst hsame
      obtain ⟨rfl, rfl⟩ := hs.unique hs' (List.append_cancel_left ht)
      rw [ih hr']

end Callboard.Literal

namespace Callboard.Invocation

open Text Literal

theorem straightenQuotes_no_apostrophe (t : Text) : apostrophe ∉ straightenQuotes t := by
  intro h
  obtain ⟨c, -, heq⟩ := List.mem_map.mp h
  by_cases hc : c = apostrophe
  · rw [if_pos hc] at heq
    cases heq
  · rw [if_neg hc] at heq
    exact hc heq

/-- Quoting keys changes a text only behind its first separator. -/
theorem sameToStop_quoteKeys (r : Text) : SameToStop r (quoteKeys r) := by
  induction r with
  | nil => exact .inl rfl
  | cons x r ih =>
    by_cases hx : opensKey x = true
    · have hstops := stops_of_opensKey hx
      cases hk : keyAhead? r with
      | none => exact .inr ⟨[], r, _, x, x, hstops, hstops, rfl, quoteKeys_cons fun _ => hk⟩
      | some k =>
        exact .inr ⟨[], r, _, x, x, hstops, hstops, rfl, by
          simp [quoteKeys, quoteKeysFrom, hx, hk]
          rfl⟩
    · rw [quoteKeys_cons fun h => absurd h hx]
      exact ih.cons x

/-- No bare key is left behind a separator, whether one was quoted there or not. -/
theorem keyFree_quoteKeysFrom (n : Nat) (t : Text) : KeyFree (quoteKeysFrom n t) := by
  fun_induction quoteKeysFrom n t with
  | case1 => trivial
  | case2 written c r ih => exact ih
  | case3 c r hc k hk ih =>
    obtain ⟨hb, hname, -⟩ := keyAhead?_eq_some_iff.mp hk
    have hquoted : ∀ d ∈ k.before ++ [quote] ++ k.name ++ [quote], opensKey d = false := by
      intro d hd
      simp only [List.mem_append, List.mem_singleton] at hd
      rcases hd with ((hd | rfl) | hd) | rfl
      · exact not_opensKey_of_blank (List.all_eq_true.mp hb d hd)
      · rfl
      · exact not_opensKey_of_part (hname.part hd)
      · rfl
    have hnone : keyAhead? (k.before ++ [quote] ++ k.name ++ [quote] ++ quoteKeysFrom k.size r) =
        none := by
      simp only [List.append_assoc]
      exact keyAhead?_append_blanks hb (Stops.opens_nothing (by decide) _)
    simp only [List.cons_append]
    exact ⟨fun _ => hnone, keyFree_append hquoted ih⟩
  | case4 c r hc hk ih =>
    exact ⟨fun _ => (sameToStop_quoteKeys r).keyAhead?.trans hk, ih⟩
  | case5 c r hc ih => exact ⟨fun h => absurd h hc, ih⟩

theorem quoteKeysFrom_no_apostrophe {n : Nat} {t : Text} (h : apostrophe ∉ t) :
    apostrophe ∉ quoteKeysFrom n t := by
  fun_induction quoteKeysFrom n t with
  | case1 => exact h
  | case2 written c r ih => exact ih (List.not_mem_of_not_mem_cons h)
  | case3 c r hc k hk ih =>
    obtain ⟨-, -, -, s, rfl⟩ := keyAhead?_eq_some_iff.mp hk
    have hrest := ih (List.not_mem_of_not_mem_cons h)
    simp only [List.mem_cons, List.mem_append, not_or] at h
    simp [h.1, h.2.1, h.2.2.1, hrest]
  | case4 c r hc hk ih =>
    rw [List.mem_cons, not_or] at h ⊢
    exact ⟨h.1, ih h.2⟩
  | case5 c r hc ih =>
    rw [List.mem_cons, not_or] at h ⊢
    exact ⟨h.1, ih h.2⟩

/-- A text without apostrophes and bare keys is its own normal form. -/
theorem normalize_of_keyFree {t : Text} (ha : apostrophe ∉ t) (h : KeyFree t) : normalize t = t := by
  rw [normalize, straightenQuotes_eq ha]
  exact quoteKeysFrom_of_keyFree h

theorem normalize_normalize (t : Text) : normalize (normalize t) = normalize t :=
  normalize_of_keyFree (quoteKeysFrom_no_apostrophe (straightenQuotes_no_apostrophe t))
    (keyFree_quoteKeysFrom 0 (straightenQuotes t))

/-- No bare key stands in the text or begins it, whatever blanks follow. -/
def Strict (t : Text) : Prop := ∀ b, Blanks b → KeyFree (t ++ b) ∧ keyAhead? (t ++ b) = none

theorem blanks_keyFree {b : Text} (hb : Blanks b) : KeyFree b ∧ keyAhead? b = none :=
  ⟨keyFree_of_no_separator fun c hc => not_opensKey_of_blank (List.all_eq_true.mp hb c hc),
    keyAhead?_of_not_mem (colon_not_mem_blanks hb)⟩

theorem keyFree_behind_blanks {a t : Text} (ha : Blanks a) (h : KeyFree t) : KeyFree (a ++ t) :=
  keyFree_append (fun c hc => not_opensKey_of_blank (List.all_eq_true.mp ha c hc)) h

theorem Bare.strict {t : Text} (h : Bare t) : Strict t := by
  intro b hb
  have hfree : KeyFree (t ++ b) :=
    keyFree_append (fun c hc => (h.no_separator c hc).2) (blanks_keyFree hb).1
  exact ⟨hfree, h.no_key hb⟩

theorem strict_enclosed {c e : CodePoint} {body : Text} (hc : Stops c) (he : Stops e)
    (hopens : opensKey e = false) (hfree : KeyFree body)
    (hkey : opensKey c = true → keyAhead? body = none) : Strict (c :: (body ++ [e])) := by
  intro b hb
  have hassoc : c :: (body ++ [e]) ++ b = c :: (body ++ e :: b) := by simp
  have hend : KeyFree (e :: b) := ⟨fun h => by simp [hopens] at h, (blanks_keyFree hb).1⟩
  rw [hassoc]
  constructor
  · constructor
    · intro h
      rw [keyAhead?_append_stop body he, hkey h]
    · exact (keyFree_append_stop body he b).mpr ⟨hfree, hend⟩
  · exact hc.opens_nothing _

/-- The text has quoted tokens, and `P` holds of it if no key seems to stand in one of them. -/
def WithClearTokens (t : Text) (P : Prop) : Prop :=
  ∃ ss, QuotedTokens t ss ∧ ((∀ s ∈ ss, ¬ HoldsKey s) → P)

theorem quoted_strict {s k : Text} (h : Quoted s k) : WithClearTokens s (Strict s) := by
  refine ⟨[s], h.token, fun hclear => ?_⟩
  have hfree : KeyFree s := (keyFree_iff s).mpr (hclear s (by simp))
  obtain ⟨body, rfl, -⟩ := h
  have hbody := ((keyFree_append_stop (quote :: body) (by decide) []).mp hfree).1
  exact strict_enclosed (by decide) (by decide) (by decide) hbody.2 (fun h => by cases h)

theorem container_strict {c e : CodePoint} {body : Text} (hc : Stops c ∧ c ≠ quote)
    (he : Stops e ∧ e ≠ quote ∧ opensKey e = false)
    (h : WithClearTokens body (KeyFree body ∧ keyAhead? body = none)) :
    WithClearTokens (c :: (body ++ [e])) (Strict (c :: (body ++ [e]))) := by
  obtain ⟨ss, hss, hbody⟩ := h
  have hend : QuotedTokens [e] [] := .none (by simpa using Ne.symm he.2.1)
  have htokens := (hss.append hend).cons hc.2
  rw [List.append_nil] at htokens
  refine ⟨ss, htokens, fun hclear => ?_⟩
  obtain ⟨hfree, hkey⟩ := hbody hclear
  exact strict_enclosed hc.1 he.1 he.2.2 hfree (fun _ => hkey)

section
variable {D : Text → Value → Prop} (ih : ∀ t v, D t v → WithClearTokens t (Strict t))
include ih

theorem Items.strict {t : Text} {vs : List Value} (h : Items D t vs) :
    WithClearTokens t (KeyFree t ∧ keyAhead? t = none) := by
  induction h with
  | @empty b hb => exact ⟨[], .of_blanks hb, fun _ => blanks_keyFree hb⟩
  | @last a t b v ha ht hb =>
    obtain ⟨ss, hss, hstrict⟩ := ih t v ht
    refine ⟨ss, hss.pad ha hb, fun hclear => ?_⟩
    obtain ⟨hfree, hkey⟩ := hstrict hclear b hb
    exact ⟨keyFree_behind_blanks ha hfree, keyAhead?_append_blanks ha hkey⟩
  | @more a t b r v vs ha ht hb _ ihr =>
    obtain ⟨ss, hss, hstrict⟩ := ih t v ht
    obtain ⟨ts, hts, hrest⟩ := ihr
    have hassoc : a ++ (t ++ (b ++ comma :: r)) = a ++ (t ++ b) ++ comma :: r := by simp
    rw [hassoc]
    refine ⟨ss ++ ts, (hss.pad ha hb).append (hts.cons (by decide)), fun hclear => ?_⟩
    obtain ⟨hfree, hkey⟩ := hstrict (fun s hs => hclear s (List.mem_append_left ts hs)) b hb
    obtain ⟨hfreer, hkeyr⟩ := hrest (fun s hs => hclear s (List.mem_append_right ss hs))
    constructor
    · exact (keyFree_append_stop _ (by decide) r).mpr
        ⟨keyFree_behind_blanks ha hfree, fun _ => hkeyr, hfreer⟩
    · rw [keyAhead?_append_stop _ (by decide)]
      exact keyAhead?_append_blanks ha hkey

theorem Pair.strict {t : Text} {p : Text × Value} (h : Pair D t p) :
    WithClearTokens t (KeyFree t ∧ keyAhead? t = none) := by
  cases h with | @mk a s b c t d k v ha hs hb hc ht hd =>
  obtain ⟨ss, hss, hstrict⟩ := ih t v ht
  have hbehind := (hss.pad hc hd).cons (c := colon) (by decide)
  have htokens := (QuotedTokens.of_blanks ha).append
    (hs.token.append ((QuotedTokens.of_blanks hb).append hbehind))
  refine ⟨[s] ++ ss, by simpa using htokens, fun hclear => ?_⟩
  have hkey : KeyFree s := (keyFree_iff s).mpr (hclear s (by simp))
  have hvalue := (hstrict (fun u hu => hclear u (by simp [hu])) d hd).1
  have hbehind : KeyFree (b ++ colon :: (c ++ (t ++ d))) :=
    keyFree_behind_blanks hb ⟨by simp [opensKey], keyFree_behind_blanks hc hvalue⟩
  obtain ⟨body, rfl, -⟩ := hs
  have hassoc : quote :: (body ++ [quote]) ++ (b ++ colon :: (c ++ (t ++ d))) =
      quote :: body ++ quote :: (b ++ colon :: (c ++ (t ++ d))) := by simp
  have hfront := ((keyFree_append_stop (quote :: body) (by decide) []).mp hkey).1
  rw [hassoc]
  constructor
  · apply keyFree_behind_blanks ha
    exact (keyFree_append_stop (quote :: body) (by decide) _).mpr
      ⟨hfront, by simp [opensKey], hbehind⟩
  · exact keyAhead?_append_blanks ha (Stops.opens_nothing (by decide) _)

theorem Pairs.strict {t : Text} {ps : List (Text × Value)} (h : Pairs D t ps) :
    WithClearTokens t (KeyFree t ∧ keyAhead? t = none) := by
  induction h with
  | @empty b hb => exact ⟨[], .of_blanks hb, fun _ => blanks_keyFree hb⟩
  | last ht => exact Pair.strict ih ht
  | @more t r p ps ht _ ihr =>
    obtain ⟨ss, hss, hpair⟩ := Pair.strict ih ht
    obtain ⟨ts, hts, hrest⟩ := ihr
    refine ⟨ss ++ ts, hss.append (hts.cons (by decide)), fun hclear => ?_⟩
    obtain ⟨hfree, hkey⟩ := hpair (fun s hs => hclear s (List.mem_append_left ts hs))
    obtain ⟨hfreer, hkeyr⟩ := hrest (fun s hs => hclear s (List.mem_append_right ss hs))
    constructor
    · exact (keyFree_append_stop t (by decide) r).mpr ⟨hfree, fun _ => hkeyr, hfreer⟩
    · rw [keyAhead?_append_stop t (by decide), hkey]

theorem Over.strict {t : Text} {v : Value} (h : Over D t v) : WithClearTokens t (Strict t) := by
  have hbare : ∀ {u : Text}, Bare u → WithClearTokens u (Strict u) :=
    fun hu => ⟨[], .none hu.no_quote, fun _ => hu.strict⟩
  cases h with
  | text h => exact quoted_strict h
  | int h _ _ => exact hbare (bare_of_spells h)
  | float h _ => exact hbare (bare_of_spells h)
  | word h => exact hbare (bare_of_word h)
  | list h => exact container_strict (by decide) (by decide) (Items.strict ih h)
  | mapping h => exact container_strict (by decide) (by decide) (Pairs.strict ih h)

end

theorem Denotes.strict {levels : Nat} {t : Text} {v : Value} (h : Denotes levels t v) :
    WithClearTokens t (Strict t) := by
  induction levels generalizing t v with
  | zero => exact h.elim
  | succ levels ih => exact Over.strict (fun _ _ => ih) h

/-- Normalizing a text twice is normalizing it once. Strict text is what it was before if it has
no apostrophes and its quoted tokens, which are determined, hold nothing that looks like a key;
its values are those of the list that it is put in. -/
theorem normalize_conserves (raw : Text) :
    normalize (normalize raw) = normalize raw ∧
      ∀ v, apostrophe ∉ raw → Literal.read (bracketed raw) = .ok v →
        ∃ ss, QuotedTokens raw ss ∧ (∀ ts, QuotedTokens raw ts → ts = ss) ∧
          ((∀ s ∈ ss, ¬ HoldsKey s) → normalize raw = raw ∧
            (decode (some raw)).map Value.list = Literal.read (bracketed raw)) := by
  refine ⟨normalize_normalize raw, fun v happ hread => ?_⟩
  obtain ⟨vs, rfl, hitems⟩ := read_bracketed.mp hread
  obtain ⟨ss, hss, hfree⟩ := Items.strict (fun _ _ => Denotes.strict) hitems
  refine ⟨ss, hss, fun ts hts => hts.unique hss, fun hclear => ?_⟩
  have hsame := normalize_of_keyFree happ (hfree hclear).1
  have hdecode : decode (some raw) = .ok vs := decode_eq_ok_iff.mpr (by rw [hsame, hread])
  exact ⟨hsame, by rw [hdecode, hread]; rfl⟩

def strictText : Text := chars "\"a, b\", \x7b\"k\" : [true,]\x7d"

def strictTokens : List Text := [chars "\"a, b\"", chars "\"k\""]

def strictValues : List Value :=
  [.text (chars "a, b"), .record [(chars "k", .list [.bool true])]]

theorem strictText_tokens : QuotedTokens strictText strictTokens := by
  have hplain : ∀ t : Text, quote ∉ t ∧ backslash ∉ t ∧ newline ∉ t →
      Quoted (quote :: (t ++ [quote])) t :=
    fun t ht => ⟨t, rfl, inside_self ht.1 ht.2.1 ht.2.2⟩
  have hlast : QuotedTokens (chars ", \x7b\"k\" : [true,]\x7d") [chars "\"k\""] :=
    .more (a := chars ", \x7b") (by decide) (hplain (chars "k") (by decide))
      (.none (t := chars " : [true,]\x7d") (by decide))
  exact .more (a := []) (by decide) (hplain (chars "a, b") (by decide)) hlast

theorem normalize_conserves_mapping :
    apostrophe ∉ strictText ∧ Literal.read (bracketed strictText) = .ok (.list strictValues) ∧
      QuotedTokens strictText strictTokens ∧ (∀ s ∈ strictTokens, ¬ HoldsKey s) ∧
      normalize strictText = strictText ∧
      (decode (some strictText)).map Value.list = .ok (.list strictValues) := by
  have happ : apostrophe ∉ strictText := by decide
  have hread : Literal.read (bracketed strictText) = .ok (.list strictValues) := by rfl
  have hclear : ∀ s ∈ strictTokens, ¬ HoldsKey s := by
    simp only [← keyFree_iff]
    decide
  obtain ⟨ss, -, hunique, hsame⟩ := (normalize_conserves strictText).2 _ happ hread
  obtain rfl := hunique _ strictText_tokens
  obtain ⟨hnormal, hdecode⟩ := hsame hclear
  exact ⟨happ, hread, strictText_tokens, hclear, hnormal, hdecode.trans hread⟩

end Callboard.Invocation
