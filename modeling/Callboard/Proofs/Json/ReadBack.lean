import Callboard.Json.Writer
import Callboard.Proofs.Json.Scalars
import Callboard.Proofs.Text.Join
import Callboard.Proofs.Value.Fields

/-!
# Written JSON reads back

What has been written is read from the left to the right, and what is behind it is left. A
container reads back if all that it holds does, in every style whose separators are a comma
and a colon with nothing but spaces behind them. An object keeps its members if their keys
are different.
-/

set_option autoImplicit false

namespace Callboard.Json

open Text

/-- The text is read as the value, whatever closes it. It begins with the value itself. -/
structure ReadsAs (room : Nat) (t : Text) (v : Value) : Prop where
  starts : ∃ c u, t = c :: u ∧ isSpace c = false ∧ c ≠ closeBracket
  value : ∀ {r}, Closes r → value room (t ++ r) = .ok (v, r)

/-- A separator is one code point with nothing but spaces behind it. -/
def Separates (c : CodePoint) (separator : Text) : Prop :=
  ∃ b, separator = c :: b ∧ b.all isSpace = true

structure Style.Legible (s : Style) : Prop where
  items : Separates comma s.itemSeparator
  keys : Separates colon s.keySeparator

theorem spaced_legible : spaced.Legible :=
  ⟨⟨[space], rfl, rfl⟩, ⟨[space], rfl, rfl⟩⟩

theorem compact_legible : compact.Legible := ⟨⟨[], rfl, rfl⟩, ⟨[], rfl, rfl⟩⟩

theorem skipSpace_cons {c : CodePoint} (h : isSpace c = false) (t : Text) :
    skipSpace (c :: t) = c :: t := by
  rw [skipSpace, List.dropWhile_cons, h]
  rfl

theorem skipSpace_blank {b : Text} (hb : b.all isSpace = true) {c : CodePoint}
    (hc : isSpace c = false) (t : Text) : skipSpace (b ++ c :: t) = c :: t := by
  induction b with
  | nil => exact skipSpace_cons hc t
  | cons d b ih =>
    rw [List.all_cons, Bool.and_eq_true] at hb
    rw [List.cons_append, skipSpace, List.dropWhile_cons, if_pos hb.1]
    exact ih hb.2

theorem join_starts (separator t : Text) (ts : List Text) (r : Text) :
    ∃ s, join separator (t :: ts) ++ r = t ++ s := by
  cases ts with
  | nil => exact ⟨r, rfl⟩
  | cons u ts =>
    exact ⟨separator ++ join separator (u :: ts) ++ r, by rw [join_cons _ _ (by simp)]; simp⟩

theorem join_behind {c : CodePoint} {separator : Text} (hs : Separates c separator) (t : Text)
    {u : Text} (hu : ∃ d w, u = d :: w ∧ isSpace d = false) (ts : List Text) (r : Text) :
    ∃ s, join separator (t :: u :: ts) ++ r = t ++ c :: s ∧
      skipSpace s = join separator (u :: ts) ++ r := by
  obtain ⟨b, rfl, hb⟩ := hs
  obtain ⟨d, w, rfl, hd⟩ := hu
  obtain ⟨s, hs⟩ := join_starts (c :: b) (d :: w) ts r
  refine ⟨b ++ (join (c :: b) ((d :: w) :: ts) ++ r), ?_, ?_⟩
  · rw [join_cons _ _ (by simp)]
    simp
  · rw [hs]
    exact skipSpace_blank hb hd (w ++ s)

theorem elements_items {room : Nat} {separator : Text} (hs : Separates comma separator)
    {ts : List Text} {vs : List Value} (h : List.Forall₂ (ReadsAs room) ts vs) (hne : ts ≠ [])
    {fuel : Nat} (hfuel : ts.length ≤ fuel) (r : Text) :
    elements (value room) fuel (join separator ts ++ closeBracket :: r) = .ok (vs, r) := by
  induction h generalizing fuel with
  | nil => exact absurd rfl hne
  | @cons t v ts vs ht hts ih =>
    cases fuel with
    | zero => cases hfuel
    | succ fuel =>
      cases hts with
      | nil =>
        have hread := ht.value (closes_cons (.inr (.inl rfl)) r)
        have hclosed := skipSpace_cons (c := closeBracket) rfl r
        simp only [join, elements, hread, hclosed]
      | @cons u w us ws hu hus =>
        obtain ⟨c, x, hux, hc, -⟩ := hu.starts
        obtain ⟨s, hjoin, hskip⟩ := join_behind hs t ⟨c, x, hux, hc⟩ us (closeBracket :: r)
        have hread := ht.value (closes_cons (.inl rfl) s)
        have hcomma := skipSpace_cons (c := comma) rfl s
        have hrest := ih (by simp) (Nat.le_of_succ_le_succ hfuel)
        rw [hjoin]
        simp only [elements, hread, hcomma, hskip, hrest]
        rfl

def MemberAs (room : Nat) (separator m : Text) (f : Text × Value) : Prop :=
  ∃ t, m = string f.1 ++ separator ++ t ∧ ReadsAs room t f.2

theorem MemberAs.starts {room : Nat} {separator m : Text} {f : Text × Value}
    (h : MemberAs room separator m f) : ∃ s, m = quote :: s := by
  obtain ⟨t, rfl, -⟩ := h
  exact ⟨_, by rw [List.append_assoc, string_starts]⟩

theorem members_member {room : Nat} {separator : Text} (hs : Separates colon separator) {m : Text}
    {f : Text × Value} (h : MemberAs room separator m f) (fuel : Nat) (r : Text) :
    members (value room) (fuel + 1) (m ++ closeBrace :: r) = .ok ([f], r) ∧
      members (value room) (fuel + 1) (m ++ comma :: r) =
        (members (value room) fuel (skipSpace r)).map (fun p => (f :: p.1, p.2)) := by
  obtain ⟨b, rfl, hb⟩ := hs
  obtain ⟨t, rfl, ht⟩ := h
  obtain ⟨c, u, rfl, hc, -⟩ := ht.starts
  -- what stands behind the key makes no difference up to the end of the value
  have hread := fun x => readString_string f.1 (colon :: (b ++ (c :: u) ++ x))
  have hcolon := fun x => skipSpace_cons (c := colon) rfl (b ++ (c :: u) ++ x)
  have hvalue : ∀ x, skipSpace (b ++ (c :: u) ++ x) = c :: u ++ x := by
    intro x
    rw [List.append_assoc]
    exact skipSpace_blank hb hc (u ++ x)
  have hparts : ∀ x, string f.1 ++ (colon :: b) ++ (c :: u) ++ x =
      string f.1 ++ colon :: (b ++ (c :: u) ++ x) := by simp
  simp only [string_starts] at hread hparts
  constructor
  · have hclosed := skipSpace_cons (c := closeBrace) rfl r
    rw [string_starts, hparts]
    simp only [members, hread, hcolon, hvalue, ht.value (closes_cons (.inr (.inr rfl)) r), hclosed]
  · have hcomma := skipSpace_cons (c := comma) rfl r
    rw [string_starts, hparts]
    simp only [members, hread, hcolon, hvalue, ht.value (closes_cons (.inl rfl) r), hcomma]

theorem members_fields {room : Nat} {style : Style} (hs : style.Legible)
    {ms : List Text} {fields : List (Text × Value)}
    (h : List.Forall₂ (MemberAs room style.keySeparator) ms fields) (hne : ms ≠ []) {fuel : Nat}
    (hfuel : ms.length ≤ fuel) (r : Text) :
    members (value room) fuel (join style.itemSeparator ms ++ closeBrace :: r) =
      .ok (fields, r) := by
  induction h generalizing fuel with
  | nil => exact absurd rfl hne
  | @cons m f ms fields hm hms ih =>
    cases fuel with
    | zero => cases hfuel
    | succ fuel =>
      cases hms with
      | nil =>
        exact (members_member hs.keys hm fuel r).1
      | @cons n g ns gs hn hns =>
        obtain ⟨x, hnx⟩ := hn.starts
        obtain ⟨s, hjoin, hskip⟩ := join_behind hs.items m ⟨quote, x, hnx, rfl⟩ ns (closeBrace :: r)
        have hrest := ih (by simp) (Nat.le_of_succ_le_succ hfuel)
        rw [hjoin, (members_member hs.keys hm fuel s).2, hskip, hrest]
        rfl

theorem Separates.length_le {c : CodePoint} {separator : Text} (h : Separates c separator)
    (ts : List Text) : ts.length ≤ (join separator ts).length + 1 := by
  obtain ⟨b, rfl, -⟩ := h
  exact length_le_join (List.cons_ne_nil c b) ts

theorem readsAs_list {room : Nat} {separator : Text} (hs : Separates comma separator)
    {ts : List Text} {vs : List Value} (h : List.Forall₂ (ReadsAs room) ts vs) :
    ReadsAs (room + 1) ([openBracket] ++ join separator ts ++ [closeBracket]) (.list vs) := by
  refine ⟨⟨openBracket, join separator ts ++ [closeBracket], rfl, rfl, by decide⟩, fun {r} _ => ?_⟩
  have hparts : [openBracket] ++ join separator ts ++ [closeBracket] ++ r =
      openBracket :: (join separator ts ++ closeBracket :: r) := by simp
  have hlength := hs.length_le ts
  rw [hparts]
  cases h with
  | nil => rfl
  | @cons t v ts vs ht hts =>
    obtain ⟨s, hs'⟩ := join_starts separator t ts (closeBracket :: r)
    obtain ⟨c, u, rfl, hc, hne⟩ := ht.starts
    have hfuel : ((c :: u) :: ts).length ≤ ((c :: u) ++ s).length + 1 := by
      rw [← hs', List.length_append]
      omega
    have hread := elements_items hs (.cons ht hts) (by simp) hfuel r
    rw [hs'] at hread ⊢
    rw [List.cons_append] at hread ⊢
    rw [value, skipSpace_cons hc]
    split
    · next heq => exact absurd (List.cons.inj heq).1 hne
    · rw [hread]
      rfl

theorem readsAs_record {room : Nat} {style : Style} (hs : style.Legible) {ms : List Text}
    {fields : List (Text × Value)} (h : List.Forall₂ (MemberAs room style.keySeparator) ms fields)
    (hn : (fields.map Prod.fst).Nodup) :
    ReadsAs (room + 1) ([openBrace] ++ join style.itemSeparator ms ++ [closeBrace])
      (.record fields) := by
  refine ⟨⟨openBrace, _, rfl, rfl, by decide⟩, fun {r} _ => ?_⟩
  have hparts : [openBrace] ++ join style.itemSeparator ms ++ [closeBrace] ++ r =
      openBrace :: (join style.itemSeparator ms ++ closeBrace :: r) := by simp
  have hlength := hs.items.length_le ms
  have hkeys : assignAll fields = fields := by rw [assignAll_eq_settled, settled_of_nodup hn]
  rw [hparts]
  cases h with
  | nil => rfl
  | @cons m f ms fields hm hms =>
    obtain ⟨s, hs'⟩ := join_starts style.itemSeparator m ms (closeBrace :: r)
    obtain ⟨x, rfl⟩ := hm.starts
    have hfuel : ((quote :: x) :: ms).length ≤ ((quote :: x) ++ s).length + 1 := by
      rw [← hs', List.length_append]
      omega
    have hread := members_fields hs (.cons hm hms) (by simp) hfuel r
    rw [hs'] at hread ⊢
    rw [List.cons_append] at hread ⊢
    rw [value, skipSpace_cons rfl]
    simp only [hread]
    exact congrArg (fun ms => Except.ok (Value.record ms, r)) hkeys

def ReadsBack (style : Style) (room : Nat) (v : Value) : Prop :=
  ∀ t, write style v = .ok t → ReadsAs room t v

theorem writeItems_reads {style : Style} {room : Nat} {vs : List Value}
    (h : ∀ v ∈ vs, ReadsBack style room v) {ts : List Text} (hts : writeItems style vs = .ok ts) :
    List.Forall₂ (ReadsAs room) ts vs := by
  induction vs generalizing ts with
  | nil =>
    obtain rfl := Except.ok.inj hts
    exact .nil
  | cons v vs ih =>
    rw [writeItems] at hts
    split at hts
    · cases hts
    next t ht =>
    split at hts
    · cases hts
    next us hus =>
    obtain rfl := Except.ok.inj hts
    exact .cons (h v List.mem_cons_self t ht) (ih (fun w hw => h w (List.mem_cons_of_mem v hw)) hus)

theorem writeEntries_reads {style : Style} {room : Nat} {fields : List (Text × Value)}
    (h : ∀ f ∈ fields, ReadsBack style room f.2) {ms : List Text}
    (hms : writeEntries style (fields.map fun f => (.text f.1, f.2)) = .ok ms) :
    List.Forall₂ (MemberAs room style.keySeparator) ms fields := by
  induction fields generalizing ms with
  | nil =>
    obtain rfl := Except.ok.inj hms
    exact .nil
  | cons f fields ih =>
    rw [List.map_cons, writeEntries, key] at hms
    dsimp only at hms
    split at hms
    · cases hms
    next t ht =>
    split at hms
    · cases hms
    next ns hns =>
    obtain rfl := Except.ok.inj hms
    exact .cons ⟨t, rfl, h f List.mem_cons_self t ht⟩
      (ih (fun g hg => h g (List.mem_cons_of_mem f hg)) hns)

namespace ReadsBack

variable {style : Style} {room : Nat}

theorem null : ReadsBack style room .null := by
  rintro t ⟨⟩
  exact ⟨⟨_, _, rfl, rfl, by decide⟩, fun {r} _ => value_null room r⟩

theorem bool (b : Bool) : ReadsBack style room (.bool b) := by
  cases b with
  | true =>
    rintro t ⟨⟩
    exact ⟨⟨_, _, rfl, rfl, by decide⟩, fun {r} _ => value_true room r⟩
  | false =>
    rintro t ⟨⟩
    exact ⟨⟨_, _, rfl, rfl, by decide⟩, fun {r} _ => value_false room r⟩

theorem text (u : Text) : ReadsBack style room (.text u) := by
  rintro t ⟨⟩
  refine ⟨⟨quote, u.flatMap escaped ++ [quote], ?_, rfl, by decide⟩, fun {r} _ => value_string room u r⟩
  rw [← List.append_nil (string u), string_starts]

theorem int (i : Int) : ReadsBack style room (.int i) := by
  intro t ht
  rw [write, integer] at ht
  split at ht
  · next u hu =>
    obtain rfl := Except.ok.inj ht
    unfold Value.intText? at hu
    split at hu
    · cases hu
    next hlimit =>
    obtain rfl := Option.some.inj hu
    refine ⟨signedDecimal_starts i, fun h => value_integer room (Nat.le_of_not_lt hlimit) h⟩
  · cases ht

theorem list (hs : style.Legible) {vs : List Value} (h : ∀ v ∈ vs, ReadsBack style room v) :
    ReadsBack style (room + 1) (.list vs) := by
  intro t ht
  rw [write] at ht
  split at ht
  · cases ht
  next ts hts =>
  obtain rfl := Except.ok.inj ht
  exact readsAs_list hs.items (writeItems_reads h hts)

theorem record (hs : style.Legible) {fields : List (Text × Value)}
    (hn : (fields.map Prod.fst).Nodup) (h : ∀ f ∈ fields, ReadsBack style room f.2) :
    ReadsBack style (room + 1) (.record fields) := by
  intro t ht
  rw [Value.record, write] at ht
  split at ht
  · cases ht
  next ms hms =>
  obtain rfl := Except.ok.inj ht
  exact readsAs_record hs (writeEntries_reads h hms) hn

theorem read {v : Value} (h : ReadsBack style room v) {t : Text} (ht : write style v = .ok t) :
    read room t = .ok v := by
  obtain ⟨⟨c, u, rfl, hc, -⟩, hvalue⟩ := h t ht
  have hread := hvalue closes_nil
  rw [List.append_nil] at hread
  simp only [Json.read, readAll, skipSpace_cons hc, hread]
  rfl

end ReadsBack

def texts (fs : List (Text × Text)) : List (Text × Value) := fs.map (fun f => (f.1, .text f.2))

def memberText (f : Text × Text) : Text := string f.1 ++ chars ": " ++ string f.2

theorem write_texts (fs : List (Text × Text)) : write spaced (Value.record (texts fs)) =
    .ok ([openBrace] ++ join (chars ", ") (fs.map memberText) ++ [closeBrace]) := by
  have hentries : writeEntries spaced ((texts fs).map fun f => (.text f.1, f.2)) =
      .ok (fs.map memberText) := by
    induction fs with
    | nil => rfl
    | cons f fs ih =>
      simp only [texts, List.map_cons] at ih ⊢
      simp only [writeEntries, key, write, ih]
      rfl
  simp only [Value.record, write, hentries]
  rfl

theorem keys_texts (fs : List (Text × Text)) : (texts fs).map Prod.fst = fs.map Prod.fst := by
  simp [texts]

theorem read_texts {fs : List (Text × Text)} (hn : (fs.map Prod.fst).Nodup) (room : Nat) :
    read (room + 1) ([openBrace] ++ join (chars ", ") (fs.map memberText) ++ [closeBrace]) =
      .ok (Value.record (texts fs)) := by
  have hback : ReadsBack spaced (room + 1) (.record (texts fs)) := by
    apply ReadsBack.record spaced_legible (by rwa [keys_texts])
    intro f hf
    obtain ⟨g, -, rfl⟩ := List.mem_map.mp hf
    exact .text g.2
  exact hback.read (write_texts fs)

theorem space_le_memberText {f : Text × Text} {c : CodePoint} (hc : c ∈ memberText f) :
    space ≤ c := by
  have hsep : ∀ d ∈ chars ": ", space ≤ d := by decide
  simp only [memberText, List.mem_append] at hc
  rcases hc with (hc | hc) | hc
  · exact space_le_string hc
  · exact hsep c hc
  · exact space_le_string hc

theorem space_le_texts {fs : List (Text × Text)} {c : CodePoint}
    (hc : c ∈ [openBrace] ++ join (chars ", ") (fs.map memberText) ++ [closeBrace]) :
    space ≤ c := by
  simp only [List.mem_append, List.mem_singleton] at hc
  rcases hc with (rfl | hc) | rfl
  · decide
  · rcases mem_join hc with hsep | ⟨t, ht, hct⟩
    · have hblank : ∀ d ∈ chars ", ", space ≤ d := by decide
      exact hblank c hsep
    · obtain ⟨f, -, rfl⟩ := List.mem_map.mp ht
      exact space_le_memberText hct
  · decide

end Callboard.Json
