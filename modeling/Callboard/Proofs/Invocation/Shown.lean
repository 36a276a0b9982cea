import Callboard.Proofs.Invocation.Canonical

/-!
# How calls are shown

A call with decoded arguments can always be shown. It is written unless one of its doubles is
infinite, and then shown with the number of its arguments. An infinite double can only come
from a token with a point or an exponent mark, and no token stands for a NaN.
-/

set_option autoImplicit false

namespace Callboard

namespace Value

mutual
def doubles : Value → List Binary64
  | .float x => [x]
  | .list items => doublesIn items
  | .tuple items => doublesIn items
  | .set items => doublesIn items
  | .mapping entries => entryDoubles entries
  | _ => []

def doublesIn : List Value → List Binary64
  | [] => []
  | v :: vs => doubles v ++ doublesIn vs

def entryDoubles : List (Value × Value) → List Binary64
  | [] => []
  | (k, v) :: entries => doubles k ++ doubles v ++ entryDoubles entries
end

theorem mem_doublesIn_iff (items : List Value) (x : Binary64) :
    x ∈ doublesIn items ↔ ∃ v ∈ items, x ∈ v.doubles := by
  induction items with
  | nil => simp [doublesIn]
  | cons v vs ih => simp [doublesIn, ih]

theorem mem_doubles_record_iff (fields : List (Text × Value)) (x : Binary64) :
    x ∈ (record fields).doubles ↔ ∃ f ∈ fields, x ∈ f.2.doubles := by
  rw [record, doubles]
  induction fields with
  | nil => simp [entryDoubles]
  | cons f fields ih => 
    rw [List.map_cons, entryDoubles, List.mem_append, List.mem_append, ih]
    simp [doubles]

end Value

namespace Binary64

theorem nearest_ne_nan (negative : Bool) (n d : Nat) : nearest negative n d ≠ .nan := by
  unfold nearest
  split
  · exact fun h => by cases h
  · dsimp only
    split
    · exact fun h => by cases h
    · exact fun h => by cases h

theorem ofDecimal_ne_nan (negative : Bool) (mantissa : Nat) (e : Int) :
    ofDecimal negative mantissa e ≠ .nan := by
  unfold ofDecimal
  split
  · exact fun h => by cases h
  split
  · exact fun h => by cases h
  split
  · exact fun h => by cases h
  · exact nearest_ne_nan _ _ _

theorem finite_or_infinite {x : Binary64} (h : x ≠ .nan) :
    x.isFinite = true ∨ ∃ negative, x = .infinite negative := by
  cases x with
  | nan => exact absurd rfl h
  | infinite negative => exact .inr ⟨negative, rfl⟩
  | finite _ _ => exact .inl rfl

end Binary64

namespace Literal

open Text

def FloatToken (t : Text) (x : Binary64) : Prop :=
  ∃ s n, s <:+: t ∧ Numeral.Spells s n ∧ ¬ Numeral.Integral s ∧ x = n.toBinary64

theorem FloatToken.mono {s t : Text} {x : Binary64} (h : FloatToken s x) (hst : s <:+: t) :
    FloatToken t x := by
  obtain ⟨u, n, hu, hn⟩ := h
  exact ⟨u, n, hu.trans hst, hn⟩

theorem FloatToken.ne_nan {t : Text} {x : Binary64} (h : FloatToken t x) : x ≠ .nan := by
  obtain ⟨s, n, -, -, -, rfl⟩ := h
  exact Binary64.ofDecimal_ne_nan _ _ _

theorem Denotes.floatToken {levels : Nat} {t : Text} {v : Value} (h : Denotes levels t v)
    {x : Binary64} (hx : x ∈ v.doubles) : FloatToken t x := by
  induction levels generalizing t v with
  | zero => exact h.elim
  | succ levels ih =>
    cases h with
    | text _ => cases hx
    | int _ _ _ => cases hx
    | float h hf =>
      obtain rfl := List.mem_singleton.mp hx
      exact ⟨t, _, List.infix_refl t, h, hf, rfl⟩
    | word h =>
      simp only [words, List.mem_cons, Prod.mk.injEq, List.not_mem_nil, or_false] at h
      rcases h with ⟨-, rfl⟩ | ⟨-, rfl⟩ | ⟨-, rfl⟩ | ⟨-, rfl⟩ <;> cases hx
    | @list body vs h =>
      obtain ⟨w, hw, hx⟩ := (Value.mem_doublesIn_iff vs x).mp hx
      obtain ⟨u, hu, hdenotes⟩ := h.denoted hw
      exact (ih hdenotes hx).mono (hu.trans ⟨[openBracket], [closeBracket], by simp⟩)
    | @mapping body ps h =>
      obtain ⟨f, hf, hx⟩ := (Value.mem_doubles_record_iff _ x).mp hx
      obtain ⟨u, hu, hdenotes⟩ := h.denoted (mem_of_mem_settled hf)
      exact (ih hdenotes hx).mono (hu.trans ⟨[openBrace], [closeBrace], by simp⟩)

/-- Writing succeeds if all of the doubles are finite. Otherwise it fails for one that is
infinite. -/
def FailsForInfinite {α : Type} (doubles : List Binary64) (result : Except WriteError α) : Prop :=
  ((∀ x ∈ doubles, x.isFinite = true) ∧ ∃ a, result = .ok a) ∨
    ∃ negative, .infinite negative ∈ doubles ∧ result = .error (.nonFinite (.infinite negative))

section
variable {α β γ : Type} {doubles rest : List Binary64} {first : Except WriteError α}
  {second : Except WriteError β} {whole : Except WriteError γ}

theorem FailsForInfinite.of_ok {a : α} (h : first = .ok a) : FailsForInfinite [] first :=
  .inl ⟨by simp, a, h⟩

theorem FailsForInfinite.no_infinite (h : FailsForInfinite doubles first) {a : α}
    (ha : first = .ok a) (negative : Bool) : .infinite negative ∉ doubles := by
  intro hmem
  rcases h with ⟨hfinite, -⟩ | ⟨_, -, he⟩
  · cases hfinite _ hmem
  · rw [ha] at he
    cases he

theorem FailsForInfinite.reason (h : FailsForInfinite doubles first) {e : WriteError}
    (he : first = .error e) :
    ∃ negative, .infinite negative ∈ doubles ∧ e = .nonFinite (.infinite negative) := by
  rcases h with ⟨-, a, ha⟩ | ⟨negative, hmem, he'⟩
  · rw [ha] at he
    cases he
  · rw [he] at he'
    exact ⟨negative, hmem, Except.error.inj he'⟩

theorem FailsForInfinite.lift (h : FailsForInfinite doubles first)
    (hok : ∀ a, first = .ok a → ∃ c, whole = .ok c)
    (herror : ∀ e, first = .error e → whole = .error e) : FailsForInfinite doubles whole := by
  rcases h with ⟨hfinite, a, ha⟩ | ⟨negative, hmem, he⟩
  · exact .inl ⟨hfinite, hok a ha⟩
  · exact .inr ⟨negative, hmem, herror _ he⟩

theorem FailsForInfinite.both (h : FailsForInfinite doubles first)
    (hrest : FailsForInfinite rest second)
    (hok : ∀ a b, first = .ok a → second = .ok b → ∃ c, whole = .ok c)
    (hfirst : ∀ e, first = .error e → whole = .error e)
    (hsecond : ∀ a e, first = .ok a → second = .error e → whole = .error e) :
    FailsForInfinite (doubles ++ rest) whole := by
  rcases h with ⟨hfinite, a, ha⟩ | ⟨negative, hmem, he⟩
  · rcases hrest with ⟨hfinites, b, hb⟩ | ⟨negative, hmem, he⟩
    · exact .inl ⟨fun x hx => (List.mem_append.mp hx).elim (hfinite x) (hfinites x), hok a b ha hb⟩
    · exact .inr ⟨negative, List.mem_append_right _ hmem, hsecond a _ ha he⟩
  · exact .inr ⟨negative, List.mem_append_left _ hmem, hfirst _ he⟩

end

theorem writeItems_fails {vs : List Value} (h : ∀ v ∈ vs, FailsForInfinite v.doubles (write v)) :
    FailsForInfinite (Value.doublesIn vs) (writeItems vs) := by
  induction vs with
  | nil => exact .of_ok rfl
  | cons v vs ih =>
    have hvs := ih fun w hw => h w (List.mem_cons_of_mem v hw)
    rw [Value.doublesIn]
    apply (h v (by simp)).both hvs
    · intro t ts ht hts
      exact ⟨t :: ts, by rw [writeItems, ht, hts]⟩
    · intro e he
      rw [writeItems, he]
    · intro t e ht he
      rw [writeItems, ht, he]

theorem writeEntries_fails {fields : List (Text × Value)}
    (h : ∀ f ∈ fields, FailsForInfinite f.2.doubles (write f.2)) :
    FailsForInfinite (Value.record fields).doubles
      (writeEntries (fields.map (fun f => (.text f.1, f.2)))) := by
  rw [Value.record, Value.doubles]
  induction fields with
  | nil => exact .of_ok rfl
  | cons f fields ih =>
    have hfields := ih fun g hg => h g (List.mem_cons_of_mem f hg)
    show FailsForInfinite (f.2.doubles ++ _) _
    apply (h f (by simp)).both hfields
    · intro t ts ht hts
      exact ⟨_, by rw [List.map_cons, writeEntries, ht, hts]⟩
    · intro e he
      rw [List.map_cons, writeEntries, he]
    · intro t e ht he
      rw [List.map_cons, writeEntries, ht, he]

theorem Denotes.fails {levels : Nat} {t : Text} {v : Value} (h : Denotes levels t v) :
    FailsForInfinite v.doubles (write v) := by
  induction levels generalizing t v with
  | zero => exact h.elim
  | succ levels ih =>
    have hstable := h.stable
    cases h with
    | text _ => exact .of_ok rfl
    | int _ _ _ =>
      obtain ⟨u, hu⟩ := (hstable.2 rfl).written
      exact .of_ok hu.write
    | @float _ n _ _ =>
      have hnan : n.toBinary64 ≠ .nan := Binary64.ofDecimal_ne_nan _ _ _
      rcases Binary64.finite_or_infinite hnan with hfinite | ⟨negative, hinfinite⟩
      · exact .inl ⟨by simpa [Value.doubles] using hfinite, _, if_pos hfinite⟩
      · rw [hinfinite]
        exact .inr ⟨negative, by simp [Value.doubles], rfl⟩
    | word h =>
      simp only [words, List.mem_cons, Prod.mk.injEq, List.not_mem_nil, or_false] at h
      rcases h with ⟨-, rfl⟩ | ⟨-, rfl⟩ | ⟨-, rfl⟩ | ⟨-, rfl⟩ <;> exact .of_ok rfl
    | list h =>
      have hitems := writeItems_fails fun w hw => by
        obtain ⟨u, -, hu⟩ := h.denoted hw
        exact ih hu
      exact hitems.lift (fun ts hts => ⟨_, by rw [write, hts]⟩) (fun e he => by rw [write, he])
    | mapping h =>
      have hentries := writeEntries_fails fun f hf => by
        obtain ⟨u, -, hu⟩ := h.denoted (mem_of_mem_settled hf)
        exact ih hu
      exact hentries.lift (fun ts hts => ⟨_, by rw [Value.record, write, hts]⟩)
        (fun e he => by rw [Value.record, write, he])

end Literal

namespace Invocation

open Text Literal

structure Shown (raw : Option Text) (name : Text) (args : List Value) : Prop where
  /-- Every double comes from a token with a point or an exponent mark. -/
  token : ∀ x ∈ Value.doublesIn args, ∃ t, raw = some t ∧ FloatToken (normalize t) x
  no_nan : .nan ∉ Value.doublesIn args
  fails_iff : (∃ e, write name args = .error e) ↔
    ∃ negative, .infinite negative ∈ Value.doublesIn args
  reason : ∀ e, write name args = .error e →
    ∃ negative, .infinite negative ∈ Value.doublesIn args ∧ e = .nonFinite (.infinite negative)
  whole : (∀ negative, .infinite negative ∉ Value.doublesIn args) →
    ∃ t, write name args = .ok t ∧ describe name args = t
  counted : ∀ negative, .infinite negative ∈ Value.doublesIn args →
    describe name args =
      name ++ [openParen] ++ chars "<" ++ decimal args.length ++ chars " args>" ++ [closeParen]

theorem write_fails (name : Text) {args : List Value}
    (h : FailsForInfinite (Value.doublesIn args) (writeItems args)) :
    FailsForInfinite (Value.doublesIn args) (write name args) := by
  cases args with
  | nil => exact .of_ok rfl
  | cons v vs => exact h.lift (fun ts hts => ⟨_, by rw [write, hts]⟩) (fun e he => by rw [write, he])

theorem decode_fails {raw : Option Text} {args : List Value} (h : decode raw = .ok args)
    (name : Text) : FailsForInfinite (Value.doublesIn args) (write name args) := by
  apply write_fails
  apply writeItems_fails
  intro v hv
  obtain ⟨u, hu⟩ := decode_denoted h v hv
  exact hu.fails

theorem decode_floatToken {raw : Option Text} {args : List Value} (h : decode raw = .ok args)
    {x : Binary64} (hx : x ∈ Value.doublesIn args) :
    ∃ t, raw = some t ∧ FloatToken (normalize t) x := by
  cases raw with
  | none =>
    obtain rfl := Except.ok.inj h
    cases hx
  | some t =>
    obtain ⟨v, hv, hx⟩ := (Value.mem_doublesIn_iff args x).mp hx
    obtain ⟨u, hu, hdenotes⟩ := (decode_items_iff.mp h).denoted hv
    exact ⟨t, rfl, (hdenotes.floatToken hx).mono hu⟩

/-- Showing a call with decoded arguments never fails. The call is shown as it is written, or
with the number of its arguments if one of their doubles is infinite. -/
theorem decoded_shown {raw : Option Text} {args : List Value} (h : decode raw = .ok args)
    (name : Text) : Shown raw name args := by
  have hfails := decode_fails h name
  constructor
  case token => exact fun x hx => decode_floatToken h hx
  case no_nan =>
    intro hmem
    obtain ⟨t, -, hx⟩ := decode_floatToken h hmem
    exact hx.ne_nan rfl
  case fails_iff =>
    constructor
    · rintro ⟨e, he⟩
      obtain ⟨negative, hmem, -⟩ := hfails.reason he
      exact ⟨negative, hmem⟩
    · rintro ⟨negative, hmem⟩
      cases hwrite : write name args with
      | ok t => exact absurd hmem (hfails.no_infinite hwrite negative)
      | error e => exact ⟨e, rfl⟩
  case reason => exact fun e he => hfails.reason he
  case whole =>
    intro hno
    cases hwrite : write name args with
    | ok t => exact ⟨t, rfl, by rw [describe, hwrite]⟩
    | error e =>
      obtain ⟨negative, hmem, -⟩ := hfails.reason hwrite
      exact absurd hmem (hno negative)
  case counted =>
    intro negative hmem
    cases hwrite : write name args with
    | ok t => exact absurd hmem (hfails.no_infinite hwrite negative)
    | error e => rw [describe, hwrite]

def hugeText : Text := chars "[1e999], -.5, {big: -2E+999}"

def hugeArguments : List Value :=
  [.list [.float (.infinite false)], .float (Numeral.toBinary64 ⟨true, [], some [5], none⟩),
    .record [(chars "big", .float (.infinite true))]]

theorem decoded_shown_huge :
    decode (some hugeText) = .ok hugeArguments ∧
      Shown (some hugeText) (chars "f") hugeArguments ∧
      describe (chars "f") hugeArguments = chars "f(<3 args>)" := by
  have hdecode : decode (some hugeText) = .ok hugeArguments := by rfl
  have hshown := decoded_shown hdecode (chars "f")
  have hmem : .infinite false ∈ Value.doublesIn hugeArguments := by
    simp [hugeArguments, Value.doublesIn, Value.doubles]
  exact ⟨hdecode, hshown, hshown.counted false hmem⟩

end Invocation

end Callboard
