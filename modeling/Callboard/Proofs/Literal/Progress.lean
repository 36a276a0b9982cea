import Callboard.Proofs.Literal.Depth
import Callboard.Proofs.Literal.Opened

/-!
# The cursor always gets on

No move goes back in the text. A run ends within a number of moves that the length of
the text bounds, values are never entered below the depth that is one too many, and a
loop that goes round again has read an item and a comma. So every text is read or
refused.
-/

set_option autoImplicit false

namespace Callboard.Literal

open Text

namespace Config

def left : Config → Text
  | .value _ s | .items _ _ s | .pairs _ _ s | .back _ _ s => s
  | .ended (.ok _) => []
  | .ended (.error e) => e.rest

def weight : Config → Nat
  | .value _ s | .back _ _ s => 2 * s.length + 1
  | .items _ _ s | .pairs _ _ s => 2 * s.length + 2
  | .ended _ => 0

/-- No value lies below the greatest depth; where one is due, it may be one too deep. -/
def Within : Config → Prop
  | .value stack _ => stack.length ≤ maxDepth + 1
  | .items stack _ _ | .pairs stack _ _ | .back stack _ _ => stack.length ≤ maxDepth
  | .ended _ => True

theorem Moves.forward {c d : Config} (h : Moves c d) : d.left <:+ c.left := by
  cases h with
  | tooDeep _ => exact List.suffix_rfl
  | @openList stack a r _ _ => exact ⟨a ++ [openBracket], by simp [left]⟩
  | @openMapping stack a r _ _ => exact ⟨a ++ [openBrace], by simp [left]⟩
  | @scalar stack a t r v _ _ _ => exact ⟨a ++ t, by simp [left]⟩
  | @noValue stack a e _ _ _ => exact ⟨a, rfl⟩
  | @closeList stack done a r _ => exact ⟨a ++ [closeBracket], by simp [left]⟩
  | @item stack done a r _ => exact ⟨a, rfl⟩
  | @closeMapping stack done a r _ => exact ⟨a ++ [closeBrace], by simp [left]⟩
  | @field stack done a t b r k _ _ _ => exact ⟨a ++ t ++ b ++ [colon], by simp [left]⟩
  | @noKey stack done a e _ _ _ => exact ⟨a, rfl⟩
  | @noColon stack done a t b s k _ _ _ _ => exact ⟨a ++ t ++ b, by simp [left]⟩
  | whole _ => exact List.nil_suffix
  | @trailing v b s _ _ => exact ⟨b, rfl⟩
  | @nextItem stack done v b r _ => exact ⟨b ++ [comma], by simp [left]⟩
  | @lastItem stack done v b r _ => exact ⟨b ++ [closeBracket], by simp [left]⟩
  | @nextField stack done k v b r _ => exact ⟨b ++ [comma], by simp [left]⟩
  | @lastField stack done k v b r _ => exact ⟨b ++ [closeBrace], by simp [left]⟩
  | @noSeparator stack frame v b s _ _ => exact ⟨b, rfl⟩
  | stay => exact List.suffix_rfl

theorem Moves.lighter {c d : Config} (h : Moves c d) (hc : 0 < c.weight) :
    d.weight < c.weight := by
  cases h with
  | @scalar stack a t r v _ _ ht =>
    obtain ⟨x, u, rfl, -⟩ := ht.opens
    simp only [weight, List.length_append, List.length_cons]
    omega
  | stay => exact absurd hc (Nat.lt_irrefl 0)
  | _ =>
    simp only [weight, List.length_append, List.length_cons]
    omega

theorem Moves.within {c d : Config} (h : Moves c d) (hc : c.Within) : d.Within := by
  cases h with
  | openList hdepth _ => exact hdepth
  | openMapping hdepth _ => exact hdepth
  | scalar hdepth _ _ => exact hdepth
  | closeList _ => exact hc
  | item _ => exact Nat.succ_le_succ hc
  | closeMapping _ => exact hc
  | field _ _ _ => exact Nat.succ_le_succ hc
  | nextItem _ => exact Nat.le_of_succ_le hc
  | lastItem _ => exact Nat.le_of_succ_le hc
  | nextField _ => exact Nat.le_of_succ_le hc
  | lastField _ => exact Nat.le_of_succ_le hc
  | _ => trivial

theorem ended_of_weight {n : Nat} {c : Config} (h : c.weight ≤ n) :
    ∃ result, step^[n] c = .ended result := by
  induction n generalizing c with
  | zero =>
    cases c with
    | ended result => exact ⟨result, rfl⟩
    | _ => simp only [weight] at h; omega
  | succ n ih =>
    rw [Function.iterate_succ_apply]
    apply ih
    by_cases hc : 0 < c.weight
    · have hlighter := (step_moves c).lighter hc
      omega
    · cases c with
      | ended result => exact Nat.zero_le n
      | _ => simp only [weight] at hc; omega

theorem run_ends (t : Text) : run t (2 * t.length + 1) = .ended (readWhole t) := by
  obtain ⟨result, hresult⟩ := ended_of_weight (Nat.le_refl (weight (.value [] t)))
  have heq := (reaches_readWhole t).ended_eq hresult
  rw [← heq]
  exact hresult

theorem run_forward (t : Text) (n : Nat) : (run t (n + 1)).left <:+ (run t n).left := by
  rw [run_succ]
  exact (step_moves _).forward

theorem run_left (t : Text) (n : Nat) : (run t n).left <:+ t := by
  induction n with
  | zero => exact List.suffix_rfl
  | succ n ih => exact (run_forward t n).trans ih

theorem run_within (t : Text) (n : Nat) : (run t n).Within := by
  induction n with
  | zero => exact Nat.zero_le _
  | succ n ih =>
    rw [run_succ]
    exact (step_moves _).within ih

theorem run_value {t : Text} {n : Nat} {stack : List Frame} {s : Text}
    (h : run t n = .value stack s) : stack.length ≤ maxDepth + 1 ∧
      Reaches stack.length (run t n)
        (onward (readValue (maxDepth + 1 - stack.length) s) (.back stack)) := by
  have hwithin : (run t n).Within := run_within t n
  rw [h] at hwithin ⊢
  exact ⟨hwithin, follows_readValue (Nat.add_sub_of_le hwithin) s⟩

/-- Where one turn of a loop leads: reading has stopped, the container is closed, with one item
more or as it was, or there is an item more and a comma behind it, and the next turn begins. -/
inductive Turn {α : Type} (Item : Text → α → Prop) (closer : CodePoint)
    (again close : List α → Text → Config) (done : List α) (s : Text) : Config → Prop where
  | stopped (e : Stop) : Turn Item closer again close done s (.ended (.error e))
  | closed {a r : Text} (hs : s = a ++ closer :: r) (ha : Blanks a) :
      Turn Item closer again close done s (close done r)
  | last {u r : Text} {x : α} (hs : s = u ++ closer :: r) (hu : Item u x) :
      Turn Item closer again close done s (close (done ++ [x]) r)
  | round {u r : Text} {x : α} (hs : s = u ++ comma :: r) (hu : Item u x) :
      Turn Item closer again close done s (again (done ++ [x]) r)

abbrev ListTurn (D : Text → Value → Prop) (stack : List Frame) :
    List Value → Text → Config → Prop :=
  Turn (Padded D) closeBracket (.items stack) (fun vs => .back stack (.list vs))

abbrev MappingTurn (D : Text → Value → Prop) (stack : List Frame) :
    List (Text × Value) → Text → Config → Prop :=
  Turn (Pair D) closeBrace (.pairs stack) (fun ps => .back stack (.record (settled ps)))

section
variable {read : Text → Except Stop (Value × Text)} {D : Text → Value → Prop}

theorem turn_of_items (hsound : Sound read D) (stack : List Frame) (done : List Value)
    (s : Text) : ListTurn D stack done s (itemTurn read stack done s) := by
  obtain ⟨a, s, rfl, ha, hs, -⟩ := exists_blanks s
  unfold itemTurn
  rw [hs]
  split
  · exact .closed rfl ha
  cases hv : read s with
  | error e => exact .stopped e
  | ok p =>
  obtain ⟨v, r⟩ := p
  obtain ⟨b, t, hb, ht, rfl⟩ := hsound _ _ _ hv
  have hmove := leave_moves (.list done :: stack) v r
  show ListTurn D stack done _ (leave (.list done :: stack) v r)
  generalize leave (.list done :: stack) v r = c at hmove ⊢
  cases hmove with
  | nextItem hc => exact .round (by simp) (.mk (ha.append hb) ht hc)
  | lastItem hc => exact .last (by simp) (.mk (ha.append hb) ht hc)
  | noSeparator _ _ => exact .stopped _

theorem turn_of_pairs (hsound : Sound read D) (stack : List Frame)
    (done : List (Text × Value)) (s : Text) :
    MappingTurn D stack done s (pairTurn read stack done s) := by
  obtain ⟨a, s, rfl, ha, hs, -⟩ := exists_blanks s
  unfold pairTurn
  rw [hs, assignAll_eq_settled]
  split
  · exact .closed rfl ha
  · next r =>
    cases htext : readText (quote :: r) with
    | error e => exact .stopped e
    | ok p =>
    obtain ⟨k, r₁⟩ := p
    obtain ⟨token, htoken, hr⟩ := readText_eq_ok_iff.mp htext
    obtain ⟨b, r₁, rfl, hb, hr₁, -⟩ := exists_blanks r₁
    simp only [onward, fieldTurn]
    rw [hr, hr₁]
    split
    · next r₂ =>
      cases hv : read r₂ with
      | error e => exact .stopped e
      | ok p =>
      obtain ⟨v, r₃⟩ := p
      obtain ⟨c, t, hc, ht, rfl⟩ := hsound _ _ _ hv
      have hmove := leave_moves (.mapping done k :: stack) v r₃
      show MappingTurn D stack done _ (leave (.mapping done k :: stack) v r₃)
      generalize leave (.mapping done k :: stack) v r₃ = c' at hmove ⊢
      cases hmove with
      | nextField hd => exact .round (by simp) (.mk ha htoken hb hc ht hd)
      | lastField hd => exact .last (by simp) (.mk ha htoken hb hc ht hd)
      | noSeparator _ _ => exact .stopped _
    · exact .stopped _
  · exact .stopped _

end

theorem follows_item {stack : List Frame} (h : stack.length ≤ maxDepth) (frame : Frame) :
    Follows (readValue (maxDepth - stack.length)) (frame :: stack) :=
  follows_readValue (by rw [List.length_cons]; omega)

theorem run_items {t : Text} {n : Nat} {stack : List Frame} {done : List Value} {s : Text}
    (h : run t n = .items stack done s) :
    ∃ c, Reaches (stack.length + 1) (run t (n + 1)) c ∧
      ListTurn (Denotes (maxDepth - stack.length)) stack done s c := by
  have hwithin := run_within t n
  rw [h] at hwithin
  rw [run_succ, h]
  exact ⟨_, items_turn (follows_item hwithin (.list done)) s,
    turn_of_items (readValue_sound _) stack done s⟩

theorem run_pairs {t : Text} {n : Nat} {stack : List Frame} {done : List (Text × Value)}
    {s : Text} (h : run t n = .pairs stack done s) :
    ∃ c, Reaches (stack.length + 1) (run t (n + 1)) c ∧
      MappingTurn (Denotes (maxDepth - stack.length)) stack done s c := by
  have hwithin := run_within t n
  rw [h] at hwithin
  rw [run_succ, h]
  exact ⟨_, pairs_turn (fun k => follows_item hwithin (.mapping done k)) s,
    turn_of_pairs (readValue_sound _) stack done s⟩

/-- At the head of a list's loop everything from the bracket on is items that are done, each
with its comma. -/
theorem run_item_rounds {t : Text} {n : Nat} {stack : List Frame} {done : List Value} {s : Text}
    (h : run t n = .items stack done s) : ∃ front body,
      t = front ++ openBracket :: (body ++ s) ∧ Rounds (Padded Denoted) body done := by
  have hreading := run_reading t n
  rw [h] at hreading
  obtain ⟨p, a, body, ht, -, -, hbody⟩ := hreading
  exact ⟨p ++ a, body, by simpa using ht, hbody⟩

theorem run_pair_rounds {t : Text} {n : Nat} {stack : List Frame} {done : List (Text × Value)}
    {s : Text} (h : run t n = .pairs stack done s) : ∃ front body,
      t = front ++ openBrace :: (body ++ s) ∧ Rounds (Pair Denoted) body done := by
  have hreading := run_reading t n
  rw [h] at hreading
  obtain ⟨p, a, body, ht, -, -, hbody⟩ := hreading
  exact ⟨p ++ a, body, by simpa using ht, hbody⟩

end Config

def Takes {α : Type} (read : Text → Except Stop (α × Text)) : Prop :=
  ∀ s a rest, read s = .ok (a, rest) → rest <:+ s ∧ rest.length < s.length

theorem takes_of_token {t rest : Text} (ht : Opens t) (a : Text) :
    rest <:+ a ++ (t ++ rest) ∧ rest.length < (a ++ (t ++ rest)).length := by
  obtain ⟨c, r, rfl, -⟩ := ht
  refine ⟨⟨a ++ c :: r, by simp⟩, ?_⟩
  simp only [List.length_append, List.length_cons]
  omega

theorem readValue_takes (levels : Nat) : Takes (readValue levels) := by
  intro s v rest h
  obtain ⟨a, t, -, ht, rfl⟩ := readValue_sound levels s v rest h
  exact takes_of_token ht.opens a

theorem readAtom_takes : Takes readAtom := by
  intro s v rest h
  obtain ⟨t, rfl, ht⟩ := readAtom_sound Denoted h
  exact takes_of_token (opens_of_over ht) []

theorem readText_takes : Takes readText := by
  intro s t rest h
  unfold readText at h
  split at h
  · cases h
  next body rest' hcut =>
  split at h
  · cases h
  cases h
  obtain ⟨hs, -⟩ := inside?_sound hcut
  cases s with
  | nil => cases hcut
  | cons c r =>
    rw [List.tail_cons] at hs
    subst hs
    refine ⟨⟨c :: body ++ [quote], by simp⟩, ?_⟩
    simp only [List.length_append, List.length_cons]
    omega

/-- How a text is read: the cursor never goes back and comes to an end, no value is entered
below the depth that is one too many, what is read is taken, and a loop goes round with an item
and a comma. -/
structure Progress (t : Text) : Prop where
  ends : Config.run t (2 * t.length + 1) = .ended (readWhole t)
  forward : ∀ n, (Config.run t (n + 1)).left <:+ (Config.run t n).left
  inside : ∀ n, (Config.run t n).left <:+ t
  values : ∀ n stack s, Config.run t n = .value stack s → stack.length ≤ maxDepth + 1 ∧
    Config.Reaches stack.length (Config.run t n)
      (.onward (readValue (maxDepth + 1 - stack.length) s) (.back stack))
  takes : (∀ levels, Takes (readValue levels)) ∧ Takes readText ∧ Takes readAtom
  lists : ∀ n stack done s, Config.run t n = .items stack done s →
    (∃ front body, t = front ++ openBracket :: (body ++ s) ∧ Rounds (Padded Denoted) body done) ∧
      ∃ c, Config.Reaches (stack.length + 1) (Config.run t (n + 1)) c ∧
        Config.ListTurn (Denotes (maxDepth - stack.length)) stack done s c
  mappings : ∀ n stack done s, Config.run t n = .pairs stack done s →
    (∃ front body, t = front ++ openBrace :: (body ++ s) ∧ Rounds (Pair Denoted) body done) ∧
      ∃ c, Config.Reaches (stack.length + 1) (Config.run t (n + 1)) c ∧
        Config.MappingTurn (Denotes (maxDepth - stack.length)) stack done s c
  outcome : (∃ v, read t = .ok v ∧ v.depth ≤ maxDepth) ∨ ∃ e, read t = .error e

theorem reading_progresses (t : Text) : Progress t where
  ends := Config.run_ends t
  forward := Config.run_forward t
  inside := Config.run_left t
  values _ _ _ h := Config.run_value h
  takes := ⟨readValue_takes, readText_takes, readAtom_takes⟩
  lists _ _ _ _ h := ⟨Config.run_item_rounds h, Config.run_items h⟩
  mappings _ _ _ _ h := ⟨Config.run_pair_rounds h, Config.run_pairs h⟩
  outcome := by
    cases h : read t with
    | ok v => exact .inl ⟨v, rfl, read_depth_le h⟩
    | error e => exact .inr ⟨e, rfl⟩

end Callboard.Literal
