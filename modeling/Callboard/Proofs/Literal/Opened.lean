import Callboard.Proofs.Literal.Moves
import Callboard.Proofs.Literal.Row

/-!
# What has been read

The text behind the cursor while containers are open: for each of them its bracket, the
items that are done with their commas, and in a mapping the key whose value is due. Any
value completes such a text, since the open containers can be closed behind it. Every
move keeps to this account, so that whatever reading stops for, nothing in front of it
was wrong.
-/

set_option autoImplicit false

namespace Callboard.Literal

open Text

/-- Items in a row, with a comma behind each of them. -/
inductive Rounds {α : Type} (Item : Text → α → Prop) : Text → List α → Prop where
  | none : Rounds Item [] []
  | more {r u : Text} {xs : List α} {x : α} (hr : Rounds Item r xs) (hu : Item u x) :
      Rounds Item (r ++ (u ++ [comma])) (xs ++ [x])

section
variable {D : Text → Value → Prop}

theorem Rounds.items {r s : Text} {vs ws : List Value} (hr : Rounds (Padded D) r vs)
    (hs : Items D s ws) : Items D (r ++ s) (vs ++ ws) := by
  induction hr generalizing s ws with
  | none => exact hs
  | more _ hu ih => simpa using ih (hu.items_cons hs)

theorem Rounds.pairs {r s : Text} {ps qs : List (Text × Value)} (hr : Rounds (Pair D) r ps)
    (hs : Pairs D s qs) : Pairs D (r ++ s) (ps ++ qs) := by
  induction hr generalizing s qs with
  | none => exact hs
  | more _ hu ih => simpa using ih (.more hu hs)

end

theorem denoted_list {body rest : Text} {done vs : List Value}
    (hbody : Rounds (Padded Denoted) body done) (hrest : Items Denoted rest vs) :
    Denoted (openBracket :: (body ++ (rest ++ [closeBracket]))) (.list (done ++ vs)) := by
  have hlist := denoted_iff_over.mpr (.list (hbody.items hrest))
  rwa [List.append_assoc] at hlist

theorem denoted_mapping {body rest : Text} {done ps : List (Text × Value)}
    (hbody : Rounds (Pair Denoted) body done) (hrest : Pairs Denoted rest ps) :
    Denoted (openBrace :: (body ++ (rest ++ [closeBrace]))) (.record (settled (done ++ ps))) := by
  have hmapping := denoted_iff_over.mpr (.mapping (hbody.pairs hrest))
  rwa [List.append_assoc] at hmapping

/-- The text that has been read where a value is due inside of these containers. -/
inductive Opened : List Frame → Text → Prop where
  | start : Opened [] []
  | list {stack : List Frame} {p a body b : Text} {done : List Value} (h : Opened stack p)
      (ha : Blanks a) (hbody : Rounds (Padded Denoted) body done) (hb : Blanks b) :
      Opened (.list done :: stack) (p ++ (a ++ openBracket :: (body ++ b)))
  | mapping {stack : List Frame} {p a body b s c k : Text} {done : List (Text × Value)}
      (h : Opened stack p) (ha : Blanks a) (hbody : Rounds (Pair Denoted) body done)
      (hb : Blanks b) (hs : Quoted s k) (hc : Blanks c) :
      Opened (.mapping done k :: stack)
        (p ++ (a ++ openBrace :: (body ++ (b ++ (s ++ (c ++ [colon]))))))

def Viable (p : Text) : Prop := ∃ suffix v, AnyDocument (p ++ suffix) v

theorem Opened.closes {stack : List Frame} {p : Text} (h : Opened stack p) {a t b : Text}
    {v : Value} (ha : Blanks a) (ht : Denoted t v) (hb : Blanks b) :
    Viable (p ++ (a ++ (t ++ b))) := by
  induction h generalizing a t b v with
  | start => exact ⟨[], v, a, t, b, by simp, ha, ht, hb⟩
  | list _ ha' hbody hb' ih =>
    have hlist := denoted_list hbody (.last (hb'.append ha) ht hb)
    obtain ⟨suffix, w, hw⟩ := ih ha' hlist blanks_nil
    exact ⟨closeBracket :: suffix, w, by simpa using hw⟩
  | mapping _ ha' hbody hb' hs hc ih =>
    have hmapping := denoted_mapping hbody (.last (.mk hb' hs hc ha ht hb))
    obtain ⟨suffix, w, hw⟩ := ih ha' hmapping blanks_nil
    exact ⟨closeBrace :: suffix, w, by simpa using hw⟩

def Due.Fits : Due → Text → Prop
  | .value, u => ∃ v, Denoted u v
  | .token, u => ∃ k, Quoted u k
  | .nothing, u => u = []

def Awaits (p : Text) (due : Due) : Prop := ∀ u, due.Fits u → Viable (p ++ u)

theorem denoted_null : Denoted (chars "null") .null :=
  denoted_iff_over.mpr (.word (by simp [words]))

theorem quoted_empty : Quoted [quote, quote] [] := ⟨[], rfl, .empty⟩

theorem Awaits.viable {p : Text} {due : Due} (h : Awaits p due) : Viable p := by
  obtain ⟨u, hu⟩ : ∃ u, due.Fits u := by
    cases due with
    | value => exact ⟨_, _, denoted_null⟩
    | token => exact ⟨_, _, quoted_empty⟩
    | nothing => exact ⟨[], rfl⟩
  obtain ⟨suffix, v, hv⟩ := h u hu
  exact ⟨u ++ suffix, v, by rwa [List.append_assoc] at hv⟩

section
variable {stack : List Frame} {p : Text}

theorem Opened.awaits_value (h : Opened stack p) {a : Text} (ha : Blanks a) {due : Due}
    (hdue : due ≠ .nothing) : Awaits (p ++ a) due := by
  intro u hu
  obtain ⟨v, hv⟩ : ∃ v, Denoted u v := by
    cases due with
    | value => exact hu
    | token =>
      obtain ⟨k, hk⟩ := hu
      exact ⟨.text k, denoted_iff_over.mpr (.text hk)⟩
    | nothing => exact absurd rfl hdue
  simpa using h.closes ha hv blanks_nil

theorem Opened.awaits_separator (h : Opened stack p) {a t b : Text} {v : Value} (ha : Blanks a)
    (ht : Denoted t v) (hb : Blanks b) : Awaits (p ++ (a ++ (t ++ b))) .nothing := by
  rintro u rfl
  rw [List.append_nil]
  exact h.closes ha ht hb

theorem Opened.awaits_colon (h : Opened stack p) {a body b s c k : Text}
    {done : List (Text × Value)} (ha : Blanks a) (hbody : Rounds (Pair Denoted) body done)
    (hb : Blanks b) (hs : Quoted s k) (hc : Blanks c) :
    Viable (p ++ (a ++ openBrace :: (body ++ (b ++ (s ++ c))))) := by
  obtain ⟨suffix, v, hv⟩ :=
    (Opened.mapping h ha hbody hb hs hc).closes blanks_nil denoted_null blanks_nil
  exact ⟨colon :: (chars "null" ++ suffix), v, by simpa using hv⟩

end

def TooMany (p : Text) : Prop := ∃ stack, Opened stack p ∧ maxDepth < stack.length

/-- What has been read of a text in each configuration. -/
def Reading (t : Text) : Config → Prop
  | .value stack s => ∃ p, t = p ++ s ∧ Opened stack p
  | .items stack done s => ∃ p a body, t = p ++ (a ++ openBracket :: (body ++ s)) ∧
      Opened stack p ∧ Blanks a ∧ Rounds (Padded Denoted) body done
  | .pairs stack done s => ∃ p a body, t = p ++ (a ++ openBrace :: (body ++ s)) ∧
      Opened stack p ∧ Blanks a ∧ Rounds (Pair Denoted) body done
  | .back stack v s => ∃ p a u, t = p ++ (a ++ (u ++ s)) ∧ Opened stack p ∧ Blanks a ∧ Denoted u v
  | .ended (.ok v) => AnyDocument t v
  | .ended (.error e) => ∃ p, t = p ++ e.rest ∧ Awaits p e.reason.due ∧
      (Fault e ∨ e.reason = .nestingTooDeep ∧ TooMany p)

theorem Config.Moves.reading {t : Text} {c d : Config} (h : Config.Moves c d)
    (hc : Reading t c) : Reading t d := by
  cases h with
  | tooDeep hdepth =>
    obtain ⟨p, rfl, hp⟩ := hc
    have hvalue : Awaits (p ++ []) .value := hp.awaits_value blanks_nil (by simp)
    rw [List.append_nil] at hvalue
    exact ⟨p, rfl, hvalue, .inr ⟨rfl, _, hp, hdepth⟩⟩
  | @openList stack a r _ ha =>
    obtain ⟨p, rfl, hp⟩ := hc
    exact ⟨p, a, [], rfl, hp, ha, .none⟩
  | @openMapping stack a r _ ha =>
    obtain ⟨p, rfl, hp⟩ := hc
    exact ⟨p, a, [], rfl, hp, ha, .none⟩
  | @scalar stack a u r v _ ha hu =>
    obtain ⟨p, rfl, hp⟩ := hc
    exact ⟨p, a, u, rfl, hp, ha, hu⟩
  | @noValue stack a e ha hdue he =>
    obtain ⟨p, rfl, hp⟩ := hc
    exact ⟨p ++ a, by simp, hp.awaits_value ha hdue, .inl he⟩
  | @closeList stack done b r hb =>
    obtain ⟨p, a, body, rfl, hp, ha, hbody⟩ := hc
    have hlist := denoted_list hbody (.empty hb)
    rw [List.append_nil] at hlist
    exact ⟨p, a, _, by simp, hp, ha, hlist⟩
  | @item stack done b r hb =>
    obtain ⟨p, a, body, rfl, hp, ha, hbody⟩ := hc
    exact ⟨_, by simp, .list hp ha hbody hb⟩
  | @closeMapping stack done b r hb =>
    obtain ⟨p, a, body, rfl, hp, ha, hbody⟩ := hc
    have hmapping := denoted_mapping hbody (.empty hb)
    rw [List.append_nil] at hmapping
    exact ⟨p, a, _, by simp, hp, ha, hmapping⟩
  | @field stack done b s c r k hb hs hcolon =>
    obtain ⟨p, a, body, rfl, hp, ha, hbody⟩ := hc
    exact ⟨_, by simp, .mapping hp ha hbody hb hs hcolon⟩
  | @noKey stack done b e hb hdue he =>
    obtain ⟨p, a, body, rfl, hp, ha, hbody⟩ := hc
    refine ⟨p ++ (a ++ openBrace :: (body ++ b)), by simp, ?_, .inl he⟩
    rw [hdue]
    rintro u ⟨k, hu⟩
    simpa using hp.awaits_colon ha hbody hb hu blanks_nil
  | @noColon stack done b s c r k hb hs hcolon he =>
    obtain ⟨p, a, body, rfl, hp, ha, hbody⟩ := hc
    refine ⟨p ++ (a ++ openBrace :: (body ++ (b ++ (s ++ c)))), by simp, ?_, .inl he⟩
    rintro u rfl
    rw [List.append_nil]
    exact hp.awaits_colon ha hbody hb hs hcolon
  | @whole v b hb =>
    obtain ⟨p, a, u, rfl, hp, ha, hu⟩ := hc
    cases hp with
    | start => exact ⟨a, u, b, rfl, ha, hu, hb⟩
  | @trailing v b s hb he =>
    obtain ⟨p, a, u, rfl, hp, ha, hu⟩ := hc
    exact ⟨p ++ (a ++ (u ++ b)), by simp, hp.awaits_separator ha hu hb, .inl he⟩
  | @nextItem stack done v b r hb =>
    obtain ⟨p, a, u, rfl, hp, ha, hu⟩ := hc
    cases hp with
    | list hp ha' hbody hb' =>
      exact ⟨_, _, _, by simp, hp, ha', .more hbody (.mk (hb'.append ha) hu hb)⟩
  | @lastItem stack done v b r hb =>
    obtain ⟨p, a, u, rfl, hp, ha, hu⟩ := hc
    cases hp with
    | list hp ha' hbody hb' =>
      exact ⟨_, _, _, by simp, hp, ha', denoted_list hbody (.last (hb'.append ha) hu hb)⟩
  | @nextField stack done k v b r hb =>
    obtain ⟨p, a, u, rfl, hp, ha, hu⟩ := hc
    cases hp with
    | mapping hp ha' hbody hb' hs hcolon =>
      exact ⟨_, _, _, by simp, hp, ha', .more hbody (.mk hb' hs hcolon ha hu hb)⟩
  | @lastField stack done k v b r hb =>
    obtain ⟨p, a, u, rfl, hp, ha, hu⟩ := hc
    cases hp with
    | mapping hp ha' hbody hb' hs hcolon =>
      exact ⟨_, _, _, by simp, hp, ha',
        denoted_mapping hbody (.last (.mk hb' hs hcolon ha hu hb))⟩
  | @noSeparator stack frame v b s hb he =>
    obtain ⟨p, a, u, rfl, hp, ha, hu⟩ := hc
    exact ⟨p ++ (a ++ (u ++ b)), by simp, hp.awaits_separator ha hu hb, .inl he⟩
  | stay => exact hc

theorem run_reading (t : Text) (n : Nat) : Reading t (Config.run t n) := by
  induction n with
  | zero => exact ⟨[], rfl, .start⟩
  | succ n ih =>
    rw [Config.run_succ]
    exact (Config.step_moves _).reading ih

end Callboard.Literal
