import Callboard.Proofs.Literal.Acceptance
import Mathlib.Logic.Function.Iterate

/-!
# A cursor over the text

The reader as a machine that makes one move at a time. It holds the text that is left
and the lists and mappings that are open, the innermost one first; how many are open is
the depth at which a value lies. The machine counts nothing else, and it comes to what
the reader returns.
-/

set_option autoImplicit false

namespace Callboard.Literal

open Text

/-- A list or a mapping that is open: what is in it already, and in a mapping the key
whose value is due. -/
inductive Frame where
  | list (done : List Value)
  | mapping (done : List (Text × Value)) (key : Text)

def Frame.closer : Frame → CodePoint
  | .list _ => closeBracket
  | .mapping _ _ => closeBrace

/-- What is due: a value, the next turn in a list or in a mapping, or what is to be done
with a value that has been read. -/
inductive Config where
  | value (stack : List Frame) (s : Text)
  | items (stack : List Frame) (done : List Value) (s : Text)
  | pairs (stack : List Frame) (done : List (Text × Value)) (s : Text)
  | back (stack : List Frame) (v : Value) (s : Text)
  | ended (result : Except Stop Value)

namespace Config

def onward {α : Type} (result : Except Stop (α × Text)) (next : α → Text → Config) : Config :=
  match result with
  | .error e => .ended (.error e)
  | .ok (a, rest) => next a rest

def enter (stack : List Frame) (s : Text) : Config :=
  if maxDepth < stack.length then .ended (.error ⟨.nestingTooDeep, s⟩)
  else
    match skipBlank s with
    | [] => .ended (.error ⟨.unexpectedEnd, []⟩)
    | openBracket :: r => .items stack [] r
    | openBrace :: r => .pairs stack [] r
    | quote :: r => onward (readText (quote :: r)) (fun t => .back stack (.text t))
    | s' => onward (readAtom s') (.back stack)

def turnItems (stack : List Frame) (done : List Value) (s : Text) : Config :=
  match skipBlank s with
  | closeBracket :: r => .back stack (.list done) r
  | s' => .value (.list done :: stack) s'

def enterField (stack : List Frame) (done : List (Text × Value)) (k : Text) (s : Text) : Config :=
  match skipBlank s with
  | colon :: r => .value (.mapping done k :: stack) r
  | s' => .ended (.error ⟨.expectedColon, s'⟩)

def turnPairs (stack : List Frame) (done : List (Text × Value)) (s : Text) : Config :=
  match skipBlank s with
  | closeBrace :: r => .back stack (.record (assignAll done)) r
  | quote :: r => onward (readText (quote :: r)) (enterField stack done)
  | s' => .ended (.error ⟨.expectedKey, s'⟩)

/-- A value has been read: it is the whole text, or it goes into the innermost container. -/
def leave : List Frame → Value → Text → Config
  | [], v, s =>
    match skipBlank s with
    | [] => .ended (.ok v)
    | c :: r => .ended (.error ⟨.trailingText, c :: r⟩)
  | .list done :: stack, v, s =>
    onward (readSeparator closeBracket s) (fun more r =>
      if more then .items stack (done ++ [v]) r else .back stack (.list (done ++ [v])) r)
  | .mapping done k :: stack, v, s =>
    onward (readSeparator closeBrace s) (fun more r =>
      if more then .pairs stack (done ++ [(k, v)]) r
      else .back stack (.record (assignAll (done ++ [(k, v)]))) r)

def step : Config → Config
  | .value stack s => enter stack s
  | .items stack done s => turnItems stack done s
  | .pairs stack done s => turnPairs stack done s
  | .back stack v s => leave stack v s
  | .ended result => .ended result

theorem iterate_ended (result : Except Stop Value) (n : Nat) :
    step^[n] (.ended result) = .ended result :=
  Function.iterate_fixed rfl n

def height : Config → Nat
  | .value stack _ | .items stack _ _ | .pairs stack _ _ | .back stack _ _ => stack.length
  | .ended _ => 0

/-- The machine comes from one configuration to another, and on its way at least so many
containers are open. -/
def Reaches (low : Nat) (c d : Config) : Prop :=
  ∃ n, step^[n] c = d ∧ ∀ k < n, low ≤ (step^[k] c).height

theorem Reaches.refl {low : Nat} (c : Config) : Reaches low c c :=
  ⟨0, rfl, fun _ hk => absurd hk (Nat.not_lt_zero _)⟩

theorem Reaches.trans {low : Nat} {c d e : Config} (hcd : Reaches low c d)
    (hde : Reaches low d e) : Reaches low c e := by
  obtain ⟨m, rfl, hm⟩ := hcd
  obtain ⟨n, rfl, hn⟩ := hde
  refine ⟨n + m, Function.iterate_add_apply step n m c, ?_⟩
  intro k hk
  by_cases hkm : k < m
  · exact hm k hkm
  · obtain ⟨j, rfl⟩ : ∃ j, k = j + m := ⟨k - m, by omega⟩
    rw [Function.iterate_add_apply]
    exact hn j (by omega)

theorem Reaches.mono {low high : Nat} (hle : low ≤ high) {c d : Config}
    (h : Reaches high c d) : Reaches low c d := by
  obtain ⟨n, hn, habove⟩ := h
  exact ⟨n, hn, fun k hk => Nat.le_trans hle (habove k hk)⟩

theorem reaches_step (c : Config) : Reaches c.height c (step c) := by
  refine ⟨1, rfl, ?_⟩
  intro k hk
  obtain rfl : k = 0 := by omega
  exact Nat.le_refl _

theorem Reaches.ended_eq {low : Nat} {c : Config} {result : Except Stop Value}
    (h : Reaches low c (.ended result)) {n : Nat} {other : Except Stop Value}
    (hn : step^[n] c = .ended other) : other = result := by
  obtain ⟨m, hm, -⟩ := h
  have hlong : step^[m + n] c = .ended other := by
    rw [Function.iterate_add_apply, hn, iterate_ended]
  rw [Nat.add_comm, Function.iterate_add_apply, hm, iterate_ended] at hlong
  cases hlong
  rfl

section
variable {read : Text → Except Stop (Value × Text)} {D : Text → Value → Prop} {stack : List Frame}

theorem round_shorter (hsound : Sound read D) {s r r' : Text} {v : Value} {closer : CodePoint}
    {more : Bool} (hv : read s = .ok (v, r)) (hsep : readSeparator closer r = .ok (more, r')) :
    r'.length < s.length := by
  obtain ⟨a, t, -, -, rfl⟩ := hsound _ _ _ hv
  obtain ⟨b, -, rfl⟩ := readSeparator_sound hsep
  simp only [List.length_append, List.length_cons]
  omega

theorem readText_shorter {r rest t : Text} (h : readText (quote :: r) = .ok (t, rest)) :
    rest.length ≤ r.length := by
  obtain ⟨token, ⟨body, rfl, -⟩, hr⟩ := readText_eq_ok_iff.mp h
  have hlength := congrArg List.length hr
  simp only [List.length_append, List.length_cons] at hlength
  omega

/-- With this stack the machine reads values as `read` does, and goes on with them. -/
def Follows (read : Text → Except Stop (Value × Text)) (stack : List Frame) : Prop :=
  ∀ s, Reaches stack.length (.value stack s) (onward (read s) (.back stack))

theorem Follows.leave (hread : Follows read stack) (s : Text) :
    Reaches stack.length (.value stack s) (onward (read s) (leave stack)) := by
  apply (hread s).trans
  cases read s with
  | error e => exact .refl _
  | ok p => exact reaches_step (.back stack p.1 p.2)

def itemTurn (read : Text → Except Stop (Value × Text)) (stack : List Frame) (done : List Value)
    (s : Text) : Config :=
  match skipBlank s with
  | closeBracket :: r => .back stack (.list done) r
  | s' => onward (read s') (leave (.list done :: stack))

theorem itemTurn_closed {done : List Value} {s r : Text} (hs : skipBlank s = closeBracket :: r) :
    itemTurn read stack done s = .back stack (.list done) r := by
  rw [itemTurn, hs]
  rfl

theorem itemTurn_open {done : List Value} {s : Text} (hs : ∀ r, skipBlank s ≠ closeBracket :: r) :
    itemTurn read stack done s = onward (read (skipBlank s)) (leave (.list done :: stack)) := by
  unfold itemTurn
  split
  · next r hr => exact absurd hr (hs r)
  · rfl

theorem items_turn {done : List Value} (hread : Follows read (.list done :: stack)) (s : Text) :
    Reaches (stack.length + 1) (step (.items stack done s)) (itemTurn read stack done s) := by
  show Reaches _ (turnItems stack done s) _
  unfold turnItems itemTurn
  split
  · exact .refl _
  · exact hread.leave _

theorem items_reaches (hsound : Sound read D) (hread : ∀ done, Follows read (.list done :: stack))
    {fuel : Nat} {s : Text} (hfuel : s.length < fuel) (done : List Value) :
    Reaches stack.length (.items stack done s)
      (onward (readItems read fuel s) (fun vs => .back stack (.list (done ++ vs)))) := by
  induction fuel generalizing s done with
  | zero => omega
  | succ fuel ih =>
    have hskip := skipBlank_length_le s
    apply (reaches_step (.items stack done s)).trans
    apply ((items_turn (hread done) s).mono (Nat.le_succ _)).trans
    by_cases hclosed : ∃ r, skipBlank s = closeBracket :: r
    · obtain ⟨r, hr⟩ := hclosed
      rw [itemTurn_closed hr, readItems, hr]
      simp only [onward, List.append_nil]
      exact .refl _
    · have hopen : ∀ r, skipBlank s ≠ closeBracket :: r := fun r hr => hclosed ⟨r, hr⟩
      rw [itemTurn_open hopen, readItems_item rfl hopen]
      cases hv : read (skipBlank s) with
      | error e => exact .refl _
      | ok p =>
      obtain ⟨v, r⟩ := p
      simp only [onward, Config.leave]
      cases hsep : readSeparator closeBracket r with
      | error e => exact .refl _
      | ok q =>
      obtain ⟨more, r'⟩ := q
      cases more with
      | false => exact .refl _
      | true =>
        have hshort := round_shorter hsound hv hsep
        have hrest := ih (s := r') (by omega) (done ++ [v])
        cases hitems : readItems read fuel r' <;> simpa [hitems, onward] using hrest

def fieldTurn (read : Text → Except Stop (Value × Text)) (stack : List Frame)
    (done : List (Text × Value)) (k : Text) (s : Text) : Config :=
  match skipBlank s with
  | colon :: r => onward (read r) (leave (.mapping done k :: stack))
  | s' => .ended (.error ⟨.expectedColon, s'⟩)

def pairTurn (read : Text → Except Stop (Value × Text)) (stack : List Frame)
    (done : List (Text × Value)) (s : Text) : Config :=
  match skipBlank s with
  | closeBrace :: r => .back stack (.record (assignAll done)) r
  | quote :: r => onward (readText (quote :: r)) (fieldTurn read stack done)
  | s' => .ended (.error ⟨.expectedKey, s'⟩)

theorem pairs_turn {done : List (Text × Value)}
    (hread : ∀ k, Follows read (.mapping done k :: stack)) (s : Text) :
    Reaches (stack.length + 1) (step (.pairs stack done s)) (pairTurn read stack done s) := by
  show Reaches _ (turnPairs stack done s) _
  unfold turnPairs pairTurn
  split
  · exact .refl _
  · next r _ =>
    cases readText (quote :: r) with
    | error e => exact .refl _
    | ok p =>
      obtain ⟨k, r₁⟩ := p
      simp only [onward, enterField, fieldTurn]
      split
      · exact (hread k).leave _
      · exact .refl _
  · exact .refl _

theorem pairs_reaches (hsound : Sound read D)
    (hread : ∀ done k, Follows read (.mapping done k :: stack)) {fuel : Nat} {s : Text}
    (hfuel : s.length < fuel) (done : List (Text × Value)) :
    Reaches stack.length (.pairs stack done s)
      (onward (readPairs read fuel s)
        (fun ps => .back stack (.record (assignAll (done ++ ps))))) := by
  induction fuel generalizing s done with
  | zero => omega
  | succ fuel ih =>
    have hskip := skipBlank_length_le s
    apply (reaches_step (.pairs stack done s)).trans
    apply ((pairs_turn (hread done) s).mono (Nat.le_succ _)).trans
    unfold pairTurn readPairs
    cases hs : skipBlank s with
    | nil => exact .refl _
    | cons c r =>
    rw [hs, List.length_cons] at hskip
    by_cases hclosed : c = closeBrace
    · subst hclosed
      simp only [onward, List.append_nil]
      exact .refl _
    by_cases hquote : c = quote
    · subst hquote
      simp only
      cases htext : readText (quote :: r) with
      | error e => exact .refl _
      | ok p =>
      obtain ⟨k, r₁⟩ := p
      simp only [onward, fieldTurn]
      cases hr₁ : skipBlank r₁ with
      | nil => exact .refl _
      | cons d r₂ =>
      by_cases hcolon : d = colon
      · subst hcolon
        simp only
        cases hv : read r₂ with
        | error e => exact .refl _
        | ok p =>
        obtain ⟨v, r₃⟩ := p
        simp only [Config.leave]
        cases hsep : readSeparator closeBrace r₃ with
        | error e => exact .refl _
        | ok q =>
        obtain ⟨more, r₄⟩ := q
        cases more with
        | false => exact .refl _
        | true =>
          have htoken := readText_shorter htext
          have hblank := skipBlank_length_le r₁
          have hround := round_shorter hsound hv hsep
          rw [hr₁, List.length_cons] at hblank
          have hrest := ih (s := r₄) (by omega) (done ++ [(k, v)])
          cases hpairs : readPairs read fuel r₄ <;> simpa [hpairs, onward] using hrest
      · simp [hcolon]
        exact .refl _
    · simp [hclosed, hquote, onward]
      exact .refl _

end

/-- With as many levels left as the open containers leave, the machine reads values as the
reader does. -/
theorem follows_readValue {levels : Nat} {stack : List Frame}
    (h : stack.length + levels = maxDepth + 1) : Follows (readValue levels) stack := by
  induction levels generalizing stack with
  | zero =>
    intro s
    have hstep : step (.value stack s) = .ended (.error ⟨.nestingTooDeep, s⟩) :=
      if_pos (by omega)
    have hreaches := reaches_step (.value stack s)
    rwa [hstep] at hreaches
  | succ levels ih =>
    intro s
    apply (reaches_step (.value stack s)).trans
    show Reaches stack.length (enter stack s) _
    unfold enter readValue
    rw [if_neg (by omega)]
    have hsound := readValue_sound levels
    cases skipBlank s with
    | nil => exact .refl _
    | cons c r =>
    by_cases hlist : c = openBracket
    · subst hlist
      have hread : ∀ done, Follows (readValue levels) (.list done :: stack) := fun done =>
        ih (by rw [List.length_cons]; omega)
      have hitems := items_reaches hsound hread (Nat.lt_succ_self r.length) []
      cases hr : readItems (readValue levels) (r.length + 1) r <;>
        simpa [hr, onward] using hitems
    by_cases hmapping : c = openBrace
    · subst hmapping
      have hread : ∀ done k, Follows (readValue levels) (.mapping done k :: stack) :=
        fun done k => ih (by rw [List.length_cons]; omega)
      have hpairs := pairs_reaches hsound hread (Nat.lt_succ_self r.length) []
      cases hr : readPairs (readValue levels) (r.length + 1) r <;>
        simpa [hr, onward] using hpairs
    by_cases hquote : c = quote
    · subst hquote
      cases hr : readText (quote :: r) <;> simpa [hr, onward] using Reaches.refl _
    · simpa [hlist, hmapping, hquote] using Reaches.refl _

theorem reaches_readWhole (t : Text) : Reaches 0 (.value [] t) (.ended (readWhole t)) := by
  have hfollows : Follows (readValue (maxDepth + 1)) [] := follows_readValue (Nat.zero_add _)
  apply (hfollows.leave t).trans
  unfold readWhole
  cases hv : readValue (maxDepth + 1) t with
  | error e => exact .refl _
  | ok p =>
    obtain ⟨v, rest⟩ := p
    simp only [onward, Config.leave]
    cases skipBlank rest <;> exact .refl _

def run (t : Text) (n : Nat) : Config := step^[n] (.value [] t)

theorem run_succ (t : Text) (n : Nat) : run t (n + 1) = step (run t n) :=
  Function.iterate_succ_apply' step n _

end Config

end Callboard.Literal
