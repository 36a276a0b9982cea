import Callboard.Proofs.Dispatch.Account
import Callboard.Proofs.Dispatch.Reference
import Callboard.Proofs.Invocation.Canonical

/-!
# Lenience

What the argument policy decides. Where all arguments can be decoded, those of the targets
that handlers execute included, the policies do the same. Where those of a target cannot be
decoded, the strict policy calls nobody, and the lenient one makes the call that the name
of the task with empty parentheses makes.
-/

set_option autoImplicit false

namespace Callboard

open Text

/-- Every target that the script executes along its run has the property, in the world that
it is executed in. -/
def Script.Meets (execute : Text → World → World × Answer) (P : Text → World → Prop) :
    Script → World → Prop
  | .complete _, _ => True
  | .fail _, _ => True
  | .pause next, w => next.Meets execute P w
  | .note n next, w => next.Meets execute P (w.note n)
  | .emit r next, w => next.Meets execute P (w.emit [r])
  | .visit k next, w => (next (w.visited k)).Meets execute P (w.visit k)
  | .register name description handler next, w =>
    next.Meets execute P (w.register ⟨name, description, handler⟩)
  | .execute target next, w =>
    P target w ∧
      match execute target w with
      | (w, .outcome o) => (next o.success).Meets execute P w
      | (_, .escaped _) => True

theorem Script.Meets.run_eq {execute other : Text → World → World × Answer}
    {P : Text → World → Prop} (h : ∀ target w, P target w → other target w = execute target w)
    {s : Script} {w : World} (hs : s.Meets execute P w) : s.run other w = s.run execute w := by
  induction s generalizing w with
  | complete v => rfl
  | fail f => rfl
  | pause next ih => exact ih hs
  | note n next ih => exact ih hs
  | emit r next ih => exact ih hs
  | visit k next ih => exact ih _ hs
  | register name description handler next _ ih => exact ih hs
  | execute target next ih =>
    rw [Meets] at hs
    obtain ⟨htarget, hnext⟩ := hs
    rw [run, run, h target w htarget]
    cases hanswer : execute target w with | mk w' a =>
    cases a with
    | outcome o =>
      rw [hanswer] at hnext
      exact ih _ hnext
    | escaped f => rfl

namespace Dispatch

def Legible (target : Text) : Prop :=
  ∀ i, Invocation.parse? target = some i → ∃ args, Invocation.decode i.arguments = .ok args

/-- The target is legible, and so are the targets that its handler executes on its way, and
those that their handlers execute. -/
def LegibleThroughout (policy : Policy) : Nat → Text → World → Prop
  | 0, _, _ => True
  | depth + 1, target, w =>
    Legible target ∧ ∀ handler args,
      (course policy (executeWithin policy depth) target w).invoked = some (handler, args) →
        (handler args).Meets (executeWithin policy depth) (LegibleThroughout policy depth)
          w.unlogged

theorem legible_of_parse {target : Text} {i : Invocation} {args : List Value}
    (hp : Invocation.parse? target = some i) (hd : Invocation.decode i.arguments = .ok args) :
    Legible target := by
  intro j hj
  rw [hp] at hj
  obtain rfl := Option.some.inj hj
  exact ⟨args, hd⟩

theorem Legible.enter_eq {η : Type} {target : Text} (h : Legible target) (policy other : Policy)
    (registry : Registry η) : enter other registry target = enter policy registry target := by
  unfold enter
  cases hp : Invocation.parse? target with
  | none => rfl
  | some i =>
    obtain ⟨args, hargs⟩ := h i hp
    simp only [hargs]

theorem Legible.course_eq {target : Text} (h : Legible target) (policy other : Policy)
    (inner : Text → World → World × Answer) (w : World) :
    course other inner target w = course policy inner target w := by
  rw [course, course, h.enter_eq policy other]

theorem course_congr {policy : Policy} {inner other : Text → World → World × Answer}
    {target : Text} {w : World}
    (h : ∀ handler args, (course policy inner target w).invoked = some (handler, args) →
      (handler args).run other w.unlogged = (handler args).run inner w.unlogged) :
    course policy other target w = course policy inner target w := by
  cases he : enter policy w.registry target with | mk entry rs =>
  cases entry with
  | refused o => rw [course_refused _ w he, course_refused _ w he]
  | admitted c handler =>
    have hinvoked : (course policy inner target w).invoked = some (handler, c.arguments) := by
      rw [course_admitted inner w he]
    rw [course_admitted _ w he, course_admitted _ w he, h handler c.arguments hinvoked]

section
variable {policy : Policy} {depth : Nat} {target : Text} {w : World}

theorem LegibleThroughout.course_eq (h : LegibleThroughout policy (depth + 1) target w)
    {other : Policy} (hinner : ∀ target w, LegibleThroughout policy depth target w →
      executeWithin other depth target w = executeWithin policy depth target w) :
    course other (executeWithin other depth) target w =
      course policy (executeWithin policy depth) target w := by
  rw [h.1.course_eq policy other]
  exact course_congr fun handler args hinvoked => (h.2 handler args hinvoked).run_eq hinner

theorem LegibleThroughout.executeWithin_eq (h : LegibleThroughout policy depth target w)
    (other : Policy) : executeWithin other depth target w = executeWithin policy depth target w := by
  induction depth generalizing target w with
  | zero => rfl
  | succ depth ih =>
    -- what is below is executed under the other policy too, but only met where it is legible
    rw [executeWithin_course, executeWithin_course, h.course_eq fun _ _ => ih]

end

def aimed (target : Text) (r : Log.Record) : Log.Record :=
  ⟨r.level, r.logger, r.message,
    r.fields.map (fun f => if f.1 = Log.invokeTargetKey then (f.1, .text target) else f), r.failure⟩

def withoutArguments (target : Text) : Answer → Answer
  | .outcome o =>
    .outcome ⟨target, o.state, o.taskName, o.arguments, o.errorCode, some argumentErrorCode⟩
  | .escaped f => .escaped f

/-- The first course is that of the target and does what the second does, without arguments.
It differs in the target it is about, in that the arguments were left out, and in an error
that says so before anything else. -/
structure MadeWithout (target : Text) (k k' : Course) : Prop where
  before : ∃ r, k.before = r :: k'.before.map (aimed target) ∧
    Blames (nameOf? target) target (chars "ARGUMENT_DECODE_ERROR") none r
  invoked : k.invoked = k'.invoked
  empty : ∀ handler args, k.invoked = some (handler, args) → args = []
  left : k.left = k'.left
  failure : k.failure = k'.failure
  after : k.after = k'.after.map (aimed target)
  answer : k.answer = withoutArguments target k'.answer

theorem settle_withoutArguments (target other name : Text) (result : Except Failure Value) :
    (Call.settle ⟨target, name, [], true⟩ result).1 =
        withoutArguments target (Call.settle ⟨other, name, [], false⟩ result).1 ∧
      (Call.settle ⟨target, name, [], true⟩ result).2 =
        (Call.settle ⟨other, name, [], false⟩ result).2.map (aimed target) := by
  cases result with
  | ok v => exact ⟨rfl, rfl⟩
  | error f =>
    rw [Call.settle, Call.settle]
    split
    · exact ⟨rfl, rfl⟩
    · exact ⟨rfl, rfl⟩

section
variable {target name : Text} {raw : Option Text} {e : Literal.DecodeError}

theorem enter_leftOut {η : Type} (registry : Registry η)
    (hp : Invocation.parse? target = some ⟨name, raw⟩) (hd : Invocation.decode raw = .error e) :
    enter .lenient registry target =
      ((Call.entry registry ⟨target, name, [], true⟩).1,
        fallbackRecord e name target :: (Call.entry registry ⟨target, name, [], true⟩).2) := by
  rw [enter, hp]
  simp only [hd]

theorem parse?_emptied (hp : Invocation.parse? target = some ⟨name, raw⟩) :
    Invocation.parse? (name ++ chars "()") = some ⟨name, some []⟩ := by
  obtain ⟨hne, hparen, hfirst⟩ := Invocation.parse?_name hp
  have hcall : Invocation.parse? (name ++ [openParen] ++ [] ++ [closeParen]) =
      some ⟨name, some []⟩ := Invocation.parse?_call hne hparen hfirst List.not_mem_nil
  have hassoc : name ++ [openParen] ++ [] ++ [closeParen] = name ++ chars "()" := by
    rw [List.append_nil, List.append_assoc]
    rfl
  rwa [hassoc] at hcall

theorem enter_emptied {η : Type} (policy : Policy) (registry : Registry η)
    (hp : Invocation.parse? target = some ⟨name, raw⟩) :
    enter policy registry (name ++ chars "()") =
      Call.entry registry ⟨name ++ chars "()", name, [], false⟩ := by
  rw [enter, parse?_emptied hp]
  rfl

theorem course_madeWithout (inner : Text → World → World × Answer) (w : World)
    (hp : Invocation.parse? target = some ⟨name, raw⟩) (hd : Invocation.decode raw = .error e) :
    MadeWithout target (course .lenient inner target w)
      (course .lenient inner (name ++ chars "()") w) := by
  have hleft := enter_leftOut w.registry hp hd
  have hemptied := enter_emptied .lenient w.registry hp
  have hblames : Blames (nameOf? target) target (chars "ARGUMENT_DECODE_ERROR") none
      (fallbackRecord e name target) := by
    rw [nameOf?, hp]
    exact ⟨rfl, rfl, rfl, rfl⟩
  cases hl : w.registry.lookup name with
  | none =>
    simp only [Call.entry, hl] at hleft hemptied
    rw [course_refused inner w hleft, course_refused inner w hemptied]
    exact ⟨⟨_, rfl, hblames⟩, rfl, fun _ _ h => (by cases h), rfl, rfl, rfl, rfl⟩
  | some t =>
    simp only [Call.entry, hl] at hleft hemptied
    rw [course_admitted inner w hleft, course_admitted inner w hemptied]
    obtain ⟨hanswer, hafter⟩ := settle_withoutArguments target (name ++ chars "()") name
      ((t.handler []).run inner w.unlogged).2
    exact ⟨⟨_, rfl, hblames⟩, rfl, fun _ _ h => (by cases h; rfl), rfl, rfl, hafter, hanswer⟩

theorem course_undecodable (inner : Text → World → World × Answer) (w : World)
    (hp : Invocation.parse? target = some ⟨name, raw⟩) (hd : Invocation.decode raw = .error e) :
    ∃ r, Blames (some name) target (chars "ARGUMENT_DECODE_ERROR") none r ∧
      course .strict inner target w = ⟨[r], none, w.unlogged, none, [],
        .outcome ⟨target, .parseFailed, some name, [], some (chars "ARGUMENT_DECODE_ERROR"), none⟩⟩ :=
  ⟨failureRecord (undecodable e) (some name) target none, ⟨rfl, rfl, rfl, rfl⟩,
    course_refused inner w (enter_undecodable w.registry hp hd)⟩

end

/-- What the argument policy decides. Where a target is legible throughout, every policy does
the same; a legible target takes the same course in any case, as far as it is not a matter
of what its handler executes. Where the arguments of a target cannot be decoded, the strict
policy notes that and calls nobody, and the lenient one does what it does for the name of
the task with empty parentheses, without any of the arguments. -/
theorem policy_decides (depth : Nat) (target : Text) (w : World) :
    (∀ policy other, LegibleThroughout policy (depth + 1) target w →
      executeWithin other (depth + 1) target w = executeWithin policy (depth + 1) target w ∧
        course other (executeWithin other depth) target w =
          course policy (executeWithin policy depth) target w) ∧
    (Legible target → ∀ policy other inner,
      course other inner target w = course policy inner target w) ∧
    ∀ name raw e, Invocation.parse? target = some ⟨name, raw⟩ → Invocation.decode raw = .error e →
      (∃ r, Blames (some name) target (chars "ARGUMENT_DECODE_ERROR") none r ∧
        (course .strict (executeWithin .strict depth) target w).invoked = none ∧
        executeWithin .strict (depth + 1) target w = (w.emit [r],
          .outcome ⟨target, .parseFailed, some name, [], some (chars "ARGUMENT_DECODE_ERROR"),
            none⟩)) ∧
      ∃ k k', k = course .lenient (executeWithin .lenient depth) target w ∧
        executeWithin .lenient (depth + 1) target w = (k.world w, k.answer) ∧
        k' = course .lenient (executeWithin .lenient depth) (name ++ chars "()") w ∧
        executeWithin .lenient (depth + 1) (name ++ chars "()") w = (k'.world w, k'.answer) ∧
        MadeWithout target k k' := by
  refine ⟨fun policy other h => ?_, fun h policy other inner => h.course_eq policy other inner w,
    fun name raw e hp hd => ⟨?_, ?_⟩⟩
  · exact ⟨h.executeWithin_eq other, h.course_eq fun _ _ hinner => hinner.executeWithin_eq other⟩
  · obtain ⟨r, hr, hcourse⟩ := course_undecodable (executeWithin .strict depth) w hp hd
    refine ⟨r, hr, by rw [hcourse], ?_⟩
    rw [executeWithin_course, hcourse, Course.world, World.emit_nil, World.emit_eq_behind]
  · exact ⟨_, _, rfl, executeWithin_course _ _ _ _, rfl, executeWithin_course _ _ _ _,
      course_madeWithout _ w hp hd⟩

def relays : World := .ofRegistry ⟨[
  ⟨chars "errand", [], fun args =>
    .note ⟨chars "call", chars "errand", args⟩ (.complete .null)⟩,
  ⟨chars "relay", [], fun args =>
    .note ⟨chars "call", chars "relay", args⟩ (.execute (chars "errand([)") fun success =>
      .note ⟨chars "inner", chars "relay", [.bool success]⟩ (.complete .null))⟩]⟩

theorem errand_legible (policy : Policy) (depth : Nat) :
    LegibleThroughout policy (depth + 1) (chars "errand") relays := by
  have hparse : Invocation.parse? (chars "errand") = some ⟨chars "errand", none⟩ := by decide
  refine ⟨legible_of_parse hparse rfl, fun handler args h => ?_⟩
  cases h
  exact True.intro

theorem policy_decides_errand :
    LegibleThroughout .lenient (nestingLimit - 1 + 1) (chars "errand") relays ∧
      execute .strict (chars "errand") relays = execute .lenient (chars "errand") relays ∧
      course .strict (executeWithin .strict 0) (chars "errand") relays =
        course .lenient (executeWithin .strict 0) (chars "errand") relays ∧
      ∃ e, Invocation.parse? (chars "errand([)") = some ⟨chars "errand", some (chars "[")⟩ ∧
        Invocation.decode (some (chars "[")) = .error e ∧
        (∃ r, Blames (some (chars "errand")) (chars "errand([)") (chars "ARGUMENT_DECODE_ERROR")
            none r ∧
          execute .strict (chars "errand([)") relays = (relays.emit [r],
            .outcome ⟨chars "errand([)", .parseFailed, some (chars "errand"), [],
              some (chars "ARGUMENT_DECODE_ERROR"), none⟩)) ∧
        ∃ k k', execute .lenient (chars "errand([)") relays = (k.world relays, k.answer) ∧
          execute .lenient (chars "errand()") relays = (k'.world relays, k'.answer) ∧
          MadeWithout (chars "errand([)") k k' := by
  have hlegible := errand_legible .lenient (nestingLimit - 1)
  obtain ⟨hthroughout, hown, -⟩ := policy_decides (nestingLimit - 1) (chars "errand") relays
  obtain ⟨-, -, hundecodable⟩ := policy_decides (nestingLimit - 1) (chars "errand([)") relays
  have hparse : Invocation.parse? (chars "errand([)") =
      some ⟨chars "errand", some (chars "[")⟩ := by decide
  have hdecode : ∃ e, Invocation.decode (some (chars "[")) = .error e := ⟨_, rfl⟩
  obtain ⟨e, hdecode⟩ := hdecode
  obtain ⟨⟨r, hr, -, hstrict⟩, k, k', -, hk, -, hk', hmade⟩ :=
    hundecodable _ _ e hparse hdecode
  exact ⟨hlegible, (hthroughout .lenient .strict hlegible).1,
    hown hlegible.1 .lenient .strict (executeWithin .strict 0), e, hparse, hdecode,
    ⟨r, hr, hstrict⟩, k, k', hk, hk', hmade⟩

/-- What `relay` comes to is decided by the policy, though it has no arguments. -/
theorem relay_by_policy :
    Legible (chars "relay") ∧
      (execute .strict (chars "relay") relays).1.notes = [
        ⟨chars "call", chars "relay", []⟩, ⟨chars "inner", chars "relay", [.bool false]⟩] ∧
      (execute .lenient (chars "relay") relays).1.notes = [
        ⟨chars "call", chars "relay", []⟩, ⟨chars "call", chars "errand", []⟩,
        ⟨chars "inner", chars "relay", [.bool true]⟩] ∧
      (execute .strict (chars "relay") relays).1.notes ≠
        (execute .lenient (chars "relay") relays).1.notes := by
  have hstrict : (execute .strict (chars "relay") relays).1.notes = [
      ⟨chars "call", chars "relay", []⟩, ⟨chars "inner", chars "relay", [.bool false]⟩] := rfl
  have hlenient : (execute .lenient (chars "relay") relays).1.notes = [
      ⟨chars "call", chars "relay", []⟩, ⟨chars "call", chars "errand", []⟩,
      ⟨chars "inner", chars "relay", [.bool true]⟩] := rfl
  have hparse : Invocation.parse? (chars "relay") = some ⟨chars "relay", none⟩ := by decide
  refine ⟨legible_of_parse hparse rfl, hstrict, hlenient, fun h => ?_⟩
  -- one list is longer than the other
  have hlength := congrArg List.length h
  rw [hstrict, hlenient] at hlength
  cases hlength

end Dispatch

end Callboard
