import Callboard.Proofs.Dispatch.Course
import Callboard.Proofs.Dispatch.Ledger

/-!
# The account of a call

What the dispatcher notes about a call is decided by how the call ends. If its arguments
are left out there is an error about them first. Then a call that is refused has one error
and nothing else, and every other call one note that it is made and one that it is
completed or has failed.
-/

set_option autoImplicit false

namespace Callboard

def Answer.unsuccessful : Answer → Bool
  | .outcome o => !o.success
  | .escaped _ => false

theorem Answer.unsuccessful_outcome (o : Outcome) :
    (Answer.outcome o).unsuccessful = true ↔ o.state ≠ .completed := by
  simp [unsuccessful, Outcome.success]

namespace Dispatch

def isError (r : Log.Record) : Bool := r.logger == logger && r.level == Log.Level.error

structure Blames (taskName : Option Text) (target code : Text) (failure : Option Failure)
    (r : Log.Record) : Prop where
  logger : r.logger = logger
  level : r.level = Log.Level.error
  fields : r.fields = [(Log.taskNameKey, .ofText? taskName), (Log.invokeTargetKey, .text target),
    (Log.errorCodeKey, .text code)]
  failure : r.failure = failure

structure Informs (words : Text) (r : Log.Record) : Prop where
  logger : r.logger = logger
  level : r.level = Log.Level.info
  message : ∃ rest, r.message = words ++ rest
  failure : r.failure = none

def executingWords : Text := chars "Executing task: "

def completedWords : Text := chars "Task completed: "

def nameOf? (target : Text) : Option Text := (Invocation.parse? target).map Invocation.name

/-- Whether a call of the target is made without the arguments that it has. -/
def fallsBack (policy : Policy) (target : Text) : Bool :=
  match Invocation.parse? target with
  | none => false
  | some i =>
    match Invocation.decode i.arguments, policy with
    | .error _, .lenient => true
    | _, _ => false

inductive Front (policy : Policy) (target : Text) : List Log.Record → Prop where
  | taken (h : fallsBack policy target = false) : Front policy target []
  | leftOut {r : Log.Record} (h : fallsBack policy target = true)
      (hr : Blames (nameOf? target) target (chars "ARGUMENT_DECODE_ERROR") none r) :
      Front policy target [r]

structure Own (policy : Policy) (target : Text) (o : Outcome) : Prop where
  about : o.target = target
  named : o.taskName = nameOf? target
  unnamed : o.taskName = none ↔ o.errorCode = some (chars "INVALID_INVOCATION")
  leftOut : o.argumentError =
    if fallsBack policy target then some (chars "ARGUMENT_DECODE_ERROR") else none

/-- What the dispatcher itself notes about a call of the target, given what the handler failed
with and what the call answers. -/
inductive Accounts (policy : Policy) (target : Text) :
    Option Failure → List Log.Record → Answer → Prop where
  | refused {o : Outcome} {front : List Log.Record} {r : Log.Record} {code : Text}
      (hf : Front policy target front) (ho : Own policy target o)
      (hs : o.state = .parseFailed ∨ o.state = .notFound) (hc : o.errorCode = some code)
      (hr : Blames o.taskName target code none r) :
      Accounts policy target none (front ++ [r]) (.outcome o)
  | faulted {o : Outcome} {front : List Log.Record} {i r : Log.Record} {f : Failure}
      (hf : Front policy target front) (ho : Own policy target o) (hs : o.state = .faulted)
      (hc : o.errorCode = some (chars "TASK_FAILED")) (hi : Informs executingWords i)
      (hr : Blames o.taskName target (chars "TASK_FAILED") (some f) r) :
      Accounts policy target (some f) (front ++ [i, r]) (.outcome o)
  | completed {o : Outcome} {front : List Log.Record} {i j : Log.Record}
      (hf : Front policy target front) (ho : Own policy target o) (hs : o.state = .completed)
      (hc : o.errorCode = none) (hi : Informs executingWords i) (hj : Informs completedWords j) :
      Accounts policy target none (front ++ [i, j]) (.outcome o)
  | escaped {front : List Log.Record} {i : Log.Record} {f : Failure}
      (hf : Front policy target front) (hi : Informs executingWords i) (h : f.ordinary = false) :
      Accounts policy target (some f) (front ++ [i]) (.escaped f)

theorem failureRecord_blames (p : Problem) (taskName : Option Text) (target : Text)
    (failure : Option Failure) :
    Blames taskName target p.code failure (failureRecord p taskName target failure) :=
  ⟨rfl, rfl, rfl, rfl⟩

theorem executingRecord_informs (c : Call) : Informs executingWords (executingRecord c) :=
  ⟨rfl, rfl, ⟨_, rfl⟩, rfl⟩

theorem completedRecord_informs (c : Call) : Informs completedWords (completedRecord c) :=
  ⟨rfl, rfl, ⟨_, rfl⟩, rfl⟩

section
variable {policy : Policy} {target : Text}

structure Calls (policy : Policy) (target : Text) (c : Call) : Prop where
  about : c.target = target
  named : nameOf? target = some c.task
  leftOut : c.fallback = fallsBack policy target

theorem Calls.own {c : Call} (hc : Calls policy target c) (state : State) {code : Option Text}
    (h : code ≠ some (chars "INVALID_INVOCATION")) : Own policy target (c.outcome state code) := by
  refine ⟨hc.about, hc.named.symm, ⟨?_, fun hcode => absurd hcode h⟩, ?_⟩
  · rintro ⟨⟩
  · rw [← hc.leftOut]
    rfl

theorem refusal_accounts {p : Problem} {name : Option Text} (hname : nameOf? target = name)
    (hfalls : fallsBack policy target = false)
    (hcode : name = none ↔ p.code = chars "INVALID_INVOCATION") :
    Accounts policy target none [failureRecord p name target none]
      (.outcome (refusal p name target)) := by
  have hown : Own policy target (refusal p name target) := by
    refine ⟨rfl, hname.symm, hcode.trans (Option.some_inj).symm, ?_⟩
    rw [hfalls]
    rfl
  exact .refused (.taken hfalls) hown (.inl rfl) rfl (failureRecord_blames _ _ _ _)

/-- A target is refused at once, or it comes to a call whose task is looked up. The registry is
not asked before that. -/
theorem enter_cases (η : Type) (policy : Policy) (target : Text) :
    (∃ o rs, Accounts policy target none rs (.outcome o) ∧
      ∀ registry : Registry η, enter policy registry target = (.refused o, rs)) ∨
    ∃ c front, Calls policy target c ∧ Front policy target front ∧
      ∀ registry : Registry η, enter policy registry target =
        ((c.entry registry).1, front ++ (c.entry registry).2) := by
  cases hp : Invocation.parse? target with
  | none =>
    have hname : nameOf? target = none := by rw [nameOf?, hp]; rfl
    have hfalls : fallsBack policy target = false := by rw [fallsBack, hp]
    exact .inl ⟨_, _, refusal_accounts hname hfalls ⟨fun _ => rfl, fun _ => rfl⟩,
      fun registry => by rw [enter, hp]⟩
  | some i =>
    have hname : nameOf? target = some i.name := by rw [nameOf?, hp]; rfl
    cases hd : Invocation.decode i.arguments with
    | ok args =>
      have hfalls : fallsBack policy target = false := by rw [fallsBack, hp]; simp only [hd]
      refine .inr ⟨⟨target, i.name, args, false⟩, [], ⟨rfl, hname, hfalls.symm⟩, .taken hfalls,
        fun registry => ?_⟩
      rw [enter, hp]
      simp only [hd, List.nil_append]
    | error e =>
      cases policy with
      | lenient =>
        have hfalls : fallsBack .lenient target = true := by rw [fallsBack, hp]; simp only [hd]
        refine .inr ⟨⟨target, i.name, [], true⟩, [fallbackRecord e i.name target],
          ⟨rfl, hname, hfalls.symm⟩, .leftOut hfalls ?_, fun registry => ?_⟩
        · rw [hname]
          exact ⟨rfl, rfl, rfl, rfl⟩
        · rw [enter, hp]
          simp only [hd, List.singleton_append]
      | strict =>
        have hfalls : fallsBack .strict target = false := by rw [fallsBack, hp]; simp only [hd]
        have hcode : (undecodable e).code ≠ chars "INVALID_INVOCATION" := by
          show chars "ARGUMENT_DECODE_ERROR" ≠ _
          decide
        refine .inl ⟨_, _,
          refusal_accounts hname hfalls ⟨fun h => (by cases h), fun h => absurd h hcode⟩,
          fun registry => ?_⟩
        rw [enter, hp]
        simp only [hd]

theorem enter_refused_accounts {η : Type} {registry : Registry η} {o : Outcome}
    {rs : List Log.Record} (he : enter policy registry target = (.refused o, rs)) :
    Accounts policy target none rs (.outcome o) := by
  rcases enter_cases η policy target with
    ⟨o', rs', haccounts, henter⟩ | ⟨c, front, hcall, hfront, henter⟩
  · rw [henter] at he
    cases he
    exact haccounts
  · rw [henter, Call.entry] at he
    split at he
    · cases he
      refine .refused hfront (hcall.own .notFound (by simp [Problem.code]; decide)) (.inr rfl) rfl ?_
      rw [← hcall.about]
      exact failureRecord_blames _ _ _ _
    · cases he

theorem enter_admitted_accounts {η : Type} {registry : Registry η} {c : Call} {handler : η}
    {rs : List Log.Record} (he : enter policy registry target = (.admitted c handler, rs)) :
    Calls policy target c ∧ ∃ front, rs = front ++ [executingRecord c] ∧
      Front policy target front := by
  rcases enter_cases η policy target with
    ⟨o', rs', -, henter⟩ | ⟨c', front, hcall, hfront, henter⟩
  · rw [henter] at he
    cases he
  · rw [henter, Call.entry] at he
    split at he
    · cases he
    · cases he
      exact ⟨hcall, front, rfl, hfront⟩

theorem settle_accounts {c : Call} (hcall : Calls policy target c) {front : List Log.Record}
    (hfront : Front policy target front) (result : Except Failure Value) :
    Accounts policy target (failureOf? result)
      (front ++ [executingRecord c] ++ (c.settle result).2) (c.settle result).1 := by
  have hexecuting := executingRecord_informs c
  cases result with
  | ok v =>
    rw [List.append_assoc]
    exact .completed hfront (hcall.own .completed (by simp)) rfl rfl hexecuting
      (completedRecord_informs c)
  | error f =>
    rw [Call.settle]
    split
    · rw [List.append_assoc]
      refine .faulted hfront (hcall.own .faulted (by simp [Problem.code]; decide)) rfl rfl
        hexecuting ?_
      rw [← hcall.about]
      exact failureRecord_blames (.taskFailed c.task f) _ _ _
    · next h =>
      rw [List.append_nil]
      exact .escaped hfront hexecuting (Bool.eq_false_iff.mpr h)

end

theorem course_accounts (policy : Policy) (inner : Text → World → World × Answer) (target : Text)
    (w : World) :
    Accounts policy target (course policy inner target w).failure
      (course policy inner target w).records (course policy inner target w).answer := by
  cases he : enter policy w.registry target with | mk entry rs =>
  cases entry with
  | refused o =>
    rw [course_refused inner w he, Course.records, List.append_nil]
    exact enter_refused_accounts he
  | admitted c handler =>
    obtain ⟨hcall, front, rfl, hfront⟩ := enter_admitted_accounts he
    rw [course_admitted inner w he]
    exact settle_accounts hcall hfront _

theorem Blames.isError {taskName : Option Text} {target code : Text} {failure : Option Failure}
    {r : Log.Record} (h : Blames taskName target code failure r) : isError r = true := by
  rw [Dispatch.isError, h.logger, h.level]
  decide

theorem Informs.not_isError {words : Text} {r : Log.Record} (h : Informs words r) :
    isError r = false := by
  rw [isError, h.logger, h.level]
  decide

section
variable {policy : Policy} {target : Text}

theorem Front.countP_isError {rs : List Log.Record} (h : Front policy target rs) :
    rs.countP isError = (fallsBack policy target).toNat := by
  cases h with
  | taken h => simp [h]
  | leftOut h hr => simp [h, hr.isError]

/-- There is one error for a call without success and one for arguments that were left out. -/
theorem Accounts.countP_isError {failure : Option Failure} {rs : List Log.Record} {a : Answer}
    (h : Accounts policy target failure rs a) :
    rs.countP isError = a.unsuccessful.toNat + (fallsBack policy target).toNat := by
  cases h with
  | @refused o front r code hf _ hs _ hr =>
    have hunsuccessful : (Answer.outcome o).unsuccessful = true := by
      rw [Answer.unsuccessful_outcome]
      rcases hs with hs | hs <;> simp [hs]
    simp [hf.countP_isError, hr.isError, hunsuccessful, Nat.add_comm]
  | @faulted o front i r f hf _ hs _ hi hr =>
    have hunsuccessful : (Answer.outcome o).unsuccessful = true := by
      rw [Answer.unsuccessful_outcome]
      simp [hs]
    simp [hf.countP_isError, hi.not_isError, hr.isError, hunsuccessful, Nat.add_comm]
  | completed hf _ hs _ hi hj =>
    simp [hf.countP_isError, hi.not_isError, hj.not_isError, Answer.unsuccessful, Outcome.success,
      hs]
  | escaped hf hi _ => simp [hf.countP_isError, hi.not_isError, Answer.unsuccessful]

end

end Dispatch

end Callboard
