import Callboard.Proofs.Dispatch.Containment

/-!
# What becomes of a target

The answer to every target, clause by clause. A target that is no invocation is refused;
so are arguments that cannot be decoded, if the policy is strict, and then a task that
is not registered. In none of these cases does a handler run. In all others the handler
that the task is registered with runs once, and how it ends decides on the outcome.
-/

set_option autoImplicit false

namespace Callboard.Dispatch

/-- The arguments that a call is made with, and the code of the error if they could not be
decoded and the policy leaves them out. -/
inductive Settles (policy : Policy) (raw : Option Text) : List Value → Option Text → Prop where
  | decoded {args : List Value} (h : Invocation.decode raw = .ok args) :
      Settles policy raw args none
  | leftOut {e : Literal.DecodeError} (h : Invocation.decode raw = .error e)
      (hp : policy = .lenient) :
      Settles policy raw [] (some (chars "ARGUMENT_DECODE_ERROR"))

def Complaints (rs : List Log.Record) : Prop :=
  ∀ r ∈ rs, r.logger = logger ∧ r.level = Log.Level.error

/-- No handler has run: nothing has changed but the log, and complaints are all that is new
in it. -/
def OnlyComplained (w w' : World) : Prop := ∃ rs, w' = w.emit rs ∧ Complaints rs

def ended (target name : Text) (args : List Value) (error : Option Text) :
    Except Failure Value → Outcome
  | .ok _ => ⟨target, .completed, some name, args, none, error⟩
  | .error _ => ⟨target, .faulted, some name, args, some (chars "TASK_FAILED"), error⟩

/-- The outcome `o` and the world `w'` are those of executing `target` in the world `w`. The
targets that scripts name on their way are executed by `inner`. -/
structure Follows (policy : Policy) (inner : Text → World → World × Answer) (target : Text)
    (w w' : World) (o : Outcome) : Prop where
  unparsed : Invocation.parse? target = none →
    o = ⟨target, .parseFailed, none, [], some (chars "INVALID_INVOCATION"), none⟩ ∧
      OnlyComplained w w'
  undecodable : ∀ {name raw e}, Invocation.parse? target = some ⟨name, raw⟩ →
    Invocation.decode raw = .error e → policy = .strict →
      o = ⟨target, .parseFailed, some name, [], some (chars "ARGUMENT_DECODE_ERROR"), none⟩ ∧
        OnlyComplained w w'
  unknown : ∀ {name raw args error}, Invocation.parse? target = some ⟨name, raw⟩ →
    Settles policy raw args error → w.registry.lookup name = none →
      o = ⟨target, .notFound, some name, args, some (chars "TASK_NOT_FOUND"), error⟩ ∧
        OnlyComplained w w'
  invoked : ∀ {name raw args error t}, Invocation.parse? target = some ⟨name, raw⟩ →
    Settles policy raw args error → w.registry.lookup name = some t →
      ∃ rs ss w₁ result, (t.handler args).run inner (w.emit rs) = (w₁, result) ∧ w' = w₁.emit ss ∧
        t.name = name ∧ (∀ r ∈ rs ++ ss, r.logger = logger) ∧ o = ended target name args error result

section
variable {η : Type} {policy : Policy} (registry : Registry η) {target name : Text}
  {raw : Option Text} {args : List Value} {error : Option Text}

theorem enter_unparsed (hp : Invocation.parse? target = none) :
    enter policy registry target =
      (.refused ⟨target, .parseFailed, none, [], some (chars "INVALID_INVOCATION"), none⟩,
        [failureRecord (invalidTarget target) none target none]) :=
  enter_unread policy registry (invocationOf_eq_error_iff.mpr ⟨hp, rfl⟩)

theorem enter_undecodable {e : Literal.DecodeError}
    (hp : Invocation.parse? target = some ⟨name, raw⟩) (hd : Invocation.decode raw = .error e) :
    enter .strict registry target =
      (.refused ⟨target, .parseFailed, some name, [], some (chars "ARGUMENT_DECODE_ERROR"), none⟩,
        [failureRecord (undecodable e) (some name) target none]) :=
  enter_undecoded registry (invocationOf_eq_ok_iff.mpr hp) (valuesOf_eq_error_iff.mpr ⟨e, hd, rfl⟩)

def settledCall (target name : Text) (args : List Value) (error : Option Text) : Call :=
  ⟨target, name, args, error.isSome⟩

theorem outcome_settledCall (hs : Settles policy raw args error) (state : State)
    (errorCode : Option Text) :
    (settledCall target name args error).outcome state errorCode =
      ⟨target, state, some name, args, errorCode, error⟩ := by
  cases hs with
  | decoded _ => rfl
  | leftOut _ _ => rfl

theorem enter_settled (hp : Invocation.parse? target = some ⟨name, raw⟩)
    (hs : Settles policy raw args error) :
    ∃ rs, Complaints rs ∧ enter policy registry target =
      (((settledCall target name args error).entry registry).1,
        rs ++ ((settledCall target name args error).entry registry).2) := by
  cases hs with
  | decoded h =>
    refine ⟨[], by simp [Complaints], ?_⟩
    exact enter_read policy registry (invocationOf_eq_ok_iff.mpr hp) (valuesOf_eq_ok_iff.mpr h)
  | @leftOut e h hpolicy =>
    subst hpolicy
    refine ⟨[fallbackRecord e name target], ?_, ?_⟩
    · intro r hr
      obtain rfl := List.mem_singleton.mp hr
      exact ⟨rfl, rfl⟩
    · rw [enter, hp]
      simp only [h]
      rfl

end

theorem complaints_failure (p : Problem) (taskName : Option Text) (target : Text)
    (failure : Option Failure) : Complaints [failureRecord p taskName target failure] := by
  intro r hr
  obtain rfl := List.mem_singleton.mp hr
  exact ⟨rfl, rfl⟩

theorem Complaints.append {rs ss : List Log.Record} (hr : Complaints rs) (hs : Complaints ss) :
    Complaints (rs ++ ss) := by
  intro r h
  rcases List.mem_append.mp h with h | h
  · exact hr r h
  · exact hs r h

theorem settle_logger (c : Call) (result : Except Failure Value) :
    ∀ r ∈ (c.settle result).2, r.logger = logger := by
  unfold Call.settle
  split
  · simp [completedRecord]
  · split
    · simp [failureRecord]
    · simp

section
variable {policy : Policy} {depth : Nat} {target name : Text} {raw : Option Text}
  {args : List Value} {error : Option Text} {w w' : World} {o : Outcome}

theorem settle_settledCall (hs : Settles policy raw args error) {result : Except Failure Value}
    (h : ((settledCall target name args error).settle result).1 = .outcome o) :
    o = ended target name args error result := by
  cases result with
  | ok v =>
    obtain rfl := Answer.outcome.inj h
    exact outcome_settledCall hs _ _
  | error f =>
    rw [Call.settle] at h
    split at h
    · obtain rfl := Answer.outcome.inj h
      exact outcome_settledCall hs _ _
    · cases h

theorem follows_unparsed (hrun : executeWithin policy (depth + 1) target w = (w', .outcome o))
    (hp : Invocation.parse? target = none) :
    o = ⟨target, .parseFailed, none, [], some (chars "INVALID_INVOCATION"), none⟩ ∧
      OnlyComplained w w' := by
  rw [executeWithin, enter_unparsed w.registry hp] at hrun
  cases hrun
  exact ⟨rfl, _, rfl, complaints_failure _ _ _ _⟩

theorem follows_undecodable {e : Literal.DecodeError}
    (hrun : executeWithin .strict (depth + 1) target w = (w', .outcome o))
    (hp : Invocation.parse? target = some ⟨name, raw⟩) (hd : Invocation.decode raw = .error e) :
    o = ⟨target, .parseFailed, some name, [], some (chars "ARGUMENT_DECODE_ERROR"), none⟩ ∧
      OnlyComplained w w' := by
  rw [executeWithin, enter_undecodable w.registry hp hd] at hrun
  cases hrun
  exact ⟨rfl, _, rfl, complaints_failure _ _ _ _⟩

theorem follows_unknown (hrun : executeWithin policy (depth + 1) target w = (w', .outcome o))
    (hp : Invocation.parse? target = some ⟨name, raw⟩) (hs : Settles policy raw args error)
    (hl : w.registry.lookup name = none) :
    o = ⟨target, .notFound, some name, args, some (chars "TASK_NOT_FOUND"), error⟩ ∧
      OnlyComplained w w' := by
  obtain ⟨rs, hrs, henter⟩ := enter_settled w.registry hp hs
  have hlookup : w.registry.lookup (settledCall target name args error).task = none := hl
  rw [Call.entry, hlookup] at henter
  rw [executeWithin, henter] at hrun
  cases hrun
  exact ⟨outcome_settledCall hs _ _, _, rfl, hrs.append (complaints_failure _ _ _ _)⟩

theorem follows_invoked {t : Descriptor Handler}
    (hrun : executeWithin policy (depth + 1) target w = (w', .outcome o))
    (hp : Invocation.parse? target = some ⟨name, raw⟩) (hs : Settles policy raw args error)
    (hl : w.registry.lookup name = some t) :
    ∃ rs ss w₁ result, (t.handler args).run (executeWithin policy depth) (w.emit rs) = (w₁, result) ∧
      w' = w₁.emit ss ∧ t.name = name ∧ (∀ r ∈ rs ++ ss, r.logger = logger) ∧
      o = ended target name args error result := by
  obtain ⟨rs, hrs, henter⟩ := enter_settled w.registry hp hs
  have hlookup : w.registry.lookup (settledCall target name args error).task = some t := hl
  rw [Call.entry, hlookup] at henter
  rw [executeWithin, henter] at hrun
  simp only [Prod.mk.injEq] at hrun
  obtain ⟨rfl, ho⟩ := hrun
  refine ⟨_, _, _, _, rfl, rfl, (mem_of_lookup hl).2, ?_, ?_⟩
  · intro r hr
    rcases List.mem_append.mp hr with hr | hr
    · rcases List.mem_append.mp hr with hr | hr
      · exact (hrs r hr).1
      · rw [List.mem_singleton.mp hr]
        rfl
    · exact settle_logger _ _ r hr
  · exact settle_settledCall hs ho

theorem ended_state (target name : Text) (args : List Value) (error : Option Text)
    (result : Except Failure Value) : (ended target name args error result).state ≠ .notFound := by
  cases result with
  | ok v => exact State.noConfusion
  | error f => exact State.noConfusion

theorem notFound_iff (hp : Invocation.parse? target = some ⟨name, raw⟩)
    (hs : Settles policy raw args error) :
    (∃ w' o, executeWithin policy (depth + 1) target w = (w', .outcome o) ∧ o.state = .notFound) ↔
      w.registry.lookup name = none := by
  constructor
  · rintro ⟨w', o, hrun, hstate⟩
    cases hl : w.registry.lookup name with
    | none => rfl
    | some t =>
      obtain ⟨rs, ss, w₁, result, -, -, -, -, rfl⟩ := follows_invoked hrun hp hs hl
      exact absurd hstate (ended_state target name args error result)
  · intro hl
    obtain ⟨rs, -, henter⟩ := enter_settled w.registry hp hs
    have hlookup : w.registry.lookup (settledCall target name args error).task = none := hl
    rw [Call.entry, hlookup] at henter
    rw [executeWithin, henter]
    exact ⟨_, _, rfl, rfl⟩

theorem executeWithin_follows
    (hrun : executeWithin policy (depth + 1) target w = (w', .outcome o)) :
    Follows policy (executeWithin policy depth) target w w' o := by
  constructor
  · exact follows_unparsed hrun
  · intro name raw e hp hd hpolicy
    subst hpolicy
    exact follows_undecodable hrun hp hd
  · intro name raw args error hp hs hl
    exact follows_unknown hrun hp hs hl
  · intro name raw args error t hp hs hl
    exact follows_invoked hrun hp hs hl

end

/-- When handlers fail in ordinary ways only, every target is answered with an outcome, and
what becomes of it follows the clauses. So it is for the targets that scripts execute,
however deep they are nested, and every handler in reach stays ordinary. -/
theorem execute_follows (policy : Policy) (target : Text) {w : World} (hw : w.Ordinary) :
    (∃ w' o, execute policy target w = (w', .outcome o) ∧ w'.Ordinary ∧
      Follows policy (executeWithin policy (nestingLimit - 1)) target w w' o) ∧
    ∀ depth, ∃ w' o, executeWithin policy (depth + 1) target w = (w', .outcome o) ∧ w'.Ordinary ∧
      Follows policy (executeWithin policy depth) target w w' o := by
  have hall : ∀ depth, ∃ w' o, executeWithin policy (depth + 1) target w = (w', .outcome o) ∧
      w'.Ordinary ∧ Follows policy (executeWithin policy depth) target w w' o := by
    intro depth
    obtain ⟨hworld, o, ho⟩ := executeWithin_step (executeWithin_contains policy depth) hw target
    have hrun : executeWithin policy (depth + 1) target w =
        ((executeWithin policy (depth + 1) target w).1, .outcome o) := by rw [← ho]
    exact ⟨_, o, hrun, hworld, executeWithin_follows hrun⟩
  exact ⟨hall (nestingLimit - 1), hall⟩

theorem execute_follows_builtin :
    (World.ofRegistry Builtin.registry.1).Ordinary ∧
      (∃ w' o, execute .lenient (chars "params('a')") (.ofRegistry Builtin.registry.1) =
          (w', .outcome o) ∧ w'.Ordinary ∧
        Follows .lenient (executeWithin .lenient (nestingLimit - 1)) (chars "params('a')")
          (.ofRegistry Builtin.registry.1) w' o) ∧
      ∀ depth, ∃ w' o, executeWithin .lenient (depth + 1) (chars "params('a')")
          (.ofRegistry Builtin.registry.1) = (w', .outcome o) ∧ w'.Ordinary ∧
        Follows .lenient (executeWithin .lenient depth) (chars "params('a')")
          (.ofRegistry Builtin.registry.1) w' o :=
  ⟨Builtin.registry_ordinary,
    execute_follows .lenient (chars "params('a')") Builtin.registry_ordinary⟩

end Callboard.Dispatch
