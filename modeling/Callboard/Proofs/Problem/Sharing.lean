import Callboard.Problem.Desk
import Mathlib.Data.List.Induction

/-!
# Problems that share contexts

Problems come up one after the other, each in a context of a pool or in none. Issuing one
changes what is shown of the problems before it in the same context, but no more than the
task and the target that are noted there: a context keeps its time and its debugging
information, and of every note the last one. A problem without a context has one to itself.
-/

set_option autoImplicit false

namespace Callboard

namespace Problem

def task? : Problem → Option Text
  | .taskNotFound name => some name
  | .taskFailed name _ => some name
  | _ => none

def target? : Problem → Option Text
  | .invocationFormat target => some target
  | _ => none

theorem note_eq (p : Problem) (c : Context) :
    p.note c = ⟨c.timestamp, p.task?.or c.taskName, p.target?.or c.invokeTarget, c.debugInfo⟩ := by
  cases p <;> rfl

end Problem

structure Occurrence (size : Nat) where
  problem : Problem
  context : Option (Fin size)
  time : Timestamp

section
variable {size : Nat}

def lastNote (what : Problem → Option Text) (i : Fin size) (os : List (Occurrence size)) :
    Option Text :=
  (os.filterMap fun o => if o.context = some i then what o.problem else none).getLast?

theorem lastNote_concat (what : Problem → Option Text) (i : Fin size)
    (os : List (Occurrence size)) (o : Occurrence size) :
    lastNote what i (os ++ [o]) =
      if o.context = some i then (what o.problem).or (lastNote what i os)
      else lastNote what i os := by
  rw [lastNote, List.filterMap_append]
  by_cases hi : o.context = some i
  · cases hw : what o.problem with
    | none => simp [hi, hw, lastNote]
    | some t => simp [hi, hw]
  · simp [hi, lastNote]

def Context.after (c : Context) (i : Fin size) (os : List (Occurrence size)) : Context :=
  ⟨c.timestamp, (lastNote Problem.task? i os).or c.taskName,
    (lastNote Problem.target? i os).or c.invokeTarget, c.debugInfo⟩

theorem Context.after_nil (c : Context) (i : Fin size) : c.after i [] = c := rfl

theorem Context.after_concat_self (c : Context) {i : Fin size} (os : List (Occurrence size))
    {o : Occurrence size} (h : o.context = some i) :
    c.after i (os ++ [o]) = o.problem.note (c.after i os) := by
  simp only [Problem.note_eq, Context.after, lastNote_concat, h, if_true, Option.or_assoc]

theorem Context.after_concat_of_ne (c : Context) {i : Fin size} (os : List (Occurrence size))
    {o : Occurrence size} (h : o.context ≠ some i) : c.after i (os ++ [o]) = c.after i os := by
  simp only [Context.after, lastNote_concat, h, if_false]

def Occurrence.own (o : Occurrence size) : Context :=
  ⟨o.time, o.problem.task?, o.problem.target?, .null⟩

theorem Occurrence.own_eq (o : Occurrence size) : o.own = o.problem.note (.fresh o.time) := by
  simp [Problem.note_eq, Context.fresh, Occurrence.own]

end

namespace Desk

def opened (pool : List Context) : Desk := ⟨pool, []⟩

def issueAll {size : Nat} (d : Desk) (os : List (Occurrence size)) : Desk :=
  os.foldl (fun d o => d.issue o.problem (o.context.map Fin.val) o.time) d

variable {pool : List Context} {os : List (Occurrence pool.length)} {d : Desk}

def shownWith (pool : List Context) (os : List (Occurrence pool.length))
    (o : Occurrence pool.length) : Context :=
  match o.context with
  | some i => pool[i].after i os
  | none => o.own

/-- Where a problem is put down: at the place of its context, or at a place behind the
pool that no other problem has. -/
structure Put (pool : List Context) (d : Desk) (j : Nat) (o : Occurrence pool.length)
    (place : Nat) : Prop where
  issued : d.issued[j]? = some (o.problem, place)
  taken : place < d.contexts.length
  given : ∀ i, o.context = some i → place = i
  opened : o.context = none → pool.length ≤ place ∧ d.contexts[place]? = some o.own ∧
    ∀ k p, d.issued[k]? = some (p, place) → k = j

structure Settled (pool : List Context) (os : List (Occurrence pool.length)) (d : Desk) :
    Prop where
  contexts : ∀ i : Fin pool.length, d.contexts[i.val]? = some (pool[i].after i os)
  count : d.issued.length = os.length
  put : ∀ j o, os[j]? = some o → ∃ place, Put pool d j o place

theorem settled_opened (pool : List Context) : Settled pool [] (opened pool) where
  contexts i := by simp [opened, Context.after_nil]
  count := rfl
  put j o h := by simp at h

theorem Settled.length_le (h : Settled pool os d) : pool.length ≤ d.contexts.length := by
  by_contra hlt
  have hlast : d.contexts.length < pool.length := by omega
  have hnone := h.contexts ⟨d.contexts.length, hlast⟩
  simp at hnone

theorem Settled.place_lt (h : Settled pool os d) {k place : Nat} {p : Problem}
    (hk : d.issued[k]? = some (p, place)) : place < d.contexts.length := by
  have hlt : k < os.length := h.count ▸ (List.getElem?_eq_some_iff.mp hk).1
  obtain ⟨place', hput⟩ := h.put k os[k] (List.getElem?_eq_getElem hlt)
  have hsame := hput.issued.symm.trans hk
  obtain rfl : place' = place := (Prod.mk.inj (Option.some.inj hsame)).2
  exact hput.taken

theorem Put.grow {d' : Desk} {j place q : Nat} {o : Occurrence pool.length} {p : Problem}
    (h : Put pool d j o place) (hissued : d'.issued = d.issued ++ [(p, q)])
    (hlength : d.contexts.length ≤ d'.contexts.length)
    (hbehind : pool.length ≤ place → q ≠ place ∧ d'.contexts[place]? = d.contexts[place]?) :
    Put pool d' j o place where
  issued := by
    have hj : j < d.issued.length := (List.getElem?_eq_some_iff.mp h.issued).1
    rw [hissued, List.getElem?_append_left hj, h.issued]
  taken := Nat.lt_of_lt_of_le h.taken hlength
  given := h.given
  opened hnone := by
    obtain ⟨hplace, hown, honly⟩ := h.opened hnone
    obtain ⟨hq, hsame⟩ := hbehind hplace
    refine ⟨hplace, hsame.trans hown, fun k p' hk => ?_⟩
    rw [hissued] at hk
    by_cases hold : k < d.issued.length
    · rw [List.getElem?_append_left hold] at hk
      exact honly k p' hk
    · -- the only problem behind the others was put down elsewhere
      rw [List.getElem?_append_right (by omega)] at hk
      have hlast := List.mem_singleton.mp (List.mem_of_getElem? hk)
      exact absurd (Prod.mk.inj hlast).2.symm hq

theorem Settled.put_concat {d' : Desk} {q : Nat} {o : Occurrence pool.length}
    (h : Settled pool os d) (hissued : d'.issued = d.issued ++ [(o.problem, q)])
    (hlength : d.contexts.length ≤ d'.contexts.length)
    (hbehind : ∀ place, pool.length ≤ place → place < d.contexts.length →
      q ≠ place ∧ d'.contexts[place]? = d.contexts[place]?)
    (hlast : Put pool d' os.length o q) {j : Nat} {o' : Occurrence pool.length}
    (ho' : (os ++ [o])[j]? = some o') : ∃ place, Put pool d' j o' place := by
  by_cases hj : j < os.length
  · rw [List.getElem?_append_left hj] at ho'
    obtain ⟨place, hput⟩ := h.put j o' ho'
    exact ⟨place, hput.grow hissued hlength fun hp => hbehind place hp hput.taken⟩
  · rw [List.getElem?_append_right (by omega)] at ho'
    obtain ⟨hzero, heq⟩ := List.getElem?_eq_some_iff.mp ho'
    simp only [List.length_singleton] at hzero
    obtain rfl : j = os.length := by omega
    simp only [List.getElem_singleton] at heq
    exact ⟨q, heq ▸ hlast⟩

theorem Settled.issued_last (h : Settled pool os d) (p : Problem) (q : Nat) :
    (d.issued ++ [(p, q)])[os.length]? = some (p, q) := by
  rw [← h.count]
  simp

/-- At a place behind all contexts only the last problem can have been put down. -/
theorem Settled.only_last (h : Settled pool os d) {p p' : Problem} {k : Nat}
    (hk : (d.issued ++ [(p, d.contexts.length)])[k]? = some (p', d.contexts.length)) :
    k = os.length := by
  by_cases hold : k < d.issued.length
  · rw [List.getElem?_append_left hold] at hk
    exact absurd (h.place_lt hk) (Nat.lt_irrefl _)
  · have hlt := (List.getElem?_eq_some_iff.mp hk).1
    have hcount := h.count
    simp only [List.length_append, List.length_singleton] at hlt
    omega

theorem issue_given_length (d : Desk) (p : Problem) (i : Nat) (time : Timestamp) :
    (d.issue p (some i) time).contexts.length = d.contexts.length :=
  List.length_modify p.note d.contexts i

theorem Settled.put_given (h : Settled pool os d) {o : Occurrence pool.length}
    {i : Fin pool.length} (hi : o.context = some i) :
    Put pool (d.issue o.problem (some i) o.time) os.length o i where
  issued := h.issued_last o.problem i
  taken := by
    rw [issue_given_length]
    exact Nat.lt_of_lt_of_le i.isLt h.length_le
  given k hk := by
    obtain rfl : i = k := Option.some.inj (hi.symm.trans hk)
    rfl
  opened hnone := by
    rw [hi] at hnone
    cases hnone

theorem Settled.put_opened (h : Settled pool os d) {o : Occurrence pool.length}
    (ho : o.context = none) :
    Put pool (d.issue o.problem none o.time) os.length o d.contexts.length where
  issued := h.issued_last o.problem d.contexts.length
  taken := by simp [issue]
  given i hi := by
    rw [ho] at hi
    cases hi
  opened _ := by
    refine ⟨h.length_le, ?_, fun k p hk => h.only_last hk⟩
    simp [issue, Occurrence.own_eq]

theorem Settled.issue_given (h : Settled pool os d) {o : Occurrence pool.length}
    {i : Fin pool.length} (hi : o.context = some i) :
    Settled pool (os ++ [o]) (d.issue o.problem (some i) o.time) where
  contexts k := by
    by_cases hk : i = k
    · subst hk
      rw [Context.after_concat_self _ os hi]
      show (d.contexts.modify i o.problem.note)[i.val]? = _
      rw [List.getElem?_modify_eq, h.contexts i]
      rfl
    · have hval : i.val ≠ k.val := fun heq => hk (Fin.ext heq)
      have hne : o.context ≠ some k := by simpa [hi] using hk
      rw [Context.after_concat_of_ne _ os hne, ← h.contexts k]
      exact List.getElem?_modify_ne _ _ hval
  count := by simp [issue, h.count]
  put j o' := by
    apply h.put_concat rfl (Nat.le_of_eq (issue_given_length d _ i _).symm) _ (h.put_given hi)
    intro place hplace _
    have hval : i.val ≠ place := by
      have hlt := i.isLt
      omega
    exact ⟨hval, List.getElem?_modify_ne _ _ hval⟩

theorem Settled.issue_opened (h : Settled pool os d) {o : Occurrence pool.length}
    (ho : o.context = none) : Settled pool (os ++ [o]) (d.issue o.problem none o.time) where
  contexts k := by
    have hne : o.context ≠ some k := by simp [ho]
    have hk : k.val < d.contexts.length := Nat.lt_of_lt_of_le k.isLt h.length_le
    rw [Context.after_concat_of_ne _ os hne, ← h.contexts k]
    exact List.getElem?_append_left hk
  count := by simp [issue, h.count]
  put j o' := by
    apply h.put_concat rfl (by simp [issue]) _ (h.put_opened ho)
    intro place _ hlt
    exact ⟨by omega, List.getElem?_append_left hlt⟩

theorem issueAll_concat (d : Desk) (os : List (Occurrence pool.length))
    (o : Occurrence pool.length) : d.issueAll (os ++ [o]) =
      (d.issueAll os).issue o.problem (o.context.map Fin.val) o.time := by
  simp [issueAll]

theorem settled_issueAll (pool : List Context) (os : List (Occurrence pool.length)) :
    Settled pool os ((opened pool).issueAll os) := by
  induction os using List.reverseRecOn with
  | nil => exact settled_opened pool
  | append_singleton os o ih =>
    rw [issueAll_concat]
    cases ho : o.context with
    | none => exact ih.issue_opened ho
    | some i => exact ih.issue_given ho

theorem Settled.context (h : Settled pool os d) {j place : Nat} {o : Occurrence pool.length}
    (hput : Put pool d j o place) : d.contexts[place]? = some (shownWith pool os o) := by
  rw [shownWith]
  split
  · next i hi => rw [hput.given i hi, h.contexts i]
  · next hnone => exact (hput.opened hnone).2.1

theorem Settled.problems (h : Settled pool os d) :
    d.problems = os.map fun o => (o.problem, shownWith pool os o) := by
  have hshown : d.issued.map (fun i => d.contexts[i.2]?.map fun c => (i.1, c)) =
      os.map fun o => some (o.problem, shownWith pool os o) := by
    apply List.ext_getElem?
    intro j
    rw [List.getElem?_map, List.getElem?_map]
    cases ho : os[j]? with
    | none =>
      have hj : d.issued[j]? = none := by
        rw [List.getElem?_eq_none_iff, h.count]
        exact List.getElem?_eq_none_iff.mp ho
      simp [hj]
    | some o =>
      obtain ⟨place, hput⟩ := h.put j o ho
      simp [hput.issued, h.context hput]
  calc d.problems = (d.issued.map fun i => d.contexts[i.2]?.map fun c => (i.1, c)).filterMap id :=
        by rw [List.filterMap_map]; rfl
    _ = (os.map fun o => some (o.problem, shownWith pool os o)).filterMap id := by rw [hshown]
    _ = os.map fun o => (o.problem, shownWith pool os o) := by simp [List.filterMap_map]

/-- Problems that share contexts interfere only through the last task and the last target that
are noted in them. In the end every context of the pool has the time and the debugging
information that it had; every problem is the one that was issued, in the context that it was
given or in one of its own; and its envelope follows from it and from that context as it is
now. -/
theorem sharing_confined (pool : List Context) (os : List (Occurrence pool.length)) :
    Settled pool os ((opened pool).issueAll os) ∧
      ((opened pool).issueAll os).problems.map (fun i => i.1.envelope i.2) =
        os.map fun o => o.problem.envelope (shownWith pool os o) := by
  have h := settled_issueAll pool os
  refine ⟨h, ?_⟩
  rw [h.problems, List.map_map]
  rfl

/-- The second problem changes what is shown of the first, and no more than the target. -/
example (name target : Text) (time : Timestamp) :
    let first : Occurrence 1 := ⟨.taskNotFound name, some 0, time⟩
    let second : Occurrence 1 := ⟨.invocationFormat target, some 0, time⟩
    ((opened [.fresh time]).issueAll [first, second]).problems.map
        (fun i => (i.2.taskName, i.2.invokeTarget)) =
      [(some name, some target), (some name, some target)] := rfl

end Desk

end Callboard
