import Callboard.Proofs.Dispatch.Ledger

/-!
# Gathering targets

Targets that are gathered make one schedule among others, in which all of them arrive first.
A strand that is not done has a place in the queue, and the queue is empty in the end, so
every target is answered, at its own place and whatever order the strands ended in. Where
handlers fail in ordinary ways only, the answers are outcomes.
-/

set_option autoImplicit false

namespace Callboard

open Dispatch

def arrivals : List Event → List Text
  | [] => []
  | .arrive target :: es => target :: arrivals es
  | _ :: es => arrivals es

namespace Scene

theorem map_set_target {lanes : List Lane} {i : Nat} {l l' : Lane} (h : lanes[i]? = some l)
    (htarget : l'.target = l.target) :
    (lanes.set i l').map Lane.target = lanes.map Lane.target := by
  obtain ⟨hi, rfl⟩ := List.getElem?_eq_some_iff.mp h
  have hbound : i < (lanes.map Lane.target).length := by simpa using hi
  have hself : (lanes.map Lane.target).set i (lanes.map Lane.target)[i] = lanes.map Lane.target :=
    List.set_getElem_self hbound
  rw [List.map_set, htarget]
  simpa using hself

theorem play_targets (policy : Policy) (es : List Event) (s : Scene) :
    (s.play policy es).lanes.map Lane.target = s.lanes.map Lane.target ++ arrivals es := by
  induction es generalizing s with
  | nil => simp [play, arrivals]
  | cons e es ih =>
    rw [play, ih]
    cases e with
    | arrive target => simp [move, arrivals, Lane.fresh]
    | register t => rfl
    | step i =>
      show _ = s.lanes.map Lane.target ++ arrivals es
      rw [move]
      split
      · rfl
      · next l hl => exact congrArg (· ++ arrivals es) (map_set_target hl rfl)

def board (s : Scene) : Board := ⟨s.world, s.lanes.map Lane.strand, []⟩

/-- The lanes are those of the targets, in their order. A lane that is done with an outcome
has it from the call of its target, and there it stands among the answers. -/
structure InOrder (targets : List Text) (s : Scene) : Prop where
  lanes : s.lanes.map Lane.target = targets
  outcome : ∀ l ∈ s.lanes, ∀ o, l.strand = .done (.outcome o) →
    ∃ f, l.ledger.finished.head? = some f ∧ f.target = l.target ∧ f.answer = .outcome o ∧
      o.target = l.target
  answers : ∀ (i : Nat) (o : Outcome), s.board.answers[i]? = some (some (.outcome o)) ↔
    ∃ l, s.lanes[i]? = some l ∧ l.strand = .done (.outcome o)
  places : ∀ (i : Nat) (o : Outcome), s.board.answers[i]? = some (some (.outcome o)) →
    targets[i]? = some o.target

theorem answer_eq_outcome {b : Board} {i : Nat} {o : Outcome} :
    b.answers[i]? = some (some (.outcome o)) ↔ b.strands[i]? = some (.done (.outcome o)) := by
  rw [Board.answers, List.getElem?_map, Option.map_eq_some_iff]
  constructor
  · rintro ⟨s, hs, h⟩
    rw [hs]
    cases s with
    | unstarted target => cases h
    | running script c callers => cases h
    | done a =>
      cases a with
      | outcome o' =>
        cases h
        rfl
      | escaped f =>
        simp only [Strand.answer?] at h
        split at h <;> cases h
  · exact fun h => ⟨_, h, rfl⟩

theorem play_inOrder (policy : Policy) (es : List Event) (w : World) :
    ((start w).play policy es).InOrder (arrivals es) := by
  have htargets : ((start w).play policy es).lanes.map Lane.target = arrivals es :=
    play_targets policy es (start w)
  have houtcome : ∀ l ∈ ((start w).play policy es).lanes, ∀ o, l.strand = .done (.outcome o) →
      ∃ f, l.ledger.finished.head? = some f ∧ f.target = l.target ∧ f.answer = .outcome o ∧
        o.target = l.target := by
    intro l hl o hdone
    obtain ⟨-, hrooted, hanswered⟩ := Lane.aligned_play es w l hl
    rw [Lane.Rooted, hdone] at hrooted
    obtain ⟨f, hf, htarget, hanswer⟩ := hrooted
    have ho := hanswered f (List.mem_of_mem_head? hf) o hanswer
    exact ⟨f, hf, htarget, hanswer, ho.trans htarget⟩
  have hanswers : ∀ (i : Nat) (o : Outcome),
      ((start w).play policy es).board.answers[i]? = some (some (.outcome o)) ↔
        ∃ l, ((start w).play policy es).lanes[i]? = some l ∧ l.strand = .done (.outcome o) := by
    intro i o
    rw [answer_eq_outcome, board, List.getElem?_map, Option.map_eq_some_iff]
  refine ⟨htargets, houtcome, hanswers, fun i o hi => ?_⟩
  obtain ⟨l, hl, hdone⟩ := (hanswers i o).mp hi
  obtain ⟨-, -, -, -, ho⟩ := houtcome l (List.mem_of_getElem? hl) o hdone
  rw [← htargets, List.getElem?_map, hl, ho]
  rfl

def Shows (s : Scene) (b : Board) : Prop :=
  s.world = b.world ∧ s.lanes.map Lane.strand = b.strands

theorem Shows.step {policy : Policy} {s : Scene} {b : Board} (h : s.Shows b) :
    ∃ is : List Nat, (s.play policy (is.map .step)).Shows (b.step policy) := by
  obtain ⟨hworld, hstrands⟩ := h
  rw [Board.step]
  split
  · exact ⟨[], hworld, hstrands⟩
  · next i rest hqueue =>
    rw [← hstrands, List.getElem?_map]
    cases hl : s.lanes[i]? with
    | none => exact ⟨[], hworld, rfl⟩
    | some l =>
      refine ⟨[i], ?_⟩
      show Shows (s.move policy (.step i)) _
      rw [move, hl]
      constructor
      · show (l.step policy s.world).1 = _
        rw [← hworld]
        rfl
      · show (s.lanes.set i _).map Lane.strand = _
        rw [List.map_set, ← hworld]
        rfl

theorem Shows.run (policy : Policy) {s : Scene} (b : Board) (h : s.Shows b) :
    ∃ is : List Nat, (s.play policy (is.map .step)).Shows (b.run policy) := by
  induction b using Board.run.induct policy generalizing s with
  | case1 b hqueue =>
    rw [Board.run, dif_pos hqueue]
    exact ⟨[], h⟩
  | case2 b hqueue ih =>
    rw [Board.run, dif_neg hqueue]
    obtain ⟨is, his⟩ := h.step
    obtain ⟨js, hjs⟩ := ih his
    refine ⟨is ++ js, ?_⟩
    rw [List.map_append, play_append]
    exact hjs

theorem play_arrive (policy : Policy) (targets : List Text) (s : Scene) :
    s.play policy (targets.map .arrive) = ⟨s.world, s.lanes ++ targets.map Lane.fresh⟩ := by
  induction targets generalizing s with
  | nil => simp [play]
  | cons target targets ih =>
    rw [List.map_cons, play, ih]
    simp [move]

theorem arrivals_gather (targets : List Text) (is : List Nat) :
    arrivals (targets.map .arrive ++ is.map .step) = targets := by
  induction targets with
  | nil =>
    induction is with
    | nil => rfl
    | cons i is ih => exact ih
  | cons target targets ih => exact congrArg (target :: ·) ih

theorem gather_shows (policy : Policy) (targets : List Text) (w : World) :
    ∃ is : List Nat, ((start w).play policy (targets.map .arrive ++ is.map .step)).Shows
      ((Board.ofTargets targets w).run policy) := by
  have hstart :
      ((start w).play policy (targets.map .arrive)).Shows (Board.ofTargets targets w) := by
    rw [play_arrive]
    refine ⟨rfl, ?_⟩
    show (([] : List Lane) ++ targets.map Lane.fresh).map Lane.strand = targets.map Strand.unstarted
    rw [List.nil_append, List.map_map]
    rfl
  obtain ⟨is, his⟩ := Shows.run policy _ hstart
  exact ⟨is, by rwa [play_append]⟩

end Scene

namespace Board

def Queued (b : Board) : Prop :=
  ∀ i s, b.strands[i]? = some s → s.answer? = none → i ∈ b.queue

theorem mem_requeue {i j : Nat} {rest : List Nat} (h : j ∈ rest) (before after : Strand) :
    j ∈ requeue before after i rest := by
  unfold requeue
  split
  · exact h
  · split
    · exact List.mem_append_left _ h
    · exact List.mem_cons_of_mem i h

theorem mem_requeue_self {after : Strand} (h : after.answer? = none) (before : Strand) (i : Nat)
    (rest : List Nat) : i ∈ requeue before after i rest := by
  rw [requeue, h, if_neg (by simp)]
  split
  · exact List.mem_append_right _ List.mem_cons_self
  · exact List.mem_cons_self

theorem queued_ofTargets (targets : List Text) (w : World) : (ofTargets targets w).Queued := by
  intro i s hi _
  obtain ⟨hlt, -⟩ := List.getElem?_eq_some_iff.mp hi
  rw [ofTargets, List.length_map] at hlt
  exact List.mem_range.mpr hlt

theorem Queued.step {b : Board} (h : b.Queued) (policy : Policy) : (b.step policy).Queued := by
  obtain ⟨w, strands, queue⟩ := b
  cases queue with
  | nil => exact h
  | cons i rest =>
    cases hi : strands[i]? with
    | none =>
      rw [step_missing policy hi]
      intro j s hj hs
      rcases List.mem_cons.mp (h j s hj hs) with rfl | hmem
      · rw [hi] at hj
        cases hj
      · exact hmem
    | some s =>
      rw [step_taken policy hi]
      intro j s' hj hs'
      by_cases hij : i = j
      · subst hij
        rw [List.getElem?_set_self (List.getElem?_eq_some_iff.mp hi).1] at hj
        obtain rfl := Option.some.inj hj
        exact mem_requeue_self hs' s i rest
      · rw [List.getElem?_set_ne hij] at hj
        rcases List.mem_cons.mp (h j s' hj hs') with rfl | hmem
        · exact absurd rfl hij
        · exact mem_requeue hmem s _

/-- The queue is empty when the run ends, so nothing is left to be done. -/
theorem Queued.run {b : Board} (h : b.Queued) (policy : Policy) :
    ∀ s ∈ (b.run policy).strands, ∃ a, s = .done a := by
  induction b using Board.run.induct policy with
  | case1 b hqueue =>
    rw [Board.run, dif_pos hqueue]
    intro s hs
    obtain ⟨i, hi⟩ := List.mem_iff_getElem?.mp hs
    cases s with
    | done a => exact ⟨a, rfl⟩
    | _ =>
      have hmem := h i _ hi rfl
      rw [hqueue] at hmem
      cases hmem
  | case2 b hqueue ih =>
    rw [Board.run, dif_neg hqueue]
    exact ih (h.step policy)

end Board

/-- Whatever is left of the strand fails in ordinary ways only, and if nothing is left, it is
done with an outcome. -/
def Strand.Ordinary : Strand → Prop
  | .unstarted _ => True
  | .running script _ callers =>
    script.Ordinary ∧ ∀ x ∈ callers, ∀ success, (x.next success).Ordinary
  | .done a => ∃ o, a = .outcome o

theorem Strand.ordinary_resume (o : Outcome) {callers : List Waiting}
    (h : ∀ x ∈ callers, ∀ success, (x.next success).Ordinary) :
    (resume (.outcome o) callers).Ordinary := by
  cases callers with
  | nil => exact ⟨o, rfl⟩
  | cons x callers => exact ⟨h x List.mem_cons_self _, fun y hy => h y (List.mem_cons_of_mem x hy)⟩

theorem Strand.Enters.ordinary {s : Strand} {target : Text} {callers : List Waiting}
    (hs : s.Enters target callers) (h : s.Ordinary) :
    ∀ x ∈ callers, ∀ success, (x.next success).Ordinary := by
  cases hs with
  | first _ => exact fun x hx => absurd hx List.not_mem_nil
  | nested _ next c _ =>
    intro x hx
    rcases List.mem_cons.mp hx with rfl | hx
    · exact h.1
    · exact h.2 x hx

theorem Script.Goes.ordinary {w w' : World} {script script' : Script}
    (h : script.Goes w w' script') (hs : script.Ordinary) (hw : w.Ordinary) :
    script'.Ordinary ∧ w'.Ordinary := by
  cases h with
  | pause => exact ⟨hs, hw⟩
  | note => exact ⟨hs, World.ordinary_of_registry rfl hw⟩
  | emit => exact ⟨hs, World.ordinary_of_registry rfl hw⟩
  | visit => exact ⟨hs _, World.ordinary_of_registry rfl hw⟩
  | register => exact ⟨hs.2, hw.register hs.1⟩

theorem Script.Ends.ordinary {script : Script} {result : Except Failure Value}
    (h : script.Ends result) (hs : script.Ordinary) : ∀ f, result = .error f → f.ordinary = true := by
  intro f hf
  cases h with
  | complete v => cases hf
  | fail g =>
    obtain rfl := Except.error.inj hf
    exact hs

theorem Lane.Turn.ordinary {policy : Policy} {w w' : World} {l l' : Lane}
    (hturn : Turn policy w l w' l') (hw : w.Ordinary) (hl : l.strand.Ordinary) :
    w'.Ordinary ∧ l'.strand.Ordinary := by
  cases hturn with
  | rests => exact ⟨hw, hl⟩
  | goes h =>
    obtain ⟨hscript, hworld⟩ := h.ordinary hl.1 hw
    exact ⟨hworld, hscript, hl.2⟩
  | cut _ => exact ⟨hw, rfl, hl.2⟩
  | refused hs _ =>
    exact ⟨World.ordinary_of_registry rfl hw, Strand.ordinary_resume _ (hs.ordinary hl)⟩
  | @admitted t target s callers g c handler rs hs he =>
    obtain ⟨task, htask, rfl⟩ := enter_admitted he
    exact ⟨World.ordinary_of_registry rfl hw, hw task (mem_of_lookup htask).1 c.arguments,
      hs.ordinary hl⟩
  | @ends t script c callers g result h =>
    obtain ⟨o, ho⟩ := settle_of_ordinary (c := c) (h.ordinary hl.1)
    refine ⟨World.ordinary_of_registry rfl hw, ?_⟩
    rw [ho]
    exact Strand.ordinary_resume o hl.2

namespace Scene

theorem ordinary_play (policy : Policy) (is : List Nat) {s : Scene} (hw : s.world.Ordinary)
    (hs : ∀ l ∈ s.lanes, l.strand.Ordinary) :
    ∀ l ∈ (s.play policy (is.map .step)).lanes, l.strand.Ordinary := by
  induction is generalizing s with
  | nil => exact hs
  | cons i is ih =>
    rw [List.map_cons, play, move]
    split
    · exact ih hw hs
    · next l hl =>
      obtain ⟨hw', hl'⟩ :=
        (Lane.step_turn policy l s.world).ordinary hw (hs l (List.mem_of_getElem? hl))
      apply ih hw'
      intro l' hmem
      rcases List.mem_or_eq_of_mem_set hmem with hmem | rfl
      · exact hs l' hmem
      · exact hl'

theorem ordinary_gather (policy : Policy) (targets : List Text) (is : List Nat) {w : World}
    (hw : w.Ordinary) : ∀ l ∈ ((start w).play policy (targets.map .arrive ++ is.map .step)).lanes,
      l.strand.Ordinary := by
  rw [play_append, play_arrive]
  apply ordinary_play policy is hw
  intro l hl
  obtain ⟨target, -, rfl⟩ := List.mem_map.mp (show l ∈ targets.map Lane.fresh by simpa [start] using hl)
  trivial

theorem answers_outcomes (w : World) (queue : List Nat) {lanes : List Lane}
    (h : ∀ l ∈ lanes, ∃ o, l.strand = .done (.outcome o) ∧ o.target = l.target) :
    ∃ os : List Outcome,
      Board.answers ⟨w, lanes.map Lane.strand, queue⟩ = os.map (fun o => some (.outcome o)) ∧
        os.map Outcome.target = lanes.map Lane.target := by
  induction lanes with
  | nil => exact ⟨[], rfl, rfl⟩
  | cons l lanes ih =>
    obtain ⟨os, hanswers, htargets⟩ := ih fun l' hl' => h l' (List.mem_cons_of_mem l hl')
    obtain ⟨o, hdone, ho⟩ := h l List.mem_cons_self
    refine ⟨o :: os, ?_, by rw [List.map_cons, List.map_cons, ho, htargets]⟩
    rw [Board.answers] at hanswers ⊢
    rw [List.map_cons, List.map_cons, List.map_cons, hanswers, hdone]
    rfl

theorem answers_isSome {b : Board} (h : ∀ s ∈ b.strands, ∃ a, s = .done a) :
    ∀ a ∈ b.answers, a.isSome = true := by
  intro a ha
  obtain ⟨s, hs, rfl⟩ := List.mem_map.mp ha
  obtain ⟨answer, rfl⟩ := h s hs
  cases answer with
  | outcome o => rfl
  | escaped f =>
    simp only [Strand.answer?]
    split <;> rfl

end Scene

/-- What gathering targets comes to: a schedule in which all of them arrive first, and in which
every lane runs to its end. Every target is answered, and with an outcome, where handlers fail
in ordinary ways only. -/
structure Gathers (policy : Policy) (targets : List Text) (w : World) (is : List Nat) (s : Scene) :
    Prop where
  schedule : s = (Scene.start w).play policy (targets.map .arrive ++ is.map .step)
  result : gather policy targets w = (s.world, s.board.answers)
  order : s.InOrder targets
  done : ∀ l ∈ s.lanes, ∃ a, l.strand = .done a
  answered : (gather policy targets w).2.length = targets.length ∧
    ∀ a ∈ (gather policy targets w).2, a.isSome = true
  outcomes : w.Ordinary → ∃ os : List Outcome,
    (gather policy targets w).2 = os.map (fun o => some (.outcome o)) ∧
      os.map Outcome.target = targets

theorem gathers (policy : Policy) (targets : List Text) (w : World) :
    ∃ is s, Gathers policy targets w is s := by
  obtain ⟨is, hshows⟩ := Scene.gather_shows policy targets w
  have horder := Scene.play_inOrder policy (targets.map .arrive ++ is.map .step) w
  rw [Scene.arrivals_gather] at horder
  have hordinary := fun hw => Scene.ordinary_gather policy targets is (w := w) hw
  generalize hs : (Scene.start w).play policy (targets.map .arrive ++ is.map .step) = s at *
  obtain ⟨hworld, hstrands⟩ := hshows
  have hresult : gather policy targets w = (s.world, s.board.answers) := by
    simp only [gather, Scene.board, Board.answers, hworld, hstrands]
  have hrun := (Board.queued_ofTargets targets w).run policy
  have hdone : ∀ l ∈ s.lanes, ∃ a, l.strand = .done a :=
    fun l hl => hrun _ (hstrands ▸ List.mem_map_of_mem hl)
  refine ⟨is, s, hs.symm, hresult, horder, hdone, ⟨?_, Scene.answers_isSome hrun⟩, fun hw => ?_⟩
  · rw [hresult, ← horder.lanes]
    simp [Scene.board, Board.answers]
  · have houtcomes : ∀ l ∈ s.lanes, ∃ o, l.strand = .done (.outcome o) ∧ o.target = l.target := by
      intro l hl
      obtain ⟨a, ha⟩ := hdone l hl
      have hl' := hordinary hw l hl
      rw [ha] at hl'
      obtain ⟨o, rfl⟩ := hl'
      obtain ⟨f, -, -, -, ho⟩ := horder.outcome l hl o ha
      exact ⟨o, ha, ho⟩
    obtain ⟨os, hanswers, htargets⟩ := Scene.answers_outcomes s.world [] houtcomes
    exact ⟨os, by rw [hresult]; exact hanswers, htargets.trans horder.lanes⟩

end Callboard
