import Callboard.Proofs.Dispatch.Containment
import Callboard.Proofs.Dispatch.Schedule
import Mathlib.Data.List.Forall2

/-!
# What ledgers say

The calls under way in the ledger of a lane are those of its strand, and the first of them
is the call of its own target. If handlers end as their arguments decide, every call that
has ended is what the registry at the time of its lookup makes of its target, whatever
other lanes and registrations have done since.
-/

set_option autoImplicit false

namespace Callboard

namespace Dispatch

theorem entry_refused {η : Type} {registry : Registry η} {c : Call} {o : Outcome}
    {rs : List Log.Record} (h : Call.entry registry c = (.refused o, rs)) :
    o.target = c.target := by
  unfold Call.entry at h
  split at h
  · cases h
    rfl
  · cases h

theorem enter_refused {η : Type} {policy : Policy} {registry : Registry η} {target : Text}
    {o : Outcome} {rs : List Log.Record} (h : enter policy registry target = (.refused o, rs)) :
    o.target = target := by
  unfold enter at h
  split at h
  · cases h
    rfl
  split at h
  · exact entry_refused h
  · obtain ⟨hentry, -⟩ := Prod.mk.inj h
    exact entry_refused (Prod.ext hentry rfl)
  · cases h
    rfl

theorem enter_admitted_target {η : Type} {policy : Policy} {registry : Registry η} {target : Text}
    {c : Call} {handler : η} {rs : List Log.Record}
    (h : enter policy registry target = (.admitted c handler, rs)) :
    c.target = target ∧ ∃ i, Invocation.parse? target = some i ∧ c.task = i.name := by
  unfold enter at h
  split at h
  · cases h
  next i hi =>
  split at h
  · obtain ⟨rfl, -⟩ := entry_admitted h
    exact ⟨rfl, i, hi, rfl⟩
  · obtain ⟨hentry, -⟩ := Prod.mk.inj h
    obtain ⟨rfl, -⟩ := entry_admitted (Prod.ext hentry rfl)
    exact ⟨rfl, i, hi, rfl⟩
  · cases h

theorem settle_target {c : Call} {result : Except Failure Value} {o : Outcome}
    (h : (c.settle result).1 = .outcome o) : o.target = c.target := by
  unfold Call.settle at h
  split at h
  · obtain rfl := Answer.outcome.inj h
    rfl
  · split at h
    · obtain rfl := Answer.outcome.inj h
      rfl
    · cases h

end Dispatch

/-- The entry is that of the call: its target was entered for the call, and the handler of
its task was called with its arguments. -/
def Begun.For (policy : Policy) (b : Begun) (c : Call) : Prop :=
  ∃ handler, Dispatch.enter policy b.registry b.target = (.admitted c handler, b.records) ∧
    b.invoked = some (handler, c.arguments)

namespace Strand

def calls : Strand → List Call
  | .running _ c callers => c :: callers.map Waiting.call
  | _ => []

theorem calls_resume (a : Answer) (callers : List Waiting) :
    (resume a callers).calls = callers.map Waiting.call := by
  cases callers with
  | nil => rfl
  | cons w callers => cases a <;> rfl

theorem Enters.calls {s : Strand} {target : Text} {callers : List Waiting}
    (h : s.Enters target callers) : s.calls = callers.map Waiting.call := by
  cases h <;> rfl

end Strand

namespace Lane

def Rooted (l : Lane) : Prop :=
  match l.strand with
  | .unstarted target => target = l.target
  | .running _ _ _ => ∃ b, l.ledger.pending.getLast? = some b ∧ b.target = l.target
  | .done a => ∃ f, l.ledger.finished.head? = some f ∧ f.target = l.target ∧ f.answer = a

structure Aligned (policy : Policy) (l : Lane) : Prop where
  pending : List.Forall₂ (Begun.For policy) l.ledger.pending l.strand.calls
  rooted : l.Rooted
  answered : ∀ f ∈ l.ledger.finished, ∀ o, f.answer = .outcome o → o.target = f.target

variable {policy : Policy}

theorem aligned_fresh (target : Text) : (fresh target).Aligned policy :=
  ⟨.nil, rfl, fun _ hf => absurd hf List.not_mem_nil⟩

theorem rooted_resume {t : Text} {a : Answer} {callers : List Waiting} {g : Ledger}
    (hdone : callers = [] → ∃ f, g.finished.head? = some f ∧ f.target = t ∧ f.answer = a)
    (hgoes : callers ≠ [] → ∃ b, g.pending.getLast? = some b ∧ b.target = t) :
    (Lane.mk t (.resume a callers) g).Rooted := by
  cases callers with
  | nil => exact hdone rfl
  | cons w callers => cases a <;> exact hgoes (List.cons_ne_nil w callers)

theorem Aligned.turn {w w' : World} {l l' : Lane} (h : l.Aligned policy)
    (hturn : Turn policy w l w' l') : l'.Aligned policy := by
  obtain ⟨hpending, hroot, hanswered⟩ := h
  cases hturn with
  | rests => exact ⟨hpending, hroot, hanswered⟩
  | goes _ => exact ⟨hpending, hroot, hanswered⟩
  | cut _ => exact ⟨hpending, hroot, hanswered⟩
  | @refused t target s callers g o rs hs he =>
    constructor
    · rw [Strand.calls_resume, ← hs.calls]
      exact hpending
    · cases hs with
      | first _ => exact rooted_resume (fun _ => ⟨_, rfl, hroot, rfl⟩) (fun h => absurd rfl h)
      | nested _ _ _ _ => exact rooted_resume (fun h => by cases h) (fun _ => hroot)
    · intro f hf o' ho'
      rcases List.mem_cons.mp hf with rfl | hf
      · obtain rfl := Answer.outcome.inj ho'
        exact Dispatch.enter_refused he
      · exact hanswered f hf o' ho'
  | @admitted t target s callers g c handler rs hs he =>
    refine ⟨?_, ?_, hanswered⟩
    · refine .cons ⟨handler, he, rfl⟩ ?_
      rw [← hs.calls]
      exact hpending
    · cases hs with
      | first _ =>
        have hnil : g.pending = [] := List.forall₂_nil_right_iff.mp hpending
        refine ⟨⟨target, w.registry, some (handler, c.arguments), rs⟩, ?_, hroot⟩
        show (_ :: g.pending).getLast? = _
        rw [hnil]
        rfl
      | nested _ _ _ _ =>
        obtain ⟨b, hb, htarget⟩ := hroot
        exact ⟨b, by simp [List.getLast?_cons, hb], htarget⟩
  | @ends t script c callers g result h =>
    obtain ⟨pending, finished⟩ := g
    cases hpending with | @cons b _ pending _ hb hpending =>
    obtain ⟨handler, henter, -⟩ := hb
    refine ⟨?_, ?_, ?_⟩
    · rw [Strand.calls_resume]
      exact hpending
    · obtain ⟨root, hlast, htarget⟩ := hroot
      apply rooted_resume
      · rintro rfl
        obtain rfl := List.forall₂_nil_right_iff.mp hpending
        obtain rfl := Option.some.inj hlast
        exact ⟨_, rfl, htarget, rfl⟩
      · intro hne
        obtain ⟨_, _, rfl⟩ := List.exists_cons_of_ne_nil hne
        cases hpending with
        | cons _ _ => exact ⟨root, hlast, htarget⟩
    · intro f hf o ho
      rcases List.mem_cons.mp hf with rfl | hf
      · exact (Dispatch.settle_target ho).trans (Dispatch.enter_admitted_target henter).1
      · exact hanswered f hf o ho

theorem aligned_play (es : List Event) (w : World) :
    ∀ l ∈ ((Scene.start w).play policy es).lanes, l.Aligned policy :=
  Scene.play_lanes aligned_fresh (fun l w h => h.turn (step_turn policy l w)) es
    fun _ hl => absurd hl List.not_mem_nil

end Lane

/-- What the registry makes of a target, if handlers end as `result` says. -/
def verdict (policy : Policy) (result : Handler → List Value → Except Failure Value)
    (registry : Registry Handler) (target : Text) : Finished :=
  match Dispatch.enter policy registry target with
  | (.refused o, rs) => ⟨⟨target, registry, none, rs⟩, .outcome o⟩
  | (.admitted c handler, rs) =>
    ⟨⟨target, registry, some (handler, c.arguments),
      rs ++ (c.settle (result handler c.arguments)).2⟩, (c.settle (result handler c.arguments)).1⟩

section
variable (policy : Policy) (result : Handler → List Value → Except Failure Value)

/-- If the lane is about to end a call, its handler has ended as `result` says. -/
def Lane.Keeps (l : Lane) : Prop :=
  ∀ c r, l.strand.ending? = some (c, r) → ∀ b ∈ l.ledger.pending.head?, ∀ handler args,
    b.invoked = some (handler, args) → r = result handler args

/-- Along the schedule the outcome of a handler is decided by its arguments: when the call of
a handler ends, it ends as `result` says. -/
def ArgumentsDecide : List Event → Scene → Prop
  | [], _ => True
  | e :: es, s => (∀ l ∈ s.lanes, l.Keeps result) ∧ ArgumentsDecide es (s.move policy e)

def Lane.Settled (l : Lane) : Prop :=
  ∀ f ∈ l.ledger.finished, f = verdict policy result f.registry f.target

end

section
variable {policy : Policy} {result : Handler → List Value → Except Failure Value}

theorem Lane.Settled.turn {w w' : World} {l l' : Lane} (h : l.Settled policy result)
    (hl : l.Aligned policy) (hkeeps : l.Keeps result) (hturn : Turn policy w l w' l') :
    l'.Settled policy result := by
  cases hturn with
  | rests => exact h
  | goes _ => exact h
  | cut _ => exact h
  | @refused t target s callers g o rs hs he =>
    intro f hf
    rcases List.mem_cons.mp hf with rfl | hf
    · simp only [verdict, he]
    · exact h f hf
  | admitted hs he => exact h
  | @ends t script c callers g r hends =>
    obtain ⟨pending, finished⟩ := g
    obtain ⟨hpending, -, -⟩ := hl
    cases hpending with | @cons b _ pending _ hb hpending =>
    obtain ⟨handler, henter, hinvoked⟩ := hb
    have hending : (Strand.running script c callers).ending? = some (c, r) :=
      Strand.ending?_eq_some_iff.mpr ⟨_, _, rfl, hends⟩
    have hresult : r = result handler c.arguments := hkeeps c r hending b rfl handler _ hinvoked
    intro f hf
    rcases List.mem_cons.mp hf with rfl | hf
    · simp only [verdict, henter, hinvoked, hresult]
    · exact h f hf

theorem settled_move {s : Scene} (hs : ∀ l ∈ s.lanes, l.Aligned policy ∧ l.Settled policy result)
    (hkeeps : ∀ l ∈ s.lanes, l.Keeps result) (e : Event) :
    ∀ l ∈ (s.move policy e).lanes, l.Aligned policy ∧ l.Settled policy result := by
  cases e with
  | arrive target =>
    intro l hl
    rcases List.mem_append.mp hl with hl | hl
    · exact hs l hl
    · obtain rfl := List.mem_singleton.mp hl
      exact ⟨Lane.aligned_fresh target, fun f hf => absurd hf List.not_mem_nil⟩
  | register t => exact hs
  | step i =>
    rw [Scene.move]
    split
    · exact hs
    · next l hl =>
      have hmem := List.mem_of_getElem? hl
      have hturn := Lane.step_turn policy l s.world
      obtain ⟨haligned, hsettled⟩ := hs l hmem
      intro l' hl'
      rcases List.mem_or_eq_of_mem_set hl' with hl' | rfl
      · exact hs l' hl'
      · exact ⟨haligned.turn hturn, hsettled.turn haligned (hkeeps l hmem) hturn⟩

/-- Every call that ends along a schedule is what the registry of its lookup makes of its
target. -/
theorem settled_play {es : List Event} {s : Scene}
    (hs : ∀ l ∈ s.lanes, l.Aligned policy ∧ l.Settled policy result)
    (hdecide : ArgumentsDecide policy result es s) :
    ∀ l ∈ (s.play policy es).lanes, l.Settled policy result := by
  induction es generalizing s with
  | nil => exact fun l hl => (hs l hl).2
  | cons e es ih => exact ih (settled_move hs hdecide.1 e) hdecide.2

end

end Callboard
