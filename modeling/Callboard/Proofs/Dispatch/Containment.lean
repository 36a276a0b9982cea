import Callboard.Builtin
import Callboard.Dispatch.Execute

/-!
# Containment

When handlers fail in ordinary ways only, executing a target answers with an outcome,
whatever the target and however executions are nested. The invariant is that every
handler in reach fails in ordinary ways: those of the registry, and those that scripts
register on their way.
-/

set_option autoImplicit false

namespace Callboard

/-- Whatever the script is answered, it fails in ordinary ways only, and so do the
handlers that it registers. -/
def Script.Ordinary : Script → Prop
  | .complete _ => True
  | .fail f => f.ordinary = true
  | .pause next => next.Ordinary
  | .note _ next => next.Ordinary
  | .emit _ next => next.Ordinary
  | .visit _ next => ∀ n, (next n).Ordinary
  | .register _ _ handler next => (∀ args, (handler args).Ordinary) ∧ next.Ordinary
  | .execute _ next => ∀ success, (next success).Ordinary

namespace World

def Ordinary (w : World) : Prop := ∀ t ∈ w.registry.tasks, ∀ args, (t.handler args).Ordinary

theorem ordinary_of_registry {w w' : World} (h : w'.registry = w.registry) (hw : w.Ordinary) :
    w'.Ordinary := by
  unfold Ordinary
  rw [h]
  exact hw

theorem mem_place {η : Type} {t u : Descriptor η} {ts : List (Descriptor η)}
    (h : u ∈ Registry.place t ts) : u = t ∨ u ∈ ts := by
  induction ts with
  | nil => exact .inl (List.mem_singleton.mp h)
  | cons v ts ih =>
    rw [Registry.place] at h
    split at h
    · rcases List.mem_cons.mp h with h | h
      · exact .inl h
      · exact .inr (List.mem_cons_of_mem v h)
    · rcases List.mem_cons.mp h with rfl | h
      · exact .inr List.mem_cons_self
      · rcases ih h with h | h
        · exact .inl h
        · exact .inr (List.mem_cons_of_mem v h)

theorem Ordinary.register {w : World} (hw : w.Ordinary) {t : Descriptor Handler}
    (ht : ∀ args, (t.handler args).Ordinary) : (w.register t).Ordinary := by
  intro u hu
  rcases mem_place hu with rfl | hu
  · exact ht
  · exact hw u hu

theorem ordinary_registerAll {ts : List (Descriptor Handler)}
    (hts : ∀ t ∈ ts, ∀ args, (t.handler args).Ordinary) {r : Registry Handler}
    (hr : (ofRegistry r).Ordinary) : (ofRegistry (r.registerAll ts).1).Ordinary := by
  induction ts generalizing r with
  | nil => exact hr
  | cons t ts ih =>
    have hput : (ofRegistry (r.register t).1).Ordinary :=
      Ordinary.register hr (hts t List.mem_cons_self)
    exact ih (fun u hu => hts u (List.mem_cons_of_mem t hu)) hput

end World

theorem Signature.bind_ordinary {s : Signature} {args : List Value} {f : Failure}
    (h : s.bind args = .error f) : f.ordinary = true := by
  unfold Signature.bind at h
  dsimp only at h
  split at h
  · obtain rfl := Except.error.inj h
    rfl
  · split at h
    · obtain rfl := Except.error.inj h
      rfl
    · cases h

namespace Builtin

theorem announcing_ordinary (s : Signature) (message : List Value → Text) (args : List Value) :
    (announcing s message args).Ordinary := by
  unfold announcing
  split
  · next h => exact Signature.bind_ordinary h
  · exact True.intro

theorem tasks_ordinary : ∀ t ∈ tasks, ∀ args, (t.handler args).Ordinary := by
  intro t ht args
  simp only [tasks, List.mem_cons, List.not_mem_nil, or_false] at ht
  rcases ht with rfl | rfl | rfl | rfl | rfl
  · exact announcing_ordinary _ _ args
  · exact announcing_ordinary _ _ args
  · exact announcing_ordinary _ _ args
  · exact announcing_ordinary _ _ args
  · exact announcing_ordinary _ _ args

theorem registry_ordinary : (World.ofRegistry registry.1).Ordinary :=
  World.ordinary_registerAll tasks_ordinary (fun _ ht => absurd ht List.not_mem_nil)

end Builtin

/-- An executor that keeps every handler in reach ordinary, and lets no other failure out
than ordinary ones. -/
def Contains (execute : Text → World → World × Answer) : Prop :=
  ∀ target w, w.Ordinary → (execute target w).1.Ordinary ∧
    ∀ f, (execute target w).2 = .escaped f → f.ordinary = true

theorem Script.run_ordinary {execute : Text → World → World × Answer} (he : Contains execute)
    {s : Script} (hs : s.Ordinary) {w : World} (hw : w.Ordinary) :
    (s.run execute w).1.Ordinary ∧ ∀ f, (s.run execute w).2 = .error f → f.ordinary = true := by
  induction s generalizing w with
  | complete v => exact ⟨hw, fun f hf => by cases hf⟩
  | fail g =>
    refine ⟨hw, fun f hf => ?_⟩
    obtain rfl := Except.error.inj hf
    exact hs
  | pause next ih => exact ih hs hw
  | note n next ih => exact ih hs (World.ordinary_of_registry rfl hw)
  | emit r next ih => exact ih hs (World.ordinary_of_registry rfl hw)
  | visit k next ih => exact ih _ (hs _) (World.ordinary_of_registry rfl hw)
  | register name description handler next _ ih => exact ih hs.2 (hw.register hs.1)
  | execute target next ih =>
    obtain ⟨hworld, hescaped⟩ := he target w hw
    rw [Script.run]
    split
    · next w' o heq =>
      rw [heq] at hworld
      exact ih _ (hs _) hworld
    · next w' g heq =>
      rw [heq] at hworld hescaped
      refine ⟨hworld, fun f hf => ?_⟩
      obtain rfl := Except.error.inj hf
      exact hescaped _ rfl

namespace Dispatch

theorem entry_admitted {η : Type} {registry : Registry η} {c c' : Call} {handler : η}
    {rs : List Log.Record} (h : Call.entry registry c = (.admitted c' handler, rs)) :
    c' = c ∧ ∃ t, registry.lookup c.task = some t ∧ t.handler = handler := by
  unfold Call.entry at h
  split at h
  · cases h
  · next t ht =>
    cases h
    exact ⟨rfl, t, ht, rfl⟩

theorem enter_admitted {η : Type} {policy : Policy} {registry : Registry η} {target : Text}
    {c : Call} {handler : η} {rs : List Log.Record}
    (h : enter policy registry target = (.admitted c handler, rs)) :
    ∃ t, registry.lookup c.task = some t ∧ t.handler = handler := by
  unfold enter at h
  split at h
  · cases h
  split at h
  · obtain ⟨rfl, ht⟩ := entry_admitted h
    exact ht
  · next e _ _ =>
    obtain ⟨hentry, -⟩ := Prod.mk.inj h
    obtain ⟨rfl, ht⟩ := entry_admitted (Prod.ext hentry rfl)
    exact ht
  · cases h

theorem mem_of_lookup {η : Type} {registry : Registry η} {name : Text} {t : Descriptor η}
    (h : registry.lookup name = some t) : t ∈ registry.tasks ∧ t.name = name :=
  ⟨List.mem_of_find?_eq_some h, by simpa using List.find?_some h⟩

theorem settle_of_ordinary {c : Call} {result : Except Failure Value}
    (h : ∀ f, result = .error f → f.ordinary = true) : ∃ o, (c.settle result).1 = .outcome o := by
  cases result with
  | ok v => exact ⟨_, rfl⟩
  | error f => exact ⟨_, by rw [Call.settle, if_pos (h f rfl)]⟩

theorem executeWithin_step {policy : Policy} {depth : Nat}
    (hdepth : Contains (executeWithin policy depth)) {w : World} (hw : w.Ordinary) (target : Text) :
    (executeWithin policy (depth + 1) target w).1.Ordinary ∧
      ∃ o, (executeWithin policy (depth + 1) target w).2 = .outcome o := by
  rw [executeWithin]
  split
  · exact ⟨World.ordinary_of_registry rfl hw, _, rfl⟩
  · next c handler rs henter =>
    obtain ⟨t, ht, rfl⟩ := enter_admitted henter
    have hhandler := hw t (mem_of_lookup ht).1 c.arguments
    have hworld := World.ordinary_of_registry (World.emit_registry w rs) hw
    have hrun := Script.run_ordinary hdepth hhandler hworld
    exact ⟨World.ordinary_of_registry rfl hrun.1, settle_of_ordinary hrun.2⟩

theorem executeWithin_contains (policy : Policy) (depth : Nat) :
    Contains (executeWithin policy depth) := by
  induction depth with
  | zero =>
    -- no level is left: the failure that says so is an ordinary one
    intro target w hw
    refine ⟨hw, fun f hf => ?_⟩
    obtain rfl := Answer.escaped.inj hf
    rfl
  | succ depth ih =>
    intro target w hw
    obtain ⟨hworld, o, ho⟩ := executeWithin_step ih hw target
    refine ⟨hworld, fun f hf => ?_⟩
    rw [ho] at hf
    cases hf

end Dispatch

end Callboard
