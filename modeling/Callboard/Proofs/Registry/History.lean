import Callboard.Proofs.Value.Fields
import Callboard.Registry
import Mathlib.Data.Finset.Card

/-!
# The history of a registry

A registry is what its registrations come to: every name stands at the place of its first
registration and has the task of its last. Whatever is looked up in between changes nothing,
and the log has an announcement for every registration, behind a warning if the name was
taken.
-/

set_option autoImplicit false

namespace Callboard.Registry

variable {η : Type}

/-- The names that tasks were registered under, each at the place of its first registration. -/
def firsts (h : List (Descriptor η)) : List Text := (h.map Descriptor.name).eraseDups

def last? (h : List (Descriptor η)) (name : Text) : Option (Descriptor η) :=
  (h.filter (fun t => t.name == name)).getLast?

def standing (h : List (Descriptor η)) : List (Descriptor η) := (firsts h).filterMap (last? h)

inductive Noted : List (Descriptor η) → List Log.Record → Prop where
  | nothing : Noted [] []
  | fresh {h : List (Descriptor η)} {rs : List Log.Record} {t : Descriptor η} (hrs : Noted h rs)
      (ht : t.name ∉ h.map Descriptor.name) : Noted (h ++ [t]) (rs ++ [registered t.name])
  | again {h : List (Descriptor η)} {rs : List Log.Record} {t : Descriptor η} (hrs : Noted h rs)
      (ht : t.name ∈ h.map Descriptor.name) :
      Noted (h ++ [t]) (rs ++ [replacing t.name, registered t.name])

theorem mem_firsts {h : List (Descriptor η)} {name : Text} :
    name ∈ firsts h ↔ name ∈ h.map Descriptor.name :=
  List.mem_eraseDups

theorem firsts_nodup (h : List (Descriptor η)) : (firsts h).Nodup := nodup_eraseDups _

theorem firsts_concat (h : List (Descriptor η)) (t : Descriptor η) :
    firsts (h ++ [t]) =
      if t.name ∈ h.map Descriptor.name then firsts h else firsts h ++ [t.name] := by
  rw [firsts, List.map_append, List.map_singleton, eraseDups_concat]
  rfl

theorem card_firsts (h : List (Descriptor η)) :
    (h.map Descriptor.name).toFinset.card = (firsts h).length := by
  rw [← List.toFinset_card_of_nodup (firsts_nodup h)]
  congr 1
  ext name
  rw [List.mem_toFinset, List.mem_toFinset, mem_firsts]

theorem last?_concat (h : List (Descriptor η)) (t : Descriptor η) (name : Text) :
    last? (h ++ [t]) name = if t.name = name then some t else last? h name := by
  by_cases ht : t.name = name
  · simp [last?, ht]
  · simp [last?, ht]

theorem last?_eq_none_iff {h : List (Descriptor η)} {name : Text} :
    last? h name = none ↔ name ∉ h.map Descriptor.name := by
  simp [last?]

def isWarning (r : Log.Record) : Bool := r.level == Log.Level.warning

/-- The registrations that were warned of are those that brought no name. -/
theorem Noted.warnings {h : List (Descriptor η)} {rs : List Log.Record} (hrs : Noted h rs) :
    rs.countP isWarning + (firsts h).length = h.length := by
  have hreplacing : ∀ name, isWarning (replacing name) = true := fun _ => rfl
  have hregistered : ∀ name, isWarning (registered name) = false := fun _ => rfl
  induction hrs with
  | nothing => rfl
  | fresh _ ht ih =>
    rw [firsts_concat, if_neg ht]
    simp [List.countP_append, hregistered]
    omega
  | again _ ht ih =>
    rw [firsts_concat, if_pos ht]
    simp [List.countP_append, hregistered, hreplacing]
    omega

theorem names_place (t : Descriptor η) (ts : List (Descriptor η)) :
    (place t ts).map Descriptor.name =
      if t.name ∈ ts.map Descriptor.name then ts.map Descriptor.name
      else ts.map Descriptor.name ++ [t.name] := by
  induction ts with
  | nil => rfl
  | cons u ts ih =>
    by_cases hu : u.name = t.name
    · simp [place, hu]
    · rw [place, if_neg hu, List.map_cons, ih, List.map_cons]
      by_cases ht : t.name ∈ ts.map Descriptor.name
      · rw [if_pos ht, if_pos (List.mem_cons_of_mem _ ht)]
      · have hcons : t.name ∉ u.name :: ts.map Descriptor.name :=
          List.not_mem_cons_of_ne_of_not_mem (Ne.symm hu) ht
        rw [if_neg ht, if_neg hcons, List.cons_append]

theorem names_put (r : Registry η) (t : Descriptor η) :
    (r.put t).names = if t.name ∈ r.names then r.names else r.names ++ [t.name] :=
  names_place t r.tasks

theorem lookup_put (r : Registry η) (t : Descriptor η) (name : Text) :
    (r.put t).lookup name = if t.name = name then some t else r.lookup name := by
  by_cases ht : t.name = name
  · subst ht
    rw [lookup_put_self, if_pos rfl]
  · rw [lookup_put_of_ne r (Ne.symm ht), if_neg ht]

theorem contains_iff (r : Registry η) (name : Text) : r.contains name = true ↔ name ∈ r.names := by
  simp [contains, lookup, names]

theorem lookup_of_mem {r : Registry η} (hn : r.names.Nodup) {t : Descriptor η} (ht : t ∈ r.tasks) :
    r.lookup t.name = some t := by
  obtain ⟨tasks⟩ := r
  unfold names at hn
  unfold lookup
  induction tasks with
  | nil => cases ht
  | cons u ts ih =>
    obtain ⟨hu, hts⟩ := List.nodup_cons.mp hn
    rcases List.mem_cons.mp ht with rfl | ht
    · simp
    · have hne : u.name ≠ t.name := fun he => hu (he ▸ List.mem_map_of_mem ht)
      rw [List.find?_cons_of_neg (by simpa using hne)]
      exact ih hts ht

structure Records (h : List (Descriptor η)) (r : Registry η) : Prop where
  names : r.names = firsts h
  nodup : r.names.Nodup
  lookup : ∀ name, r.lookup name = last? h name
  unknown : ∀ name, r.lookup name = none ↔ name ∉ h.map Descriptor.name
  length : r.tasks.length = r.names.length
  aligned : ∀ (i : Nat) t, r.tasks[i]? = some t → r.names[i]? = some t.name ∧ r.lookup t.name = some t
  contains : ∀ name, r.contains name = true ↔ name ∈ r.names
  size : r.size = (h.map Descriptor.name).toFinset.card

theorem Records.of {h : List (Descriptor η)} {r : Registry η} (hn : r.names = firsts h)
    (hl : ∀ name, r.lookup name = last? h name) : Records h r := by
  have hnodup : r.names.Nodup := hn ▸ firsts_nodup h
  have hlength : r.tasks.length = r.names.length := (List.length_map _).symm
  refine ⟨hn, hnodup, hl, fun name => ?_, hlength, fun i t ht => ⟨?_, ?_⟩, contains_iff r, ?_⟩
  · rw [hl, last?_eq_none_iff]
  · rw [Registry.names, List.getElem?_map, ht]
    rfl
  · exact lookup_of_mem hnodup (List.mem_of_getElem? ht)
  · rw [card_firsts, ← hn]
    exact hlength

theorem Records.tasks_eq {h : List (Descriptor η)} {r : Registry η} (hr : Records h r) :
    r.tasks = standing h := by
  have hself : ∀ t ∈ r.tasks, last? h t.name = some t := by
    intro t ht
    rw [← hr.lookup]
    exact lookup_of_mem hr.nodup ht
  rw [standing, ← hr.names, Registry.names, List.filterMap_map]
  exact (List.filterMap_some.symm).trans (List.filterMap_congr fun t ht => (hself t ht).symm)

theorem records_empty : Records [] (empty : Registry η) := .of rfl fun _ => rfl

theorem Records.register {h : List (Descriptor η)} {r : Registry η} (hr : Records h r)
    (t : Descriptor η) : Records (h ++ [t]) (r.register t).1 := by
  apply Records.of
  · show (r.put t).names = _
    rw [names_put, hr.names, firsts_concat]
    simp only [mem_firsts]
  · intro name
    rw [last?_concat, ← hr.lookup]
    exact lookup_put r t name

/-- Whether there is a warning is decided before the task is put in its place. -/
theorem Records.notes {h : List (Descriptor η)} {r : Registry η} (hr : Records h r)
    {rs : List Log.Record} (hrs : Noted h rs) (t : Descriptor η) :
    Noted (h ++ [t]) (rs ++ (r.register t).2) := by
  have hmem : r.contains t.name = true ↔ t.name ∈ h.map Descriptor.name := by
    rw [hr.contains, hr.names, mem_firsts]
  show Noted _ (rs ++ r.notes t.name)
  by_cases ht : t.name ∈ h.map Descriptor.name
  · rw [Registry.notes, if_pos (hmem.mpr ht)]
    exact .again hrs ht
  · rw [Registry.notes, if_neg (mt hmem.mp ht)]
    exact .fresh hrs ht

end Callboard.Registry
