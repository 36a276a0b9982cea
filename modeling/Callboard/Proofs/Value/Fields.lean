import Callboard.Value.Basic
import Mathlib.Data.List.Induction

/-!
# What assigning pairs comes to

Pairs that are assigned one after the other settle: every key stands once, at the
place of its first pair and with the value of its last. Pairs with different keys
settle as they are.
-/

set_option autoImplicit false

namespace Callboard

/-- The fields that pairs come to: every key once and at the place of its first pair,
with the value of its last. -/
def settled (pairs : List (Text × Value)) : List (Text × Value) :=
  (pairs.map Prod.fst).eraseDups.map (fun k => (k, (field? k pairs.reverse).getD .null))

theorem assign_map_of_mem {k : Text} (v : Value) (g : Text → Value) {ks : List Text}
    (hn : ks.Nodup) (hk : k ∈ ks) :
    assign k v (ks.map (fun x => (x, g x))) =
      ks.map (fun x => (x, if k = x then v else g x)) := by
  induction ks with
  | nil => simp at hk
  | cons a ks ih =>
    obtain ⟨ha, hn⟩ := List.nodup_cons.mp hn
    by_cases hak : a = k
    · subst hak
      have hrest : ∀ x ∈ ks, ¬ a = x := fun x hx hax => ha (hax ▸ hx)
      simp only [List.map_cons, assign, if_true, List.cons.injEq, true_and]
      exact List.map_congr_left (fun x hx => by simp [hrest x hx])
    · have hk : k ∈ ks := (List.mem_cons.mp hk).resolve_left (Ne.symm hak)
      simp [assign, hak, Ne.symm hak, ih hn hk]

theorem assign_of_not_mem {k : Text} (v : Value) {fields : List (Text × Value)}
    (hk : k ∉ fields.map Prod.fst) : assign k v fields = fields ++ [(k, v)] := by
  induction fields with
  | nil => rfl
  | cons f fields ih =>
    obtain ⟨a, w⟩ := f
    simp only [List.map_cons, List.mem_cons, not_or] at hk
    simp [assign, Ne.symm hk.1, ih hk.2]

theorem eraseDups_concat (ks : List Text) (k : Text) :
    (ks ++ [k]).eraseDups = if k ∈ ks then ks.eraseDups else ks.eraseDups ++ [k] := by
  rw [List.eraseDups_append]
  by_cases hk : k ∈ ks
  · simp [hk, List.removeAll]
  · simp [hk, List.removeAll, List.eraseDups_cons]

theorem nodup_eraseDups (ks : List Text) : ks.eraseDups.Nodup := by
  induction ks using List.reverseRecOn with
  | nil => simp
  | append_singleton ks k ih =>
    rw [eraseDups_concat]
    split
    · exact ih
    · next hk =>
      refine List.nodup_append.mpr ⟨ih, by simp, fun a ha b hb => ?_⟩
      rintro rfl
      rw [List.mem_singleton] at hb
      exact hk (hb ▸ List.mem_eraseDups.mp ha)

theorem assignAll_concat (pairs : List (Text × Value)) (k : Text) (v : Value) :
    assignAll (pairs ++ [(k, v)]) = assign k v (assignAll pairs) := by
  simp [assignAll]

theorem field?_cons (k a : Text) (v : Value) (fields : List (Text × Value)) :
    field? k ((a, v) :: fields) = if a = k then some v else field? k fields := rfl

theorem settled_keys (pairs : List (Text × Value)) :
    (settled pairs).map Prod.fst = (pairs.map Prod.fst).eraseDups := by
  simp [settled, Function.comp_def]

theorem settled_nodup (pairs : List (Text × Value)) : ((settled pairs).map Prod.fst).Nodup := by
  rw [settled_keys]
  exact nodup_eraseDups _

theorem assignAll_eq_settled (pairs : List (Text × Value)) : assignAll pairs = settled pairs := by
  induction pairs using List.reverseRecOn with
  | nil => rfl
  | append_singleton pairs p ih =>
    obtain ⟨k, v⟩ := p
    rw [assignAll_concat, ih]
    by_cases hk : k ∈ pairs.map Prod.fst
    · have hmem : k ∈ (pairs.map Prod.fst).eraseDups := List.mem_eraseDups.mpr hk
      rw [settled, assign_map_of_mem v _ (nodup_eraseDups _) hmem, settled, List.map_append,
        List.map_singleton, eraseDups_concat, if_pos hk]
      refine List.map_congr_left (fun x _ => ?_)
      rw [List.reverse_append, List.reverse_singleton, List.singleton_append, field?_cons]
      by_cases hx : k = x <;> simp [hx]
    · have hmem : k ∉ (settled pairs).map Prod.fst := by
        rw [settled_keys]
        exact mt List.mem_eraseDups.mp hk
      rw [assign_of_not_mem v hmem, settled, settled, List.map_append, List.map_singleton,
        eraseDups_concat, if_neg hk, List.map_append]
      congr 1
      · refine List.map_congr_left (fun x hx => ?_)
        have hxk : k ≠ x := by
          rintro rfl
          exact hk (List.mem_eraseDups.mp hx)
        simp [field?_cons, hxk]
      · simp [field?_cons]

theorem settled_of_nodup {pairs : List (Text × Value)} (hn : (pairs.map Prod.fst).Nodup) :
    settled pairs = pairs := by
  rw [← assignAll_eq_settled]
  induction pairs using List.reverseRecOn with
  | nil => rfl
  | append_singleton pairs p ih =>
    obtain ⟨k, v⟩ := p
    rw [List.map_append, List.nodup_append] at hn
    obtain ⟨hn, -, hdisjoint⟩ := hn
    rw [assignAll_concat, ih hn]
    exact assign_of_not_mem v (fun hk => hdisjoint k hk k (by simp) rfl)

theorem mem_of_field? {k : Text} {v : Value} {fields : List (Text × Value)}
    (h : field? k fields = some v) : (k, v) ∈ fields := by
  induction fields with
  | nil => cases h
  | cons f fields ih =>
    obtain ⟨a, w⟩ := f
    rw [field?_cons] at h
    split at h
    · next ha =>
      obtain rfl := Option.some.inj h
      simp [ha]
    · exact List.mem_cons_of_mem _ (ih h)

theorem field?_isSome {k : Text} {fields : List (Text × Value)} (hk : k ∈ fields.map Prod.fst) :
    ∃ v, field? k fields = some v := by
  induction fields with
  | nil => simp at hk
  | cons f fields ih =>
    obtain ⟨a, w⟩ := f
    rw [field?_cons]
    by_cases ha : a = k
    · exact ⟨w, if_pos ha⟩
    · obtain ⟨v, hv⟩ := ih ((List.mem_cons.mp hk).resolve_left (Ne.symm ha))
      exact ⟨v, by rw [if_neg ha, hv]⟩

theorem mem_of_mem_settled {f : Text × Value} {pairs : List (Text × Value)}
    (h : f ∈ settled pairs) : f ∈ pairs := by
  obtain ⟨k, hk, rfl⟩ := List.mem_map.mp h
  have hrev : k ∈ pairs.reverse.map Prod.fst := by simpa using List.mem_eraseDups.mp hk
  obtain ⟨v, hv⟩ := field?_isSome hrev
  rw [hv]
  exact List.mem_reverse.mp (mem_of_field? hv)

end Callboard
