import Callboard.Proofs.Literal.Image

/-!
# How deep a literal may be nested

A value that can be written reads back as long as none of its parts lies deeper than the
greatest depth, and is refused for its depth otherwise. Nothing in between happens, and
normalization makes no difference.
-/

set_option autoImplicit false

namespace Callboard

namespace Value

mutual
/-- The depth of the deepest part of a value, which lies itself at depth 0. -/
def depth : Value → Nat
  | .list items => itemsDepth items
  | .tuple items => itemsDepth items
  | .set items => itemsDepth items
  | .mapping entries => entriesDepth entries
  | _ => 0

def itemsDepth : List Value → Nat
  | [] => 0
  | v :: vs => max (depth v + 1) (itemsDepth vs)

def entriesDepth : List (Value × Value) → Nat
  | [] => 0
  | (_, v) :: entries => max (depth v + 1) (entriesDepth entries)
end

theorem itemsDepth_lt_iff (items : List Value) (n : Nat) :
    itemsDepth items < n + 1 ↔ ∀ v ∈ items, v.depth < n := by
  induction items with
  | nil => simp [itemsDepth]
  | cons v vs ih =>
    rw [itemsDepth, Nat.max_lt, ih, List.forall_mem_cons, Nat.add_lt_add_iff_right]

theorem depth_record_lt_iff (fields : List (Text × Value)) (n : Nat) :
    (record fields).depth < n + 1 ↔ ∀ f ∈ fields, f.2.depth < n := by
  rw [record, depth]
  induction fields with
  | nil => simp [entriesDepth]
  | cons f fields ih =>
    rw [List.map_cons, entriesDepth, Nat.max_lt, ih, List.forall_mem_cons,
      Nat.add_lt_add_iff_right]

mutual
theorem depth_listed (v : Value) : v.listed.depth = v.depth := by
  cases v with
  | list items => exact itemsDepth_listed items
  | tuple items => exact itemsDepth_listed items
  | mapping entries => exact entriesDepth_listed entries
  | _ => rfl

theorem itemsDepth_listed (items : List Value) :
    itemsDepth (listedItems items) = itemsDepth items := by
  cases items with
  | nil => rfl
  | cons v vs => rw [listedItems, itemsDepth, itemsDepth, depth_listed v, itemsDepth_listed vs]

theorem entriesDepth_listed (entries : List (Value × Value)) :
    entriesDepth (listedEntries entries) = entriesDepth entries := by
  cases entries with
  | nil => rfl
  | cons e entries =>
    rw [listedEntries, entriesDepth, entriesDepth, depth_listed e.2, entriesDepth_listed entries]
end

mutual
def Keyed : Value → Prop
  | .list items => ItemsKeyed items
  | .tuple items => ItemsKeyed items
  | .set items => ItemsKeyed items
  | .mapping entries =>
    entries.Pairwise (fun e f => e.1.sameKey f.1 = false) ∧ EntriesKeyed entries
  | _ => True

def ItemsKeyed : List Value → Prop
  | [] => True
  | v :: vs => Keyed v ∧ ItemsKeyed vs

def EntriesKeyed : List (Value × Value) → Prop
  | [] => True
  | (_, v) :: entries => Keyed v ∧ EntriesKeyed entries
end

end Value

namespace Literal

open Text Invocation

theorem Denotes.depth_lt {levels : Nat} {t : Text} {v : Value} (h : Denotes levels t v) :
    v.depth < levels := by
  induction levels generalizing t v with
  | zero => exact h.elim
  | succ levels ih =>
    cases h with
    | text _ => exact Nat.succ_pos _
    | int _ _ _ => exact Nat.succ_pos _
    | float _ _ => exact Nat.succ_pos _
    | word h =>
      simp only [words, List.mem_cons, Prod.mk.injEq, List.not_mem_nil, or_false] at h
      rcases h with ⟨-, rfl⟩ | ⟨-, rfl⟩ | ⟨-, rfl⟩ | ⟨-, rfl⟩ <;> exact Nat.succ_pos _
    | list h =>
      apply (Value.itemsDepth_lt_iff _ _).mpr
      intro w hw
      obtain ⟨u, -, hu⟩ := h.denoted hw
      exact ih hu
    | mapping h =>
      apply (Value.depth_record_lt_iff _ _).mpr
      intro f hf
      obtain ⟨u, -, hu⟩ := h.denoted (mem_of_mem_settled hf)
      exact ih hu

theorem keys_nodup {fields : List (Text × Value)}
    (h : (fields.map (fun f => (Value.text f.1, f.2))).Pairwise
      (fun e f => e.1.sameKey f.1 = false)) : (fields.map Prod.fst).Nodup := by
  rw [List.pairwise_map] at h
  rw [List.Nodup, List.pairwise_map]
  apply h.imp
  intro a b hab
  simpa [Value.sameKey] using hab

mutual
theorem writable_of_write (v : Value) {levels : Nat} {t : Text} (h : write v = .ok t)
    (hk : v.Keyed) (hd : v.depth < levels) : Writable levels v := by
  obtain ⟨levels, rfl⟩ : ∃ n, levels = n + 1 := ⟨levels - 1, by omega⟩
  cases v with
  | null => exact .null
  | bool b => exact .bool b
  | int i =>
    apply Writable.int
    apply Nat.not_lt.mp
    intro hlong
    rw [write, Value.intText?, if_pos hlong] at h
    cases h
  | float x =>
    apply Writable.float
    rw [write] at h
    split at h
    · assumption
    · cases h
  | text t => exact .text t
  | list items =>
    rw [write] at h
    split at h
    · cases h
    next ts hts => exact .list (writable_of_writeItems items hts hk hd)
  | tuple items =>
    rw [write] at h
    split at h
    · cases h
    next ts hts => exact .tuple (writable_of_writeItems items hts hk hd)
  | mapping entries =>
    rw [write] at h
    split at h
    · cases h
    next ts hts =>
    obtain ⟨fields, rfl, hfields⟩ := writable_of_writeEntries entries hts hk.2 hd
    exact .mapping (keys_nodup hk.1) hfields
  | bytes t => cases h
  | set items => cases h
  | object => cases h

theorem writable_of_writeItems (items : List Value) {levels : Nat} {ts : List Text}
    (h : writeItems items = .ok ts) (hk : Value.ItemsKeyed items)
    (hd : Value.itemsDepth items < levels + 1) : ∀ v ∈ items, Writable levels v := by
  cases items with
  | nil => simp
  | cons v vs =>
    rw [writeItems] at h
    split at h
    · cases h
    next t ht =>
    split at h
    · cases h
    next us hus =>
    rw [Value.itemsDepth, Nat.max_lt] at hd
    have hv := writable_of_write v ht hk.1 (Nat.lt_of_succ_lt_succ hd.1)
    have hvs := writable_of_writeItems vs hus hk.2 hd.2
    intro w hw
    rcases List.mem_cons.mp hw with rfl | hw
    · exact hv
    · exact hvs w hw

theorem writable_of_writeEntries (entries : List (Value × Value)) {levels : Nat} {ts : List Text}
    (h : writeEntries entries = .ok ts) (hk : Value.EntriesKeyed entries)
    (hd : Value.entriesDepth entries < levels + 1) :
    ∃ fields : List (Text × Value), entries = fields.map (fun f => (.text f.1, f.2)) ∧
      ∀ f ∈ fields, Writable levels f.2 := by
  cases entries with
  | nil => exact ⟨[], rfl, by simp⟩
  | cons e entries =>
    obtain ⟨k, v⟩ := e
    cases k with
    | text k =>
      rw [writeEntries] at h
      split at h
      · cases h
      next t ht =>
      split at h
      · cases h
      next us hus =>
      rw [Value.entriesDepth, Nat.max_lt] at hd
      have hv := writable_of_write v ht hk.1 (Nat.lt_of_succ_lt_succ hd.1)
      obtain ⟨fields, rfl, hfields⟩ := writable_of_writeEntries entries hus hk.2 hd.2
      refine ⟨(k, v) :: fields, rfl, ?_⟩
      intro f hf
      rcases List.mem_cons.mp hf with rfl | hf
      · exact hv
      · exact hfields f hf
    | _ => cases h
end

/-- A text that denotes a value is read as that value, or it takes more levels than there are
and is refused for that reason. -/
theorem read_denoted {levels : Nat} {t : Text} {v : Value} (h : Denotes levels t v) :
    read t = .ok v ∨ (maxDepth + 1 < levels ∧ ∃ e, read t = .error e ∧ e.reason = .nestingTooDeep) := by
  have hvalue := readValue_complete (maxDepth + 1) levels [] t v [] rfl h (by simp [Ends])
  rw [List.nil_append, List.append_nil] at hvalue
  rcases hvalue with hvalue | ⟨e, ⟨hlevels, hreason⟩, hvalue⟩
  · left
    simp only [read, readWhole, hvalue]
    rfl
  · right
    exact ⟨hlevels, ⟨e.reason, t.length - e.rest.length⟩, by simp only [read, readWhole, hvalue],
      hreason⟩

theorem read_depth_le {t : Text} {v : Value} (h : read t = .ok v) : v.depth ≤ maxDepth := by
  obtain ⟨a, body, b, -, -, hbody, -⟩ := read_eq_ok_iff.mp h
  exact Nat.le_of_lt_succ hbody.depth_lt

/-- The values that have a text are the writable ones. The text reads back as the value, with
its tuples as lists, if no part of the value lies deeper than the greatest depth; otherwise it
is refused because it is nested too deep. Normalization changes neither. -/
theorem written_reads_back_iff_depth {v : Value} (hkeys : v.Keyed) :
    ((∃ t, write v = .ok t) ↔ ∃ levels, Writable levels v) ∧
      ∀ t, write v = .ok t →
        (v.depth ≤ maxDepth → read t = .ok v.listed ∧ read (normalize t) = .ok v.listed) ∧
        (maxDepth < v.depth → ∃ e, e.reason = .nestingTooDeep ∧ read t = .error e ∧
          read (normalize t) = .error e) := by
  refine ⟨⟨?_, ?_⟩, ?_⟩
  · rintro ⟨t, ht⟩
    exact ⟨v.depth + 1, writable_of_write v ht hkeys (Nat.lt_succ_self _)⟩
  · rintro ⟨levels, h⟩
    obtain ⟨t, ht⟩ := h.written
    exact ⟨t, ht.write⟩
  · intro t ht
    have hwritable := writable_of_write v ht hkeys (Nat.lt_succ_self v.depth)
    obtain ⟨u, hu⟩ := hwritable.written
    obtain rfl : u = t := Except.ok.inj (hu.write.symm.trans ht)
    rw [hu.quiet.normalize]
    rcases read_denoted hu.denotes with hread | ⟨hlevels, e, hread, hreason⟩
    · have hdepth := read_depth_le hread
      rw [Value.depth_listed] at hdepth
      exact ⟨fun _ => ⟨hread, hread⟩, fun hdeep => absurd hdepth (Nat.not_le.mpr hdeep)⟩
    · have hdeep := Nat.lt_of_succ_lt_succ hlevels
      exact ⟨fun hdepth => absurd hdepth (Nat.not_le.mpr hdeep), fun _ => ⟨e, hreason, hread, hread⟩⟩

def tower : Nat → Value
  | 0 => .list []
  | n + 1 => .list [tower n]

theorem tower_keyed (n : Nat) : (tower n).Keyed := by
  induction n with
  | zero => trivial
  | succ n ih => exact ⟨ih, trivial⟩

theorem tower_depth (n : Nat) : (tower n).depth = n := by
  induction n with
  | zero => rfl
  | succ n ih => simp [tower, Value.depth, Value.itemsDepth, ih]

theorem tower_writable (n : Nat) : Writable (n + 1) (tower n) := by
  induction n with
  | zero => exact .list (by simp)
  | succ n ih => exact .list (by simpa using ih)

/-- An empty list is read at the greatest depth, and refused below it. -/
theorem written_reads_back_tower :
    (tower maxDepth).Keyed ∧ (tower (maxDepth + 1)).Keyed ∧
      (∃ t, write (tower maxDepth) = .ok t ∧ read t = .ok (tower maxDepth).listed) ∧
      ∃ t e, write (tower (maxDepth + 1)) = .ok t ∧ read t = .error e ∧
        e.reason = .nestingTooDeep := by
  have hhere := written_reads_back_iff_depth (tower_keyed maxDepth)
  have hbelow := written_reads_back_iff_depth (tower_keyed (maxDepth + 1))
  obtain ⟨t, ht⟩ := hhere.1.mpr ⟨_, tower_writable maxDepth⟩
  obtain ⟨u, hu⟩ := hbelow.1.mpr ⟨_, tower_writable (maxDepth + 1)⟩
  have hread := ((hhere.2 t ht).1 (tower_depth maxDepth).le).1
  obtain ⟨e, hreason, he, -⟩ := (hbelow.2 u hu).2 (by rw [tower_depth]; exact Nat.lt_succ_self _)
  exact ⟨tower_keyed _, tower_keyed _, ⟨t, ht, hread⟩, u, e, hu, he, hreason⟩

end Literal

end Callboard
