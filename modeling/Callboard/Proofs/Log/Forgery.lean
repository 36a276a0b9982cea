import Callboard.Log.Line
import Callboard.Proofs.Json.ReadBack
import Callboard.Proofs.Text.Digits
import Mathlib.Data.List.Basic

/-!
# Log lines cannot be forged

The JSON line of a record whose fields are texts is one line without control characters,
and reads back as an object with the texts of the record and nothing else. So whatever
stands in these texts, records with different contents have different lines.
-/

set_option autoImplicit false

namespace Callboard.Log

open Text Json

namespace Level

def named : List Level := [0, 10, 20, 30, 40, 50]

theorem name_of_not_named {level : Level} (h : level ∉ named) :
    name level = chars "Level " ++ signedDecimal level := by
  simp only [named, List.mem_cons, List.not_mem_nil, or_false, not_or] at h
  obtain ⟨h0, h10, h20, h30, h40, h50⟩ := h
  rw [name, if_neg h0, if_neg h10, if_neg h20, if_neg h30, if_neg h40, if_neg h50]

theorem ofName?_numbered (t : Text) : ofName? (chars "Level " ++ t) = none := by
  simp [ofName?, chars]

/-- A level that has no word is named by its number, and no word is such a name. -/
theorem name_injective {a b : Level} (h : name a = name b) : a = b := by
  have hread : ∀ {a b : Level}, a ∈ named → b ∉ named → name a ≠ name b := by
    intro a b ha hb heq
    have hword := ofName_name a ha
    rw [heq, name_of_not_named hb, ofName?_numbered] at hword
    cases hword
  by_cases ha : a ∈ named
  · by_cases hb : b ∈ named
    · have hword := ofName_name a ha
      rw [h, ofName_name b hb] at hword
      exact (Option.some.inj hword).symm
    · exact absurd h (hread ha hb)
  · by_cases hb : b ∈ named
    · exact absurd h.symm (hread hb ha)
    · rw [name_of_not_named ha, name_of_not_named hb] at h
      exact signedDecimal_injective (List.append_cancel_left h)

end Level

namespace Record

/-- The text that is noted under a key, unless it is null. -/
def noted? (r : Record) (k : Text) : Option Text :=
  match field? k r.fields with
  | some (.text t) => some t
  | _ => none

def Worded (r : Record) : Prop :=
  ∀ k ∈ fieldKeys, ∀ v, field? k r.fields = some v → v = .null ∨ ∃ t, v = .text t

def notes (r : Record) (ks : List Text) : List (Text × Text) :=
  ks.filterMap (fun k => (r.noted? k).map (fun t => (k, t)))

def trace? (r : Record) : Option Text := r.failure.map Failure.trace

def exception (r : Record) : List (Text × Text) :=
  (r.trace?.map (fun t => (chars "exception", t))).toList

/-- All that a record says, in the order in which it is written. -/
def wording (time level : Text) (r : Record) : List (Text × Text) :=
  [(chars "timestamp", time), (chars "level", level), (chars "logger", r.logger),
    (chars "message", r.message)] ++ r.notes fieldKeys ++ r.exception

theorem worded_of_fields {r : Record} (h : ∀ f ∈ r.fields, f.2 = .null ∨ ∃ t, f.2 = .text t) :
    r.Worded :=
  fun k _ v hv => h (k, v) (mem_of_field? hv)

theorem Worded.writtenFields {r : Record} (h : r.Worded) :
    r.writtenFields = texts (r.notes fieldKeys) := by
  rw [Record.writtenFields, notes, texts, List.map_filterMap]
  apply List.filterMap_congr
  intro k hk
  have hworded := h k hk
  unfold noted?
  cases hf : field? k r.fields with
  | none => rfl
  | some v =>
    rcases hworded v hf with rfl | ⟨t, rfl⟩
    · rfl
    · rfl

theorem Worded.members {r : Record} (h : r.Worded) (time level : Text) :
    r.members time level = texts (r.wording time level) := by
  rw [Record.members, h.writtenFields, wording, texts, texts, List.map_append, List.map_append,
    exception, trace?]
  cases r.failure with
  | none => rfl
  | some f => rfl

theorem notes_keys (r : Record) (ks : List Text) : ((r.notes ks).map Prod.fst).Sublist ks := by
  induction ks with
  | nil => exact .slnil
  | cons k ks ih =>
    rw [notes, List.filterMap_cons]
    cases r.noted? k with
    | none => exact ih.cons k
    | some t => exact ih.cons_cons k

theorem wording_nodup (time level : Text) (r : Record) :
    ((r.wording time level).map Prod.fst).Nodup := by
  have hexception : (r.exception.map Prod.fst).Sublist [chars "exception"] := by
    rw [exception]
    cases r.trace? with
    | none => exact List.nil_sublist _
    | some t => exact List.Sublist.refl _
  have hkeys : ((r.wording time level).map Prod.fst).Sublist
      ([chars "timestamp", chars "level", chars "logger", chars "message"] ++ fieldKeys ++
        [chars "exception"]) := by
    rw [wording, List.map_append, List.map_append]
    exact ((List.Sublist.refl _).append (r.notes_keys fieldKeys)).append hexception
  exact hkeys.nodup (by decide)

theorem lookup_notes (r : Record) (ks : List Text) (k : Text) :
    (r.notes ks).lookup k = if k ∈ ks then r.noted? k else none := by
  induction ks with
  | nil => rfl
  | cons a ks ih =>
    rw [notes, List.filterMap_cons]
    rw [notes] at ih
    by_cases hk : k = a
    · subst hk
      cases hn : r.noted? k with
      | none => simp [ih, hn]
      | some t => simp
    · cases hn : r.noted? a with
      | none => simp [ih, hk]
      | some t =>
        have hka : (k == a) = false := by simp [hk]
        simp [List.lookup_cons, ih, hk, hka]

theorem lookup_exception (r : Record) (k : Text) :
    r.exception.lookup k = if k = chars "exception" then r.trace? else none := by
  rw [exception]
  by_cases hk : k = chars "exception"
  · subst hk
    cases r.trace? with
    | none => rfl
    | some t => simp
  · have hbeq : (k == chars "exception") = false := by simp [hk]
    cases r.trace? with
    | none => simp
    | some t => simp [List.lookup_cons, hbeq, hk]

theorem lookup_behind (r : Record) (k : Text) :
    (r.notes fieldKeys ++ r.exception).lookup k =
      if k ∈ fieldKeys then r.noted? k
      else if k = chars "exception" then r.trace? else none := by
  rw [List.lookup_append, lookup_notes, lookup_exception]
  have hapart : chars "exception" ∉ fieldKeys := by decide
  by_cases hk : k ∈ fieldKeys
  · have hne : k ≠ chars "exception" := fun heq => hapart (heq ▸ hk)
    simp [hk, hne]
  · simp [hk]

/-- Records that say the same, their levels by the given names. -/
structure SaysSame (level : Text) (r : Record) (level' : Text) (r' : Record) : Prop where
  level : level' = level
  logger : r'.logger = r.logger
  message : r'.message = r.message
  notes : ∀ k ∈ fieldKeys, r'.noted? k = r.noted? k
  trace : r'.trace? = r.trace?

theorem wording_eq_iff {time level level' : Text} {r r' : Record} :
    r'.wording time level' = r.wording time level ↔ SaysSame level r level' r' := by
  constructor
  · intro h
    simp only [wording, List.cons_append, List.nil_append, List.cons.injEq, Prod.mk.injEq,
      true_and] at h
    obtain ⟨hlevel, hlogger, hmessage, hbehind⟩ := h
    have hlookup := fun k => congrArg (List.lookup k) hbehind
    simp only [lookup_behind] at hlookup
    refine ⟨hlevel, hlogger, hmessage, fun k hk => ?_, ?_⟩
    · simpa [hk] using hlookup k
    · have hapart : chars "exception" ∉ fieldKeys := by decide
      simpa [hapart] using hlookup (chars "exception")
  · rintro ⟨rfl, hlogger, hmessage, hnotes, htrace⟩
    have hsame : r'.notes fieldKeys = r.notes fieldKeys :=
      List.filterMap_congr fun k hk => by rw [hnotes k hk]
    rw [wording, wording, hlogger, hmessage, hsame, exception, exception, htrace]

theorem record_texts_injective {fs gs : List (Text × Text)}
    (h : Value.record (texts fs) = Value.record (texts gs)) : fs = gs := by
  have hmap := Value.mapping.inj h
  simp only [texts, List.map_map] at hmap
  refine List.map_injective_iff.mpr (fun f g hfg => ?_) hmap
  simpa [Prod.ext_iff] using hfg

theorem Worded.line {r : Record} (h : r.Worded) (time level : Text) :
    r.jsonLineAs time level = .ok ([openBrace] ++
      join (chars ", ") ((r.wording time level).map memberText) ++ [closeBrace]) := by
  rw [jsonLineAs, h.members, write_texts]

theorem Worded.line_eq_iff {time level level' : Text} {r r' : Record} (h : r.Worded)
    (h' : r'.Worded) : r'.jsonLineAs time level' = r.jsonLineAs time level ↔
      SaysSame level r level' r' := by
  rw [h.line, h'.line, ← wording_eq_iff]
  constructor
  · intro hline
    -- both are read back from the same line
    have hread := read_texts (wording_nodup time level r) 0
    have hread' := read_texts (wording_nodup time level' r') 0
    rw [Except.ok.inj hline, hread] at hread'
    exact (record_texts_injective (Except.ok.inj hread')).symm
  · intro hsame
    rw [hsame]

/-- The line of a record is one line without control characters. It reads back as an object
with what the record says under its keys, in their order. So records that differ in what they
say never have the same line, and neither do records at different levels. -/
theorem line_unforgeable (time level : Text) (r : Record) (h : r.Worded) :
    ∃ line, r.jsonLineAs time level = .ok line ∧
      newline ∉ line ∧ (∀ c ∈ line, space ≤ c) ∧
      (∀ room, Json.read (room + 1) line = .ok (Value.record (texts (r.wording time level)))) ∧
      ((r.wording time level).map Prod.fst).Nodup ∧
      ∀ level' r', Worded r' →
        (r'.jsonLineAs time level' = .ok line ↔ SaysSame level r level' r') ∧
          (r'.jsonLine time = r.jsonLine time → r'.level = r.level) := by
  refine ⟨_, h.line time level, ?_, fun c => space_le_texts, read_texts (wording_nodup time level r),
    wording_nodup time level r, fun level' r' h' => ⟨?_, fun hline => ?_⟩⟩
  · intro hnewline
    exact absurd (space_le_texts hnewline) (by decide)
  · rw [← h.line time level]
    exact h.line_eq_iff h'
  · exact Level.name_injective ((h.line_eq_iff h').mp hline).level

/-- A target that is written to look like another field and another line. -/
def injected : Record :=
  ⟨Level.error, chars "jobrunner", chars "refused:\n\"\x7d",
    [(taskNameKey, .null), (invokeTargetKey, .text (chars "a\", \"error_code\": \"OK"))],
    some (.basic (chars "ValueError") (chars "\u0000"))⟩

/-- A record that has the field which the target of the other imitates. -/
def imitated : Record :=
  ⟨Level.error, chars "jobrunner", chars "refused:\n\"\x7d",
    [(invokeTargetKey, .text (chars "a")), (errorCodeKey, .text (chars "OK"))],
    some (.basic (chars "ValueError") (chars "\u0000"))⟩

theorem injected_worded : injected.Worded := worded_of_fields (by simp [injected])

theorem imitated_worded : imitated.Worded := worded_of_fields (by simp [imitated])

theorem line_unforgeable_injected : injected.Worded ∧ imitated.Worded ∧
    ∃ line, injected.jsonLineAs (chars "now") (chars "ERROR") = .ok line ∧ newline ∉ line ∧
      imitated.jsonLineAs (chars "now") (chars "ERROR") ≠ .ok line := by
  obtain ⟨line, hline, hnewline, -, -, -, hsame⟩ :=
    line_unforgeable (chars "now") (chars "ERROR") injected injected_worded
  refine ⟨injected_worded, imitated_worded, line, hline, hnewline, fun himitated => ?_⟩
  have hnotes := ((hsame (chars "ERROR") imitated imitated_worded).1.mp himitated).notes
  exact absurd (hnotes errorCodeKey (by decide)) (by decide)

end Record

end Callboard.Log
