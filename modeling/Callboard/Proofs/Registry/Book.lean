import Callboard.Proofs.Registry.History

/-!
# A registry in use

A registry and its log, used in any way: tasks are registered as they are or from their
parts, and whatever can be looked up is looked up in between. Every reply says what the
registrations before it come to, and registrations alone change the registry and its log.
-/

set_option autoImplicit false

namespace Callboard.Registry

variable {η : Type}

inductive Use (η : Type) where
  | register (t : Descriptor η)
  | registerHandler (name : Text) (handler : η) (description : Text)
  | listNames
  | listTasks
  | lookup (name : Text)
  | contains (name : Text)
  | size

inductive Reply (η : Type) where
  | done
  | task (t : Descriptor η)
  | names (ns : List Text)
  | tasks (ts : List (Descriptor η))
  | found (t : Option (Descriptor η))
  | holds (b : Bool)
  | count (n : Nat)

namespace Use

/-- The tasks that a use registers: one, or none if it only looks something up. -/
def brings : Use η → List (Descriptor η)
  | register t => [t]
  | registerHandler name handler description => [⟨name, description, handler⟩]
  | _ => []

def ofEntry (t : Descriptor η) : Use η := registerHandler t.name t.handler t.description

end Use

def reply (h : List (Descriptor η)) : Use η → Reply η
  | .register _ => .done
  | .registerHandler name handler description => .task ⟨name, description, handler⟩
  | .listNames => .names (firsts h)
  | .listTasks => .tasks (standing h)
  | .lookup name => .found (last? h name)
  | .contains name => .holds ((h.map Descriptor.name).contains name)
  | .size => .count (h.map Descriptor.name).toFinset.card

def replies : List (Descriptor η) → List (Use η) → List (Reply η)
  | _, [] => []
  | h, u :: us => reply h u :: replies (h ++ u.brings) us

structure Book (η : Type) where
  registry : Registry η
  log : List Log.Record

namespace Book

def blank : Book η := ⟨empty, []⟩

def ofTable (ts : List (Descriptor η)) : Book η := ⟨(build ts).1, (build ts).2⟩

def turn (b : Book η) (changed : Registry η × List Log.Record) : Book η :=
  ⟨changed.1, b.log ++ changed.2⟩

def perform (b : Book η) : Use η → Book η × Reply η
  | .register t => (b.turn (b.registry.register t), .done)
  | .registerHandler name handler description =>
    let done := b.registry.registerHandler name handler description
    (b.turn done.1, .task done.2)
  | .listNames => (b, .names b.registry.names)
  | .listTasks => (b, .tasks b.registry.tasks)
  | .lookup name => (b, .found (b.registry.lookup name))
  | .contains name => (b, .holds (b.registry.contains name))
  | .size => (b, .count b.registry.size)

def run : Book η → List (Use η) → Book η × List (Reply η)
  | b, [] => (b, [])
  | b, u :: us => ((run (b.perform u).1 us).1, (b.perform u).2 :: (run (b.perform u).1 us).2)

structure Keeps (h : List (Descriptor η)) (b : Book η) : Prop where
  records : Records h b.registry
  noted : Noted h b.log

theorem keeps_blank : Keeps [] (blank : Book η) := ⟨records_empty, .nothing⟩

theorem Keeps.register {h : List (Descriptor η)} {b : Book η} (hb : Keeps h b) (t : Descriptor η) :
    Keeps (h ++ [t]) (b.turn (b.registry.register t)) :=
  ⟨hb.records.register t, hb.records.notes hb.noted t⟩

theorem Keeps.warnings {h : List (Descriptor η)} {b : Book η} (hb : Keeps h b) :
    b.log.countP isWarning + b.registry.size = h.length := by
  rw [hb.records.size, card_firsts]
  exact hb.noted.warnings

theorem perform_reading (b : Book η) {u : Use η} (hu : u.brings = []) : (b.perform u).1 = b := by
  cases u with
  | register t => cases hu
  | registerHandler name handler description => cases hu
  | _ => rfl

theorem Keeps.perform {h : List (Descriptor η)} {b : Book η} (hb : Keeps h b) (u : Use η) :
    Keeps (h ++ u.brings) (b.perform u).1 := by
  cases u with
  | register t => exact hb.register t
  | registerHandler name handler description => exact hb.register ⟨name, description, handler⟩
  | _ =>
    show Keeps (h ++ []) b
    rwa [List.append_nil]

theorem Keeps.reply {h : List (Descriptor η)} {b : Book η} (hb : Keeps h b) (u : Use η) :
    (b.perform u).2 = reply h u := by
  cases u with
  | register t => rfl
  | registerHandler name handler description => rfl
  | listNames => exact congrArg Reply.names hb.records.names
  | listTasks => exact congrArg Reply.tasks hb.records.tasks_eq
  | lookup name => exact congrArg Reply.found (hb.records.lookup name)
  | contains name =>
    apply congrArg Reply.holds
    apply Bool.eq_iff_iff.mpr
    rw [hb.records.contains, hb.records.names, mem_firsts, List.contains_iff_mem]
  | size => exact congrArg Reply.count hb.records.size

theorem Keeps.run {h : List (Descriptor η)} {b : Book η} (hb : Keeps h b) (us : List (Use η)) :
    Keeps (h ++ us.flatMap Use.brings) (b.run us).1 ∧ (b.run us).2 = replies h us := by
  induction us generalizing h b with
  | nil =>
    rw [List.flatMap_nil, List.append_nil]
    exact ⟨hb, rfl⟩
  | cons u us ih =>
    obtain ⟨hkeeps, hreplies⟩ := ih (hb.perform u)
    rw [List.flatMap_cons, ← List.append_assoc, Book.run, replies, hb.reply u, hreplies]
    exact ⟨hkeeps, rfl⟩

/-- Registering a table at once is the same as registering its tasks one by one. -/
theorem run_entries (b : Book η) (ts : List (Descriptor η)) :
    (b.run (ts.map Use.ofEntry)).1 = b.turn (b.registry.registerAll ts) := by
  induction ts generalizing b with
  | nil => simp [Book.run, registerAll, turn]
  | cons t ts ih =>
    have hentry : (b.perform (.ofEntry t)).1 = b.turn (b.registry.register t) := rfl
    rw [List.map_cons, Book.run, ih, hentry]
    simp [turn, registerAll]

theorem ofTable_eq (ts : List (Descriptor η)) :
    ofTable ts = (blank.run (ts.map Use.ofEntry)).1 := by
  rw [run_entries]
  rfl

theorem keeps_ofTable (ts : List (Descriptor η)) : Keeps ts (ofTable ts) := by
  have hbrings : (ts.map Use.ofEntry).flatMap Use.brings = ts := by
    induction ts with
    | nil => rfl
    | cons t ts ih =>
      rw [List.map_cons, List.flatMap_cons, ih]
      rfl
  have hkeeps := (keeps_blank.run (ts.map Use.ofEntry)).1
  rwa [hbrings, List.nil_append, ← ofTable_eq] at hkeeps

end Book

end Callboard.Registry
