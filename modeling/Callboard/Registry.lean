import Callboard.Log.Record
import Callboard.Text.Quoted

/-!
# The task registry

The tasks that can be called, by name. A task that is registered under a name
that is taken replaces the other in its place. Registering is noted in the log,
and replacing with a warning in front.
-/

set_option autoImplicit false

namespace Callboard

structure Descriptor (η : Type) where
  name : Text
  description : Text
  handler : η

namespace Descriptor

variable {η : Type}

/-- Tasks are compared without their handlers. -/
def same (a b : Descriptor η) : Bool := a.name == b.name && a.description == b.description

def display (t : Descriptor η) : Text :=
  chars "TaskDescriptor(name=" ++ Text.quoted t.name ++ chars ", description=" ++
    Text.quoted t.description ++ chars ")"

end Descriptor

structure Registry (η : Type) where
  tasks : List (Descriptor η)

namespace Registry

variable {η : Type}

def empty : Registry η := ⟨[]⟩

def names (r : Registry η) : List Text := r.tasks.map Descriptor.name

def size (r : Registry η) : Nat := r.tasks.length

def lookup (r : Registry η) (name : Text) : Option (Descriptor η) :=
  r.tasks.find? (fun t => t.name == name)

def contains (r : Registry η) (name : Text) : Bool := (r.lookup name).isSome

/-- A task whose name is new goes to the end. -/
def place (t : Descriptor η) : List (Descriptor η) → List (Descriptor η)
  | [] => [t]
  | u :: ts => if u.name = t.name then t :: ts else u :: place t ts

def put (r : Registry η) (t : Descriptor η) : Registry η := ⟨place t r.tasks⟩

def logger : Text := chars "jobrunner.services.task_registry"

def record (level : Log.Level) (name message : Text) : Log.Record :=
  ⟨level, logger, message, [(Log.taskNameKey, .text name)], none⟩

def replacing (name : Text) : Log.Record :=
  record Log.Level.warning name
    (chars "Task '" ++ name ++ chars "' already registered — replacing")

def registered (name : Text) : Log.Record :=
  record Log.Level.info name (chars "Registered task: " ++ name)

def notes (r : Registry η) (name : Text) : List Log.Record :=
  if r.contains name then [replacing name, registered name] else [registered name]

def register (r : Registry η) (t : Descriptor η) : Registry η × List Log.Record :=
  (r.put t, r.notes t.name)

def registerHandler (r : Registry η) (name : Text) (handler : η) (description : Text := []) :
    (Registry η × List Log.Record) × Descriptor η :=
  (r.register ⟨name, description, handler⟩, ⟨name, description, handler⟩)

def registerAll (r : Registry η) : List (Descriptor η) → Registry η × List Log.Record
  | [] => (r, [])
  | t :: ts =>
    ((registerAll (r.register t).1 ts).1, (r.register t).2 ++ (registerAll (r.register t).1 ts).2)

def build (ts : List (Descriptor η)) : Registry η × List Log.Record := registerAll empty ts

theorem find_place_self (t : Descriptor η) (ts : List (Descriptor η)) :
    (place t ts).find? (fun u => u.name == t.name) = some t := by
  induction ts with
  | nil => simp [place]
  | cons u ts ih =>
    by_cases h : u.name = t.name
    · simp [place, h]
    · simp [place, h, ih]

theorem find_place_of_ne {t : Descriptor η} {name : Text} (h : name ≠ t.name) (ts : List (Descriptor η)) :
    (place t ts).find? (fun u => u.name == name) = ts.find? (fun u => u.name == name) := by
  have ht : (t.name == name) = false := by simpa using fun e => h e.symm
  induction ts with
  | nil => simp [place, ht]
  | cons u ts ih =>
    by_cases hu : u.name = t.name
    · rw [place, if_pos hu, List.find?_cons, List.find?_cons, hu, ht]
    · rw [place, if_neg hu, List.find?_cons, List.find?_cons, ih]

theorem lookup_put_self (r : Registry η) (t : Descriptor η) : (r.put t).lookup t.name = some t :=
  find_place_self t r.tasks

theorem lookup_put_of_ne (r : Registry η) {t : Descriptor η} {name : Text} (h : name ≠ t.name) :
    (r.put t).lookup name = r.lookup name :=
  find_place_of_ne h r.tasks

end Registry

end Callboard
