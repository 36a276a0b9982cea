import Callboard.Number.Binary64

/-!
# Values

The values that a task may be called with, and those that only turn up where one
of them is expected. Mappings keep the order in which their keys were first
assigned.
-/

set_option autoImplicit false

namespace Callboard

inductive Value where
  | null
  | bool (b : Bool)
  | int (i : Int)
  | float (x : Binary64)
  | text (t : Text)
  | list (items : List Value)
  | tuple (items : List Value)
  | mapping (entries : List (Value × Value))
  | bytes (t : Text)
  | set (items : List Value)
  | object

namespace Value

def typeName : Value → Text
  | .null => chars "NoneType"
  | .bool _ => chars "bool"
  | .int _ => chars "int"
  | .float _ => chars "float"
  | .text _ => chars "str"
  | .list _ => chars "list"
  | .tuple _ => chars "tuple"
  | .mapping _ => chars "dict"
  | .bytes _ => chars "bytes"
  | .set _ => chars "set"
  | .object => chars "object"

def ofText? : Option Text → Value
  | none => .null
  | some t => .text t

theorem ofText?_eq_elim (t : Option Text) : ofText? t = t.elim .null .text := by
  cases t <;> rfl

def record (fields : List (Text × Value)) : Value :=
  .mapping (fields.map (fun f => (.text f.1, f.2)))

def isNull : Value → Bool
  | .null => true
  | _ => false

/-- Truth values count as 0 and 1. -/
inductive Magnitude where
  | int (i : Int)
  | float (x : Binary64)
  deriving DecidableEq

def magnitude? : Value → Option Magnitude
  | .bool b => some (.int (if b then 1 else 0))
  | .int i => some (.int i)
  | .float x =>
    match x.toInt? with
    | some i => some (.int i)
    | none => some (.float x)
  | _ => none

mutual
/-- Numbers are compared by value, and a NaN is no key's equal. -/
def sameKey : Value → Value → Bool
  | .text a, .text b => a == b
  | .bytes a, .bytes b => a == b
  | .null, .null => true
  | .tuple as, .tuple bs => sameKeys as bs
  | a, b =>
    match a.magnitude?, b.magnitude? with
    | some (.float .nan), _ => false
    | some m, some n => m == n
    | _, _ => false

def sameKeys : List Value → List Value → Bool
  | [], [] => true
  | a :: as, b :: bs => sameKey a b && sameKeys as bs
  | _, _ => false
end

mutual
/-- The type of the first part of a value that keeps it from being a key. -/
def unhashable? : Value → Option Text
  | .tuple items => unhashableIn? items
  | .list items => some (typeName (.list items))
  | .mapping entries => some (typeName (.mapping entries))
  | .set items => some (typeName (.set items))
  | _ => none

def unhashableIn? : List Value → Option Text
  | [] => none
  | v :: vs =>
    match unhashable? v with
    | some t => some t
    | none => unhashableIn? vs
end

end Value

/-- A key that is there keeps its place. -/
def assign (k : Text) (v : Value) : List (Text × Value) → List (Text × Value)
  | [] => [(k, v)]
  | (k', v') :: fields => if k' = k then (k, v) :: fields else (k', v') :: assign k v fields

/-- Each key is at the place of its first pair, with the value of its last. -/
def assignAll (pairs : List (Text × Value)) : List (Text × Value) :=
  pairs.foldl (fun fields p => assign p.1 p.2 fields) []

def field? (k : Text) : List (Text × Value) → Option Value
  | [] => none
  | (k', v) :: fields => if k' = k then some v else field? k fields

def assignKey (k v : Value) : List (Value × Value) → List (Value × Value)
  | [] => [(k, v)]
  | (k', v') :: entries =>
    if k'.sameKey k then (k', v) :: entries else (k', v') :: assignKey k v entries

def assignKeys (pairs : List (Value × Value)) : List (Value × Value) :=
  pairs.foldl (fun entries p => assignKey p.1 p.2 entries) []

def Value.fields? : Value → Option (List (Text × Value))
  | .mapping entries =>
    entries.mapM (fun e => match e.1 with
      | .text k => some (k, e.2)
      | _ => none)
  | _ => none

end Callboard
