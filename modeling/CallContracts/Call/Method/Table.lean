import CallContracts.Call.Construct
/-! Methods of tables and of what can be read like one. -/
namespace CallContracts
open Act

namespace Method
variable (m : Machine)

def viewClass (s : Store) (v : Value) : Part → BuiltinClass
  | .keys => if s.isA v .orderedDict then .orderedKeys else .keysView
  | .values => if s.isA v .orderedDict then .orderedValues else .valuesView
  | .items => if s.isA v .orderedDict then .orderedItems else .itemsView

/-- A view shows what the table holds whenever it is looked at. -/
def newView (part : Part) (v : Value) : Act Value := do
  alloc { cls := .builtin (viewClass (← get) v part), body := .view part v }

/-- A view of a mapping of the program. -/
def mappingView (part : Part) (v : Value) : Act Value :=
  let c : BuiltinClass := match part with
    | .keys => .keysOf
    | .values => .valuesOf
    | .items => .itemsOf
  alloc { cls := .builtin c, body := .view part v }

def readTable (v : Value) (es : List (Value × Value)) (n : String) (args : List Value) : Act Value := do
  let find (k d : Value) : Act Value := do return (← Table.find m k es).getD d
  match n, args with
  | "get", [k] => find k .absent
  | "get", [k, d] => find k d
  | "keys", [] => newView .keys v
  | "values", [] => newView .values v
  | "items", [] => newView .items v
  | "__contains__", [k] => return .bool (← Table.find m k es).isSome
  | "__getitem__", [k] => Item.ofTable m v es k
  | "copy", [] =>
    let s ← get
    if s.isA v .orderedDict then Construct.call m (s.classOf v) [v] [] else newTable es
  | _, _ => refuse .typeError

/-- Moves an entry to one end. -/
def moved (toEnd : Bool) (k : Value) (es : List (Value × Value)) : Act (List (Value × Value)) := do
  match ← Table.find m k es with
  | none => refuse .keyError
  | some x =>
    let rest ← Table.eraseAfter m k es
    return if toEnd then rest ++ [(k, x)] else (k, x) :: rest

/-- Changes a table, whose entries are put back by `put`. -/
def changeTable (put : List (Value × Value) → Act Unit) (v : Value) (es : List (Value × Value))
    (n : String) (args : List Value) (named : Fields Value) : Act Value := do
  let setDefault (k d : Value) : Act Value := do
    match ← Table.find m k es with
    | some x => return x
    | none =>
      put (← Table.put m k d es)
      return d
  let takeOut (k : Value) : Act (Option Value) := do
    match ← Table.find m k es with
    | none => return none
    | some x =>
      put (← Table.eraseAfter m k es)
      return some x
  match n, args, named with
  | "update", _, _ =>
    Start.extend m v args named
    return .absent
  | "clear", [], [] =>
    put []
    return .absent
  | "setdefault", [k], [] => setDefault k .absent
  | "setdefault", [k, d], [] => setDefault k d
  | "pop", [k], [] => do ofOption (.refused .keyError) (← takeOut k)
  | "pop", [k, d], [] => return (← takeOut k).getD d
  | "popitem", [], [] => match es.reverse with
    | [] => refuse .keyError
    | (k, x) :: r =>
      put r.reverse
      newTuple [k, x]
  | "move_to_end", [k], [] =>
    put (← moved m true k es)
    return .absent
  | "move_to_end", [k, last], [] =>
    put (← moved m (← truth m last) k es)
    return .absent
  | _, _, [] => readTable m v es n args
  | _, _, _ => refuse .typeError

/-- What can be read only passes on what it is asked. -/
def readProxy (v of : Value) (n : String) (args : List Value) : Act Value := do
  let s ← get
  match s.class? of, s.entries? v with
  | some _, some es => if n = "copy" then newTable es else readTable m v es n args
  | _, _ => m.call (← m.read of n) args []

/-- A table of a class with the same value under every key. -/
def fromKeys (cls keys x : Value) : Act Value := do
  let c ← ofOption .typeError ((← get).class? cls)
  let v ← Construct.call m c [] []
  let _ ← each (fun k => Item.put m v k x) (← iterate m keys)
  return v

/-- The value of a mapping of the program under a key, if it has one. -/
def mappingGet (v k d : Value) : Act Value := orElseOn .keyError (Item.get m v k) (pure d)

end Method
end CallContracts
