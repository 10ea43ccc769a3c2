import CallContracts.Class.Layout
import CallContracts.Text.Identifier
import CallContracts.Wrapper.Around
/-! Defining classes.  A class lists the storage places of its instances or gives them a table; names of
places that start with two underscores are kept apart by the name of the class.  The class of a new class
is that of its base. -/
namespace CallContracts
open Act

namespace Store

/-- Whether instances of a class have a table of their own. -/
def isTabled (s : Store) (c : ClassId) : Bool := (s.line c).any fun
  | .builtin b => b.ownMembers.any (·.1 = "__dict__")
  | .defined r => ((s.classInfo? r).map ClassInfo.tabled).getD false

/-- Whether references to instances of a class can be weak. -/
def isWeak (s : Store) (c : ClassId) : Bool := (s.line c).any fun
  | .builtin b => b ∈ [.type, .set, .frozenset, .deque, .orderedDict, .module, .partialCall]
      || b.ownMembers.any (·.1 = "__weakref__")
  | .defined r => ((s.classAttrs r).get? "__weakref__").isSome

end Store

namespace Define

/-- Classes whose instances are of many sizes have no room for storage places. -/
def isSized (c : BuiltinClass) : Bool := c ∈ [.int, .bytes, .tuple, .type]

/-- The builtin classes that no class is derived from. -/
def isFinal (c : BuiltinClass) : Bool :=
  c ∈ [.bool, .absent, .notImplemented, .function, .mappingProxy, .pattern, .method, .builtinFunction,
    .methodDescriptor, .classMethodDescriptor, .slotWrapper, .methodWrapper, .getterDescriptor,
    .memberDescriptor, .keysView, .valuesView, .itemsView, .orderedKeys, .orderedValues, .orderedItems,
    .listIterator, .tupleIterator, .textIterator, .keyIterator, .valueIterator, .itemIterator,
    .setIterator, .dequeIterator, .sequenceIterator, .settings]

/-- Names with two underscores in front, and not behind, belong to the class that writes them. -/
def mangled (cls name : String) : String :=
  let n := name.toList
  let c := cls.toList.dropWhile (· = '_')
  if ['_', '_'].isPrefixOf n && !(['_', '_'].isPrefixOf n.reverse) && c ≠ [] then
    String.ofList ('_' :: c ++ n)
  else name

/-- The storage places of a class, and whether it gives its instances a table and weak references. -/
structure Places where
  names : List String
  table : Bool
  weak : Bool

def placeName (v : Value) : Act String := do
  let n ← ofOption .typeError ((← get).text? v)
  if Text.isIdentifier n.toList then return n else refuse .typeError

/-- Whether a name that is asked for stands there once, where it is still free. -/
def takes (free : Bool) (n : String) (names : List String) : Act Bool := do
  if n ∈ names ∧ (!free ∨ 1 < names.count n) then refuse .typeError else return n ∈ names

/-- Places that would hide a member are refused. -/
def ownPlaces (cls : String) (members : Fields Value) (names : List String) : Act (List String) := do
  let own := names.filter fun n => n ≠ "__dict__" && n ≠ "__weakref__"
  let own := own.map (mangled cls)
  if own.any fun n => n ≠ "__qualname__" && (members.get? n).isSome then refuse .valueError
  return own.mergeSort fun a b => decide (a ≤ b)

def placesOf (m : Machine) (cls : String) (base : ClassId) (members : Fields Value) : Act Places := do
  let s ← get
  let sized := (s.builtinLine base).any isSized
  let mayTable := !s.isTabled base
  let mayWeak := !s.isWeak base && !sized
  match members.get? "__slots__" with
  | none => return ⟨[], mayTable, mayWeak⟩
  | some v =>
    let asked ← match s.text? v with
      | some t => pure [Value.str t]
      | none => iterate m v
    if sized && !asked.isEmpty then refuse .typeError
    let names ← each placeName asked
    let table ← takes mayTable "__dict__" names
    let weak ← takes mayWeak "__weakref__" names
    return ⟨← ownPlaces cls members names, table, weak⟩

/-- Functions of some names are no methods of instances. -/
def adapted (m : Machine) (f : String × Value) : Act (String × Value) := do
  if (← get).classOf f.2 ≠ .builtin .function then return f
  if f.1 = "__new__" then return (f.1, ← Wrapper.staticMethod m f.2)
  else if f.1 ∈ ["__init_subclass__", "__class_getitem__"] then return (f.1, ← Wrapper.classMethod m f.2)
  else return f

/-- The class that a new class is an instance of: that of its base, unless a closer one is asked for. -/
def metaclassFor (s : Store) (asked : ClassId) (base : ClassId) : Act ClassId := do
  let ofBase := s.metaclass base
  if s.comesFrom asked ofBase then return asked
  else if s.comesFrom ofBase asked then return ofBase
  else refuse .typeError

/-- All members of a class: its own, the places of its instances, their table and weak references, its
documentation, and that instances with an equality of their own are no keys unless it says how. -/
def completed (r : Ref) (members : Fields Value) (places : Places) : Fields Value :=
  let fields := Fields.putAll members
    (places.names.map fun n => (n, Value.operation (.placeOf r n .storage)))
  let getters := (if places.table then ["__dict__"] else []) ++ (if places.weak then ["__weakref__"] else [])
  let getters := getters.filter fun n => (fields.get? n).isNone
  let fields := Fields.putAll fields (getters.map fun n => (n, Value.operation (.placeOf r n .getter)))
  let fields := if (fields.get? "__doc__").isSome then fields else fields.put "__doc__" .absent
  if (fields.get? "__eq__").isSome && (fields.get? "__hash__").isNone then fields.put "__hash__" .absent
  else fields

/-- Members that want to know are told where they are. -/
def tellNames (m : Machine) (cls : Value) : Fields Value → Act Unit
  | [] => pure ()
  | (n, x) :: fs => do
    let s ← get
    match s.override? (s.classOf x) "__set_name__" with
    | some f =>
      let _ ← orElseOn .exception (callSpecial m x f [cls, .str n]) (refuse .runtimeError)
      tellNames m cls fs
    | none => tellNames m cls fs

/-- A new class, its members told where they are and its base told of it. -/
def cls (m : Machine) (asked : ClassId) (name : String) (members : Fields Value) (base : ClassId) :
    Act Value := do
  let s ← get
  let above ← metaclassFor s asked base
  if let .builtin b := base then if isFinal b then refuse .typeError
  let places ← placesOf m name base members
  let path ← match members.get? "__qualname__" with
    | some v => ofOption .typeError (s.text? v)
    | none => pure name
  let own : Fields Value ← each (adapted m) (members.erase "__qualname__")
  let own := if (own.get? "__module__").isSome then own else own.put "__module__" (.str "m")
  let tabled := places.table || s.isTabled base
  let v ← fun s => alloc {
    cls := above, body := .cls ⟨name, path, base, places.names, tabled⟩
    attrs := some (completed s.heap.size own places) } s
  tellNames m v own
  match s.override? base "__init_subclass__" with
  | some f => let _ ← m.call (← m.bind f .absent v) [] []
  | none => pure ()
  return v

example : mangled "_S" "__p" = "_S__p" ∧ mangled "S" "__p__" = "__p__" := by decide +kernel

end Define
end CallContracts
