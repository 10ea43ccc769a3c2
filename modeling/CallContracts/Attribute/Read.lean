import CallContracts.Attribute.Bind
/-! Reading attributes.  On an instance the class is asked first for computed members, then the instance
itself, then the class for the rest; what is still missing goes to the fallback of the class, if it has
one.  On a class the ancestors are asked, and their members bind without an instance.  A class of the
program may read for its instances itself. -/
namespace CallContracts
open Act

/-- The annotations of a class come into being when they are first asked for. -/
def classAnnotations (r : Ref) : Act Value := do
  match ((← get).classAttrs r).get? "__annotations__" with
  | some v => return v
  | none =>
    let t ← newTable []
    update r fun o => { o with attrs := o.attrs.map (·.put "__annotations__" t) }
    return t

def classModule (s : Store) : ClassId → Option Value
  | .builtin c => some (.str c.home)
  | .defined r => (s.classAttrs r).get? "__module__"

/-- What every class tells about itself, before its members are asked. -/
def readTitle (m : Machine) (c : ClassId) (n : String) : Act (Option Value) := do
  let s ← get
  let ancestors := (s.line c).drop 1
  if n = "__name__" then return some (.str (s.nameOfClass c))
  else if n = "__qualname__" then return some (.str (s.pathOfClass c))
  else if n = "__module__" then return some (← ofOption .attributeError (classModule s c))
  else if n = "__doc__" then return some (← bindMember m ((s.heldBy n c).getD .absent) .absent c.value)
  else if n = "__bases__" then return some (← newTuple (ancestors.take 1 |>.map ClassId.value))
  else if n = "__base__" then return some ((ancestors.head?.map ClassId.value).getD .absent)
  else if n = "__mro__" then return some (← newTuple ((s.line c).map ClassId.value))
  else if n = "__dict__" then
    return some (← alloc { cls := .builtin .mappingProxy, body := .proxy c.value })
  else if n = "__annotations__" then match c with
    | .builtin _ => refuse .attributeError
    | .defined r => return some (← classAnnotations r)
  else return none

def readOfClass (m : Machine) (v : Value) (c : ClassId) (n : String) : Act Value := do
  let s ← get
  let own := s.classOf v
  match s.override? own n, s.isDataMember ((s.override? own n).getD .absent) with
  | some x, true => bindTo m x v own.value
  | above, _ =>
    match ← if above.isSome then pure none else readTitle m c n with
    | some x => return x
    | none => match (← get).classMember? c n, above with
      | some x, _ =>
        if n = "__class__" ∧ x = .operation (.member .object n .getter) then return own.value
        else bindMember m x .absent v
      | none, some x => bindTo m x v own.value
      | none, none => match BuiltinClass.type.ownMember? n with
        | some x => bindTo m x v own.value
        | none => refuse .attributeError

/-- Reading from an instance, without the fallback. -/
def readOfInstance (m : Machine) (v : Value) (n : String) : Act Value := do
  let s ← get
  let c := s.classOf v
  match s.classMember? c n with
  | some x =>
    if s.isDataMember x then bindTo m x v c.value
    else match s.attr? v n with
      | some y => return y
      | none => bindTo m x v c.value
  | none => match s.attr? v n, s.body? v with
    | some y, _ => return y
    | none, some (.bound f _) => if c = .builtin .method then m.read f n else refuse .attributeError
    | _, _ => refuse .attributeError

/-- A module may hold a function for the names that it lacks. -/
def readOfModule (m : Machine) (v : Value) (n : String) : Act Value := do
  match (← get).attr? v "__getattr__" with
  | some g => orElseMissing (readOfInstance m v n) (m.call g [.str n] [])
  | none => readOfInstance m v n

def readNative (m : Machine) (v : Value) (n : String) : Act Value := do
  let s ← get
  match s.class? v with
  | some c => readOfClass m v c n
  | none => if s.isA v .module then readOfModule m v n else readOfInstance m v n

def readAttribute (m : Machine) (v : Value) (n : String) : Act Value := do
  let s ← get
  let c := s.classOf v
  let direct := match s.override? c "__getattribute__" with
    | some f => callSpecial m v f [.str n]
    | none => readNative m v n
  match s.override? c "__getattr__" with
  | some g => orElseMissing direct (callSpecial m v g [.str n])
  | none => direct

/-- The name that a value is. -/
def attributeName (name : Value) : Act String := do ofOption .typeError ((← get).text? name)

/-- Whether reading succeeds; an error other than a missing attribute passes on. -/
def hasAttribute (m : Machine) (v name : Value) : Act Bool := do
  let n ← attributeName name
  return (← optional (m.read v n)).isSome

def getAttribute (m : Machine) (v name : Value) : Act Value := do m.read v (← attributeName name)

end CallContracts
