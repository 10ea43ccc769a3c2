import CallContracts.Container.Iterate
/-! Attributes that are computed when they are read: what functions, methods and classes say about
themselves, the slots of contracts, the parts of simple values, and the table of an object's own
attributes, which is the same table whenever it is asked for. -/
namespace CallContracts
open Act

namespace Store

/-- What a contract holds in a slot, wherever it is kept. -/
def slot? (s : Store) (v : Value) (n : String) : Option Value :=
  match s.obj? v with
  | some ⟨_, .contract c test parts, _, _, _⟩ =>
    if n = "_test" then some test
    else if n = "_description" then some c.description
    else if n = "_params" then parts.map Parts.params
    else if n = "_input" then parts.map Parts.input
    else if n = "_ret" then parts.map Parts.ret
    else none
  | some o => o.slots.get? n
  | none => none

/-- What a function says about itself; a bound method says what its function does. -/
def functionDoc (s : Store) (v : Value) : Value :=
  let f := s.unbound s.heap.size v
  match f, s.function? f with
  | .operation .length, _ => .str "Return the number of items in a container."
  | .operation .absolute, _ => .str "Return the absolute value of the argument."
  | _, some c => c.doc
  | _, none => (s.attr? f "__doc__").getD .absent

/-- The function of the library that a value is, also when it is bound. -/
def operation? (s : Store) (v : Value) : Option Operation :=
  match v, s.body? v with
  | .operation o, _ | _, some (.bound (.operation o) _) => some o
  | _, _ => none

end Store

/-- Whole numbers that a scalar shows as attributes. -/
def Scalar.part? : Scalar → String → Option Nat
  | .date y _ _, "year" | .datetime y .., "year" => some y
  | .date _ m _, "month" | .datetime _ m .., "month" => some m
  | .date _ _ d, "day" | .datetime _ _ d .., "day" => some d
  | .datetime _ _ _ h .., "hour" => some h
  | .datetime _ _ _ _ n .., "minute" => some n
  | .datetime _ _ _ _ _ s _, "second" => some s
  | .datetime _ _ _ _ _ _ u, "microsecond" => some u
  | .datetime .., "fold" => some 0
  | _, _ => none

/-- The table of the own attributes of an object. -/
def ownTable (r : Ref) : Act Value := do
  let o ← ofOption .attributeError ((← get).get? r)
  match o.table with
  | some t => return .ref t
  | none =>
    let v ← newTable (fieldEntries (o.attrs.getD []))
    match v with
    | .ref t => update r fun o => { o with table := some t }
    | _ => pure ()
    return v

/-- The table of attributes that a value shows. -/
def tableOfValue (v : Value) : Act Value := do
  let s ← get
  match v with
  | .ref r => if (s.attrs? v).isSome then ownTable r else refuse .attributeError
  | _ => newTable []

/-- The annotations of a function come into being when they are first asked for. -/
def annotationsOf (v : Value) : Act Value := do
  match v, (← get).slot? v "__annotations__" with
  | _, some t => return t
  | .ref r, none =>
    let t ← newTable []
    update r fun o => { o with slots := o.slots.put "__annotations__" t }
    return t
  | _, none => newTable []

/-- What a function, or a host function, says about itself. -/
def functionPart (v : Value) (n : String) : Act Value := do
  let s ← get
  match n, s.function? v, s.operation? v with
  | "__name__", some f, _ => return .str f.name
  | "__qualname__", some f, _ => return .str f.path
  | "__module__", some f, _ => return f.home
  | "__name__", none, some o => return .str o.name
  | "__qualname__", none, some o => return .str o.path
  | "__module__", none, some o => match s.body? v with
    | some (.bound ..) => return .absent
    | _ => return .str o.home
  | "__annotations__", _, _ => annotationsOf v
  | "__self__", _, _ => match s.body? v with
    | some (.bound _ self) => return self
    | _ => return .absent
  | "__objclass__", _, some (.member c _ _) => return .builtinClass c
  | "__objclass__", _, some (.placeOf r _ _) => return .ref r
  | "__doc__", _, _ => return s.functionDoc v
  | _, _, _ => return .absent

/-- The slot that a property of a contract shows; any object that has one of that name will do. -/
def slotShown (m : Machine) (v : Value) (n : String) : Act Value := do
  match (← get).contract? v, (← get).slot? v ("_" ++ n) with
  | some _, some x => return x
  | _, _ => m.read v ("_" ++ n)

/-- A part of a simple value. -/
def scalarPart (v : Value) (n : String) : Act Value := do
  match (← get).scalar? v with
  | some (.regex p flags) =>
    if n = "pattern" then return .str p
    else if n = "flags" then
      let bit : Char → Int | 't' => 1 | 'i' => 2 | 'm' => 8 | 's' => 16 | 'x' => 64 | _ => 256
      let bits := flags.foldl (fun t f => t + bit f) 0
      return .int (if 'a' ∈ flags then bits else bits + 32)
    else return .int 0
  | some (.fraction r) =>
    if n = "real" then return v
    else if n = "imag" then return .int 0
    else return .int (if n = "numerator" ∨ n = "_numerator" then r.num else r.den)
  | some (.complex re im) => newScalar .float (.float (if n = "real" then re else im))
  | some (.float x) => newScalar .float (.float (if n = "real" then x else .zero false))
  | some (.decimal _) =>
    if n = "real" then return v else newScalar .decimal (.decimal (.finite false 0 0))
  | some x => return ((x.part? n).map fun k => Value.int k).getD .absent
  | none => refuse .attributeError

/-- The attribute `n` that the class `c` computes for its instance `v`. -/
def computed (m : Machine) (v : Value) (c : BuiltinClass) (n : String) : Act Value := do
  let s ← get
  if n = "__class__" then return (s.classOf v).value
  if n = "__dict__" then return ← tableOfValue v
  if n = "__weakref__" then return .absent
  match c with
  | .contract | .signature =>
    if n.toList.head? = some '_' then ofOption .attributeError (s.slot? v n) else slotShown m v n
  | .function | .builtinFunction | .methodDescriptor | .classMethodDescriptor | .slotWrapper
  | .methodWrapper | .getterDescriptor | .memberDescriptor => functionPart v n
  | .method => match s.body? v, n with
    | some (.bound f _), "__func__" => return f
    | some (.bound _ self), "__self__" => return self
    | _, _ => return s.functionDoc v
  | .property => match v, s.body? v, n with
    | _, some (.property f _ _), "fget" => return f
    | _, some (.property _ f _), "fset" => return f
    | _, some (.property _ _ f), "fdel" => return f
    | _, some (.property f _ _), "__doc__" => return s.functionDoc f
    | .operation (.member c k _), _, "fget" => return .operation (.member c k .plain)
    | _, _, "__isabstractmethod__" => return .bool false
    | _, _, _ => return .absent
  | .staticMethod | .classMethod => match s.body? v, n with
    | _, "__isabstractmethod__" => return .bool false
    | some (.staticMethod f), _ | some (.classMethod f), _ => return f
    | _, _ => return .absent
  | .partialCall => match s.body? v, n with
    | some (.partialCall f _ _), "func" => return f
    | some (.partialCall _ args _), "args" => newTuple args
    | some (.partialCall _ _ named), "keywords" => newNamed named
    | _, _ => return .absent
  | .baseException => match s.body? v, n with
    | some (.exception args _), "args" => newTuple args
    | _, "__suppress_context__" => return .bool false
    | _, _ => return .absent
  | .stopIteration => match s.body? v with
    | some (.exception (x :: _) _) => return x
    | _ => return .absent
  | .keysView | .valuesView | .itemsView => match s.body? v with
    | some (.view _ of) => alloc { cls := .builtin .mappingProxy, body := .proxy of }
    | _ => return .absent
  | .module => match v, s.attr? v n with
    | _, some x => return x
    | .ref r, none =>
      let t ← newTable []
      update r fun o => { o with attrs := o.attrs.map (·.put n t) }
      return t
    | _, none => return .absent
  | .int => match s.whole? v, n with
    | _, "denominator" => return .int 1
    | some _, "imag" => return .int 0
    | some i, _ => return .int i
    | none, _ => return .absent
  | .attributeError | .unicodeError | .object | .deque => return .absent
  | _ => scalarPart v n

end CallContracts
