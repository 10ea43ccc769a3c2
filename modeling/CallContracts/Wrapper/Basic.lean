import CallContracts.Class.Lookup
import CallContracts.Container.Iterate
/-! Wrappers: a callable that routes every call through an advice.  A wrapper is an object whose own
attributes hold what it wraps and what it asks.  It takes over the attributes of what it wraps first
and writes its own over them, so its own are never those of a layer below. -/
namespace CallContracts
open Act

namespace Wrapper

/-- What a wrapper copies under its own name, where the wrapped object has it. -/
def titles : List String := ["__module__", "__name__", "__qualname__", "__doc__", "__annotations__"]

def copiedTitles (m : Machine) (f : Value) : List String → Act (Fields Value)
  | [] => pure []
  | n :: ns => do
    let v ← optional (m.read f n)
    let r ← copiedTitles m f ns
    match v with
    | some v => return (n, v) :: r
    | none => return r

/-- The attributes that a wrapper of the value takes over. -/
def takenTable (m : Machine) (f : Value) : Act (Fields Value) := do
  if (← get).hidesTable f then
    match ← optional (m.read f "__dict__") with
    | none => return []
    | some t => return Store.namedEntries (← entriesOf m t)
  else return (← get).tableOf f

/-- The own attributes of a wrapper, given what it takes over. -/
def ownFields (taken : Fields Value) (proceed advice : Value) : Fields Value :=
  ((taken.put "__wrapped__" proceed).put "proceed" proceed).put "advice" advice

/-- A new wrapper of the given class around `proceed`. -/
def make (m : Machine) (cls : BuiltinClass) (proceed advice : Value) (extra : Fields Value) :
    Act Value := do
  let copied ← copiedTitles m proceed titles
  let taken := Fields.putAll copied (← takenTable m proceed)
  let own := Fields.putAll (ownFields taken proceed advice) extra
  alloc { cls := .builtin cls, body := .plain, attrs := some own }

def around (m : Machine) (proceed advice : Value) : Act Value := make m .wrapper proceed advice []
def unbound (m : Machine) (proceed advice owner : Value) : Act Value :=
  make m .unboundWrapper proceed advice [("owner", owner)]
def ofClass (m : Machine) (proceed advice : Value) : Act Value := make m .classWrapper proceed advice []

/-- Writes all attributes, one after the other. -/
def writeAll (m : Machine) (v : Value) : Fields Value → Act Unit
  | [] => pure ()
  | (n, x) :: fs => do
    m.write v n x
    writeAll m v fs

/-- Writes into the table of an object, whatever its class says. -/
def putFields (v : Value) (fs : Fields Value) : Act Unit := do
  match v, (← get).attrs? v with
  | .ref r, some _ => modify fun s => fs.foldl (fun s f => s.putAttr r f.1 f.2) s
  | _, _ => refuse .attributeError

/-- Makes any object a wrapper of `proceed`, as its class writes attributes. -/
def initialise (m : Machine) (v proceed advice : Value) (extra : Fields Value) : Act Value := do
  writeAll m v (← copiedTitles m proceed titles)
  putFields v (← takenTable m proceed)
  writeAll m v ([("__wrapped__", proceed), ("proceed", proceed), ("advice", advice)] ++ extra)
  return .absent

/-- Host functions refuse to bind to no instance of no class. -/
def refusesNothing (s : Store) (f : Value) : Bool :=
  match s.classOf f with
  | .builtin c => c ∉ [.wrapper, .unboundWrapper, .classWrapper]
  | .defined _ => false

/-- How what is wrapped binds, if its class says so itself. -/
def declaredBinder (m : Machine) (proceed : Value) : Act (Option Value) := do
  let s ← get
  match s.override? (s.classOf proceed) "__get__" with
  | none => return none
  | some _ => return some (← m.read (s.classOf proceed).value "__get__")

/-- Binds what is wrapped as its own class says. -/
def bindProceed (m : Machine) (proceed inst owner : Value) : Act Value := do
  match ← declaredBinder m proceed with
  | some g => m.call g [proceed, inst, owner] []
  | none =>
    if inst = .absent ∧ owner = .absent ∧ refusesNothing (← get) proceed then refuse .typeError
    else m.bind proceed inst owner

/-- Whether what is wrapped binds at all. -/
def bindsProceed (m : Machine) (proceed : Value) : Act Bool := do
  match ← declaredBinder m proceed with
  | some g => return g ≠ .absent
  | none => return (← get).binds proceed

/-- A wrapper read from a class or an instance binds the instance into what it wraps, so that the
advice sees the explicit arguments only.  One that wraps what does not bind is itself. -/
def bind (m : Machine) (w inst owner : Value) : Act Value := do
  let proceed ← fieldOf m w "proceed"
  if !(← bindsProceed m proceed) then return w
  if inst = .absent then
    if owner = .absent then return w
    else unbound m proceed (← fieldOf m w "advice") owner
  else
    let bound ← bindProceed m proceed inst owner
    around m bound (← fieldOf m w "advice")

/-- A function and the object that its first argument is. -/
def boundMethod (f self : Value) : Act Value := do
  if !(← get).isCallable f || self = .absent then refuse .typeError
  alloc { cls := .builtin .method, body := .bound f self }

/-- A class wrapper binds the class that it is read from. -/
def bindClass (m : Machine) (w inst owner : Value) : Act Value := do
  let s ← get
  let owner := if owner = .absent then (s.classOf inst).value else owner
  let proceed ← fieldOf m w "proceed"
  let bound ←
    if ← isKind m proceed .classWrapper then
      m.call (← m.read proceed "__get__") [inst, owner] []
    else boundMethod proceed owner
  around m bound (← fieldOf m w "advice")

/-- A call hands the advice what is wrapped, the arguments as a tuple and the named ones as a table. -/
def call (m : Machine) (w : Value) (args : List Value) (named : Fields Value) : Act Value := do
  let args ← newTuple args
  let named ← newNamed named
  let advice ← fieldOf m w "advice"
  let proceed ← fieldOf m w "proceed"
  m.call advice [proceed, args, named] []

/-- A method read from its class: the first argument is the instance. -/
def callUnbound (m : Machine) (w inst : Value) (args : List Value) (named : Fields Value) :
    Act Value := do
  let args ← newTuple args
  let named ← newNamed named
  let proceed ← fieldOf m w "proceed"
  if !(← bindsProceed m proceed) then refuse .attributeError
  let bound ← bindProceed m proceed inst (← fieldOf m w "owner")
  let advice ← fieldOf m w "advice"
  m.call advice [bound, args, named] []

end Wrapper
end CallContracts
