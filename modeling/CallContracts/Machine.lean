import CallContracts.Class.Lookup
/-! The machine: what a program may ask for while it runs.  A machine answers by asking a machine of
one level less, so that a run always ends; one that is out of levels says so. -/
namespace CallContracts

inductive Stop where
  | raised (f : Fault)
  | exhausted
  deriving DecidableEq, Repr

/-- A computation on the store. -/
abbrev Act := EStateM Stop Store

/-- Calling a value, binding a member to the instance and class that it is read from, reading an attribute
and writing one. -/
structure Machine where
  call : Value → List Value → Fields Value → Act Value
  bind : Value → Value → Value → Act Value
  read : Value → String → Act Value
  write : Value → String → Value → Act Unit

namespace Machine

def halted : Machine where
  call _ _ _ := throw .exhausted
  bind _ _ _ := throw .exhausted
  read _ _ := throw .exhausted
  write _ _ _ := throw .exhausted

end Machine

namespace Act
variable {α β : Type}

def fail (f : Fault) : Act α := throw (.raised f)
def refuse (c : BuiltinClass) : Act α := fail (.refused c)

def ofOption (f : Fault) : Option α → Act α
  | some a => pure a
  | none => fail f

def alloc (o : Obj) : Act Value := fun s => .ok (.ref (s.alloc o).1) (s.alloc o).2
def update (r : Ref) (f : Obj → Obj) : Act Unit := fun s => .ok () (s.update r f)
def logMessage (t : String) : Act Unit := modify fun s => { s with log := s.log ++ [t] }

/-- Gives `handler` a chance when a fault of a class arises. -/
def orElseOn (c : BuiltinClass) (x : Act α) (handler : Act α) : Act α := fun s =>
  match x s with
  | .error (.raised f) s' => if c ∈ f.cls.line then handler s' else .error (.raised f) s'
  | .error .exhausted s' =>
    if c ∈ BuiltinClass.recursionError.line then handler s' else .error .exhausted s'
  | r => r

/-- Gives `handler` a chance when an attribute is missing. -/
def orElseMissing (x : Act α) (handler : Act α) : Act α := orElseOn .attributeError x handler

/-- The value, or nothing when an attribute is missing. -/
def optional (x : Act α) : Act (Option α) := orElseMissing (some <$> x) (pure none)

def every (f : α → Act Bool) : List α → Act Bool
  | [] => pure true
  | x :: xs => do if ← f x then every f xs else pure false

def anyOf (f : α → Act Bool) : List α → Act Bool
  | [] => pure false
  | x :: xs => do if ← f x then return true else anyOf f xs

def each (f : α → Act β) : List α → Act (List β)
  | [] => pure []
  | x :: xs => do
    let y ← f x
    let ys ← each f xs
    return y :: ys

def newList (xs : List Value) : Act Value := alloc { cls := .builtin .list, body := .list xs }
def newTuple (xs : List Value) : Act Value := alloc { cls := .builtin .tuple, body := .tuple xs }
def newTable (es : List (Value × Value)) : Act Value :=
  alloc { cls := .builtin .dict, body := .table es }
def newScalar (c : BuiltinClass) (x : Scalar) : Act Value :=
  alloc { cls := .builtin c, body := .scalar x }

/-- A table whose keys are strings. -/
def newNamed (fs : Fields Value) : Act Value := newTable (fs.map fun f => (.str f.1, f.2))

/-- The attribute that an object itself holds; nothing else is looked at. -/
def ownAttr (v : Value) (n : String) : Act Value := do
  ofOption .attributeError ((← get).attr? v n)

def asName : Value → Act String
  | .str n => pure n
  | _ => refuse .typeError

/-- Entries whose keys are names. -/
def named (es : List (Value × Value)) : Act (Fields Value) :=
  each (fun e => do return (← asName e.1, e.2)) es

end Act

/-- What a class of the program says in place of a builtin one, called on its instance. -/
def callSpecial (m : Machine) (v member : Value) (args : List Value) : Act Value := do
  let c := ((← get).classOf v).value
  m.call (← m.bind member v c) args []

/-- An attribute of an instance, as the object holds it unless its class may say otherwise. -/
def fieldOf (m : Machine) (v : Value) (n : String) : Act Value := do
  let s ← get
  match s.classOf v, s.attr? v n with
  | .builtin _, some x => return x
  | _, _ => m.read v n

end CallContracts
