import CallContracts.Machine
/-! Whether a value belongs to a class, and of which kind it is.  A class of the program may make its
instances say that their class is another one, which membership believes. -/
namespace CallContracts
open Act

/-- Whether a class makes its instances say themselves what their class is. -/
def Store.spoofs (s : Store) (c : ClassId) : Bool := s.overrides c ["__class__", "__getattribute__"]

/-- Membership in a class.  One that stands for what its instances can do asks the instance first and
takes nothing but a class for an answer; any other is content when there is none. -/
def isInstance (m : Machine) (v : Value) (target : ClassId) : Act Bool := do
  let s ← get
  let own := s.classOf v
  if own = target ∨ !s.spoofs own then return s.isSubclass own target
  else if s.isAbstractClass target then
    let said ← m.read v "__class__"
    match (← get).class? said with
    | some c => return s.isSubclass c target || s.isSubclass own target
    | none => refuse .typeError
  else if s.comesFrom own target then return true
  else match ← optional (m.read v "__class__") with
    | none => return false
    | some c => return ((← get).class? c).any fun c => s.comesFrom c target

def isKind (m : Machine) (v : Value) (c : BuiltinClass) : Act Bool := isInstance m v (.builtin c)

def isMapping (m : Machine) (v : Value) : Act Bool := isKind m v .mapping

def isArray (m : Machine) (v : Value) : Act Bool := do
  if ← isKind m v .list then return true else isKind m v .tuple

def isContract (m : Machine) (v : Value) : Act Bool := isKind m v .contract
def isSignature (m : Machine) (v : Value) : Act Bool := isKind m v .signature

/-- The kind of a value: truth values come before numbers, and classes are no functions. -/
def kindOf (m : Machine) (v : Value) : Act Kind := do
  if v = .undefined then return .undefined
  else if v = .absent then return .null
  else if ← isKind m v .bool then return .boolean
  else if ← isKind m v .number then return .number
  else if ← isKind m v .str then return .string
  else if !(← get).isCallable v then return .object
  else if ← isKind m v .type then return .object
  else return .function

end CallContracts
