import CallContracts.Class.Members
import CallContracts.Store
/-! The class of a value and its line of ancestors; membership by class and callability. -/
namespace CallContracts.Store

def classOf (s : Store) : Value → ClassId
  | .absent => .builtin .absent
  | .undefined => .builtin .undefined
  | .notImplemented => .builtin .notImplemented
  | .bool _ => .builtin .bool
  | .int _ => .builtin .int
  | .str _ => .builtin .str
  | .builtinClass c => .builtin c.ownClass
  | .operation o => .builtin o.ownClass
  | .ref r => match s.get? r with
    | some o => o.cls
    | none => .builtin .object

/-- The class and its ancestors, nearest first; a base was made before its class, so `fuel` beyond the
number of objects changes nothing. -/
def lineFrom (s : Store) : Nat → ClassId → List ClassId
  | _, .builtin c => c.line.map .builtin
  | 0, .defined r => [.defined r]
  | n + 1, .defined r => .defined r :: match s.classInfo? r with
    | some info => s.lineFrom n info.base
    | none => []

def line (s : Store) (c : ClassId) : List ClassId := s.lineFrom s.heap.size c

/-- The builtin classes among the ancestors. -/
def builtinLine (s : Store) (c : ClassId) : List BuiltinClass :=
  (s.line c).filterMap fun | .builtin b => some b | .defined _ => none

/-- The nearest builtin ancestor. -/
def builtinBase (s : Store) (c : ClassId) : BuiltinClass := ((s.builtinLine c).head?).getD .object

/-- The class that a value is, if it is one. -/
def class? (s : Store) : Value → Option ClassId
  | .builtinClass c => some (.builtin c)
  | .ref r => (s.classInfo? r).map fun _ => .defined r
  | _ => none

def isClass (s : Store) (v : Value) : Bool := (s.class? v).isSome

def classAttrs (s : Store) (r : Ref) : Fields Value := ((s.get? r).bind Obj.attrs).getD []

/-- What a class itself holds under a name. -/
def heldBy (s : Store) (n : String) : ClassId → Option Value
  | .builtin c => c.ownMember? n
  | .defined r => (s.classAttrs r).get? n

/-- The first ancestor's member of that name. -/
def classMember? (s : Store) (c : ClassId) (n : String) : Option Value :=
  (s.line c).findSome? (s.heldBy n)

/-- The member of a name where a class of the program says what the builtin ancestors say otherwise. -/
def override? (s : Store) (c : ClassId) (n : String) : Option Value :=
  match c with
  | .builtin _ => none
  | c => (s.line c).findSome? fun
    | .builtin _ => none
    | .defined r => (s.classAttrs r).get? n

/-- Whether a class of the program says what is looked up in a special way. -/
def overrides (s : Store) (c : ClassId) (ns : List String) : Bool :=
  ns.any fun n => (s.override? c n).isSome

/-- Whether instances of the class can be called. -/
def makesCallable (s : Store) (c : ClassId) : Bool :=
  (s.line c).any fun
    | .builtin b => b.isCallable
    | .defined r => ((s.classAttrs r).get? "__call__").isSome

def isCallable (s : Store) (v : Value) : Bool := s.makesCallable (s.classOf v)

/-- Whether a class is the other one or comes after it. -/
def comesFrom (s : Store) (c target : ClassId) : Bool := decide (target ∈ s.line c)

/-- Membership also counts for the classes that stand for what their instances can do. -/
def isSubclass (s : Store) (c target : ClassId) : Bool :=
  s.comesFrom c target || match target with
    | .builtin .number => (s.builtinLine c).any (·.isNumber)
    | .builtin .integral => (s.builtinLine c).any (·.isIntegral)
    | .builtin .mapping => (s.builtinLine c).any (·.isMapping)
    | .builtin .callable => s.makesCallable c && s.classMember? c "__call__" ≠ some .absent
    | _ => false

/-- Whether the class of a value itself comes from a builtin one. -/
def isA (s : Store) (v : Value) (b : BuiltinClass) : Bool := s.comesFrom (s.classOf v) (.builtin b)

/-- The class of a class. -/
def metaclass (s : Store) : ClassId → ClassId
  | .builtin c => .builtin c.ownClass
  | .defined r => s.classOf (.ref r)

/-- Whether a class decides membership by what its instances say about themselves. -/
def isAbstractClass (s : Store) (c : ClassId) : Bool :=
  s.comesFrom (s.metaclass c) (.builtin .abstractClass)

/-- The members that a class still lacks before it can have instances. -/
def lacks (s : Store) (c : ClassId) : List String :=
  match c with
  | .builtin b => b.required
  | c => (s.builtinBase c).required.filter fun n => (s.override? c n).isNone

/-- The name of a class, and the path to it. -/
def nameOfClass (s : Store) : ClassId → String
  | .builtin c => c.name
  | .defined r => ((s.classInfo? r).map ClassInfo.name).getD ""

def pathOfClass (s : Store) : ClassId → String
  | .builtin c => c.name
  | .defined r => ((s.classInfo? r).map ClassInfo.path).getD ""

def typeName (s : Store) (v : Value) : String := s.nameOfClass (s.classOf v)

/-- The simple value that a boxed one stands for. -/
def unboxed (s : Store) (v : Value) : Value :=
  match s.body? v with
  | some (.boxed w) => w
  | _ => v

def scalar? (s : Store) (v : Value) : Option Scalar :=
  match s.body? v with
  | some (.scalar x) => some x
  | _ => none

/-- The items of a list, tuple or deque. -/
def items? (s : Store) (v : Value) : Option (List Value) :=
  match s.body? v with
  | some (.list xs) | some (.tuple xs) | some (.deque xs) => some xs
  | _ => none

/-- The members of a class as a table. -/
def classTable (s : Store) : ClassId → Fields Value
  | .builtin c => c.table
  | .defined r => s.classAttrs r

/-- What is behind a table that can be read only. -/
def behind (s : Store) (v : Value) : Value :=
  match s.body? v with
  | some (.proxy of) => of
  | _ => v

/-- The entries of a table, also through what can be read only. -/
def entriesFrom (s : Store) : Nat → Value → Option (List (Value × Value))
  | 0, _ => none
  | n + 1, v => match s.body? v with
    | some (.table es) => some es
    | some (.proxy of) => match s.class? of with
      | some c => some ((s.classTable c).map fun f => (.str f.1, f.2))
      | none => s.entriesFrom n of
    | _ => none

def entries? (s : Store) (v : Value) : Option (List (Value × Value)) :=
  s.entriesFrom (s.heap.size + 1) v

end CallContracts.Store
