import CallContracts.Call.Construct
import CallContracts.Expr.Eval
/-! Special functions: what the builtin classes do for operators and conversions, called by name on an
instance.  They do what the builtin class itself does, whatever a class derived from it says. -/
namespace CallContracts
open Act

namespace Special
variable (m : Machine)

/-- A digest as one number. -/
def numberOf : Digest → Int
  | [0, i] => i
  | d => (d.foldl (fun h i => 1000003 * h + i) 1).bmod Numeral.residueModulus

def hash (c : BuiltinClass) (v : Value) : Act Value := do
  let s ← get
  match v, s.obj? v with
  | .ref r, some o =>
    let d ← if c = .object then pure (Digest.object r) else digestOfObject m (digestOf m) v r o
    return .int (numberOf d)
  | _, _ => return .int (numberOf (← digestOf m v))

/-- A comparison that leaves the decision to the other side says so. -/
def decided : Option Bool → Value
  | some b => .bool b
  | none => .notImplemented

def equals (c : BuiltinClass) (a b : Value) : Act (Option Bool) := do
  if c = .object then return if a = b then some true else none
  match (← get).body? a with
  | some (.proxy of) => return some (← truth m (← equal m of b))
  | _ => nativeEqual m (same m) a b

def before (c : BuiltinClass) (a b : Value) : Act (Option Bool) := do
  if c = .object then return none
  match ← nativeLt m (ltAt m depthLimit) a b with
  | some v => return some (← truth m v)
  | none => return none

/-- Before or equal. -/
def upTo (c : BuiltinClass) (a b : Value) : Act (Option Bool) := do
  match ← before m c a b with
  | some true => return some true
  | some false => equals m c a b
  | none => return none

def compare (c : BuiltinClass) (n : String) (a b : Value) : Act Value := do
  match n with
  | "__eq__" => return decided (← equals m c a b)
  | "__ne__" => return decided ((← equals m c a b).map (!·))
  | "__lt__" => return decided (← before m c a b)
  | "__gt__" => return decided (← before m c b a)
  | "__le__" => return decided (← upTo m c a b)
  | _ => return decided (← upTo m c b a)

def comparisons : List String := ["__eq__", "__ne__", "__lt__", "__gt__", "__le__", "__ge__"]

/-- The class of an iterator over a value. -/
def iteratorClass (s : Store) (v : Value) : BuiltinClass :=
  match s.text? v, s.body? v with
  | some _, _ => .textIterator
  | none, some (.list _) => .listIterator
  | none, some (.tuple _) => .tupleIterator
  | none, some (.set _) => .setIterator
  | none, some (.deque _) => .dequeIterator
  | none, some (.view .values _) => .valueIterator
  | none, some (.view .items _) => .itemIterator
  | none, some (.table _) | none, some (.view .keys _) | none, some (.proxy _) => .keyIterator
  | none, _ => .sequenceIterator

def iterator (v : Value) : Act Value := do
  let s ← get
  match s.body? v with
  | some (.iterator _) => return v
  | _ => do alloc { cls := .builtin (iteratorClass s v), body := .iterator (← nativeCursor m v) }

/-- The next item; an iterator at its end stays there. -/
def step (v : Value) : Act Value := do
  match v, (← get).body? v with
  | .ref r, some (.iterator c) =>
    match ← c.next m with
    | some (x, c) =>
      update r fun o => { o with body := .iterator c }
      x.toValue
    | none =>
      update r fun o => { o with body := .iterator (.fixed []) }
      refuse .stopIteration
  | _, _ => refuse .typeError

def readAs (c : BuiltinClass) (v : Value) (n : String) : Act Value :=
  if c = .object then readOfInstance m v n else readNative m v n

def writeAs (c : BuiltinClass) (v : Value) (n : String) (x : Value) : Act Unit := do
  match c.isClass, (← get).class? v with
  | true, some d => writeClass m v d n x
  | _, _ => writeDirect m v n x

def deleteAs (c : BuiltinClass) (v : Value) (n : String) : Act Unit := do
  match c.isClass, (← get).class? v with
  | true, some d => deleteOfClass m v d n
  | true, none | false, some _ => refuse .typeError
  | false, none => deleteInstance m v n

/-- Calls what a builtin class makes callable. -/
def call (v : Value) (args : List Value) (named : Fields Value) : Act Value := do
  let s ← get
  match s.class? v, s.body? v with
  | some c, _ => Construct.call m c args named
  | none, some (.partialCall f first kept) => m.call f (first ++ args) (kept.putAll named)
  | none, some (.staticMethod f) => m.call f args named
  | none, some (.bound f self) => m.call f (self :: args) named
  | _, _ => m.call v args named

/-- Where a builtin class has no answer, it leaves the decision to the other side. -/
def orNotImplemented (x : Act (Option Value)) : Act Value := do return (← x).getD .notImplemented

/-- Sequences refuse what they cannot put after themselves. -/
def operate (native after : Value → Value → Act (Option Value)) (c : BuiltinClass) (a b : Value) :
    Act Value := do
  if c ∈ [.str, .list, .tuple] then ofOption .typeError (← after a b)
  else orNotImplemented (native a b)

def item (v k : Value) : Act Value := do
  match (← get).body? v with
  | some (.proxy _) => Item.get m v k
  | _ => Item.native m v k

def nativeLength (v : Value) : Act Value := do
  match (← get).nativeLength? v with
  | some n => return .int n
  | none => return .int (← lengthOf m v)

def nativeTruth (v : Value) : Act Value := do
  match (← get).nativeTruth? v with
  | some b => return .bool b
  | none => return .bool (← truth m v)

/-- A special function of the class `c` without named arguments. -/
def applyTo (c : BuiltinClass) (n : String) (v : Value) (args : List Value) : Act Value := do
  match n, args with
  | "__repr__", [] =>
    if c = .object then return .str (String.ofList (showPlace (← get) v))
    else return .str (String.ofList (← nativeText m .quoted v))
  | "__str__", [] =>
    if c = .object then return .str (← shown m v)
    else return .str (String.ofList (← nativeText m .plain v))
  | "__hash__", [] => hash m c v
  | "__len__", [] => nativeLength m v
  | "__bool__", [] => nativeTruth m v
  | "__contains__", [x] => return .bool (← nativeContains m v x)
  | "__getitem__", [k] => item m v k
  | "__setitem__", [k, x] => Item.putNative m v k x; return .absent
  | "__delitem__", [k] => Item.erase m v k; return .absent
  | "__iter__", [] => iterator m v
  | "__next__", [] => step m v
  | "__getattribute__", [n] => readAs m c v (← attributeName n)
  | "__setattr__", [n, x] => writeAs m c v (← attributeName n) x; return .absent
  | "__delattr__", [n] => deleteAs m c v (← attributeName n); return .absent
  | "__get__", [inst] => if inst = .absent then refuse .typeError else m.bind v inst .absent
  | "__get__", [inst, owner] =>
    if inst = .absent ∧ owner = .absent then refuse .typeError else m.bind v inst owner
  | "__set__", [inst, x] => writeMember m inst x v; return .absent
  | "__delete__", [inst] => deleteMember m inst v; return .absent
  | "__add__", [x] => operate Arithmetic.added Arithmetic.joined c v x
  | "__mul__", [x] => operate Arithmetic.multiplied Arithmetic.repeated c v x
  | "__neg__", [] => Arithmetic.negated v
  | "__abs__", [] => Numbers.nativeAbsolute v
  | "__int__", [] | "__trunc__", [] | "__index__", [] =>
    return .int (← Numbers.truncated (← ofOption .typeError ((← get).real? v)))
  | "__float__", [] => match (← get).whole? v with
    | some i => do Make.newFloat (← ofOption (.refused .overflowError) (Numeral.Double.ofInt? i))
    | none => do Make.newFloat (← asDouble m v)
  | _, [x] => if n ∈ comparisons then compare m c n v x else refuse .typeError
  | _, _ => refuse .typeError

/-- Calls the special function `n` of the class `c`. -/
def apply (c : BuiltinClass) (n : String) (v : Value) (args : List Value) (named : Fields Value) :
    Act Value := do
  if !(← get).isA v c then refuse .typeError
  if n = "__init__" then
    Start.run m c v args named
    return .absent
  else if n = "__call__" then call m v args named
  else if named ≠ [] then refuse .typeError
  else applyTo m c n v args

end Special
end CallContracts
