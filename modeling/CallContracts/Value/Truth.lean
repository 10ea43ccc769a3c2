import CallContracts.Class.Instance
import CallContracts.Value.Number
/-! Truth and length.  A number is false when it is zero and a container when it is empty; everything else
is true, unless its class says otherwise. -/
namespace CallContracts
open Act

namespace Store

/-- The truth of a value whose builtin class decides it. -/
def nativeTruth? (s : Store) (v : Value) : Option Bool :=
  match s.unboxed v with
  | .absent | .undefined => some false
  | .bool b => some b
  | .int i => some (i ≠ 0)
  | _ => match s.parts v with
    | some (x, y) => some !(x.isZero && y.isZero)
    | none => if s.isA v .undefined then some false else none

/-- How many items a container has. -/
def nativeLength? (s : Store) (v : Value) : Option Nat :=
  match s.text? v with
  | some t => some t.length
  | none => match s.body? v with
    | some (.scalar (.bytes bs)) => some bs.length
    | some (.list xs) | some (.tuple xs) | some (.deque xs) | some (.set xs) => some xs.length
    | some (.view _ of) => (s.entries? of).map List.length
    | _ => (s.entries? v).map List.length

end Store

/-- What a class says about the length of its instance: a position that is not negative. -/
def declaredLength (m : Machine) (v f : Value) : Act Nat := do
  let i ← asIndex m (← callSpecial m v f [])
  if i < 0 then refuse .valueError
  else if 9223372036854775807 < i then refuse .overflowError
  else return i.toNat

def lengthOf (m : Machine) (v : Value) : Act Nat := do
  let s ← get
  match s.override? (s.classOf v) "__len__" with
  | some f => declaredLength m v f
  | none => match s.nativeLength? v, s.body? v with
    | some n, _ => return n
    | none, some (.view _ of) =>
      let n ← m.call (.operation .length) [of] []
      return ((← get).whole? n).getD 0 |>.toNat
    | none, _ => refuse .typeError

def truth (m : Machine) (v : Value) : Act Bool := do
  let s ← get
  let c := s.classOf v
  match s.override? c "__bool__" with
  | some f => match ← callSpecial m v f [] with
    | .bool b => return b
    | _ => refuse .typeError
  | none => match s.nativeTruth? v, s.override? c "__len__" with
    | some b, _ => return b
    | none, some f => return (← declaredLength m v f) ≠ 0
    | none, none => match s.body? v with
      | some (.view ..) => return (← lengthOf m v) ≠ 0
      | _ => return s.nativeLength? v ≠ some 0

/-- How deep a value is followed. -/
def depthLimit : Nat := 1000

/-- What no class decides itself is asked for its bases, and then compared with what the value says. -/
def isInstanceOfOther (m : Machine) (v cls : Value) : Act Bool := do
  match ← optional (m.read cls "__bases__") with
  | none => refuse .typeError
  | some bases => match (← get).body? bases with
    | some (.tuple _) => return (← optional (m.read v "__class__")) = some cls
    | _ => refuse .typeError

/-- Membership in a class, in one of several, or in what decides for itself. -/
def belongsTo (m : Machine) : Nat → Value → Value → Act Bool
  | 0, _, _ => refuse .recursionError
  | n + 1, v, cls => do
    let s ← get
    if (s.classOf v).value = cls then return true
    match s.body? cls with
    | some (.tuple cs) => anyOf (belongsTo m n v) cs
    | _ => match s.override? (s.classOf cls) "__instancecheck__", s.class? cls with
      | some f, _ => do truth m (← callSpecial m cls f [v])
      | none, some c => isInstance m v c
      | none, none => isInstanceOfOther m v cls

end CallContracts
