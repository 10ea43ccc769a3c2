import CallContracts.Attribute.Read
import CallContracts.Value.Arithmetic
import CallContracts.Value.Shown
/-! The operators of the little language. -/
namespace CallContracts
open Act

namespace Operators
variable (m : Machine)

/-- Whole and floating point numbers, truth values excepted. -/
def isNumber (v : Value) : Act Bool := do
  if ← anyOf (isKind m v) [.int, .float] then return !(← isKind m v .bool) else return false

def isWhole (v : Value) : Act Bool := do
  if ← isKind m v .int then return !(← isKind m v .bool) else return false

def both (p : Value → Act Bool) (a b : Value) : Act Bool := do if ← p a then p b else return false

def areTexts (a b : Value) : Act Bool := both (isKind m · .str) a b
def areLists (a b : Value) : Act Bool := both (isKind m · .list) a b

/-- What these operands allow; all others are reported. -/
def guarded (allowed : Act Bool) (x : Act Value) : Act Value := do
  if ← allowed then x else fail .badOperands

def add (a b : Value) : Act Value :=
  guarded (anyOf (fun p => p a b) [both (isNumber m), areTexts m, areLists m]) (Arithmetic.plus m a b)

/-- A text is repeated by a number after it. -/
def mul (a b : Value) : Act Value :=
  let repeats : Act Bool := do if ← isKind m a .str then isWhole m b else return false
  guarded (do if ← both (isNumber m) a b then return true else repeats) (Arithmetic.times m a b)

def neg (a : Value) : Act Value := guarded (isNumber m a) (Arithmetic.minus m a)

def lt (a b : Value) : Act Value := guarded (both (isNumber m) a b) (ltAt m depthLimit a b)

def text (a : Value) : Act Value :=
  let isText := if a = .absent then pure true
    else anyOf (isKind m a) [.bool, .int, .float, .str]
  guarded isText do return .str (← written m a)

/-- Whether two values are filed alike. -/
def sameHash (a b : Value) : Act Bool := do
  let d ← digestOf m a
  return d = (← digestOf m b)

def apply : Operator → List Value → Act Value
  | .add, [a, b] => add m a b
  | .mul, [a, b] => mul m a b
  | .neg, [a] => neg m a
  | .lt, [a, b] => lt m a b
  | .plain, [a] => text m a
  | .len, [a] => return .int (← lengthOf m a)
  | .eq, [a, b] => equal m a b
  | .is, [a, b] => return .bool (a = b)
  | .not, [a] => return .bool (!(← truth m a))
  | .bool, [a] => return .bool (← truth m a)
  | .isInstance, [a, c] => return .bool (← belongsTo m depthLimit a c)
  | .callable, [a] => return .bool ((← get).isCallable a)
  | .type, [a] => return .str ((← get).typeName a)
  | .hashEq, [a, b] => return .bool (← sameHash m a b)
  | .hasAttribute, [a, n] => return .bool (← hasAttribute m a n)
  | .getAttribute, [a, n] => getAttribute m a n
  | .quoted, [a] => return .str (← shown m a)
  | _, _ => refuse .typeError

end Operators
end CallContracts
