import CallContracts.Value.Order
/-! Sums, products and negatives.  Whole numbers stay whole; otherwise both sides are floating point
numbers.  Texts, lists and tuples are put one after the other, and a text is repeated by a number after
it.  What the builtin ancestors leave open, a class of the program may decide. -/
namespace CallContracts
open Act Numeral

namespace Arithmetic

inductive Operand where
  | int (i : Int)
  | float (x : Double)

def operand? (s : Store) (v : Value) : Option Operand :=
  match s.whole? v, s.scalar? v with
  | some i, _ => some (.int i)
  | none, some (.float x) => some (.float x)
  | none, _ => none

def Operand.toDouble : Operand → Act Double
  | .int i => ofOption (.refused .overflowError) (Double.ofInt? i)
  | .float x => pure x

def newFloat (x : Double) : Act Value := newScalar .float (.float x)

/-- The result for two numbers; other values leave it open. -/
def onNumbers (onInt : Int → Int → Int) (onDouble : Double → Double → Double) (a b : Value) :
    Act (Option Value) := do
  let s ← get
  match operand? s a, operand? s b with
  | some (.int i), some (.int j) => return some (.int (onInt i j))
  | some x, some y =>
    let x ← x.toDouble
    return some (← newFloat (onDouble x (← y.toDouble)))
  | _, _ => return none

def added (a b : Value) : Act (Option Value) := onNumbers (· + ·) Double.add a b
def multiplied (a b : Value) : Act (Option Value) := onNumbers (· * ·) Double.mul a b

/-- One sequence after the other. -/
def joined (a b : Value) : Act (Option Value) := do
  let s ← get
  match s.text? a, s.text? b, s.body? a, s.body? b with
  | some x, some y, _, _ => return some (.str (x ++ y))
  | _, _, some (.list xs), some (.list ys) => some <$> newList (xs ++ ys)
  | _, _, some (.tuple xs), some (.tuple ys) => some <$> newTuple (xs ++ ys)
  | _, _, _, _ => return none

def repeated (a b : Value) : Act (Option Value) := do
  let s ← get
  match s.text? a, s.whole? b with
  | some t, some n => return some (.str (String.ofList (List.replicate n.toNat t.toList).flatten))
  | _, _ => return none

/-- The first answer that is one. -/
def firstOf : List (Act (Option Value)) → Act Value
  | [] => refuse .typeError
  | x :: xs => do
    match ← x with
    | some v => return v
    | none => firstOf xs

variable (m : Machine)

/-- The two sides in turn, the right one first if its class comes from that of the left one; then what
the containers make of it. -/
def decided (left right : String) (native after : Act (Option Value)) (a b : Value) : Act Value := do
  let s ← get
  let l := saysAbout m left a b native
  let r := saysAbout m right b a (pure none)
  let first := s.classOf b ≠ s.classOf a ∧ s.comesFrom (s.classOf b) (s.classOf a)
  firstOf (if first then [r, l, after] else [l, r, after])

def plus (a b : Value) : Act Value := decided m "__add__" "__radd__" (added a b) (joined a b) a b

def times (a b : Value) : Act Value :=
  decided m "__mul__" "__rmul__" (multiplied a b) (repeated a b) a b

def negated (a : Value) : Act Value := do
  match operand? (← get) a with
  | some (.int i) => return .int (-i)
  | some (.float x) => newFloat x.neg
  | none => refuse .typeError

def minus (a : Value) : Act Value := do
  let s ← get
  match s.override? (s.classOf a) "__neg__" with
  | some f => callSpecial m a f []
  | none => negated a

end Arithmetic
end CallContracts
