import CallContracts.Expr.Make
import CallContracts.Numeral.Root
/-! Numbers out of other values.  A class of the program may say which number its instance stands for;
otherwise text is read, and other numbers are cut, rounded or taken as they are. -/
namespace CallContracts
open Act Numeral

namespace Numbers
variable (m : Machine)

/-- The text that a number is read from; octets beyond ASCII are no digits. -/
def source? (s : Store) (v : Value) : Option (List Char) :=
  match s.text? v, s.scalar? v with
  | some t, _ => some t.toList
  | none, some (.bytes bs) => some (bs.map fun b => if b < 128 then Char.ofNat b else '?')
  | none, _ => none

/-- The whole number towards zero. -/
def truncated : Exact → Act Int
  | .ratio r => pure (r.num.tdiv r.den)
  | .infinite _ => refuse .overflowError
  | .undefined => refuse .valueError

def readWhole (base : Nat) (t : List Char) : Act Int := ofOption (.refused .valueError) (wholeIn? base t)

def whole (v : Value) : Act Int := do
  let s ← get
  let c := s.classOf v
  match s.override? c "__int__" with
  | some f => do
    let w ← callSpecial m v f []
    ofOption .typeError ((← get).whole? w)
  | none => match s.real? v, s.override? c "__index__", s.override? c "__trunc__", source? s v with
    | some x, _, _, _ => truncated x
    | none, some _, _, _ => asIndex m v
    | none, none, some f, _ => do asIndex m (← callSpecial m v f [])
    | none, none, none, some t => readWhole 10 t
    | none, none, none, none => refuse .typeError

/-- A whole number written in a base. -/
def wholeInBase (v base : Value) : Act Int := do
  let b ← asIndex m base
  if b ≠ 0 ∧ (b < 2 ∨ 36 < b) then refuse .valueError
  readWhole b.toNat (← ofOption .typeError (source? (← get) v))

def double (v : Value) : Act Double := do
  match source? (← get) v with
  | some t => Make.float t
  | none => asDouble m v

/-- What a class says when it is asked for a number with two parts. -/
def twoParts (v : Value) : Act (Double × Double) := do
  let s ← get
  match s.override? (s.classOf v) "__complex__" with
  | some f =>
    let w ← callSpecial m v f []
    match (← get).scalar? w with
    | some (.complex x y) => return (x, y)
    | _ => refuse .typeError
  | none => match s.scalar? v with
    | some (.complex x y) => return (x, y)
    | _ => return (← asDouble m v, .zero false)

def ofText (v : Value) : Act (Double × Double) := do
  let t ← ofOption .typeError ((← get).text? v)
  ofOption (.refused .valueError) (complex? t.toList)

/-- A number out of its parts, each of which may have two itself. -/
def ofParts (re im : Value) : Act (Double × Double) := do
  let s ← get
  if (s.text? re).isSome || (s.text? im).isSome then refuse .typeError
  let (a, b) ← twoParts m re
  let (c, d) ← twoParts m im
  let isComplex (v : Value) : Bool := match s.scalar? v with
    | some (.complex ..) => true
    | _ => false
  let x := if isComplex im then a.add d.neg else a
  return (x, if isComplex re then c.add b else c)

/-- A digit of a decimal number that is given in parts. -/
def digitOf (v : Value) : Act Nat := do
  match (← get).whole? v with
  | some i => if 0 ≤ i ∧ i ≤ 9 then return i.toNat else refuse .valueError
  | none => refuse .valueError

/-- A decimal number out of its sign, its digits and its power. -/
def ofDigits (sign digits power : Value) : Act Decimal := do
  let s ← get
  let negative ← match s.whole? sign with
    | some 0 => pure false
    | some 1 => pure true
    | _ => refuse .valueError
  let ds ← each digitOf (← ofOption (.refused .valueError) (s.items? digits))
  let n := Nat.ofDigitChars 10 (ds.map Nat.digitChar) 0
  match s.text? power, s.whole? power with
  | some "F", _ => return .infinite negative
  | some "n", _ => return .undefined negative false n
  | some "N", _ => return .undefined negative true n
  | none, some k =>
    if Decimal.withinRange n k then return .finite negative n k else refuse .invalidOperation
  | _, _ => refuse .valueError

def decimal (v : Value) : Act Decimal := do
  let s ← get
  match s.text? v, s.whole? v, s.scalar? v with
  | some t, _, _ => Make.decimal t.toList
  | none, some i, _ => return .finite (i < 0) i.natAbs 0
  | none, none, some (.decimal x) => return x
  | none, none, some (.float x) => return .ofDouble x
  | none, none, _ => match s.body? v with
    | some (.tuple [a, b, c]) | some (.list [a, b, c]) => ofDigits a b c
    | some (.tuple _) | some (.list _) => refuse .valueError
    | _ => refuse .typeError

/-- What has a numerator and a denominator. -/
def ratio? (s : Store) (v : Value) : Option Ratio :=
  match s.whole? v, s.scalar? v with
  | some i, _ => some (.ofInt i)
  | none, some (.fraction r) => some r
  | none, _ => none

def fraction (v : Value) : Act Value := do
  let s ← get
  match ratio? s v, s.real? v, s.text? v with
  | some r, _, _ | none, some (.ratio r), _ => Make.fraction r.num r.den
  | none, some (.infinite _), _ => refuse .overflowError
  | none, some .undefined, _ => refuse .valueError
  | none, none, some t =>
    let (n, d) ← ofOption (.refused .valueError) (Numeral.ratio? t.toList)
    Make.fraction n d
  | none, none, none => refuse .typeError

def quotient (a b : Value) : Act Value := do
  let s ← get
  match ratio? s a, ratio? s b with
  | some x, some y => Make.fraction (x.num * y.den) (y.num * x.den)
  | _, _ => refuse .typeError

def decimalResult : Except DecimalFault Decimal → Act Value
  | .ok x => Make.newDecimal x
  | .error .invalid => refuse .invalidOperation
  | .error .overflow => refuse .decimalOverflow

/-- The absolute value of a number. -/
def nativeAbsolute (v : Value) : Act Value := do
  let s ← get
  match s.whole? v, s.scalar? v with
  | some i, _ => return .int i.natAbs
  | none, some (.float x) => Make.newFloat (if x.negative then x.neg else x)
  | none, some (.fraction x) => Make.fraction x.num.natAbs x.den
  | none, some (.decimal x) => decimalResult x.abs
  | none, some (.complex x y) => match x.distance y, x.exact, y.exact with
    | .infinite _, .ratio _, .ratio _ => refuse .overflowError
    | d, _, _ => Make.newFloat d
  | none, _ => refuse .typeError

def absolute (v : Value) : Act Value := do
  let s ← get
  match s.override? (s.classOf v) "__abs__" with
  | some f => callSpecial m v f []
  | none => nativeAbsolute v

end Numbers
end CallContracts
