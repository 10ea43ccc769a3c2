import CallContracts.Numeral.Reading
/-! Decimal numbers that remember their scale: `1.10` and `1.1` are equal and written differently.  They
are exact when they are made; arithmetic keeps 28 digits. -/
namespace CallContracts.Numeral

inductive Decimal where
  | finite (negative : Bool) (coefficient : Nat) (power : Int)
  | infinite (negative : Bool)
  /-- What is not a number may carry digits. -/
  | undefined (negative signalling : Bool) (payload : Nat)
  deriving DecidableEq, Repr

/-- Why arithmetic gives no result. -/
inductive DecimalFault where
  | invalid | overflow
  deriving DecidableEq, Repr

namespace Decimal

def exact : Decimal → Exact
  | .finite n c k =>
    let (a, b) := decimalQuotient c k
    .ratio ⟨if n then -(a : Int) else a, b⟩
  | .infinite n => .infinite n
  | .undefined .. => .undefined

def isZero : Decimal → Bool
  | .finite _ 0 _ => true
  | _ => false

def isSignalling : Decimal → Bool
  | .undefined _ s _ => s
  | _ => false

/-- The digits that arithmetic keeps, and the greatest place of a first digit; the least is as far
below zero. -/
def precision : Nat := 28
def greatestPlace : Int := 999999
def leastPower : Int := -greatestPlace - (precision - 1)

/-- Drops the last `n` digits; a half goes to the even neighbour. -/
def dropDigits (n c : Nat) : Nat := Double.roundDiv c (tenTo n)

/-- Rounds to the digits that arithmetic keeps. -/
def rounded (negative : Bool) (c : Nat) (k : Int) : Except DecimalFault Decimal :=
  if c = 0 then .ok (.finite negative 0 (max leastPower (min k greatestPlace)))
  else
    let digits := decimalSize c
    let surplus := digits - precision
    let shift := if k + digits - 1 < -greatestPlace then max surplus (leastPower - k).toNat else surplus
    let c := dropDigits shift c
    let k := k + shift
    let (c, k) := if decimalSize c ≤ precision then (c, k) else (c / 10, k + 1)
    if greatestPlace < k + decimalSize c - 1 then .error .overflow else .ok (.finite negative c k)

def abs : Decimal → Except DecimalFault Decimal
  | .finite _ c k => rounded false c k
  | .infinite _ => .ok (.infinite false)
  | .undefined _ true _ => .error .invalid
  | .undefined n false p => .ok (.undefined n false (p % tenTo precision))

/-- The exact value of a floating point number, with as few digits as it needs. -/
def ofDouble : Double → Decimal
  | .undefined => .undefined false false 0
  | .infinite n => .infinite n
  | .finite n m p =>
    let r := (Double.finite false m p).exact
    match r with
    | .ratio r =>
      let r := r.reduce
      let k := Nat.log2 r.den
      .finite n (r.num.natAbs * Nat.pow 5 k) (-(k : Int))
    | _ => .finite n 0 0

/-- The nearest floating point number; none for what signals. -/
def toDouble? : Decimal → Option Double
  | .finite n c k => some (Double.ofDecimal n c k)
  | .infinite n => some (.infinite n)
  | .undefined _ s _ => if s then none else some .undefined

def sign (negative : Bool) : List Char := if negative then ['-'] else []

/-- Positional unless the power is positive or more than five zeros would follow the point. -/
def write : Decimal → List Char
  | .infinite n => sign n ++ "Infinity".toList
  | .undefined n s p =>
    sign n ++ (if s then "sNaN" else "NaN").toList ++ (if p = 0 then [] else Nat.toDigits 10 p)
  | .finite n c k =>
    let ds := Nat.toDigits 10 c
    let left := k + ds.length
    let place : Int := if k ≤ 0 ∧ -6 < left then left else 1
    let body :=
      if place ≤ 0 then '0' :: '.' :: List.replicate place.natAbs '0' ++ ds
      else if (ds.length : Int) ≤ place then ds ++ List.replicate (place - ds.length).toNat '0'
      else ds.take place.toNat ++ '.' :: ds.drop place.toNat
    let e := left - place
    let exponent :=
      if e = 0 then []
      else 'E' :: (if e < 0 then '-' else '+') :: Nat.toDigits 10 e.natAbs
    sign n ++ body ++ exponent

def text (x : Decimal) : String := String.ofList x.write

/-- The places that a first digit may have, and the least power. -/
def withinRange (c : Nat) (k : Int) : Bool :=
  k + (if c = 0 then 0 else decimalSize c - 1) ≤ 999999999999999999 ∧ -1999999999999999997 ≤ k

/-- Blanks at both ends are dropped, underscores wherever they stand. -/
def read? (s : List Char) : Option Decimal :=
  let s := (Text.plainNumber (Text.trimBy Text.isSpace s)).filter (· ≠ '_')
  let (negative, s) := takeSign s
  let payload (n : Nat) (signalling : Bool) : Option Decimal :=
    let ds := s.drop n
    if ds.all Char.isDigit then some (.undefined negative signalling (Nat.ofDigitChars 10 ds 0)) else none
  let starts (w : String) := w.toList.isPrefixOf (s.map Char.toLower)
  if starts "nan" then payload 3 false
  else if starts "snan" then payload 4 true
  else if s.map Char.toLower ∈ ["inf".toList, "infinity".toList] then some (.infinite negative)
  else
    let whole := s.takeWhile Char.isDigit
    let (fraction, rest) := match s.dropWhile Char.isDigit with
      | '.' :: r => (r.takeWhile Char.isDigit, r.dropWhile Char.isDigit)
      | r => ([], r)
    match whole ++ fraction, Double.takeExponent rest with
    | [], _ => none
    | ds, (e, []) =>
      let c := Nat.ofDigitChars 10 ds 0
      let k := e - fraction.length
      if withinRange c k then some (.finite negative c k) else none
    | _, _ => none

example : (read? "1.10".toList).map text = some "1.10" := by decide +kernel
example : (read? " -1_E+3 ".toList).map text = some "-1E+3" := by decide +kernel
example : (rounded false 12345678901234567890123456785 0).toOption.map text
    = some "1.234567890123456789012345678E+28" := by decide +kernel

end Decimal
end CallContracts.Numeral
