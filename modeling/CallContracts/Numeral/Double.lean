import CallContracts.Numeral.Exact
/-! Floating point numbers of 53 bits.  A finite one is a sign, a significand below 2^53 and a power
of two, and is kept normal: the significand is at least 2^52 unless the power is the least, -1074.
Every operation rounds the exact result to the nearest such number, ties to the even significand. -/
namespace CallContracts.Numeral

inductive Double where
  | undefined
  | infinite (negative : Bool)
  | finite (negative : Bool) (significand : Nat) (power : Int)
  deriving DecidableEq, Repr

namespace Double

def leastPower : Int := -1074
def greatestPower : Int := 971
def zero (negative : Bool) : Double := .finite negative 0 leastPower

/-- `n / d` as a quotient of naturals after division by `2 ^ p`. -/
def scaled (n d : Nat) (p : Int) : Nat × Nat :=
  if p < 0 then (n * twoTo p.natAbs, d) else (n, d * twoTo p.natAbs)

/-- The quotient rounded to the nearest natural, ties to even. -/
def roundDiv (n d : Nat) : Nat :=
  let q := n / d
  let r := n % d
  if 2 * r < d then q else if d < 2 * r then q + 1 else if q % 2 = 0 then q else q + 1

/-- The power at which the significand of `n / d` has 53 bits, or the least power. -/
def powerFor (n d : Nat) : Int :=
  let p := max ((n.log2 : Int) - d.log2 - 53) leastPower
  let s := scaled n d p
  if twoTo 53 ≤ s.1 / s.2 then p + 1 else p

def round (negative : Bool) (n d : Nat) : Double :=
  if n = 0 then zero negative
  else
    let p := powerFor n d
    let s := scaled n d p
    let m := roundDiv s.1 s.2
    let (m, p) := if m = twoTo 53 then (twoTo 52, p + 1) else (m, p)
    if greatestPower < p then .infinite negative else .finite negative m p

def ofRatio (r : Ratio) : Double := round (r.num < 0) r.num.natAbs r.den

/-- The nearest number, when the integer is not out of range. -/
def ofInt? (i : Int) : Option Double :=
  match ofRatio (.ofInt i) with
  | .infinite _ => none
  | x => some x

def exact : Double → Exact
  | .undefined => .undefined
  | .infinite n => .infinite n
  | .finite n m p =>
    let i : Int := if n then -(m : Int) else m
    .ratio (if p < 0 then ⟨i, twoTo p.natAbs⟩ else ⟨i * twoTo p.natAbs, 1⟩)

def negative : Double → Bool
  | .undefined => false
  | .infinite n => n
  | .finite n _ _ => n

def neg : Double → Double
  | .undefined => .undefined
  | .infinite n => .infinite !n
  | .finite n m p => .finite (!n) m p

def isZero (x : Double) : Bool := x.exact.isZero

/-- The sum; an exact zero is negative only if both terms are. -/
def add (x y : Double) : Double :=
  match x.exact, y.exact with
  | .ratio a, .ratio b =>
    let s := a.add b
    if s.num = 0 then zero (x.negative && y.negative) else ofRatio s
  | .infinite a, .infinite b => if a = b then x else .undefined
  | .infinite _, .ratio _ => x
  | .ratio _, .infinite _ => y
  | _, _ => .undefined

def mul (x y : Double) : Double :=
  let n := x.negative != y.negative
  match x.exact, y.exact with
  | .ratio a, .ratio b => let p := a.mul b; round n p.num.natAbs p.den
  | .undefined, _ => .undefined
  | _, .undefined => .undefined
  | _, _ => if x.isZero || y.isZero then .undefined else .infinite n

/-- The integer that the number is, if it is one. -/
def toInt? (x : Double) : Option Int :=
  match x.exact with
  | .ratio r => if r.num % r.den = 0 then some (r.num / r.den) else none
  | _ => none

example : round false 1 10 = .finite false 7205759403792794 (-56) := by decide +kernel
example : (round false 1 10).add (round false 2 10) = round false 30000000000000004 (tenTo 17) := by
  decide +kernel
example : round false (tenTo 309) 1 = .infinite false := by decide +kernel
example : round false 5 (tenTo 324) = .finite false 1 leastPower := by decide +kernel

end Double
end CallContracts.Numeral
