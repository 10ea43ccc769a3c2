import CallContracts.Numeral.Double
/-! The fewest decimal digits that read back as the same floating point number, of those the nearest,
and how they are written: positionally from 10^-4 up to 10^16, with an exponent outside. -/
namespace CallContracts.Numeral

/-- The decimal number `0.d₁d₂… × 10 ^ point`. -/
structure Digits where
  digits : List Char
  point : Int
  deriving DecidableEq, Repr

def decimalSize (n : Nat) : Nat := (Nat.toDigits 10 n).length

/-- The `p` with `10 ^ (p - 1) ≤ n / d < 10 ^ p`, for a positive quotient. -/
def decimalPoint (n d : Nat) : Int :=
  if d ≤ n then decimalSize (n / d)
  else
    let c := (d + n - 1) / n
    1 - (if c ≤ 1 then 0 else decimalSize (c - 1))

/-- The numbers that round to significand `m` at power `p` lie between these two, in quarters of
`2 ^ p`; both ends belong to them when `m` is even. -/
def quarters (m : Nat) (p : Int) : Nat × Nat :=
  (if m = twoTo 52 ∧ p ≠ Double.leastPower then 4 * m - 1 else 4 * m - 2, 4 * m + 2)

/-- `c · 10 ^ k` as a quotient of naturals. -/
def decimalQuotient (c : Nat) (k : Int) : Nat × Nat :=
  if k < 0 then (c, tenTo k.natAbs) else (c * tenTo k.natAbs, 1)

/-- `a / b` compared with `c` quarters of `2 ^ p`. -/
def compareQuarters (a b c : Nat) (p : Int) : Ordering :=
  let q := p - 2
  if q < 0 then compare (a * twoTo q.natAbs) (c * b) else compare a (c * twoTo q.natAbs * b)

/-- Whether `c · 10 ^ k` rounds to significand `m` at power `p`. -/
def readsBack (m : Nat) (p : Int) (c : Nat) (k : Int) : Bool :=
  let (a, b) := decimalQuotient c k
  let (lo, hi) := quarters m p
  let within (o : Ordering) := o == .eq && m % 2 == 0
  let low := compareQuarters a b lo p
  let high := compareQuarters a b hi p
  (low == .gt || within low) && (high == .lt || within high)

/-- The multiple of `10 ^ k` nearest to `n / d` that reads back, if one of its two neighbours does. -/
def onGrid (m : Nat) (p : Int) (n d : Nat) (k : Int) : Option Nat :=
  let (n', d') := if k < 0 then (n * tenTo k.natAbs, d) else (n, d * tenTo k.natAbs)
  let lower := n' / d'
  let upper := if n' % d' = 0 then lower else lower + 1
  match readsBack m p lower k, readsBack m p upper k with
  | true, true => some (Double.roundDiv n' d')
  | true, false => some lower
  | false, true => some upper
  | false, false => none

/-- The first hit on the grids `10 ^ k`, `10 ^ (k - 1)`, …; seventeen digits always read back. -/
def searchGrids (m : Nat) (p : Int) (n d : Nat) : Nat → Int → Nat × Int
  | 0, k => (((onGrid m p n d k).getD 0), k)
  | fuel + 1, k =>
    match onGrid m p n d k with
    | some c => (c, k)
    | none => searchGrids m p n d fuel (k - 1)

/-- The digits of a positive finite number. -/
def shortest (m : Nat) (p : Int) : Digits :=
  let (n, d) := if p < 0 then (m, twoTo p.natAbs) else (m * twoTo p.natAbs, 1)
  let (c, k) := searchGrids m p n d 16 (decimalPoint n d - 1)
  let ds := Nat.toDigits 10 c
  ⟨(ds.reverse.dropWhile (· = '0')).reverse, k + ds.length⟩

/-- How a floating point number is written: the points at which positional notation is used, and
whether an integer keeps a zero after its point. -/
structure Notation where
  leastPoint : Int := -3
  greatestPoint : Int := 16
  pointZero : Bool := true

def Digits.exponent (x : Digits) : List Char :=
  let e := x.point - 1
  let ds := Nat.toDigits 10 e.natAbs
  'e' :: (if e < 0 then '-' else '+') :: (if ds.length < 2 then '0' :: ds else ds)

def Digits.write (n : Notation) (x : Digits) : List Char :=
  let size : Int := x.digits.length
  if x.point < n.leastPoint ∨ n.greatestPoint < x.point then
    match x.digits with
    | [] => x.exponent
    | [c] => c :: x.exponent
    | c :: r => c :: '.' :: r ++ x.exponent
  else if x.point ≤ 0 then '0' :: '.' :: List.replicate x.point.natAbs '0' ++ x.digits
  else if size ≤ x.point then
    x.digits ++ List.replicate (x.point - size).toNat '0' ++ (if n.pointZero then ['.', '0'] else [])
  else x.digits.take x.point.toNat ++ '.' :: x.digits.drop x.point.toNat

/-- The text of the absolute value. -/
def Double.writeAbs (n : Notation) : Double → List Char
  | .undefined => ['n', 'a', 'n']
  | .infinite _ => ['i', 'n', 'f']
  | .finite _ 0 _ => if n.pointZero then ['0', '.', '0'] else ['0']
  | .finite _ m p => (shortest m p).write n

def Double.write (n : Notation) (x : Double) : List Char :=
  if x.negative then '-' :: x.writeAbs n else x.writeAbs n

def Double.text (x : Double) : String := String.ofList (x.write {})

/-- A number with a real and an imaginary part; the real part is left out when it is a positive zero. -/
def complexText (re im : Double) : String :=
  let plain : Notation := { pointZero := false }
  let imaginary := im.write plain ++ ['j']
  String.ofList <|
    if re = Double.zero false then imaginary
    else '(' :: re.write plain ++ (if im.negative then [] else ['+']) ++ imaginary ++ [')']

example : (Double.round false 1 10).text = "0.1" := by decide +kernel
example : (Double.round true (tenTo 16) 1).text = "-1e+16" := by decide +kernel
example : (Double.round false 123456789012345680 1).text = "1.2345678901234568e+17" := by decide +kernel
example : (Double.finite false 1 Double.leastPower).text = "5e-324" := by decide +kernel
example : complexText (.round false 1 1) (.round true 2 1) = "(1-2j)" := by decide +kernel

end CallContracts.Numeral
