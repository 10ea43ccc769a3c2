import CallContracts.Numeral.Shortest
import CallContracts.Text.DecimalDigit
/-! Reading numbers from text.  Blanks at both ends are dropped, a sign may come first, and a single
underscore may stand between two digits; digits of any script will do. -/
namespace CallContracts.Numeral
open Text

/-- The value of a digit or letter in bases up to 36. -/
def alphanumeric? (c : Char) : Option Nat :=
  if c.isDigit then some (c.toNat - '0'.toNat)
  else if 'a' ≤ c ∧ c ≤ 'z' then some (c.toNat - 'a'.toNat + 10)
  else if 'A' ≤ c ∧ c ≤ 'Z' then some (c.toNat - 'A'.toNat + 10)
  else none

def digitIn? (base : Nat) (c : Char) : Option Nat := (alphanumeric? c).filter (· < base)

/-- The digits at the start, single underscores between them left out, and what follows them. -/
def takeDigits (value : Char → Option Nat) : List Char → List Nat × List Char
  | [] => ([], [])
  | c :: r => match value c with
    | none => ([], c :: r)
    | some d => match r with
      | '_' :: e :: t =>
        if (value e).isSome then
          let (ds, rest) := takeDigits value (e :: t)
          (d :: ds, rest)
        else ([d], '_' :: e :: t)
      | r =>
        let (ds, rest) := takeDigits value r
        (d :: ds, rest)

def ofDigits (base : Nat) (ds : List Nat) : Nat := ds.foldl (fun n d => base * n + d) 0

/-- A sign, and what follows it. -/
def takeSign : List Char → Bool × List Char
  | '-' :: r => (true, r)
  | '+' :: r => (false, r)
  | r => (false, r)

def signed (negative : Bool) (n : Nat) : Int := if negative then -(n : Int) else n

/-- A text of more digits than this is refused where the base is no power of two. -/
def mostDigits : Nat := 4300

def isPowerOfTwo (base : Nat) : Bool := base ∈ [2, 4, 8, 16, 32]

/-- The base that the two characters at the start of a literal stand for. -/
def literalBase? : List Char → Option (Nat × List Char)
  | '0' :: c :: r =>
    if c = 'x' ∨ c = 'X' then some (16, r) else if c = 'o' ∨ c = 'O' then some (8, r)
    else if c = 'b' ∨ c = 'B' then some (2, r) else none
  | _ => none

/-- The base and the digits of an unsigned literal; base zero takes the base that the text names, and
without one no zero may come before other digits. -/
def literal (base : Nat) (s : List Char) : Nat × List Char × Bool :=
  let afterMark : List Char → List Char
    | '_' :: r => r
    | r => r
  match literalBase? s with
  | some (b, r) => if base = 0 ∨ base = b then (b, afterMark r, false) else (base, s, false)
  | none => if base = 0 then (10, s, s.head? = some '0') else (base, s, false)

/-- The whole number that a text writes in a base. -/
def wholeIn? (base : Nat) (s : List Char) : Option Int :=
  let (negative, s) := takeSign (trimBy isHostBlank (plainNumber s))
  let (base, s, onlyZero) := literal base s
  match takeDigits (digitIn? base) s with
  | ([], _) => none
  | (ds, []) =>
    if mostDigits < ds.length ∧ !isPowerOfTwo base then none
    else
      let n := ofDigits base ds
      if onlyZero ∧ n ≠ 0 then none else some (signed negative n)
  | _ => none

namespace Double

/-- `coefficient · 10 ^ power`, far beyond the range without the powers of ten. -/
def ofDecimal (negative : Bool) (coefficient : Nat) (power : Int) : Double :=
  let top := power + decimalSize coefficient
  if coefficient = 0 ∨ top < -400 then zero negative
  else if 400 < top then .infinite negative
  else
    let (n, d) := decimalQuotient coefficient power
    round negative n d

/-- An exponent, and what follows it; without digits it is none. -/
def takeExponent (s : List Char) : Int × List Char :=
  match s with
  | c :: r =>
    if c = 'e' ∨ c = 'E' then
      let (negative, t) := takeSign r
      match t.takeWhile Char.isDigit with
      | [] => (0, s)
      | ds => (signed negative (Nat.ofDigitChars 10 ds 0), t.dropWhile Char.isDigit)
    else (0, s)
  | [] => (0, [])

/-- The name of an infinity or of no number, in letters of any case. -/
def takeName (negative : Bool) (s : List Char) : Option (Double × List Char) :=
  let starts (w : String) := w.toList.isPrefixOf (s.map Char.toLower)
  if starts "infinity" then some (.infinite negative, s.drop 8)
  else if starts "inf" then some (.infinite negative, s.drop 3)
  else if starts "nan" then some (.undefined, s.drop 3)
  else none

/-- The number that a text starts with, and what follows it. -/
def takeNumber (s : List Char) : Option (Double × List Char) :=
  let (negative, s) := takeSign s
  match takeName negative s with
  | some x => some x
  | none =>
    let whole := s.takeWhile Char.isDigit
    let (fraction, rest) := match s.dropWhile Char.isDigit with
      | '.' :: r => (r.takeWhile Char.isDigit, r.dropWhile Char.isDigit)
      | r => ([], r)
    if whole = [] ∧ fraction = [] then none
    else
      let (e, rest) := takeExponent rest
      some (ofDecimal negative (Nat.ofDigitChars 10 (whole ++ fraction) 0) (e - fraction.length), rest)

/-- Underscores between two digits are left out; anywhere else they are wrong. -/
def dropMarks : Bool → List Char → Option (List Char)
  | _, [] => some []
  | afterDigit, c :: r =>
    if c = '_' then
      if afterDigit && (r.head?.any Char.isDigit) then dropMarks false r else none
    else (dropMarks c.isDigit r).map (c :: ·)

def read? (s : List Char) : Option Double :=
  match (dropMarks false (trimBy isHostBlank (plainNumber s))).map takeNumber with
  | some (some (x, [])) => some x
  | _ => none

end Double

/-- The imaginary part ends in a letter; without digits it is one. -/
def isImaginaryUnit (c : Char) : Bool := c = 'j' || c = 'J'

def unit (negative : Bool) : Double := .round negative 1 1

/-- Real and imaginary part of the number that a text starts with, and what follows it. -/
def takeComplex (s : List Char) : Option (Double × Double × List Char) :=
  match Double.takeNumber s with
  | some (x, c :: r) =>
    if isImaginaryUnit c then some (.zero false, x, r)
    else if c = '+' ∨ c = '-' then
      let (y, rest) := (Double.takeNumber (c :: r)).getD (unit (c = '-'), r)
      match rest with
      | d :: r => if isImaginaryUnit d then some (x, y, r) else none
      | [] => none
    else some (x, .zero false, c :: r)
  | some (x, []) => some (x, .zero false, [])
  | none =>
    let (negative, r) := takeSign s
    match r with
    | d :: r => if isImaginaryUnit d then some (.zero false, unit negative, r) else none
    | [] => none

/-- A number with two parts; parentheses may stand around it. -/
def complex? (s : List Char) : Option (Double × Double) :=
  match Double.dropMarks false (trimBy isHostBlank (plainNumber s)) with
  | none => none
  | some s =>
    let (open', s) := match s with
      | '(' :: r => (true, r.dropWhile isHostBlank)
      | s => (false, s)
    match takeComplex s with
    | none => none
    | some (x, y, r) => match open', r.dropWhile isHostBlank with
      | true, [')'] => some (x, y)
      | false, [] => some (x, y)
      | _, _ => none

/-- A quotient of two whole numbers, or a decimal number with or without exponent; the denominator may
be zero. -/
def ratio? (s : List Char) : Option (Int × Nat) :=
  let (negative, s) := takeSign (trimBy isSpace s)
  let startsWell := match s with
    | '.' :: c :: _ | c :: _ => (digit? c).isSome
    | [] => false
  if !startsWell then none
  else match takeDigits digit? s with
    | (ds, '/' :: r) => match takeDigits digit? r with
      | ([], _) => none
      | (es, []) => some (signed negative (ofDigits 10 ds), ofDigits 10 es)
      | _ => none
    | (ds, r) =>
      let (fs, r) := match r with
        | '.' :: t => takeDigits digit? t
        | t => ([], t)
      let n := ofDigits 10 (ds ++ fs)
      let scaled (e : Int) : Int × Nat :=
        let e := e - fs.length
        if e < 0 then (signed negative n, tenTo e.natAbs) else (signed negative (n * tenTo e.natAbs), 1)
      match r with
      | [] => some (scaled 0)
      | c :: t =>
        let (down, t) := takeSign t
        match takeDigits digit? t with
        | ([], _) => none
        | (es, []) => if c = 'e' ∨ c = 'E' then some (scaled (signed down (ofDigits 10 es))) else none
        | _ => none

example : wholeIn? 10 " -1_0\n".toList = some (-10) := by decide +kernel
example : wholeIn? 0 "0x_ff".toList = some 255 ∧ wholeIn? 0 "010".toList = none := by decide +kernel
example : (Double.read? "1_000.5E-1".toList).map Double.text = some "100.05" := by decide +kernel
example : Double.read? "1__0".toList = none := by decide +kernel
example : (complex? "(1-j)".toList).map (fun z => complexText z.1 z.2) = some "(1-1j)" := by decide +kernel
example : ratio? " -2/4 ".toList = some (-2, 4) ∧ ratio? ".5e1".toList = some (5, 1) := by decide +kernel

end CallContracts.Numeral
