import CallContracts.Fault
import CallContracts.Numeral.Decimal
import CallContracts.Text.Blank
/-! Lenient readings of the three settings.  A whole number may come as text, as octets of text, as a
truth value or as a number without fraction; a truth value as one of a few words or as zero or one. -/
namespace CallContracts.Settings
open Numeral

/-- What a setting is read from. -/
inductive Input where
  | bool (b : Bool)
  | int (i : Int)
  | float (x : Double)
  | decimal (x : Decimal)
  | text (s : List Char)
  | octets (bs : List Nat)
  | other
  deriving DecidableEq, Repr

/-- Octets read as text, if they are one. -/
def decoded? (bs : List Nat) : Option (List Char) :=
  (String.fromUTF8? ⟨(bs.map UInt8.ofNat).toArray⟩).map String.toList

/-- A number without leading zeros, and how many digits it has. -/
def plainInt? (s : List Char) : Option (Int × Nat) :=
  let (negative, ds) := match s with
    | '-' :: r => (true, r)
    | r => (false, r)
  if ds = [] ∨ !ds.all Char.isDigit ∨ (ds.head? = some '0' ∧ ds ≠ ['0']) then none
  else some (signed negative (Nat.ofDigitChars 10 ds 0), ds.length)

/-- After a zero: more zeros and underscores are skipped up to a digit or a minus; a point keeps what
stands before it, and so does the end. -/
def skipZeros : Char → List Char → Option (List Char)
  | last, [] => some [last]
  | last, c :: r =>
    if c = '0' ∨ c = '_' then skipZeros c r
    else if c.isDigit ∨ c = '-' then some (c :: r)
    else if c = '.' then some (last :: c :: r)
    else none

def dropLeadingZeros : List Char → Option (List Char)
  | '0' :: r => skipZeros '0' r
  | c :: r => if c.isDigit ∨ c = '-' then some (c :: r) else none
  | [] => none

/-- A fraction that adds nothing is dropped. -/
def dropZeroFraction (s : List Char) : List Char :=
  let whole := s.takeWhile (· ≠ '.')
  match s.dropWhile (· ≠ '.') with
  | '.' :: z :: r => if (z :: r).all (· = '0') then whole else s
  | _ => s

/-- Single underscores inside are dropped. -/
def dropMarks (s : List Char) : Option (List Char) :=
  let rec alone : List Char → Bool
    | '_' :: '_' :: _ => false
    | _ :: r => alone r
    | [] => true
  if s.head? = some '_' ∨ s.getLast? = some '_' ∨ !alone s then none else some (s.filter (· ≠ '_'))

/-- The plain form of a number that was written freely. -/
def cleaned (s : List Char) : Option (List Char) :=
  let unsigned (s : List Char) : Option (List Char) :=
    (dropLeadingZeros s).bind fun s => dropMarks (dropZeroFraction s)
  match s with
  | '+' :: '-' :: _ => none
  | '+' :: r => unsigned r
  | '-' :: r => (unsigned r).map ('-' :: ·)
  | s => unsigned s

/-- What reading a whole number comes to. -/
inductive Reading where
  | int (i : Int)
  | tooLong
  | unreadable
  deriving DecidableEq, Repr

def readInt (s : List Char) : Reading :=
  let s := Text.trim s
  match plainInt? s with
  | some (i, n) => if mostDigits < n then .tooLong else .int i
  | none => match (cleaned s).bind plainInt? with
    | some (i, n) => if mostDigits < n then .unreadable else .int i
    | none => .unreadable

def trueWords : List (List Char) := ["true", "1", "yes", "on", "y", "t"].map String.toList
def falseWords : List (List Char) := ["false", "0", "no", "off", "n", "f"].map String.toList

def readBool (s : List Char) : Option Bool :=
  let w := s.map Char.toLower
  if trueWords.contains w then some true else if falseWords.contains w then some false else none

def reject (field rule message : String) : FieldFault := ⟨field, rule, "Input should be " ++ message⟩

def leastLimit : Int := 8

def bounded (i : Int) : Except FieldFault Int :=
  if leastLimit ≤ i then .ok i
  else .error (reject "repr_limit" "greater_than_equal" "greater than or equal to 8")

def tooLong : FieldFault :=
  ⟨"repr_limit", "int_parsing_size", "Unable to parse input string as an integer, exceeded maximum size"⟩
def unreadable : FieldFault :=
  reject "repr_limit" "int_parsing" "a valid integer, unable to parse string as an integer"
def infinite : FieldFault := reject "repr_limit" "finite_number" "a finite number"
def fractional : FieldFault :=
  reject "repr_limit" "int_from_float" "a valid integer, got a number with a fractional part"

/-- Whole numbers that a word of 64 bits holds. -/
def isWord (i : Int) : Bool := -9223372036854775808 ≤ i && i ≤ 9223372036854775807

/-- A floating point number stands for a whole number of less than 64 bits. -/
def wholeOfFloat (x : Double) : Except FieldFault Int :=
  match x.exact, x.toInt? with
  | _, some i => if isWord i ∧ i ≠ -9223372036854775808 then .ok i else .error tooLong
  | .ratio _, none => .error fractional
  | _, none => .error infinite

def wholeOfDecimal (x : Decimal) : Except FieldFault Int :=
  match x.exact with
  | .ratio r => if r.num % r.den = 0 then .ok (r.num / r.den) else .error fractional
  | _ => .error infinite

def wholeOfText (s : List Char) : Except FieldFault Int :=
  match readInt s with
  | .int i => .ok i
  | .tooLong => .error tooLong
  | .unreadable => .error unreadable

def readLimit (x : Input) : Except FieldFault Int :=
  let whole : Except FieldFault Int := match x with
    | .bool b => .ok (if b then 1 else 0)
    | .int i => .ok i
    | .float x => wholeOfFloat x
    | .decimal x => wholeOfDecimal x
    | .text s => wholeOfText s
    | .octets bs => match decoded? bs with
      | some s => wholeOfText s
      | none => .error unreadable
    | .other => .error (reject "repr_limit" "int_type" "a valid integer")
  match whole with
  | .ok i => bounded i
  | .error f => .error f

def uninterpreted : FieldFault :=
  reject "allow_keywords" "bool_parsing" "a valid boolean, unable to interpret input"
def noBool : FieldFault := reject "allow_keywords" "bool_type" "a valid boolean"

def keywordsOfInt (i : Int) : Except FieldFault Bool :=
  if i = 0 then .ok false else if i = 1 then .ok true else .error uninterpreted

/-- Only a number that stands for a whole one is interpreted. -/
def keywordsOfFloat (x : Double) : Except FieldFault Bool :=
  match wholeOfFloat x with
  | .ok i => keywordsOfInt i
  | .error _ => .error noBool

def keywordsOfText (s : List Char) : Except FieldFault Bool :=
  match readBool s with
  | some b => .ok b
  | none => .error uninterpreted

def readKeywords : Input → Except FieldFault Bool
  | .bool b => .ok b
  | .int i => if isWord i then keywordsOfInt i else .error noBool
  | .float x => keywordsOfFloat x
  | .decimal x => match x.toDouble? with
    | some x => keywordsOfFloat x
    | none => .error noBool
  | .text s => keywordsOfText s
  | .octets bs => match decoded? bs with
    | some s => keywordsOfText s
    | none => .error uninterpreted
  | .other => .error noBool

def readSuffix : Input → Except FieldFault (List Char)
  | .text s => .ok s
  | .octets bs => match decoded? bs with
    | some s => .ok s
    | none => .error (reject "anonymous_suffix" "string_unicode"
        "a valid string, unable to parse raw data as a unicode string")
  | _ => .error (reject "anonymous_suffix" "string_type" "a valid string")

/-- The settings of a program. -/
structure Values where
  limit : Int := 80
  keywords : Bool := false
  suffix : List Char := "->anonym".toList
  deriving DecidableEq, Repr

/-- A field that is not given keeps its default. -/
def given {α : Type} (read : Input → Except FieldFault α) (default : α) :
    Option Input → Except FieldFault α
  | some x => read x
  | none => .ok default

def faultOf {α : Type} : Except FieldFault α → List FieldFault
  | .ok _ => []
  | .error f => [f]

/-- Reads the three fields; all faults are told, in the order of the fields. -/
def read (limit keywords suffix : Option Input) : Except (List FieldFault) Values :=
  let l := given readLimit 80 limit
  let k := given readKeywords false keywords
  let s := given readSuffix "->anonym".toList suffix
  match l, k, s with
  | .ok l, .ok k, .ok s => .ok ⟨l, k, s⟩
  | _, _, _ => .error (faultOf l ++ faultOf k ++ faultOf s)

example : readInt " 1_0.00\n".toList = .int 10 ∧ readInt "0_-9".toList = .int (-9) := by decide +kernel
example : readInt "1__0".toList = .unreadable ∧ readInt "0+1".toList = .unreadable := by decide +kernel

end CallContracts.Settings
