import CallContracts.Text.Quoted
/-! Answers: the tree that a request is answered with, and its text. -/
namespace CallContracts

inductive Answer where
  | null
  | bool (b : Bool)
  | int (i : Int)
  | str (s : String)
  | list (xs : List Answer)
  | record (fields : List (String × Answer))
  deriving Repr, Inhabited

namespace Answer

/-- The answer `{"$": tag, …}`. -/
def tagged (tag : String) (fields : List (String × Answer)) : Answer :=
  record (("$", str tag) :: fields)

def unit16 (n : Nat) : List Char := '\\' :: 'u' :: Text.hex 4 n

/-- Plain ASCII; a character beyond the first plane is written as two halves. -/
def escape (c : Char) : List Char :=
  if c = '"' ∨ c = '\\' then ['\\', c]
  else if c = '\n' then ['\\', 'n']
  else if c = '\r' then ['\\', 'r']
  else if c = '\t' then ['\\', 't']
  else if c = '\x08' then ['\\', 'b']
  else if c = '\x0c' then ['\\', 'f']
  else if 0x20 ≤ c.toNat ∧ c.toNat < 0x7f then [c]
  else if c.toNat < 0x10000 then unit16 c.toNat
  else
    let n := c.toNat - 0x10000
    unit16 (0xd800 + n / 0x400) ++ unit16 (0xdc00 + n % 0x400)

def textOfString (s : String) : String :=
  String.ofList ('"' :: s.toList.flatMap escape ++ ['"'])

mutual
def text : Answer → String
  | null => "null"
  | bool b => if b then "true" else "false"
  | int i => toString i
  | str s => textOfString s
  | list xs => "[" ++ String.intercalate ", " (texts xs) ++ "]"
  | record fs => "\x7b" ++ String.intercalate ", " (fieldTexts fs) ++ "\x7d"
def texts : List Answer → List String
  | [] => []
  | x :: r => x.text :: texts r
def fieldTexts : List (String × Answer) → List String
  | [] => []
  | (k, x) :: r => (textOfString k ++ ": " ++ x.text) :: fieldTexts r
end

/-- How far a place has been read. -/
inductive Masking where
  | outside | ready | inside
  deriving DecidableEq

/-- Places are written with small letters. -/
def isHexDigit (c : Char) : Bool := c.isDigit || ('a' ≤ c && c ≤ 'f')

def maskStep : List Char × Masking → Char → List Char × Masking
  | (out, .inside), c => if isHexDigit c then (out, .inside) else (c :: out, .outside)
  | (out, .ready), c => if isHexDigit c then ('0' :: out, .inside) else (c :: out, .outside)
  | (out, .outside), c =>
    (c :: out, if (c :: out).take 6 = ['x', '0', ' ', 't', 'a', ' '] then .ready else .outside)

/-- Places in a text are hidden: the digits after ` at 0x` become a zero. -/
def mask (s : String) : String := String.ofList (s.toList.foldl maskStep ([], .outside)).1.reverse

mutual
def masked : Answer → Answer
  | str s => str (mask s)
  | list xs => list (maskedAll xs)
  | record fs => record (maskedFields fs)
  | null => null
  | bool b => bool b
  | int i => int i
def maskedAll : List Answer → List Answer
  | [] => []
  | x :: r => x.masked :: maskedAll r
def maskedFields : List (String × Answer) → List (String × Answer)
  | [] => []
  | (k, x) :: r => (k, x.masked) :: maskedFields r
end

example : mask "<function f at 0x7f00> at 0x" = "<function f at 0x0> at 0x" := by decide
example : (list [null, int (-5), str "a\"b"]).text = "[null, -5, \"a\\\"b\"]" := by decide

end Answer
end CallContracts
