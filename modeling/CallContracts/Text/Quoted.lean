import CallContracts.Text.Printable
/-! Quoted text: the value of a string written so that it can be read back.  An apostrophe is the
delimiter unless the text holds one and no double quote; the delimiter, the backslash and the
characters that are not printable are escaped. -/
namespace CallContracts.Text

def hexDigit (n : Nat) : Char := Nat.digitChar n

/-- The lowest `w` hexadecimal digits of `n`. -/
def hex : Nat → Nat → List Char
  | 0, _ => []
  | w + 1, n => hex w (n / 16) ++ [hexDigit (n % 16)]

def escapeChar (delimiter c : Char) : List Char :=
  if c = delimiter ∨ c = '\\' then ['\\', c]
  else if c = '\n' then ['\\', 'n']
  else if c = '\r' then ['\\', 'r']
  else if c = '\t' then ['\\', 't']
  else if isPrintable c then [c]
  else if c.toNat < 0x100 then '\\' :: 'x' :: hex 2 c.toNat
  else if c.toNat < 0x10000 then '\\' :: 'u' :: hex 4 c.toNat
  else '\\' :: 'U' :: hex 8 c.toNat

def delimiter (s : List Char) : Char := if '\'' ∈ s ∧ '"' ∉ s then '"' else '\''

def quote (s : List Char) : List Char :=
  let d := delimiter s
  d :: s.flatMap (escapeChar d) ++ [d]

def quoted (s : String) : String := String.ofList (quote s.toList)

/-- Octets are quoted likewise; one outside of the printable ASCII range has two hexadecimal digits. -/
def escapeByte (delimiter : Char) (b : Nat) : List Char :=
  let c := Char.ofNat b
  if c = delimiter ∨ c = '\\' then ['\\', c]
  else if c = '\n' then ['\\', 'n']
  else if c = '\r' then ['\\', 'r']
  else if c = '\t' then ['\\', 't']
  else if 0x20 ≤ b ∧ b < 0x7f then [c]
  else '\\' :: 'x' :: hex 2 b

def quoteBytes (bs : List Nat) : List Char :=
  let d := delimiter (bs.map Char.ofNat)
  'b' :: d :: bs.flatMap (escapeByte d) ++ [d]

@[simp] theorem length_hex (w n : Nat) : (hex w n).length = w := by
  induction w generalizing n with
  | zero => rfl
  | succ w ih => simp [hex, ih]

theorem escapeChar_ne_nil (d c : Char) : escapeChar d c ≠ [] := by
  unfold escapeChar
  repeat' split
  all_goals simp

theorem length_quote (s : List Char) :
    (quote s).length = (s.flatMap (escapeChar (delimiter s))).length + 2 := by
  simp [quote]

example : quoted "it's" = "\"it's\"" := by decide
example : quoted "a\nb\\" = "'a\\nb\\\\'" := by decide
example : quoted "\u2028" = "'\\u2028'" := by decide +kernel

end CallContracts.Text
