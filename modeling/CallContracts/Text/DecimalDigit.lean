import CallContracts.Text.Blank
/-! Decimal digits of every script.  The ten digits of a script stand one after the other, so its zero
says all; the table lists the zeros as Unicode 14 assigns them. -/
namespace CallContracts.Text

def digitZeros : List Nat := [
  48, 1632, 1776, 1984, 2406, 2534, 2662, 2790, 2918, 3046, 3174, 3302, 3430, 3558, 3664, 3792, 3872,
  4160, 4240, 6112, 6160, 6470, 6608, 6784, 6800, 6992, 7088, 7232, 7248, 42528, 43216, 43264, 43472,
  43504, 43600, 44016, 65296, 66720, 68912, 69734, 69872, 69942, 70096, 70384, 70736, 70864, 71248,
  71360, 71472, 71904, 72016, 72784, 73040, 73120, 92768, 92864, 93008, 120782, 120792, 120802, 120812,
  120822, 123200, 123632, 125264, 130032]

/-- The value of a decimal digit. -/
def digit? (c : Char) : Option Nat :=
  (digitZeros.find? fun z => z ≤ c.toNat && c.toNat < z + 10).map fun z => c.toNat - z

def isAscii (c : Char) : Bool := c.toNat < 128

/-- The text of a number in ASCII: digits of other scripts become our own, other spaces a space, and
what is neither a mark that no number holds.  A text that is ASCII already stays as it is. -/
def plainNumber (s : List Char) : List Char :=
  if s.all isAscii then s
  else s.map fun c =>
    if c.toNat < 127 then c
    else if isSpace c then ' '
    else match digit? c with
      | some d => Nat.digitChar d
      | none => '?'

theorem digit?_ascii (n : Nat) (h : n < 10) : digit? (Nat.digitChar n) = some n := by
  have : n = 0 ∨ n = 1 ∨ n = 2 ∨ n = 3 ∨ n = 4 ∨ n = 5 ∨ n = 6 ∨ n = 7 ∨ n = 8 ∨ n = 9 := by omega
  rcases this with rfl | rfl | rfl | rfl | rfl | rfl | rfl | rfl | rfl | rfl <;> decide

example : digit? '\u0663' = some 3 ∧ digit? 'x' = none := by decide

end CallContracts.Text
