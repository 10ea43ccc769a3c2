/-! Exact numbers: what the numbers of every kind denote when they are compared.  Two numbers are
equal when they denote the same ratio or the same infinity; a number that is not a number equals
nothing. -/
namespace CallContracts.Numeral

def twoTo (n : Nat) : Nat := Nat.pow 2 n
def tenTo (n : Nat) : Nat := Nat.pow 10 n

theorem twoTo_pos (n : Nat) : 0 < twoTo n := Nat.pow_pos (by decide)
theorem tenTo_pos (n : Nat) : 0 < tenTo n := Nat.pow_pos (by decide)
theorem twoTo_add (m n : Nat) : twoTo (m + n) = twoTo m * twoTo n := Nat.pow_add 2 m n
theorem tenTo_add (m n : Nat) : tenTo (m + n) = tenTo m * tenTo n := Nat.pow_add 10 m n

/-- `num / den`, with no common factor taken out; the denominator is not zero. -/
structure Ratio where
  num : Int
  den : Nat
  deriving DecidableEq, Repr

inductive Exact where
  | ratio (r : Ratio)
  | infinite (negative : Bool)
  | undefined
  deriving DecidableEq, Repr

namespace Ratio

def ofInt (i : Int) : Ratio := ⟨i, 1⟩
def eq (a b : Ratio) : Bool := a.num * b.den == b.num * a.den
def lt (a b : Ratio) : Bool := a.num * b.den < b.num * a.den
def add (a b : Ratio) : Ratio := ⟨a.num * b.den + b.num * a.den, a.den * b.den⟩
def mul (a b : Ratio) : Ratio := ⟨a.num * b.num, a.den * b.den⟩

/-- The ratio in lowest terms. -/
def reduce (a : Ratio) : Ratio :=
  let g := Nat.gcd a.num.natAbs a.den
  ⟨a.num / g, a.den / g⟩

@[simp] theorem eq_self (a : Ratio) : eq a a = true := by simp [eq]
theorem eq_comm (a b : Ratio) : eq a b = eq b a := by simp only [eq, Bool.beq_comm]
theorem not_lt_self (a : Ratio) : lt a a = false := by simp [lt]

end Ratio

namespace Exact

def ofInt (i : Int) : Exact := .ratio (.ofInt i)

def eq : Exact → Exact → Bool
  | .ratio a, .ratio b => a.eq b
  | .infinite a, .infinite b => a == b
  | _, _ => false

def lt : Exact → Exact → Bool
  | .ratio a, .ratio b => a.lt b
  | .infinite n, .ratio _ => n
  | .ratio _, .infinite n => !n
  | .infinite a, .infinite b => a && !b
  | _, _ => false

def isZero : Exact → Bool
  | .ratio a => a.num == 0
  | _ => false

theorem eq_comm (a b : Exact) : eq a b = eq b a := by
  cases a <;> cases b <;> simp [eq, Ratio.eq_comm, Bool.beq_comm]

end Exact
end CallContracts.Numeral
