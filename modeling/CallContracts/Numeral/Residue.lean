import CallContracts.Numeral.Decimal
/-! The residue of a number modulo `2 ^ 61 - 1`, which is the same for equal numbers of every kind.  It
takes the sign of the number; one less than zero stands for a failure, so it becomes two less. -/
namespace CallContracts.Numeral

def residueModulus : Nat := 2305843009213693951

/-- What stands for an infinity, and for a quotient whose denominator has no inverse. -/
def infiniteResidue : Nat := 314159

def powMod (b e : Nat) : Nat :=
  if _ : e = 0 then 1
  else
    let t := powMod b (e / 2)
    let s := t * t % residueModulus
    if e % 2 = 1 then s * b % residueModulus else s
termination_by e
decreasing_by omega

/-- The modulus is a prime. -/
def inverseMod (d : Nat) : Nat := powMod (d % residueModulus) (residueModulus - 2)

/-- A residue with its sign. -/
def signedResidue (negative : Bool) (h : Nat) : Int :=
  let r := signed negative h
  if r = -1 then -2 else r

namespace Exact

def residue? : Exact → Option Int
  | .ratio r =>
    if r.den % residueModulus = 0 then some (signedResidue (r.num < 0) infiniteResidue)
    else some (signedResidue (r.num < 0) (r.num.natAbs % residueModulus * inverseMod r.den % residueModulus))
  | .infinite n => some (signedResidue n infiniteResidue)
  | .undefined => none

end Exact

namespace Decimal

/-- The same, without the powers of ten. -/
def residue? : Decimal → Option Int
  | .finite n c k =>
    let ten := if k < 0 then inverseMod 10 else 10
    some (signedResidue n (c % residueModulus * powMod ten k.natAbs % residueModulus))
  | x => x.exact.residue?

end Decimal

/-- Two parts make one residue, within words of 64 bits. -/
def complexResidue (re im : Int) : Int :=
  let r := (re + 1000003 * im).bmod (twoTo 64)
  if r = -1 then -2 else r

example : (Exact.ofInt (-1)).residue? = some (-2) := by decide +kernel
example : (Exact.ratio ⟨1, 2⟩).residue? = (Double.round false 1 2).exact.residue? := by decide +kernel

end CallContracts.Numeral
