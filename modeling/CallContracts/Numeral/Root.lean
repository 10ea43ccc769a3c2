import CallContracts.Numeral.Double
/-! Square roots: the greatest natural whose square is not above a number, and with it the length of a
pair of floating point numbers, rounded once. -/
namespace CallContracts.Numeral

/-- Two binary digits of the number give one of its root. -/
def root (n : Nat) : Nat :=
  if _ : n = 0 then 0
  else
    let r := 2 * root (n / 4)
    if (r + 1) * (r + 1) ≤ n then r + 1 else r
termination_by n
decreasing_by omega

theorem root_zero : root 0 = 0 := by unfold root; simp

theorem root_bounds (n : Nat) : root n * root n ≤ n ∧ n < (root n + 1) * (root n + 1) := by
  induction n using Nat.strongRecOn with
  | _ n ih =>
    by_cases h : n = 0
    · subst h; simp [root_zero]
    · have ⟨lo, hi⟩ := ih (n / 4) (by omega)
      generalize hq : root (n / 4) = q at lo hi
      have hn : root n = if (2 * q + 1) * (2 * q + 1) ≤ n then 2 * q + 1 else 2 * q := by
        rw [root]; simp [h, hq]
      have e1 : (q + 1) * (q + 1) = q * q + 2 * q + 1 := by
        simp only [Nat.add_mul, Nat.mul_add]; omega
      have e2 : (2 * q + 1) * (2 * q + 1) = 4 * (q * q) + 4 * q + 1 := by
        simp only [Nat.add_mul, Nat.mul_add, Nat.mul_assoc, Nat.mul_left_comm q 2 q]; omega
      have e3 : (2 * q + 2) * (2 * q + 2) = 4 * (q * q) + 8 * q + 4 := by
        simp only [Nat.add_mul, Nat.mul_add, Nat.mul_assoc, Nat.mul_left_comm q 2 q]; omega
      have e4 : 2 * q * (2 * q) = 4 * (q * q) := by
        simp only [Nat.mul_assoc, Nat.mul_left_comm q 2 q]; omega
      rw [hn]
      split
      · rename_i hle
        exact ⟨hle, by rw [show 2 * q + 1 + 1 = 2 * q + 2 by omega, e3]; omega⟩
      · rename_i hlt
        exact ⟨by rw [e4]; omega, by omega⟩

/-- The root of a ratio, rounded once: beyond all digits that count, what is left over is told apart from
nothing by one more. -/
def Double.ofRoot (n d : Nat) : Double :=
  let k := 64 + d.log2
  let r := root (n * twoTo (2 * k) / d)
  let exact := r * r * d = n * twoTo (2 * k)
  Double.round false (2 * r + if exact then 0 else 1) (twoTo (k + 1))

/-- The distance of a pair from nothing; an infinite part outweighs one that is no number. -/
def Double.distance (x y : Double) : Double :=
  match x.exact, y.exact with
  | .infinite _, _ | _, .infinite _ => .infinite false
  | .ratio a, .ratio b =>
    let s := (a.mul a).add (b.mul b)
    Double.ofRoot s.num.natAbs s.den
  | _, _ => .undefined

example : (Double.round false 3 1).distance (Double.round true 4 1) = Double.round false 5 1 := by
  decide +kernel

end CallContracts.Numeral
