/-! Clipping: a text over its limit keeps a head and a tail around three dots.  Positions are
integers, and a negative one counts from the end, as in the limits that a program may set. -/
namespace CallContracts.Text

/-- A position counted from the end when negative, forced into the text. -/
def position (length : Nat) (i : Int) : Nat :=
  if i < 0 then (length + i).toNat else min i.toNat length

def before {α : Type} (i : Int) (s : List α) : List α := s.take (position s.length i)

def after {α : Type} (i : Int) (s : List α) : List α := s.drop (position s.length i)

/-- How many characters stand before the dots. -/
def headSize (limit : Int) : Int := max 0 ((limit - 3).fdiv 2)

/-- How many characters stand after the dots. -/
def tailSize (limit : Int) : Int := max 0 (limit - 3 - headSize limit)

def dots : List Char := ['.', '.', '.']

/-- Head, dots and tail, whatever the length. -/
def cut (limit : Int) (s : List Char) : List Char :=
  before (headSize limit) s ++ dots ++ after (s.length - tailSize limit) s

def clip (limit : Int) (s : List Char) : List Char :=
  if limit < s.length then cut limit s else s

theorem headSize_add_tailSize {limit : Int} (h : 3 ≤ limit) :
    headSize limit + tailSize limit = limit - 3 := by
  have h2 : (limit - 3).fdiv 2 = (limit - 3) / 2 := Int.fdiv_eq_ediv_of_nonneg _ (by omega)
  simp only [headSize, tailSize, h2]; omega

theorem clip_of_le {limit : Int} {s : List Char} (h : (s.length : Int) ≤ limit) :
    clip limit s = s := by
  simp [clip, Int.not_lt.mpr h]

/-- A clipped text has exactly the limit's length. -/
theorem length_clip {limit : Int} {s : List Char} (h3 : 3 ≤ limit) (h : limit < s.length) :
    ((clip limit s).length : Int) = limit := by
  have h2 : (limit - 3).fdiv 2 = (limit - 3) / 2 := Int.fdiv_eq_ediv_of_nonneg _ (by omega)
  simp only [clip, h, if_true, cut, before, after, position, dots, headSize, tailSize, h2,
    List.length_append, List.length_take, List.length_drop, List.length_cons, List.length_nil]
  split <;> split <;> omega

end CallContracts.Text
