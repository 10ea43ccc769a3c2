/-! Named fields in the order in which they were first written.  Writing a present name keeps its
place, so the order of a table is the order of first writes. -/
namespace CallContracts

abbrev Fields (α : Type) := List (String × α)

namespace Fields
variable {α : Type}

def get? : Fields α → String → Option α
  | [], _ => none
  | (k, v) :: r, n => if k = n then some v else get? r n

def put : Fields α → String → α → Fields α
  | [], n, v => [(n, v)]
  | (k, w) :: r, n, v => if k = n then (k, v) :: r else (k, w) :: put r n v

def erase : Fields α → String → Fields α
  | [], _ => []
  | (k, w) :: r, n => if k = n then r else (k, w) :: erase r n

/-- Writes the second table over the first, field by field. -/
def putAll (f g : Fields α) : Fields α := g.foldl (fun t p => t.put p.1 p.2) f

def keys (f : Fields α) : List String := f.map Prod.fst

@[simp] theorem get?_nil (n : String) : get? ([] : Fields α) n = none := rfl
@[simp] theorem get?_put_self (f : Fields α) (n : String) (v : α) : (f.put n v).get? n = some v := by
  induction f with
  | nil => simp [put, get?]
  | cons p r ih => by_cases h : p.1 = n <;> simp [put, get?, h, ih]
theorem get?_put_ne (f : Fields α) {n k : String} (v : α) (h : k ≠ n) :
    (f.put n v).get? k = f.get? k := by
  induction f with
  | nil => simp [put, get?, Ne.symm h]
  | cons p r ih =>
    by_cases hp : p.1 = n
    · simp [put, get?, hp, Ne.symm h]
    · have hs : put (p :: r) n v = p :: put r n v := by simp [put, hp]
      rw [hs]; simp [get?, ih]
theorem get?_put (f : Fields α) (n k : String) (v : α) :
    (f.put n v).get? k = if k = n then some v else f.get? k := by
  by_cases h : k = n
  · simp [h]
  · simp [h, get?_put_ne]
theorem mem_of_get? {f : Fields α} {n : String} {v : α} (h : f.get? n = some v) : (n, v) ∈ f := by
  induction f with
  | nil => cases h
  | cons p f ih =>
    obtain ⟨k, w⟩ := p
    by_cases hk : k = n
    · obtain rfl : w = v := by simpa [get?, hk] using h
      simp [hk]
    · exact List.mem_cons_of_mem _ (ih (by simpa [get?, hk] using h))
theorem keys_put_of_mem (f : Fields α) {n : String} (v : α) (h : n ∈ f.keys) :
    (f.put n v).keys = f.keys := by
  induction f with
  | nil => simp [keys] at h
  | cons p r ih =>
    by_cases hp : p.1 = n
    · simp [put, keys, hp]
    · have hr : n ∈ keys r := by
        simp only [keys, List.map_cons, List.mem_cons] at h
        exact h.resolve_left (fun e => hp e.symm)
      simp only [put, hp, if_false, keys, List.map_cons, List.cons.injEq, true_and]
      exact ih hr

end Fields
end CallContracts
