/-! Stable sorting by merging runs.  Runs that stand in the items already are kept or reversed, short ones
are filled up by binary insertion, and neighbours are merged in an order that keeps their sizes level;
a merge leaps ahead where one run keeps winning.  With an order that is no order (some items may have
no place at all) the outcome depends on which items are compared, and so it is fixed here.  A comparison
is a computation of its own. -/
namespace CallContracts.Sorting

variable {α : Type} {m : Type → Type} [Monad m]

/-- The place of a new item among sorted ones, in `[lo, hi]`, after all that are not greater. -/
def placeFor (lt : α → α → m Bool) (xs : Array α) (x : α) : Nat → Nat → Nat → m Nat
  | 0, lo, _ => pure lo
  | fuel + 1, lo, hi => do
    let mid := lo + (hi - lo) / 2
    match xs[mid]? with
    | none => return lo
    | some y =>
      if lo < hi then
        if ← lt x y then placeFor lt xs x fuel lo mid else placeFor lt xs x fuel (mid + 1) hi
      else return lo

def insertAll (lt : α → α → m Bool) (sorted : Array α) : List α → m (Array α)
  | [] => pure sorted
  | x :: xs => do
    let i ← placeFor lt sorted x (sorted.size + 1) 0 sorted.size
    insertAll lt (sorted.toList.take i ++ x :: sorted.toList.drop i).toArray xs

/-- Splits off the longest run in which each item follows its neighbour as `down` says; the run comes
last item first. -/
def takeRun (lt : α → α → m Bool) (down : Bool) : α → List α → List α → m (List α × List α)
  | _, run, [] => pure (run, [])
  | last, run, x :: xs => do
    if (← lt x last) = down then takeRun lt down x (x :: run) xs else return (run, x :: xs)

/-- The run at the start, ascending, and what follows it. -/
def firstRun (lt : α → α → m Bool) : List α → m (List α × List α)
  | [] => pure ([], [])
  | [x] => pure ([x], [])
  | x :: y :: r => do
    let down ← lt y x
    let (run, rest) ← takeRun lt down y [y, x] r
    return (if down then run else run.reverse, rest)

/-- The least length of a run: such that the whole is a little less than a power of two of them. -/
def leastRun (n : Nat) : Nat :=
  let rec go : Nat → Nat → Nat → Nat
    | 0, n, r => n + r
    | fuel + 1, n, r => if n < 64 then n + r else go fuel (n / 2) (max r (n % 2))
  go n n 0

/-- Where a search that leaps away from `hint` ends: between the last two places it looked at.  `ahead`
tells whether the item at a place is still before the one that is sought. -/
def leap (ahead : Nat → m Bool) (limit : Nat) : Nat → Nat → Nat → m (Nat × Nat)
  | 0, last, here => pure (last, min here limit)
  | fuel + 1, last, here => do
    if here < limit then
      if ← ahead here then leap ahead limit fuel here (2 * here + 1) else return (last, here)
    else return (last, limit)

def search (before : Nat → m Bool) : Nat → Nat → Nat → m Nat
  | 0, lo, _ => pure lo
  | fuel + 1, lo, hi => do
    if lo < hi then
      let mid := lo + (hi - lo) / 2
      if ← before mid then search before fuel (mid + 1) hi else search before fuel lo mid
    else return lo

/-- How many of the `n` items are before the one that is sought, looking first at `hint`. -/
def gallop (before : Nat → m Bool) (n hint : Nat) : m Nat := do
  if ← before hint then
    let (last, here) ← leap (fun k => before (hint + k)) (n - hint) (n + 1) 0 1
    search before (n + 1) (hint + last + 1) (hint + here)
  else
    let (last, here) ← leap (fun k => do return !(← before (hint - k))) (hint + 1) (n + 1) 0 1
    search before (n + 1) (hint + 1 - here) (hint - last)

/-- How many items of a run are less than `x`. -/
def countLess (lt : α → α → m Bool) (xs : Array α) (x : α) (hint : Nat) : m Nat :=
  gallop (fun i => match xs[i]? with | some y => lt y x | none => pure false) xs.size hint

/-- How many items of a run are not greater than `x`. -/
def countNotGreater (lt : α → α → m Bool) (xs : Array α) (x : α) (hint : Nat) : m Nat :=
  gallop (fun i => match xs[i]? with
    | some y => do return !(← lt x y)
    | none => pure false) xs.size hint

/-- Wins in a row from which on a merge leaps. -/
def leastGallop : Nat := 7

/-- A merge under way: what was put out, what is left of both runs, and the wins in a row from which on
it leaps. -/
structure Merge (α : Type) where
  out : List α
  left : List α
  right : List α
  patience : Nat

/-- How a merge goes on: item by item, with the wins in a row of both sides, or leaping. -/
inductive Gait where
  | steps (left right : Nat)
  | leaps

namespace Merge

/-- Merging from the front puts out in reverse. -/
def lowDone (s : Merge α) : List α × Nat := (s.out.reverse ++ s.left ++ s.right, s.patience)

/-- The last item of the left run goes behind the right one. -/
def lowSwapped (s : Merge α) : List α × Nat := (s.out.reverse ++ s.right ++ s.left, s.patience)

/-- Merging from the back keeps both runs in reverse. -/
def highDone (s : Merge α) : List α × Nat := (s.left.reverse ++ s.right.reverse ++ s.out, s.patience)

/-- The first item of the right run goes before the left one. -/
def highSwapped (s : Merge α) : List α × Nat := (s.right.reverse ++ s.left.reverse ++ s.out, s.patience)

def eager (s : Merge α) : Merge α :=
  if 1 < s.patience then { s with patience := s.patience - 1 } else s
def reluctant (s : Merge α) : Merge α := { s with patience := s.patience + 1 }

def putLeft (s : Merge α) (k : Nat) : Merge α :=
  { s with out := (s.left.take k).reverse ++ s.out, left := s.left.drop k }
def putRight (s : Merge α) (k : Nat) : Merge α :=
  { s with out := (s.right.take k).reverse ++ s.out, right := s.right.drop k }

end Merge

/-- Takes from the front of two runs; the right one wins if it is less. -/
def mergeLow (lt : α → α → m Bool) : Nat → Gait → Merge α → m (List α × Nat)
  | 0, _, s => pure s.lowDone
  | fuel + 1, gait, s => do
    match s.left, s.right, gait with
    | a :: as, b :: bs, .steps ls rs =>
      if ← lt b a then
        let s := s.putRight 1
        if bs.isEmpty then return s.lowDone
        if s.patience ≤ rs + 1 then mergeLow lt fuel .leaps s.reluctant
        else mergeLow lt fuel (.steps 0 (rs + 1)) s
      else
        let s := s.putLeft 1
        if as.length = 1 then return s.lowSwapped
        if s.patience ≤ ls + 1 then mergeLow lt fuel .leaps s.reluctant
        else mergeLow lt fuel (.steps (ls + 1) 0) s
    | _ :: _, b :: _, .leaps =>
      let k ← countNotGreater lt s.left.toArray b 0
      let s := s.eager.putLeft k
      if k ≠ 0 ∧ s.left.length = 1 then return s.lowSwapped
      let s := s.putRight (if s.left.isEmpty then 0 else 1)
      match s.left, s.right with
      | a :: _, _ :: _ =>
        let j ← countLess lt s.right.toArray a 0
        let s := s.putRight j
        if s.right.isEmpty then return s.lowDone
        let s := s.putLeft 1
        if s.left.length = 1 then return s.lowSwapped
        if leastGallop ≤ k ∨ leastGallop ≤ j then mergeLow lt fuel .leaps s
        else mergeLow lt fuel (.steps 0 0) s.reluctant
      | _, _ => return s.lowDone
    | _, _, _ => return s.lowDone

/-- Takes from the back of two runs; the left one wins if it is greater. -/
def mergeHigh (lt : α → α → m Bool) : Nat → Gait → Merge α → m (List α × Nat)
  | 0, _, s => pure s.highDone
  | fuel + 1, gait, s => do
    match s.left, s.right, gait with
    | a :: as, b :: bs, .steps ls rs =>
      if ← lt b a then
        let s := s.putLeft 1
        if as.isEmpty then return s.highDone
        if s.patience ≤ ls + 1 then mergeHigh lt fuel .leaps s.reluctant
        else mergeHigh lt fuel (.steps (ls + 1) 0) s
      else
        let s := s.putRight 1
        if bs.length = 1 then return s.highSwapped
        if s.patience ≤ rs + 1 then mergeHigh lt fuel .leaps s.reluctant
        else mergeHigh lt fuel (.steps 0 (rs + 1)) s
    | _ :: _, b :: _, .leaps =>
      let n := s.left.length
      let k := n - (← countNotGreater lt s.left.reverse.toArray b (n - 1))
      let s := s.eager.putLeft k
      if s.left.isEmpty then return s.highDone
      let s := s.putRight 1
      if s.right.length = 1 then return s.highSwapped
      match s.left, s.right with
      | a :: _, _ :: _ =>
        let n := s.right.length
        let j := n - (← countLess lt s.right.reverse.toArray a (n - 1))
        let s := s.putRight j
        if j ≠ 0 ∧ s.right.length = 1 then return s.highSwapped
        if s.right.isEmpty then return s.highDone
        let s := s.putLeft 1
        if s.left.isEmpty then return s.highDone
        if leastGallop ≤ k ∨ leastGallop ≤ j then mergeHigh lt fuel .leaps s
        else mergeHigh lt fuel (.steps 0 0) s.reluctant
      | _, _ => return s.highDone
    | _, _, _ => return s.highDone

/-- Merges two runs that stand next to each other; what is in place already at either end stays. -/
def mergeRuns (lt : α → α → m Bool) (patience : Nat) (xs ys : List α) : m (List α × Nat) := do
  match ys with
  | [] => return (xs, patience)
  | y :: _ =>
    let k ← countNotGreater lt xs.toArray y 0
    let (front, xs) := (xs.take k, xs.drop k)
    match xs.getLast? with
    | none => return (front ++ ys, patience)
    | some x =>
      let j ← countLess lt ys.toArray x (ys.length - 1)
      let (ys, back) := (ys.take j, ys.drop j)
      let fuel := 2 * (xs.length + ys.length) + 2
      let (merged, patience) ←
        if ys.isEmpty then pure (xs, patience)
        else if xs.length ≤ ys.length then
          let s := Merge.putRight ⟨[], xs, ys, patience⟩ 1
          if ys.length = 1 then pure s.lowDone
          else if xs.length = 1 then pure s.lowSwapped
          else mergeLow lt fuel (.steps 0 0) s
        else
          let s := Merge.putLeft ⟨[], xs.reverse, ys.reverse, patience⟩ 1
          if xs.length = 1 then pure s.highDone
          else if ys.length = 1 then pure s.highSwapped
          else mergeHigh lt fuel (.steps 0 0) s
      return (front ++ merged ++ back, patience)

/-- A run that waits to be merged, where it starts, and how far down a halving of all places puts the
border behind it. -/
structure Run (α : Type) where
  items : List α
  start : Nat
  power : Nat

/-- The first halving of `n` places that parts the middles of two neighbouring runs. -/
def powerOf (start left right n : Nat) : Nat :=
  let rec go : Nat → Nat → Nat → Nat
    | 0, _, _ => 1
    | fuel + 1, a, b =>
      if n ≤ a then 1 + go fuel (2 * (a - n)) (2 * (b - n))
      else if n ≤ b then 1
      else 1 + go fuel (2 * a) (2 * b)
  go (2 * n + 2) (2 * start + left) (2 * start + 2 * left + right)

/-- Merges waiting runs, last one first, whose border lies deeper than the new one. -/
def collapse (lt : α → α → m Bool) (power : Nat) : Nat → Nat → List (Run α) → m (List (Run α) × Nat)
  | 0, patience, runs => pure (runs, patience)
  | fuel + 1, patience, runs => do
    match runs with
    | y :: x :: rest =>
      if power < x.power then
        let (items, patience) ← mergeRuns lt patience x.items y.items
        collapse lt power fuel patience (⟨items, x.start, x.power⟩ :: rest)
      else return ({ y with power := power } :: x :: rest, patience)
    | [y] => return ([{ y with power := power }], patience)
    | [] => return ([], patience)

/-- Merges all that wait, a short neighbour first. -/
def collapseAll (lt : α → α → m Bool) : Nat → Nat → List (Run α) → m (List α)
  | 0, _, runs => pure (runs.reverse.flatMap Run.items)
  | fuel + 1, patience, runs => do
    match runs with
    | z :: y :: x :: rest =>
      if x.items.length < z.items.length then
        let (items, patience) ← mergeRuns lt patience x.items y.items
        collapseAll lt fuel patience (z :: ⟨items, x.start, x.power⟩ :: rest)
      else
        let (items, patience) ← mergeRuns lt patience y.items z.items
        collapseAll lt fuel patience (⟨items, y.start, y.power⟩ :: x :: rest)
    | [z, y] => return (← mergeRuns lt patience y.items z.items).1
    | [z] => return z.items
    | [] => return []

/-- Splits the rest into runs and merges as they come. -/
def sortRuns (lt : α → α → m Bool) (n least : Nat) : Nat → Nat → Nat → List (Run α) → List α → m (List α)
  | 0, _, patience, runs, _ => collapseAll lt n patience runs
  | fuel + 1, start, patience, runs, rest => do
    if rest.isEmpty then collapseAll lt n patience runs
    else
      let (run, after) ← firstRun lt rest
      let missing := least - run.length
      let run ← insertAll lt run.toArray (after.take missing)
      let after := after.drop missing
      let (runs, patience) ← match runs with
        | [] => pure ([], patience)
        | x :: _ => collapse lt (powerOf x.start x.items.length run.size n) n patience runs
      sortRuns lt n least fuel (start + run.size) patience (⟨run.toList, start, 0⟩ :: runs) after

def sort (lt : α → α → m Bool) (xs : List α) : m (List α) :=
  sortRuns lt xs.length (leastRun xs.length) xs.length 0 leastGallop [] xs

example : Id.run (sort (fun a b : Nat => pure (decide (a < b))) [3, 1, 2, 5, 4, 0]) = [0, 1, 2, 3, 4, 5] := by
  decide +kernel

end CallContracts.Sorting
