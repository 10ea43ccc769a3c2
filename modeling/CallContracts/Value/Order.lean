import CallContracts.Sorting
import CallContracts.Value.Equal
/-! The order of values.  Numbers are ordered by what they denote, text by its characters, sequences by
their first difference and sets by inclusion; other values have no order, unless a class of the program
gives them one. -/
namespace CallContracts
open Act

def natsLt : List Nat → List Nat → Bool
  | [], _ :: _ => true
  | x :: xs, y :: ys => if x = y then natsLt xs ys else x < y
  | _, [] => false

def scalarsLt : Scalar → Scalar → Option Bool
  | .date y m d, .date y' m' d' => some (natsLt [y, m, d] [y', m', d'])
  | .datetime y m d h i t u, .datetime y' m' d' h' i' t' u' =>
    some (natsLt [y, m, d, h, i, t, u] [y', m', d', h', i', t', u'])
  | .bytes a, .bytes b => some (natsLt a b)
  | _, _ => none

/-- Decimals that are no numbers refuse to be ordered; floating point ones do not. -/
def refusesOrder (s : Store) (v : Value) : Bool :=
  match s.scalar? v with
  | some (.decimal (.undefined ..)) => true
  | _ => false

section parts
variable (m : Machine) (lt : Value → Value → Act Value)

/-- The first difference decides; without one the shorter sequence comes first. -/
def sequencesLt : List Value → List Value → Act Value
  | [], ys => pure (.bool !ys.isEmpty)
  | _ :: _, [] => pure (.bool false)
  | x :: xs, y :: ys => do if ← same m x y then sequencesLt xs ys else lt x y

def setsLt (xs ys : List Value) : Act Value := do
  if xs.length < ys.length then return .bool (← every (isMember m (same m) ys) xs)
  else return .bool false

/-- What the builtin ancestor of `a` says about its place before `b`. -/
def nativeLt (a b : Value) : Act (Option Value) := do
  let s ← get
  match s.real? a, s.real? b with
  | some x, some y =>
    if refusesOrder s a || refusesOrder s b then refuse .invalidOperation
    else return some (.bool (x.lt y))
  | _, _ => match s.text? a, s.text? b with
    | some x, some y => return some (.bool (x < y))
    | _, _ => match s.body? a, s.body? b with
      | some (.list xs), some (.list ys) | some (.tuple xs), some (.tuple ys)
      | some (.deque xs), some (.deque ys) => some <$> sequencesLt m lt xs ys
      | some (.set xs), some (.set ys) => some <$> setsLt m xs ys
      | some (.scalar x), some (.scalar y) => return (scalarsLt x y).map Value.bool
      | _, _ => return none

/-- What the class of `a` says about `a` and `b` under a name, if it says anything. -/
def saysAbout (name : String) (a b : Value) (native : Act (Option Value)) : Act (Option Value) := do
  let s ← get
  match s.override? (s.classOf a) name with
  | some f =>
    let v ← callSpecial m a f [b]
    return if v = .notImplemented then none else some v
  | none => native

end parts

/-- Whether `a` comes before `b`, as the two sides decide it. -/
def ltAt (m : Machine) : Nat → Value → Value → Act Value
  | 0, _, _ => refuse .recursionError
  | n + 1, a, b => do
    let s ← get
    let left := saysAbout m "__lt__" a b (nativeLt m (ltAt m n) a b)
    let right := saysAbout m "__gt__" b a (nativeLt m (ltAt m n) a b)
    let first := s.classOf b ≠ s.classOf a ∧ s.comesFrom (s.classOf b) (s.classOf a)
    match ← (if first then right else left) with
    | some v => return v
    | none => match ← (if first then left else right) with
      | some v => return v
      | none => refuse .typeError

def comesBefore (m : Machine) (a b : Value) : Act Bool := do truth m (← ltAt m depthLimit a b)

/-- In ascending order, or in the given one if some of the values have none. -/
def sortedOr (m : Machine) (xs : List Value) : Act (List Value) :=
  orElseOn .exception (Sorting.sort (comesBefore m) xs) (pure xs)

end CallContracts
