import CallContracts.Value.Hash
/-! Equality.  Numbers of all kinds are equal when they denote the same, containers when their parts are
equal, and objects that are no container only to themselves.  Each side may leave the decision to the
other; a class derived from the other side's class is asked first.  A part that is the same object counts
as equal before it is looked at.  Comparison goes down a bounded number of levels. -/
namespace CallContracts
open Act

/-- Whether a class leaves the comparison and filing of its instances to its builtin ancestor. -/
def Store.isNativeKey (s : Store) (v : Value) : Bool :=
  !s.overrides (s.classOf v) ["__eq__", "__hash__"]

section parts
variable (m : Machine) (eq : Value → Value → Act Bool)

/-- Equality of a key that is filed already and one that is looked for. -/
def keyEqual (filed sought : Value) : Act Bool := do
  if filed = sought then return true
  match filed, sought with
  | .str _, .str _ => return false
  | _, _ =>
    let s ← get
    if s.isNativeKey filed && s.isNativeKey sought then eq filed sought
    else if (← digestOf m filed) = (← digestOf m sought) then eq filed sought
    else return false

/-- Pairwise, until two parts differ. -/
def itemsEqual : List Value → List Value → Act Bool
  | [], [] => pure true
  | x :: xs, y :: ys => do if ← eq x y then itemsEqual xs ys else return false
  | _, _ => pure false

def sameItems (xs ys : List Value) : Act Bool :=
  if xs.length = ys.length then itemsEqual eq xs ys else pure false

def isMember (ys : List Value) (x : Value) : Act Bool := anyOf (fun y => keyEqual m eq y x) ys

def sameMembers (xs ys : List Value) : Act Bool :=
  if xs.length = ys.length then every (isMember m eq ys) xs else pure false

/-- The value that entries hold under a key. -/
def entryUnder (k : Value) : List (Value × Value) → Act (Option Value)
  | [] => pure none
  | (k', v) :: es => do if ← keyEqual m eq k' k then return some v else entryUnder k es

def hasEntry (fs : List (Value × Value)) (e : Value × Value) : Act Bool := do
  match ← entryUnder m eq e.1 fs with
  | some w => eq w e.2
  | none => return false

def sameEntries (es fs : List (Value × Value)) : Act Bool :=
  if es.length = fs.length then every (hasEntry m eq fs) es else pure false

/-- Ordered tables also have their keys in the same order. -/
def sameOrdered (es fs : List (Value × Value)) : Act Bool := do
  if ← sameEntries m eq es fs then itemsEqual eq (es.map Prod.fst) (fs.map Prod.fst)
  else return false

def fieldEntries (fs : Fields Value) : List (Value × Value) := fs.map fun f => (.str f.1, f.2)

/-- Dates compare as dates; one with a time is never one without. -/
def scalarsEqual : Scalar → Scalar → Option Bool
  | .date y m d, .datetime y' m' d' .. => some ((y, m, d) = (y', m', d'))
  | .date y m d, .date y' m' d' => some ((y, m, d) = (y', m', d'))
  | .datetime .., .date .. => some false
  | .datetime y m d h i t u, .datetime y' m' d' h' i' t' u' =>
    some ((y, m, d, h, i, t, u) = (y', m', d', h', i', t', u'))
  | .bytes a, .bytes b => some (a = b)
  | .regex p f, .regex p' f' => some (p = p' ∧ f = f')
  | _, _ => none

/-- What two bodies of builtin sorts say about their equality; nothing when they are not of one sort. -/
def bodiesEqual (s : Store) (a b : Value) : Option (Act Bool) :=
  match s.body? a, s.body? b with
  | some (.list xs), some (.list ys) | some (.tuple xs), some (.tuple ys)
  | some (.deque xs), some (.deque ys) => some (sameItems eq xs ys)
  | some (.set xs), some (.set ys) => some (sameMembers m eq xs ys)
  | some (.table es), some (.table fs) =>
    some (if s.isA a .orderedDict && s.isA b .orderedDict then sameOrdered m eq es fs
      else sameEntries m eq es fs)
  | some (.scalar x), some (.scalar y) => (scalarsEqual x y).map pure
  | some (.bound f x), some (.bound g y) =>
    some (if x = y then (if f = g then pure true else eq f g) else pure false)
  | some (.view .keys of), some (.view .keys of') => match s.entries? of, s.entries? of' with
    | some es, some fs => some (sameMembers m eq (es.map Prod.fst) (fs.map Prod.fst))
    | _, _ => none
  | some (.view .keys of), some (.set ys) => (s.entries? of).map fun es =>
    sameMembers m eq (es.map Prod.fst) ys
  | some (.view .items of), some (.view .items of') => match s.entries? of, s.entries? of' with
    | some es, some fs => some (sameEntries m eq es fs)
    | _, _ => none
  | _, _ => none

/-- The attributes of a pair, one after the other, until two differ. -/
def attributesEqual (a b : Value) : List String → Act Bool
  | [] => pure true
  | n :: ns => do
    let x ← m.read a n
    let y ← m.read b n
    if ← eq x y then attributesEqual a b ns else return false

/-- Results are equal when they are of one class and their fields are equal. -/
def resultsEqual (names : List String) (a b : Value) : Act (Option Bool) := do
  let c ← m.read b "__class__"
  let d ← m.read a "__class__"
  if c = d then return some (← attributesEqual m eq a b names) else return none

def optionEqual : Option Value → Option Value → Act Bool
  | some x, some y => eq x y
  | none, none => pure true
  | _, _ => pure false

def settingsEqual (s : Store) (a b : Value) : Act (Option Bool) := do
  if s.isA b .settings then
    return some (← every (fun n => optionEqual eq (s.attr? a n) (s.attr? b n))
      ["repr_limit", "allow_keywords", "anonymous_suffix"])
  else return none

/-- Mappings of the program are equal as tables. -/
def mappingsEqual (a b : Value) : Act (Option Bool) := do
  if !(← isMapping m b) then return none
  let table (v : Value) : Act Value := do
    let items ← m.call (← m.read v "items") [] []
    m.call (.builtinClass .dict) [items] []
  return some (← eq (← table a) (← table b))

def signals (s : Store) (v : Value) : Bool :=
  match s.scalar? v with
  | some (.decimal x) => x.isSignalling
  | _ => false

/-- What the builtin ancestor of `a` says. -/
def nativeEqual (a b : Value) : Act (Option Bool) := do
  let s ← get
  match s.parts a, s.parts b with
  | some (x, x'), some (y, y') =>
    if signals s a || signals s b then refuse .invalidOperation
    else return some (x.eq y && x'.eq y')
  | _, _ => match s.text? a, s.text? b with
    | some x, some y => return some (x = y)
    | _, _ => match bodiesEqual m eq s a b with
      | some r => some <$> r
      | none => match s.builtinBase (s.classOf a) with
        | .matched => resultsEqual m eq ["contract"] a b
        | .mismatched => resultsEqual m eq ["description", "value"] a b
        | .settings => settingsEqual eq s a b
        | .mapping => mappingsEqual m eq a b
        | .attributeBag =>
          if s.isA b .attributeBag then
            some <$> sameEntries m eq (fieldEntries ((s.attrs? a).getD []))
              (fieldEntries ((s.attrs? b).getD []))
          else return none
        | _ => return if a = b then some true else none

end parts

/-- What `a` says about its equality to `b`, if it says anything. -/
def saysEqual (m : Machine) (eq : Value → Value → Act Bool) (a b : Value) : Act (Option Value) := do
  let s ← get
  match s.override? (s.classOf a) "__eq__" with
  | some f =>
    let v ← callSpecial m a f [b]
    return if v = .notImplemented then none else some v
  | none => match s.body? a with
    | some (.proxy of) => match s.class? of, s.entries? a, s.entries? b with
      | some _, some es, some fs => return some (.bool (← sameEntries m eq es fs))
      | some _, _, _ => return none
      | none, _, _ => return some (.bool (← eq of b))
    | _ => return (← nativeEqual m eq a b).map Value.bool

/-- Equality as the two sides decide it. -/
def equalAt (m : Machine) : Nat → Value → Value → Act Value
  | 0, _, _ => refuse .recursionError
  | n + 1, a, b => do
    let eq (x y : Value) : Act Bool := do
      if x = y then return true else truth m (← equalAt m n x y)
    let s ← get
    let first := s.classOf b ≠ s.classOf a ∧ s.comesFrom (s.classOf b) (s.classOf a)
    let (x, y) := if first then (b, a) else (a, b)
    match ← saysEqual m eq x y with
    | some v => return v
    | none => match ← saysEqual m eq y x with
      | some v => return v
      | none => return .bool (a = b)

/-- Equality as a comparison of the program gives it. -/
def equal (m : Machine) (a b : Value) : Act Value := equalAt m depthLimit a b

/-- Equality of parts: the same object is always equal to itself. -/
def same (m : Machine) (a b : Value) : Act Bool := do
  if a = b then return true
  match a, b with
  | .str _, .str _ | .int _, .int _ => return false
  | _, _ => truth m (← equal m a b)

/-- Equality as keys and members are compared. -/
def sameKey (m : Machine) (filed sought : Value) : Act Bool := keyEqual m (same m) filed sought

end CallContracts
