import CallContracts.Container.Item
/-! Iteration.  What is iterated over may change meanwhile: a list is looked at as it is when the next
item is due, while a table or deque that has changed refuses to go on. -/
namespace CallContracts
open Act

/-- How many items the program itself gives at most. -/
def stepLimit : Nat := 1000000

/-- The entries of a source as they are now. -/
def Store.entriesAt (s : Store) : Source → List (Value × Value)
  | .entries v => (s.entries? v).getD []
  | .attributes v => match s.class? v with
    | some c => fieldEntries (s.classTable c)
    | none => fieldEntries ((s.attrs? v).getD [])

/-- What a step of an iteration gives. -/
inductive Given where
  | value (v : Value)
  | entry (k v : Value)
  deriving DecidableEq, Repr

/-- An entry is a pair. -/
def Given.toValue : Given → Act Value
  | value v => pure v
  | entry k v => newTuple [k, v]

/-- What follows the entries that were given already. -/
def dropGiven : List Value → List (Value × Value) → List (Value × Value)
  | _, [] => []
  | given, e :: es => match given.dropWhile (· ≠ e.1) with
    | [] => e :: es
    | _ :: rest => dropGiven rest es

/-- What an entry gives. -/
def partOf : Part → Value × Value → Given
  | .keys, e => .value e.1
  | .values, e => .value e.2
  | .items, e => .entry e.1 e.2

/-- How many items are left in a builtin container; what the program steps through does not tell. -/
def Store.remaining (s : Store) : Cursor → Nat
  | .fixed xs => xs.length
  | .list r i => ((s.items? (.ref r)).getD []).length - i
  | .deque _ i size => size - i
  | .entries _ _ _ _ left => left
  | .ordered _ _ keys _ => keys.length
  | .mapped _ _ keys => s.remaining keys
  | _ => 0

/-- How many steps an iteration takes at most. -/
def Store.bound (s : Store) (c : Cursor) : Nat := s.remaining c + stepLimit

namespace Cursor

/-- The next entry of a table that must not change its size. -/
def nextEntry (part : Part) (source : Source) (size : Nat) (given : List Value) (left : Nat) :
    Act (Option (Given × Cursor)) := do
  let es := (← get).entriesAt source
  if es.length ≠ size then refuse .runtimeError
  match dropGiven given es, left with
  | [], _ => return none
  | _ :: _, 0 => refuse .runtimeError
  | e :: _, left + 1 => return some (partOf part e, entries part source size (given ++ [e.1]) left)

/-- The next entry of an ordered table, which was fixed with the one before. -/
def nextOrdered (part : Part) (v : Value) (keys : List Value) :
    Option Value → Act (Option (Given × Cursor))
  | none => pure none
  | some k => do
    let es := ((← get).entries? v).getD []
    if es.map Prod.fst ≠ keys then refuse .runtimeError
    let following := ((keys.dropWhile (· ≠ k)).drop 1).head?
    let x := ((es.find? fun e => e.1 = k).map Prod.snd).getD .absent
    return some (partOf part (k, x), ordered part v keys following)

/-- The item at a position, as a class of the program says, until it says that there is none. -/
def nextPosition (m : Machine) (v : Value) (i : Nat) : Act (Option (Given × Cursor)) := do
  let f ← ofOption .typeError ((← get).override? ((← get).classOf v) "__getitem__")
  let item := do
    return some (Given.value (← callSpecial m v f [.int (i : Nat)]), positions v (i + 1))
  orElseOn .indexError (orElseOn .stopIteration item (pure none)) (pure none)

/-- One step of an iterator, whose class says what it is. -/
def step (m : Machine) (v : Value) : Act (Option Value) := do
  let s ← get
  let f ← ofOption .typeError (s.classMember? (s.classOf v) "__next__")
  orElseOn .stopIteration (some <$> callSpecial m v f []) (pure none)

/-- The next item, and what remains. -/
def next (m : Machine) : Cursor → Act (Option (Given × Cursor))
  | fixed [] => pure none
  | fixed (x :: xs) => pure (some (.value x, fixed xs))
  | list r i => do
    match ((← get).items? (.ref r)).bind (·[i]?) with
    | some x => return some (.value x, list r (i + 1))
    | none => return none
  | deque r i size => do
    let xs := ((← get).items? (.ref r)).getD []
    if xs.length ≠ size then refuse .runtimeError
    return xs[i]?.map fun x => (.value x, deque r (i + 1) size)
  | entries part source size given left => nextEntry part source size given left
  | ordered part v keys following => nextOrdered part v keys following
  | positions v i => nextPosition m v i
  | mapped part v keys => do
    match ← next m keys with
    | none => return none
    | some (k, rest) =>
      let k ← k.toValue
      match part with
      | .keys => return some (.value k, mapped part v rest)
      | _ => return some (partOf part (k, ← Item.get m v k), mapped part v rest)
  | stepped v => do return (← step m v).map fun x => (.value x, stepped v)

/-- Whether `f` holds of all items. -/
def every (m : Machine) (f : Given → Act Bool) : Nat → Cursor → Act Bool
  | 0, _ => throw .exhausted
  | n + 1, c => do
    match ← c.next m with
    | none => return true
    | some (x, c) => if ← f x then every m f n c else return false

/-- At most so many items. -/
def take (m : Machine) : Nat → Cursor → Act (List Value)
  | 0, _ => pure []
  | n + 1, c => do
    match ← c.next m with
    | none => return []
    | some (x, c) =>
      let x ← x.toValue
      return x :: (← take m n c)

end Cursor

/-- An iteration over the entries of a table. -/
def Store.overEntries (s : Store) (part : Part) (v : Value) : Cursor :=
  let es := (s.entries? v).getD []
  let of := s.behind v
  if s.isA of .orderedDict then .ordered part of (es.map Prod.fst) (es.head?.map Prod.fst)
  else .entries part (.entries v) es.length [] es.length

/-- An iteration over the attributes of an object. -/
def Store.overAttributes (s : Store) (part : Part) (v : Value) : Cursor :=
  let es := s.entriesAt (.attributes v)
  .entries part (.attributes v) es.length [] es.length

/-- What the class of an iterable gives when it is asked for an iterator. -/
def declaredCursor (m : Machine) (v f : Value) : Act Cursor := do
  let it ← callSpecial m v f []
  let s ← get
  if (s.classMember? (s.classOf it) "__next__").isSome then return .stepped it else refuse .typeError

/-- The settings are iterated over as pairs of names and values. -/
def settingPairs (v : Value) : Act (List Value) := do
  each (fun f => newTuple [.str f.1, f.2]) (((← get).attrs? v).getD [])

/-- The iteration that the builtin ancestor of a class gives. -/
def nativeCursor (m : Machine) (v : Value) : Act Cursor := do
  let s ← get
  match s.pieces? v, s.body? v, v with
  | some xs, _, _ => return .fixed xs
  | none, some (.list _), .ref r => return .list r 0
  | none, some (.tuple xs), _ => return .fixed xs
  | none, some (.deque xs), .ref r => return .deque r 0 xs.length
  | none, some (.set xs), _ => do return .fixed (← sortedOr m xs)
  | none, some (.table _), _ => return s.overEntries .keys v
  | none, some (.proxy of), _ =>
    match s.class? of, s.override? (s.classOf of) "__iter__" with
    | none, some f => declaredCursor m of f
    | _, _ => return s.overEntries .keys v
  | none, some (.view part of), _ =>
    match s.entries? of, s.override? (s.classOf of) "__iter__" with
    | some _, _ => return s.overEntries part of
    | none, some f => do return .mapped part of (← declaredCursor m of f)
    | none, none => refuse .typeError
  | none, some (.iterator _), _ => return .stepped v
  | none, _, _ =>
    if s.isA v .settings then return .fixed (← settingPairs v)
    else if (s.override? (s.classOf v) "__getitem__").isSome then return .positions v 0
    else refuse .typeError

def cursorOf (m : Machine) (v : Value) : Act Cursor := do
  let s ← get
  match s.override? (s.classOf v) "__iter__" with
  | some f => declaredCursor m v f
  | none => nativeCursor m v

/-- An iteration over the items of a mapping. -/
def itemsOf (m : Machine) (v : Value) : Act Cursor := do
  let s ← get
  match s.entries? v, s.isNative (s.behind v) "items" with
  | some _, true => return s.overEntries .items v
  | _, _ => do cursorOf m (← m.call (← m.read v "items") [] [])

/-- All that an iteration over a value gives. -/
def iterate (m : Machine) (v : Value) : Act (List Value) := do
  let c ← cursorOf m v
  c.take m ((← get).bound c)

/-- The first items. -/
def firstItems (m : Machine) (n : Nat) (v : Value) : Act (List Value) := do (← cursorOf m v).take m n

/-- The parts of a pair. -/
def asPair (m : Machine) (v : Value) : Act (Value × Value) := do
  match ← firstItems m 3 v with
  | [a, b] => return (a, b)
  | _ => refuse .valueError

/-- Whether a table is copied as it is: unless its class says itself what is in it. -/
def Store.copiesEntries (s : Store) (v : Value) : Bool :=
  s.isA v .dict && !s.overrides (s.classOf v)
    (if s.isA v .orderedDict then ["__iter__", "keys", "__getitem__"] else ["__iter__"])

/-- The entries of a mapping that tells its keys. -/
def keyedEntries (m : Machine) (v : Value) : Act (List (Value × Value)) := do
  let keys ← iterate m (← m.call (← m.read v "keys") [] [])
  Table.ofEntries m (← each (fun k => do return (k, ← Item.get m v k)) keys)

/-- The entries of a table made out of a mapping or of pairs. -/
def entriesOf (m : Machine) (v : Value) : Act (List (Value × Value)) := do
  let s ← get
  let known := match s.body? v with
    | some (.proxy of) => s.isClass of || s.copiesEntries of
    | _ => s.copiesEntries v
  match known, s.entries? v with
  | true, some es => return es
  | _, _ =>
    if (← optional (m.read v "keys")).isSome then keyedEntries m v
    else Table.ofEntries m (← each (asPair m) (← iterate m v))

/-- The named arguments that a mapping stands for. -/
def namedOf (m : Machine) (v : Value) : Act (Fields Value) := do
  let s ← get
  match s.copiesEntries v, s.entries? v with
  | true, some es => named es
  | _, _ =>
    match ← optional (m.read v "keys") with
    | none => refuse .typeError
    | some _ => do named (← keyedEntries m v)

def isInfix (t : List Char) : List Char → Bool
  | [] => t = []
  | c :: r => t.isPrefixOf (c :: r) || isInfix t r

/-- Whether a container holds a value, by its builtin ancestor. -/
def nativeContains (m : Machine) (v x : Value) : Act Bool := do
  let s ← get
  match s.text? v, s.body? v with
  | some t, _ =>
    let u ← ofOption .typeError (s.text? x)
    return isInfix u.toList t.toList
  | none, some (.scalar (.bytes bs)) => match s.scalar? x with
    | some (.bytes cs) => return isInfix (cs.map Char.ofNat) (bs.map Char.ofNat)
    | _ => return (← asIndex m x) ∈ bs.map Int.ofNat
  | none, some (.table es) => return (← Table.find m x es).isSome
  | none, some (.view .keys of) => match s.entries? of with
    | some es => return (← Table.find m x es).isSome
    | none => m.call (.operation (.member .mapping "__contains__" .plain)) [of, x] [] >>= truth m
  | none, some (.set xs) => do
    checkKey m x
    isMember m (same m) xs x
  | none, _ =>
    let c ← cursorOf m v
    return !(← c.every m (fun y => do return !(← same m (← y.toValue) x)) ((← get).bound c))

/-- A mapping of the program contains the keys that it has something for. -/
def mappingContains (m : Machine) (v x : Value) : Act Bool :=
  orElseOn .keyError (do let _ ← Item.get m v x; return true) (pure false)

def containsDirect (m : Machine) (v x : Value) : Act Bool := do
  let s ← get
  match s.override? (s.classOf v) "__contains__" with
  | some f => do truth m (← callSpecial m v f [x])
  | none => if s.builtinBase (s.classOf v) = .mapping then mappingContains m v x else nativeContains m v x

def contains (m : Machine) (v x : Value) : Act Bool := do
  let s ← get
  match s.body? v with
  | some (.proxy of) => match s.class? of, s.entries? v with
    | some _, some es => return (← Table.find m x es).isSome
    | _, _ => containsDirect m of x
  | _ => containsDirect m v x

end CallContracts
