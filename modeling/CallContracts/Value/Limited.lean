import CallContracts.Value.Shown
/-! Short text: a value written out within limits, so that a message stays readable whatever it shows.
Containers are followed six levels down and told by their first items; strings, and all that is no
container, are clipped to a limit; whole numbers to forty characters.  What is a container goes by the
name of its class. -/
namespace CallContracts
open Act Text

/-- The limits on containers and whole numbers; the one on text is a setting. -/
structure Limits where
  depth : Nat := 6
  items : Nat := 6
  arrayItems : Nat := 5
  entries : Nat := 4
  digits : Int := 40

def limits : Limits := {}

/-- A limit on text, as a program may have set it. -/
inductive TextLimit where
  | exactly (n : Int)
  /-- A number that is not whole bounds a length and is no position in a text. -/
  | fractional (x : Numeral.Exact)
  /-- A decimal that is no number cannot be compared. -/
  | unordered
  | other
  deriving DecidableEq, Repr

def Store.textLimit (s : Store) (v : Value) : TextLimit :=
  match s.whole? v with
  | some i => .exactly i
  | none =>
    if refusesOrder s v then .unordered
    else match s.real? v with
      | some x => .fractional x
      | none => .other

/-- A text that is clipped because of its length alone; no more than the dots are left of one whose limit
leaves no room. -/
def clipOther (limit : TextLimit) (t : Chars) : Act Chars :=
  match limit with
  | .exactly n => pure (clip n t)
  | .fractional x =>
    if x.lt (.ofInt t.length) then
      if (Numeral.Exact.ofInt 3).lt x then refuse .typeError else pure dots
    else pure t
  | .unordered => refuse .invalidOperation
  | .other => refuse .typeError

/-- The string is cut before it is quoted, and the quoted text once more. -/
def shortString (n : Int) (t : Chars) : Chars :=
  let q := quote (before n t)
  if n < q.length then
    cut n (quote (before (headSize n) t ++ after (t.length - tailSize n) t))
  else q

/-- The name of a class, its words joined. -/
def joinWords (name : Chars) : Chars :=
  if ' ' ∈ name then
    List.intercalate ['_'] ((name.splitBy fun a b => isSpace a == isSpace b).filter fun w =>
      !w.any isSpace)
  else name

/-- The class names that stand for containers, strings and whole numbers. -/
inductive Told where
  | list | tuple | deque | set | frozenset | dict | array | str | int | other
  deriving DecidableEq, Repr

def toldNames : List (String × Told) :=
  [("list", .list), ("tuple", .tuple), ("deque", .deque), ("set", .set), ("frozenset", .frozenset),
    ("dict", .dict), ("array", .array), ("str", .str), ("int", .int)]

def toldAs (name : String) : Told :=
  (toldNames.lookup (String.ofList (joinWords name.toList))).getD .other

/-- What can be cut into pieces that are put together again. -/
def sliced? (s : Store) (v : Value) : Option (List Value × (List Value → Act Value)) :=
  match s.pieces? v, s.text? v, s.body? v with
  | some xs, some _, _ => some (xs, fun ys => pure (.str (String.join (ys.filterMap s.text?))))
  | some xs, none, _ => some (xs, fun ys =>
      newScalar .bytes (.bytes (ys.filterMap fun y => (s.whole? y).map Int.toNat)))
  | none, _, some (.list xs) => some (xs, newList)
  | none, _, some (.tuple xs) => some (xs, newTuple)
  | _, _, _ => none

section short
variable (m : Machine) (limit : TextLimit)

/-- What bears the name of a string is cut like one. -/
def shortSliced (n : Int) (v : Value) : Act Chars := do
  let s ← get
  if s.overrides (s.classOf v) ["__getitem__"] then refuse .typeError
  let (xs, join) ← ofOption .typeError (sliced? s v)
  let q ← textAs m .quoted (← join (before n xs))
  if n < q.length then
    let size ← lengthOf m v
    let ends ← join (before (headSize n) xs ++ after (size - tailSize n) xs)
    return cut n (← textAs m .quoted ends)
  else return q

/-- An instance of a class that is no container; one that cannot be written shows its place. -/
def shortOther (v : Value) : Act Chars := do
  let t ← orElseOn .exception (some <$> textAs m .quoted v) (pure none)
  match t with
  | some t => clipOther limit t
  | none =>
    let name ← textAs m .plain (← m.read (← m.read v "__class__") "__name__")
    let r := match v with | .ref r => r | _ => 0
    return '<' :: name ++ " instance".toList ++ placed r

variable (level : Nat) (short : Value → Act Chars)

/-- A container told by its first items; `trail` marks a single one that is not left out. -/
def shortItems (most : Nat) (left right trail : String) (v : Value) : Act Chars := do
  let n ← lengthOf m v
  let contents ←
    if level = 0 ∧ n ≠ 0 then pure dots
    else do
      let ts ← each short (← firstItems m most v)
      pure (commaJoin (if most < n then ts ++ [dots] else ts))
  let mark := if n = 1 ∧ level ≠ 0 then trail.toList else []
  return left.toList ++ contents ++ mark ++ right.toList

def shortSet (left right none : String) (v : Value) : Act Chars := do
  if !(← truth m v) then return none.toList
  let xs ← newList (← sortedOr m (← iterate m v))
  shortItems m level short limits.items left right "" xs

def shortTable (v : Value) : Act Chars := do
  let n ← lengthOf m v
  if n = 0 then return braces []
  if level = 0 then return braces dots
  let keys ← sortedOr m (← iterate m v)
  let ts ← each (fun k => do
    let t ← short k
    return t ++ ':' :: ' ' :: (← short (← Item.get m v k))) (keys.take limits.entries)
  return braces (commaJoin (if limits.entries < n then ts ++ [dots] else ts))

def shortArray (v : Value) : Act Chars := do
  let isEmpty := !(← truth m v)
  let code ← textAs m .plain (← m.read v "typecode")
  let start := "array('" ++ String.ofList code ++ "'"
  if isEmpty then return start.toList ++ [')']
  else shortItems m level short limits.arrayItems (start ++ ", [") "])" "" v

/-- Short text of a value whose parts are written by `short`. -/
def shortWith (v : Value) : Act Chars := do
  let items := shortItems m level short limits.items
  match toldAs ((← get).typeName v) with
  | .list => items "[" "]" "" v
  | .tuple => items "(" ")" "," v
  | .deque => items "deque([" "])" "" v
  | .set => shortSet m level short "\x7b" "\x7d" "set()" v
  | .frozenset => shortSet m level short "frozenset(\x7b" "\x7d)" "frozenset()" v
  | .dict => shortTable m level short v
  | .array => shortArray m level short v
  | .str => match limit, v with
    | .exactly n, .str t => return shortString n t.toList
    | .exactly n, _ => shortSliced m n v
    | _, _ => refuse .typeError
  | .int => return clip limits.digits (← textAs m .quoted v)
  | .other => shortOther m limit v

end short

/-- Short text of a value, followed so many levels down. -/
def shortAt (m : Machine) (limit : TextLimit) : Nat → Value → Act Chars
  | 0, v => shortWith m limit 0 (fun _ => pure []) v
  | n + 1, v => shortWith m limit (n + 1) (shortAt m limit n) v

/-- Short text under a limit. -/
def short (m : Machine) (limit : Value) (v : Value) : Act String := do
  String.ofList <$> shortAt m ((← get).textLimit limit) limits.depth v

end CallContracts
