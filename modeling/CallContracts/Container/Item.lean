import CallContracts.Container.Table
/-! Items: what a container holds under a key or at a position.  A class of the program may say itself what
its instances hold, or only what they hold where nothing is. -/
namespace CallContracts
open Act

namespace Item
variable (m : Machine)

/-- A position among `n`, counted from the end when negative. -/
def position (n : Nat) (key : Value) : Act Nat := do
  let i ← asIndex m key
  let j := if i < 0 then i + n else i
  if 0 ≤ j ∧ j < n then return j.toNat else refuse .indexError

def ofList (xs : List Value) (key : Value) : Act Value := do
  return xs[← position m xs.length key]?.getD .absent

/-- The value under a key of a table; a key that is missing is the class's own affair. -/
def ofTable (v : Value) (es : List (Value × Value)) (key : Value) : Act Value := do
  match ← Table.find m key es with
  | some x => return x
  | none =>
    let s ← MonadState.get
    match s.override? (s.classOf v) "__missing__" with
    | some f => callSpecial m v f [key]
    | none => refuse .keyError

/-- What a value holds by its builtin ancestor. -/
def native (v key : Value) : Act Value := do
  let s ← MonadState.get
  match s.pieces? v, s.body? v with
  | some xs, _ => ofList m xs key
  | none, some (.list xs) | none, some (.tuple xs) | none, some (.deque xs) => ofList m xs key
  | none, some (.table es) => ofTable m v es key
  | _, _ =>
    if !s.isClass v then refuse .typeError
    let f ← ofOption .typeError (← optional (m.read v "__class_getitem__"))
    m.call f [key] []

def direct (v key : Value) : Act Value := do
  let s ← MonadState.get
  match s.override? (s.classOf v) "__getitem__" with
  | some f => callSpecial m v f [key]
  | none => native m v key

def get (v key : Value) : Act Value := do
  let s ← MonadState.get
  match s.body? v with
  | some (.proxy of) => match s.class? of, s.entries? v with
    | some _, some es => do ofOption (.refused .keyError) (← Table.find m key es)
    | _, _ => direct m of key
  | _ => direct m v key

/-- Writes where the builtin ancestor keeps its items. -/
def putNative (v key x : Value) : Act Unit := do
  let s ← MonadState.get
  match v, s.body? v with
  | .ref r, some (.list xs) =>
    let i ← position m xs.length key
    update r fun o => { o with body := .list (xs.set i x) }
  | .ref r, some (.deque xs) =>
    let i ← position m xs.length key
    update r fun o => { o with body := .deque (xs.set i x) }
  | .ref r, some (.table es) =>
    let es ← Table.put m key x es
    update r fun o => { o with body := .table es }
  | _, _ => refuse .typeError

def put (v key x : Value) : Act Unit := do
  let s ← MonadState.get
  match s.override? (s.classOf v) "__setitem__" with
  | some f => let _ ← callSpecial m v f [key, x]
  | none => putNative m v key x

/-- Takes an item away where the builtin ancestor keeps its items. -/
def erase (v key : Value) : Act Unit := do
  let s ← MonadState.get
  match v, s.body? v with
  | .ref r, some (.list xs) =>
    let i ← position m xs.length key
    update r fun o => { o with body := .list (xs.eraseIdx i) }
  | .ref r, some (.deque xs) =>
    let i ← position m xs.length key
    update r fun o => { o with body := .deque (xs.eraseIdx i) }
  | .ref r, some (.table es) =>
    match ← Table.find m key es with
    | none => refuse .keyError
    | some _ =>
      let es ← Table.eraseAfter m key es
      update r fun o => { o with body := .table es }
  | _, _ => refuse .typeError

end Item
end CallContracts
