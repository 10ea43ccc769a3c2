import CallContracts.Contract.Run
import CallContracts.Value.Shown
/-! Building contracts out of others.  Every builder reads the contracts that it is given and makes a
new one; its description is put together from theirs. -/
namespace CallContracts
open Act

/-- The place of the contract that matches every value. -/
def anyRef : Ref := 1

namespace Contract

/-- The function that decides a rule. -/
def predicate (t : Rule) : Act Value :=
  alloc { cls := .builtin .function
          body := .function ⟨t.name, t.path, .str t.home, .absent, .predicate t⟩, attrs := some [] }

/-- A new contract knows its own place. -/
def make (d : Value) (t : Rule) (test : Value) : Act Value := fun s =>
  alloc { cls := .builtin .contract, body := .contract (.mk s.heap.size d t) test none } s

/-- A contract that is decided by a function of its own. -/
def build (d : Value) (t : Rule) : Act Value := do make d t (← predicate t)

/-- The contract that a value is; anything else is reported. -/
def checked (m : Machine) (v : Value) : Act Contract := do
  match (← get).contract? v with
  | some c => return c
  | none =>
    match v, ← isContract m v with
    | .ref r, true => return .mk r .absent .own
    | _, _ => do fail (.misconfigured (.notContract (← shown m v)))

def allChecked (m : Machine) (vs : List Value) : Act (List Contract) := each (checked m) vs

/-- The description of a contract, as it shows it. -/
def describe (m : Machine) (c : Contract) : Act Value := do
  match (← get).contract? c.value with
  | some c => return c.description
  | none => m.read c.value "description"

/-- The description as it stands inside another one. -/
def inserted (m : Machine) (c : Contract) : Act String := do formatted m (← c.describe m)

def asText (v : Value) : Act String := do ofOption .typeError ((← get).text? v)

/-- The descriptions between parentheses, with a word between them. -/
def joined (m : Machine) (cs : List Contract) (word : String) : Act Value := do
  let ds ← each (describe m) cs
  let ts ← each asText ds
  return .str ("(" ++ String.intercalate word ts ++ ")")

variable (m : Machine)

def ofInstances (cls : Value) : Act Value := do
  let n ← asText (← m.read cls "__name__")
  build (.str ("instance of " ++ n)) (.instanceOf cls)

def all (vs : List Value) : Act Value := do
  let cs ← allChecked m vs
  build (← joined m cs ") & (") (.all cs)

def any (vs : List Value) : Act Value := do
  let cs ← allChecked m vs
  build (← joined m cs ") | (") (.any cs)

def negate (v : Value) : Act Value := do
  let c ← checked m v
  build (.str ("not(" ++ (← c.inserted m) ++ ")")) (.not c)

def maybe (v : Value) : Act Value := do
  let c ← checked m v
  build (.str ("maybe(" ++ (← c.inserted m) ++ ")")) (.maybe c)

/-- Without an element contract, or with the one that matches everything, items are not looked at. -/
def array (v : Value) : Act Value := do
  let c ← checked m (if v = .absent then .ref anyRef else v)
  build (.str ("[" ++ (← c.inserted m) ++ "]")) (if c.id = anyRef then .arrayOfAny else .arrayOf c)

def productOf (cs : List Contract) : Act Value := do build (← joined m cs ") x (") (.product cs)

/-- A positional contract that stays one when it has a single part. -/
def product (v : Value) : Act Value := do productOf m (← allChecked m (← iterate m v))

/-- A positional contract; a single part stands for itself. -/
def collapse (vs : List Value) : Act Value := do
  match ← allChecked m vs with
  | [c] => return c.value
  | cs => productOf m cs

def seq (vs : List Value) : Act Value := do
  match vs with
  | [v] => if ← isArray m v then collapse m (← iterate m v) else collapse m [v]
  | _ => collapse m vs

/-- The parts of the record text, one entry after the other. -/
def recordParts (acc : List String) : Nat → Cursor → Act (List String)
  | 0, _ => throw .exhausted
  | n + 1, c => do
    match ← c.next m with
    | none => return acc
    | some (x, c) =>
      let (k, v) ← fieldParts m x
      let k ← formatted m k
      let d ← m.read v "description"
      recordParts (acc ++ [k ++ ": " ++ (← formatted m d)]) n c

/-- The text of a mapping from names to contracts: `{a: …,\n b: …\n}`.  The description of a part is
whatever attribute of that name it has. -/
def describeRecord (shape : Value) : Act Value := do
  if !(← truth m shape) then return .str "\x7b\x7d"
  let items ← itemsOf m shape
  let parts ← recordParts m [] ((← get).bound items) items
  return .str ("\x7b" ++ String.intercalate ",\n " parts ++ "\n\x7d")

def record (shape : Value) : Act Value := do
  let es ← entriesOf m shape
  let copy ← newTable es
  let cs ← allChecked m (es.map Prod.snd)
  let d ← describeRecord m copy
  build d (.record (es.zipWith (fun e c => (e.1, c)) cs))

/-- A signature; it is a contract for functions, and what it says about calls is kept beside it. -/
def makeSignature (params input ret : Value) : Act Value := do
  let params ← newTuple (← iterate m params)
  let i ← formatted m (← m.read input "description")
  let r ← formatted m (← m.read ret "description")
  fun s => alloc {
    cls := .builtin .signature
    body := .contract (.mk s.heap.size (.str (i ++ " -> " ++ r)) .function)
      (.operation .functionTest) (some ⟨params, input, ret⟩) } s

/-- The last contract is what a call returns, the others are what it takes. -/
def proc (types : List Value) : Act Value := do
  if types = [] then fail (.misconfigured .emptyProc)
  let cs ← allChecked m types
  let params := cs.dropLast.map value
  let input ← collapse m params
  makeSignature m (← newTuple params) input (types.getLastD .absent)

end Contract
end CallContracts
