import CallContracts.Signature.Check
/-! The answer that shows a value as it is at this moment.  What it shows of an object is what the object
says of itself, so showing can fail.  An object met again inside itself is a mark. -/
namespace CallContracts
open Act

namespace Answer

def cycle : Answer := tagged "cycle" []

def insertByText (x : String × Answer) : List (String × Answer) → List (String × Answer)
  | [] => [x]
  | y :: ys => if x.1 < y.1 then x :: y :: ys else y :: insertByText x ys

/-- Ascending by text. -/
def sortByText (xs : List Answer) : List Answer :=
  ((xs.map fun x => (x.text, x)).foldr insertByText []).map Prod.snd

/-- What an exception carries for its reader, in this order. -/
def carried : List String := ["member", "expected", "description", "value"]

def ofFieldFaults (fs : List FieldFault) : Answer :=
  .list (fs.map fun f =>
    .record [("type", .str f.rule), ("loc", .list [.str f.field]), ("msg", .str f.message)])

section parts
variable (m : Machine) (answer : Value → Act Answer)

def ofFields (fs : Fields Value) : Act Answer := do
  return .list (← each (fun f => do return .list [.str f.1, ← answer f.2]) fs)

def ofEntries (es : List (Value × Value)) : Act Answer := do
  return .list (← each (fun e => do
    let k ← answer e.1
    return .list [k, ← answer e.2]) es)

def ofItems (name : String) (xs : List Value) : Act Answer := do
  return tagged name [("v", .list (← each answer xs))]

/-- Everything that has no form of its own is shown by class and text. -/
def other (v : Value) : Act Answer := do
  return tagged ((← get).typeName v) [("repr", .str (← shown m v))]

/-- Attributes under their names. -/
def ofRead (v : Value) : List String → Act (List (String × Answer))
  | [] => pure []
  | n :: ns => do
    let a ← answer (← m.read v n)
    return (n, a) :: (← ofRead v ns)

/-- The own attributes of an instance, if it shows any. -/
def attrsShown (v : Value) : Act (List (Value × Value)) := do
  let s ← get
  if s.hidesTable v then
    match ← optional (m.read v "__dict__") with
    | none => return []
    | some t => entriesOf m t
  else return s.entriesAt (.attributes v)

/-- A function that is bound has the name of what it binds. -/
def ofFunction (v : Value) : Act Answer := do
  match ← optional (m.read v "__name__") with
  | some n => return tagged "function" [("name", ← answer n)]
  | none => return tagged "function" [("name", .null)]

def ofWrapper (v : Value) : Act Answer := do
  let s ← get
  let name ← match s.attr? v "__name__" with
    | some n => answer n
    | none => pure .null
  let shown := [("name", name)]
  let form := s.typeName v
  if ← Signature.isSigned m v then
    let member ← answer (← fieldOf m (← fieldOf m v "advice") "member")
    return tagged form (shown ++ [("signed", .bool true), ("member", member)])
  else return tagged form (shown ++ [("signed", .bool false)])

def ofException (v : Value) (args : List Value) (report : Report) : Act (List (String × Answer)) := do
  let s ← get
  let kind := [("error", .str (s.typeName v))]
  match report with
  | .quiet => return kind
  | .fields fs => return kind ++ [("errors", ofFieldFaults fs)]
  | .message =>
    let message ← match args with
      | [] => pure ""
      | x :: _ => written m x
    let fs := (s.attrs? v).getD []
    let more ← each (fun f => do return (f.1, ← answer f.2))
      (carried.filterMap fun n => (fs.get? n).map fun x => (n, x))
    return kind ++ [("message", .str message)] ++ more

/-- An object of a builtin class. -/
def ofBuiltin (v : Value) (c : BuiltinClass) (body : Body) : Act Answer := do
  let s ← get
  let attrs := (s.attrs? v).getD []
  match c, body with
  | _, .list xs => return .list (← each answer xs)
  | _, .tuple xs | _, .deque xs => ofItems answer c.name xs
  | _, .set xs => return tagged c.name [("v", .list (sortByText (← each answer xs)))]
  | .mappingProxy, _ => return tagged c.name [("v", ← ofEntries answer ((s.entries? v).getD []))]
  | _, .table es => return tagged c.name [("v", ← ofEntries answer es)]
  | _, .scalar (.float x) => return tagged c.name [("v", .str x.text)]
  | .function, _ | .builtinFunction, _ | .method, _ => ofFunction m answer v
  | .attributeBag, _ => return tagged "ns" [("v", ← ofEntries answer (s.entriesAt (.attributes v)))]
  | .module, _ =>
    let name ← match attrs.get? "__name__" with
      | some n => answer n
      | none => pure .null
    let fs := attrs.filter fun f => !"__".toList.isPrefixOf f.1.toList
    return tagged "module" [("name", name), ("v", ← ofFields answer fs)]
  | .matched, _ => return tagged c.name (← ofRead m answer v ["contract"])
  | .mismatched, _ => return tagged c.name (← ofRead m answer v ["description", "value"])
  | .settings, _ =>
    return tagged c.name (← ofRead m answer v ["repr_limit", "allow_keywords", "anonymous_suffix"])
  | _, _ => other m v

def ofObject (r : Ref) (o : Obj) : Act Answer := do
  let v := Value.ref r
  let s ← get
  match o.body, o.cls with
  | .exception args report, _ => return tagged "exception" (← ofException m answer v args report)
  | .cls _, _ => return tagged "class" [("name", ← answer (← m.read v "__name__"))]
  | body, c =>
    if s.isA v .contract then return tagged (s.typeName v) (← ofRead m answer v ["description"])
    else if s.isA v .wrapper then ofWrapper m answer v
    else match c with
      | .defined _ =>
        let attrs ← ofEntries answer (← attrsShown m v)
        return tagged "instance" [("class", .str (s.typeName v)), ("attrs", attrs)]
      | .builtin c => ofBuiltin m answer v c body

end parts

/-- Follows a value down; `path` holds the objects that are being shown. -/
def ofValueAt (m : Machine) : Nat → List Ref → Value → Act Answer
  | _, _, .absent => pure .null
  | _, _, .undefined => pure (tagged "UNDEFINED" [])
  | _, _, .bool b => pure (.bool b)
  | _, _, .int i => pure (.int i)
  | _, _, .str t => pure (.str t)
  | _, _, .builtinClass c => pure (tagged "class" [("name", .str c.name)])
  | _, _, .operation o =>
    if o.ownClass ∈ [.function, .builtinFunction, .method] then
      pure (tagged "function" [("name", .str o.name)])
    else other m (.operation o)
  | _, _, .notImplemented => other m .notImplemented
  | 0, _, .ref _ => pure cycle
  | n + 1, path, .ref r => do
    if r ∈ path then return cycle
    match (← get).get? r with
    | none => return .null
    | some o => ofObject m (ofValueAt m n (r :: path)) r o

def ofValue (m : Machine) (v : Value) : Act Answer := do
  ofValueAt m ((← get).heap.size + 1) [] v

/-- A fault, as an answer tells it. -/
def ofFault (m : Machine) (f : Fault) : Act Answer := do
  let kind := ("error", .str f.cls.name)
  match f with
  | .invalidSettings fs => return .record [kind, ("errors", ofFieldFaults fs)]
  | _ => match f.message? with
    | none => return .record [kind]
    | some t =>
      let fields ← each (fun p => do return (p.1, ← ofValue m p.2)) f.fields
      return .record (kind :: ("message", .str t) :: fields)

end Answer
end CallContracts
