import CallContracts.Call.Parameters
import CallContracts.Contract.Standard
/-! Initialisers: what makes an object of a builtin class ready for use, and what makes it new again.  The
initialisers of the library write attributes and take any object that lets them. -/
namespace CallContracts
open Act

namespace Start

/-- Stands for an argument that was left out. -/
def omitted : Value := .notImplemented

def optionalParams (ns : List String) : Params := ns.map fun n => (.optional n, some omitted)

/-- The parameters of the initialisers, the object itself left out. -/
def params : BuiltinClass → Option Params
  | .contract => some (.required ["test", "description"])
  | .signature => some (.required ["params", "input", "ret"])
  | .matched => some (.required ["contract"])
  | .mismatched | .contractViolation => some (.required ["description", "value"])
  | .wrapper | .classWrapper => some (.required ["proceed", "advice"])
  | .unboundWrapper => some (.required ["proceed", "advice", "owner"])
  | .signatureCheck => some (.required ["signature", "member"])
  | .inputTypeError | .signatureTypeError => some (.required ["member", "expected", "value"])
  | .outputTypeError => some
    (Params.required ["member", "expected", "value"]
      ++ [(.optional "reason", some (.str "but returned"))])
  | .list | .set => some (optionalParams [""])
  | .deque => some (optionalParams ["iterable", "maxlen"])
  | .staticMethod | .classMethod => some (.required [""])
  | .property => some (optionalParams ["fget", "fset", "fdel", "doc"])
  | .module => some [(.required "name", none), (.optional "doc", some .absent)]
  | _ => none

variable (m : Machine)

/-- Writes what a frozen object holds. -/
def fill (v : Value) : Fields Value → Act Unit
  | [] => pure ()
  | (n, x) :: fs => do
    writeDirect m v n x
    fill v fs

def contract (v test d : Value) : Act Unit := fill m v [("_test", test), ("_description", d)]

def signature (v params input ret : Value) : Act Unit := do
  fill m v [("_params", ← newTuple (← iterate m params)), ("_input", input), ("_ret", ret)]
  if !(← get).isA v .signature then refuse .typeError
  let i ← formatted m (← m.read input "description")
  let r ← formatted m (← m.read ret "description")
  contract m v (.operation .functionTest) (.str (i ++ " -> " ++ r))

/-- Gives an exception the arguments that it was made with. -/
def setArguments (v : Value) (args : List Value) : Act Unit := do
  match v with
  | .ref r => update r fun o => match o.body with
    | .exception _ report => { o with body := .exception args report }
    | _ => o
  | _ => pure ()

/-- An error keeps its parts as attributes and its message as its argument. -/
def error (v : Value) (c : BuiltinClass) (f : Fault) : Act Unit := do
  Wrapper.writeAll m v f.fields
  if !(← get).isA v c then refuse .typeError
  setArguments v [.str (f.message?.getD "")]

def setBody (v : Value) (b : Body) : Act Unit := do
  match v with
  | .ref r => update r fun o => { o with body := b }
  | _ => pure ()

/-- The items of a container; one that was left out gives none. -/
def itemsGiven (x : Value) : Act (List Value) := if x = omitted then pure [] else iterate m x

/-- At most so many items at the end, where there is a bound. -/
def lastItems (most : Value) (xs : List Value) : Act (List Value) := do
  if most = omitted ∨ most = .absent then return xs
  let n ← asIndex m most
  if n < 0 then refuse .valueError else return xs.drop (xs.length - n.toNat)

/-- Initialises as a class with parameters does. -/
def ofParts (v : Value) (c : BuiltinClass) (args : List Value) : Act Unit := do
  match c, args with
  | .contract, [test, d] => contract m v test d
  | .signature, [params, input, ret] => signature m v params input ret
  | .matched, [x] => fill m v [("contract", x)]
  | .mismatched, [d, x] => fill m v [("description", d), ("value", x)]
  | .wrapper, [f, advice] | .classWrapper, [f, advice] => let _ ← Wrapper.initialise m v f advice []
  | .unboundWrapper, [f, advice, owner] =>
    if !(← get).isA v .unboundWrapper then refuse .typeError
    let _ ← Wrapper.initialise m v f advice [("owner", owner)]
  | .signatureCheck, [s, member] => let _ ← Signature.initialise m v s member
  | .contractViolation, [d, x] =>
    let text ← formatted m d
    error m v c (.violation d x text (← shortText m x))
  | .inputTypeError, [member, d, x] => error m v c (.input (← Signature.blame m member d x))
  | .signatureTypeError, [member, d, x] => error m v c (.member (← Signature.blame m member d x))
  | .outputTypeError, [member, d, x, reason] =>
    let reason ← formatted m reason
    error m v c (.output (← Signature.blame m member d x) reason)
  | .list, [x] =>
    setBody v (.list [])
    setBody v (.list (← itemsGiven m x))
  | .set, [x] =>
    setBody v (.set [])
    setBody v (.set (← Table.distinct m (← itemsGiven m x)))
  | .deque, [x, most] =>
    setBody v (.deque [])
    setBody v (.deque (← lastItems m most (← itemsGiven m x)))
  | .staticMethod, [f] => setBody v (.staticMethod f); setTitles f
  | .classMethod, [f] => setBody v (.classMethod f); setTitles f
  | .property, [f, g, h, _] => setBody v (.property (given f) (given g) (given h))
  | .module, [n, d] => if ((← get).text? n).isSome then putModule n d else refuse .typeError
  | _, _ => refuse .typeError
where
  given (x : Value) : Value := if x = omitted then .absent else x
  setTitles (f : Value) : Act Unit := do
    let titles ← Wrapper.copiedTitles m f Wrapper.titles
    match v with
    | .ref r => modify fun s => titles.foldl (fun s t => s.putAttr r t.1 t.2) s
    | _ => pure ()
  putModule (n d : Value) : Act Unit :=
    Wrapper.putFields v [("__name__", n), ("__doc__", d), ("__package__", .absent),
      ("__loader__", .absent), ("__spec__", .absent)]

/-- Adds the entries of a mapping, of pairs and of names to a table. -/
def extend (v : Value) (args : List Value) (named : Fields Value) : Act Unit := do
  let es ← match args with
    | [] => pure []
    | [x] => entriesOf m x
    | _ => refuse .typeError
  let es := es ++ named.map fun f => (Value.str f.1, f.2)
  let s ← get
  if s.isA v .orderedDict && s.overrides (s.classOf v) ["__setitem__"] then
    let _ ← each (fun e => Item.put m v e.1 e.2) es
  else match v, s.body? v with
    | .ref r, some (.table old) =>
      let new ← Table.putAll m old es
      update r fun o => { o with body := .table new }
    | _, _ => refuse .typeError

/-- Settings start again from what is given. -/
def settings (v : Value) (args : List Value) (named : Fields Value) : Act Unit := do
  if args ≠ [] then refuse .typeError
  let new ← Settings.build m named
  let fs := ((← get).attrs? new).getD []
  match v with
  | .ref r => update r fun o => { o with attrs := some fs, table := none }
  | _ => pure ()

/-- Whether instances of a class are made from nothing and have no initialiser of their own. -/
def isBare (c : BuiltinClass) : Bool :=
  c ∈ [.object, .root, .number, .complexNumber, .realNumber, .rationalNumber, .integral, .mapping,
    .callable]

/-- Arguments that nobody looks at are refused. -/
def refuseExcess (v : Value) (args : List Value) (named : Fields Value) : Act Unit := do
  let s ← get
  let c := s.classOf v
  if (args ≠ [] ∨ named ≠ []) ∧ (s.overrides c ["__init__"]
      ∨ (isBare (s.builtinBase c) ∧ !s.overrides c ["__new__"])) then refuse .typeError

/-- Initialises an object as the builtin class `c` does. -/
def run (c : BuiltinClass) (v : Value) (args : List Value) (named : Fields Value) : Act Unit := do
  match params c with
  | some ps =>
    let placed ← ofOption .typeError (ps.arguments args named)
    ofParts m v c (← each Argument.value placed)
  | none => match c with
    | .dict | .orderedDict => extend m v args named
    | .settings => settings m v args named
    | .attributeBag => if args = [] then Wrapper.putFields v named else refuse .typeError
    | _ =>
      if c.isException then
        let known := if .attributeError ∈ c.line then ["name", "obj"] else []
        if named.keys.all (· ∈ known) then setArguments v args else refuse .typeError
      else refuseExcess v args named

/-- Initialises an object as its class says. -/
def initialise (v : Value) (args : List Value) (named : Fields Value) : Act Unit := do
  let s ← get
  let c := s.classOf v
  match s.override? c "__init__" with
  | some f =>
    let result ← m.call (← m.bind f v c.value) args named
    if result ≠ .absent then refuse .typeError
  | none => run m (s.builtinBase c) v args named

end Start
end CallContracts
