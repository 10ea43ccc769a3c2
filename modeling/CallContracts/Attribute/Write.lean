import CallContracts.Attribute.Read
import CallContracts.Class.Layout
/-! Writing attributes.  Contracts refuse every assignment; results are frozen; settings take their own
names only; a class takes anything unless it is builtin.  A class of the program may write for its
instances itself. -/
namespace CallContracts
open Act

def putOwn (v : Value) (n : String) (x : Value) : Act Unit := do
  match v, (← get).attrs? v with
  | .ref r, some _ => modify (·.putAttr r n x)
  | _, _ => refuse .attributeError

/-- Writes to a storage place; a contract is taken apart by it. -/
def putSlot (v : Value) (n : String) (x : Value) : Act Unit := do
  match v with
  | .ref r =>
    modify (·.loosen r)
    update r fun o => { o with slots := o.slots.put n x }
  | _ => refuse .attributeError

/-- Makes a table the attributes of an object. -/
def setTable (v x : Value) : Act Unit := do
  let s ← get
  match v, x, (s.attrs? v).isSome, s.isA x .dict with
  | .ref r, .ref t, true, true => update r fun o => { o with table := some t }
  | _, _, true, false => refuse .typeError
  | _, _, _, _ => refuse .attributeError

/-- Makes an object an instance of another class. -/
def setClass (v x : Value) : Act Unit := do
  let s ← get
  let old := s.classOf v
  let new ← ofOption .typeError (s.class? x)
  match v, Store.isFixed old || Store.isFixed new || !s.sameLayout old new with
  | .ref r, false =>
    modify (·.loosen r)
    update r fun o => { o with cls := new }
  | _, _ => refuse .typeError

def updateFunction (r : Ref) (g : Function → Function) : Act Unit :=
  update r fun o => match o.body with
    | .function f => { o with body := .function (g f) }
    | _ => o

/-- The titles of a function; its name and the path to it are texts. -/
def setTitle (r : Ref) (n : String) (x : Value) : Act Unit := do
  let s ← get
  match n, s.text? x with
  | "__name__", some t => updateFunction r fun f => { f with name := t }
  | "__qualname__", some t => updateFunction r fun f => { f with path := t }
  | "__doc__", _ => updateFunction r fun f => { f with doc := x }
  | "__module__", _ => updateFunction r fun f => { f with home := x }
  | "__annotations__", _ =>
    if x = .absent then update r fun o => { o with slots := o.slots.erase n }
    else if s.isA x .dict then update r fun o => { o with slots := o.slots.put n x }
    else refuse .typeError
  | "__closure__", _ | "__globals__", _ | "__builtins__", _ => refuse .attributeError
  | _, _ => refuse .typeError

/-- The classes whose instances take another table of attributes. -/
def givesTable (c : BuiltinClass) : Bool :=
  c ∈ [.undefined, .matched, .mismatched, .settings, .wrapper, .signatureCheck, .function,
    .baseException, .partialCall, .staticMethod, .classMethod]

/-- An attribute that a builtin class computes or stores. -/
def writePart (m : Machine) (v : Value) (c : BuiltinClass) (n : String) (x : Value) : Act Unit := do
  if n = "__class__" then setClass v x
  else if n = "__dict__" then if givesTable c then setTable v x else refuse .attributeError
  else match c, v with
    | .contract, _ | .signature, _ => putSlot v n x
    | .function, .ref r => setTitle r n x
    | .baseException, .ref r =>
      if n = "args" then
        let args ← iterate m x
        update r fun o => match o.body with
          | .exception _ report => { o with body := .exception args report }
          | _ => o
      else if x ≠ .absent then refuse .typeError
    | _, _ => refuse .attributeError

/-- A place in the instances of a class of the program. -/
def writePlace (owner : Ref) (n : String) (sort : MemberSort) (v x : Value) : Act Unit := do
  let s ← get
  if !s.comesFrom (s.classOf v) (.defined owner) then refuse .typeError
  else if sort = .storage then putSlot v n x
  else if n = "__dict__" then setTable v x
  else refuse .attributeError

/-- Writes through a member of the class that is asked before the own attributes. -/
def writeMember (m : Machine) (v x member : Value) : Act Unit := do
  let s ← get
  match member, s.body? member with
  | .operation (.placeOf owner n sort), _ => writePlace owner n sort v x
  | .operation (.member c n sort), _ =>
    if sort = .property then refuse .attributeError
    else if s.isA v c then writePart m v c n x
    else refuse .typeError
  | _, some (.property _ set _) =>
    if set = .absent then refuse .attributeError
    let _ ← m.call set [v, x] []
  | _, _ =>
    let g ← ofOption .attributeError (s.override? (s.classOf member) "__set__")
    let _ ← callSpecial m member g [v, x]

def writeInstance (m : Machine) (v : Value) (n : String) (x : Value) : Act Unit := do
  let s ← get
  match s.classMember? (s.classOf v) n with
  | some member => if s.isDataMember member then writeMember m v x member else putOwn v n x
  | none => putOwn v n x

/-- What a class tells about itself and nobody can change. -/
def fixedTitles : List String :=
  ["__dict__", "__mro__", "__base__", "__basicsize__", "__itemsize__", "__flags__", "__weakrefoffset__",
    "__dictoffset__", "__text_signature__"]

/-- Gives a class another base, where instances stay as they are. -/
def setBase (m : Machine) (r : Ref) (x : Value) : Act Unit := do
  let s ← get
  match s.body? x, s.classInfo? r with
  | some (.tuple [b]), some info =>
    let new ← ofOption .typeError (s.class? b)
    if s.comesFrom new (.defined r) || !s.sameLayout info.base new then refuse .typeError
    update r fun o => { o with body := .cls { info with base := new } }
  | _, _ => let _ ← iterate m x; refuse .typeError

/-- A class takes anything; its name and the path to it have to be texts. -/
def writeClass (m : Machine) (v : Value) (c : ClassId) (n : String) (x : Value) : Act Unit := do
  let s ← get
  match c, s.override? (s.classOf v) n with
  | .builtin _, _ => refuse .typeError
  | .defined r, above =>
    let rename (g : ClassInfo → String → ClassInfo) : Act Unit := do
      let t ← ofOption .typeError (s.text? x)
      update r fun o => match o.body with
        | .cls info => { o with body := .cls (g info t) }
        | _ => o
    if s.isDataMember (above.getD .absent) then writeMember m v x (above.getD .absent)
    else if above.isSome then putOwn v n x
    else if n = "__name__" then rename fun info t => { info with name := t }
    else if n = "__qualname__" then rename fun info t => { info with path := t }
    else if n = "__class__" then setClass v x
    else if n = "__bases__" then setBase m r x
    else if n ∈ fixedTitles then refuse .attributeError
    else putOwn v n x

def settingNames : List String := ["repr_limit", "allow_keywords", "anonymous_suffix"]

/-- Results take no new fields, and those of a class of the program keep the fields that they have. -/
def Store.isFrozen (s : Store) (v : Value) (n : String) : Bool :=
  s.classOf v = .builtin .matched || s.classOf v = .builtin .mismatched
    || (s.isA v .matched && n = "contract") || (s.isA v .mismatched && n ∈ ["description", "value"])

/-- Writes as the builtin ancestor of the class does. -/
def writeNative (m : Machine) (v : Value) (n : String) (x : Value) : Act Unit := do
  let s ← get
  match s.class? v with
  | some c => writeClass m v c n x
  | none =>
    if s.isA v .contract then fail (.immutable (s.typeName v))
    else if s.isFrozen v n then refuse .frozenInstanceError
    else if s.isA v .settings && n ∉ settingNames && n.toList.head? ≠ some '_' then refuse .valueError
    else writeInstance m v n x

def writeAttribute (m : Machine) (v : Value) (n : String) (x : Value) : Act Unit := do
  let s ← get
  match s.override? (s.classOf v) "__setattr__" with
  | some f => let _ ← callSpecial m v f [.str n, x]
  | none => writeNative m v n x

/-- Writes whatever the class says; classes themselves are not written to in this way. -/
def writeDirect (m : Machine) (v : Value) (n : String) (x : Value) : Act Unit := do
  if (← get).isClass v then refuse .typeError else writeInstance m v n x

def setAttribute (m : Machine) (v name x : Value) : Act Unit := do m.write v (← attributeName name) x

end CallContracts
