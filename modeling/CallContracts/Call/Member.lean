import CallContracts.Call.Method
import CallContracts.Call.Special
/-! What the classes of the library define for their instances, called by name.  These functions look at
the attributes of the object that they are given and do not ask for its class. -/
namespace CallContracts
open Act

namespace Member

/-- What a function takes after the object itself. -/
def params : BuiltinClass → String → Params
  | .contract, "run" => .required ["value"]
  | .wrapper, "__call__" => [(.rest "args", none), (.keywords "kwargs", none)]
  | .unboundWrapper, "__call__" =>
    [(.required "instance", none), (.rest "args", none), (.keywords "kwargs", none)]
  | .wrapper, "__get__" | .classWrapper, "__get__" =>
    [(.required "instance", none), (.optional "owner", some .absent)]
  | .signatureCheck, "__call__" => .required ["proceed", "args", "kwargs"]
  | .settings, "model_copy" | .settings, "copy" => [(.keywords "changes", none)]
  | .mapping, "get" => [(.required "key", none), (.optional "default", some .absent)]
  | .mapping, "__contains__" | .mapping, "__getitem__" => .required ["key"]
  | .keysOf, "__contains__" => .required ["key"]
  | .itemsOf, "__contains__" => .required ["item"]
  | .valuesOf, "__contains__" => .required ["value"]
  | _, "__setattr__" => .required ["name", "value"]
  | _, "__delattr__" => .required ["name"]
  | _, "__eq__" => .required ["other"]
  | _, _ => []

/-- The instance that a function is applied to, and what else it is given. -/
def selfAnd (args : List Value) (named : Fields Value) : Option (Value × List Value × Fields Value) :=
  match args, named.get? "self" with
  | v :: args, none => some (v, args, named)
  | [], some v => some (v, [], named.erase "self")
  | _, _ => none

variable (m : Machine)

/-- An object in the words of a class. -/
def text (c : BuiltinClass) (v : Value) : Act Value := do
  match v, (← get).obj? v with
  | .ref r, some o => return .str (String.ofList (← showPlain m (textAs m) c .quoted v r o))
  | _, _ => if c = .undefined then return .str "UNDEFINED" else refuse .attributeError

def ofContract (v : Value) : String → List Argument → Act Value
  | "run", [.one x] => Contract.runOn m v x
  | "__setattr__", [.one _, .one _] => do fail (.immutable ((← get).typeName v))
  | n, [] => m.read v ("_" ++ n)
  | _, _ => refuse .typeError

def resultFields (c : BuiltinClass) : List String :=
  if c = .matched then ["contract"] else ["description", "value"]

/-- Results keep the fields that they have, and those of this very class take no others. -/
def thawed (c : BuiltinClass) (v name : Value) : Act String := do
  let n ← attributeName name
  let s ← get
  if s.classOf v = .builtin c ∨ n ∈ resultFields c then refuse .frozenInstanceError
  else if s.isA v c then return n
  else refuse .typeError

def ofResult (c : BuiltinClass) (v : Value) : String → List Argument → Act Value
  | "__eq__", [.one x] => do return Special.decided (← resultsEqual m (same m) (resultFields c) v x)
  | "__hash__", [] => Special.hash m c v
  | "__setattr__", [.one n, .one x] => do
    writeDirect m v (← thawed c v n) x
    return .absent
  | "__delattr__", [.one n] => do
    deleteInstance m v (← thawed c v n)
    return .absent
  | _, _ => refuse .typeError

def ofSettings (v : Value) (n : String) (args : List Argument) : Act Value := do
  if !(← get).isA v .settings then refuse .attributeError
  match n, args with
  | "model_dump", [] | "dict", [] => Settings.asTable v
  | "model_copy", [.keywords named] | "copy", [.keywords named] => match named.get? "update" with
    | none | some .absent => Settings.copied v []
    | some changes => do Settings.copied v (← namedOf m changes)
  | "__repr__", [] => return .str (String.ofList (← nativeText m .quoted v))
  | "__str__", [] => return .str (String.ofList (← nativeText m .plain v))
  | "__eq__", [.one x] => return Special.decided (← settingsEqual (same m) (← get) v x)
  | "__iter__", [] => Special.iterator m v
  | "__setattr__", [.one n, .one x] =>
    writeNative m v (← attributeName n) x
    return .absent
  | "__delattr__", [.one n] =>
    deleteNative m v (← attributeName n)
    return .absent
  | _, _ => refuse .typeError

def ofMapping (v : Value) : String → List Argument → Act Value
  | "get", [.one k, .one d] => Method.mappingGet m v k d
  | "__contains__", [.one k] => do return .bool (← mappingContains m v k)
  | "__getitem__", [.one _] => refuse .keyError
  | "__eq__", [.one x] => do return Special.decided (← mappingsEqual m (same m) v x)
  | "keys", [] => Method.mappingView .keys v
  | "items", [] => Method.mappingView .items v
  | "values", [] => Method.mappingView .values v
  | _, _ => refuse .typeError

def ofView (v : Value) : String → List Argument → Act Value
  | "__contains__", [.one x] => do return .bool (← nativeContains m v x)
  | "__iter__", [] => Special.iterator m v
  | _, _ => refuse .typeError

def ofWrapper (v : Value) : String → List Argument → Act Value
  | "__call__", [.rest args, .keywords named] => Wrapper.call m v args named
  | "__call__", [.one inst, .rest args, .keywords named] => Wrapper.callUnbound m v inst args named
  | "__get__", [.one inst, .one owner] => Wrapper.bind m v inst owner
  | _, _ => refuse .typeError

def apply (c : BuiltinClass) (n : String) (v : Value) (args : List Argument) : Act Value := do
  match c, args with
  | .contract, _ | .signature, _ => if n = "__repr__" then text m c v else ofContract m v n args
  | .matched, _ | .mismatched, _ => if n = "__repr__" then text m c v else ofResult m c v n args
  | .settings, _ => ofSettings m v n args
  | .mapping, _ => ofMapping m v n args
  | .keysOf, _ | .valuesOf, _ | .itemsOf, _ => ofView m v n args
  | .classWrapper, [.one inst, .one owner] => Wrapper.bindClass m v inst owner
  | .signatureCheck, [.one proceed, .one args, .one named] => Signature.enforce m v proceed args named
  | _, _ =>
    if n = "__repr__" then text m c v
    else if n = "__bool__" then return .bool false
    else ofWrapper m v n args

/-- Calls what the class `c` defines as `n`. -/
def call (c : BuiltinClass) (n : String) (args : List Value) (named : Fields Value) : Act Value := do
  let (v, args, named) ← ofOption .typeError (selfAnd args named)
  if n = "__init__" then
    Start.run m c v args named
    return .absent
  else if c = .fraction then
    if n.toList.head? = some '_' then Special.apply m c n v args named
    else Method.call m c n v args named
  else apply m c n v (← ofOption .typeError ((params c n).arguments args named))

end Member
end CallContracts
