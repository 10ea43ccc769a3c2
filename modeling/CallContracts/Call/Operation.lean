import CallContracts.Call.Member
import CallContracts.Signature.Attach
/-! Calling the functions of the library: what they take, and what they do with it. -/
namespace CallContracts
open Act

namespace Operation

/-- The parameters of a function that is no member of a class. -/
def params : Operation → Params
  | .kindOf | .shortText | .functionTest => .required ["value"]
  | .isMatch | .isMismatch => .required ["result"]
  | .fromEnvironment => [(.optional "environ", some .absent)]
  | .instanceOf => .required ["cls"]
  | .all | .any | .test | .contract | .seq => [(.rest "contracts", none)]
  | .proc => [(.rest "types", none)]
  | .negate | .maybe => .required ["contract"]
  | .array => [(.optional "contract", some .absent)]
  | .product => .required ["contracts"]
  | .record | .describeRecord => .required ["shape"]
  | .attach => .required ["signatures", "target"]
  | .sign => .required ["signature"]
  | .isSigned => .required ["func"]
  | .around => .required ["target", "name", "advice"]
  | .wrap => .required ["func", "advice"]
  | .length | .absolute | .member .. | .placeOf .. => .required [""]

variable (m : Machine)

/-- A function that the library makes. -/
def newFunction (name path home : String) (code : Code) : Act Value :=
  alloc { cls := .builtin .function
          body := .function ⟨name, path, .str home, .absent, code⟩, attrs := some [] }

/-- A function that applies a positional contract to an argument list. -/
def checker (vs : List Value) (strict : Bool) : Act Value := do
  let v ← Contract.productOf m (← Contract.allChecked m vs)
  let c ← ofOption .typeError ((← get).contract? v)
  let maker := if strict then "contract" else "test"
  newFunction "check" (maker ++ ".<locals>.check") "pacta.checks" (.checker c strict)

/-- A function that wraps what it is given with checks of the signature. -/
def signer (signature : Value) : Act Value := do
  if ← isSignature m signature then
    newFunction "decorator" "signed.<locals>.decorator" "pacta.signature" (.signer signature)
  else fail (.misconfigured (.notSignature (← shown m signature)))

def apply : Operation → List Argument → Act Value
  | .kindOf, [.one v] => do return .str (← CallContracts.kindOf m v).name
  | .functionTest, [.one v] => do return .bool ((← CallContracts.kindOf m v) = .function)
  | .isMatch, [.one v] => do return .bool (← isKind m v .matched)
  | .isMismatch, [.one v] => do return .bool (← isKind m v .mismatched)
  | .shortText, [.one v] => do return .str (← CallContracts.shortText m v)
  | .fromEnvironment, [.one v] => Settings.fromEnvironment m v
  | .instanceOf, [.one c] => Contract.ofInstances m c
  | .all, [.rest vs] => Contract.all m vs
  | .any, [.rest vs] => Contract.any m vs
  | .negate, [.one v] => Contract.negate m v
  | .maybe, [.one v] => Contract.maybe m v
  | .array, [.one v] => Contract.array m v
  | .seq, [.rest vs] => Contract.seq m vs
  | .product, [.one v] => Contract.product m v
  | .record, [.one v] => Contract.record m v
  | .proc, [.rest vs] => Contract.proc m vs
  | .test, [.rest vs] => checker m vs false
  | .contract, [.rest vs] => checker m vs true
  | .describeRecord, [.one v] => Contract.describeRecord m v
  | .attach, [.one signatures, .one target] => Signature.attach m signatures target
  | .sign, [.one v] => signer m v
  | .isSigned, [.one v] => do return .bool (← Signature.isSigned m v)
  | .around, [.one target, .one n, .one advice] => Wrapper.install m target n advice
  | .wrap, [.one f, .one advice] => Wrapper.around m f advice
  | .length, [.one v] => do return .int (← lengthOf m v)
  | .absolute, [.one v] => Numbers.absolute m v
  | _, _ => refuse .typeError

/-- Whether the class `c` makes the instances of the class `d` itself. -/
def makes (s : Store) (c : BuiltinClass) (d : ClassId) : Bool :=
  if c.isException || c.isOpen then s.comesFrom d (.builtin c)
  else (s.builtinLine d).find? (fun b => !b.isOpen && ("__new__", .fixed) ∈ b.ownMembers) = some c

/-- Makes an instance that no initialiser has seen, as the class `c` does. -/
def newInstance (c : BuiltinClass) (cls : Value) (args : List Value) (named : Fields Value) :
    Act Value := do
  let s ← get
  match s.class? cls with
  | some d => if makes s c d then Construct.create m d args named else refuse .typeError
  | none => refuse .typeError

/-- Calls a member of a builtin class, which is not bound. -/
def callMember (c : BuiltinClass) (n : String) (sort : MemberSort) (args : List Value)
    (named : Fields Value) : Act Value :=
  match sort, args with
  | .plain, _ => Member.call m c n args named
  | .slot, v :: args => Special.apply m c n v args named
  | .method, v :: args => Method.call m c n v args named
  | .ofClass, cls :: args =>
    if named = [] then Method.callOfClass m c n cls args else refuse .typeError
  | .fixed, cls :: args => if n = "__new__" then newInstance m c cls args named else refuse .typeError
  | _, _ => refuse .typeError

/-- Calls a function of the library with the arguments of a call. -/
def call (o : Operation) (args : List Value) (named : Fields Value) : Act Value := do
  match o with
  | .member c n sort => callMember m c n sort args named
  | _ => apply m o (← ofOption .typeError (o.params.arguments args named))

/-- The single argument of a function with one parameter. -/
def single (n : String) (args : List Value) (named : Fields Value) : Act Value := do
  match Params.arguments (.required [n]) args named with
  | some [.one v] => return v
  | _ => refuse .typeError

/-- Applies a check to an argument list: the strict one raises where the other answers false. -/
def runChecker (c : Contract) (strict : Bool) (v : Value) : Act Value := do
  if ← c.rule.holds m v then return .bool true
  else if strict then
    let d := c.description
    fail (.violation d v (← formatted m d) (← CallContracts.shortText m v))
  else return .bool false

end Operation

/-- Calls a function, whatever it was made to do. -/
def Code.call (m : Machine) (args : List Value) (named : Fields Value) : Code → Act Value
  | .closure c => c.call m args named
  | .predicate t => do return .bool (← t.holds m (← Operation.single "value" args named))
  | .checker c strict => do Operation.runChecker m c strict (← Operation.single "args" args named)
  | .signer signature => do Signature.sign m signature (← Operation.single "func" args named)

end CallContracts
