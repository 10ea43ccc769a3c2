import CallContracts.Class.Builtin
/-! Values.  The simple ones are themselves; a function of the library and a builtin class are known by
name; everything else is an object in the store and is known by its place, so that two references are
the same value exactly when they lead to the same object. -/
namespace CallContracts

abbrev Ref := Nat

/-- How a kind is seen by the contracts of primitive kinds. -/
inductive Kind where
  | undefined | null | boolean | number | string | function | object
  deriving DecidableEq, Repr

def Kind.name : Kind → String
  | undefined => "undefined" | null => "null" | boolean => "boolean" | number => "number"
  | string => "string" | function => "function" | object => "object"

/-- What a builtin class holds under a name: a function that binds, a function of the host, one of the
host's special functions, a function that binds nothing, one that binds the class, a computed attribute,
a storage place of its instances, or a host getter. -/
inductive MemberSort where
  | plain | method | slot | fixed | ofClass | property | storage | getter
  deriving DecidableEq, Repr

inductive Operation where
  | kindOf | isMatch | isMismatch | shortText | fromEnvironment
  | instanceOf | all | any | negate | maybe | array | seq | product | record | proc
  | test | contract | describeRecord | attach | sign | isSigned | around | wrap
  | length | absolute
  /-- The predicate of signatures. -/
  | functionTest
  /-- A member of a builtin class, not bound to an instance. -/
  | member (owner : BuiltinClass) (name : String) (sort : MemberSort)
  /-- A storage place or getter that a class of the program was given with its definition. -/
  | placeOf (owner : Ref) (name : String) (sort : MemberSort)
  deriving DecidableEq, Repr

inductive Value where
  | absent
  | undefined
  /-- What a comparison answers that leaves the decision to the other side. -/
  | notImplemented
  | bool (b : Bool)
  | int (i : Int)
  | str (s : String)
  | builtinClass (c : BuiltinClass)
  | operation (o : Operation)
  | ref (r : Ref)
  deriving DecidableEq, Repr

/-- A class: one of the builtin ones, or one that the program defined. -/
inductive ClassId where
  | builtin (c : BuiltinClass)
  | defined (r : Ref)
  deriving DecidableEq, Repr

def ClassId.value : ClassId → Value
  | .builtin c => .builtinClass c
  | .defined r => .ref r

instance : Inhabited Value := ⟨.absent⟩

namespace Operation

/-- The name that a function was defined with, after the path to it. -/
def title : Operation → String × String
  | kindOf => ("", "kind_of") | isMatch => ("", "is_match") | isMismatch => ("", "is_mismatch")
  | shortText => ("", "short_repr") | fromEnvironment => ("Settings.", "from_env")
  | instanceOf => ("", "inst") | all => ("", "and_") | any => ("", "or_") | negate => ("", "not_")
  | maybe => ("", "maybe") | array => ("", "array") | seq => ("", "seq")
  | product => ("", "product") | record => ("", "record") | proc => ("", "proc")
  | test => ("", "test") | contract => ("", "contract")
  | describeRecord => ("", "describe_record") | attach => ("", "add_signature")
  | sign => ("", "signed") | isSigned => ("", "is_signed") | around => ("", "around")
  | wrap => ("", "intercept") | length => ("", "len") | absolute => ("", "abs")
  | functionTest => ("", "_is_function")
  | member c n _ => (c.name ++ ".", n)
  | placeOf _ n _ => ("", n)

def name (o : Operation) : String := o.title.2
def path (o : Operation) : String := o.title.1 ++ o.title.2

/-- The module a function belongs to. -/
def home : Operation → String
  | kindOf | fromEnvironment => "pacta.core.config"
  | isMatch | isMismatch => "pacta.core.result"
  | shortText => "pacta.errors"
  | instanceOf => "pacta.atoms"
  | functionTest => "pacta.core.contract"
  | all | any | negate | maybe | array | seq | product | record | proc | describeRecord =>
    "pacta.combinators"
  | test | contract => "pacta.checks"
  | attach | sign | isSigned => "pacta.signature"
  | around | wrap => "pacta.aop"
  | length | absolute => "builtins"
  | member c _ _ => c.home
  | placeOf .. => "m"

/-- The class of the function itself. -/
def ownClass : Operation → BuiltinClass
  | length | absolute => .builtinFunction
  | fromEnvironment => .method
  | placeOf _ _ .storage => .memberDescriptor
  | placeOf .. => .getterDescriptor
  | member _ _ .plain => .function
  | member _ _ .method => .methodDescriptor
  | member _ _ .slot => .slotWrapper
  | member _ _ .fixed => .builtinFunction
  | member _ _ .ofClass => .classMethodDescriptor
  | member _ _ .property => .property
  | member _ _ .storage => .memberDescriptor
  | member _ _ .getter => .getterDescriptor
  | _ => .function

end Operation
end CallContracts
