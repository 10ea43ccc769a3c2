import CallContracts.Attribute.Computed
import CallContracts.Wrapper.Basic
/-! Binding: what a member of a class turns into when it is read from an instance or from the class.
No instance stands for reading it from the class. -/
namespace CallContracts
open Act

/-- A function reads as itself from its class and as a bound method from an instance. -/
def bindFunction (f inst : Value) : Act Value :=
  if inst = .absent then pure f else alloc { cls := .builtin .method, body := .bound f inst }

/-- A place in the instances of a class, read from one of them. -/
def readPlace (m : Machine) (r : Ref) (n : String) (sort : MemberSort) (v : Value) : Act Value := do
  let s ← get
  if !s.comesFrom (s.classOf v) (.defined r) then refuse .typeError
  if sort = .storage then ofOption .attributeError ((s.obj? v).bind fun o => o.slots.get? n)
  else computed m v .object n

/-- What a function of the library, or a member of a builtin class, is for an instance; `none` reads it
from the class. -/
def bindOperation (m : Machine) (o : Operation) (inst : Option Value) (owner : Value) : Act Value := do
  let v := Value.operation o
  match o, inst with
  | .length, _ | .absolute, _ | .fromEnvironment, _ | .member _ _ .fixed, _ => return v
  | .member _ _ .ofClass, _ => alloc { cls := .builtin .builtinFunction, body := .bound v owner }
  | .placeOf .., none | .member .., none => return v
  | .placeOf r n sort, some x => readPlace m r n sort x
  | .member c n sort, some x => match sort with
    | .method => alloc { cls := .builtin .builtinFunction, body := .bound v x }
    | .slot => alloc { cls := .builtin .methodWrapper, body := .bound v x }
    | .property => computed m x c n
    | .storage | .getter => if (← get).isA x c then computed m x c n else refuse .typeError
    | _ => bindFunction v x
  | _, some x => bindFunction v x
  | _, none => return v

/-- A class method binds the class; what it holds may have a binding of its own. -/
def bindClassMethod (m : Machine) (f inst owner : Value) : Act Value := do
  let s ← get
  let owner := if owner = .absent then (s.classOf inst).value else owner
  if s.binds f then m.bind f owner owner
  else alloc { cls := .builtin .method, body := .bound f owner }

/-- An object binds as its class says. -/
def bindObject (m : Machine) (v inst owner : Value) : Act Value := do
  let s ← get
  match s.classMember? (s.classOf v) "__get__" with
  | some (.operation (.member .wrapper ..)) => Wrapper.bind m v inst owner
  | some (.operation (.member .classWrapper ..)) => Wrapper.bindClass m v inst owner
  | some (.operation (.member .getterDescriptor ..)) | some (.operation (.member .memberDescriptor ..))
  | none => return v
  | some g => m.call g [v, inst, owner] []

/-- What the member `v` of class `owner` is for the instance `inst`, or for none. -/
def bindMember (m : Machine) (v inst owner : Value) : Act Value := do
  match v with
  | .operation o => bindOperation m o (if inst = .absent then none else some inst) owner
  | _ => match (← get).body? v with
    | none => return v
    | some (.function _) => bindFunction v inst
    | some (.staticMethod f) => return f
    | some (.classMethod f) => bindClassMethod m f inst owner
    | some (.property f _ _) =>
      if inst = .absent then return v
      else if f = .absent then refuse .attributeError
      else m.call f [inst] []
    | some (.cls _) => return v
    | some _ => bindObject m v inst owner

/-- A member as an instance sees it, which may be no value at all. -/
def bindTo (m : Machine) (member v owner : Value) : Act Value :=
  match member with
  | .operation o => bindOperation m o (some v) owner
  | _ => bindMember m member v owner

end CallContracts
