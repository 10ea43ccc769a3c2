import CallContracts.Answer.OfValue
import CallContracts.Attribute.Delete
import CallContracts.Expr.Make
import CallContracts.Expr.Operator
import CallContracts.Library
/-! Evaluation.  Parts are evaluated from left to right, except that an item is assigned to after its new
value was computed.  A name stands for a parameter of an enclosing function or else for a variable of
the program as it is at that moment. -/
namespace CallContracts
open Act

def lookupVariable (scope : Fields Value) (n : String) : Act Value := do
  match scope.get? n with
  | some v => return v
  | none => ofOption (.refused .unbound) ((← get).globals.get? n)

/-- Parameters with the defaults that their definitions give. -/
def withDefaults : List Param → List Value → List (Param × Option Value)
  | [], _ => []
  | .optional n :: ps, d :: ds => (.optional n, some d) :: withDefaults ps ds
  | p :: ps, ds => (p, none) :: withDefaults ps ds

def recordTrace (m : Machine) (v : Value) : Act Value := do
  let a ← Answer.ofValue m v
  modify fun s => { s with trace := s.trace ++ [a] }
  return v

/-- Named arguments with those of a table written over them. -/
def mergeNamed (m : Machine) (given : Fields Value) : Option Value → Act (Fields Value)
  | none => pure given
  | some v => do return given.putAll (← namedOf m v)

/-- A function as it was written, where it was written. -/
def newFunction (name : String) (doc : Option String) (c : Closure) : Act Value :=
  alloc { cls := .builtin .function
          body := .function ⟨name, name, .str "m", (doc.map Value.str).getD .absent, .closure c⟩
          attrs := some [] }

/-- A class that the program writes has at most one base. -/
def defineClass (m : Machine) (name : String) (members : Fields Value) (bases : List Value) :
    Act Value := do
  let base ← match bases with
    | [] => pure (ClassId.builtin .root)
    | b :: _ => ofOption .typeError ((← get).class? b)
  let start : Fields Value := [("__module__", .str "m")]
  Define.cls m (.builtin .type) name (start.putAll members) base

/-- An instance that no initialiser has seen, with attributes. -/
def newInstance (m : Machine) (cls : Value) (attrs : List (Value × Value)) : Act Value := do
  let v ← Make.fresh (← ofOption .typeError ((← get).class? cls))
  let fs ← named attrs
  let _ ← each (fun f => writeDirect m v f.1 f.2) fs
  return v

mutual
def Expr.eval (m : Machine) (scope : Fields Value) : Expr → Act Value
  | .absent => pure .absent
  | .undefined => pure .undefined
  | .bool b => pure (.bool b)
  | .int i => pure (.int i)
  | .str t => pure (.str t)
  | .float t => do Make.newFloat (← Make.float t.toList)
  | .complex re im => do
    let x ← Make.float re.toList
    Make.newComplex x (← Make.float im.toList)
  | .decimal t => do Make.newDecimal (← Make.decimal t.toList)
  | .fraction n d => Make.fraction n d
  | .bytes octets => newScalar .bytes (.bytes octets)
  | .date parts => Make.date parts
  | .datetime parts => Make.datetime parts
  | .regex p flags => Make.regex p flags
  | .sequence sort items => do Make.sequence m sort (← evalAll m scope items)
  | .table sort entries => do Make.table m sort (← evalPairs m scope entries)
  | .bag entries => do Make.bag (← evalPairs m scope entries)
  | .module name entries => do Make.module (.str name) (← evalPairs m scope entries)
  | .builtin name => ofOption (.refused .attributeError) (Library.builtin? name)
  | .builtinClass name =>
    ofOption (.refused .attributeError) ((BuiltinClass.named? name).map Value.builtinClass)
  | .library name => ofOption (.refused .attributeError) (Library.value? name)
  | .partialCall f args => do
    let g ← f.eval m scope
    Make.partialCall g (← evalAll m scope args) []
  | .variable n => lookupVariable scope n
  | .attribute e n => do m.read (← e.eval m scope) n
  | .setAttribute e n value => do
    let v ← e.eval m scope
    let x ← value.eval m scope
    m.write v n x
    return .absent
  | .deleteAttribute e n => do
    deleteAttribute m (← e.eval m scope) n
    return .absent
  | .item e key => do
    let v ← e.eval m scope
    let k ← key.eval m scope
    Item.get m v k
  | .setItem e key value => do
    let x ← value.eval m scope
    let v ← e.eval m scope
    let k ← key.eval m scope
    Item.put m v k x
    return .absent
  | .call f args star named doubleStar => do
    let g ← f.eval m scope
    let xs ← evalAll m scope args
    let rest ← match ← evalOption m scope star with
      | some v => iterate m v
      | none => pure []
    let ns ← evalNamed m scope named
    let ns ← mergeNamed m (Fields.putAll [] ns) (← evalOption m scope doubleStar)
    m.call g (xs ++ rest) ns
  | .function name params defaults body doc => do
    let ds ← evalAll m scope defaults
    newFunction name doc ⟨name, withDefaults params ds, body, scope⟩
  | .steps es => do return (← evalAll m scope es).getLastD .absent
  | .ifThenElse c yes no => do
    let v ← c.eval m scope
    if ← truth m v then yes.eval m scope else no.eval m scope
  | .log e => do recordTrace m (← e.eval m scope)
  | .raise kind message => fail (Make.raised kind message)
  | .attempt e => Make.attempt (e.eval m scope)
  | .operator o args => do Operators.apply m o (← evalAll m scope args)
  | .classDef name members bases => do
    let ms ← evalNamed m scope members
    let bs ← evalAll m scope bases
    defineClass m name (Fields.putAll [] ms) bs
  | .new cls attrs => do
    let c ← cls.eval m scope
    newInstance m c (← evalPairs m scope attrs)
  | .staticMethod f => do Wrapper.staticMethod m (← f.eval m scope)
  | .classMethod f => do Wrapper.classMethod m (← f.eval m scope)
  | .property f => do
    let g ← f.eval m scope
    alloc { cls := .builtin .property, body := .property g .absent .absent }
def evalAll (m : Machine) (scope : Fields Value) : List Expr → Act (List Value)
  | [] => pure []
  | e :: es => do
    let v ← e.eval m scope
    let vs ← evalAll m scope es
    return v :: vs
def evalPairs (m : Machine) (scope : Fields Value) : List (Expr × Expr) → Act (List (Value × Value))
  | [] => pure []
  | (k, e) :: es => do
    let n ← k.eval m scope
    let v ← e.eval m scope
    let vs ← evalPairs m scope es
    return (n, v) :: vs
def evalNamed (m : Machine) (scope : Fields Value) : List (String × Expr) → Act (Fields Value)
  | [] => pure []
  | (n, e) :: es => do
    let v ← e.eval m scope
    let vs ← evalNamed m scope es
    return (n, v) :: vs
def evalOption (m : Machine) (scope : Fields Value) : Option Expr → Act (Option Value)
  | none => pure none
  | some e => do return some (← e.eval m scope)
end

end CallContracts
