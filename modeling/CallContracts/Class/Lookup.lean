import CallContracts.Class.Line
/-! What members of classes are before they are bound: which come before the own attributes of an
instance, and which bind at all. -/
namespace CallContracts.Store

/-- A member that is asked before the own attributes of an instance. -/
def isDataMember (s : Store) (v : Value) : Bool :=
  match v with
  | .operation (.member _ _ sort) => sort = .property || sort = .storage || sort = .getter
  | .operation (.placeOf ..) => true
  | _ => s.isA v .property || s.overrides (s.classOf v) ["__set__", "__delete__"]

/-- Whether the class of a value says how the value binds. -/
def binds (s : Store) (v : Value) : Bool := (s.classMember? (s.classOf v) "__get__").isSome

/-- Follows bound methods to the function that they bind. -/
def unbound (s : Store) : Nat → Value → Value
  | 0, v => v
  | n + 1, v => match s.body? v with
    | some (.bound f _) => s.unbound n f
    | _ => v

/-- The attributes that a wrapper of the value takes over: its own table, or that of its function. -/
def tableOf (s : Store) (v : Value) : Fields Value :=
  match s.unbound s.heap.size v with
  | .builtinClass c => c.table
  | w => (s.attrs? w).getD []

/-- Whether only the class of a value can tell what table of attributes the value has. -/
def hidesTable (s : Store) (v : Value) : Bool :=
  let c := s.classOf v
  (match s.override? c "__dict__" with
    | none | some (.operation (.placeOf ..)) => false
    | some _ => true)
  || s.overrides c ["__getattribute__"]
  || ((s.attrs? v).isNone && !s.isClass v && s.overrides c ["__getattr__"])

/-- Whether nothing comes before what the builtin ancestor of a value says about an attribute. -/
def isNative (s : Store) (v : Value) (n : String) : Bool :=
  !s.overrides (s.classOf v) [n, "__getattribute__"] && (s.attr? v n).isNone

end CallContracts.Store
