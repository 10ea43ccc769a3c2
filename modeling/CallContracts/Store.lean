import CallContracts.Answer
import CallContracts.Contract.Basic
import CallContracts.Expr
import CallContracts.Fault
import CallContracts.Numeral.Decimal
/-! The store: objects by place, the variables of the program, and the two records of a run.  An object
keeps its place for good; new ones are put at the end. -/
namespace CallContracts

/-- Values that have no parts and do not change. -/
inductive Scalar where
  | float (x : Numeral.Double)
  | complex (re im : Numeral.Double)
  | decimal (x : Numeral.Decimal)
  | fraction (x : Numeral.Ratio)
  | bytes (octets : List Nat)
  | date (year month day : Nat)
  | datetime (year month day hour minute second microsecond : Nat)
  | regex (pattern : String) (flags : List Char)
  deriving DecidableEq, Repr

/-- What the program wrote for a function: its parameters with the defaults they have, and where it was
made.  Complaints about arguments use the title that the definition gave. -/
structure Closure where
  title : String
  params : List (Param × Option Value)
  body : Expr
  scope : Fields Value

/-- What a function does.  A checker applies a contract to an argument list, and raises, if it is strict,
where the other returns false; a signer wraps what it is given with checks of a signature. -/
inductive Code where
  | closure (c : Closure)
  | predicate (rule : Rule)
  | checker (c : Contract) (strict : Bool)
  | signer (signature : Value)

/-- A function and its titles, which can be rewritten. -/
structure Function where
  name : String
  path : String
  home : Value
  doc : Value := .absent
  code : Code

/-- How much of an exception an answer tells. -/
inductive Report where
  | quiet
  | message
  | fields (fs : List FieldFault)
  deriving DecidableEq, Repr

/-- The parts of a signature: parameter contracts, input contract and return contract. -/
structure Parts where
  params : Value
  input : Value
  ret : Value
  deriving DecidableEq, Repr

/-- What an iteration over a table gives. -/
inductive Part where
  | keys | values | items
  deriving DecidableEq, Repr

/-- Where entries that can change are found: those of a table, or the attributes of an object. -/
inductive Source where
  | entries (v : Value)
  | attributes (v : Value)
  deriving DecidableEq, Repr

/-- An iteration under way.  One over a list looks at a position of the list as it is then; one over
entries knows how many there have to be, which it has given, and how many more it expects; an ordered
one has fixed what comes next. -/
inductive Cursor where
  | fixed (xs : List Value)
  | list (r : Ref) (position : Nat)
  | deque (r : Ref) (position size : Nat)
  | entries (part : Part) (source : Source) (size : Nat) (given : List Value) (left : Nat)
  | ordered (part : Part) (v : Value) (keys : List Value) (next : Option Value)
  /-- Items by position, until there is none. -/
  | positions (v : Value) (position : Nat)
  /-- The keys of a mapping of the program, with or without what it holds under them. -/
  | mapped (part : Part) (v : Value) (keys : Cursor)
  /-- What the program itself steps through. -/
  | stepped (v : Value)

/-- A class of the program.  `slots` are the storage places it adds, `tabled` tells whether its instances
have a table of their own; the path to it can differ from its name. -/
structure ClassInfo where
  name : String
  path : String
  base : ClassId
  slots : List String
  tabled : Bool

inductive Body where
  | plain
  | scalar (s : Scalar)
  | list (xs : List Value)
  | tuple (xs : List Value)
  | deque (xs : List Value)
  | set (xs : List Value)
  | table (entries : List (Value × Value))
  /-- A table that can be read only: one of the program, or the members of a class. -/
  | proxy (of : Value)
  | view (part : Part) (of : Value)
  | iterator (c : Cursor)
  | function (f : Function)
  | bound (f self : Value)
  | partialCall (f : Value) (args : List Value) (named : Fields Value)
  | staticMethod (f : Value)
  | classMethod (f : Value)
  | property (get set delete : Value)
  | contract (c : Contract) (test : Value) (parts : Option Parts)
  | exception (args : List Value) (report : Report)
  | cls (info : ClassInfo)
  /-- A simple value as an instance of a class of the program. -/
  | boxed (v : Value)

/-- An object: its class, what it is, its own attributes if it can have any, and its storage places.
Once a program asked for the attributes as a table, that table holds them. -/
structure Obj where
  cls : ClassId
  body : Body
  attrs : Option (Fields Value) := none
  slots : Fields Value := []
  table : Option Ref := none

structure Store where
  heap : Array Obj := #[]
  globals : Fields Value := []
  log : List String := []
  trace : List Answer := []

namespace Store

def get? (s : Store) (r : Ref) : Option Obj := s.heap[r]?

def obj? (s : Store) : Value → Option Obj
  | .ref r => s.get? r
  | _ => none

def body? (s : Store) (v : Value) : Option Body := (s.obj? v).map Obj.body

def alloc (s : Store) (o : Obj) : Ref × Store := (s.heap.size, { s with heap := s.heap.push o })

/-- Rewrites one object. -/
def update (s : Store) (r : Ref) (f : Obj → Obj) : Store := { s with heap := s.heap.modify r f }

@[simp] theorem alloc_fst (s : Store) (o : Obj) : (s.alloc o).1 = s.heap.size := rfl
theorem get?_alloc_self (s : Store) (o : Obj) : (s.alloc o).2.get? (s.alloc o).1 = some o := by
  simp [alloc, get?]
theorem get?_alloc_of_lt (s : Store) (o : Obj) {r : Ref} (h : r < s.heap.size) :
    (s.alloc o).2.get? r = s.get? r := by
  simp [alloc, get?, Array.getElem?_push, Nat.ne_of_lt h]
@[simp] theorem size_alloc (s : Store) (o : Obj) :
    (s.alloc o).2.heap.size = s.heap.size + 1 := by simp [alloc]

@[simp] theorem size_update (s : Store) (r : Ref) (f : Obj → Obj) :
    (s.update r f).heap.size = s.heap.size := by simp [update]
theorem get?_update_self (s : Store) (r : Ref) (f : Obj → Obj) :
    (s.update r f).get? r = (s.get? r).map f := by
  simp [update, get?, Array.getElem?_modify]
theorem get?_update_ne (s : Store) {r q : Ref} (f : Obj → Obj) (h : q ≠ r) :
    (s.update r f).get? q = s.get? q := by
  simp [update, get?, Array.getElem?_modify, Ne.symm h]

def contract? (s : Store) (v : Value) : Option Contract :=
  match s.body? v with
  | some (.contract c _ _) => some c
  | _ => none

def parts? (s : Store) (v : Value) : Option Parts :=
  match s.body? v with
  | some (.contract _ _ p) => p
  | _ => none

def function? (s : Store) (v : Value) : Option Function :=
  match s.body? v with
  | some (.function f) => some f
  | _ => none

def classInfo? (s : Store) (r : Ref) : Option ClassInfo :=
  match s.get? r with
  | some ⟨_, .cls info, _, _, _⟩ => some info
  | _ => none

/-- The entries whose keys are names. -/
def namedEntries (es : List (Value × Value)) : Fields Value :=
  es.filterMap fun | (.str n, v) => some (n, v) | _ => none

/-- Writes under a name; a present one keeps its place. -/
def putNamed (n : String) (v : Value) : List (Value × Value) → List (Value × Value)
  | [] => [(.str n, v)]
  | (k, w) :: es => if k = .str n then (k, v) :: es else (k, w) :: putNamed n v es

def eraseNamed (n : String) : List (Value × Value) → List (Value × Value)
  | [] => []
  | (k, w) :: es => if k = .str n then es else (k, w) :: eraseNamed n es

def tableEntries (s : Store) (r : Ref) : List (Value × Value) :=
  match s.get? r with
  | some ⟨_, .table es, _, _, _⟩ => es
  | _ => []

/-- The attributes that an object holds, wherever they are kept. -/
def attrsOf (s : Store) (o : Obj) : Option (Fields Value) :=
  match o.table with
  | some t => some (namedEntries (s.tableEntries t))
  | none => o.attrs

def attrs? (s : Store) (v : Value) : Option (Fields Value) := (s.obj? v).bind s.attrsOf

def attr? (s : Store) (v : Value) (n : String) : Option Value := (s.attrs? v).bind (·.get? n)

/-- Rewrites the own attributes of the object at `r`, wherever they are kept. -/
def updateAttrs (s : Store) (r : Ref) (inFields : Fields Value → Fields Value)
    (inTable : List (Value × Value) → List (Value × Value)) : Store :=
  match (s.get? r).bind Obj.table with
  | some t => s.update t fun o => match o.body with
    | .table es => { o with body := .table (inTable es) }
    | _ => o
  | none => s.update r fun o => { o with attrs := o.attrs.map inFields }

def putAttr (s : Store) (r : Ref) (n : String) (x : Value) : Store :=
  s.updateAttrs r (·.put n x) (putNamed n x)

def eraseAttr (s : Store) (r : Ref) (n : String) : Store :=
  s.updateAttrs r (·.erase n) (eraseNamed n)

@[simp] theorem attrsOf_own (s : Store) (o : Obj) (h : o.table = none) : s.attrsOf o = o.attrs := by
  simp [attrsOf, h]

end Store
end CallContracts
