/-! The little language in which programs build values, call them and look at the outcome. -/
namespace CallContracts

inductive SequenceSort where
  | list | tuple | set | frozenset | deque
  deriving DecidableEq, Repr

inductive TableSort where
  | dict | ordered | proxy
  deriving DecidableEq, Repr

inductive Operator where
  | add | mul | neg | lt | plain | len | eq | is | not | bool | isInstance | callable | type
  | hashEq | hasAttribute | getAttribute | quoted
  deriving DecidableEq, Repr

/-- A parameter; the default of an optional one is kept apart. -/
inductive Param where
  | required (name : String)
  | optional (name : String)
  | rest (name : String)
  | keywords (name : String)
  deriving DecidableEq, Repr

inductive Expr where
  | absent
  | undefined
  | bool (b : Bool)
  | int (i : Int)
  | str (s : String)
  | float (text : String)
  | complex (re im : String)
  | decimal (text : String)
  | fraction (num den : Int)
  | bytes (octets : List Nat)
  | date (parts : List Int)
  | datetime (parts : List Int)
  | regex (pattern flags : String)
  | sequence (sort : SequenceSort) (items : List Expr)
  | table (sort : TableSort) (entries : List (Expr × Expr))
  | bag (entries : List (Expr × Expr))
  | module (name : String) (entries : List (Expr × Expr))
  | builtin (name : String)
  | builtinClass (name : String)
  | library (name : String)
  | partialCall (f : Expr) (args : List Expr)
  | variable (name : String)
  | attribute (of : Expr) (name : String)
  | setAttribute (of : Expr) (name : String) (value : Expr)
  | deleteAttribute (of : Expr) (name : String)
  | item (of key : Expr)
  | setItem (of key value : Expr)
  | call (f : Expr) (args : List Expr) (star : Option Expr) (named : List (String × Expr))
      (doubleStar : Option Expr)
  | function (name : String) (params : List Param) (defaults : List Expr) (body : Expr)
      (doc : Option String)
  | steps (es : List Expr)
  | ifThenElse (condition yes no : Expr)
  | log (e : Expr)
  | raise (kind message : String)
  | attempt (e : Expr)
  | operator (o : Operator) (args : List Expr)
  | classDef (name : String) (members : List (String × Expr)) (bases : List Expr)
  | new (cls : Expr) (attrs : List (Expr × Expr))
  | staticMethod (f : Expr)
  | classMethod (f : Expr)
  | property (f : Expr)
  deriving Repr

end CallContracts
