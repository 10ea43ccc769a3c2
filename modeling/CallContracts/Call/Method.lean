import CallContracts.Call.Method.Items
import CallContracts.Call.Method.Table
import CallContracts.Call.Method.Text
/-! Methods of the builtin values.  The first argument must be an instance of the class that the method
belongs to. -/
namespace CallContracts
open Act

namespace Method
variable (m : Machine)

def bitLength (i : Int) : Nat := if i = 0 then 0 else i.natAbs.log2 + 1

def ones (n : Nat) : Nat := ((List.range (bitLength n)).filter fun i => n / Numeral.twoTo i % 2 = 1).length

def newRatio (r : Numeral.Ratio) : Act Value :=
  let r := r.reduce
  newTuple [.int r.num, .int r.den]

def ofWhole (i : Int) (n : String) (args : List Value) : Act Value :=
  match n, args with
  | "bit_length", [] => return .int (bitLength i)
  | "bit_count", [] => return .int (ones i.natAbs)
  | "conjugate", [] | "__trunc__", [] | "__floor__", [] | "__ceil__", [] | "__round__", [] => return .int i
  | "as_integer_ratio", [] => newTuple [.int i, .int 1]
  | _, _ => refuse .typeError

/-- Methods of simple values that are neither text nor whole numbers. -/
def ofScalar (v : Value) (x : Scalar) (n : String) (args : List Value) : Act Value := do
  match x, n, args with
  | .float y, "is_integer", [] => return .bool y.toInt?.isSome
  | .float y, "as_integer_ratio", [] => match y.exact with
    | .ratio r => newRatio r
    | .infinite _ => refuse .overflowError
    | .undefined => refuse .valueError
  | .fraction r, "as_integer_ratio", [] => newTuple [.int r.num, .int r.den]
  | .float _, "conjugate", [] | .decimal _, "conjugate", [] | .fraction _, "conjugate", [] => return v
  | .complex re im, "conjugate", [] => Make.newComplex re im.neg
  | .decimal y, "is_nan", [] => return .bool (y.exact = .undefined)
  | .decimal y, "is_zero", [] => return .bool y.isZero
  | .bytes bs, "decode", [] => match Settings.decoded? bs with
    | some t => return .str (String.ofList t)
    | none => refuse .unicodeError
  | .bytes bs, "hex", [] => return .str (String.ofList (bs.flatMap (Text.hex 2)))
  | .date y mo d, "isoformat", [] | .date y mo d, "__str__", [] =>
    return .str (String.ofList (← showScalar [] .plain (.date y mo d)))
  | _, _, _ => refuse .typeError

/-- A property with another function to read, write or delete by. -/
def ofProperty (cls : ClassId) (f g h : Value) (n : String) (args : List Value) : Act Value := do
  match n, args with
  | "getter", [x] => Make.inClass cls (.property x g h)
  | "setter", [x] => Make.inClass cls (.property f x h)
  | "deleter", [x] => Make.inClass cls (.property f g x)
  | "__set_name__", [_, _] => return .absent
  | _, _ => refuse .typeError

/-- What a class says about others and their instances. -/
def ofClass (c : ClassId) (n : String) (args : List Value) : Act Value := do
  let s ← get
  match n, args with
  | "mro", [] => newList ((s.line c).map ClassId.value)
  | "__instancecheck__", [x] => return .bool (← isInstance m x c)
  | "__subclasscheck__", [d] =>
    return .bool (s.isSubclass (← ofOption .typeError (s.class? d)) c)
  | _, _ => refuse .typeError

/-- Methods of every value. -/
def ofAny (v : Value) (n : String) (args : List Value) : Act Value := do
  match n, args with
  | "__format__", [t] => if t = .str "" then return .str (← written m v) else refuse .typeError
  | "__init_subclass__", [] => return .absent
  | "__subclasshook__", [_] => return .notImplemented
  | _, _ => refuse .typeError

def ofBody (v : Value) (r : Ref) (o : Obj) (n : String) (args : List Value) (named : Fields Value) :
    Act Value := do
  let put (b : Body) : Act Unit := update r fun o => { o with body := b }
  let plain (x : Act Value) : Act Value := if named = [] then x else refuse .typeError
  match o.body with
  | .list xs =>
    if n = "copy" ∧ args = [] then newList xs
    else match n, args, named with
      | "sort", [], [("reverse", b)] =>
        put (.list (← sortItems m (← truth m b) xs))
        return .absent
      | _, _, _ => plain (changeItems m (fun ys => put (.list ys)) xs n args)
  | .deque xs =>
    if n = "copy" ∧ args = [] then alloc { o with table := none }
    else plain (changeItems m (fun ys => put (.deque ys)) xs n args)
  | .tuple xs => plain (readItems m xs n args)
  | .set xs =>
    let base := (← get).builtinBase o.cls
    let make (ys : List Value) : Act Value := alloc { cls := .builtin base, body := .set ys }
    if base = .set then plain (changeSet m (fun ys => put (.set ys)) make xs n args)
    else plain (readSet m make xs n args)
  | .table es => changeTable m (fun es => put (.table es)) v es n args named
  | .proxy of => plain (readProxy m v of n args)
  | .scalar x => plain (ofScalar v x n args)
  | .property f g h => plain (ofProperty o.cls f g h n args)
  | .exception args _ => if n = "with_traceback" then return v else plain (ofAny m v n args)
  | .cls _ => plain (ofClass m (.defined r) n args)
  | _ => plain (ofAny m v n args)

/-- Calls the method `n` of the class `c`. -/
def call (c : BuiltinClass) (n : String) (v : Value) (args : List Value) (named : Fields Value) :
    Act Value := do
  let s ← get
  if !s.isA v c then refuse .typeError
  else if c = .object then if named = [] then ofAny m v n args else refuse .typeError
  else match s.text? v, s.whole? v, v, s.obj? v with
    | some t, _, _, _ => if named = [] then ofText m t.toList n args else refuse .typeError
    | none, some i, _, _ => if named = [] then ofWhole i n args else refuse .typeError
    | none, none, .ref r, some o => ofBody m v r o n args named
    | none, none, .builtinClass d, _ =>
      if named = [] then ofClass m (.builtin d) n args else refuse .typeError
    | _, _, _, _ => refuse .typeError

/-- Calls a method that belongs to the class itself. -/
def callOfClass (c : BuiltinClass) (n : String) (cls : Value) (args : List Value) : Act Value := do
  match n, args with
  | "fromkeys", [keys] => fromKeys m cls keys .absent
  | "fromkeys", [keys, x] => fromKeys m cls keys x
  | "__prepare__", _ => newTable []
  | _, _ => if c = .object then ofAny m cls n args else refuse .typeError

end Method
end CallContracts
