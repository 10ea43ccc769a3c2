import CallContracts.Call.Numbers
import CallContracts.Call.Start
/-! Calling a class.  A class makes an object and hands it to its initialiser.  Instances that never change
are made from the arguments; all others are made first and get their contents from the initialiser. -/
namespace CallContracts
open Act

namespace Construct
open Start (omitted optionalParams)

/-- The parameters of the classes whose instances never change. -/
def simpleParams : BuiltinClass → Option Params
  | .absent | .notImplemented => some []
  | .bool | .float | .tuple | .frozenset => some (optionalParams [""])
  | .int => some (optionalParams ["", "base"])
  | .complex => some (optionalParams ["real", "imag"])
  | .decimal => some (optionalParams ["value", "context"])
  | .fraction => some (optionalParams ["numerator", "denominator"])
  | .str => some (optionalParams ["object", "encoding", "errors"])
  | .bytes => some (optionalParams ["source", "encoding", "errors"])
  | .date => some (.required ["year", "month", "day"])
  | .datetime => some (Params.required ["year", "month", "day"]
      ++ ["hour", "minute", "second", "microsecond"].map (fun n => (.optional n, some (.int 0)))
      ++ [(.optional "tzinfo", some .absent), (.optional "fold", some (.int 0))])
  | .mappingProxy => some (.required ["mapping"])
  | _ => none

variable (m : Machine)

/-- The octets that text is held in, or the text that octets hold. -/
def encoded (encoding : Value) (v : Value) : Act Value := do
  let s ← get
  let e ← if encoding = omitted then pure "utf-8" else ofOption .typeError (s.text? encoding)
  if e.map Char.toLower ∉ ["utf-8", "utf8", "ascii", "us-ascii"] then refuse .lookupError
  match s.text? v, s.scalar? v with
  | some t, _ => Make.newBytes (t.toUTF8.toList.map UInt8.toNat)
  | none, some (.bytes bs) => match Settings.decoded? bs with
    | some t => return .str (String.ofList t)
    | none => refuse .unicodeError
  | none, _ => refuse .typeError

def octet (v : Value) : Act Nat := do
  let i ← asIndex m v
  if 0 ≤ i ∧ i < 256 then return i.toNat else refuse .valueError

/-- Octets out of octets, of as many zeros as a number says, or of numbers. -/
def octets (v : Value) : Act Value := do
  let s ← get
  match s.override? (s.classOf v) "__bytes__", s.scalar? v, s.whole? v with
  | some f, _, _ => callSpecial m v f []
  | none, some (.bytes bs), _ => Make.newBytes bs
  | none, _, some n =>
    if n < 0 then refuse .valueError
    else if 9223372036854775807 < n then refuse .overflowError
    else Make.newBytes (List.replicate n.toNat 0)
  | none, _, none =>
    if (s.text? v).isSome then refuse .typeError
    else Make.newBytes (← each (octet m) (← iterate m v))

/-- Whether a value is an instance of exactly this class and so stands for its own copy. -/
def isExactly (c : BuiltinClass) (v : Value) : Act Bool := do return (← get).classOf v = .builtin c

def ofParts (c : BuiltinClass) (args : List Value) : Act Value := do
  match c, args with
  | .absent, _ => return .absent
  | .notImplemented, _ => return .notImplemented
  | .bool, [v] => return .bool (← if v = omitted then pure false else truth m v)
  | .int, [v, base] =>
    if v = omitted then if base = omitted then return .int 0 else refuse .typeError
    else return .int (← if base = omitted then Numbers.whole m v else Numbers.wholeInBase m v base)
  | .float, [v] =>
    if v = omitted then Make.newFloat (.zero false)
    else if ← isExactly .float v then return v
    else do Make.newFloat (← Numbers.double m v)
  | .complex, [re, im] =>
    if im = omitted then
      if re = omitted then Make.newComplex (.zero false) (.zero false)
      else if ← isExactly .complex re then return re
      else
        let (x, y) ← if ((← get).text? re).isSome then Numbers.ofText re else Numbers.twoParts m re
        Make.newComplex x y
    else
      let (x, y) ← Numbers.ofParts m (if re = omitted then .int 0 else re) im
      Make.newComplex x y
  | .decimal, [v, _] =>
    if v = omitted then Make.newDecimal (.finite false 0 0)
    else if ← isExactly .decimal v then return v
    else do Make.newDecimal (← Numbers.decimal v)
  | .fraction, [a, b] =>
    if b = omitted ∨ b = .absent then
      if a = omitted then Make.fraction 0 1 else Numbers.fraction a
    else Numbers.quotient (if a = omitted then .int 0 else a) b
  | .str, [v, encoding, errors] =>
    if v = omitted then return .str ""
    else if encoding = omitted ∧ errors = omitted then return .str (← written m v)
    else match (← get).scalar? v with
      | some (.bytes _) => encoded encoding v
      | _ => refuse .typeError
  | .bytes, [v, encoding, errors] =>
    if encoding = omitted ∧ errors = omitted then
      if v = omitted then Make.newBytes []
      else if ← isExactly .bytes v then return v
      else octets m v
    else match (← get).text? v with
      | some _ => encoded encoding v
      | none => refuse .typeError
  | .tuple, [v] =>
    if ← isExactly .tuple v then return v else do newTuple (← Start.itemsGiven m v)
  | .frozenset, [v] =>
    if ← isExactly .frozenset v then return v
    else do Make.sequence m .frozenset (← Start.itemsGiven m v)
  | .date, _ => do Make.date (← each (asIndex m) args)
  | .datetime, _ =>
    if args[7]? ≠ some .absent then refuse .typeError
    else do Make.datetime (← each (asIndex m) (args.take 7))
  | .mappingProxy, [v] =>
    if ((← get).entries? v).isSome || (← isMapping m v) then
      alloc { cls := .builtin .mappingProxy, body := .proxy v }
    else refuse .typeError
  | _, _ => refuse .typeError

/-- What a class with unchanging instances makes out of the arguments. -/
def simple (c : BuiltinClass) (args : List Value) (named : Fields Value) : Act Value := do
  if c = .partialCall then
    match args with
    | f :: args => Make.partialCall f args named
    | [] => refuse .typeError
  else
    let ps ← ofOption .typeError (simpleParams c)
    let placed ← ofOption .typeError (ps.arguments args named)
    ofParts m c (← each Argument.value placed)

/-- The same as an instance of a class of the program. -/
def inherited (c : ClassId) (v : Value) : Act Value := do
  match (← get).obj? v with
  | some o => Make.inClass c o.body
  | none => Make.inClass c (.boxed v)

/-- A class out of its name, its bases and its members. -/
def newClass (asked : ClassId) (args : List Value) : Act Value := do
  let s ← get
  match args with
  | [n, bases, members] =>
    let name ← ofOption .typeError (s.text? n)
    let members ← named (← ofOption .typeError (s.entries? members))
    match s.body? bases with
    | some (.tuple []) => Define.cls m asked name members (.builtin .object)
    | some (.tuple [b]) => do
      Define.cls m asked name members (← ofOption .typeError (s.class? b))
    | _ => refuse .typeError
  | _ => refuse .typeError

/-- An object of a class before its initialiser sees it. -/
def create (c : ClassId) (args : List Value) (named : Fields Value) : Act Value := do
  let s ← get
  match s.builtinBase c with
  | .undefined => return .undefined
  | .type | .abstractClass | .modelClass => newClass m c args
  | .list => Make.inClass c (.list [])
  | .deque => Make.inClass c (.deque [])
  | .set => Make.inClass c (.set [])
  | .dict | .orderedDict => Make.inClass c (.table [])
  | .attributeBag | .module => Make.inClass c .plain
  | .property => Make.inClass c (.property .absent .absent .absent)
  | .staticMethod => Make.inClass c (.staticMethod .absent)
  | .classMethod => Make.inClass c (.classMethod .absent)
  | b =>
    if b.isException then Make.inClass c (.exception args (Make.reportFor s c))
    else if Make.isPlain b && b ≠ .fraction then
      if (args ≠ [] ∨ named ≠ []) ∧ (s.overrides c ["__new__"]
          ∨ (Start.isBare b ∧ !s.overrides c ["__init__"])) then refuse .typeError
      else Make.fresh c
    else
      let v ← simple m b args named
      match c with
      | .builtin _ => return v
      | _ => inherited c v

/-- A class of the program may make its instances itself. -/
def make (c : ClassId) (args : List Value) (named : Fields Value) : Act Value := do
  if (← get).overrides c ["__new__"] then
    m.call (← m.read c.value "__new__") (c.value :: args) named
  else create m c args named

/-- A contract that is made as it is stays together. -/
def newContract (c : BuiltinClass) (args : List Value) (named : Fields Value) : Act Value := do
  let ps ← ofOption .typeError (Start.params c)
  let placed ← ofOption .typeError (ps.arguments args named)
  match ← each Argument.value placed with
  | [test, d] => Contract.make d (.test test) test
  | [params, input, ret] => Contract.makeSignature m params input ret
  | _ => refuse .typeError

/-- Calls a class; an object that is none of its instances is not initialised. -/
def call (c : ClassId) (args : List Value) (named : Fields Value) : Act Value := do
  match c, args, named with
  | .builtin .type, [v], [] => return ((← get).classOf v).value
  | .builtin .contract, _, _ => newContract m .contract args named
  | .builtin .signature, _, _ => newContract m .signature args named
  | _, _, _ =>
    let v ← make m c args named
    let s ← get
    if s.comesFrom (s.classOf v) c && (s.obj? v).isSome then Start.initialise m v args named
    return v

end Construct
end CallContracts
