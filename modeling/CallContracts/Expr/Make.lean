import CallContracts.Class.Define
import CallContracts.Text.Pattern
/-! Making the objects that the little language writes down. -/
namespace CallContracts
open Act Numeral

namespace Make

def seqObject : SequenceSort → List Value → Obj
  | .list, xs => { cls := .builtin .list, body := .list xs }
  | .tuple, xs => { cls := .builtin .tuple, body := .tuple xs }
  | .deque, xs => { cls := .builtin .deque, body := .deque xs }
  | .set, xs => { cls := .builtin .set, body := .set xs }
  | .frozenset, xs => { cls := .builtin .frozenset, body := .set xs }

/-- Sets take each member once, and only what can be a key. -/
def sequence (m : Machine) (sort : SequenceSort) (xs : List Value) : Act Value := do
  match sort with
  | .set | .frozenset => do alloc (seqObject sort (← Table.distinct m xs))
  | _ => alloc (seqObject sort xs)

/-- Later entries are written over earlier ones. -/
def table (m : Machine) (sort : TableSort) (es : List (Value × Value)) : Act Value := do
  let es ← Table.ofEntries m es
  match sort with
  | .dict => newTable es
  | .ordered => alloc { cls := .builtin .orderedDict, body := .table es, attrs := some [] }
  | .proxy => do alloc { cls := .builtin .mappingProxy, body := .proxy (← newTable es) }

def bag (es : List (Value × Value)) : Act Value := do
  let fs ← named es
  alloc { cls := .builtin .attributeBag, body := .plain, attrs := some (Fields.putAll [] fs) }

/-- A module starts with the attributes that every module has. -/
def module (name : Value) (es : List (Value × Value)) : Act Value := do
  let fs ← named es
  let start : Fields Value := [("__name__", name), ("__doc__", .absent), ("__package__", .absent),
    ("__loader__", .absent), ("__spec__", .absent)]
  alloc { cls := .builtin .module, body := .plain, attrs := some (start.putAll fs) }

def newFloat (x : Double) : Act Value := newScalar .float (.float x)
def newComplex (re im : Double) : Act Value := newScalar .complex (.complex re im)
def newDecimal (x : Decimal) : Act Value := newScalar .decimal (.decimal x)
def newBytes (bs : List Nat) : Act Value := newScalar .bytes (.bytes bs)

def float (t : List Char) : Act Double := ofOption (.refused .valueError) (Double.read? t)
def decimal (t : List Char) : Act Decimal := ofOption (.refused .invalidOperation) (Decimal.read? t)

def fraction (n d : Int) : Act Value :=
  if d = 0 then refuse .zeroDivisionError
  else newScalar .fraction (.fraction (Ratio.reduce ⟨if d < 0 then -n else n, d.natAbs⟩))

/-- Flags are written with capital letters here. -/
def regex (p flags : String) : Act Value :=
  match Text.Pattern.flags p (flags.toList.map Char.toLower) with
  | .ok fs => newScalar .pattern (.regex p fs)
  | .error .malformed => refuse .patternError
  | .error .repeatTooLarge => refuse .overflowError
  | .error .flagsClash => refuse .valueError

def daysIn (year month : Int) : Int :=
  if month = 2 then
    if year % 4 = 0 ∧ (year % 100 ≠ 0 ∨ year % 400 = 0) then 29 else 28
  else if month ∈ [4, 6, 9, 11] then 30 else 31

/-- The host takes no parts beyond 32 bits. -/
def checkWidths (parts : List Int) : Act Unit :=
  if parts.all fun i => -2147483648 ≤ i && i ≤ 2147483647 then pure () else refuse .overflowError

/-- A part of a date or time within its bounds. -/
def within (lo hi i : Int) : Act Nat :=
  if lo ≤ i ∧ i ≤ hi then pure i.toNat else refuse .valueError

def dayOf (y m d : Int) : Act (Nat × Nat × Nat) := do
  let year ← within 1 9999 y
  let month ← within 1 12 m
  return (year, month, ← within 1 (daysIn y m) d)

def date (parts : List Int) : Act Value := do
  checkWidths parts
  match parts with
  | [y, m, d] =>
    let (y, m, d) ← dayOf y m d
    newScalar .date (.date y m d)
  | _ => refuse .typeError

/-- Parts that are left out are zero. -/
def datetime (parts : List Int) : Act Value := do
  checkWidths parts
  if parts.length < 3 then refuse .typeError
  match parts ++ List.replicate (7 - parts.length) 0 with
  | [y, mo, d, h, mi, s, us] =>
    let (y, mo, d) ← dayOf y mo d
    let hour ← within 0 23 h
    let minute ← within 0 59 mi
    let second ← within 0 59 s
    newScalar .datetime (.datetime y mo d hour minute second (← within 0 999999 us))
  | _ => refuse .typeError

/-- A partial call of a partial call is one partial call. -/
def partialCall (f : Value) (args : List Value) (named : Fields Value) : Act Value := do
  let s ← get
  if !s.isCallable f then refuse .typeError
  let make (g : Value) (args : List Value) (named : Fields Value) := alloc
    { cls := .builtin .partialCall, body := .partialCall g args named, attrs := some [] }
  match s.obj? f with
  | some ⟨_, .partialCall g first kept, some [], _, none⟩ => make g (first ++ args) (kept.putAll named)
  | _ => make f args named

/-- How much an answer tells of an exception of a class. -/
def reportFor (s : Store) (c : ClassId) : Report :=
  if s.comesFrom c (.builtin .contractError) then .message else .quiet

/-- The classes whose instances are made without looking at any argument, and have nothing of their own
before they are initialised. -/
def isPlain (b : BuiltinClass) : Bool :=
  b ∈ [.object, .root, .undefined, .fraction, .number, .complexNumber, .realNumber, .rationalNumber,
    .integral, .mapping, .callable, .contract, .signature, .matched, .mismatched, .settings, .wrapper,
    .unboundWrapper, .classWrapper, .signatureCheck]

/-- An object of a class, with its own attributes if it can have any. -/
def inClass (c : ClassId) (body : Body) : Act Value := do
  let s ← get
  alloc { cls := c, body := body, attrs := if s.isTabled c then some [] else none }

/-- An instance that no initialiser has seen. -/
def fresh (c : ClassId) : Act Value := do
  let s ← get
  if isPlain (s.builtinBase c) && (s.lacks c).isEmpty then inClass c .plain else refuse .typeError

/-- The object for a fault that was caught. -/
def exception (f : Fault) : Act Value :=
  let args := match f.message? with
    | some t => [.str t]
    | none => []
  let report := match f with
    | .invalidSettings fs => Report.fields fs
    | _ => if f.message?.isSome then .message else .quiet
  alloc { cls := .builtin f.cls, body := .exception args report, attrs := some f.fields }

/-- Runs to a value: the one that is computed, or the exception that stops it. -/
def attempt (x : Act Value) : Act Value := fun s =>
  match x s with
  | .error (.raised f) s' => exception f s'
  | .error .exhausted s' => exception (.refused .recursionError) s'
  | r => r

/-- The fault that a program raises by name. -/
def raised (kind message : String) : Fault :=
  match BuiltinClass.named? kind with
  | some c => if c.isException then .declared c message else .typeError
  | none => .typeError

end Make
end CallContracts
