import CallContracts.Machine
/-! Numbers: what a value of any number class denotes, and how another value stands for a number where one
is asked for. -/
namespace CallContracts
open Act Numeral

namespace Store

/-- The whole number that a value is. -/
def whole? (s : Store) (v : Value) : Option Int :=
  match s.unboxed v with
  | .int i => some i
  | .bool b => some (if b then 1 else 0)
  | _ => none

/-- What a real number denotes. -/
def real? (s : Store) (v : Value) : Option Exact :=
  match s.whole? v with
  | some i => some (.ofInt i)
  | none => match s.scalar? v with
    | some (.float x) => some x.exact
    | some (.decimal x) => some x.exact
    | some (.fraction x) => some (.ratio x)
    | _ => none

/-- The two parts of any number. -/
def parts (s : Store) (v : Value) : Option (Exact × Exact) :=
  match s.real? v with
  | some x => some (x, .ofInt 0)
  | none => match s.scalar? v with
    | some (.complex re im) => some (re.exact, im.exact)
    | _ => none

/-- The text that a value is. -/
def text? (s : Store) (v : Value) : Option String :=
  match s.unboxed v with
  | .str t => some t
  | _ => none

/-- The characters of a text, or the numbers of octets. -/
def pieces? (s : Store) (v : Value) : Option (List Value) :=
  match s.text? v with
  | some t => some (t.toList.map fun c => .str (String.singleton c))
  | none => match s.scalar? v with
    | some (.bytes bs) => some (bs.map fun b => .int (b : Nat))
    | _ => none

@[simp] theorem whole?_int (s : Store) (i : Int) : s.whole? (.int i) = some i := rfl
@[simp] theorem text?_str (s : Store) (t : String) : s.text? (.str t) = some t := rfl

end Store

/-- A whole number by itself, or by what its class says about it as a position. -/
def asIndex (m : Machine) (v : Value) : Act Int := do
  let s ← get
  match s.whole? v with
  | some i => return i
  | none =>
    let f ← ofOption .typeError (s.override? (s.classOf v) "__index__")
    let w ← callSpecial m v f []
    ofOption .typeError ((← get).whole? w)

/-- The floating point number that a quotient or decimal rounds to. -/
def roundedDouble? : Scalar → Option (Except Fault Double)
  | .float x => some (.ok x)
  | .decimal x => some (match x.toDouble? with
    | some x => .ok x
    | none => .error (.refused .valueError))
  | .fraction r => some (match Double.round (r.num < 0) r.num.natAbs r.den with
    | .infinite _ => .error (.refused .overflowError)
    | x => .ok x)
  | _ => none

/-- A floating point number for a number, or for what its class says. -/
def asDouble (m : Machine) (v : Value) : Act Double := do
  let s ← get
  match s.override? (s.classOf v) "__float__" with
  | some f =>
    let w ← callSpecial m v f []
    match (← get).scalar? w with
    | some (.float x) => return x
    | _ => refuse .typeError
  | none => match (s.scalar? v).bind roundedDouble? with
    | some (.ok x) => return x
    | some (.error e) => fail e
    | none =>
      let i ← asIndex m v
      ofOption (.refused .overflowError) (Double.ofInt? i)

end CallContracts
