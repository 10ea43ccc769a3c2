import CallContracts.Numeral.Residue
import CallContracts.Value.Truth
/-! Digests: what a value is filed under when it is a key.  Equal values have equal digests.  Numbers go by
their residue, text and dates by the octets that hold them, tuples and frozen sets by their parts, and
objects by their place; a class of the program may say a number itself, or that its instances are no
keys. -/
namespace CallContracts
open Act Numeral

abbrev Digest := List Int

namespace Digest

def number (i : Int) : Digest := [0, i]

/-- No octets count as zero. -/
def octets (bs : List Nat) : Digest :=
  if bs = [] then number 0 else 1 :: (bs.length : Int) :: bs.map Int.ofNat

def object (r : Ref) : Digest := [2, r]
def constant (k : Int) : Digest := [3, k]
def named (n : String) : Digest := 4 :: n.toList.map fun c => (c.toNat : Int)

/-- Parts, each with its length before it. -/
def group (sort : Int) (ds : List Digest) : Digest :=
  sort :: ds.flatMap fun d => (d.length : Int) :: d

def lex : Digest → Digest → Bool
  | [], _ :: _ => true
  | a :: as, b :: bs => a < b || (a = b && lex as bs)
  | _, [] => false

def insert (d : Digest) : List Digest → List Digest
  | [] => [d]
  | e :: es => if lex d e then d :: e :: es else e :: insert d es

def lowest (n w : Nat) : List Nat := (List.range w).map fun i => n / twoTo (8 * i) % 256

/-- A text is held in as many octets a character as its greatest character needs. -/
def text (t : String) : Digest :=
  let cs := t.toList.map Char.toNat
  let w := if cs.all (· < 256) then 1 else if cs.all (· < 65536) then 2 else 4
  octets (cs.flatMap (lowest · w))

/-- Where a value is. -/
def place : Value → Digest
  | .absent => constant 0
  | .undefined => constant 1
  | .notImplemented => constant 2
  | .bool b => number (if b then 1 else 0)
  | .int i => number i
  | .str t => text t
  | .builtinClass c => named c.shown
  | .operation (.member c n _) => named (c.shown ++ n)
  | .operation (.placeOf r n _) => group 5 [object r, named n]
  | .operation o => named (o.home ++ o.path)
  | .ref r => object r

def year (y : Nat) : List Nat := [y / 256, y % 256]

/-- What is no number is filed by its place; one that signals refuses. -/
def ofScalar (r : Ref) : Scalar → Option Digest
  | .float x => some ((x.exact.residue?.map number).getD (object r))
  | .complex re im => match re.exact.residue?, im.exact.residue? with
    | some x, some y => some (number (complexResidue x y))
    | _, _ => some (object r)
  | .decimal x => if x.isSignalling then none else some ((x.residue?.map number).getD (object r))
  | .fraction x => some (((Exact.ratio x).residue?.map number).getD (object r))
  | .bytes bs => some (octets bs)
  | .date y m d => some (octets (year y ++ [m, d]))
  | .datetime y mo d h mi sec us =>
    some (octets (year y ++ [mo, d, h, mi, sec, us / 65536, us / 256 % 256, us % 256]))
  | .regex p flags => some (group 6 [named p, named (String.ofList flags)])

end Digest

/-- The number that a class says; one beyond 64 bits is reduced. -/
def declaredDigest (m : Machine) (v f : Value) : Act Digest := do
  if f = .absent then refuse .typeError
  let h ← callSpecial m v f []
  let i ← ofOption .typeError ((← get).whole? h)
  if -9223372036854775808 ≤ i ∧ i ≤ 9223372036854775807 then
    return Digest.number (if i = -1 then -2 else i)
  else return Digest.number (((Exact.ofInt i).residue?).getD 0)

/-- The digest of an object as its builtin ancestor files it; `digest` files its parts. -/
def digestOfObject (m : Machine) (digest : Value → Act Digest) (v : Value) (r : Ref) (o : Obj) :
    Act Digest := do
  let s ← get
  let b := s.builtinBase o.cls
  if b.refusesHash then refuse .typeError
  match o.body with
  | .boxed w => digest w
  | .scalar x => ofOption .typeError (Digest.ofScalar r x)
  | .tuple xs => do return Digest.group 7 (← each digest xs)
  | .set xs => do return Digest.group 8 ((← each digest xs).foldr Digest.insert [])
  | .bound f self => do return Digest.group 9 [Digest.place self, ← digest f]
  | _ =>
    if b = .matched then return Digest.group 7 [← digest (← m.read v "contract")]
    else if b = .mismatched then
      let d ← digest (← m.read v "description")
      return Digest.group 7 [d, ← digest (← m.read v "value")]
    else return Digest.object r

def digestAt (m : Machine) : Nat → Value → Act Digest
  | 0, _ => refuse .recursionError
  | n + 1, v => do
    let s ← get
    match v, s.obj? v with
    | .ref r, some o => match s.override? o.cls "__hash__" with
      | some f => declaredDigest m v f
      | none => digestOfObject m (digestAt m n) v r o
    | .int i, _ => return Digest.number (((Exact.ofInt i).residue?).getD 0)
    | v, _ => return Digest.place v

def digestOf (m : Machine) (v : Value) : Act Digest := digestAt m depthLimit v

/-- Refuses a value that can be no key. -/
def checkKey (m : Machine) (v : Value) : Act Unit := do
  match v with
  | .ref _ => let _ ← digestOf m v
  | _ => return

end CallContracts
