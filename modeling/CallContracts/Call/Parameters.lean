import CallContracts.Expr.Eval
/-! Parameters: how the arguments of a call meet them.  A parameter for one value takes the next argument
by position, or else the one of its name, or else its default.  After a parameter for the rest only
names count.  Every argument must find a place. -/
namespace CallContracts
open Act

/-- What a parameter stands for in one call. -/
inductive Argument where
  | one (v : Value)
  | rest (vs : List Value)
  | keywords (named : Fields Value)
  deriving DecidableEq, Repr

abbrev Params := List (Param × Option Value)

namespace Params

def place : Params → Bool → List Value → Fields Value → Option (Fields Argument)
  | [], _, [], [] => some []
  | [], _, _, _ => none
  | (.rest n, _) :: ps, byPlace, args, named =>
    if byPlace then (place ps false [] named).map ((n, .rest args) :: ·) else none
  | (.keywords n, _) :: ps, byPlace, args, named =>
    (place ps byPlace args []).map ((n, .keywords named) :: ·)
  | (.required n, d) :: ps, byPlace, args, named
  | (.optional n, d) :: ps, byPlace, args, named =>
    match byPlace, args, named.get? n, d with
    | true, _ :: _, some _, _ => none
    | true, x :: xs, none, _ => (place ps true xs named).map ((n, .one x) :: ·)
    | _, _, some x, _ => (place ps byPlace args (named.erase n)).map ((n, .one x) :: ·)
    | _, _, none, some x => (place ps byPlace args named).map ((n, .one x) :: ·)
    | _, _, none, none => none

def required (names : List String) : Params := names.map fun n => (.required n, none)

/-- The arguments of a call in the order of the parameters. -/
def arguments (ps : Params) (args : List Value) (named : Fields Value) : Option (List Argument) :=
  (place ps true args named).map (·.map Prod.snd)

@[simp] theorem place_nil (b : Bool) : place [] b [] [] = some [] := by simp [place]

theorem place_required (n : String) (ps : Params) (x : Value) (xs : List Value) :
    place ((.required n, none) :: ps) true (x :: xs) [] =
      (place ps true xs []).map ((n, .one x) :: ·) := by
  simp [place]

/-- Required parameters take their arguments one by one. -/
theorem place_required_all (ns : List String) (xs : List Value) (h : ns.length = xs.length) :
    place (required ns) true xs [] = some (ns.zipWith (fun n x => (n, .one x)) xs) := by
  induction ns generalizing xs with
  | nil => cases xs with
    | nil => rfl
    | cons x xs => simp at h
  | cons n ns ih => cases xs with
    | nil => simp at h
    | cons x xs =>
      have h' : ns.length = xs.length := by simpa using h
      have := ih xs h'
      simp only [required] at this
      simp [required, place_required, this]

example : place [(.required "x", none), (.rest "r", none)] true [.int 1, .int 2] [] =
    some [("x", .one (.int 1)), ("r", .rest [.int 2])] := by decide
example : place [(.required "x", none)] true [.int 1] [("x", .int 2)] = none := by decide

end Params

/-- The value that a parameter has in the body of a function. -/
def Argument.value : Argument → Act Value
  | one v => pure v
  | rest vs => newTuple vs
  | keywords named => newNamed named

/-- A call sees the parameters first and then what the definition saw. -/
def Closure.call (m : Machine) (f : Closure) (args : List Value) (named : Fields Value) :
    Act Value := do
  match Params.place f.params true args named with
  | none => fail (.badArguments f.title)
  | some placed =>
    let frame ← each (fun p => do return (p.1, ← p.2.value)) placed
    f.body.eval m (frame ++ f.scope)

end CallContracts
