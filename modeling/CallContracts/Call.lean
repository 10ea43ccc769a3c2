import CallContracts.Call.Operation
/-! Calling a value, and the machines that do it.  The machine of level `n + 1` answers every request with
the machine of level `n` at hand, so a run goes at most as many levels down as the first one has. -/
namespace CallContracts
open Act

/-- A call as the class of the value says, where it is a builtin class. -/
def callNative (m : Machine) (f : Value) (args : List Value) (named : Fields Value) : Act Value := do
  let s ← get
  match f, s.class? f, s.body? f with
  | .operation o, _, _ => Operation.call m o args named
  | _, some c, _ => Construct.call m c args named
  | _, none, some (.function g) => g.code.call m args named
  | _, none, some (.bound g self) => m.call g (self :: args) named
  | _, none, some (.partialCall g first kept) => m.call g (first ++ args) (kept.putAll named)
  | _, none, some (.staticMethod g) => m.call g args named
  | _, none, _ => match s.classMember? (s.classOf f) "__call__" with
    | some (.operation (.member c n sort)) => Operation.callMember m c n sort (f :: args) named
    | _ => refuse .typeError

/-- Calls a value.  A class of the program says itself how its instances are called. -/
def callValue (m : Machine) (f : Value) (args : List Value) (named : Fields Value) : Act Value := do
  let s ← get
  let c := s.classOf f
  match s.override? c "__call__" with
  | some g => m.call (← m.bind g f c.value) args named
  | none => callNative m f args named

namespace Machine

def next (m : Machine) : Machine where
  call := callValue m
  bind := bindMember m
  read := readAttribute m
  write := writeAttribute m

def ofLevel : Nat → Machine
  | 0 => halted
  | n + 1 => next (ofLevel n)

/-- The level at which programs run. -/
def level : Nat := 2000

def full : Machine := ofLevel level

@[simp] theorem ofLevel_zero : ofLevel 0 = halted := rfl
theorem ofLevel_succ (n : Nat) : ofLevel (n + 1) = next (ofLevel n) := rfl
theorem call_next (m : Machine) : m.next.call = callValue m := rfl

end Machine
end CallContracts
