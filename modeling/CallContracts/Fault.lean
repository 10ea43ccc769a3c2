import CallContracts.Fields
import CallContracts.Value
/-! What can go wrong, by cause.  A fault that shows a value holds the text that the value had when the
fault arose. -/
namespace CallContracts

/-- A setting that was refused: which one, under which rule. -/
structure FieldFault where
  field : String
  rule : String
  message : String
  deriving DecidableEq, Repr

/-- Who is to blame at a boundary: the member, what it promised and the value it got or gave. -/
structure Blame where
  member : Value
  expected : Value
  value : Value
  memberText : String
  expectedText : String
  shown : String
  deriving DecidableEq, Repr

inductive Misconfiguration where
  | notContract (shown : String)
  | emptyProc
  | wrongArguments (description : String)
  | entryNotContract (name shown : String)
  | memberMissing (name : String)
  | notSignature (shown : String)
  deriving DecidableEq, Repr

def Misconfiguration.message : Misconfiguration → String
  | notContract s => "expected a contract, got " ++ s
  | emptyProc => "proc() needs at least a return contract"
  | wrongArguments d => "add_signature expects " ++ d
  | entryNotContract n s => "signature entry " ++ n ++ " is not a contract: " ++ s
  | memberMissing n => "signature symbol " ++ n ++ " not found in object"
  | notSignature s => "signed() needs a proc() signature, got " ++ s

inductive Fault where
  | input (b : Blame)
  | output (b : Blame) (reason : String)
  | member (b : Blame)
  | violation (description value : Value) (descriptionText shown : String)
  | misconfigured (m : Misconfiguration)
  | immutable (className : String)
  | badOperands
  | badArguments (function : String)
  /-- Raised by the program itself. -/
  | declared (c : BuiltinClass) (message : String)
  | invalidSettings (fields : List FieldFault)
  /-- The host refuses an operation; only the class of the error is told. -/
  | refused (c : BuiltinClass)
  deriving DecidableEq, Repr

namespace Fault

def cls : Fault → BuiltinClass
  | input _ => .inputTypeError
  | output _ _ => .outputTypeError
  | member _ => .signatureTypeError
  | violation .. => .contractViolation
  | misconfigured _ => .configurationError
  | immutable _ => .attributeError
  | badOperands | badArguments _ => .typeError
  | declared c _ => c
  | invalidSettings _ => .validationError
  | refused c => c

/-- The wording of every fault that has one. -/
def message? : Fault → Option String
  | input b => some ("input type mismatch in " ++ b.memberText ++ ": " ++ b.expectedText
      ++ "\nbut called with: " ++ b.shown)
  | output b reason => some ("output type mismatch in " ++ b.memberText ++ ": " ++ b.expectedText
      ++ "\n" ++ reason ++ ": " ++ b.shown)
  | member b => some ("signature type mismatch for " ++ b.memberText ++ ": " ++ b.expectedText
      ++ "\nbut found: " ++ b.shown)
  | violation _ _ d s => some ("contract mismatch: " ++ d ++ "\nbut got: " ++ s)
  | misconfigured m => some m.message
  | immutable c => some (c ++ " is immutable")
  | badOperands => some "bad operands"
  | badArguments f => some (f ++ "() bad arguments")
  | declared _ m => some m
  | invalidSettings _ | refused _ => none

/-- The values that the fault carries. -/
def fields : Fault → Fields Value
  | input b | output b _ | member b =>
    [("member", b.member), ("expected", b.expected), ("value", b.value)]
  | violation d v _ _ => [("description", d), ("value", v)]
  | _ => []

def typeError : Fault := refused .typeError
def attributeError : Fault := refused .attributeError

/-- Handlers for attribute errors also catch their refinements. -/
def isAttributeError (f : Fault) : Bool := .attributeError ∈ f.cls.line

@[simp] theorem cls_refused (c : BuiltinClass) : (refused c).cls = c := rfl

end Fault
end CallContracts
