import CallContracts.Contract.Build
import CallContracts.Settings.Current
import CallContracts.Value.Arithmetic
import CallContracts.Wrapper.Basic
/-! The advice that enforces a signature around a call: arguments before the body runs, the result after
it returned.  A result that is promised to be a function is wrapped in turn, so that deeper layers are
checked when they are called.  Anything that has a signature, a member and a contract for arguments can
be such an advice. -/
namespace CallContracts
open Act

namespace Signature
variable (m : Machine)

/-- A check of the signature for a member of that name. -/
def check (signature member : Value) : Act Value := do
  let arguments ← Contract.product m (← m.read signature "params")
  alloc { cls := .builtin .signatureCheck, body := .plain
          attrs := some [("signature", signature), ("member", member), ("_arguments", arguments)] }

/-- Makes any object a check, as its class writes attributes. -/
def initialise (v signature member : Value) : Act Value := do
  m.write v "signature" signature
  m.write v "member" member
  m.write v "_arguments" (← Contract.product m (← m.read signature "params"))
  return .absent

/-- Whether a wrapper's own advice is a check. -/
def isSigned (v : Value) : Act Bool := do
  if ← isKind m v .wrapper then isKind m (← fieldOf m v "advice") .signatureCheck else return false

/-- Whether a value is outermost signed with this very signature. -/
def isSignedWith (v signature : Value) : Act Bool := do
  if ← isSigned m v then
    let advice ← fieldOf m v "advice"
    return (← fieldOf m advice "signature") = signature
  else return false

/-- Runs what should be a contract on a value. -/
def mismatches (contract v : Value) : Act Bool := do
  match (← get).contract? contract with
  | some c => return (← c.outcome m v) = .mismatched
  | none => return (← outcomeOf m (← m.call (← m.read contract "run") [v] [])) = .mismatched

/-- What a signature promises, as its own class says it. -/
def part (signature : Value) (n : String) : Act Value := do
  let s ← get
  match s.contract? signature, s.parts? signature with
  | some _, some p => return if n = "input" then p.input else p.ret
  | _, _ => m.read signature n

def descriptionOf (contract : Value) : Act Value := do
  match (← get).contract? contract with
  | some c => return c.description
  | none => m.read contract "description"

def blame (member expected v : Value) : Act Blame := do
  return ⟨member, expected, v, ← formatted m member, ← formatted m expected, ← shortText m v⟩

def rejectInput (message : String) (self expected v : Value) : Act Value := do
  logMessage (message ++ (← written m (← fieldOf m self "member")))
  fail (.input (← blame m (← fieldOf m self "member") expected v))

def rejectOutput (before after reason : String) (self ret v : Value) : Act Value := do
  logMessage (before ++ (← written m (← fieldOf m self "member")) ++ after)
  let member ← fieldOf m self "member"
  fail (.output (← blame m member (← descriptionOf m ret) v) reason)

/-- What the call returned, as the signature's return contract sees it. -/
def checkResult (self ret result : Value) : Act Value := do
  if ← isSignature m ret then
    if !(← get).isCallable result then
      rejectOutput m "output of " " is not callable" "but returned value is no function" self ret result
    else if ← isSigned m result then return result
    else
      let member ← Arithmetic.plus m (← fieldOf m self "member") (← setting "anonymous_suffix")
      Wrapper.around m result (← check m ret member)
  else if ← mismatches m ret result then
    rejectOutput m "output type mismatch in " "" "but returned" self ret result
  else return result

/-- Named arguments are refused unless the settings allow them. -/
def refusesNamed (named : Value) : Act Bool := do
  if ← truth m named then return !(← truth m (← setting "allow_keywords")) else return false

/-- Calls `proceed` between the two checks. -/
def enforce (self proceed args named : Value) : Act Value := do
  let expected ← descriptionOf m (← part m (← fieldOf m self "signature") "input")
  if ← refusesNamed m named then rejectInput m "keyword arguments rejected in " self expected named
  else if ← mismatches m (← fieldOf m self "_arguments") args then
    rejectInput m "input type mismatch in " self expected args
  else
    let result ← m.call proceed (← iterate m args) (← namedOf m named)
    checkResult m self (← part m (← fieldOf m self "signature") "ret") result

end Signature
end CallContracts
