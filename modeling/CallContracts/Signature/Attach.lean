import CallContracts.Contract.Standard
import CallContracts.Signature.Check
import CallContracts.Wrapper.Around
/-! Attaching signatures to the members of a target.  First every entry is looked at in the order of the
map: a callable member with a signature is noted, every other member is checked at once.  Only then the
noted members are wrapped. -/
namespace CallContracts
open Act

namespace Signature
variable (m : Machine) (target : Value)

def hasMember (name : Value) : Act Bool := do
  if ← isMapping m target then contains m target name else hasAttribute m target name

def memberOf (name : Value) : Act Value := do
  if ← isMapping m target then Item.get m target name else getAttribute m target name

def logAgainst (before between : String) (name entry : Value) : Act Unit := do
  let description ← descriptionOf m entry
  let n ← written m name
  logMessage (before ++ n ++ between ++ (← written m description))

/-- Checks a member that is not called. -/
def checkMember (entry name member : Value) : Act Unit := do
  logAgainst m "checking " " against " name entry
  if ← mismatches m entry member then
    let description ← descriptionOf m entry
    fail (.member (← blame m name description member))

/-- Looks at one entry; the answer is whether its member is to be wrapped. -/
def examine (name entry : Value) : Act Bool := do
  if !(← isContract m entry) then
    let n ← formatted m name
    fail (.misconfigured (.entryNotContract n (← shown m entry)))
  if !(← hasMember m target name) then
    fail (.misconfigured (.memberMissing (← formatted m name)))
  let member ← memberOf m target name
  let isCall ← if (← get).isCallable member then isSignature m entry else pure false
  if !isCall then
    checkMember m entry name member
    return false
  else if ← isSignedWith m member entry then
    logAgainst m "" " already checked against " name entry
    return false
  else return true

/-- The entries whose members are to be wrapped. -/
def pending (noted : List (Value × Value)) : Nat → Cursor → Act (List (Value × Value))
  | 0, _ => throw .exhausted
  | n + 1, c => do
    match ← c.next m with
    | none => return noted
    | some (x, c) =>
      let (name, entry) ← fieldParts m x
      let wraps ← examine m target name entry
      pending (if wraps then noted ++ [(name, entry)] else noted) n c

/-- Wraps one member. -/
def wrapNoted (name entry : Value) : Act Unit := do
  let advice ← check m entry name
  let _ ← Wrapper.install m target name advice
  logAgainst m "checking calls of " " against " name entry

def wrapAll : List (Value × Value) → Act Unit
  | [] => pure ()
  | (name, entry) :: es => do
    wrapNoted m target name entry
    wrapAll es

def attach (signatures target : Value) : Act Value := do
  let pair ← newTuple [signatures, target]
  if (← Contract.attachment.outcome m pair) = .mismatched then
    fail (.misconfigured (.wrongArguments (← Contract.attachment.inserted m)))
  let items ← itemsOf m signatures
  let noted ← pending m target [] ((← get).bound items) items
  wrapAll m target noted
  return target

/-- Wraps a single function; its name is its own, or else its text. -/
def sign (signature f : Value) : Act Value := do
  let text ← shown m f
  let name := (← optional (m.read f "__name__")).getD (.str text)
  Wrapper.around m f (← check m signature name)

end Signature
end CallContracts
