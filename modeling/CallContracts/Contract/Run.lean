import CallContracts.Container.Iterate
/-! Running a contract: whether a value meets a rule.  Rules are tried in order and no further than
needed.  A contract of a class of the program, or one that was taken apart, runs as its class says, and
its answer may be neither a match nor a mismatch: what needs every part to match goes on then, and what
needs one match does not take it for one. -/
namespace CallContracts
open Act

inductive Outcome where
  | matched | mismatched | neither
  deriving DecidableEq, Repr

/-- What a result stands for. -/
def outcomeOf (m : Machine) (v : Value) : Act Outcome := do
  if ← isKind m v .matched then return .matched
  else if ← isKind m v .mismatched then return .mismatched
  else return .neither

/-- The attributes of a value of kind object, as it says itself. -/
def declaredFields (m : Machine) (v : Value) : Act (Option Cursor) := do
  let items ← orElseOn .typeError (do
    match ← optional (m.read v "__dict__") with
    | none => return none
    | some t => return some (← m.call (← m.read t "items") [] [])) (pure none)
  match items with
  | none => return none
  | some items => return some (← cursorOf m items)

/-- The fields that a record contract inspects: those of a mapping, or the own attributes of a value of
kind object that is no array. -/
def ownFields (m : Machine) (v : Value) : Act (Option Cursor) := do
  if ← isMapping m v then return some (← itemsOf m v)
  else if (← kindOf m v) ≠ .object then return none
  else if ← isArray m v then return none
  else
    let s ← get
    if s.hidesTable v then declaredFields m v
    else if s.isClass v || (s.attrs? v).isSome then return some (s.overAttributes .items v)
    else return none

/-- The name and the value of a field. -/
def fieldParts (m : Machine) : Given → Act (Value × Value)
  | .entry k v => pure (k, v)
  | .value v => asPair m v

mutual
/-- What running a contract on a value comes to. -/
def Contract.outcome (m : Machine) : Contract → Value → Act Outcome
  | .mk r _ t, v => do
    if ((← get).contract? (.ref r)).isSome then
      if ← t.holds m v then return .matched else return .mismatched
    else outcomeOf m (← m.call (← m.read (.ref r) "run") [v] [])
/-- Whether a value meets a rule. -/
def Rule.holds (m : Machine) : Rule → Value → Act Bool
  | .anything, _ => pure true
  | .kind k, v => if v = .absent then pure false else do return (← kindOf m v) = k
  | .instanceOf c, v => belongsTo m depthLimit v c
  | .all cs, v => noneFails m cs v
  | .any cs, v => someMatches m cs v
  | .not c, v => do return (← c.outcome m v) = .mismatched
  | .maybe c, v => if v = .absent then pure true else do return (← c.outcome m v) = .matched
  | .arrayOfAny, v => isArray m v
  | .arrayOf c, v => do
    if ← isArray m v then
      let xs ← cursorOf m v
      xs.every m (fun x => do return (← c.outcome m (← x.toValue)) ≠ .mismatched) ((← get).bound xs)
    else return false
  | .product cs, v => do
    if !(← isArray m v) then return false
    if (← lengthOf m v) ≠ cs.length then return false
    eachPasses m cs (← cursorOf m v)
  | .record shape, v => do
    match ← ownFields m v with
    | none => return false
    | some fs => fs.every m (fun f => do
        let (n, x) ← fieldParts m f
        checkKey m n
        fieldPasses m shape n x) ((← get).bound fs)
  | .function, v => do return (← kindOf m v) = .function
  | .test f, v => do truth m (← m.call f [v] [])
  | .own, _ => refuse .attributeError
/-- Every contract in turn, up to the first mismatch. -/
def noneFails (m : Machine) : List Contract → Value → Act Bool
  | [], _ => pure true
  | c :: cs, v => do
    if (← c.outcome m v) = .mismatched then return false else noneFails m cs v
/-- Every contract in turn, up to the first match. -/
def someMatches (m : Machine) : List Contract → Value → Act Bool
  | [], _ => pure false
  | c :: cs, v => do
    if (← c.outcome m v) = .matched then return true else someMatches m cs v
/-- Contracts and items position by position, while there are both. -/
def eachPasses (m : Machine) : List Contract → Cursor → Act Bool
  | [], _ => pure true
  | c :: cs, xs => do
    match ← xs.next m with
    | none => return true
    | some (x, xs) =>
      if (← c.outcome m (← x.toValue)) = .mismatched then return false else eachPasses m cs xs
/-- A field needs a contract of its name and a value to show it. -/
def fieldPasses (m : Machine) : List (Value × Contract) → Value → Value → Act Bool
  | [], _, _ => pure false
  | (k, c) :: shape, n, v => do
    if ← sameKey m k n then
      if v = .undefined then return false else return (← c.outcome m v) ≠ .mismatched
    else fieldPasses m shape n v
end

namespace Contract

def newMatch (contract : Value) : Act Value :=
  alloc { cls := .builtin .matched, body := .plain, attrs := some [("contract", contract)] }

def newMismatch (description v : Value) : Act Value :=
  alloc { cls := .builtin .mismatched, body := .plain
          attrs := some [("description", description), ("value", v)] }

/-- The result of running a contract: a match names the contract, a mismatch its description and the
value. -/
def run (m : Machine) (c : Contract) (v : Value) : Act Value := do
  if ← c.rule.holds m v then newMatch c.value else newMismatch c.description v

/-- The same for anything that has a test and a description. -/
def runOn (m : Machine) (self v : Value) : Act Value := do
  match (← get).contract? self with
  | some c => c.run m v
  | none =>
    if ← truth m (← m.call (← m.read self "_test") [v] []) then newMatch self
    else newMismatch (← m.read self "_description") v

end Contract

section laws
variable (m : Machine) (v : Value)

@[simp] theorem noneFails_nil : noneFails m [] v = pure true := by simp [noneFails]
@[simp] theorem someMatches_nil : someMatches m [] v = pure false := by simp [someMatches]
theorem noneFails_cons (c : Contract) (cs : List Contract) :
    noneFails m (c :: cs) v = (do
      if (← c.outcome m v) = .mismatched then return false else noneFails m cs v) := by
  simp [noneFails]
theorem someMatches_cons (c : Contract) (cs : List Contract) :
    someMatches m (c :: cs) v = (do
      if (← c.outcome m v) = .matched then return true else someMatches m cs v) := by
  simp [someMatches]

end laws
end CallContracts
