import CallContracts.Value
/-! Contracts: a rule that values meet or not, with a description that is used in reports only.  A
contract holds the contracts it was built from, so nothing that happens to those later reaches it. -/
namespace CallContracts

mutual
/-- A contract is an object, and `id` is its place in the store. -/
inductive Contract where
  | mk (id : Ref) (description : Value) (rule : Rule)
/-- The rules.  `arrayOfAny` looks at the container only. -/
inductive Rule where
  | anything
  | kind (k : Kind)
  | instanceOf (cls : Value)
  | all (cs : List Contract)
  | any (cs : List Contract)
  | not (c : Contract)
  | maybe (c : Contract)
  | arrayOfAny
  | arrayOf (c : Contract)
  | product (cs : List Contract)
  | record (shape : List (Value × Contract))
  | function
  | test (f : Value)
  /-- What the object says itself when it is asked to run. -/
  | own
end

namespace Contract

def id : Contract → Ref
  | mk r _ _ => r
def description : Contract → Value
  | mk _ d _ => d
def rule : Contract → Rule
  | mk _ _ r => r
def value (c : Contract) : Value := .ref c.id

@[simp] theorem id_mk (r : Ref) (d : Value) (t : Rule) : (mk r d t).id = r := rfl
@[simp] theorem description_mk (r : Ref) (d : Value) (t : Rule) : (mk r d t).description = d := rfl
@[simp] theorem rule_mk (r : Ref) (d : Value) (t : Rule) : (mk r d t).rule = t := rfl

instance : Inhabited Contract := ⟨mk 0 .absent .anything⟩

/-- The attribute that a slot of a contract is shown under. -/
def shownSlots : List (String × String) :=
  [("test", "_test"), ("description", "_description"), ("params", "_params"), ("input", "_input"),
    ("ret", "_ret")]

/-- The slots of a contract, which no assignment reaches. -/
def slotNames : List String := shownSlots.map Prod.snd

end Contract

namespace Rule

/-- The path to the function that decides a rule. -/
def path : Rule → String
  | anything => "<lambda>"
  | kind _ => "_kind.<locals>.test"
  | instanceOf _ => "inst.<locals>.test"
  | all _ => "and_.<locals>.test"
  | any _ => "or_.<locals>.test"
  | not _ => "not_.<locals>.test"
  | maybe _ => "maybe.<locals>.test"
  | arrayOfAny | arrayOf _ => "array.<locals>.test"
  | product _ => "product.<locals>.test"
  | record _ => "record.<locals>.test"
  | function => "_is_function"
  | test _ | own => "test"

/-- The name of that function. -/
def name : Rule → String
  | anything => "<lambda>"
  | function => "_is_function"
  | _ => "test"

/-- The module of that function. -/
def home : Rule → String
  | kind _ | instanceOf _ => "pacta.atoms"
  | anything | function => "pacta.core.contract"
  | _ => "pacta.combinators"

end Rule
end CallContracts
