import CallContracts.Attribute.Write
/-! Replacing a member of a target by a wrapper around it.  On a mapping it is the value under a key, on
an instance or module the attribute, on a class the member as the class holds it: a static method stays
static, and a class method goes on binding the class that it is read from. -/
namespace CallContracts
open Act

namespace Wrapper
variable (m : Machine)

/-- A static or class method takes over the titles of what it holds. -/
def holding (c : BuiltinClass) (body : Value → Body) (f : Value) : Act Value := do
  let titles ← copiedTitles m f titles
  alloc { cls := .builtin c, body := body f, attrs := some titles }

def staticMethod (f : Value) : Act Value := holding m .staticMethod .staticMethod f
def classMethod (f : Value) : Act Value := holding m .classMethod .classMethod f

/-- The member as the class or its own class holds it. -/
def storedMember (s : Store) (c : ClassId) (n : String) : Option Value :=
  s.classMember? c n <|> s.classMember? (s.metaclass c) n

/-- What can be wrapped as it is stored, because the wrapper binds it later. -/
def bindsLater (raw : Value) : Act Bool := do
  if ← isKind m raw .function then return true else isKind m raw .wrapper

def wrapMember (target : Value) (c : ClassId) (n : String) (advice : Value) : Act Value := do
  let raw ← ofOption .attributeError (storedMember (← get) c n)
  match (← get).body? raw with
  | some (.staticMethod f) =>
    let w ← around m f advice
    m.write target n (← staticMethod m w)
    return w
  | body =>
    let w ← match body with
      | some (.classMethod f) => ofClass m f advice
      | _ =>
        if ← isKind m raw .classWrapper then ofClass m raw advice
        else if ← bindsLater m raw then around m raw advice
        else do around m (← m.read target n) advice
    m.write target n w
    return w

def aroundClassMember (target : Value) (c : ClassId) (name advice : Value) : Act Value := do
  match (← get).text? name with
  | some n => wrapMember m target c n advice
  | none =>
    checkKey m name
    refuse .attributeError

/-- Installs a wrapper in place of the member. -/
def install (target name advice : Value) : Act Value := do
  if ← isMapping m target then
    let w ← around m (← Item.get m target name) advice
    Item.put m target name w
    return w
  else
    match (← get).class? target, ← isKind m target .type with
    | some c, true => aroundClassMember m target c name advice
    | none, true => refuse .attributeError
    | _, false =>
      let w ← around m (← getAttribute m target name) advice
      setAttribute m target name w
      return w

end Wrapper
end CallContracts
