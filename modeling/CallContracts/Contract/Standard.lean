import CallContracts.Contract.Build
import CallContracts.Settings.Current
/-! The contracts that are there from the start, at fixed places, and the store in which a program
starts. -/
namespace CallContracts
namespace Contract

def named (r : Ref) (d : String) (t : Rule) : Contract := .mk r (.str d) t

def ofKind (r : Ref) (k : Kind) : Contract := named r ("type " ++ k.name) (.kind k)
def ofClass (r : Ref) (c : BuiltinClass) : Contract :=
  named r ("instance of " ++ c.name) (.instanceOf (.builtinClass c))

def anything : Contract := named anyRef "any" .anything
def string : Contract := ofKind 2 .string
def number : Contract := ofKind 3 .number
def boolean : Contract := ofKind 4 .boolean
def function : Contract := ofKind 5 .function
def undefined : Contract := ofKind 6 .undefined
def date : Contract := ofClass 7 .date
def regex : Contract := ofClass 8 .pattern
def objectKind : Contract := ofKind 9 .object
def anyArray : Contract := named 10 "[any]" .arrayOfAny
def noArray : Contract := named 11 "not([any])" (.not anyArray)
def noDate : Contract := named 12 "not(instance of date)" (.not date)

/-- Structural objects: neither arrays nor dates. -/
def object : Contract :=
  named 13 "(type object) & (not([any])) & (not(instance of date))" (.all [objectKind, noArray, noDate])

def mapping : Contract := ofClass 14 .mapping
def signatureMap : Contract :=
  named 15 "((type object) & (not([any])) & (not(instance of date))) & (instance of Mapping)"
    (.all [object, mapping])

/-- What an attachment takes: a map of signatures and a target. -/
def attachment : Contract :=
  named 16 ("(((type object) & (not([any])) & (not(instance of date))) & (instance of Mapping)) x "
    ++ "((type object) & (not([any])) & (not(instance of date)))") (.product [signatureMap, object])

/-- In the order of their places, after the settings. -/
def standard : List Contract :=
  [anything, string, number, boolean, function, undefined, date, regex, objectKind, anyArray, noArray,
    noDate, object, mapping, signatureMap, attachment]

theorem standard_places : standard.map Contract.id = List.range' 1 16 := by decide

/-- A contract at its place; the function that decides it comes so many places later. -/
def standardObject (c : Contract) : Obj :=
  { cls := .builtin .contract, body := .contract c (.ref (c.id + standard.length)) none }

def standardPredicate (c : Contract) : Obj :=
  { cls := .builtin .function
    body := .function ⟨c.rule.name, c.rule.path, .str c.rule.home, .absent, .predicate c.rule⟩
    attrs := some [] }

end Contract

def Store.initial : Store where
  heap := (Settings.object {} :: Contract.standard.map Contract.standardObject
    ++ Contract.standard.map Contract.standardPredicate).toArray

end CallContracts
