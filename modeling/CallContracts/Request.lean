import CallContracts.Answer.OfValue
import CallContracts.Call
/-! Requests and their answers.  Every request starts from the same store, and a script goes on after a
step that failed. -/
namespace CallContracts
open Act

/-- A step of a script; one with a name binds its value, if it has one. -/
structure Step where
  name : Option String
  expr : Expr

inductive Request where
  | eval (e : Expr)
  | kinds (values : List Expr)
  | run (contract : Expr) (values : List Expr)
  | check (contracts : List Expr) (args : Expr)
  | shortText (value : Expr) (limit : Int)
  | script (steps : List Step) (logs : Bool)

namespace Request

def evaluate (e : Expr) : Act Value := e.eval Machine.full []

/-- The answer to what ended a computation; a fault that cannot be told in full is told by its kind. -/
def answerStop (s : Store) : Stop → Answer × Store
  | .exhausted => (.record [("error", .str BuiltinClass.recursionError.name)], s)
  | .raised f => match Answer.ofFault Machine.full f s with
    | .ok a s => (a, s)
    | .error _ s => (.record [("error", .str f.cls.name)], s)

/-- The answer that a computation comes to, whether it ends well or not. -/
def settle (x : Act Answer) : Act Answer := fun s =>
  match x s with
  | .ok a s => .ok a s
  | .error e s => .ok (answerStop s e).1 (answerStop s e).2

def answerOf (v : Value) : Act Answer := Answer.ofValue Machine.full v

def answerTruth (x : Act Bool) : Act Answer := settle do return .bool (← x)

def evalAnswer (e : Expr) : Act Answer := do
  return .record [("ok", ← answerOf (← evaluate e))]

def kindAnswer (e : Expr) : Act Answer := do
  return .str (← kindOf Machine.full (← evaluate e)).name

/-- Whether running the value under `contract` gives a match. -/
def matchAnswer (contract : Value) (e : Expr) : Act Bool := do
  let run ← Machine.full.read contract "run"
  let r ← Machine.full.call run [← evaluate e] []
  isKind Machine.full r .matched

def runAnswer (contract : Expr) (values : List Expr) : Act Answer := do
  let c ← evaluate contract
  let shown ← answerOf c
  let results ← each (fun e => answerTruth (matchAnswer c e)) values
  return .record [("contract", shown), ("results", .list results)]

/-- The truth of what a function made from contracts says about an argument list. -/
def verdict (o : Operation) (contracts : List Value) (args : Value) : Act Answer :=
  settle do
    let f ← Machine.full.call (.operation o) contracts []
    answerOf (← Machine.full.call f [args] [])

def checkAnswer (contracts : List Expr) (args : Expr) : Act Answer := do
  let cs ← each evaluate contracts
  let v ← evaluate args
  let test ← verdict .test cs v
  return .record [("test", test), ("contract", ← verdict .contract cs v)]

def shortAnswer (e : Expr) (limit : Int) : Act Answer := do
  putOwn (.ref settingsRef) "repr_limit" (.int limit)
  return .record [("ok", .str (← CallContracts.shortText Machine.full (← evaluate e)))]

def bindGlobal (n : String) (v : Value) : Act Unit :=
  modify fun s => { s with globals := s.globals.put n v }

def stepAnswer (step : Step) : Act Answer := do
  let v ← evaluate step.expr
  match step.name with
  | some n => bindGlobal n v
  | none => pure ()
  return .record [("ok", ← answerOf v)]

/-- A message, with who wrote it and how loudly. -/
def answerMessage (t : String) : Answer :=
  .list [.str "pacta.signature", .str "DEBUG", .str t]

/-- Adds what was recorded since the records were last emptied. -/
def withRecords (logs : Bool) (a : Answer) : Act Answer := do
  let s ← get
  let trace := if s.trace.isEmpty then [] else [("trace", Answer.list s.trace)]
  let messages := if logs then [("logs", Answer.list (s.log.map answerMessage))] else []
  match a with
  | .record fs => return .record (fs ++ trace ++ messages)
  | a => return a

def forget : Act Unit := modify fun s => { s with log := [], trace := [] }

def stepsAnswer (logs : Bool) : List Step → Act (List Answer)
  | [] => pure []
  | step :: steps => do
    forget
    let a ← settle (stepAnswer step)
    let a ← withRecords logs a
    let r ← stepsAnswer logs steps
    return a :: r

def answerIn : Request → Act Answer
  | .eval e => do withRecords false (← settle (evalAnswer e))
  | .kinds es => do
    let ks ← each (fun e => settle (kindAnswer e)) es
    withRecords false (.record [("ok", .list ks)])
  | .run c es => do withRecords false (← settle (runAnswer c es))
  | .check cs e => do withRecords false (← settle (checkAnswer cs e))
  | .shortText e limit => do withRecords false (← settle (shortAnswer e limit))
  | .script steps logs => do return .record [("steps", .list (← stepsAnswer logs steps))]

/-- The answer to a request; places of objects are hidden in its texts. -/
def answer (r : Request) : Answer :=
  match r.answerIn Store.initial with
  | .ok a _ => a.masked
  | .error e s => (answerStop s e).1.masked

end Request
end CallContracts
