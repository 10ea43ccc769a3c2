import CallContracts.Container.Iterate
import CallContracts.Text.Clip
/-! How a value is written out: in full, so that it can be told apart, plainly, or as it stands inside a
text.  A class of the program may say itself how.  A container met inside itself is a mark in its own
brackets; what has no brackets of its own is followed until the depth limit refuses it.  Objects without
any text of their own show their place. -/
namespace CallContracts
open Act Text

inductive Manner where
  | quoted | plain | formatted
  deriving DecidableEq, Repr

abbrev Chars := List Char

namespace Text

def commaJoin (xs : List Chars) : Chars := List.intercalate [',', ' '] xs

def flagName : Char → String
  | 'i' => "re.IGNORECASE" | 'm' => "re.MULTILINE" | 's' => "re.DOTALL" | 'x' => "re.VERBOSE"
  | 't' => "re.TEMPLATE" | _ => "re.ASCII"

/-- Two digits at least. -/
def padded (w n : Nat) : Chars :=
  let ds := Nat.toDigits 10 n
  List.replicate (w - ds.length) '0' ++ ds

def equation (k : String) (t : Chars) : Chars := k.toList ++ '=' :: t

def braces (t : Chars) : Chars := '\x7b' :: t ++ ['\x7d']
def brackets (ts : List Chars) : Chars := '[' :: commaJoin ts ++ [']']

/-- A name and what it is applied to. -/
def applied (name : Chars) (ts : List Chars) : Chars := name ++ '(' :: commaJoin ts ++ [')']

def tupleText : List Chars → Chars
  | [t] => '(' :: t ++ [',', ')']
  | ts => '(' :: commaJoin ts ++ [')']

def numbers (ns : List Nat) : List Chars := ns.map (Nat.toDigits 10)

end Text

/-- The place of an object, as it ends a text. -/
def placed (r : Ref) : Chars := " at 0x7f".toList ++ hex 10 (16 * r) ++ ['>']

/-- Functions of the library have places of their own. -/
def libraryPlace : Chars := placed 0

namespace Store

/-- The name under which the members of a class are shown. -/
def hostName (s : Store) : ClassId → String
  | .builtin c => c.hostName
  | c => s.nameOfClass c

/-- The class of an object without a text of its own. -/
def fullName (s : Store) (c : ClassId) : String :=
  match c with
  | .builtin b => b.fullName
  | .defined r => match (s.classAttrs r).get? "__module__" with
    | some (.str h) => if h = "builtins" then s.nameOfClass c else h ++ "." ++ s.pathOfClass c
    | _ => s.nameOfClass c

def showOperation (s : Store) (o : Operation) : Chars :=
  let of (word n owner : String) :=
    '<' :: word.toList ++ " '".toList ++ n.toList ++ "' of '".toList ++ owner.toList ++ "' objects>".toList
  match o with
  | .fromEnvironment =>
    "<bound method Settings.from_env of ".toList ++ BuiltinClass.settings.shown.toList ++ ['>']
  | .member c n .method | .member c n .ofClass => of "method" n c.hostName
  | .member c n .slot => of "slot wrapper" n c.hostName
  | .member _ _ .property => "<property object".toList ++ libraryPlace
  | .member c n .storage => of "member" n c.hostName
  | .member c n .getter => of "attribute" n c.hostName
  | .member _ n .fixed =>
    "<built-in method ".toList ++ n.toList ++ " of type object".toList ++ libraryPlace
  | .placeOf r n .storage => of "member" n (s.nameOfClass (.defined r))
  | .placeOf r n _ => of "attribute" n (s.nameOfClass (.defined r))
  | o => if o.ownClass = .builtinFunction then "<built-in function ".toList ++ o.name.toList ++ ['>']
    else "<function ".toList ++ o.path.toList ++ libraryPlace

end Store

/-- A whole number has no text beyond a number of digits. -/
def wholeText (i : Int) : Act Chars :=
  if Numeral.tenTo Numeral.mostDigits ≤ i.natAbs then refuse .valueError else pure (toString i).toList

/-- How a simple value is written by an instance of the class of that name. -/
def showScalar (name : Chars) : Manner → Scalar → Act Chars
  | _, .float x => pure x.text.toList
  | _, .complex re im => pure (Numeral.complexText re im).toList
  | .quoted, .decimal x => pure ("Decimal('".toList ++ x.write ++ "')".toList)
  | _, .decimal x => pure x.write
  | .quoted, .fraction r => do return applied name [← wholeText r.num, ← wholeText r.den]
  | _, .fraction r => do
    let n ← wholeText r.num
    let d ← wholeText r.den
    return n ++ (if r.den = 1 then [] else '/' :: d)
  | _, .bytes bs => pure (quoteBytes bs)
  | .quoted, .date y m d => pure (applied name (numbers [y, m, d]))
  | _, .date y m d => pure (padded 4 y ++ '-' :: padded 2 m ++ '-' :: padded 2 d)
  | .quoted, .datetime y mo d h mi sec us =>
    pure (applied name (numbers ([y, mo, d, h, mi] ++ (if sec ≠ 0 ∨ us ≠ 0 then [sec] else [])
      ++ (if us ≠ 0 then [us] else []))))
  | _, .datetime y mo d h mi sec us =>
    pure (padded 4 y ++ '-' :: padded 2 mo ++ '-' :: padded 2 d ++ ' ' :: padded 2 h ++ ':' :: padded 2 mi
      ++ ':' :: padded 2 sec ++ (if us ≠ 0 then '.' :: padded 6 us else []))
  | _, .regex p flags =>
    let names := flags.map fun f => (flagName f).toList
    pure ("re.compile(".toList ++ (quote p.toList).take 200
      ++ (if names = [] then [] else ", ".toList ++ List.intercalate ['|'] names) ++ [')'])

/-- What a container shows in its place when it is met inside itself. -/
def Store.mark? (s : Store) (o : Obj) : Option Chars :=
  let name := (s.nameOfClass o.cls).toList
  let own := name ++ "(...)".toList
  match o.body with
  | .list _ | .deque _ => some "[...]".toList
  | .tuple _ => some "(...)".toList
  | .set _ => some own
  | .table _ =>
    if s.builtinBase o.cls = .orderedDict then some dots else some (braces dots)
  | .partialCall .. | .view .. => some dots
  | .plain => match s.builtinBase o.cls with
    | .attributeBag => some (if o.cls = .builtin .attributeBag then "namespace(...)".toList else own)
    | .matched | .mismatched => some dots
    | _ => none
  | _ => none

section native
variable (m : Machine) (write : Manner → Value → Act Chars)

def quotedAll (xs : List Value) : Act (List Chars) := each (write .quoted) xs

def showFields (fs : Fields Value) : Act (List Chars) :=
  each (fun f => do return equation f.1 (← write .quoted f.2)) fs

def showEntries (es : List (Value × Value)) : Act Chars := do
  let ts ← each (fun e => do
    let k ← write .quoted e.1
    return k ++ ':' :: ' ' :: (← write .quoted e.2)) es
  return braces (commaJoin ts)

def showPairs (es : List (Value × Value)) : Act Chars := do
  let ts ← each (fun e => do
    let k ← write .quoted e.1
    return tupleText [k, ← write .quoted e.2]) es
  return brackets ts

/-- The fields of a result, read one by one. -/
def showRead (v : Value) : List String → Act (List Chars)
  | [] => pure []
  | n :: ns => do
    let t ← write .quoted (← fieldOf m v n)
    return equation n t :: (← showRead v ns)

def showModule (v : Value) : Act Chars := do
  let s ← get
  let name ← match s.attr? v "__name__" with
    | some n => write .quoted n
    | none => pure "'?'".toList
  let loader := (s.attr? v "__loader__").getD .absent
  let after ← match s.attr? v "__file__" with
    | some f => do pure (" from ".toList ++ (← write .quoted f))
    | none => if loader = .absent then pure [] else do
        pure (" (".toList ++ (← write .quoted loader) ++ [')'])
  return "<module ".toList ++ name ++ after ++ ['>']

/-- An object as the builtin class `b` describes it by its attributes. -/
def showPlain (b : BuiltinClass) (manner : Manner) (v : Value) (r : Ref) (o : Obj) : Act Chars := do
  let s ← get
  let name := (s.nameOfClass o.cls).toList
  let path := (s.pathOfClass o.cls).toList
  match b with
  | .attributeBag =>
    let ts ← showFields write (((s.attrs? v).getD []).filter fun f => f.1 ≠ "")
    return applied (if o.cls = .builtin .attributeBag then "namespace".toList else name) ts
  | .matched => return applied path (← showRead m write v ["contract"])
  | .mismatched => return applied path (← showRead m write v ["description", "value"])
  | .settings =>
    let ts ← showFields write ((s.attrs? v).getD [])
    if manner = .quoted then return applied name ts else return List.intercalate [' '] ts
  | .wrapper | .unboundWrapper | .classWrapper =>
    return "<Interceptor of ".toList ++ (← write .quoted (← fieldOf m v "proceed")) ++ ['>']
  | .signatureCheck =>
    let member ← write .formatted (← fieldOf m v "member")
    let description ← m.read (← fieldOf m v "signature") "description"
    return "<SignatureCheck ".toList ++ member ++ ": ".toList ++ (← write .formatted description) ++ ['>']
  | .contract | .signature =>
    return '<' :: name ++ ' ' :: (← write .quoted (← m.read v "_description")) ++ ['>']
  | .module => showModule write v
  | .root => return '<' :: name ++ ['>']
  | .undefined => return "UNDEFINED".toList
  | _ => return '<' :: (s.fullName o.cls).toList ++ " object".toList ++ placed r

/-- A method and what it is bound to. -/
def showBound (f self : Value) (r : Ref) : Act Chars := do
  let s ← get
  let host (word n : String) := '<' :: word.toList ++ n.toList ++ " of ".toList
    ++ (s.hostName (s.classOf self)).toList ++ " object".toList ++ placed r
  match f with
  | .operation (.member _ n .method) | .operation (.member _ n .ofClass) =>
    return host "built-in method " n
  | .operation (.member _ n .slot) => return host "method-wrapper " ("'" ++ n ++ "'")
  | _ =>
    let path := (← optional (m.read f "__qualname__")).bind (← get).text?
    let name ← match path with
      | some p => pure p
      | none => do pure (((← optional (m.read f "__name__")).bind (← get).text?).getD "?")
    return "<bound method ".toList ++ name.toList ++ " of ".toList ++ (← write .quoted self) ++ ['>']

def showView (v : Value) (part : Part) (of : Value) : Act Chars := do
  let s ← get
  let name := (s.typeName v).toList
  match part, s.entries? of with
  | .keys, some es => return applied name [brackets (← quotedAll write (es.map Prod.fst))]
  | .values, some es => return applied name [brackets (← quotedAll write (es.map Prod.snd))]
  | .items, some es => return applied name [← showPairs write es]
  | _, none => return applied name [← write .quoted of]

/-- An ordered table of a class of the program asks itself for its items. -/
def showOrdered (v : Value) (es : List (Value × Value)) : Act Chars := do
  let s ← get
  let name := (s.typeName v).toList
  if es = [] then return applied name []
  else if s.overrides (s.classOf v) ["items"] then
    let items ← iterate m (← m.call (← m.read v "items") [] [])
    return applied name [brackets (← quotedAll write items)]
  else return applied name [← showPairs write es]

def showException (manner : Manner) (name : Chars) (isKey : Bool) (args : List Value) : Act Chars := do
  match manner, args with
  | .quoted, vs => return applied name (← quotedAll write vs)
  | _, [] => return []
  | _, [v] => write (if isKey then .quoted else .plain) v
  | _, vs => return tupleText (← quotedAll write vs)

def showBody (manner : Manner) (v : Value) (r : Ref) (o : Obj) : Act Chars := do
  let s ← get
  let name := (s.nameOfClass o.cls).toList
  match o.body with
  | .plain => showPlain m write (s.builtinBase o.cls) manner v r o
  | .boxed w => write manner w
  | .scalar x => showScalar (s.hostName o.cls).toList manner x
  | .list xs => return brackets (← quotedAll write xs)
  | .tuple xs => return tupleText (← quotedAll write xs)
  | .deque xs => return applied name [brackets (← quotedAll write xs)]
  | .set xs =>
    let ts ← quotedAll write (← sortedOr m xs)
    if ts = [] then return applied name []
    else if o.cls = .builtin .set then return braces (commaJoin ts)
    else return applied name [braces (commaJoin ts)]
  | .table es =>
    if s.builtinBase o.cls = .orderedDict then showOrdered m write v es else showEntries write es
  | .proxy of => match s.class? of, s.entries? v with
    | some _, some es => return applied name [← showEntries write es]
    | _, _ => if manner = .quoted then return applied name [← write .quoted of] else write .plain of
  | .view part of => showView write v part of
  | .function f => return "<function ".toList ++ f.path.toList ++ placed r
  | .bound f self => showBound m write f self r
  | .partialCall f args named =>
    let ts ← quotedAll write (f :: args)
    let named ← showFields write named
    return applied (s.hostName o.cls).toList (ts ++ named)
  | .staticMethod f => return "<staticmethod(".toList ++ (← write .quoted f) ++ [')', '>']
  | .classMethod f => return "<classmethod(".toList ++ (← write .quoted f) ++ [')', '>']
  | .contract c _ _ => return '<' :: name ++ ' ' :: (← write .quoted c.description) ++ ['>']
  | .exception args _ => showException write manner name (s.isA v .keyError) args
  | .cls _ => return "<class '".toList ++ (s.fullName (.defined r)).toList ++ ['\'', '>']
  | .property .. | .iterator _ =>
    return '<' :: (s.fullName o.cls).toList ++ " object".toList ++ placed r

end native

/-- What shows nothing but its class and its place. -/
def showPlace (s : Store) (v : Value) : Chars :=
  '<' :: (s.fullName (s.classOf v)).toList ++ " object".toList ++ placed (match v with | .ref r => r | _ => 0)

/-- Whether a class has a plain form that is not its full one. -/
def Store.hasPlainForm (s : Store) (c : ClassId) : Bool :=
  (s.builtinBase c).line.any fun b => b ≠ .object && b.ownMembers.any (·.1 = "__str__")

/-- What a class says about the text of its instance. -/
def declaredText (m : Machine) (v f : Value) (args : List Value) : Act Chars := do
  let t ← callSpecial m v f args
  String.toList <$> ofOption .typeError ((← get).text? t)

/-- Writes a value out; `path` holds the containers that are being written. -/
def writeAt (m : Machine) : Nat → List Ref → Manner → Value → Act Chars
  | 0, _, _, _ => refuse .recursionError
  | n + 1, path, manner, v => do
    match v with
    | .absent => return "None".toList
    | .undefined => return "UNDEFINED".toList
    | .notImplemented => return "NotImplemented".toList
    | .bool b => return (if b then "True" else "False").toList
    | .int i => wholeText i
    | .str t => return if manner = .quoted then quote t.toList else t.toList
    | .builtinClass c => return c.shown.toList
    | .operation o => return (← get).showOperation o
    | .ref r =>
      let s ← get
      match s.get? r with
      | none => return []
      | some o =>
        let native (manner : Manner) : Act Chars :=
          match s.mark? o with
          | none => showBody m (writeAt m n path) manner v r o
          | some t => if r ∈ path then pure t else showBody m (writeAt m n (r :: path)) manner v r o
        let quoted := match s.override? o.cls "__repr__" with
          | some f => declaredText m v f []
          | none => native .quoted
        let plain := match s.override? o.cls "__str__" with
          | some f => declaredText m v f []
          | none => if s.hasPlainForm o.cls then native .plain else quoted
        match manner, s.override? o.cls "__format__" with
        | .quoted, _ => quoted
        | .formatted, some f => declaredText m v f [.str ""]
        | _, _ => plain

/-- How the builtin ancestor of a class writes its instance. -/
def nativeText (m : Machine) (manner : Manner) (v : Value) : Act Chars := do
  let s ← get
  match v, s.obj? v with
  | .ref r, some o =>
    let manner := if s.hasPlainForm o.cls then manner else .quoted
    showBody m (writeAt m depthLimit [r]) manner v r o
  | _, _ => writeAt m depthLimit [] manner v

def textAs (m : Machine) (manner : Manner) (v : Value) : Act Chars := writeAt m depthLimit [] manner v

def shown (m : Machine) (v : Value) : Act String := String.ofList <$> textAs m .quoted v
def written (m : Machine) (v : Value) : Act String := String.ofList <$> textAs m .plain v
def formatted (m : Machine) (v : Value) : Act String := String.ofList <$> textAs m .formatted v

end CallContracts
