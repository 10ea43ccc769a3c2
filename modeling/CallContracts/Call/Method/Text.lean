import CallContracts.Container.Iterate
import CallContracts.Text.Identifier
/-! Methods of texts.  Letters beyond ASCII have no other case here. -/
namespace CallContracts
open Act

namespace Method

/-- Where a text is first found in another. -/
def findIn (t : List Char) : List Char → Option Nat
  | [] => if t = [] then some 0 else none
  | c :: r => if t.isPrefixOf (c :: r) then some 0 else (findIn t r).map (· + 1)

/-- The pieces between the places where a mark stands; no more than so many marks count. -/
def piecesBy (mark : List Char) : Nat → List Char → List (List Char)
  | 0, s => [s]
  | n + 1, s => match findIn mark s with
    | none => [s]
    | some i => s.take i :: piecesBy mark n (s.drop (i + mark.length))

/-- The words between blanks. -/
def words (s : List Char) : List (List Char) :=
  (s.splitBy fun a b => Text.isSpace a == Text.isSpace b).filter fun w => !w.any Text.isSpace

/-- A text with another in place of each mark; nothing stands before, between and after all characters. -/
def replaced (mark new s : List Char) : List Char :=
  if mark = [] then new ++ s.flatMap (· :: new)
  else List.intercalate new (piecesBy mark s.length s)

def stripped (front back : Bool) (drops : Char → Bool) (s : List Char) : List Char :=
  let s := if front then s.dropWhile drops else s
  if back then (s.reverse.dropWhile drops).reverse else s

def newText (s : List Char) : Value := .str (String.ofList s)

def ofText (m : Machine) (t : List Char) (n : String) (args : List Value) : Act Value := do
  let s ← get
  let texts ← match n with
    | "join" => pure []
    | _ => each (fun v => do return (← ofOption .typeError (s.text? v)).toList) args
  let strip (front back : Bool) : Act Value := match texts with
    | [] => return newText (stripped front back Text.isSpace t)
    | [u] => return newText (stripped front back (· ∈ u) t)
    | _ => refuse .typeError
  match n, texts, args with
  | "upper", [], [] => return newText (t.map Char.toUpper)
  | "lower", [], [] | "casefold", [], [] => return newText (t.map Char.toLower)
  | "capitalize", [], [] => return newText (match t with
      | [] => []
      | c :: r => c.toUpper :: r.map Char.toLower)
  | "strip", _, _ => strip true true
  | "lstrip", _, _ => strip true false
  | "rstrip", _, _ => strip false true
  | "startswith", [u], _ => return .bool (u.isPrefixOf t)
  | "endswith", [u], _ => return .bool (u.isSuffixOf t)
  | "removeprefix", [u], _ => return newText (if u.isPrefixOf t then t.drop u.length else t)
  | "removesuffix", [u], _ => return newText (if u.isSuffixOf t then t.take (t.length - u.length) else t)
  | "find", [u], _ => return .int (match findIn u t with
      | some i => (i : Int)
      | none => -1)
  | "index", [u], _ => return .int (← ofOption (.refused .valueError) (findIn u t))
  | "count", [u], _ =>
    return .int (if u = [] then t.length + 1 else (piecesBy u t.length t).length - 1 : Nat)
  | "replace", [u, w], _ => return newText (replaced u w t)
  | "split", [], [] => do newList ((words t).map newText)
  | "split", [u], _ =>
    if u = [] then refuse .valueError else newList ((piecesBy u t.length t).map newText)
  | "join", _, [v] =>
    let xs ← iterate m v
    let us ← each (fun v => do return (← ofOption .typeError ((← get).text? v)).toList) xs
    return newText (List.intercalate t us)
  | "isascii", [], [] => return .bool (t.all fun c => c.toNat < 128)
  | "isspace", [], [] => return .bool (t ≠ [] && t.all Text.isSpace)
  | "isidentifier", [], [] => return .bool (Text.isIdentifier t)
  | "encode", [], [] => newScalar .bytes (.bytes ((String.ofList t).toUTF8.toList.map UInt8.toNat))
  | _, _, _ => refuse .typeError

example : replaced "a".toList "bc".toList "xaya".toList = "xbcybc".toList := by decide
example : replaced [] "-".toList "ab".toList = "-a-b-".toList := by decide

end Method
end CallContracts
