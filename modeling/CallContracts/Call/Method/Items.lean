import CallContracts.Call.Start
/-! Methods of lists, tuples, deques and sets. -/
namespace CallContracts
open Act

namespace Method
variable (m : Machine)

/-- The position of the first item that is equal to a value. -/
def positionOf (x : Value) (i : Nat) : List Value → Act (Option Nat)
  | [] => pure none
  | y :: ys => do if ← same m y x then return some i else positionOf x (i + 1) ys

def countOf (x : Value) : List Value → Act Nat
  | [] => pure 0
  | y :: ys => do
    let b ← same m y x
    return (if b then 1 else 0) + (← countOf x ys)

def sortItems (backwards : Bool) (xs : List Value) : Act (List Value) := do
  let ys ← Sorting.sort (comesBefore m) (if backwards then xs.reverse else xs)
  return if backwards then ys.reverse else ys

/-- Reads a list, tuple or deque. -/
def readItems (xs : List Value) (n : String) (args : List Value) : Act Value := do
  match n, args with
  | "count", [x] => return .int (← countOf m x xs)
  | "index", [x] => return .int (← ofOption (.refused .valueError) (← positionOf m x 0 xs))
  | "__getitem__", [k] => Item.ofList m xs k
  | _, _ => refuse .typeError

/-- Turns the items by so many places to the right. -/
def rotated (k : Int) (xs : List Value) : List Value :=
  if xs = [] then [] else
    let i := ((-k) % xs.length).toNat
    xs.drop i ++ xs.take i

/-- Changes a list or deque, whose items are put back by `put`. -/
def changeItems (put : List Value → Act Unit) (xs : List Value) (n : String) (args : List Value) :
    Act Value := do
  let set (ys : List Value) : Act Value := do
    put ys
    return .absent
  let takeOut (i : Nat) : Act Value := do
    put (xs.eraseIdx i)
    return xs[i]?.getD .absent
  match n, args with
  | "append", [x] => set (xs ++ [x])
  | "appendleft", [x] => set (x :: xs)
  | "extend", [v] => do set (xs ++ (← iterate m v))
  | "extendleft", [v] => do set ((← iterate m v).reverse ++ xs)
  | "insert", [i, x] => do
    let p := Text.position xs.length (← asIndex m i)
    set (xs.take p ++ x :: xs.drop p)
  | "clear", [] => set []
  | "reverse", [] => set xs.reverse
  | "rotate", [] => set (rotated 1 xs)
  | "rotate", [k] => do set (rotated (← asIndex m k) xs)
  | "sort", [] => do set (← sortItems m false xs)
  | "pop", [] => do takeOut (← Item.position m xs.length (.int (-1)))
  | "pop", [i] => do takeOut (← Item.position m xs.length i)
  | "popleft", [] => do takeOut (← Item.position m xs.length (.int 0))
  | "remove", [x] => do
    let i ← ofOption (.refused .valueError) (← positionOf m x 0 xs)
    set (xs.eraseIdx i)
  | _, _ => readItems m xs n args

/-- The members that are, or are not, among others. -/
def among (wanted : Bool) (ys : List Value) : List Value → Act (List Value)
  | [] => pure []
  | x :: xs => do
    let b ← isMember m (same m) ys x
    let r ← among wanted ys xs
    return if b = wanted then x :: r else r

/-- What two sets make together. -/
def combined (n : String) (xs ys : List Value) : Act (List Value) := do
  match n with
  | "union" | "update" => Table.distinct m (xs ++ ys)
  | "intersection" | "intersection_update" => among m true ys xs
  | "difference" | "difference_update" => among m false ys xs
  | _ => do
    let left ← among m false ys xs
    return left ++ (← among m false xs ys)

/-- Reads a set; what is made of it is a set of the same class. -/
def readSet (make : List Value → Act Value) (xs : List Value) (n : String) (args : List Value) :
    Act Value := do
  match n, args with
  | "copy", [] => make xs
  | "__contains__", [x] =>
    checkKey m x
    return .bool (← isMember m (same m) xs x)
  | "union", [] | "intersection", [] | "difference", [] => make xs
  | "union", [v] | "intersection", [v] | "difference", [v] | "symmetric_difference", [v] => do
    make (← combined m n xs (← Table.distinct m (← iterate m v)))
  | "issubset", [v] => do
    let ys ← Table.distinct m (← iterate m v)
    return .bool (← every (isMember m (same m) ys) xs)
  | "issuperset", [v] => do return .bool (← every (isMember m (same m) xs) (← iterate m v))
  | "isdisjoint", [v] => do
    return .bool !(← anyOf (isMember m (same m) xs) (← iterate m v))
  | _, _ => refuse .typeError

/-- Changes a set. -/
def changeSet (put : List Value → Act Unit) (make : List Value → Act Value) (xs : List Value)
    (n : String) (args : List Value) : Act Value := do
  match n, args with
  | "add", [x] =>
    put (← Table.distinct m (xs ++ [x]))
    return .absent
  | "clear", [] =>
    put []
    return .absent
  | "discard", [x] | "remove", [x] =>
    checkKey m x
    let there ← isMember m (same m) xs x
    if n = "remove" && !there then refuse .keyError
    put (← among m false [x] xs)
    return .absent
  | "pop", [] => match xs with
    | [] => refuse .keyError
    | x :: r =>
      put r
      return x
  | "update", [v] | "intersection_update", [v] | "difference_update", [v]
  | "symmetric_difference_update", [v] =>
    put (← combined m n xs (← Table.distinct m (← iterate m v)))
    return .absent
  | _, _ => readSet m make xs n args

end Method
end CallContracts
