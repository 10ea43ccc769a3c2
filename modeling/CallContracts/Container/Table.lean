import CallContracts.Value.Order
/-! Tables: entries in the order in which their keys first came.  A key is filed under its digest, so only
a value that has one can be a key. -/
namespace CallContracts
open Act

namespace Table
variable (m : Machine)

/-- The value under a key. -/
def find (k : Value) (es : List (Value × Value)) : Act (Option Value) := do
  checkKey m k
  entryUnder m (same m) k es

def putAfter (k v : Value) : List (Value × Value) → Act (List (Value × Value))
  | [] => pure [(k, v)]
  | (k', w) :: es => do
    if ← sameKey m k' k then return (k', v) :: es
    else return (k', w) :: (← putAfter k v es)

/-- Writes under a key; a present key keeps its place and itself. -/
def put (k v : Value) (es : List (Value × Value)) : Act (List (Value × Value)) := do
  checkKey m k
  putAfter m k v es

def eraseAfter (k : Value) : List (Value × Value) → Act (List (Value × Value))
  | [] => pure []
  | (k', w) :: es => do
    if ← sameKey m k' k then return es else return (k', w) :: (← eraseAfter k es)

/-- Later entries are written over earlier ones. -/
def putAll (fs : List (Value × Value)) : List (Value × Value) → Act (List (Value × Value))
  | [] => pure fs
  | (k, v) :: es => do putAll (← put m k v fs) es

def ofEntries (es : List (Value × Value)) : Act (List (Value × Value)) := putAll m [] es

/-- Members without repetition, in the order in which they first came. -/
def distinctFrom (ys : List Value) : List Value → Act (List Value)
  | [] => pure ys
  | x :: xs => do
    checkKey m x
    distinctFrom (if ← isMember m (same m) ys x then ys else ys ++ [x]) xs

def distinct (xs : List Value) : Act (List Value) := distinctFrom m [] xs

end Table
end CallContracts
