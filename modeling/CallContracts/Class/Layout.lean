import CallContracts.Class.Lookup
/-! Layout: what instances of a class have room for.  An object can be given another class, and a class
another base, only where both have room for the same. -/
namespace CallContracts

/-- What a class adds to the room that its base has. -/
structure Layout where
  places : List String
  opens : Bool
  deriving DecidableEq, Repr

namespace Store

def added (s : Store) : ClassId → Layout
  | .builtin b =>
    ⟨(b.ownMembers.filter fun p => p.2 = .storage).map Prod.fst, b.ownMembers.any (·.1 = "__dict__")⟩
  | .defined r =>
    ⟨((s.classInfo? r).map ClassInfo.slots).getD [], ((s.classAttrs r).get? "__dict__").isSome⟩

/-- The classes of the host cannot be given up or taken on. -/
def isFixed : ClassId → Bool
  | .builtin b => !b.isOpen
  | .defined _ => false

/-- The nearest class that has room of its own, and what comes after it. -/
def solid (s : Store) : List ClassId → List ClassId
  | [] => []
  | c :: cs => if isFixed c || s.added c ≠ ⟨[], false⟩ then c :: cs else s.solid cs

/-- Whether instances of two classes have room for the same. -/
def sameLayout (s : Store) (c d : ClassId) : Bool :=
  match s.solid (s.line c), s.solid (s.line d) with
  | a :: as, b :: bs => a = b || (s.solid as = s.solid bs && s.added a = s.added b)
  | _, _ => false

theorem sameLayout_self (s : Store) (c : ClassId) (h : s.solid (s.line c) ≠ []) :
    s.sameLayout c c = true := by
  cases hs : s.solid (s.line c) with
  | nil => exact absurd hs h
  | cons a as => simp [sameLayout, hs]

/-- A contract taken apart: what it holds goes to its storage places. -/
def loosened (o : Obj) : Obj :=
  match o.body with
  | .contract c test parts =>
    let own := [("_test", test), ("_description", c.description)]
    let ofParts := match parts with
      | some p => [("_params", p.params), ("_input", p.input), ("_ret", p.ret)]
      | none => []
    { o with body := .plain, slots := own ++ ofParts }
  | _ => o

def loosen (s : Store) (r : Ref) : Store := s.update r loosened

end Store
end CallContracts
