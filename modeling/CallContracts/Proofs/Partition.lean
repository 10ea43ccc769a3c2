import Mathlib.Data.Fintype.Sets
import CallContracts.Proofs.Records
/-! Which atoms match a value.  Nothing, the atoms and the contract for arrays are nine blocks, and most values are in
exactly one.  The blocks come from three kinds of questions: what kind a value is of, whether it is a list or tuple and
whether it is a date.  The kind does not exclude the other two unless it is that of objects. -/
namespace CallContracts
open Act

/-- Nothing, what the atoms are for, and arrays. -/
inductive Block where
  | nothing | undefined | boolean | number | string | function | array | date | object
  deriving DecidableEq

instance : Fintype Block where
  elems := {.nothing,.undefined,.boolean,.number,.string,.function,.array,.date,.object}
  complete b := by cases b <;> decide

namespace Block
variable {k : Kind} {sequence dated : Bool}

/-- The contract whose matches are a block, where `x` is the one for arrays; nothing has none. -/
def contract? (x : Contract) : Block → Option Contract
  | nothing => none
  | undefined => some Contract.undefined
  | boolean => some Contract.boolean
  | number => some Contract.number
  | string => some Contract.string
  | function => some Contract.function
  | array => some x
  | date => some Contract.date
  | object => some Contract.object

/-- Whether a value is in a block: a run of its contract ends in a match. -/
def Holds (n : Machine) (x : Contract) (v : Value) (w : Store) (b : Block) : Prop :=
  match b.contract? x with
  | none => v = .absent
  | some c => Contract.Matches n c v w

/-- Which blocks take a value of that kind, when it is known whether it is a sequence and whether it is a date. -/
def takes (k : Kind) (sequence dated : Bool) : Block → Bool
  | nothing => k = .null
  | undefined => k = .undefined
  | boolean => k = .boolean
  | number => k = .number
  | string => k = .string
  | function => k = .function
  | array => sequence
  | date => dated
  | object => k = .object && !sequence && !dated

/-- A sequence that is a date, or either of them with a kind of its own. -/
def Overlap (k : Kind) (sequence dated : Bool) : Prop :=
  (sequence && dated) = true ∨ (sequence || dated) = true ∧ k ≠ .object

/-- Exactly one block takes a value unless there is an overlap. -/
theorem unique_takes : (∃! b : Block, b.takes k sequence dated) ↔ ¬ Overlap k sequence dated := by
  unfold ExistsUnique Overlap
  cases k <;> revert sequence dated <;> decide

end Block

namespace Partition
variable {R : Store → Store → Prop} {w z : Store} {n : Machine} {v : Value} {B : BuiltinClass → Bool} {called : Bool}
  {c : Contract} {a : Bool}

/-- The classes that the atoms ask for. -/
def asked : List BuiltinClass := [.bool,.number,.str,.type,.list,.tuple,.date]

/-- A value that gives the same answer each time that it is asked whether it belongs to one of these classes, and whose
class does not take up calling or give it up. -/
structure Steady (R : Store → Store → Prop) (w : Store) (n : Machine) (v : Value) (B : BuiltinClass → Bool)
    (called : Bool) : Prop where
  kinds : ∀ c ∈ asked, Repeats R w (isKind n v c) (B c)
  calls : ∀ y, R w y → y.isCallable v = called

/-- The kind that these answers come to. -/
def kind (B : BuiltinClass → Bool) (called : Bool) (v : Value) : Kind :=
  if v = .undefined then .undefined
  else if v = .absent then .null
  else if B .bool then .boolean
  else if B .number then .number
  else if B .str then .string
  else if !called then .object
  else if B .type then .object
  else .function

def sequence (B : BuiltinClass → Bool) : Bool := B .list || B .tuple

section steady
variable (hR : Leeway R) (h : Steady R w n v B called)
include hR h

theorem Steady.later (hz : R w z) : Steady R z n v B called :=
  ⟨fun c hc => Surely.later hR (h.kinds c hc) hz,fun y hy => h.calls y (hR.trans hz hy)⟩

theorem repeats_kindOf : Repeats R w (kindOf n v) (kind B called v) := by
  unfold kindOf kind
  split
  · exact repeats_pure hR _
  split
  · exact repeats_pure hR _
  refine Repeats.bind hR (h.kinds .bool (by simp [asked])) ?_
  split
  · exact repeats_pure hR _
  refine Repeats.bind hR (h.kinds .number (by simp [asked])) ?_
  split
  · exact repeats_pure hR _
  refine Repeats.bind hR (h.kinds .str (by simp [asked])) ?_
  split
  · exact repeats_pure hR _
  refine repeats_get hR fun y hy => ?_
  rw [h.calls y hy]
  split
  · exact repeats_pure hR _
  refine Repeats.bind hR ((h.later hR hy).kinds .type (by simp [asked])) ?_
  split <;> exact repeats_pure hR _

theorem repeats_isArray : Repeats R w (isArray n v) (sequence B) := by
  refine Repeats.bind hR (h.kinds .list (by simp [asked])) ?_
  unfold sequence
  cases B .list with
  | true => exact repeats_pure hR _
  | false => simpa using h.kinds .tuple (by simp [asked])

/-- Of nothing and of `UNDEFINED` no kind is found that a contract asks for, but that of the latter. -/
theorem repeats_kind (k : Kind) (hk : k ≠ .null) :
    Repeats R w ((Rule.kind k).holds n v) (decide (kind B called v = k)) := by
  simp only [Rule.holds]
  split
  · rename_i hv
    subst hv
    have hno : decide (kind B called .absent = k) = false := by simpa [kind] using hk.symm
    exact hno ▸ repeats_pure hR _
  · exact Repeats.bind hR (repeats_kindOf hR h) (repeats_pure hR _)

omit h in
/-- A contract in place says what its rule says. -/
theorem says_of_rule (hc : ∀ y, R w y → y.contract? c.value = some c) (ha : Repeats R w (c.rule.holds n v) a) :
    c.Says R n w v a := by
  intro y hy
  rw [Contract.outcome_of_held (hc y hy)]
  exact Repeats.bind (f := fun b => pure (if b then Outcome.matched else .mismatched)) hR ha (repeats_pure hR _) y hy

omit h in
theorem repeats_not (hc : c.Says R n w v a) : Repeats R w ((Rule.not c).holds n v) (!a) := by
  have hne : (!a) = decide ((if a then Outcome.matched else .mismatched) = .mismatched) := by cases a <;> rfl
  simp only [Rule.holds]
  rw [hne]
  exact Repeats.bind hR hc (repeats_pure hR _)

omit hR h in
/-- A builtin class does not decide itself what its instances are. -/
theorem belongsTo_builtin (b : BuiltinClass) : belongsTo n depthLimit v (.builtinClass b) w = isKind n v b w := by
  change belongsTo n (999+1) _ _ w = _
  rw [belongsTo,get_bind_apply]
  split
  · rename_i heq
    have hc : w.classOf v = .builtin b := by
      cases hv : w.classOf v with
      | builtin d => simpa [hv,ClassId.value] using heq
      | defined r => simp [hv,ClassId.value] at heq
    simp [isKind,isInstance,hc,Store.isSubclass_self]
  · rfl

omit hR in
theorem repeats_date : Repeats R w ((Rule.instanceOf (.builtinClass .date)).holds n v) (B .date) := by
  intro y hy
  rw [Rule.holds,belongsTo_builtin]
  exact h.kinds .date (by simp [asked]) y hy

/-- Objects are of the kind of objects, no arrays and no dates. -/
theorem repeats_object (hheld : ∀ c ∈ Contract.standard, ∀ y, R w y → y.contract? c.value = some c) :
    Repeats R w (Contract.object.rule.holds n v)
      (decide (kind B called v = .object) && !sequence B && !B .date) := by
  have held (c : Contract) (hc : c ∈ Contract.standard) := hheld c hc
  have hkind : Contract.objectKind.Says R n w v (decide (kind B called v = .object)) :=
    says_of_rule hR (held _ (by simp [Contract.standard])) (repeats_kind hR h .object (by simp))
  have harray : Contract.anyArray.Says R n w v (sequence B) := by
    refine says_of_rule hR (held _ (by simp [Contract.standard])) ?_
    rw [show Contract.anyArray.rule = .arrayOfAny from rfl,Rule.holds]
    exact repeats_isArray hR h
  have hdate : Contract.date.Says R n w v (B .date) :=
    says_of_rule hR (held _ (by simp [Contract.standard])) (repeats_date h)
  have hnoArray : Contract.noArray.Says R n w v (!sequence B) :=
    says_of_rule hR (held _ (by simp [Contract.standard])) (repeats_not hR harray)
  have hnoDate : Contract.noDate.Says R n w v (!B .date) :=
    says_of_rule hR (held _ (by simp [Contract.standard])) (repeats_not hR hdate)
  rw [show Contract.object.rule = .all [Contract.objectKind,Contract.noArray,Contract.noDate] from rfl,Rule.holds]
  simp only [noneFails_cons,noneFails_nil]
  have hall := hkind.next hR (hnoArray.next hR (hnoDate.next hR (repeats_pure hR true)))
  simpa [Bool.and_assoc] using hall

end steady

/-- Where the language answers for a value, asking changes nothing. -/
theorem steady_native (hv : w.spoofs (w.classOf v) = false) :
    Steady (· = ·) w n v (w.belongs v) (w.isCallable v) :=
  ⟨fun _ _ y hy => ⟨_,y,hy ▸ isInstance_native hv,rfl,rfl⟩,fun _ hy => hy ▸ rfl⟩

theorem leeway_eq : Leeway (· = ·) := ⟨fun _ => rfl,fun h h' => h.trans h',fun h _ _ => by rw [h]; exact id⟩

/-- Arrays and dates are neither both nor anything else that has a kind of its own. -/
theorem isSubclass_apart (d : BuiltinClass) (h : ({} : Store).isSubclass (.builtin d) (.builtin .list)
      ∨ ({} : Store).isSubclass (.builtin d) (.builtin .tuple) ∨ ({} : Store).isSubclass (.builtin d) (.builtin .date)) :
    (∀ b ∈ [BuiltinClass.bool,.number,.str], ({} : Store).isSubclass (.builtin d) (.builtin b) = false) ∧
      ((({} : Store).isSubclass (.builtin d) (.builtin .list) || ({} : Store).isSubclass (.builtin d) (.builtin .tuple))
        && ({} : Store).isSubclass (.builtin d) (.builtin .date)) = false := by
  revert h
  cases d <;> decide

/-- Arrays and dates have a class that ends at a builtin one. -/
theorem lined_of_belongs (h : (w.isSequence v || w.belongs v .date) = true) : w.Lined (w.classOf v) := by
  simp only [Store.isSequence,Store.belongs,Store.isSubclass,Store.comesFrom,Bool.or_false,Bool.or_eq_true,
    decide_eq_true_eq] at h
  rcases h with (h | h) | h <;> exact ⟨_,h⟩

/-- They are of the kind of objects or of functions. -/
theorem kind_of_belongs (h : (w.isSequence v || w.belongs v .date) = true) :
    (w.isSequence v && w.belongs v .date) = false ∧ (w.kind v = .object ∨ w.kind v = .function) := by
  obtain ⟨d,hd⟩ := Store.exists_builtinLine (lined_of_belongs h)
  have hsub (b : BuiltinClass) (hb : b ≠ .callable) : w.belongs v b = ({} : Store).isSubclass (.builtin d) (.builtin b) :=
    Store.isSubclass_congr hd hb
  have hapart := isSubclass_apart d (by
    simpa only [Store.isSequence,hsub _ (by decide : BuiltinClass.list ≠ .callable),
      hsub _ (by decide : BuiltinClass.tuple ≠ .callable),hsub _ (by decide : BuiltinClass.date ≠ .callable),
      Bool.or_eq_true,or_assoc] using h)
  have hno (b : BuiltinClass) (hb : b ∈ [BuiltinClass.bool,.number,.str]) (hc : b ≠ .callable) :
      w.belongs v b = false := (hsub b hc).trans (hapart.1 b hb)
  have hplain (u : Value) (b : BuiltinClass) (hb : w.classOf u = .builtin b) (hu : v = u)
      (hx : ∀ c ∈ [BuiltinClass.list,.tuple,.date], ({} : Store).isSubclass (.builtin b) (.builtin c) = false) : False := by
    subst hu
    simp only [List.forall_mem_cons,List.not_mem_nil,IsEmpty.forall_iff,implies_true,and_true] at hx
    simp [Store.isSequence,Store.belongs,hb,Store.isSubclass_builtin w {},hx] at h
  refine ⟨?_,?_⟩
  · simpa only [Store.isSequence,hsub _ (by decide : BuiltinClass.list ≠ .callable),
      hsub _ (by decide : BuiltinClass.tuple ≠ .callable),hsub _ (by decide : BuiltinClass.date ≠ .callable)] using hapart.2
  · have hundef : v ≠ .undefined := fun hv => hplain _ .undefined rfl hv (by decide)
    have habsent : v ≠ .absent := fun hv => hplain _ .absent rfl hv (by decide)
    simp only [Store.kind,hundef,habsent,hno _ (by simp : BuiltinClass.bool ∈ _) (by decide),
      hno _ (by simp : BuiltinClass.number ∈ _) (by decide),hno _ (by simp : BuiltinClass.str ∈ _) (by decide),
      Bool.false_eq_true,if_false]
    split <;> [simp; split <;> simp]

/-- Of values that the language answers for, the only overlap is callable instances of classes made from those of lists,
tuples and dates. -/
theorem overlap_native : Block.Overlap (w.kind v) (w.isSequence v) (w.belongs v .date) ↔
    w.kind v = .function ∧ (w.isSequence v || w.belongs v .date) = true := by
  constructor
  · intro h
    have hone : (w.isSequence v || w.belongs v .date) = true := by
      rcases h with h | h
      · rw [(Bool.and_eq_true_iff.mp h).1]
        rfl
      · exact h.1
    obtain ⟨hnot,hkind⟩ := kind_of_belongs hone
    rcases h with h | ⟨-,h⟩
    · rw [hnot] at h
      cases h
    · exact ⟨hkind.resolve_left h,hone⟩
  · rintro ⟨hkind,hone⟩
    exact Or.inr ⟨hone,by rw [hkind]; decide⟩

end Partition

namespace Block
open CallContracts.Partition
variable {n : Machine} {x : Contract} {v : Value} {w z : Store} {a : Bool}

/-- A run that tells whether a value is in a block ends in a match if it is, and otherwise in a mismatch. -/
def Settled (n : Machine) (x : Contract) (v : Value) (w : Store) (a : Bool) (b : Block) : Prop :=
  match b.contract? x with
  | none => v = .absent ↔ a = true
  | some c => if a then Contract.Matches n c v w else Contract.Mismatches n c v w

theorem Settled.holds_iff {b : Block} (h : b.Settled n x v w a) : b.Holds n x v w ↔ a = true := by
  unfold Settled at h
  unfold Holds
  cases hc : b.contract? x with
  | none => simpa only [hc] using h
  | some c =>
    rw [hc] at h
    cases a with
    | true => simpa using h
    | false =>
      simp only [Bool.false_eq_true,if_false,iff_false] at h ⊢
      rintro ⟨r,u,hr,hmatch⟩
      obtain ⟨r',u',hr',hmismatch⟩ := h
      obtain ⟨rfl,rfl⟩ : r = r' ∧ u = u' := by simpa using hr.symm.trans hr'
      have hobj := Option.some.inj (hmatch.symm.trans hmismatch)
      simp at hobj

section steady
variable {R : Store → Store → Prop} {B : BuiltinClass → Bool} {called : Bool} (hR : Leeway R)
  (h : Steady R w n v B called)

/-- A contract in place whose rule decides the same each time tells it each time. -/
theorem settled_of_repeats {b : Block} {c : Contract} (hb : b.contract? x = some c)
    (hc : ∀ y, R w y → y.contract? c.value = some c) (ha : Repeats R w (c.rule.holds n v) a) (hz : R w z) :
    b.Settled n x v z a := by
  obtain ⟨o,u,hu,-,rfl⟩ := ha z hz
  unfold Settled
  simp only [hb]
  cases o with
  | true => exact ⟨_,_,(Contract.running_eq n c v z).trans (Contract.run_of_matched (hc z hz) hu),Store.get?_alloc_self u _⟩
  | false =>
    exact ⟨_,_,(Contract.running_eq n c v z).trans (Contract.run_of_mismatched (hc z hz) hu),Store.get?_alloc_self u _⟩

include hR h

/-- Each block is told by the kind and the two other questions. -/
theorem settled_of_steady (hheld : ∀ c ∈ Contract.standard, ∀ y, R w y → y.contract? c.value = some c)
    (hx : ∀ y, R w y → y.contract? x.value = some x) (hrule : x.rule = .arrayOfAny) (hz : R w z) (b : Block) :
    b.Settled n x v z (b.takes (kind B called v) (sequence B) (B .date)) := by
  have held (c : Contract) (hc : c ∈ Contract.standard) := hheld c hc
  cases b with
  | nothing =>
    have hkind : kind B called v = .null ↔ v = .absent := by
      unfold kind
      by_cases hv : v = .absent
      · simp [hv]
      · simp only [hv,if_false,iff_false]
        repeat' split
        all_goals simp
    simp [Settled,contract?,takes,hkind]
  | undefined | boolean | number | string | function =>
    exact settled_of_repeats rfl (held _ (by simp [Contract.standard])) (repeats_kind hR h _ (by simp)) hz
  | array =>
    refine settled_of_repeats rfl hx ?_ hz
    rw [hrule,Rule.holds]
    exact repeats_isArray hR h
  | date => exact settled_of_repeats rfl (held _ (by simp [Contract.standard])) (repeats_date h) hz
  | object => exact settled_of_repeats rfl (held _ (by simp [Contract.standard])) (repeats_object hR h hheld) hz

end steady

/-- A list of a class whose instances can be called. -/
def callableList : Act Value := do
  let c ← (Expr.classDef "L" [("__call__",.function "f" [.required "self"] [] (.variable "self") none)]
    [.builtinClass "list"]).eval Machine.full []
  (Expr.call (.variable "L") [] none [] none).eval Machine.full [("L",c)]

end Block
end CallContracts
