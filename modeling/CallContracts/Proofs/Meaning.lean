import CallContracts.Proofs.Build
import CallContracts.Proofs.Native
/-! What contracts say about native values.  The rules are read as sets: which values are in the set of a rule, when
the sets of its parts are known. -/
namespace CallContracts
open Act

/-- The values that are in the set of a contract, as the store is. -/
abbrev Meaning := Store → Value → Prop

/-- Which values are names of fields and which are classes that membership is asked for, and which names are one. -/
structure Vocabulary where
  Name : Value → Prop
  same : Value → Value → Bool
  Cls : Value → Prop

/-- Values that answer at once, together with their items and fields: they are native, the names of their fields
can be compared, and no class that membership is asked for decides it itself. -/
structure Store.Answers (s : Store) (m : Machine) (K : Vocabulary) (P : Value → Prop) : Prop where
  native : ∀ v, P v → s.Native v
  elements : ∀ v, P v → ∀ x ∈ s.elements v, P x
  fields : ∀ v es, P v → s.fields? v = some es → ∀ e ∈ es, K.Name e.1 ∧ P e.2
  key : ∀ n, K.Name n → checkKey m n s = .ok () s
  same : ∀ k n, K.Name k → K.Name n → sameKey m k n s = .ok (K.same k n) s
  cls : ∀ c, K.Cls c → (s.class? c).isSome ∧ s.override? (s.classOf c) "__instancecheck__" = none

/-- Texts as names and builtin classes as classes. -/
def Vocabulary.plain : Vocabulary where
  Name v := ∃ t, v = .str t
  same k n := decide (k = n)
  Cls c := ∃ b, c = .builtinClass b

/-- Texts can be compared, and builtin classes do not decide membership themselves. -/
theorem Store.answers_plain {s : Store} {P : Value → Prop} (m : Machine) (native : ∀ v, P v → s.Native v)
    (elements : ∀ v, P v → ∀ x ∈ s.elements v, P x)
    (fields : ∀ v es, P v → s.fields? v = some es → ∀ e ∈ es, (∃ t, e.1 = .str t) ∧ P e.2) :
    s.Answers m .plain P := by
  refine ⟨native,elements,fields,?_,?_,?_⟩
  · rintro _ ⟨t,rfl⟩
    exact checkKey_str m t s
  · rintro _ _ ⟨t,rfl⟩ ⟨u,rfl⟩
    simpa [Vocabulary.plain] using sameKey_str m t s u
  · rintro _ ⟨b,rfl⟩
    exact ⟨rfl,override?_builtin ..⟩

namespace Meaning
variable (K : Vocabulary)

def anything : Meaning := fun _ _ => True
def ofKind (k : Kind) : Meaning := fun s v => v ≠ .absent ∧ s.kind v = k
def ofClass (c : Value) : Meaning := fun s v => ∃ k, s.class? c = some k ∧ s.isSubclass (s.classOf v) k
def function : Meaning := fun s v => s.kind v = .function
def all (Ds : List Meaning) : Meaning := fun s v => ∀ D ∈ Ds, D s v
def any (Ds : List Meaning) : Meaning := fun s v => ∃ D ∈ Ds, D s v
def negate (D : Meaning) : Meaning := fun s v => ¬ D s v
def maybe (D : Meaning) : Meaning := fun s v => v = .absent ∨ D s v
def array (D : Meaning) : Meaning := fun s v => s.isSequence v ∧ ∀ x ∈ s.elements v, D s x
def product (Ds : List Meaning) : Meaning := fun s v =>
  s.isSequence v ∧ List.Forall₂ (fun D x => D s x) Ds (s.elements v)

/-- A positional contract of one part is that part. -/
def positional : List Meaning → Meaning
  | [D] => D
  | Ds => product Ds

/-- Every field has a value, and a contract of its name whose set the value is in. -/
def record (shape : List (Value × Meaning)) : Meaning := fun s v =>
  ∃ es, s.fields? v = some es ∧ ∀ e ∈ es, e.2 ≠ .undefined ∧
    ∃ p, shape.find? (fun p => K.same p.1 e.1) = some p ∧ p.2 s e.2

/-- Objects that are neither arrays nor dates. -/
def object : Meaning := fun s v =>
  s.kind v = .object ∧ ¬ s.isSequence v ∧ ¬ s.belongs v .date

end Meaning

/-- A rule is decided at once, and holds of just the values of a set. -/
def Rule.Decides (t : Rule) (m : Machine) (s : Store) (D : Meaning) (v : Value) : Prop :=
  ∃ b, t.holds m v s = .ok b s ∧ (b ↔ D s v)

/-- A contract of the library whose rule decides about some values. -/
structure Contract.Decides (m : Machine) (s : Store) (P : Value → Prop) (c : Contract) (D : Meaning) : Prop where
  held : s.IsContract c
  decides : ∀ v, P v → c.rule.Decides m s D v

section rules
variable {m : Machine} {s : Store} {P : Value → Prop} {v : Value} {c : Contract} {D : Meaning}
  {cs : List Contract} {Ds : List Meaning}

theorem Contract.Decides.outcome (h : c.Decides m s P D) (hv : P v) :
    ∃ b : Bool, c.outcome m v s = .ok (if b then .matched else .mismatched) s ∧ (b ↔ D s v) := by
  obtain ⟨b,hb,hD⟩ := h.decides v hv
  have hc := h.held.held
  obtain ⟨r,d,t⟩ := c
  exact ⟨b,outcome_of_holds (by rw [show Value.ref r = value (.mk r d t) from rfl,hc]; rfl) hb,hD⟩

namespace Rule

theorem decides_anything : anything.Decides m s .anything v :=
  ⟨true,by simp [holds],by simp [Meaning.anything]⟩

theorem decides_kind (h : s.Native v) (k : Kind) : (kind k).Decides m s (.ofKind k) v := by
  by_cases hv : v = .absent
  · exact ⟨false,by simp [holds,hv],by simp [Meaning.ofKind,hv]⟩
  · refine ⟨decide (s.kind v = k),?_,by simp [Meaning.ofKind,hv]⟩
    simp only [holds,hv,if_false]
    rw [bind_ok (kindOf_native h)]
    rfl

theorem decides_function (h : s.Native v) : function.Decides m s .function v := by
  refine ⟨decide (s.kind v = .function),?_,by simp [Meaning.function]⟩
  simp only [holds]
  rw [bind_ok (kindOf_native h)]
  rfl

theorem decides_instance {x : Value} {k : ClassId} (h : s.Native v) (hk : s.class? x = some k)
    (hx : s.override? (s.classOf x) "__instancecheck__" = none) : (instanceOf x).Decides m s (.ofClass x) v := by
  refine ⟨s.isSubclass (s.classOf v) k,?_,by simp [Meaning.ofClass,hk]⟩
  simpa only [holds] using belongsTo_native h hk hx

theorem decides_not (h : c.Decides m s P D) (hv : P v) : (Rule.not c).Decides m s D.negate v := by
  obtain ⟨b,hb,hD⟩ := h.outcome hv
  refine ⟨!b,?_,by simp [Meaning.negate,← hD]⟩
  rw [Contract.holds_not hb]
  cases b <;> rfl

theorem decides_maybe (h : c.Decides m s P D) (hv : P v) : (maybe c).Decides m s D.maybe v := by
  obtain ⟨b,hb,hD⟩ := h.outcome hv
  by_cases hn : v = .absent
  · exact ⟨true,by simp [holds,hn],by simp [Meaning.maybe,hn]⟩
  · refine ⟨b,?_,by simp [Meaning.maybe,hn,hD]⟩
    simp only [holds,hn,if_false]
    rw [bind_ok hb]
    cases b <;> rfl

/-- The first mismatch ends the conjunction. -/
theorem decides_all (h : List.Forall₂ (Contract.Decides m s P) cs Ds) (hv : P v) : (all cs).Decides m s (.all Ds) v := by
  suffices hs : ∃ b, noneFails m cs v s = .ok b s ∧ (b ↔ Meaning.all Ds s v) by
    simpa only [Decides,holds] using hs
  induction h with
  | nil => exact ⟨true,by simp,by simp [Meaning.all]⟩
  | cons hc _ ih =>
    obtain ⟨b,hb,hD⟩ := hc.outcome hv
    obtain ⟨b',hb',hDs⟩ := ih
    cases b with
    | false =>
      refine ⟨false,?_,by simp [Meaning.all,← hD]⟩
      rw [noneFails_cons,bind_ok hb]
      rfl
    | true =>
      refine ⟨b',?_,hDs.trans (by simp [Meaning.all,← hD])⟩
      rw [noneFails_cons,bind_ok hb]
      exact hb'

/-- The first match ends the disjunction. -/
theorem decides_any (h : List.Forall₂ (Contract.Decides m s P) cs Ds) (hv : P v) : (any cs).Decides m s (.any Ds) v := by
  suffices hs : ∃ b, someMatches m cs v s = .ok b s ∧ (b ↔ Meaning.any Ds s v) by
    simpa only [Decides,holds] using hs
  induction h with
  | nil => exact ⟨false,by simp,by simp [Meaning.any]⟩
  | cons hc _ ih =>
    obtain ⟨b,hb,hD⟩ := hc.outcome hv
    obtain ⟨b',hb',hDs⟩ := ih
    cases b with
    | true =>
      refine ⟨true,?_,by simp [Meaning.any,← hD]⟩
      rw [someMatches_cons,bind_ok hb]
      rfl
    | false =>
      refine ⟨b',?_,hDs.trans (by simp [Meaning.any,← hD])⟩
      rw [someMatches_cons,bind_ok hb]
      exact hb'

theorem decides_anyArray (h : s.Native v) : arrayOfAny.Decides m s (.array .anything) v := by
  refine ⟨s.isSequence v,?_,by simp [Meaning.array,Meaning.anything]⟩
  simpa only [holds] using isArray_native h

theorem decides_array (h : s.Native v) (hc : c.Decides m s P D) (hP : ∀ x ∈ s.elements v, P x) :
    (arrayOf c).Decides m s D.array v := by
  cases ha : s.isSequence v with
  | false =>
    refine ⟨false,?_,by simp [Meaning.array,ha]⟩
    simp only [holds]
    rw [bind_ok (isArray_native h),ha]
    rfl
  | true =>
    obtain ⟨⟨xs,hxs,hruns,hbound⟩,-⟩ := cursorOf_native (m := m) h ha
    have hitem : ∀ x ∈ s.elements v, ∃ b, (do return (← c.outcome m (← Given.toValue (.value x))) ≠ .mismatched :
        Act Bool) s = .ok b s ∧ (b ↔ D s x) := by
      intro x hx
      obtain ⟨b,hb,hD⟩ := hc.outcome (hP x hx)
      refine ⟨b,?_,hD⟩
      simp only [Given.toValue,pure_bind]
      rw [bind_ok hb]
      cases b <;> rfl
    obtain ⟨b,hb,hD⟩ := Cursor.every_runs (f := fun x => do return (← c.outcome m (← x.toValue)) ≠ .mismatched)
      hruns hitem hbound
    refine ⟨b,?_,by simp [Meaning.array,ha,hD]⟩
    simp only [holds]
    rw [bind_ok (isArray_native h),ha]
    simp only [if_true]
    rw [bind_ok hxs,get_bind_apply]
    exact hb

/-- Contracts and items position by position. -/
theorem eachPasses_runs {xs : List Value} {k : Cursor} (hruns : k.Runs m s (xs.map .value))
    (hlen : xs.length = cs.length) (h : List.Forall₂ (Contract.Decides m s P) cs Ds) (hP : ∀ x ∈ xs, P x) :
    ∃ b, eachPasses m cs k s = .ok b s ∧ (b ↔ List.Forall₂ (fun D x => D s x) Ds xs) := by
  induction h generalizing xs k with
  | nil =>
    obtain rfl := List.length_eq_zero_iff.mp hlen
    exact ⟨true,by simp [eachPasses],by simp⟩
  | cons hc _ ih =>
    cases xs with
    | nil => cases hlen
    | cons x xs =>
      obtain ⟨k',hnext,hruns'⟩ := hruns
      obtain ⟨b,hb,hD⟩ := hc.outcome (hP x (by simp))
      obtain ⟨b',hb',hDs⟩ := ih hruns' (by simpa using hlen) fun y hy => hP y (by simp [hy])
      simp only [eachPasses]
      rw [bind_ok hnext]
      simp only [Given.toValue,pure_bind]
      rw [bind_ok hb]
      cases b with
      | false => exact ⟨false,rfl,by simp [← hD]⟩
      | true => exact ⟨b',hb',by simp [hDs,← hD]⟩

theorem decides_product (h : s.Native v) (hcs : List.Forall₂ (Contract.Decides m s P) cs Ds)
    (hP : ∀ x ∈ s.elements v, P x) : (product cs).Decides m s (.product Ds) v := by
  cases ha : s.isSequence v with
  | false =>
    refine ⟨false,?_,by simp [Meaning.product,ha]⟩
    simp only [holds]
    rw [bind_ok (isArray_native h),ha]
    rfl
  | true =>
    obtain ⟨⟨xs,hxs,hruns,-⟩,hlen⟩ := cursorOf_native (m := m) h ha
    have hholds : (product cs).holds m v s
        = (if (s.elements v).length ≠ cs.length then pure false else eachPasses m cs xs : Act Bool) s := by
      simp only [holds]
      rw [bind_ok (isArray_native h),ha]
      simp only [Bool.not_true,Bool.false_eq_true,if_false]
      rw [bind_ok hlen]
      split
      · rfl
      · rw [bind_ok hxs]
    by_cases hn : (s.elements v).length = cs.length
    · obtain ⟨b,hb,hD⟩ := eachPasses_runs hruns hn hcs hP
      exact ⟨b,by rw [hholds,if_neg (by simpa using hn),hb],by simp [Meaning.product,ha,hD]⟩
    · refine ⟨false,by rw [hholds,if_pos hn]; rfl,?_⟩
      simp only [Bool.false_eq_true,Meaning.product,false_iff,not_and]
      exact fun _ hD => hn (hD.length_eq.symm.trans hcs.length_eq.symm)

/-- What is asked about each field that an iteration gives. -/
def givenPasses (m : Machine) (shape : List (Value × Contract)) (f : Given) : Act Bool := do
  let e ← fieldParts m f
  checkKey m e.1
  fieldPasses m shape e.1 e.2

section record
variable {K : Vocabulary} {shape : List (Value × Contract)} {ds : List (Value × Meaning)}
  (hshape : List.Forall₂ (fun e d => e.1 = d.1 ∧ e.2.Decides m s P d.2) shape ds)
include hshape

/-- The name of a field is compared with the names of the shape in turn. -/
theorem decides_field {n x : Value} (hsame : ∀ e ∈ shape, sameKey m e.1 n s = .ok (K.same e.1 n) s) (hx : P x) :
    ∃ b, fieldPasses m shape n x s = .ok b s ∧
      (b ↔ x ≠ .undefined ∧ ∃ d, ds.find? (fun d => K.same d.1 n) = some d ∧ d.2 s x) := by
  induction hshape with
  | nil => exact ⟨false,by simp [fieldPasses],by simp⟩
  | @cons e d shape ds he _ ih =>
    obtain ⟨k,c⟩ := e
    obtain ⟨k',D⟩ := d
    obtain ⟨rfl,hc⟩ := he
    have hk := hsame (k,c) (by simp)
    simp only at hk hc
    cases hs : K.same k n with
    | false =>
      obtain ⟨b,hb,hrest⟩ := ih fun e he => hsame e (by simp [he])
      rw [hs] at hk
      refine ⟨b,?_,by simp [hs,hrest]⟩
      simp only [fieldPasses]
      rw [bind_ok hk]
      exact hb
    | true =>
      rw [hs] at hk
      by_cases hu : x = .undefined
      · refine ⟨false,?_,by simp [hu]⟩
        simp only [fieldPasses]
        rw [bind_ok hk]
        simp [hu]
      · obtain ⟨b,hb,hD⟩ := hc.outcome hx
        refine ⟨b,?_,by simp [hu,hs,hD]⟩
        simp only [fieldPasses]
        rw [bind_ok hk]
        simp only [if_true,hu,if_false]
        rw [bind_ok hb]
        cases b <;> rfl

theorem decides_record (h : s.Answers m K P) (hv : P v) (hnames : ∀ e ∈ shape, K.Name e.1) :
    (record shape).Decides m s (.record K ds) v := by
  have hown := ownFields_native (m := m) (h.native v hv)
  cases hf : s.fields? v with
  | none =>
    rw [hf] at hown
    refine ⟨false,?_,by simp [Meaning.record,hf]⟩
    simp only [holds]
    rw [bind_ok hown]
    rfl
  | some es =>
    rw [hf] at hown
    obtain ⟨k,hk,hruns,hbound⟩ := hown
    have hfield : ∀ e ∈ es, ∃ b, givenPasses m shape (partOf .items e) s = .ok b s ∧ (b ↔ e.2 ≠ .undefined ∧
          ∃ d, ds.find? (fun d => K.same d.1 e.1) = some d ∧ d.2 s e.2) := by
      rintro ⟨n,x⟩ he
      obtain ⟨hn,hx⟩ := h.fields v es hv hf (n,x) he
      obtain ⟨b,hb,hpass⟩ := decides_field (n := n) hshape (fun e he => h.same e.1 n (hnames e he) hn) hx
      have hparts : fieldParts m (partOf .items (n,x)) s = .ok (n,x) s := rfl
      refine ⟨b,?_,hpass⟩
      exact (bind_ok hparts).trans ((bind_ok (h.key n hn)).trans hb)
    obtain ⟨b,hb,hpass⟩ := Cursor.every_runs (f := givenPasses m shape) hruns hfield hbound
    refine ⟨b,?_,by simp [Meaning.record,hf,hpass]⟩
    simp only [holds]
    rw [bind_ok hk]
    simp only [get_bind_apply]
    exact hb

end record
end Rule
end rules
end CallContracts
