import CallContracts.Proofs.Table
/-! The contracts that are there from the start, and what the plain tables of a program come to under
them. -/
namespace CallContracts
open Act

/-- The contracts that are there from the start are contracts still. -/
def Store.HasStandard (s : Store) : Prop := ∀ c ∈ Contract.standard, (s.contract? c.value).isSome

theorem Store.HasStandard.keep {F : Frame} {s t : Store} (h : s.HasStandard) (ht : s.Keeps F t)
    (hF : ∀ c ∈ Contract.standard, s.Holds F c.value) : t.HasStandard := by
  intro c hc
  rw [ht.contract? (hF c hc)]
  exact h c hc

theorem Store.HasStandard.grows {s t : Store} (h : s.HasStandard) (ht : s.Grows t) : t.HasStandard := by
  refine h.keep ht fun c hc => ?_
  have hs := h c hc
  cases hb : s.body? c.value with
  | none => simp [contract?,hb] at hs
  | some b => exact holds_all_of_body hb

theorem Store.HasStandard.but {s t : Store} {d : Ref} {es : List (Value × Value)} (h : s.HasStandard)
    (hd : s.IsTable d es) (ht : s.Keeps (.but d) t) : t.HasStandard := by
  refine h.keep ht fun c hc => ?_
  have hs := h c hc
  cases hb : s.body? c.value with
  | none => simp [contract?,hb] at hs
  | some b =>
    refine holds_but hd hb ?_
    rintro fs rfl
    simp [contract?,hb] at hs

namespace Contract
variable {m : Machine} {s t : Store} {r d : Ref} {es : List (Value × Value)} {v : Value}

theorem outcome_of_holds {x : Value} {rule : Rule} {b : Bool} (hr : (s.contract? (.ref r)).isSome)
    (h : rule.holds m v s = .ok b t) :
    (Contract.mk r x rule).outcome m v s = .ok (if b then .matched else .mismatched) t := by
  simp only [Contract.outcome,get_bind_apply,hr,if_true]
  rw [bind_ok h]
  cases b <;> rfl

theorem holds_not {c : Contract} {o : Outcome} (h : c.outcome m v s = .ok o t) :
    (Rule.not c).holds m v s = .ok (decide (o = .mismatched)) t := by
  simp only [Rule.holds]
  rw [bind_ok h]
  rfl

theorem noneFails_matched {c : Contract} {cs : List Contract} (h : c.outcome m v s = .ok .matched t) :
    noneFails m (c :: cs) v s = noneFails m cs v t := by
  rw [noneFails_cons,bind_ok h]
  rfl

theorem isSome_standard (hs : s.HasStandard) (c : Contract) (hc : c ∈ standard) {r : Ref}
    (hr : c.id = r) : (s.contract? (.ref r)).isSome := by
  subst hr
  exact hs c hc

theorem kindOf_table (hd : s.IsTable d es) : kindOf m (.ref d) s = .ok .object s := by
  have hb : isKind m (.ref d) .bool s = .ok false s := isKind_builtin hd.cls (by decide)
  have hn : isKind m (.ref d) .number s = .ok false s := isKind_builtin hd.cls (by decide)
  have ht : isKind m (.ref d) .str s = .ok false s := isKind_builtin hd.cls (by decide)
  have hc : s.isCallable (.ref d) = false := (Store.isCallable_builtin hd.cls).trans (by decide)
  simp [kindOf,bind_apply,hb,hn,ht,hc]

theorem isArray_table (hd : s.IsTable d es) : isArray m (.ref d) s = .ok false s := by
  have hl : isKind m (.ref d) .list s = .ok false s := isKind_builtin hd.cls (by decide)
  have ht : isKind m (.ref d) .tuple s = .ok false s := isKind_builtin hd.cls (by decide)
  rw [isArray,bind_ok hl]
  exact ht

/-- Membership in a builtin class is asked of the classes of a value. -/
theorem belongsTo_builtin {c : BuiltinClass} {b : Bool} (hne : (s.classOf v).value ≠ .builtinClass c)
    (hi : isInstance m v (.builtin c) s = .ok b s) : belongsTo m depthLimit v (.builtinClass c) s = .ok b s := by
  change belongsTo m (999+1) _ _ s = _
  generalize 999 = n
  have hbody : s.body? (.builtinClass c) = none := rfl
  have hcls : s.classOf (.builtinClass c) = .builtin c.ownClass := rfl
  have hclass : s.class? (.builtinClass c) = some (.builtin c) := rfl
  simp only [belongsTo,get_bind_apply,hne,if_false,hbody,hcls,Store.override?_builtin,hclass]
  exact hi

theorem belongsTo_table {c : BuiltinClass} {b : Bool} (hd : s.IsTable d es) (hc : c ≠ .dict)
    (hb : ({} : Store).isSubclass (.builtin .dict) (.builtin c) = b) :
    belongsTo m depthLimit (.ref d) (.builtinClass c) s = .ok b s :=
  belongsTo_builtin (by rw [hd.cls]; simpa [ClassId.value] using hc.symm) (isKind_builtin hd.cls hb)

/-- What is no array and no date is an object, if that is its kind. -/
theorem object_outcome (hs : s.HasStandard) (hkind : kindOf m (.ref r) s = .ok .object s)
    (harray : isArray m (.ref r) s = .ok false s) (hdate : belongsTo m depthLimit (.ref r) (.builtinClass .date) s = .ok false s) :
    object.outcome m (.ref r) s = .ok .matched s := by
  have hobject : objectKind.outcome m (.ref r) s = .ok .matched s := by
    refine outcome_of_holds (b := true) (isSome_standard hs objectKind (by simp [standard]) rfl) ?_
    simp only [Rule.holds,reduceCtorEq,if_false]
    rw [bind_ok hkind]
    rfl
  have hany : anyArray.outcome m (.ref r) s = .ok .mismatched s :=
    outcome_of_holds (b := false) (isSome_standard hs anyArray (by simp [standard]) rfl)
      (by simpa only [Rule.holds] using harray)
  have hnoArray : noArray.outcome m (.ref r) s = .ok .matched s :=
    outcome_of_holds (isSome_standard hs noArray (by simp [standard]) rfl) (holds_not hany)
  have hmismatch : date.outcome m (.ref r) s = .ok .mismatched s :=
    outcome_of_holds (b := false) (isSome_standard hs date (by simp [standard]) rfl)
      (by simpa only [Rule.holds] using hdate)
  have hnoDate : noDate.outcome m (.ref r) s = .ok .matched s :=
    outcome_of_holds (isSome_standard hs noDate (by simp [standard]) rfl) (holds_not hmismatch)
  refine outcome_of_holds (b := true) (isSome_standard hs object (by simp [standard]) rfl) ?_
  simp only [Rule.holds]
  rw [noneFails_matched hobject,noneFails_matched hnoArray,noneFails_matched hnoDate,noneFails_nil]
  rfl

theorem object_table (hs : s.HasStandard) (hd : s.IsTable d es) :
    object.outcome m (.ref d) s = .ok .matched s :=
  object_outcome hs (kindOf_table hd) (isArray_table hd) (belongsTo_table hd (by decide) (by decide))

/-- A plain table can be a map of signatures. -/
theorem signatureMap_table (hs : s.HasStandard) (hd : s.IsTable d es) :
    signatureMap.outcome m (.ref d) s = .ok .matched s := by
  have hmapping : mapping.outcome m (.ref d) s = .ok .matched s :=
    outcome_of_holds (b := true) (isSome_standard hs mapping (by simp [standard]) rfl)
      (by simpa only [Rule.holds] using belongsTo_table hd (by decide) (by decide))
  refine outcome_of_holds (b := true) (isSome_standard hs signatureMap (by simp [standard]) rfl) ?_
  simp only [Rule.holds]
  rw [noneFails_matched (object_table hs hd),noneFails_matched hmapping,noneFails_nil]
  rfl

/-- What an attachment takes. -/
theorem gives_attachment {signatures target pair : Value} (hs : s.HasStandard)
    (hp : s.IsTuple pair [signatures,target])
    (hmap : Always (s.Grows ·) (signatureMap.outcome m signatures) .matched)
    (htarget : Always (s.Grows ·) (object.outcome m target) .matched) :
    (attachment.outcome m pair).Gives .matched s := by
  obtain ⟨u,hu,hg⟩ := hmap s (Store.Keeps.refl _ s)
  obtain ⟨w,hw,hg'⟩ := htarget u hg
  refine ⟨w,outcome_of_holds (b := true) (isSome_standard hs attachment (by simp [standard]) rfl) ?_,
    hg.trans hg'⟩
  have hlen : [signatures,target].length = [signatureMap,object].length := rfl
  rw [holds_tuple hp,if_pos hlen,eachPasses_cons,bind_ok hu]
  simp only [reduceCtorEq,if_false]
  rw [eachPasses_cons,bind_ok hw]
  rfl

end Contract
end CallContracts
