import CallContracts.Proofs.Table
import CallContracts.Proofs.Wrapping
/-! Calls of the library's own objects.  A wrapper hands its call to its advice, with the arguments as a
tuple and without names; a check that is an advice enforces its signature. -/
namespace CallContracts
open Act

section object
variable {M : Machine} {s t : Store} {v w p k : Value} {b c : BuiltinClass} {args : List Value}

/-- An object of a builtin class is called as its class defines it. -/
theorem call_member {r : Ref} (hc : s.classOf (.ref r) = .builtin b)
    (hb : s.body? (.ref r) = some .plain)
    (hm : b.line.findSome? (·.ownMember? "__call__") = some (.operation (.member c "__call__" .plain)))
    (named : Fields Value) :
    M.next.call (.ref r) args named s = Member.call M c "__call__" (.ref r :: args) named s := by
  have hn : s.class? (.ref r) = none := Store.class?_of_body hb (by simp)
  change callValue M (.ref r) args named s = _
  simp only [callValue,get_bind_apply,hc,Store.override?_builtin,callNative,hn,hb,
    Store.classMember?_builtin,hm,Operation.callMember]

/-- What a call hands to an advice. -/
structure Store.Handed (s : Store) (args : List Value) (a n : Value) : Prop where
  args : s.IsTuple a args
  named : ∃ d, n = .ref d ∧ s.IsTable d []

theorem Store.Handed.grows {a n : Value} (h : s.Handed args a n) (ht : s.Grows t) :
    t.Handed args a n := by
  obtain ⟨d,hd,htable⟩ := h.named
  exact ⟨h.args.grows ht,d,hd,htable.grows ht⟩

theorem quiet_handed (args : List Value) (s : Store) :
    ∃ a t n u, newTuple args s = .ok a t ∧ newNamed [] t = .ok n u ∧ s.Grows u ∧ u.Handed args a n := by
  obtain ⟨a,t,ht,hg,ha⟩ := quiet_newTuple args s
  obtain ⟨_,u,hu,hg',rfl,hn⟩ := quiet_alloc { cls := .builtin .dict, body := .table [] } t
  refine ⟨a,t,_,u,ht,hu,hg.trans hg',ha.grows hg',_,rfl,?_,?_⟩
  · rw [Store.classOf_of_get? hn]
  · rw [Store.body?_of_get? hn]

/-- A wrapper takes every call that does not name the wrapper itself. -/
theorem member_call_wrapper (v : Value) (args : List Value) (named : Fields Value) :
    Member.call M .wrapper "__call__" (v :: args) named =
      if (named.get? "self").isSome then refuse .typeError else Wrapper.call M v args named := by
  have hplaced : (Member.params .wrapper "__call__").arguments args named = some [.rest args,.keywords named] := by
    simp [Member.params,Params.arguments,Params.place]
  unfold Member.call
  cases hself : named.get? "self" with
  | none =>
    simp [Member.selfAnd,hself,hplaced,Member.apply,Member.ofWrapper,ofOption]
  | some x =>
    simp only [Member.selfAnd,hself]
    rfl

/-- A call of a wrapper hands its arguments, as a tuple, and the named ones, as a table, to its advice. -/
theorem call_wrapper_hands (args : List Value) (named : Fields Value) (h : s.Wraps c w p k)
    (hc : c = .wrapper ∨ c = .classWrapper) : M.next.call w args named s =
      (if (named.get? "self").isSome then refuse .typeError
      else do
        let a ← newTuple args
        let n ← newNamed named
        M.call k [p,a,n] []) s := by
  obtain ⟨r,o,rfl,-⟩ := h.place
  have hcall : M.next.call (.ref r) args named s
      = Member.call M .wrapper "__call__" (.ref r :: args) named s := by
    rcases hc with rfl | rfl
    · exact call_member h.classOf h.body? rfl named
    · exact call_member h.classOf h.body? rfl named
  rw [hcall,member_call_wrapper]
  cases (named.get? "self").isSome with
  | true => rfl
  | false =>
    obtain ⟨a,t,ht,hg,-⟩ := quiet_newTuple args s
    obtain ⟨n,u,hu,hg',-⟩ := quiet_alloc
      { cls := .builtin .dict, body := .table (named.map fun f => (.str f.1,f.2)) } t
    have hw := h.grows (hg.trans hg')
    simp only [Bool.false_eq_true,if_false]
    rw [Wrapper.call,bind_ok ht,bind_ok ht,newNamed,newTable,bind_ok hu,bind_ok hu,
      bind_ok (fieldOf_own hw.classOf hw.advice),bind_ok (fieldOf_own hw.classOf hw.proceed)]

/-- A call of a wrapper is a call of its advice. -/
theorem call_wrapper (args : List Value) (h : s.Wraps c w p k) (hc : c = .wrapper ∨ c = .classWrapper) :
    ∃ a n t, s.Grows t ∧ t.Handed args a n ∧ M.next.call w args [] s = M.call k [p,a,n] [] t := by
  obtain ⟨a,t,n,u,ht,hu,hg,hh⟩ := quiet_handed args s
  refine ⟨a,n,u,hg,hh,?_⟩
  rw [call_wrapper_hands args [] h hc]
  exact (bind_ok ht).trans (bind_ok hu)

/-- A call of a check enforces its signature. -/
theorem call_check {f n a : Value} {cs : List Contract} (h : s.Checks k f n cs) (args named : Value) :
    M.next.call k [a,args,named] [] s = Signature.enforce M k a args named s := by
  obtain ⟨r,o,rfl,-⟩ := h.place
  rw [call_member h.classOf h.body? (c := .signatureCheck) rfl]
  rfl

end object

/-- A number is true unless it is zero. -/
theorem truth_int {m : Machine} {s : Store} (i : Int) : truth m (.int i) s = .ok (decide (i ≠ 0)) s := by
  have hclass : s.classOf (.int i) = .builtin .int := rfl
  simp [truth,hclass,Store.nativeTruth?,Store.unboxed,Store.body?,Store.obj?]

section table
variable {m : Machine} {s : Store} {d : Ref} {es : List (Value × Value)}

/-- A table is true if it has entries. -/
theorem truth_table (h : s.IsTable d es) : truth m (.ref d) s = .ok (decide (es ≠ [])) s := by
  have hx : s.unboxed (.ref d) = .ref d := Store.unboxed_of_body h.body (by simp)
  have ht : s.text? (.ref d) = none := Store.text?_of_body h.body (by simp)
  have hparts : s.parts (.ref d) = none := by
    simp [Store.parts,Store.real?,Store.whole?,hx,Store.scalar?_of_body h.body]
  have hA : s.isA (.ref d) .undefined = false := by
    rw [Store.isA_builtin h.cls]
    decide
  simp [truth,h.cls,Store.nativeTruth?,hx,hparts,hA,h.body,Store.nativeLength?,ht,Store.entries?_of_table h.body]

/-- A plain table stands for names. -/
theorem namedOf_table (h : s.IsTable d es) : namedOf m (.ref d) s = named es s := by
  have hA : s.isA (.ref d) .dict = true := by
    rw [Store.isA_builtin h.cls]
    decide
  simp [namedOf,Store.copiesEntries,hA,h.cls,Store.entries?_of_table h.body]

end table
end CallContracts
