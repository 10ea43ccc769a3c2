import CallContracts.Proofs.Check
/-! Plain values: functions tell their titles, contracts describe themselves and tables list their entries
without a look at anything else. -/
namespace CallContracts
open Act

section function
variable {M : Machine} {s : Store} {v : Value} {f : Function} {n : String}

/-- A function of the program or the library. -/
structure Store.IsFunction (s : Store) (v : Value) (f : Function) : Prop where
  cls : s.classOf v = .builtin .function
  body : s.body? v = some (.function f)

theorem Store.IsFunction.grows {t : Store} (h : s.IsFunction v f) (ht : s.Grows t) :
    t.IsFunction v f := by
  have hv := holds_all_of_body h.body
  exact ⟨by rw [ht.classOf hv,h.cls],by rw [ht.body? hv,h.body]⟩

/-- What functions store or compute about themselves. -/
theorem read_functionPart {sort : MemberSort} (h : s.IsFunction v f)
    (hm : BuiltinClass.function.line.findSome? (·.ownMember? n)
      = some (.operation (.member .function n sort)))
    (hsort : sort = .storage ∨ sort = .getter)
    (hn : n ≠ "__class__" ∧ n ≠ "__dict__" ∧ n ≠ "__weakref__") :
    M.next.read v n s = functionPart v n s := by
  obtain ⟨r,rfl⟩ := Store.ref_of_body h.body
  obtain ⟨hcls,hdict,hweak⟩ := hn
  have hclass : s.class? (.ref r) = none := Store.class?_of_body h.body (by simp)
  have hdata : s.isDataMember (.operation (.member .function n sort)) = true := by
    rcases hsort with rfl | rfl <;> simp [Store.isDataMember]
  have hA : s.isA (.ref r) .function = true := by
    rw [Store.isA_builtin h.cls]
    decide
  rw [read_next_builtin h.cls hclass (by decide)]
  simp only [readOfInstance,get_bind_apply,h.cls,Store.classMember?_builtin,hm,hdata,if_true]
  rcases hsort with rfl | rfl <;>
    simp [bindTo,bindOperation,hA,computed,hcls,hdict,hweak]

theorem isCallable_function (h : s.IsFunction v f) : s.isCallable v = true := by
  rw [Store.isCallable_builtin h.cls]
  decide

/-- A call of a function runs its code. -/
theorem call_function (h : s.IsFunction v f) (args : List Value) (named : Fields Value) :
    M.next.call v args named s = f.code.call M args named s := by
  obtain ⟨r,rfl⟩ := Store.ref_of_body h.body
  have hn : s.class? (.ref r) = none := Store.class?_of_body h.body (by simp)
  change callValue M (.ref r) args named s = _
  simp only [callValue,get_bind_apply,h.cls,Store.override?_builtin,callNative,hn,h.body]

theorem calm_annotations (h : s.IsFunction v f) : (annotationsOf v).Calm s := by
  obtain ⟨r,rfl⟩ := Store.ref_of_body h.body
  cases hslot : s.slot? (.ref r) "__annotations__" with
  | some t => exact ⟨t,s,by simp [annotationsOf,hslot],Store.Keeps.refl _ s⟩
  | none =>
    have g : s.Grows (s.alloc { cls := .builtin .dict, body := .table [] }).2 := Store.Keeps.alloc s _
    refine ⟨.ref s.heap.size,_,?_,g.trans (Store.Keeps.update (r := r)
      (f := fun o => { o with slots := o.slots.put "__annotations__" (.ref s.heap.size) }) ?_)⟩
    · simp only [annotationsOf,get_bind_apply,hslot,newTable]
      rw [bind_ok (alloc_apply _ s)]
      rfl
    · intro o ho _
      have hb : o.body = .function f := by simpa [Store.body?_of_get? ho] using (h.grows g).body
      exact ⟨rfl,rfl,rfl,rfl,Frame.lasting_put _ _ (Or.inl rfl),fun hn => by rw [hb] at hn; cases hn⟩

theorem calm_title (h : s.IsFunction v f) (hn : n ∈ Wrapper.titles) : (optional (M.next.read v n)).Calm s := by
  have calm {x : Act Value} (hx : x.Calm s) : (optional x).Calm s := by
    obtain ⟨a,ha⟩ := hx
    exact (gives_optional ha).calm
  apply calm
  simp only [Wrapper.titles,List.mem_cons,List.not_mem_nil,or_false] at hn
  have hf : s.function? v = some f := by rw [Store.function?,h.body]
  have part {x : Value} {sort : MemberSort}
      (hm : BuiltinClass.function.line.findSome? (·.ownMember? n)
        = some (.operation (.member .function n sort))) (hsort : sort = .storage ∨ sort = .getter)
      (hne : n ≠ "__class__" ∧ n ≠ "__dict__" ∧ n ≠ "__weakref__")
      (hx : functionPart v n s = .ok x s) : (M.next.read v n).Calm s :=
    ⟨x,s,(read_functionPart h hm hsort hne).trans hx,Store.Keeps.refl _ s⟩
  rcases hn with rfl | rfl | rfl | rfl | rfl
  · exact part rfl (Or.inl rfl) (by decide) (by simp [functionPart,hf]; rfl)
  · exact part rfl (Or.inr rfl) (by decide) (by simp [functionPart,hf]; rfl)
  · exact part rfl (Or.inr rfl) (by decide) (by simp [functionPart,hf]; rfl)
  · exact part rfl (Or.inl rfl) (by decide) (by simp [functionPart]; rfl)
  · have hr := read_functionPart (M := M) (n := "__annotations__") h rfl (Or.inr rfl)
      (by decide)
    obtain ⟨x,t,ht,hg⟩ := calm_annotations h
    refine ⟨x,t,?_,hg⟩
    rw [hr]
    simp [functionPart,ht]

/-- Nothing goes wrong when the titles and attributes of a function are read. -/
theorem Wrapper.tells_function {W : Store → Prop} (h : ∀ t, W t → t.IsFunction v f) :
    Tells W M.next v := by
  refine ⟨fun n hn t ht => calm_title (h t ht) hn,fun t ht => ?_⟩
  have hv := h t ht
  have hhide : t.hidesTable v = false := by
    obtain ⟨r,rfl⟩ := Store.ref_of_body hv.body
    simp [Store.hidesTable,hv.cls]
  exact ⟨t.tableOf v,t,by simp [takenTable,hhide,map_apply],Store.Keeps.refl _ t⟩

end function

/-- A contract with a text for a description can be built with. -/
theorem describable_of_contract {W : Store → Prop} {m : Machine} {c : Contract} {x : String}
    (hc : ∀ t, W t → t.contract? c.value = some c) (hd : c.description = .str x) :
    Describable W m c := by
  refine ⟨fun t ht => gives_of_eq (by simp [Contract.checked,hc t ht]),.str x,x,fun t ht => ?_,by simp⟩
  exact gives_of_eq (by simp [Contract.describe,hc t ht,hd])

end CallContracts
