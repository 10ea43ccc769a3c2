import CallContracts.Proofs.Calls
import CallContracts.Proofs.Function
/-! Stacks of wrappers.  A callable that goes through advices, the last installed first, ends at a function
and at what the function receives before the explicit arguments.  Wrapping adds one advice, and binding
adds the receiver below all of them. -/
namespace CallContracts
open Act

/-- What the library itself makes out of members: advices may do with all other objects what they like. -/
def Frame.callables : Frame where
  holds _ c := c ∈ [BuiltinClass.function,.method,.wrapper,.unboundWrapper,.classWrapper,.staticMethod,
    .classMethod].map ClassId.builtin
  silent := false

namespace Store
variable {s t : Store} {f v w p a i : Value} {g : Function} {as recv : List Value} {b : BuiltinClass}

/-- A function with its first argument. -/
structure IsMethod (s : Store) (v f x : Value) : Prop where
  cls : s.classOf v = .builtin .method
  body : s.body? v = some (.bound f x)

/-- A callable that goes through these advices to `f`, which receives `recv` first. -/
inductive Stacked (s : Store) (f : Value) : List Value → Value → List Value → Prop where
  | original : Stacked s f [] f []
  | bound {v x : Value} : s.IsMethod v f x → Stacked s f [x] v []
  | advised {w p a : Value} {recv as : List Value} : s.Wraps .wrapper w p a → Stacked s f recv p as →
      Stacked s f recv w (a :: as)

/-- A callable that goes through these advices to a function of the program or the library. -/
structure Routed (s : Store) (f : Value) (recv : List Value) (v : Value) (as : List Value) : Prop where
  stacked : s.Stacked f recv v as
  function : ∃ g, s.IsFunction f g

theorem IsFunction.keep (h : s.IsFunction v g) (ht : s.Keeps .callables t) : t.IsFunction v g := by
  have hv : s.Holds .callables v := holds_of_class h.body h.cls fun _ => by simp [Frame.callables]
  exact ⟨by rw [ht.classOf hv,h.cls],by rw [ht.body? hv,h.body]⟩

theorem IsMethod.keep (h : s.IsMethod v f i) (ht : s.Keeps .callables t) : t.IsMethod v f i := by
  have hv : s.Holds .callables v := holds_of_class h.body h.cls fun _ => by simp [Frame.callables]
  exact ⟨by rw [ht.classOf hv,h.cls],by rw [ht.body? hv,h.body]⟩

theorem Wraps.keep_callables (h : s.Wraps b w p a) (hb : b ∈ [.wrapper,.unboundWrapper,.classWrapper])
    (ht : s.Keeps .callables t) : t.Wraps b w p a := by
  refine h.keep ht ?_ (by decide) (by decide)
  refine holds_of_class h.body? h.classOf fun _ => ?_
  simp only [List.mem_cons,List.not_mem_nil,or_false] at hb
  rcases hb with rfl | rfl | rfl <;> simp [Frame.callables]

namespace Stacked

theorem keep (h : s.Stacked f recv v as) (ht : s.Keeps .callables t) : t.Stacked f recv v as := by
  induction h with
  | original => exact .original
  | bound hm => exact .bound (hm.keep ht)
  | advised hw _ ih => exact .advised (hw.keep_callables (by simp) ht) ih

theorem grows (h : s.Stacked f recv v as) (ht : s.Grows t) : t.Stacked f recv v as :=
  h.keep (Keeps.of_grows ht)

theorem isCallable (h : s.Stacked f recv v as) (hf : s.isCallable f = true) : s.isCallable v = true := by
  cases h with
  | original => exact hf
  | bound hm =>
    rw [isCallable_builtin hm.cls]
    decide
  | advised hw _ =>
    rw [isCallable_builtin hw.classOf]
    decide

end Stacked

namespace Routed

theorem original (hf : s.IsFunction f g) : s.Routed f [] f [] := ⟨.original,g,hf⟩

theorem bound (hf : s.IsFunction f g) (hm : s.IsMethod v f i) : s.Routed f [i] v [] := ⟨.bound hm,g,hf⟩

theorem keep (h : s.Routed f recv v as) (ht : s.Keeps .callables t) : t.Routed f recv v as := by
  obtain ⟨hs,g,hf⟩ := h
  exact ⟨hs.keep ht,g,hf.keep ht⟩

theorem grows (h : s.Routed f recv v as) (ht : s.Grows t) : t.Routed f recv v as :=
  h.keep (Keeps.of_grows ht)

end Routed
end Store

namespace Wrapper
variable {M : Machine} {s : Store} {f v w p a i : Value} {as recv : List Value} {n : String}
  {b : BuiltinClass}

theorem calm_table {o : Body} (hb : s.body? v = some o) (hc : s.classOf v = .builtin b) :
    (takenTable M v).Calm s := by
  have hhide : s.hidesTable v = false := by
    obtain ⟨r,rfl⟩ := Store.ref_of_body hb
    simp [Store.hidesTable,hc,Store.attrs?]
  exact ⟨s.tableOf v,s,by simp [takenTable,hhide,map_apply],Store.Keeps.refl _ s⟩

/-- A title of an object that its class does not compute. -/
theorem calm_readPlain {r : Ref} {body : Body} (hc : s.classOf (.ref r) = .builtin b)
    (hb : s.body? (.ref r) = some body) (hbody : (∀ info, body ≠ .cls info) ∧ ∀ f i, body ≠ .bound f i)
    (hmodule : .module ∉ b.line)
    (hmember : b.line.findSome? (·.ownMember? n) ∈ [none,some .absent,some (.str "pacta.aop")]) :
    (optional (M.next.read (.ref r) n)).Calm s := by
  have hclass : s.class? (.ref r) = none := Store.class?_of_body hb hbody.1
  have hread : M.next.read (.ref r) n s = readOfInstance M (.ref r) n s := read_next_builtin hc hclass hmodule
  have found {x : Value} (hx : M.next.read (.ref r) n s = .ok x s) : (optional (M.next.read (.ref r) n)).Calm s :=
    (gives_optional (gives_of_eq hx)).calm
  have member {x : Value} (hx : b.line.findSome? (·.ownMember? n) = some x) (hd : s.isDataMember x = false)
      (hx' : bindTo M x (.ref r) (ClassId.builtin b).value s = .ok x s) :
      (optional (M.next.read (.ref r) n)).Calm s := by
    cases ha : s.attr? (.ref r) n with
    | some y =>
      refine found (x := y) (hread.trans ?_)
      simp [readOfInstance,hc,Store.classMember?_builtin,hx,hd,ha]
    | none =>
      refine found (x := x) (hread.trans ?_)
      simp [readOfInstance,hc,Store.classMember?_builtin,hx,hd,ha,hx']
  simp only [List.mem_cons,List.not_mem_nil,or_false] at hmember
  rcases hmember with hm | hm | hm
  · cases ha : s.attr? (.ref r) n with
    | some y =>
      refine found (x := y) (hread.trans ?_)
      simp [readOfInstance,hc,Store.classMember?_builtin,hm,ha]
    | none =>
      have hmissing : M.next.read (.ref r) n s = .error (.raised (.refused .attributeError)) s := by
        rw [hread]
        cases body with
        | bound f i => exact absurd rfl (hbody.2 f i)
        | _ => simp [readOfInstance,hc,Store.classMember?_builtin,hm,ha,hb]
      exact calm_optional hmissing (Store.Keeps.refl _ s) (by decide)
  · refine member hm ?_ rfl
    simp [Store.isDataMember,Store.isA_builtin (s := s) (v := .absent) (b := .absent) rfl,Store.classOf]
    decide
  · refine member hm ?_ rfl
    simp [Store.isDataMember,Store.isA_builtin (s := s) (v := .str "pacta.aop") (b := .str) rfl,Store.classOf]
    decide

/-- What a class of wrappers holds under a title is no computed member. -/
theorem calm_readWrapper (hb : b ∈ [.wrapper,.unboundWrapper,.classWrapper]) (h : s.Wraps b w p a)
    (hn : n ∈ titles) : (optional (M.next.read w n)).Calm s := by
  obtain ⟨r,o,rfl,-⟩ := h.place
  simp only [titles,List.mem_cons,List.not_mem_nil,or_false] at hb hn
  refine calm_readPlain h.classOf h.body? (by simp) ?_ ?_
  · rcases hb with rfl | rfl | rfl <;> decide
  · rcases hb with rfl | rfl | rfl <;> rcases hn with rfl | rfl | rfl | rfl | rfl <;> decide

/-- What is bound answers for what it is bound to, unless it has an answer of its own. -/
theorem read_bound (h : s.IsMethod v f i) (hn : n ∈ titles) :
    (∃ y, M.next.read v n s = .ok y s) ∨ M.next.read v n s = M.read f n s := by
  obtain ⟨r,rfl⟩ := Store.ref_of_body h.body
  have hclass : s.class? (.ref r) = none := Store.class?_of_body h.body (by simp)
  rw [read_next_builtin h.cls hclass (by decide)]
  by_cases hdoc : n = "__doc__"
  · subst hdoc
    have hm : BuiltinClass.method.line.findSome? (·.ownMember? "__doc__")
        = some (.operation (.member .method "__doc__" .getter)) := rfl
    have hA : s.isA (.ref r) .method = true := by
      rw [Store.isA_builtin h.cls]
      decide
    have hdata : s.isDataMember (.operation (.member .method "__doc__" .getter)) = true := rfl
    refine Or.inl ⟨s.functionDoc (.ref r),?_⟩
    simp [readOfInstance,h.cls,Store.classMember?_builtin,hm,hdata,bindTo,bindOperation,hA,computed,
      map_apply]
  · have hm : BuiltinClass.method.line.findSome? (·.ownMember? n) = none := by
      simp only [titles,List.mem_cons,List.not_mem_nil,or_false,hdoc,false_or] at hn
      rcases hn with rfl | rfl | rfl | rfl <;> decide
    cases ha : s.attr? (.ref r) n with
    | some y => exact Or.inl ⟨y,by simp [readOfInstance,h.cls,Store.classMember?_builtin,hm,ha]⟩
    | none => exact Or.inr (by simp [readOfInstance,h.cls,Store.classMember?_builtin,hm,ha,h.body])

theorem calm_readBound (hf : (optional (M.next.read f n)).Calm s) (h : s.IsMethod v f i) (hn : n ∈ titles) :
    (optional (M.next.next.read v n)).Calm s := by
  rcases read_bound (M := M.next) h hn with ⟨y,hy⟩ | hforward
  · exact (gives_optional (gives_of_eq hy)).calm
  · obtain ⟨x,t,ht,hg⟩ := hf
    refine ⟨x,t,?_,hg⟩
    rw [← ht]
    simp only [Act.optional,orElseMissing,orElseOn,map_apply,hforward]

theorem calm_readMethod {g : Function} (hf : s.IsFunction f g) (h : s.IsMethod v f i) (hn : n ∈ titles) :
    (optional (M.next.next.read v n)).Calm s := calm_readBound (calm_title hf hn) h hn

theorem tells_wrapper {W : Store → Prop} (hb : b ∈ [.wrapper,.unboundWrapper,.classWrapper])
    (h : ∀ t, W t → t.Wraps b w p a) : Tells W M.next w :=
  ⟨fun _ hn t ht => calm_readWrapper hb (h t ht) hn,fun t ht => calm_table (h t ht).body? (h t ht).classOf⟩

theorem tells_routed {W : Store → Prop} (h : ∀ t, W t → t.Routed f recv v as) :
    Tells W M.next.next v := by
  refine ⟨fun n hn t ht => ?_,fun t ht => ?_⟩
  · obtain ⟨hs,g,hf⟩ := h t ht
    cases hs with
    | original => exact calm_title hf hn
    | bound hm => exact calm_readMethod hf hm hn
    | advised hw _ => exact calm_readWrapper (by simp) hw hn
  · obtain ⟨hs,g,hf⟩ := h t ht
    cases hs with
    | original => exact calm_table hf.body hf.cls
    | bound hm => exact calm_table hm.body hm.cls
    | advised hw _ => exact calm_table hw.body? hw.classOf

end Wrapper
end CallContracts
