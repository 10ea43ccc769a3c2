import Mathlib.Logic.Function.Iterate
import CallContracts.Proofs.Routed
/-! Binding members of classes.  A wrapper that is read from an instance hands the instance down to the
function below it, and one that is read from its class waits for the instance; one that stands in place of
a class method binds the class that it is read from. -/
namespace CallContracts
open Act

namespace Store
variable {s t : Store} {f v w p a owner : Value} {as : List Value}

/-- A wrapper that was read from the class `owner` and waits for the instance. -/
def Waits (s : Store) (f owner w a : Value) (as : List Value) : Prop :=
  ∃ p, s.Wraps .unboundWrapper w p a ∧ s.attr? w "owner" = some owner ∧ s.Stacked f [] p as

theorem Waits.keep (h : s.Waits f owner w a as) (ht : s.Keeps .callables t) : t.Waits f owner w a as := by
  obtain ⟨p,hw,ho,hp⟩ := h
  obtain ⟨r,o,rfl,hget,hcls,-,htable⟩ := hw.place
  refine ⟨p,hw.keep_callables (by simp) ht,?_,hp.keep ht⟩
  rw [ht.attr? hget (by simp [Frame.callables,hcls]) htable (by decide),ho]

theorem Waits.grows (h : s.Waits f owner w a as) (ht : s.Grows t) : t.Waits f owner w a as :=
  h.keep (Keeps.of_grows ht)

/-- An object whose attributes are its own. -/
def Owns (s : Store) (v : Value) : Prop := ∃ r o, v = .ref r ∧ s.get? r = some o ∧ o.table = none

theorem Owns.keep {F : Frame} (h : s.Owns v) (ht : s.Keeps F t) (hv : s.Holds F v) : t.Owns v := by
  obtain ⟨r,o,rfl,ho,htable⟩ := h
  obtain ⟨q,hq,hF⟩ := hv r rfl
  obtain rfl : o = q := by simpa [ho] using hq
  obtain ⟨p,hp,hk⟩ := ht.kept r o ho hF
  exact ⟨r,p,rfl,hp,hk.table.trans htable⟩

theorem Owns.attr? {F : Frame} {n : String} (h : s.Owns v) (ht : s.Keeps F t) (hv : s.Holds F v)
    (hn : ¬ F.frees n) : t.attr? v n = s.attr? v n := by
  obtain ⟨r,o,rfl,ho,htable⟩ := h
  obtain ⟨q,hq,hF⟩ := hv r rfl
  obtain rfl : o = q := by simpa [ho] using hq
  exact ht.attr? ho hF htable hn

theorem Wraps.owns {b : BuiltinClass} (h : s.Wraps b w p a) : s.Owns w := by
  obtain ⟨r,o,rfl,ho,-,-,htable⟩ := h.place
  exact ⟨r,o,rfl,ho,htable⟩

/-- Whether an object has an attribute by the name of the way of binding. -/
def ownBinder (s : Store) (v : Value) : Bool := (s.attr? v "__get__").isSome

theorem Owns.ownBinder_keep (h : s.Owns v) (ht : s.Keeps .callables t) (hv : s.Holds .callables v) :
    t.ownBinder v = s.ownBinder v := by
  rw [ownBinder,ownBinder,h.attr? ht hv (by decide)]

theorem Wraps.ownBinder_keep (h : s.Wraps .classWrapper w p a) (ht : s.Keeps .callables t) :
    t.ownBinder w = s.ownBinder w :=
  h.owns.ownBinder_keep ht (holds_of_class h.body? h.classOf fun _ => by simp [Frame.callables])

theorem IsFunction.holds {g : Function} (h : s.IsFunction f g) : s.Holds .callables f :=
  holds_of_class h.body h.cls fun _ => by simp [Frame.callables]

/-- Wrappers in place of a class method.  Each takes over what the function has by the name of the way of
binding. -/
inductive Classed (s : Store) (f : Value) : Value → List Value → Prop where
  | first {g : Function} {w a : Value} : s.IsFunction f g → s.Owns f → s.Wraps .classWrapper w f a →
      s.ownBinder w = s.ownBinder f → Classed s f w [a]
  | layer {w p a : Value} {as : List Value} : s.Wraps .classWrapper w p a →
      s.ownBinder w = s.ownBinder f → Classed s f p as → Classed s f w (a :: as)

namespace Classed

theorem own (h : s.Classed f w as) :
    ∃ p a, s.Wraps .classWrapper w p a ∧ s.ownBinder w = s.ownBinder f := by
  cases h with
  | first _ _ hw hn => exact ⟨_,_,hw,hn⟩
  | layer hw hn _ => exact ⟨_,_,hw,hn⟩

theorem function (h : s.Classed f w as) : (∃ g, s.IsFunction f g) ∧ s.Owns f := by
  induction h with
  | first hf ho _ _ => exact ⟨⟨_,hf⟩,ho⟩
  | layer _ _ _ ih => exact ih

theorem keep (h : s.Classed f w as) (ht : s.Keeps .callables t) : t.Classed f w as := by
  obtain ⟨⟨g,hf⟩,ho⟩ := h.function
  have binder {w p a : Value} (hw : s.Wraps .classWrapper w p a) (hn : s.ownBinder w = s.ownBinder f) :
      t.ownBinder w = t.ownBinder f := by
    rw [hw.ownBinder_keep ht,ho.ownBinder_keep ht hf.holds,hn]
  induction h with
  | first hf _ hw hn =>
    exact .first (hf.keep ht) (ho.keep ht hf.holds) (hw.keep_callables (by simp) ht) (binder hw hn)
  | layer hw hn _ ih => exact .layer (hw.keep_callables (by simp) ht) (binder hw hn) ih

theorem grows (h : s.Classed f w as) (ht : s.Grows t) : t.Classed f w as := h.keep (Keeps.of_grows ht)

end Classed

end Store

namespace Wrapper
variable {M m : Machine} {s t : Store} {f v w p a i owner : Value} {g : Function} {as : List Value}

theorem bindsProceed_builtin {b : BuiltinClass} (hc : s.classOf p = .builtin b) :
    bindsProceed m p s = .ok (b.line.findSome? (·.ownMember? "__get__")).isSome s := by
  simp [bindsProceed,declaredBinder,hc,Store.binds,Store.classMember?_builtin,bind_apply,map_apply]

theorem bindProceed_builtin {b : BuiltinClass} (hc : s.classOf p = .builtin b)
    (hi : i ≠ .absent ∨ owner ≠ .absent) : bindProceed m p i owner s = m.bind p i owner s := by
  have hno : ¬ (i = .absent ∧ owner = .absent ∧ refusesNothing s p = true) := by tauto
  simp only [bindProceed,declaredBinder,bind_apply,get_apply,hc,Store.override?_builtin,pure_apply,hno,
    if_false]

theorem bind_next (h : s.Wraps .wrapper w p a) : m.next.bind w i owner s = bind m w i owner s := by
  obtain ⟨r,o,rfl,-⟩ := h.place
  have hm : BuiltinClass.wrapper.line.findSome? (·.ownMember? "__get__")
      = some (.operation (.member .wrapper "__get__" .plain)) := rfl
  change bindMember m (.ref r) i owner s = _
  simp [bindMember,h.body?,bindObject,h.classOf,Store.classMember?_builtin,hm]

theorem bind_nextUnbound (h : s.Wraps .unboundWrapper w p a) : m.next.bind w i owner s = bind m w i owner s := by
  obtain ⟨r,o,rfl,-⟩ := h.place
  have hm : BuiltinClass.unboundWrapper.line.findSome? (·.ownMember? "__get__")
      = some (.operation (.member .wrapper "__get__" .plain)) := rfl
  change bindMember m (.ref r) i owner s = _
  simp [bindMember,h.body?,bindObject,h.classOf,Store.classMember?_builtin,hm]

theorem bind_nextClass (h : s.Wraps .classWrapper w p a) : M.next.bind w i owner s = bindClass M w i owner s := by
  obtain ⟨r,o,rfl,-⟩ := h.place
  have hm : BuiltinClass.classWrapper.line.findSome? (·.ownMember? "__get__")
      = some (.operation (.member .classWrapper "__get__" .plain)) := rfl
  change bindMember _ (.ref r) i owner s = _
  simp [bindMember,h.body?,bindObject,h.classOf,Store.classMember?_builtin,hm]

theorem iterate_two (n : Nat) : Machine.next^[n+2] M = (Machine.next^[n] M).next.next := by
  rw [Function.iterate_succ_apply',Function.iterate_succ_apply']

/-- A value whose titles can be read in every store that comes of growth. -/
def Told (s : Store) (v : Value) : Prop := ∀ N : Machine, Tells (s.Grows ·) N.next.next v

theorem told_routed {recv : List Value} (h : s.Routed f recv v as) : Told s v :=
  fun _ => tells_routed fun _ ht => h.grows ht

theorem told_wrapper {b : BuiltinClass} (hb : b ∈ [.wrapper,.unboundWrapper,.classWrapper])
    (h : s.Wraps b w p a) : Told s w := fun _ => tells_wrapper hb fun _ ht => h.grows ht

/-- A new wrapper goes through one advice more. -/
theorem quiet_aroundStack {recv : List Value} (h : s.Stacked f recv v as) (hv : Told s v) (a : Value) :
    (around M.next.next v a).Quiet (fun w t => t.Stacked f recv w (a :: as) ∧ Told t w) s := by
  refine (quiet_make (fun t ht => ht) (hv M) (Or.inl rfl)).imp ?_
  rintro w t ht ⟨hw,-⟩
  exact ⟨.advised hw (h.grows ht),told_wrapper (by simp) hw⟩

theorem quiet_around {recv : List Value} (h : s.Routed f recv v as) (a : Value) :
    (around M.next.next v a).Quiet (fun w t => t.Routed f recv w (a :: as)) s := by
  obtain ⟨g,hf⟩ := h.function
  exact (quiet_aroundStack h.stacked (told_routed h) a).imp fun w t ht hw => ⟨hw.1,g,hf.grows ht⟩

/-- What is below wrappers that are members of the class `owner`: a callable that goes through `rest` to `f`.
With an instance it binds what `f` then receives first; without one it stays what it is. -/
structure Grounded (W : Store → Prop) (owner f : Value) (recv : Value → List Value) (b : Value)
    (rest : List Value) : Prop where
  grows : ∀ t u, W t → t.Grows u → W u
  named : owner ≠ .absent
  callable : ∀ t, W t → t.isCallable f = true
  stacked : ∀ t, W t → t.Stacked f [] b rest
  told : ∀ t, W t → Told t b
  binds : ∀ m t, W t → bindsProceed m b t = .ok true t
  unbound : ∀ m t, W t → bindProceed (Machine.next m) b .absent owner t = .ok b t
  bound : ∀ m t i, W t → i ≠ .absent →
    (bindProceed (Machine.next (Machine.next m)) b i owner).Quiet
      (fun c u => u.Stacked f (recv i) c rest ∧ Told u c) t

/-- A function binds the instance as its first argument. -/
theorem grounded_function {W : Store → Prop} (hW : ∀ t u, W t → t.Grows u → W u)
    (hf : ∀ t, W t → t.IsFunction f g) (ho : owner ≠ .absent) :
    Grounded W owner f (fun i => [i]) f [] := by
  have member (m : Machine) (t : Store) (ht : W t) (i : Value) :
      m.next.bind f i owner t = bindFunction f i t := by
    obtain ⟨r,rfl⟩ := Store.ref_of_body (hf t ht).body
    change bindMember _ (.ref r) i owner t = _
    simp [bindMember,(hf t ht).body]
  refine ⟨hW,ho,fun t ht => isCallable_function (hf t ht),fun t _ => .original,fun t ht => told_routed (.original (hf t ht)),fun m t ht => ?_,
    fun m t ht => ?_,fun m t i ht hi => ?_⟩
  · rw [bindsProceed_builtin (hf t ht).cls]
    rfl
  · rw [bindProceed_builtin (hf t ht).cls (Or.inr ho),member m t ht]
    simp [bindFunction]
  · obtain ⟨c,u,hu,hg,rfl,hc⟩ := quiet_alloc { cls := .builtin .method, body := .bound f i } t
    have hr : u.Routed f [i] (.ref t.heap.size) [] :=
      .bound ((hf t ht).grows hg) ⟨Store.classOf_of_get? hc,Store.body?_of_get? hc⟩
    refine ⟨_,u,?_,hg,hr.stacked,told_routed hr⟩
    rw [bindProceed_builtin (hf t ht).cls (Or.inl hi),member _ t ht,← hu]
    simp [bindFunction,hi]

section stack
variable {W : Store → Prop} {recv : Value → List Value} {b : Value} {rest : List Value}

/-- Wrappers of what binds bind themselves. -/
theorem bindsProceed_stacked (h : Grounded W owner f recv b rest) (hs : W s) (hp : s.Stacked b [] p as) :
    bindsProceed m p s = .ok true s := by
  cases hp with
  | original => exact h.binds m s hs
  | advised hw _ =>
    rw [bindsProceed_builtin hw.classOf]
    rfl

/-- Binding an instance adds it below all wrappers. -/
theorem quiet_bindProceed (h : Grounded W owner f recv b rest) (hs : W s) (hv : s.Stacked b [] v as)
    (hi : i ≠ .absent) :
    (bindProceed (Machine.next^[as.length + 2] M) v i owner).Quiet
      (fun c t => t.Stacked f (recv i) c (as ++ rest) ∧ Told t c) s := by
  induction as generalizing v s with
  | nil =>
    cases hv with
    | original => exact h.bound M s i hs hi
  | cons a as ih =>
    cases hv with
    | @advised _ p _ _ _ hw hp =>
      obtain ⟨c,t,hc,hg,hr,htold⟩ := ih hs hp
      obtain ⟨x,u,hx,hg',hr'⟩ := quiet_aroundStack (M := Machine.next^[as.length] M) hr htold a
      rw [← iterate_two] at hx
      refine ⟨x,u,?_,hg.trans hg',hr'⟩
      have hw' := hw.grows hg
      rw [List.length_cons,Nat.add_right_comm,Function.iterate_succ_apply',
        bindProceed_builtin hw.classOf (Or.inl hi),bind_next hw,Wrapper.bind,
        bind_ok (fieldOf_own hw.classOf hw.proceed),bind_ok (bindsProceed_stacked h hs hp)]
      simp only [Bool.not_true,Bool.false_eq_true,if_false,hi]
      rw [bind_ok hc,bind_ok (fieldOf_own hw'.classOf hw'.advice)]
      exact hx

/-- Without an instance, a wrapper of what binds waits for one. -/
theorem quiet_unbound (h : Grounded W owner f recv b rest) (hs : W s) (hw : s.Wraps .wrapper w p a)
    (hp : s.Stacked b [] p as) (hv : Told s p) :
    (M.next.next.next.bind w .absent owner).Quiet (fun c t => t.Waits b owner c a as ∧ Told t c) s := by
  obtain ⟨x,u,hx,hg,hx',-,howner,-⟩ := quiet_make (m := M.next.next) (c := .unboundWrapper) (a := a)
    (e := [("owner",owner)]) (fun t ht => ht) (hv M) (Or.inr ⟨owner,rfl⟩)
  refine ⟨x,u,?_,hg,⟨p,hx',howner owner rfl,hp.grows hg⟩,told_wrapper (by simp) hx'⟩
  rw [bind_next hw,Wrapper.bind,bind_ok (fieldOf_own hw.classOf hw.proceed),
    bind_ok (bindsProceed_stacked h hs hp)]
  simp only [Bool.not_true,Bool.false_eq_true,if_false,if_true,h.named]
  rw [bind_ok (fieldOf_own hw.classOf hw.advice)]
  exact hx

/-- Every callable of a stack tells its titles. -/
theorem told_stacked (h : Grounded W owner f recv b rest) (hs : W s) (hv : s.Stacked b [] v as) : Told s v := by
  cases hv with
  | original => exact h.told s hs
  | advised hw _ => exact told_wrapper (by simp) hw

end stack

/-- A wrapper that is read from an instance is a wrapper of the bound member. -/
theorem quiet_bind (h : s.Routed f [] v as) (hi : i ≠ .absent) (ho : owner ≠ .absent) :
    ((Machine.next^[as.length + 2] M).bind v i owner).Quiet (fun c t => t.Routed f [i] c as) s := by
  obtain ⟨hs,g,hf⟩ := h
  have hground : Grounded (s.Grows ·) owner f (fun i => [i]) f [] :=
    grounded_function (fun _ _ ht hu => ht.trans hu) (fun _ ht => hf.grows ht) ho
  have hbind : bindProceed (Machine.next^[as.length + 2] M) v i owner s
      = (Machine.next^[as.length + 2] M).bind v i owner s := by
    cases hs with
    | original => exact bindProceed_builtin hf.cls (Or.inl hi)
    | advised hw _ => exact bindProceed_builtin hw.classOf (Or.inl hi)
  obtain ⟨c,t,hc,hg,hr,-⟩ := quiet_bindProceed (M := M) hground (Store.Keeps.refl _ s) hs hi
  rw [List.append_nil] at hr
  exact ⟨c,t,hbind.symm.trans hc,hg,hr,g,hf.grows hg⟩

/-- What a class wrapper gives for its own way of binding is an attribute of that name that it has taken over. -/
theorem read_waysOfBinding (h : s.Wraps .classWrapper w p a) : M.next.read w "__get__" s
    = match s.attr? w "__get__" with
      | some g => .ok g s
      | none => bindFunction (.operation (.member .classWrapper "__get__" .plain)) w s := by
  obtain ⟨r,o,rfl,-⟩ := h.place
  have hclass : s.class? (.ref r) = none := Store.class?_of_body h.body? (by simp)
  have hm : BuiltinClass.classWrapper.line.findSome? (·.ownMember? "__get__")
      = some (.operation (.member .classWrapper "__get__" .plain)) := rfl
  have hdata : s.isDataMember (.operation (.member .classWrapper "__get__" .plain)) = false := rfl
  rw [read_next_builtin h.classOf hclass (by decide)]
  cases hg : s.attr? (.ref r) "__get__" <;>
    simp [readOfInstance,h.classOf,Store.classMember?_builtin,hm,hdata,hg,bindTo,bindOperation]

/-- Without one it is a method that does just that. -/
theorem read_binder (h : s.Wraps .classWrapper w p a) (hn : s.ownBinder w = false) :
    M.next.read w "__get__" s = bindFunction (.operation (.member .classWrapper "__get__" .plain)) w s := by
  have hown : s.attr? w "__get__" = none := by simpa [Store.ownBinder] using hn
  rw [read_waysOfBinding h,hown]

theorem read_ownBinder {g : Value} (h : s.Wraps .classWrapper w p a) (hg : s.attr? w "__get__" = some g) :
    M.next.read w "__get__" s = .ok g s := by
  rw [read_waysOfBinding h,hg]

theorem call_binder {q : Value} (h : s.IsMethod q (.operation (.member .classWrapper "__get__" .plain)) w) :
    M.next.next.call q [i,owner] [] s = bindClass M w i owner s := by
  obtain ⟨r,rfl⟩ := Store.ref_of_body h.body
  have hclass : s.class? (.ref r) = none := Store.class?_of_body h.body (by simp)
  have hop : s.classOf (.operation (.member .classWrapper "__get__" .plain)) = .builtin .function := rfl
  change callValue M.next (.ref r) [i,owner] [] s = _
  simp only [callValue,get_bind_apply,h.cls,Store.override?_builtin,callNative,hclass,h.body]
  change callValue M (.operation (.member .classWrapper "__get__" .plain)) [w,i,owner] [] s = _
  simp only [callValue,get_bind_apply,hop,Store.override?_builtin,callNative]
  rfl

/-- The innermost wrapper of a class method makes a method of the function and the class. -/
theorem quiet_bindFirst (hf : s.IsFunction f g) (hw : s.Wraps .classWrapper w f a)
    (ho : owner ≠ .absent) : (bindClass M.next.next w i owner).Quiet (fun c t => t.Routed f [owner] c [a]) s := by
  obtain ⟨c,t,ht,hg,rfl,hc⟩ := quiet_alloc { cls := .builtin .method, body := .bound f owner } s
  have hr : t.Routed f [owner] (.ref s.heap.size) [] :=
    .bound (hf.grows hg) ⟨Store.classOf_of_get? hc,Store.body?_of_get? hc⟩
  obtain ⟨x,u,hx,hg',hr'⟩ := quiet_around (M := M) hr a
  have hkind : isKind M.next.next f .classWrapper s = .ok false s := isKind_builtin hf.cls (by decide)
  have hbound : boundMethod f owner s = .ok (.ref s.heap.size) t := by
    simp [boundMethod,isCallable_function hf,ho,← ht]
  have hw' := hw.grows hg
  refine ⟨x,u,?_,hg.trans hg',hr'⟩
  rw [bindClass,get_bind_apply]
  simp only [ho,if_false]
  rw [bind_ok (fieldOf_own hw.classOf hw.proceed),bind_ok hkind]
  simp only [Bool.false_eq_true,if_false]
  rw [bind_ok hbound,bind_ok (fieldOf_own hw'.classOf hw'.advice)]
  exact hx

/-- Any other asks the wrapper below it for its own way of binding, and wraps what that gives. -/
theorem quiet_bindLayer {q b : Value} (hw : s.Wraps .classWrapper w p a)
    (hp : s.Wraps .classWrapper p q b) (hn : s.ownBinder p = false) (ho : owner ≠ .absent)
    (hbelow : ∀ t, s.Grows t → (bindClass M p i owner).Quiet (fun c u => u.Routed f [owner] c as) t) :
    (bindClass M.next.next w i owner).Quiet (fun c t => t.Routed f [owner] c (a :: as)) s := by
  obtain ⟨r,-,rfl,-⟩ := hp.place
  let x : Obj :=
    { cls := .builtin .method
      body := .bound (.operation (.member .classWrapper "__get__" .plain)) (.ref r) }
  obtain ⟨c,t,ht,hg,rfl,hc⟩ := quiet_alloc x s
  have hmethod : t.IsMethod (.ref s.heap.size) (.operation (.member .classWrapper "__get__" .plain)) (.ref r) :=
    ⟨Store.classOf_of_get? hc,Store.body?_of_get? hc⟩
  have hkind : isKind M.next.next (.ref r) .classWrapper s = .ok true s := isKind_builtin hp.classOf (by decide)
  obtain ⟨v,u,hv,hg',hr⟩ := hbelow t hg
  obtain ⟨y,z,hy,hg'',hr'⟩ := quiet_around (M := M) hr a
  have hw' := hw.grows (hg.trans hg')
  refine ⟨y,z,?_,(hg.trans hg').trans hg'',hr'⟩
  rw [bindClass,get_bind_apply]
  simp only [ho,if_false]
  rw [bind_ok (fieldOf_own hw.classOf hw.proceed),bind_ok hkind]
  simp only [if_true]
  rw [bind_ok ((read_binder hp hn).trans ht),bind_ok ((call_binder hmethod).trans hv),
    bind_ok (fieldOf_own hw'.classOf hw'.advice)]
  exact hy

/-- A wrapper of a class method binds the class below all advices, if the function leaves it that. -/
theorem quiet_bindClass (h : s.Classed f w as) (hown : as.length ≤ 1 ∨ s.ownBinder f = false)
    (ho : owner ≠ .absent) :
    (bindClass (Machine.next^[2 * as.length] M) w i owner).Quiet (fun c t => t.Routed f [owner] c as) s := by
  induction as generalizing w s with
  | nil => cases h
  | cons a as ih =>
    rw [List.length_cons,Nat.mul_succ,iterate_two]
    cases h with
    | first hf _ hw _ => exact quiet_bindFirst hf hw ho
    | layer hw _ hp =>
      obtain ⟨q,b,hq,hnq⟩ := hp.own
      obtain ⟨⟨g,hf⟩,hfowns⟩ := hp.function
      have hfree : s.ownBinder f = false := by
        refine hown.resolve_left ?_
        cases hp <;> simp
      refine quiet_bindLayer hw hq (hnq.trans hfree) ho fun t hg => ih (hp.grows hg) (Or.inr ?_)
      rw [hfowns.ownBinder_keep (Store.Keeps.of_grows hg) hf.holds,hfree]

/-- What an attribute `g` of a function makes of the member, under the outermost advice alone. -/
def bindThrough (m : Machine) (g w inst owner : Value) : Act Value := do
  let bound ← m.call g [inst,owner] []
  around m bound (← fieldOf m w "advice")

/-- A wrapper around another one leaves it to the attribute that they have taken over. -/
theorem bindClass_through {b : Value} (h : s.Classed f w (a :: b :: as)) (hown : s.ownBinder f = true)
    (ho : owner ≠ .absent) : ∃ p g, s.Wraps .classWrapper w p a ∧ s.Classed f p (b :: as) ∧
      s.attr? p "__get__" = some g ∧ bindClass M.next w i owner s = bindThrough M.next g w i owner s := by
  cases h with
  | @layer _ p _ _ hw _ hp =>
    obtain ⟨q,c,hq,hbinder⟩ := hp.own
    obtain ⟨g,hg⟩ := Option.isSome_iff_exists.mp (hbinder.trans hown)
    refine ⟨p,g,hw,hp,hg,?_⟩
    have hkind : isKind M.next p .classWrapper s = .ok true s := isKind_builtin hq.classOf (by decide)
    rw [bindClass,bindThrough,get_bind_apply]
    simp only [ho,if_false]
    rw [bind_ok (fieldOf_own hw.classOf hw.proceed),bind_ok hkind]
    simp only [if_true]
    rw [bind_ok (read_ownBinder hq hg)]

end Wrapper
end CallContracts
