import CallContracts.Proofs.Guarded
/-! Members under one check.  A class holds a function or a static method of one under a wrapper whose advice is a
check, or a static method of such a wrapper.  Which arguments the check sees, and what the function gets before
them, depends on that form and on where the member is read from. -/
namespace CallContracts
open Act

/-- What a function gets before the arguments that are seen, if the instance is bound; no value at all is not. -/
def Receives.lead (c : Receives) (i : Value) : List Value := if i = .absent then [] else c.explicit i

/-- Where a member is read from. -/
inductive Access where
  | ofClass
  | ofInstance (o : Value)

/-- What a check sees of the arguments of a call, and what the function gets before them.  A member that waits takes
the instance out of the arguments when it is read from its class, and cannot be called without. -/
def route (c : Receives) (waits : Bool) : Access → List Value → Option (List Value × List Value)
  | .ofInstance o, args => some (args,c.lead o)
  | .ofClass, args =>
    if waits then match args with
      | [] => none
      | i :: args => some (args,c.lead i)
    else some (args,[])

namespace Store
variable {s t : Store} {f u w x k sig : Value} {c : Receives} {cs : List Contract} {waits : Bool}

/-- A function, or a static method of one. -/
inductive Plain (s : Store) (f : Value) : Receives → Value → Prop where
  | function {g : Function} : s.IsFunction f g → Plain s f .object f
  | static {g : Function} {x : Value} : s.IsStatic x f → s.IsFunction f g → Plain s f .nothing x

/-- What a class holds for a function under one check. -/
inductive SignedMember (s : Store) (sig : Value) (cs : List Contract) (f : Value) : Bool → Receives → Value → Prop where
  | wrapper {c : Receives} {w u k : Value} {name : String} : s.Wraps .wrapper w u k → s.Checks k sig (.str name) cs →
      s.Plain f c u → SignedMember s sig cs f true c w
  | static {g : Function} {x w k : Value} {name : String} : s.IsStatic x w → s.Wraps .wrapper w f k →
      s.Checks k sig (.str name) cs → s.IsFunction f g → SignedMember s sig cs f false .nothing x

theorem Plain.keep (h : s.Plain f c u) (ht : s.Keeps .layers t) : t.Plain f c u := by
  cases h with
  | function hf => exact .function (hf.keep ht.callables)
  | static hx hf => exact .static (hx.keep ht) (hf.keep ht.callables)

theorem Plain.grows (h : s.Plain f c u) (ht : s.Grows t) : t.Plain f c u := h.keep (Keeps.of_grows ht)

theorem Plain.place (h : s.Plain f c u) : ∃ r b body, u = .ref r ∧ s.classOf u = .builtin b ∧ s.body? u = some body ∧
    (b = .function ∨ b = .staticMethod) := by
  cases h with
  | function hf =>
    obtain ⟨r,rfl⟩ := ref_of_body hf.body
    exact ⟨r,_,_,rfl,hf.cls,hf.body,Or.inl rfl⟩
  | static hx hf =>
    obtain ⟨r,rfl⟩ := ref_of_body hx.body
    exact ⟨r,_,_,rfl,hx.cls,hx.body,Or.inr rfl⟩

theorem SignedMember.keep (h : s.SignedMember sig cs f waits c x) (ht : s.Keeps .guards t) :
    t.SignedMember sig cs f waits c x := by
  cases h with
  | wrapper hw hk hu =>
    exact .wrapper (hw.keep_callables (by simp) ht.layers.callables) (Signature.checks_library hk ht.library)
      (hu.keep ht.layers)
  | static hx hw hk hf =>
    exact .static (hx.keep ht.layers) (hw.keep_callables (by simp) ht.layers.callables)
      (Signature.checks_library hk ht.library) (hf.keep ht.layers.callables)

/-- An object of a builtin class that is no property comes after the own attributes of an instance. -/
theorem isDataMember_builtin {b : BuiltinClass} {r : Ref} (hr : s.classOf (.ref r) = .builtin b)
    (hb : .property ∉ b.line) : s.isDataMember (.ref r) = false := by
  have hA : s.isA (.ref r) .property = false := by simp [isA_builtin hr,hb]
  simp [Store.isDataMember,hA,hr]

theorem SignedMember.isDataMember (h : s.SignedMember sig cs f waits c x) : s.isDataMember x = false := by
  cases h with
  | wrapper hw _ _ =>
    obtain ⟨r,o,rfl,-⟩ := hw.place
    exact isDataMember_builtin hw.classOf (by decide)
  | static hx _ _ _ =>
    obtain ⟨r,rfl⟩ := ref_of_body hx.body
    exact isDataMember_builtin hx.cls (by decide)

/-- A member that is found from a class, or from an instance that has no attribute of that name. -/
inductive Found (s : Store) (n : String) (x : Value) : Access → Value → Prop where
  | ofClass {H : Ref → Prop} {D : Ref} : s.Branch n H D → s.classMember? (.defined D) n = some x →
      Found s n x .ofClass (.ref D)
  | ofInstance {H : Ref → Prop} {r D : Ref} : s.Leaf H r D → s.attr? (.ref r) n = none →
      s.classMember? (.defined D) n = some x → Found s n x (.ofInstance (.ref r)) (.ref r)

/-- The class from which a member is read. -/
def ownerOf (s : Store) (target : Value) : Access → Value
  | .ofClass => target
  | .ofInstance o => (s.classOf o).value

/-- A member that is found is bound. -/
theorem Found.read {n : String} {a : Access} {target : Value} (h : s.Found n x a target) (hn : n ∉ specialNames)
    (hdata : s.isDataMember x = false) :
    ∃ i, (a = .ofClass ∧ i = .absent ∨ a = .ofInstance i ∧ i ≠ .absent) ∧ (∃ D, s.ownerOf target a = .ref D) ∧
      ∀ m : Machine, m.next.read target n s = m.next.bind x i (s.ownerOf target a) s ∨
        Wrapper.Missing (m.next.bind x i (s.ownerOf target a) s) := by
  cases h with
  | @ofClass H D hD hx => exact ⟨.absent,Or.inl ⟨rfl,rfl⟩,⟨D,rfl⟩,Wrapper.read_class hD hn hx⟩
  | @ofInstance H r D hr hown hx =>
    have howner : s.ownerOf (.ref r) (.ofInstance (.ref r)) = .ref D := by rw [ownerOf,hr.cls]; rfl
    refine ⟨.ref r,Or.inr ⟨rfl,by simp⟩,⟨D,howner⟩,fun m => ?_⟩
    rw [howner]
    exact Wrapper.read_instance hr hx hdata hown m

end Store

namespace Wrapper
variable {M m : Machine} {s t : Store} {f u w x i k sig owner : Value} {c : Receives} {cs : List Contract}
  {name n : String} {args : List Value} {waits : Bool}

theorem told_plain (h : s.Plain f c u) : Told s u := by
  cases h with
  | function hf => exact told_routed (.original hf)
  | static hx hf =>
    intro N
    refine ⟨fun n hn t ht => ?_,fun t ht => ?_⟩
    · have hxt := hx.keep (Store.Keeps.of_grows ht)
      obtain ⟨r,rfl⟩ := Store.ref_of_body hxt.body
      refine calm_readPlain hxt.cls hxt.body (by simp) (by decide) ?_
      simp only [titles,List.mem_cons,List.not_mem_nil,or_false] at hn
      rcases hn with rfl | rfl | rfl | rfl | rfl <;> decide
    · have hxt := hx.keep (Store.Keeps.of_grows ht)
      exact calm_table hxt.body hxt.cls

theorem bindsProceed_plain (h : s.Plain f c u) : bindsProceed m u s = .ok true s := by
  obtain ⟨r,b,body,rfl,hc,-,hb⟩ := h.place
  rw [bindsProceed_builtin hc]
  rcases hb with rfl | rfl <;> rfl

/-- Binding a function adds the instance, and binding a static method adds nothing. -/
theorem quiet_bindPlain (h : s.Plain f c u) (ho : owner ≠ .absent) (i : Value) :
    (bindProceed M.next.next u i owner).Quiet (fun p t => t.Stacked f (c.lead i) p [] ∧ Told t p) s := by
  cases h with
  | function hf =>
    have hground : Grounded (s.Grows ·) owner f (fun i => [i]) f [] :=
      grounded_function (fun _ _ ht hu => ht.trans hu) (fun _ ht => hf.grows ht) ho
    by_cases hi : i = .absent
    · subst hi
      exact ⟨_,s,hground.unbound M.next s (Store.Keeps.refl _ s),Store.Keeps.refl _ s,.original,told_routed (.original hf)⟩
    · simpa [Receives.lead,Receives.explicit,hi] using hground.bound M s i (Store.Keeps.refl _ s) hi
  | static hx hf =>
    obtain ⟨r,rfl⟩ := Store.ref_of_body hx.body
    have hlead : Receives.nothing.lead i = [] := by simp [Receives.lead,Receives.explicit]
    rw [hlead]
    refine ⟨_,s,?_,Store.Keeps.refl _ s,.original,told_routed (.original hf)⟩
    rw [bindProceed_builtin hx.cls (Or.inr ho)]
    change bindMember _ (.ref r) i owner s = _
    simp [bindMember,hx.body]

/-- A wrapper that is read from an instance binds it. -/
theorem quiet_bindWrapper (hw : s.Wraps .wrapper w u k) (h : s.Plain f c u) (hi : i ≠ .absent) (ho : owner ≠ .absent) :
    (M.next.next.next.bind w i owner).Quiet
      (fun v t => ∃ q, t.Wraps .wrapper v q k ∧ t.Stacked f (c.lead i) q []) s := by
  obtain ⟨q,t,hq,hg,hstack,htold⟩ := quiet_bindPlain (M := M) h ho i
  obtain ⟨v,z,hv,hg',hw',-⟩ := quiet_make (m := M.next.next) (c := .wrapper) (a := k) (e := [])
    (fun y hy => hy) (htold M) (Or.inl rfl)
  have hwt := hw.grows hg
  refine ⟨v,z,?_,hg.trans hg',q,hw',hstack.grows hg'⟩
  rw [bind_next hw,Wrapper.bind,bind_ok (fieldOf_own hw.classOf hw.proceed),bind_ok (bindsProceed_plain h)]
  simp only [Bool.not_true,Bool.false_eq_true,if_false,hi]
  rw [bind_ok hq,bind_ok (fieldOf_own hwt.classOf hwt.advice)]
  exact hv

/-- One that is read from a class waits for the instance. -/
theorem quiet_waitPlain (hw : s.Wraps .wrapper w u k) (h : s.Plain f c u) (ho : owner ≠ .absent) :
    (M.next.next.next.bind w .absent owner).Quiet
      (fun v t => t.Wraps .unboundWrapper v u k ∧ t.attr? v "owner" = some owner) s := by
  obtain ⟨v,z,hv,hg,hw',-,howner,-⟩ := quiet_make (m := M.next.next) (c := .unboundWrapper) (a := k)
    (e := [("owner",owner)]) (fun y hy => hy) (told_plain h M) (Or.inr ⟨owner,rfl⟩)
  refine ⟨v,z,?_,hg,hw',howner owner rfl⟩
  rw [bind_next hw,Wrapper.bind,bind_ok (fieldOf_own hw.classOf hw.proceed),bind_ok (bindsProceed_plain h)]
  simp only [Bool.not_true,Bool.false_eq_true,if_false,if_true,ho]
  rw [bind_ok (fieldOf_own hw.classOf hw.advice)]
  exact hv

end Wrapper

namespace Signature
variable {M m : Machine} {s t : Store} {f u v w x i k sig owner : Value} {c : Receives} {cs : List Contract}
  {name n : String} {args : List Value} {waits : Bool}

/-- A wrapper that waits takes the first argument as the instance, and the check sees the rest. -/
theorem guarded_unbound {j : Nat} (hw : s.Wraps .unboundWrapper w u k) (howner : s.attr? w "owner" = some owner)
    (ho : owner ≠ .absent) (hk : s.Checks k sig (.str name) cs) (h : s.Plain f c u) (i : Value) (args : List Value) :
    Guarded M sig cs f (c.lead i) args s ((Machine.next^[j+3] M).call w (i :: args) [] s) := by
  obtain ⟨a,t,n,z,ha,hn,hg,hh⟩ := quiet_handed args s
  have hwz := hw.grows hg
  have hownerz : z.attr? w "owner" = some owner := by
    obtain ⟨r,o,rfl,hget,-,-,htable⟩ := hw.place
    rw [hg.attr? hget trivial htable (by decide),howner]
  obtain ⟨q,y,hq,hg',hstack,-⟩ := Wrapper.quiet_bindPlain (M := Machine.next^[j] M) (h.grows hg) ho i
  have hwy := hwz.grows hg'
  have hky := (hk.grows hg).grows hg'
  have hcall : (Machine.next^[j+3] M).call w (i :: args) [] s
      = enforce (Machine.next^[j+1] M) k q a n y := by
    rw [Function.iterate_succ_apply',call_unbound hw,Wrapper.callUnbound,bind_ok ha,bind_ok hn,
      bind_ok (fieldOf_own hwz.classOf hwz.proceed),bind_ok (Wrapper.bindsProceed_plain (h.grows hg))]
    simp only [Bool.not_true,Bool.false_eq_true,if_false]
    rw [bind_ok (fieldOf_own hwz.classOf hownerz),Wrapper.iterate_two,bind_ok hq,
      bind_ok (fieldOf_own hwy.classOf hwy.advice),call_check hky,Function.iterate_succ_apply']
  rw [hcall]
  exact .enforced (hg.trans hg') hky hstack (hh.grows hg')

/-- A call whose arguments reach the check as a route says, if they reach it at all. -/
def Passes (M : Machine) (sig : Value) (cs : List Contract) (f : Value) (s : Store)
    (y : EStateM.Result Stop Store Value) : Option (List Value × List Value) → Prop
  | none => ∃ q t, y = .error (.raised q) t ∧ s.Grows t ∧ .typeError ∈ q.cls.line
  | some (seen,lead) => Guarded M sig cs f lead seen s y

theorem Passes.after (hs : s.Grows t) {y : EStateM.Result Stop Store Value} {p : Option (List Value × List Value)}
    (h : Passes M sig cs f t y p) : Passes M sig cs f s y p := by
  cases p with
  | none =>
    obtain ⟨q,u,hy,hg,hq⟩ := h
    exact ⟨q,u,hy,hs.trans hg,hq⟩
  | some p => exact Guarded.after hs h

/-- A member that is bound without a change of it, or with one, passes its arguments on. -/
theorem passes_bound {j : Nat} {a : Access} (h : s.SignedMember sig cs f waits c x)
    (ha : a = .ofClass ∧ i = .absent ∨ a = .ofInstance i ∧ i ≠ .absent) (ho : owner ≠ .absent)
    (hread : (Machine.next^[j+3] M).read v n s = (Machine.next^[j+3] M).bind x i owner s ∨
      Wrapper.Missing ((Machine.next^[j+3] M).bind x i owner s)) :
    Passes M sig cs f s (Wrapper.callMember (Machine.next^[j+3] M) v n args s) (route c waits a args) := by
  have hlevels : Machine.next^[j+3] M = (Machine.next^[j] M).next.next.next := iterate_three j
  -- what was read is called, in a store that only grew
  have called {P : Value → Store → Prop} (hbind : ((Machine.next^[j+3] M).bind x i owner).Quiet P s)
      (hP : ∀ w t, s.Grows t → P w t → Passes M sig cs f t ((Machine.next^[j+3] M).call w args [] t) (route c waits a args)) :
      Passes M sig cs f s (Wrapper.callMember (Machine.next^[j+3] M) v n args s) (route c waits a args) := by
    obtain ⟨w,t,hw,hg,hPw⟩ := Wrapper.quiet_of_or hbind hread
    rw [Wrapper.callMember,bind_ok hw]
    exact (hP w t hg hPw).after hg
  cases h with
  | wrapper hw hk hu =>
    rcases ha with ⟨rfl,rfl⟩ | ⟨rfl,hi⟩
    · refine called (hlevels ▸ Wrapper.quiet_waitPlain hw hu ho) fun w t hg hwait => ?_
      cases args with
      | nil =>
        obtain ⟨q,hq,hcls⟩ := call_unbound_nil (M := Machine.next^[j+2] M) hwait.1
        rw [← Function.iterate_succ_apply' Machine.next] at hq
        exact ⟨q,t,hq,Store.Keeps.refl _ t,hcls⟩
      | cons i args => exact guarded_unbound hwait.1 hwait.2 ho (hk.grows hg) (hu.grows hg) i args
    · refine called (hlevels ▸ Wrapper.quiet_bindWrapper hw hu hi ho) fun w t hg hbound => ?_
      obtain ⟨q,hw',hstack⟩ := hbound
      exact guarded_wrapper hw' (Or.inl rfl) (hk.grows hg) hstack args
  | @static g x w k name hx hw hk hf =>
    obtain ⟨r,rfl⟩ := Store.ref_of_body hx.body
    have hbind : (Machine.next^[j+3] M).bind (.ref r) i owner s = .ok w s := by
      rw [Function.iterate_succ_apply']
      change bindMember _ (.ref r) i owner s = _
      simp [bindMember,hx.body]
    have hroute : route .nothing false a args = some (args,[]) := by
      rcases ha with ⟨rfl,-⟩ | ⟨rfl,-⟩ <;> simp [route,Receives.lead,Receives.explicit]
    refine called (Gives.quiet (gives_of_eq hbind)) fun v t hg hv => ?_
    subst hv
    rw [hroute]
    exact guarded_wrapper (hw.grows hg) (Or.inl rfl) (hk.grows hg) .original args

/-- What is found passes its arguments on. -/
theorem passes_found {j : Nat} {a : Access} (h : s.SignedMember sig cs f waits c x) (hx : s.Found n x a v)
    (hn : n ∉ specialNames) (args : List Value) :
    Passes M sig cs f s (Wrapper.callMember (Machine.next^[j+3] M) v n args s) (route c waits a args) := by
  obtain ⟨i,ha,⟨D,howner⟩,hread⟩ := hx.read hn h.isDataMember
  refine passes_bound h ha (show s.ownerOf v a ≠ .absent by simp [howner]) ?_
  rw [Function.iterate_succ_apply']
  exact hread _

/-- The arguments of a call come to the check alike, whether the member waits or not, if it is read from an
instance; read from a class, they do never. -/
theorem route_waits_iff (c : Receives) (a : Access) (args : List Value) :
    route c true a args = route c false a args ↔ ∃ o, a = .ofInstance o := by
  cases a with
  | ofInstance o => simp [route]
  | ofClass =>
    cases args with
    | nil => simp [route]
    | cons i args =>
      have hne : args ≠ i :: args := fun h => by simpa using congrArg List.length h
      simp [route,hne]

end Signature
end CallContracts
