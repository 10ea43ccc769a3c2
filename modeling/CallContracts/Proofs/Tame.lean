import CallContracts.Proofs.ClassTarget
import CallContracts.Proofs.Legible
/-! Tame members of classes: functions, static and class methods, functions of the host, bound methods, classes, and
wrappers of all of these.  They are looked at, bound and wrapped without running code of the program, and what comes
of it is tame again.  Binding a wrapper makes another one with the same advice, so what a tame member is read as is
signed with a signature that is known beforehand. -/
namespace CallContracts
open Act

theorem Wrapper.hostClass_no_wrapper {b c : BuiltinClass} (hc : c ∈ hostClasses) (hb : b ∈ [.wrapper,.classWrapper]) :
    ({} : Store).isSubclass (.builtin c) (.builtin b) = false := by
  simp only [hostClasses,List.mem_cons,List.not_mem_nil,or_false] at hc hb
  rcases hb with rfl | rfl <;> rcases hc with rfl | rfl | rfl | rfl | rfl | rfl | rfl <;> decide

namespace Store
variable {r : Ref} {s t u : Store} {x y f w p k : Value} {o q : Option Value} {b : BuiltinClass}

/-- Nothing was changed but the object `r`, which is no wrapper and no check. -/
structure Apart (r : Ref) (s t : Store) : Prop where
  others : s.Keeps (.but r) t
  layers : s.Keeps .layers t

namespace Apart

theorem of_grows (h : s.Grows t) : s.Apart r t := ⟨Keeps.of_grows h,Keeps.of_grows h⟩

theorem refl (r : Ref) (s : Store) : s.Apart r s := of_grows (Keeps.refl _ s)

theorem trans (h : s.Apart r t) (h' : t.Apart r u) : s.Apart r u :=
  ⟨h.others.trans h'.others,h.layers.trans h'.layers⟩

end Apart

/-- The signature that an advice checks, if it is a check. -/
inductive Advises (r : Ref) (s : Store) (k : Value) : Option Value → Prop where
  | check {sig : Value} : s.Enforces k sig → Advises r s k (some sig)
  | other : (∀ t, s.Apart r t → ∀ m, isKind m k .signatureCheck t = .ok false t) → Advises r s k none

/-- A value that has no attribute by the name of the way of binding. -/
def Bare (r : Ref) (s : Store) (f : Value) : Prop := ∀ t, s.Apart r t → (t.tableOf f).get? "__get__" = none

/-- Values that are looked at and bound without running code of the program, whatever becomes of the object `r`.  The
first signature is the one that the advice of the value itself checks, the second one the one that the advice checks
of what the value is bound to. -/
inductive Tame (r : Ref) (s : Store) : Value → Option Value → Option Value → Prop where
  | function {f : Value} {g : Function} : s.IsFunction f g → Tame r s f none none
  | operation {o : Operation} : o.computes = false → Tame r s (.operation o) none none
  | inert {x : Value} : (∀ t, s.Apart r t → t.Inert x ∧ t.Legible x) → Tame r s x none none
  | static {x f : Value} {o q : Option Value} : s.IsStatic x f → Tame r s f o q → Tame r s x none o
  | classMethod {x f : Value} {o q : Option Value} : s.IsClassMethod x f → s.Bare r f → Tame r s f o q →
      Tame r s x none q
  | wrapper {b : BuiltinClass} {w p k : Value} {o o' q : Option Value} : b ∈ wrapperClasses → s.Wraps b w p k →
      (b = .classWrapper → s.ownBinder w = false) → s.Advises r k o → Tame r s p o' q → Tame r s w o o

/-- A tame wrapper that checks a signature, or a static method of one. -/
def Signing (r : Ref) (s : Store) (x : Value) : Prop :=
  ∃ w sig, (x = w ∨ s.IsStatic x w) ∧ s.Tame r w (some sig) (some sig)

/-- Such values stay such values, whatever becomes of the object `r`. -/
def Stable (r : Ref) (P : Store → Value → Prop) : Prop := ∀ t u x, P t x → t.Apart r u → P u x

theorem Advises.keep (h : s.Advises r k o) (ht : s.Apart r t) : t.Advises r k o := by
  cases h with
  | check hk => exact .check (hk.keep ht.layers)
  | other h => exact .other fun u hu => h u (ht.trans hu)

theorem Bare.keep (h : s.Bare r f) (ht : s.Apart r t) : t.Bare r f := fun u hu => h u (ht.trans hu)

/-- A function or a wrapper is bare if it has no such attribute itself. -/
theorem bare_own {body : Body} (hc : s.classOf f = .builtin b) (hcallable : ∀ q, Frame.callables.holds q (.builtin b))
    (hb : s.body? f = some body) (hbody : ∀ v w, body ≠ .bound v w) (ho : s.Owns f) (hf : s.ownBinder f = false) :
    s.Bare r f := by
  intro t ht
  have hholds := holds_of_class hb hc hcallable
  have hbt : t.body? f = some body := by rw [ht.layers.callables.body? hholds,hb]
  rw [← ho.ownBinder_keep ht.layers.callables hholds,ownBinder,attr?] at hf
  rw [Wrapper.tableOf_own hbt hbody]
  cases hattrs : t.attrs? f with
  | none => rfl
  | some fields => simpa [hattrs] using hf

namespace Tame

theorem keep (h : s.Tame r x o q) (ht : s.Apart r t) : t.Tame r x o q := by
  induction h with
  | function hf => exact .function (hf.keep ht.layers.callables)
  | operation ho => exact .operation ho
  | inert h => exact .inert fun u hu => h u (ht.trans hu)
  | static hx _ ih => exact .static (hx.keep ht.layers) ih
  | classMethod hx hbare _ ih => exact .classMethod (hx.keep ht.layers) (hbare.keep ht) ih
  | @wrapper b w _ _ _ _ _ hb hw hown hk _ ih =>
    refine .wrapper hb (hw.keep_callables hb ht.layers.callables) (fun hclass => ?_) (hk.keep ht) ih
    subst hclass
    rw [hw.ownBinder_keep ht.layers.callables]
    exact hown rfl

theorem grows (h : s.Tame r x o q) (ht : s.Grows t) : t.Tame r x o q := h.keep (.of_grows ht)

/-- Tame values are instances of builtin classes, or have no way of binding. -/
theorem builtin_or (h : s.Tame r x o q) : (∃ b, s.classOf x = .builtin b) ∨ s.Inert x := by
  cases h with
  | function hf => exact Or.inl ⟨_,hf.cls⟩
  | operation _ => exact Or.inl ⟨_,rfl⟩
  | inert h => exact Or.inr (h s (.refl r s)).1
  | static hx _ => exact Or.inl ⟨_,hx.cls⟩
  | classMethod hx _ _ => exact Or.inl ⟨_,hx.cls⟩
  | wrapper _ hw _ _ _ => exact Or.inl ⟨_,hw.classOf⟩

theorem legible (h : s.Tame r x o q) : s.Legible x := by
  cases h with
  | function hf => exact Wrapper.legible_function hf
  | operation ho => exact Wrapper.legible_operation ho
  | inert h => exact (h s (.refl r s)).2
  | static hx _ => exact Wrapper.legible_held (Or.inl hx)
  | classMethod hx _ _ => exact Wrapper.legible_held (Or.inr hx)
  | wrapper hb hw _ _ _ => exact Wrapper.legible_wrapper hb hw

/-- What it is an instance of can be looked up. -/
theorem isKind (h : s.Tame r x o q) (hb : b ∈ [.function,.wrapper,.classWrapper]) :
    ∃ d, ∀ m, isKind m x b s = .ok d s := by
  rcases h.builtin_or with ⟨c,hc⟩ | hinert
  · exact ⟨_,fun m => isKind_builtin hc rfl⟩
  · exact ⟨false,fun m => hinert.isKind hb⟩

theorem bindsLater (h : s.Tame r x o q) : ∃ d, ∀ m, Wrapper.bindsLater m x s = .ok d s := by
  obtain ⟨d,hd⟩ := h.isKind (b := .function) (by simp)
  obtain ⟨e,he⟩ := h.isKind (b := .wrapper) (by simp)
  refine ⟨d || e,fun m => ?_⟩
  rw [Wrapper.bindsLater,bind_ok (hd m)]
  cases d with
  | true => rfl
  | false => exact he m

theorem bindsProceed (h : s.Tame r x o q) : ∃ d, (∀ m, Wrapper.bindsProceed m x s = .ok d s) ∧
    (d = true → ∀ m i owner, owner ≠ .absent → Wrapper.bindProceed m x i owner s = m.bind x i owner s) := by
  rcases h.builtin_or with ⟨c,hc⟩ | hinert
  · exact ⟨_,fun m => Wrapper.bindsProceed_builtin hc,fun _ m i owner ho => Wrapper.bindProceed_builtin hc (Or.inr ho)⟩
  · exact ⟨false,fun m => hinert.bindsProceed,nofun⟩

/-- Only a wrapper whose advice is a check is found to be signed. -/
theorem isSignedWith (h : s.Tame r x o q) (m : Machine) (y : Value) :
    Signature.isSignedWith m x y s = .ok (decide (o = some y)) s := by
  have unsigned (hk : CallContracts.isKind m x .wrapper s = .ok false s) :
      Signature.isSignedWith m x y s = .ok false s := by
    rw [Signature.isSignedWith,Signature.isSigned,bind_apply,bind_ok hk]
    rfl
  cases h with
  | function hf => exact unsigned (isKind_builtin hf.cls (by decide))
  | @operation p ho =>
    exact unsigned (isKind_builtin (b := p.ownClass) rfl (Wrapper.hostClass_no_wrapper (Wrapper.ownClass_mem ho) (by simp)))
  | inert h => exact unsigned ((h s (.refl r s)).1.isKind (by simp))
  | static hx _ => exact unsigned (isKind_builtin hx.cls (by decide))
  | classMethod hx _ _ => exact unsigned (isKind_builtin hx.cls (by decide))
  | wrapper hb hw _ hk _ =>
    cases hk with
    | check hk =>
      rw [isSignedWith_wrapper hb hw hk]
      simp
    | other hother =>
      have hwrapper : CallContracts.isKind m x .wrapper s = .ok true s := by
        refine isKind_builtin hw.classOf ?_
        simp only [wrapperClasses,List.mem_cons,List.not_mem_nil,or_false] at hb
        rcases hb with rfl | rfl | rfl <;> decide
      have hsigned : Signature.isSigned m x s = .ok false s := by
        rw [Signature.isSigned,bind_ok hwrapper]
        simp only [if_true]
        rw [bind_ok (fieldOf_own hw.classOf hw.advice),hother s (.refl r s)]
      rw [Signature.isSignedWith,bind_ok hsigned]
      rfl

/-- Only class wrappers are found to be some. -/
theorem wraps_of_isKind {m : Machine} (h : s.Tame r x o q) (ht : s.Grows t)
    (hk : CallContracts.isKind m x .classWrapper t = .ok true u) :
    ∃ p a, s.Wraps .classWrapper x p a ∧ s.ownBinder x = false := by
  have builtin {c : BuiltinClass} (hc : t.classOf x = .builtin c)
      (hno : ({} : Store).isSubclass (.builtin c) (.builtin .classWrapper) = false) : False := by
    rw [isKind_builtin hc hno] at hk
    cases hk
  have hkept : s.Keeps .layers t := Keeps.of_grows ht
  cases h with
  | function hf => exact (builtin (hf.grows ht).cls (by decide)).elim
  | @operation p ho =>
    exact (builtin (c := p.ownClass) rfl (Wrapper.hostClass_no_wrapper (Wrapper.ownClass_mem ho) (by simp))).elim
  | inert h =>
    rw [(h t (.of_grows ht)).1.isKind (by simp)] at hk
    cases hk
  | static hx _ => exact (builtin (hx.keep hkept).cls (by decide)).elim
  | classMethod hx _ _ => exact (builtin (hx.keep hkept).cls (by decide)).elim
  | @wrapper b _ p a _ _ _ hb hw hown _ _ =>
    have hc := (hw.grows ht).classOf
    simp only [wrapperClasses,List.mem_cons,List.not_mem_nil,or_false] at hb
    rcases hb with rfl | rfl | rfl
    · exact (builtin hc (by decide)).elim
    · exact (builtin hc (by decide)).elim
    · exact ⟨p,a,hw,hown rfl⟩

/-- What does not bind is not read as something that is signed. -/
theorem eq_none_of_binds (h : s.Tame r x o q) (hx : s.binds x = false) : q = none := by
  have binds {c : BuiltinClass} (hc : s.classOf x = .builtin c)
      (hget : (c.line.findSome? (·.ownMember? "__get__")).isSome) : False := by
    rw [Store.binds,hc,classMember?_builtin,hget] at hx
    cases hx
  cases h with
  | function _ | operation _ | inert _ => rfl
  | static hx _ => exact (binds hx.cls rfl).elim
  | classMethod hx _ _ => exact (binds hx.cls rfl).elim
  | wrapper hb hw _ _ _ =>
    refine (binds hw.classOf ?_).elim
    simp only [wrapperClasses,List.mem_cons,List.not_mem_nil,or_false] at hb
    rcases hb with rfl | rfl | rfl <;> rfl

/-- What a tame static or class method holds is tame. -/
theorem inner (h : s.Tame r x o q) : ∃ o' q', s.Tame r (s.inner x) o' q' := by
  have itself (hx : s.inner x = x) : ∃ o' q', s.Tame r (s.inner x) o' q' := by
    rw [hx]
    exact ⟨_,_,h⟩
  cases h with
  | function hf => exact itself (by rw [Store.inner,hf.body])
  | operation _ => exact itself rfl
  | inert h =>
    refine itself ?_
    have hbody := (h s (.refl r s)).1.body
    rw [Store.inner]
    split
    · rename_i f hf
      cases hbody _ hf
    · rename_i f hf
      cases hbody _ hf
    · rfl
  | static hx hf =>
    rw [Store.inner,hx.body]
    exact ⟨_,_,hf⟩
  | classMethod hx _ hf =>
    rw [Store.inner,hx.body]
    exact ⟨_,_,hf⟩
  | wrapper hb hw _ _ _ => exact itself (by rw [Store.inner,hw.body?])

/-- What is called by a tame class method has no attribute by the name of the way of binding. -/
theorem bare (h : s.Tame r x o q) (hx : s.body? x = some (.classMethod f)) : s.Bare r f := by
  cases h with
  | function hf =>
    rw [hf.body] at hx
    cases hx
  | operation _ => cases hx
  | inert h => cases (h s (.refl r s)).1.body _ hx
  | static hf _ =>
    rw [hf.body] at hx
    cases hx
  | classMethod hf hbare _ =>
    rw [hf.body] at hx
    obtain rfl : _ = f := by simpa using hx
    exact hbare
  | wrapper _ hw _ _ _ =>
    rw [hw.body?] at hx
    cases hx

/-- What a tame wrapper wraps is tame. -/
theorem proceed (h : s.Tame r w o q) (hb : b ∈ wrapperClasses) (hw : s.Wraps b w p k) :
    ∃ o' q', s.Tame r p o' q' := by
  have other {c : BuiltinClass} (hc : s.classOf w = .builtin c) (hne : c ∉ wrapperClasses) : False := by
    obtain rfl : b = c := by simpa [hw.classOf] using hc
    exact hne hb
  cases h with
  | function hf => exact (other hf.cls (by decide)).elim
  | operation _ => cases hw.body?
  | inert h =>
    -- wrappers have a way of binding
    have hget := (h s (.refl r s)).1.member
    rw [hw.classOf,classMember?_builtin] at hget
    simp only [wrapperClasses,List.mem_cons,List.not_mem_nil,or_false] at hb
    rcases hb with rfl | rfl | rfl <;> cases hget
  | static hx _ => exact (other hx.cls (by decide)).elim
  | classMethod hx _ _ => exact (other hx.cls (by decide)).elim
  | wrapper _ hw' _ _ hp =>
    obtain rfl : _ = p := Option.some.inj (hw'.proceed.symm.trans hw.proceed)
    exact ⟨_,_,hp⟩

/-- Tame values that are signed are wrappers. -/
theorem isCallable_signed {sig : Value} (h : s.Tame r x (some sig) q) : s.isCallable x = true := by
  cases h with
  | wrapper hb hw _ _ _ =>
    rw [isCallable_builtin hw.classOf]
    simp only [wrapperClasses,List.mem_cons,List.not_mem_nil,or_false] at hb
    rcases hb with rfl | rfl | rfl <;> decide

/-- What is called stays callable, whatever becomes of the object `r`. -/
theorem isCallable_keep (h : s.Tame r x o q) (hx : s.isCallable x = true) (ht : s.Apart r t) :
    t.isCallable x = true := by
  cases h with
  | function hf => rw [isCallable_builtin (hf.keep ht.layers.callables).cls]; decide
  | @operation p _ =>
    rw [isCallable_builtin (b := p.ownClass) rfl] at hx ⊢
    exact hx
  | inert h => exact (h t ht).1.callable
  | static hf _ => rw [isCallable_builtin (hf.keep ht.layers).cls]; decide
  | classMethod hf _ _ =>
    rw [isCallable_builtin hf.cls] at hx
    exact absurd hx (by decide)
  | @wrapper b _ _ _ _ _ _ hb hw _ _ _ =>
    rw [isCallable_builtin hw.classOf] at hx
    rw [isCallable_builtin (hw.keep_callables hb ht.layers.callables).classOf,hx]

end Tame

theorem Signing.tame (h : s.Signing r x) : ∃ o sig, s.Tame r x o (some sig) := by
  obtain ⟨w,sig,rfl | hx,hw⟩ := h
  · exact ⟨_,_,hw⟩
  · exact ⟨_,_,.static hx hw⟩

theorem stable_signing : Stable r (Signing r) := by
  rintro t u x ⟨w,sig,hx,hw⟩ hu
  exact ⟨w,sig,hx.imp_right (·.keep hu.layers),hw.keep hu⟩

end Store

namespace Wrapper
open Store
variable {r : Ref} {M m : Machine} {s t u : Store} {x p w f i k owner : Value} {o o' q : Option Value} {b : BuiltinClass}
  {j : Nat}

/-- A bound method of a tame value. -/
theorem tame_method (hx : s.IsMethod x f i) (hf : s.Tame r f o q) : s.Tame r x none none := by
  refine .inert fun t ht => ?_
  have hxt := hx.keep ht.layers.callables
  refine ⟨.of_builtin hxt.cls (by decide) (fun body hb => ?_) (by decide),legible_method hxt (hf.keep ht).legible⟩
  obtain rfl : body = .bound f i := by simpa [hxt.body] using hb.symm
  rfl

/-- A function of the host that is bound. -/
theorem tame_hostBound {d : Ref} (hb : b ∈ [.builtinFunction,.methodWrapper]) (hc : s.classOf (.ref d) = .builtin b)
    (hx : s.body? (.ref d) = some (.bound f i)) (hd : d ≠ r) : s.Tame r (.ref d) none none := by
  refine .inert fun t ht => ?_
  have holds {u : Store} {v : Value} (hv : u.body? v = some (.bound f i)) : u.Holds .all v := holds_all_of_body hv
  have hkept : s.Holds (.but r) (.ref d) := by
    rintro _ ⟨⟩
    obtain ⟨a,ha,-⟩ := holds hx d rfl
    exact ⟨a,ha,hd⟩
  have hct : t.classOf (.ref d) = .builtin b := by rw [ht.others.classOf hkept,hc]
  have hxt : t.body? (.ref d) = some (.bound f i) := by rw [ht.others.body? hkept,hx]
  refine ⟨.of_builtin hct ?_ (fun body hbody => ?_) ?_,legible_hostBound (f := f) (i := i) hb fun u hu => ?_⟩
  · simp only [List.mem_cons,List.not_mem_nil,or_false] at hb
    rcases hb with rfl | rfl <;> decide
  · obtain rfl : body = .bound f i := by simpa [hxt] using hbody.symm
    rfl
  · simp only [List.mem_cons,List.not_mem_nil,or_false] at hb
    rcases hb with rfl | rfl <;> decide
  · exact ⟨by rw [hu.classOf (holds hxt),hct],by rw [hu.body? (holds hxt),hxt]⟩

/-- A class that a program defined, whose documentation is no object. -/
theorem tame_class {d : Ref} {info : ClassInfo} (hb : b ∈ [.type,.abstractClass]) (hc : s.classOf (.ref d) = .builtin b)
    (hinfo : s.classInfo? d = some info) (hdoc : ∀ e, (s.classAttrs d).get? "__doc__" ≠ some (.ref e)) (hd : d ≠ r) :
    s.Tame r (.ref d) none none := by
  refine .inert fun t ht => ?_
  have hbody := body_of_classInfo? hinfo
  have hkept : s.Holds (.but r) (.ref d) := by
    rintro _ ⟨⟩
    obtain ⟨a,ha,-⟩ := holds_all_of_body hbody d rfl
    exact ⟨a,ha,hd⟩
  have hct : t.classOf (.ref d) = .builtin b := by rw [ht.others.classOf hkept,hc]
  have hinfot : t.classInfo? d = some info := by rw [ht.others.classInfo? hkept,hinfo]
  refine ⟨.of_builtin hct ?_ (fun body hbt => ?_) ?_,legible_class hct hinfot fun e he => hdoc e ?_⟩
  · simp only [List.mem_cons,List.not_mem_nil,or_false] at hb
    rcases hb with rfl | rfl <;> decide
  · rw [body_of_classInfo? hinfot] at hbt
    obtain rfl := Option.some.inj hbt
    rfl
  · simp only [List.mem_cons,List.not_mem_nil,or_false] at hb
    rcases hb with rfl | rfl <;> decide
  · rwa [← ht.others.classAttrs hkept (by simp)]

/-- A class that is there from the start. -/
theorem tame_builtinClass (c : BuiltinClass) : s.Tame r (.builtinClass c) none none := by
  have hc : c.ownClass ∈ [.type,.abstractClass,.modelClass] := by
    unfold BuiltinClass.ownClass
    split <;> simp
  have hbody (t : Store) (b : Body) (h : t.body? (.builtinClass c) = some b) : b.binds = false := by cases h
  refine .inert fun t _ => ⟨.of_builtin (b := c.ownClass) rfl ?_ (hbody t) ?_,legible_builtinClass c⟩
  all_goals
    simp only [List.mem_cons,List.not_mem_nil,or_false] at hc
    rcases hc with hc | hc | hc <;> rw [hc] <;> decide

/-- A new wrapper of a tame value. -/
theorem leads_make {e : Fields Value} (hp : s.Tame r p o' q) (hk : s.Advises r k o) (hb : b ∈ wrapperClasses)
    (hne : b ≠ .classWrapper) (he : e = [] ∨ ∃ y, e = [("owner",y)]) :
    (make (Machine.ofLevel j) b p k e).Leads (fun w u => s.Grows u ∧ u.Tame r w o o) (s.Grows ·) s := by
  have hmake := leaves_make (c := b) (a := k) (fun _ _ ht hu => ht.trans hu) (yields_legible hp.legible j) e
  refine (hmake.leads (Store.Keeps.refl .all s)).imp ?_ fun u hu => hu
  rintro w u ⟨hw,hu⟩
  refine ⟨hu,.wrapper hb (wraps_of_make he hw) (fun h => absurd h hne) (hk.keep (.of_grows hu)) (hp.grows hu)⟩

theorem leads_alloc (a : Obj) :
    (alloc a).Leads (fun v u => s.Grows u ∧ v = .ref s.heap.size ∧ u.get? s.heap.size = some a) (s.Grows ·) s := by
  obtain ⟨_,u,hu,hg,rfl,ha⟩ := quiet_alloc a s
  refine ⟨fun v t ht => ?_,fun e t ht => ?_⟩
  · obtain ⟨rfl,rfl⟩ : .ref s.heap.size = v ∧ u = t := by simpa [hu] using (hu.symm.trans ht)
    exact ⟨hg,rfl,ha⟩
  · cases hu.symm.trans ht

theorem leads_method (hf : s.Tame r f o q) (i : Value) : (alloc { cls := .builtin .method, body := .bound f i }).Leads
    (fun v u => s.Grows u ∧ u.Tame r v none none) (s.Grows ·) s := by
  refine (leads_alloc _).imp ?_ fun u hu => hu
  rintro _ u ⟨hu,rfl,ha⟩
  exact ⟨hu,tame_method ⟨classOf_of_get? ha,body?_of_get? ha⟩ (hf.grows hu)⟩

theorem leads_hostBound (hr : (s.get? r).isSome) (hb : b ∈ [.builtinFunction,.methodWrapper]) (f i : Value) :
    (alloc { cls := .builtin b, body := .bound f i }).Leads
      (fun v u => s.Grows u ∧ u.Tame r v none none) (s.Grows ·) s := by
  refine (leads_alloc _).imp ?_ fun u hu => hu
  rintro _ u ⟨hu,rfl,ha⟩
  refine ⟨hu,tame_hostBound hb (classOf_of_get? ha) (body?_of_get? ha) ?_⟩
  rintro rfl
  rw [get?_size] at hr
  cases hr

/-- A function of the host is bound to an instance, or to none. -/
theorem leads_bindOperation {p : Operation} (hr : (s.get? r).isSome) (hp : p.computes = false) (inst : Option Value) :
    (bindOperation m p inst owner).Leads (fun v u => s.Grows u ∧ u.Tame r v none none) (s.Grows ·) s := by
  have self : (pure (.operation p) : Act Value).Leads (fun v u => s.Grows u ∧ u.Tame r v none none) (s.Grows ·) s :=
    leads_pure ⟨Store.Keeps.refl _ s,.operation hp⟩
  have method (y : Value) : (bindFunction (.operation p) y).Leads
      (fun v u => s.Grows u ∧ u.Tame r v none none) (s.Grows ·) s := by
    rw [bindFunction]
    split
    · exact self
    · exact leads_method (.operation hp) y
  have host {b : BuiltinClass} (hb : b ∈ [.builtinFunction,.methodWrapper]) (y : Value) :=
    leads_hostBound (s := s) hr hb (.operation p) y
  cases p with
  | member c n sort =>
    cases inst with
    | none =>
      cases sort with
      | ofClass => exact host (by simp) owner
      | _ => exact self
    | some y =>
      cases sort with
      | ofClass => exact host (by simp) owner
      | fixed => exact self
      | method => exact host (by simp) y
      | slot => exact host (by simp) y
      | plain => exact method y
      | property | storage | getter => cases hp
  | placeOf d n sort => cases hp
  | length | absolute | fromEnvironment => exact self
  | _ =>
    cases inst with
    | none => exact self
    | some y => exact method y

/-- On this level, binding a tame value changes nothing that was there, and gives a tame value. -/
def BindsTame (r : Ref) (owner : Value) (j : Nat) : Prop :=
  ∀ s x o q i, (s.get? r).isSome → s.Tame r x o q → ((Machine.ofLevel j).bind x i owner).Leads
    (fun v u => s.Grows u ∧ ∃ q', u.Tame r v q q') (s.Grows ·) s

/-- What a class wrapper binds to the class that it is read from. -/
theorem leads_boundOfClass (ih : ∀ l < j, BindsTame r owner l) (hr : (s.get? r).isSome) (hp : s.Tame r p o q)
    (i : Value) : (boundOfClass (Machine.ofLevel j) p i owner).Leads
      (fun v u => s.Grows u ∧ ∃ o' q', u.Tame r v o' q') (s.Grows ·) s := by
  obtain ⟨d,hd⟩ := hp.isKind (b := .classWrapper) (by simp)
  refine leads_congr (bind_ok (hd _)) ?_
  cases d with
  | false =>
    simp only [Bool.false_eq_true,if_false,boundMethod]
    refine leads_congr (get_bind_apply _ _) ?_
    split
    · exact leads_fail (q := .refused .typeError) (Store.Keeps.refl _ s)
    · exact (leads_method hp owner).imp (fun v u hu => ⟨hu.1,_,_,hu.2⟩) fun u hu => hu
  | true =>
    obtain ⟨y,a,hw,hown⟩ := hp.wraps_of_isKind (Store.Keeps.refl _ s) (hd Machine.halted)
    simp only [if_true]
    cases j with
    | zero => exact leads_error (e := .exhausted) rfl (Store.Keeps.refl _ s)
    | succ j =>
      -- its own way of binding is a method, which does as it does when it is read itself
      obtain ⟨c,_,rfl,-⟩ := hw.place
      have hread : (Machine.ofLevel (j+1)).read (.ref c) "__get__" s = alloc
          { cls := .builtin .method
            body := .bound (.operation (.member .classWrapper "__get__" .plain)) (.ref c) } s := by
        rw [Machine.ofLevel_succ,read_binder hw hown]
        rfl
      refine (leads_congr hread (leads_alloc _)).bind ?_
      rintro _ u ⟨hu,rfl,ha⟩
      have hm : u.IsMethod (.ref s.heap.size) (.operation (.member .classWrapper "__get__" .plain)) (.ref c) :=
        ⟨classOf_of_get? ha,body?_of_get? ha⟩
      cases j with
      | zero => exact leads_error (e := .exhausted) (call_method (M := Machine.halted) hm _) hu
      | succ j =>
        have hru : (u.get? r).isSome := by
          obtain ⟨e,he⟩ := Option.isSome_iff_exists.mp hr
          obtain ⟨e',he',-⟩ := hu.kept r e he trivial
          simp [he']
        refine leads_congr (call_binder hm) ?_
        refine leads_congr (bind_nextClass (M := Machine.ofLevel j) (hw.grows hu)).symm ?_
        refine (ih (j+1) (by omega) u _ _ _ i hru (hp.grows hu)).imp ?_ fun z hz => hu.trans hz
        rintro v z ⟨hz,q',hv⟩
        exact ⟨hu.trans hz,_,_,hv⟩

/-- A wrapper binds what it wraps, under the same advice. -/
theorem leads_bindWrapper (ho : owner ≠ .absent) (ih : BindsTame r owner j) (hr : (s.get? r).isSome)
    (hb : b = .wrapper ∨ b = .unboundWrapper) (hw : s.Wraps b w p k) (hk : s.Advises r k o) (hp : s.Tame r p o' q)
    (i : Value) : (bind (Machine.ofLevel j) w i owner).Leads (fun v u => s.Grows u ∧ u.Tame r v o o) (s.Grows ·) s := by
  obtain ⟨d,hd,hbound⟩ := hp.bindsProceed
  have hself : s.Tame r w o o := by
    refine .wrapper ?_ hw ?_ hk hp
    · rcases hb with rfl | rfl <;> decide
    · rcases hb with rfl | rfl <;> nofun
  refine leads_congr (bind_ok (fieldOf_own hw.classOf hw.proceed)) ?_
  refine leads_congr (bind_ok (hd _)) ?_
  cases d with
  | false => exact leads_pure ⟨Store.Keeps.refl _ s,hself⟩
  | true =>
    simp only [Bool.not_true,Bool.false_eq_true,if_false,ho]
    by_cases hi : i = .absent
    · simp only [hi,if_true]
      refine leads_congr (bind_ok (fieldOf_own hw.classOf hw.advice)) ?_
      exact leads_make hp hk (by decide) (by decide) (Or.inr ⟨owner,rfl⟩)
    · simp only [hi,if_false]
      refine (leads_congr (hbound rfl _ i owner ho) (ih s p _ _ i hr hp)).bind ?_
      rintro v u ⟨hu,q',hv⟩
      have hwu := hw.grows hu
      refine leads_congr (bind_ok (fieldOf_own hwu.classOf hwu.advice)) ?_
      refine (leads_make hv (hk.keep (.of_grows hu)) (by decide) (by decide) (Or.inl rfl)).imp ?_ fun z hz => hu.trans hz
      rintro x z ⟨hz,hx⟩
      exact ⟨hu.trans hz,hx⟩

/-- Binding a tame value changes nothing that was there, and gives a tame value. -/
theorem leads_bind (ho : owner ≠ .absent) (j : Nat) : BindsTame r owner j := by
  induction j using Nat.strongRecOn with
  | ind j ih =>
    intro s x o q i hr hx
    cases j with
    | zero => exact leads_error (e := .exhausted) rfl (Store.Keeps.refl _ s)
    | succ j =>
      have only {y : Act Value} {o : Option Value} (hy : y.Leads
          (fun v u => s.Grows u ∧ u.Tame r v o o) (s.Grows ·) s) :
          y.Leads (fun v u => s.Grows u ∧ ∃ q', u.Tame r v o q') (s.Grows ·) s :=
        hy.imp (fun v u hu => ⟨hu.1,_,hu.2⟩) fun u hu => hu
      have self {y : Value} {o q : Option Value} (hy : s.Tame r y o q) :
          (pure y : Act Value).Leads (fun v u => s.Grows u ∧ ∃ q', u.Tame r v o q') (s.Grows ·) s :=
        leads_pure ⟨Store.Keeps.refl _ s,_,hy⟩
      change (bindMember (Machine.ofLevel j) x i owner).Leads _ _ _
      cases hx with
      | function hf =>
        obtain ⟨c,rfl⟩ := ref_of_body hf.body
        have heq : bindMember (Machine.ofLevel j) (.ref c) i owner s = bindFunction (.ref c) i s := by
          simp [bindMember,hf.body]
        refine leads_congr heq ?_
        rw [bindFunction]
        split
        · exact self (.function hf)
        · exact only (leads_method (.function hf) i)
      | operation hp => exact only (leads_bindOperation hr hp _)
      | inert h => exact leads_congr (h s (.refl r s)).1.bindMember (self (.inert h))
      | static hx hf =>
        obtain ⟨c,rfl⟩ := ref_of_body hx.body
        exact leads_congr (by simp [bindMember,hx.body]) (self hf)
      | @classMethod _ f _ _ hx hbare hf =>
        obtain ⟨c,rfl⟩ := ref_of_body hx.body
        have heq : bindMember (Machine.ofLevel j) (.ref c) i owner s
            = bindClassMethod (Machine.ofLevel j) f i owner s := by simp [bindMember,hx.body]
        refine leads_congr (heq.trans (get_bind_apply _ _)) ?_
        simp only [ho,if_false]
        cases hbinds : s.binds f with
        | true =>
          simp only [if_true]
          exact ih j (by omega) s f _ _ owner hr hf
        | false =>
          obtain rfl := hf.eq_none_of_binds hbinds
          simp only [Bool.false_eq_true,if_false]
          exact only (leads_method hf owner)
      | wrapper hb hw hown hk hp =>
        simp only [wrapperClasses,List.mem_cons,List.not_mem_nil,or_false] at hb
        rcases hb with rfl | rfl | rfl
        · exact leads_congr (bind_next hw) (only (leads_bindWrapper ho (ih j (by omega)) hr (Or.inl rfl) hw hk hp i))
        · exact leads_congr (bind_nextUnbound hw) (only (leads_bindWrapper ho (ih j (by omega)) hr (Or.inr rfl) hw hk hp i))
        · refine leads_congr ((bind_nextClass hw).trans (bindClass_eq hw ho)) ?_
          refine (leads_boundOfClass (fun l hl => ih l (by omega)) hr hp i).bind ?_
          rintro v u ⟨hu,o',q',hv⟩
          have hwu := hw.grows hu
          refine leads_congr (bind_ok (fieldOf_own hwu.classOf hwu.advice)) ?_
          refine (leads_make hv (hk.keep (.of_grows hu)) (by decide) (by decide) (Or.inl rfl)).imp ?_
            fun z hz => hu.trans hz
          rintro x z ⟨hz,hx⟩
          exact ⟨hu.trans hz,_,hx⟩

end Wrapper
end CallContracts
