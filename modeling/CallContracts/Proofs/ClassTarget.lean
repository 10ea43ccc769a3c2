import CallContracts.Proofs.Targets
/-! Classes that bear signatures.  A class holds a member as a wrapper, or as a static method of one; what is read
from it is bound, and binding a wrapper makes another one with the same advice. -/
namespace CallContracts
open Act

/-- What a static or class method holds; another member is itself. -/
def Store.inner (s : Store) (x : Value) : Value :=
  match s.body? x with
  | some (.staticMethod f) => f
  | some (.classMethod f) => f
  | _ => x

namespace Wrapper
variable {M m : Machine} {s t u : Store} {target a x p w k owner v f : Value} {n : String} {c : ClassId}
  {b : BuiltinClass} {P : BuiltinClass → Value → Store → Prop}

/-- A wrapper that was made on the way. -/
def Made (m : Machine) (s : Store) (c : BuiltinClass) (p a w : Value) (t : Store) : Prop :=
  ∃ u v, s.Grows u ∧ make m c p a [] u = .ok w v ∧ v.Grows t

theorem Made.wraps (h : Made m s b p a w t) : t.Wraps b w p a := by
  obtain ⟨_,_,-,hw,ht⟩ := h
  exact (wraps_of_make (Or.inl rfl) hw).grows ht

/-- What is wrapped in place of a member, and of which class the wrapper is: what a static or class method holds, the
member itself, or what is read if the member is not one that wrappers bind. -/
inductive Chosen (m : Machine) (target : Value) (n : String) (s : Store) (x : Value) :
    BuiltinClass → Value → Store → Prop where
  | static {f : Value} {t : Store} : s.body? x = some (.staticMethod f) → Chosen m target n s x .wrapper f t
  | ofClass {f : Value} {t : Store} : s.body? x = some (.classMethod f) → Chosen m target n s x .classWrapper f t
  | classed {t u v : Store} : s.inner x = x → s.Grows u → isKind m x .classWrapper u = .ok true v →
      Chosen m target n s x .classWrapper x t
  | itself {t : Store} : s.inner x = x → Chosen m target n s x .wrapper x t
  | read {p : Value} {t u v : Store} : s.inner x = x → (∃ u v, s.Grows u ∧ bindsLater m x u = .ok false v) →
      s.Grows u → m.read target n u = .ok p v → v.Grows t → Chosen m target n s x .wrapper p t

theorem Chosen.cls (h : Chosen m target n s x b p t) : b = .wrapper ∨ b = .classWrapper := by
  cases h <;> simp

/-- What is wrapped is what is held for the member, unless it is read. -/
theorem Chosen.inner_or (h : Chosen m target n s x b p t) : p = s.inner x ∨
    s.inner x = x ∧ (∃ u v, s.Grows u ∧ bindsLater m x u = .ok false v) ∧
      ∃ u v, s.Grows u ∧ m.read target n u = .ok p v ∧ v.Grows t := by
  cases h with
  | static hb => exact Or.inl (by rw [Store.inner,hb])
  | ofClass hb => exact Or.inl (by rw [Store.inner,hb])
  | classed hx _ _ => exact Or.inl hx.symm
  | itself hx => exact Or.inl hx.symm
  | read hx hl hu hv ht => exact Or.inr ⟨hx,hl,_,_,hu,hv,ht⟩

/-- Something fails before anything was written; or a wrapper was made, which is written itself or as a static
method. -/
def Writes (m : Machine) (target : Value) (n : String) (a : Value) (P : BuiltinClass → Value → Store → Prop) (s : Store)
    (result : EStateM.Result Stop Store Value) : Prop :=
  (∃ e t, result = .error e t ∧ s.Grows t) ∨
  ∃ c p y w t, s.Grows t ∧ Made m s c p a w t ∧ (y = w ∨ t.IsStatic y w) ∧ P c p t ∧
    result = (m.write target n y >>= fun _ => pure w) t

section writes
variable (hs : s.Grows t)
include hs

theorem writes_wrapped (hP : ∀ u, t.Grows u → P b p u) (hp : Yielding (t.Grows ·) m p) :
    Writes m target n a P s ((do
      let w ← make m b p a []
      m.write target n w
      return w) t) := by
  have hmake := leaves_make (c := b) (a := a) (fun _ _ ht hu => ht.trans hu) hp []
  have ht := Store.Keeps.refl .all t
  cases hw : make m b p a [] t with
  | error e u => exact Or.inl ⟨e,u,bind_error hw,hs.trans (hmake.error ht hw)⟩
  | ok w u =>
    have hu := hmake.ok ht hw
    exact Or.inr ⟨b,p,w,w,u,hs.trans hu,⟨t,u,hs,hw,Store.Keeps.refl _ u⟩,Or.inl rfl,hP u hu,bind_ok hw⟩

theorem writes_static (hP : ∀ u, t.Grows u → P .wrapper p u) (hp : Yielding (t.Grows ·) M.next.next p) :
    Writes M.next.next target n a P s ((do
      let w ← around M.next.next p a
      M.next.next.write target n (← staticMethod M.next.next w)
      return w) t) := by
  have hmake := leaves_make (c := .wrapper) (a := a) (fun _ _ ht hu => ht.trans hu) hp []
  have ht := Store.Keeps.refl .all t
  cases hw : around M.next.next p a t with
  | error e u => exact Or.inl ⟨e,u,bind_error hw,hs.trans (hmake.error ht hw)⟩
  | ok w u =>
    have hu := hmake.ok ht hw
    have hwraps := wraps_of_make (Or.inl rfl) hw
    obtain ⟨copied,z,hz,hg,-⟩ := Calm.quiet (calm_copiedTitles (told_wrapper (by simp) hwraps M).titles)
    let q : Obj :=
      { cls := .builtin .staticMethod
        body := .staticMethod w
        attrs := some copied }
    obtain ⟨_,y,hy,hg',rfl,hq⟩ := quiet_alloc q z
    have hgrown := (hu.trans hg).trans hg'
    refine Or.inr ⟨.wrapper,p,.ref z.heap.size,w,y,hs.trans hgrown,⟨t,u,hs,hw,hg.trans hg'⟩,
      Or.inr ⟨Store.classOf_of_get? hq,Store.body?_of_get? hq⟩,hP y hgrown,?_⟩
    have hstatic : staticMethod M.next.next w u = .ok (.ref z.heap.size) y := by
      rw [staticMethod,holding,bind_ok hz]
      exact hy
    rw [bind_ok hw,bind_ok hstatic]

end writes

section member
variable (hin : Yielding (s.Grows ·) M.next.next (s.inner x))
  (hkind : Leaves (s.Grows ·) (isKind M.next.next x .classWrapper))
  (hlater : Leaves (s.Grows ·) (bindsLater M.next.next x))
  (hread : Leaves (s.Grows ·) (M.next.next.read target n))
  (htold : ∀ t p u, s.Grows t → M.next.next.read target n t = .ok p u → Yielding (u.Grows ·) M.next.next p)
include hin hkind hlater hread htold

theorem writes_wrapRaw (hx : s.inner x = x) :
    Writes M.next.next target n a (Chosen M.next.next target n s x) s (wrapRaw M.next.next target x n a s) := by
  have hself : s.Grows s := Store.Keeps.refl _ s
  rw [hx] at hin
  rw [wrapRaw]
  cases hk : isKind M.next.next x .classWrapper s with
  | error e t => exact Or.inl ⟨e,t,bind_error hk,hkind.error hself hk⟩
  | ok isClass t =>
    have ht := hkind.ok hself hk
    rw [bind_ok hk]
    cases isClass with
    | true => exact writes_wrapped ht (fun _ _ => .classed hx hself hk) (hin.mono fun _ => ht.trans)
    | false =>
      simp only [Bool.false_eq_true,if_false]
      cases hl : bindsLater M.next.next x t with
      | error e u => exact Or.inl ⟨e,u,bind_error hl,ht.trans (hlater.error ht hl)⟩
      | ok later u =>
        have hu := ht.trans (hlater.ok ht hl)
        rw [bind_ok hl]
        cases later with
        | true => exact writes_wrapped hu (fun _ _ => .itself hx) (hin.mono fun _ => hu.trans)
        | false =>
          simp only [Bool.false_eq_true,if_false]
          cases hv : M.next.next.read target n u with
          | error e z => exact Or.inl ⟨e,z,bind_error hv,hu.trans (hread.error hu hv)⟩
          | ok v z =>
            rw [bind_ok hv]
            exact writes_wrapped (hu.trans (hread.ok hu hv)) (fun y hy => .read hx ⟨t,u,ht,hl⟩ hu hv hy)
              (htold u v z hu hv)

/-- Wrapping a member of a class. -/
theorem wrapMember_writes (hx : storedMember s c n = some x) :
    Writes M.next.next target n a (Chosen M.next.next target n s x) s (wrapMember M.next.next target c n a s) := by
  have hself : s.Grows s := Store.Keeps.refl _ s
  have hraw : ofOption .attributeError (some x) s = .ok x s := rfl
  have other (hbody : ∀ f, s.body? x ≠ some (.staticMethod f) ∧ s.body? x ≠ some (.classMethod f))
      (hsame : s.inner x = x) :
      Writes M.next.next target n a (Chosen M.next.next target n s x) s (wrapMember M.next.next target c n a s) :=
    wrapMember_raw hx hbody target ▸ writes_wrapRaw hin hkind hlater hread htold hsame
  cases hb : s.body? x with
  | none => exact other (by simp [hb]) (by rw [Store.inner,hb])
  | some body =>
    cases body with
    | staticMethod f =>
      have hf : s.inner x = f := by rw [Store.inner,hb]
      rw [hf] at hin
      rw [wrapMember,get_bind_apply,hx,bind_ok hraw,get_bind_apply,hb]
      exact writes_static hself (fun _ _ => .static hb) hin
    | classMethod f =>
      have hf : s.inner x = f := by rw [Store.inner,hb]
      rw [hf] at hin
      rw [wrapMember,get_bind_apply,hx,bind_ok hraw,get_bind_apply,hb]
      exact writes_wrapped hself (fun _ _ => .ofClass hb) hin
    | _ => exact other (by simp [hb]) (by rw [Store.inner,hb])

end member

theorem bindsLater_wrapper (hb : b = .wrapper ∨ b = .classWrapper) (hw : s.Wraps b w p k) :
    bindsLater m w s = .ok true s := by
  have hfunction : isKind m w .function s = .ok false s :=
    isKind_builtin hw.classOf (by rcases hb with rfl | rfl <;> decide)
  have hwrapper : isKind m w .wrapper s = .ok true s :=
    isKind_builtin hw.classOf (by rcases hb with rfl | rfl <;> decide)
  rw [bindsLater,bind_ok hfunction]
  exact hwrapper

/-- What a class wrapper binds to the class that it is read from. -/
def boundOfClass (m : Machine) (p inst owner : Value) : Act Value := do
  if ← isKind m p .classWrapper then m.call (← m.read p "__get__") [inst,owner] []
  else boundMethod p owner

theorem bindClass_eq {i : Value} (hw : t.Wraps .classWrapper w p k) (ho : owner ≠ .absent) :
    bindClass m w i owner t = (do
      let bound ← boundOfClass m p i owner
      around m bound (← fieldOf m w "advice")) t := by
  rw [bindClass,get_bind_apply]
  simp only [ho,if_false]
  rw [bind_ok (fieldOf_own hw.classOf hw.proceed),boundOfClass,bind_assoc]
  refine congrFun (congrArg _ (funext fun b => ?_)) t
  cases b <;> simp [bind_assoc]

/-- Binding what a wrapper wraps to a class changes nothing that was there. -/
structure Rebinds (W : Store → Prop) (m : Machine) (c : BuiltinClass) (p owner : Value) : Prop where
  binds : c = .wrapper → Leaves W (bindsProceed m p)
  yields : c = .wrapper → Yielding W m p
  bound : c = .classWrapper → Leaves W (boundOfClass m p .absent owner)
  boundYields : c = .classWrapper → ∀ t v u, W t → boundOfClass m p .absent owner t = .ok v u →
    Yielding (u.Grows ·) m v

/-- A wrapper that is read from a class is a wrapper with the same advice. -/
theorem wraps_of_bind {W : Store → Prop} (hW : Lasting W) (h : Rebinds W m b p owner) (ht : W t)
    (hb : b = .wrapper ∨ b = .classWrapper) (hw : t.Wraps b w p k) (ho : owner ≠ .absent)
    (hv : m.next.bind w .absent owner t = .ok v u) :
    ∃ c q, c ∈ wrapperClasses ∧ u.Wraps c v q k ∧ t.Grows u := by
  rcases hb with rfl | rfl
  · rw [bind_next hw,Wrapper.bind,bind_ok (fieldOf_own hw.classOf hw.proceed)] at hv
    obtain ⟨binds,t₁,-,hv,g₁,ht₁⟩ := (h.binds rfl).step hW ht hv
    have hw₁ := hw.grows g₁
    cases binds with
    | false =>
      obtain ⟨rfl,rfl⟩ : w = v ∧ t₁ = u := by simpa using hv
      exact ⟨.wrapper,p,by decide,hw₁,g₁⟩
    | true =>
      simp only [Bool.not_true,Bool.false_eq_true,if_false,if_true,ho] at hv
      rw [bind_ok (fieldOf_own hw₁.classOf hw₁.advice)] at hv
      have hmake := leaves_make (c := .unboundWrapper) (a := k) hW (h.yields rfl) [("owner",owner)]
      exact ⟨.unboundWrapper,p,by decide,wraps_of_make (Or.inr ⟨owner,rfl⟩) hv,g₁.trans (hmake.ok ht₁ hv)⟩
  · rw [bind_nextClass hw,bindClass_eq hw ho] at hv
    obtain ⟨q,t₁,hq,hv,g₁,-⟩ := (h.bound rfl).step hW ht hv
    have hw₁ := hw.grows g₁
    rw [bind_ok (fieldOf_own hw₁.classOf hw₁.advice)] at hv
    have hmake := leaves_make (c := .wrapper) (a := k) (fun _ _ hu hv => hu.trans hv) (h.boundYields rfl t q t₁ ht hq) []
    have hself := Store.Keeps.refl .all t₁
    exact ⟨.wrapper,q,by decide,wraps_of_make (Or.inl rfl) hv,g₁.trans (hmake.ok hself hv)⟩

end Wrapper

namespace Store
variable {s t : Store} {n : String} {H : Ref → Prop} {r : Ref} {x y : Value}

theorem Branch.wrote_layers (h : s.Branch n H r) (ht : s.Wrote r n y t) : s.Keeps .layers t :=
  ht.keeps (fun o ho hq => hq.elim (h.governed.not_callable ho) (h.governed.cls_ne ho (by decide))) nofun

end Store

namespace Attachment
variable {R : Store → Store → Prop} {M : Machine} {r : Ref} {H : Ref → Prop} {N : List String} {n : String}
  {s t u : Store} {S : Value → List Value} {v k sig : Value}

/-- The names of members. -/
def memberNames (N : List String) (x : Value) : Prop := ∃ n ∈ N, x = .str n

/-- A member of a class is held under its name. -/
def memberSite (N : List String) : Value → Option Value
  | .str n => if n ∈ N then some (.str n) else none
  | _ => none

/-- What a class holds itself. -/
def ownMember (r : Ref) (N : List String) (s : Store) : Value → Option Value
  | .str n => if n ∈ N then s.attr? (.ref r) n else none
  | _ => none

theorem ownMember_congr {x : Value} (h : ∀ n ∈ N, x = .str n → u.attr? (.ref r) n = t.attr? (.ref r) n) :
    ownMember r N u x = ownMember r N t x := by
  cases x with
  | str n =>
    by_cases hn : n ∈ N
    · simp [ownMember,hn,h n hn rfl]
    · simp [ownMember,hn]
  | _ => rfl

/-- A member of a class as it is at first: what it holds is not signed, and can be looked at. -/
structure Original (R : Store → Store → Prop) (m : Machine) (s : Store) (x : Value) : Prop where
  clear : s.Clear R m (s.inner x)
  yields : Wrapper.Yielding (s.Grows ·) m (s.inner x)
  kind : Leaves (s.Grows ·) (isKind m x .classWrapper)
  later : Leaves (s.Grows ·) (Wrapper.bindsLater m x)

/-- A class whose members can be attached to.  Its own class leaves reading and writing to the language. -/
structure OfClass (R : Store → Store → Prop) (M : Machine) (r : Ref) (H : Ref → Prop) (N : List String) (s : Store) :
    Prop where
  evolves : s.Evolves R
  branch : ∀ t, R s t → ∀ n ∈ N, t.Branch n H r
  names : ∀ n ∈ N, n ∉ specialNames
  fallback : ∀ t, R s t → t.override? (t.classOf (.ref r)) "__getattr__" = none
  reads : ∀ n ∈ N, Leaves (R s) (M.next.next.read (.ref r) n)
  told : ∀ t n v u, R s t → n ∈ N → M.next.next.read (.ref r) n t = .ok v u →
    Wrapper.Yielding (u.Grows ·) M.next.next v
  original : ∀ t n x, R s t → n ∈ N → t.attr? (.ref r) n = s.attr? (.ref r) n →
    Wrapper.storedMember t (.defined r) n = some x → Original R M.next.next t x
  binds : ∀ t n w c p k, R s t → n ∈ N → t.attr? (.ref r) n = some w → c = .wrapper ∨ c = .classWrapper →
    t.Wraps c w p k → Wrapper.Rebinds (t.Grows ·) M.next c p (.ref r)
  takes : ∀ t z u n x y w c p k sig, R s t → n ∈ N → Wrapper.storedMember t (.defined r) n = some x → t.Grows z →
    Wrapper.Chosen M.next.next (.ref r) n t x c p z → Wrapper.Made M.next.next t c p k w z → z.Enforces k sig →
    y = w ∨ z.IsStatic y w → z.Wrote r n y u → R z u

/-- What wrapping asks about a stored member changes nothing that was there. -/
structure Askable (m : Machine) (s : Store) (x : Value) : Prop where
  yields : Wrapper.Yielding (s.Grows ·) m (s.inner x)
  kind : Leaves (s.Grows ·) (isKind m x .classWrapper)
  later : Leaves (s.Grows ·) (Wrapper.bindsLater m x)

/-- A class that takes wrappers of its members.  Its own class leaves reading and writing to the language, and
nothing changes when its members are read and wrapped. -/
structure Receptive (R : Store → Store → Prop) (M : Machine) (r : Ref) (H : Ref → Prop) (N : List String)
    (s : Store) : Prop where
  evolves : s.Evolves R
  own : ∀ t, R s t → ∃ o, t.get? r = some o ∧ o.table = none
  branch : ∀ t, R s t → ∀ n ∈ N, t.Branch n H r
  names : ∀ n ∈ N, n ∉ specialNames
  fallback : ∀ t, R s t → t.override? (t.classOf (.ref r)) "__getattr__" = none
  reads : ∀ n ∈ N, Leaves (R s) (M.next.next.read (.ref r) n)
  told : ∀ t n v u, R s t → n ∈ N → M.next.next.read (.ref r) n t = .ok v u →
    Wrapper.Yielding (u.Grows ·) M.next.next v
  askable : ∀ t n x, R s t → n ∈ N → t.attr? (.ref r) n = s.attr? (.ref r) n →
    Wrapper.storedMember t (.defined r) n = some x → Askable M.next.next t x
  binds : ∀ t n w c p k, R s t → n ∈ N → t.attr? (.ref r) n = some w → c = .wrapper ∨ c = .classWrapper →
    t.Wraps c w p k → Wrapper.Rebinds (t.Grows ·) M.next c p (.ref r)
  takes : ∀ t z u n x y w c p k sig, R s t → n ∈ N → Wrapper.storedMember t (.defined r) n = some x → t.Grows z →
    Wrapper.Chosen M.next.next (.ref r) n t x c p z → Wrapper.Made M.next.next t c p k w z → z.Enforces k sig →
    y = w ∨ z.IsStatic y w → z.Wrote r n y u → R z u

theorem OfClass.receptive (h : OfClass R M r H N s) (hn : n ∈ N) : Receptive R M r H N s where
  evolves := h.evolves
  own t ht := by
    obtain ⟨o,ho,htable,-⟩ := (h.branch t ht n hn).own
    exact ⟨o,ho,htable⟩
  branch := h.branch
  names := h.names
  fallback := h.fallback
  reads := h.reads
  told := h.told
  askable t n x ht hn hown hx :=
    ⟨(h.original t n x ht hn hown hx).yields,(h.original t n x ht hn hown hx).kind,(h.original t n x ht hn hown hx).later⟩
  binds := h.binds
  takes := h.takes

/-- A wrapper, or a static method of one, as a member that is held. -/
theorem inner_carried {f x : Value} {sigs : List Value} (h : Carries true t f x sigs) (hsigs : sigs ≠ []) :
    (t.inner x = x ∨ t.IsStatic x (t.inner x)) ∧ t.Signed f (t.inner x) sigs ∧
      ∃ c p a, (c = .wrapper ∨ c = .classWrapper) ∧ t.Wraps c (t.inner x) p a := by
  cases h with
  | bare hsigned =>
    obtain ⟨c,p,a,hc,hw⟩ := hsigned.wraps hsigs
    have hinner : t.inner x = x := by rw [Store.inner,hw.body?]
    exact ⟨Or.inl hinner,by rwa [hinner],c,p,a,hc,by rwa [hinner]⟩
  | @static v _ _ hstatic hsigned =>
    have hinner : t.inner x = v := by rw [Store.inner,hstatic.body]
    exact ⟨Or.inr (by rwa [hinner]),by rwa [hinner],by rw [hinner]; exact hsigned.wraps hsigs⟩

/-- Nothing changes either when they are asked. -/
theorem askable_carried {f x : Value} {sigs : List Value} (h : Carries true t f x sigs) (hsigs : sigs ≠ []) :
    Askable M.next.next t x := by
  obtain ⟨hx,-,c,p,a,hc,hw⟩ := inner_carried h hsigs
  have hclass : ∃ b, ∀ u, t.Grows u → u.classOf x = .builtin b := by
    rcases hx with hself | hstatic
    · rw [hself] at hw
      exact ⟨c,fun u hu => (hw.grows hu).classOf⟩
    · exact ⟨.staticMethod,fun u hu => (hstatic.keep (Store.Keeps.of_grows hu)).cls⟩
  obtain ⟨b,hb⟩ := hclass
  have kind (d : BuiltinClass) : Leaves (t.Grows ·) (isKind M.next.next x d) := fun u hu => by
    rw [after_ok (isKind_builtin (hb u hu) rfl)]
    exact Store.Keeps.refl _ u
  have hlasting : Lasting (t.Grows ·) := fun _ _ ht hu => ht.trans hu
  refine ⟨(Wrapper.told_wrapper (mem_wrapperClasses hc) hw M).yielding hlasting,kind _,?_⟩
  refine (kind .function).bind hlasting fun d _ => ?_
  cases d with
  | true => exact leaves_pure _
  | false => exact kind .wrapper

section receptive
variable (h : Receptive R M r H N s)
include h

/-- What a class holds itself is what is read from it, once it is bound. -/
theorem Receptive.read_own {w : Value} (ht : R s t) (hn : n ∈ N) (hw : t.attr? (.ref r) n = some w) :
    M.next.next.read (.ref r) n t = bindMember M.next w .absent (.ref r) t := by
  have hbranch := h.branch t ht n hn
  exact Wrapper.read_unanswered hbranch (h.names n hn) (hbranch.classMember?_own hw) (h.fallback t ht) M.next

/-- A wrapper that a class holds, or holds a static method of, is read as a wrapper with the same advice. -/
theorem Receptive.read_carried {f x sig : Value} {sigs : List Value} (ht : R s t) (hn : n ∈ N)
    (hx : t.attr? (.ref r) n = some x) (hc : Carries true t f x (sig :: sigs))
    (hv : M.next.next.read (.ref r) n t = .ok v u) : u.Topped R M.next.next v (some sig) := by
  obtain ⟨hinner,hsigned,-⟩ := inner_carried hc (by simp)
  rw [h.read_own ht hn hx] at hv
  cases hsigned with
  | layer hclass hwraps hk _ =>
    rcases hinner with hinner | hstatic
    · rw [hinner] at hwraps
      have hbinds := h.binds t n x _ _ _ ht hn hx hclass hwraps
      have hself : t.Grows t := Store.Keeps.refl _ t
      obtain ⟨c,q,hc,hq,hg⟩ :=
        Wrapper.wraps_of_bind (fun _ _ ha hb => ha.trans hb) hbinds hself hclass hwraps (by simp) hv
      have hlater := h.evolves.lasting t u ht hg
      exact topped_wrapper h.evolves hlater hc hq (hk.keep (Store.Keeps.of_grows hg))
    · obtain ⟨q,rfl⟩ := Store.ref_of_body hstatic.body
      obtain ⟨rfl,rfl⟩ : _ = v ∧ t = u := by simpa [bindMember,hstatic.body] using hv
      exact topped_wrapper h.evolves ht (mem_wrapperClasses hclass) hwraps hk

/-- A check is installed in a wrapper around what is chosen, which the class then holds itself or as a static
method; until it does, nothing changes. -/
theorem Receptive.installed (ht : R s t) (hn : n ∈ N) (hk : t.Enforces k sig)
    (hask : ∀ x, Wrapper.storedMember t (.defined r) n = some x → Askable M.next.next t x) :
    (Wrapper.install M.next.next (.ref r) (.str n) k).Leads
      (fun _ u => ∃ x c p y w z, Wrapper.storedMember t (.defined r) n = some x ∧ t.Grows z ∧
        z.Wraps c w p k ∧ z.Enforces k sig ∧ (y = w ∨ z.IsStatic y w) ∧
        Wrapper.Chosen M.next.next (.ref r) n t x c p z ∧ z.Wrote r n y u ∧ R z u) (t.Grows ·) t := by
  have hlater (u : Store) (hu : t.Grows u) : R s u := h.evolves.lasting t u ht hu
  refine leads_congr (Wrapper.install_wrapMember (h.branch t ht n hn).governed n k) ?_
  cases hx : Wrapper.storedMember t (.defined r) n with
  | none =>
    refine leads_congr ((get_bind_apply _ _).trans ?_) (leads_fail (q := .attributeError) (Store.Keeps.refl _ t))
    rw [hx]
    rfl
  | some x =>
    obtain ⟨hyields,hkind,hbinds⟩ := hask x hx
    have hwrites := Wrapper.wrapMember_writes (a := k) hyields hkind hbinds ((h.reads n hn).mono hlater)
      (fun a p b ha hb => h.told a n p b (hlater a ha) hn hb) hx
    rcases hwrites with ⟨e,z,heq,hg⟩ | ⟨c,p,y,w,z,hz,hw,hy,hp,heq⟩
    · refine ⟨fun w u hu => ?_,fun e' u hu => ?_⟩
      · rw [heq] at hu
        cases hu
      · rw [heq] at hu
        cases hu
        exact hg
    · have hkz : z.Enforces k sig := hk.keep (Store.Keeps.of_grows hz)
      have hRz := hlater z hz
      obtain ⟨u,hu,hwrote⟩ := Wrapper.write_branch (m := M.next) (h.branch z hRz n hn) (h.names n hn) y
      have hRu := h.takes t z u n x y w c p k sig ht hn hx hz hp hw hkz hy hwrote
      refine leads_congr (heq.trans (bind_ok hu)) (leads_pure ?_)
      exact ⟨x,c,p,y,w,z,rfl,hz,hw.wraps,hkz,hy,hp,hwrote,hRu⟩

/-- Other members stay when one is written. -/
theorem Receptive.others (ht : R s t) (hw : t.Wrote r n v u) {q : String} (hq : q ≠ "__annotations__")
    (hqn : q ≠ n) : u.attr? (.ref r) q = t.attr? (.ref r) q := by
  obtain ⟨o,ho,htable⟩ := h.own t ht
  refine hw.members.attr? ho trivial htable ?_
  rintro (hk | hk)
  · exact hq hk
  · exact hqn (by simpa [Frame.members] using hk)

end receptive

/-- A member that was signed is a wrapper, or a static method of one. -/
theorem OfClass.signed_own (h : OfClass R M r H N s) (hB : Bears R M.next.next (ownMember r N) true s t S)
    (hn : n ∈ N) (hS : S (.str n) ≠ []) : ∃ x f, t.attr? (.ref r) n = some x ∧
      Wrapper.storedMember t (.defined r) n = some x ∧ Carries true t f x (S (.str n)) ∧
      t.Clear R M.next.next f := by
  obtain ⟨x,hx⟩ := Option.isSome_iff_exists.mp (hB.full _ hS)
  obtain ⟨f,hc,hf⟩ := hB.carries _ x hx
  have hown : t.attr? (.ref r) n = some x := by simpa [ownMember,hn] using hx
  have hstored : Wrapper.storedMember t (.defined r) n = some x := by
    simp [Wrapper.storedMember,(h.branch t hB.later n hn).classMember?_own hown]
  exact ⟨x,f,hown,hstored,hc,hf⟩

section ofClass
variable (h : OfClass R M r H N s)
include h

theorem OfClass.stays (ht : R s t) (hg : t.Grows u) : ownMember r N u = ownMember r N t := by
  funext x
  refine ownMember_congr fun n hn _ => ?_
  obtain ⟨o,ho,htable,-⟩ := (h.branch t ht n hn).own
  have hfree : ¬ Frame.all.frees n := by
    rintro (rfl | hk)
    · exact h.names _ hn (by decide)
    · cases hk
  exact hg.attr? ho trivial htable hfree

variable (hs : Unsigned R M.next.next (.ref r) false (memberNames N) (memberSite N) (ownMember r N) s)
  (hB : Bears R M.next.next (ownMember r N) true s t S) (hn : n ∈ N)
include hs hB hn

theorem read_topped (hv : M.next.next.read (.ref r) n t = .ok v u) :
    u.Topped R M.next.next v (S (.str n)).head? := by
  cases hS : S (.str n) with
  | nil =>
    have hsite : memberSite N (.str n) = some (.str n) := by simp [memberSite,hn]
    have hget : readAs false M.next.next (.ref r) (.str n) t = .ok v u := hv
    exact (hs.read t (.str n) (.str n) v u hB.later ⟨n,hn,rfl⟩ hsite (hB.first _ hS) hget).topped
  | cons y ys =>
    obtain ⟨x,f,hown,-,hc,-⟩ := h.signed_own hB hn (by simp [hS])
    rw [hS] at hc
    exact (h.receptive hn).read_carried hB.later hn hown hc hv

theorem chosen_signed {x p : Value} {c : BuiltinClass} {z : Store} (hx : Wrapper.storedMember t (.defined r) n = some x)
    (hp : Wrapper.Chosen M.next.next (.ref r) n t x c p z) (hz : t.Grows z) :
    ∃ f, z.Signed f p (S (.str n)) ∧ z.Clear R M.next.next f := by
  have hkeeps : t.Keeps .layers z := Store.Keeps.of_grows hz
  have hlater := h.evolves.grows t z hB.later hz
  cases hS : S (.str n) with
  | nil =>
    have hfirst := hB.first _ hS
    simp only [ownMember,hn,if_true] at hfirst
    rcases hp.inner_or with rfl | ⟨-,-,u,v,hu,hv,hvz⟩
    · exact ⟨_,.unsigned,(h.original t n x hB.later hn hfirst hx).clear.later h.evolves hB.later hlater⟩
    · have hBu := hB.grows h.evolves (fun _ _ ht hg => h.stays ht hg) hu
      have hsite : memberSite N (.str n) = some (.str n) := by simp [memberSite,hn]
      have hget : readAs false M.next.next (.ref r) (.str n) u = .ok p v := hv
      have hclear := hs.read u (.str n) (.str n) p v hBu.later ⟨n,hn,rfl⟩ hsite (hBu.first _ hS) hget
      have hBv := h.evolves.lasting u v hBu.later ((h.reads n hn).ok hBu.later hv)
      exact ⟨p,.unsigned,hclear.later h.evolves hBv (h.evolves.grows v z hBv hvz)⟩
  | cons y ys =>
    obtain ⟨x',f,-,hstored,hc,hf⟩ := h.signed_own hB hn (by simp [hS])
    obtain rfl : x' = x := Option.some.inj (hstored.symm.trans hx)
    obtain ⟨-,hsigned,c,q,a,hc,hw⟩ := inner_carried hc (by simp [hS])
    refine ⟨f,?_,hf.later h.evolves hB.later hlater⟩
    rw [← hS]
    rcases hp.inner_or with rfl | ⟨hself,⟨b,d,hb,hd⟩,-⟩
    · exact hsigned.keep hkeeps
    · -- a wrapper is one that binds later
      rw [hself] at hw
      rw [Wrapper.bindsLater_wrapper hc (hw.grows hb)] at hd
      cases hd

omit hs in
/-- What is stored for a member can be asked, whether it was signed or not. -/
theorem askable_ofClass {x : Value} (hx : Wrapper.storedMember t (.defined r) n = some x) :
    Askable M.next.next t x := by
  by_cases hS : S (.str n) = []
  · have hfirst := hB.first _ hS
    simp only [ownMember,hn,if_true] at hfirst
    exact (h.receptive hn).askable t n x hB.later hn hfirst hx
  · obtain ⟨x',f,-,hstored,hc,-⟩ := h.signed_own hB hn hS
    obtain rfl : x' = x := Option.some.inj (hstored.symm.trans hx)
    exact askable_carried hc hS

/-- Installing a check signs the member of a class with it. -/
theorem install_ofClass (hk : t.Enforces k sig) :
    (Wrapper.install M.next.next (.ref r) (.str n) k).Leads
      (fun _ u => ∃ i, memberSite N (.str n) = some i ∧
        Bears R M.next.next (ownMember r N) true s u (Function.update S i (sig :: S i)))
      (fun u => Bears R M.next.next (ownMember r N) true s u S) t := by
  have grown {u : Store} (hu : t.Grows u) : Bears R M.next.next (ownMember r N) true s u S :=
    hB.grows h.evolves (fun _ _ ht hg => h.stays ht hg) hu
  refine ((h.receptive hn).installed hB.later hn hk fun x hx => askable_ofClass h hB hn hx).imp ?_ fun u hg => grown hg
  rintro - u ⟨x,c,p,y,w,z,hx,hz,hw,hkz,hy,hp,hwrote,hu⟩
  obtain ⟨f,hsigned,hf⟩ := chosen_signed h hs hB hn hx hp hz
  have hBz := grown hz
  have hkeeps := h.evolves.layers z u hBz.later hu
  have hlayer : u.Signed f w (sig :: S (.str n)) :=
    .layer hp.cls (hw.keep_callables (mem_wrapperClasses hp.cls) hkeeps.callables) (hkz.keep hkeeps) (hsigned.keep hkeeps)
  have hcarries : Carries true u f y (sig :: S (.str n)) := by
    rcases hy with rfl | hstatic
    · exact .bare hlayer
    · exact .static rfl (hstatic.keep hkeeps) hlayer
  have hheld : ownMember r N u (.str n) = some y := by simp [ownMember,hn,hwrote.here]
  refine ⟨.str n,by simp [memberSite,hn],hBz.signs h.evolves hu hheld hcarries (hf.later h.evolves hBz.later hu) ?_⟩
  refine fun j hj => ownMember_congr fun q hq hjq => (h.receptive hn).others hBz.later hwrote ?_ ?_
  · rintro rfl
    exact h.names _ hq (by decide)
  · rintro rfl
    exact hj hjq

end ofClass

/-- Classes bear signatures. -/
theorem OfClass.host (h : OfClass R M r H N s)
    (hs : Unsigned R M.next.next (.ref r) false (memberNames N) (memberSite N) (ownMember r N) s) :
    Host Store.Grows R M.next.next (.ref r) (memberNames N) (memberSite N)
      (Bears R M.next.next (ownMember r N) true s) s := by
  refine ⟨h.evolves,h.evolves.lasting.steps,h.evolves.grows,fun t S hB => hB.later,
    fun t u S hB hg => hB.grows h.evolves (fun _ _ ht hg => h.stays ht hg) hg,?_,?_⟩
  · rintro t S _ v u hB ⟨n,hn,rfl⟩ hv
    have hmapping := Wrapper.isMapping_governed (m := M.next.next) (h.branch t hB.later n hn).governed
    rw [memberOf_eq,bind_ok hmapping] at hv
    exact ⟨.str n,by simp [memberSite,hn],read_topped h hs hB hn hv⟩
  · rintro t S _ k sig hB ⟨n,hn,rfl⟩ hk
    exact install_ofClass h hs hB hn hk

end Attachment
end CallContracts
