import CallContracts.Proofs.Landing
import CallContracts.Proofs.Waiting
/-! Members of classes under wrappers.  A class holds a function, a static method or a class method, each
under a stack of wrappers in a form of its own; wrapping the stored member keeps the form and adds one
advice, and binding it gives a callable that goes through the stack. -/
namespace CallContracts
open Act

/-- What a function receives before the explicit arguments: the object that it is read from, nothing, or the
class that it is read from. -/
inductive Receives where
  | object | nothing | ofClass
  deriving DecidableEq, Repr

def Receives.values (v owner : Value) : Receives → List Value
  | object => [v]
  | nothing => []
  | ofClass => [owner]

/-- The object is given as an argument where the member is read from its class. -/
def Receives.explicit (v : Value) : Receives → List Value
  | object => [v]
  | _ => []

/-- A function under a stack of advices, the last installed first.  The function may have an attribute by the
name of the way of binding. -/
structure Layers where
  receives : Receives
  original : Value
  ownBinder : Bool
  advices : List Value

def Layers.advised (l : Layers) (a : Value) : Layers := { l with advices := a :: l.advices }

/-- Binding does not come to an attribute of the function: only wrappers of class methods look there, and only
those around another one. -/
def Layers.Direct (l : Layers) : Prop :=
  l.receives = .ofClass → l.advices.length ≤ 1 ∨ l.ownBinder = false

namespace Store
variable {s t : Store} {l : Layers} {f v x y w a owner : Value} {as : List Value} {g : Function}

/-- What a class holds for a function under a stack of advices. -/
inductive Stored (s : Store) : Layers → Value → Prop where
  | method {f x : Value} {b : Bool} {as : List Value} : s.Routed f [] x as → Stored s ⟨.object,f,b,as⟩ x
  | static {f x y : Value} {b : Bool} {as : List Value} : s.classOf x = .builtin .staticMethod →
      s.body? x = some (.staticMethod y) → s.Routed f [] y as → Stored s ⟨.nothing,f,b,as⟩ x
  | ofClass {f x : Value} {g : Function} {b : Bool} : s.classOf x = .builtin .classMethod →
      s.body? x = some (.classMethod f) → s.IsFunction f g → s.Owns f → s.ownBinder f = b →
      Stored s ⟨.ofClass,f,b,[]⟩ x
  | wrapped {f x : Value} {b : Bool} {as : List Value} : s.Classed f x as → s.ownBinder f = b →
      Stored s ⟨.ofClass,f,b,as⟩ x

/-- What is read from the class `owner` for a function under a stack of advices. -/
inductive ReadFrom (s : Store) (owner : Value) : Layers → Value → Prop where
  | plain {f : Value} {g : Function} {b : Bool} : s.IsFunction f g → ReadFrom s owner ⟨.object,f,b,[]⟩ f
  | waits {f w a : Value} {g : Function} {b : Bool} {as : List Value} : s.IsFunction f g →
      s.Waits f owner w a as → ReadFrom s owner ⟨.object,f,b,a :: as⟩ w
  | routed {l : Layers} {v x : Value} : l.receives ≠ .object →
      s.Routed l.original (l.receives.values x owner) v l.advices → ReadFrom s owner l v

namespace Stored

theorem place (h : s.Stored l x) : ∃ r b body, x = .ref r ∧ s.classOf x = .builtin b ∧
    s.body? x = some body ∧ b ∈ [.function,.wrapper,.staticMethod,.classMethod,.classWrapper] ∧
    ∀ info, body ≠ .cls info := by
  have found {b : BuiltinClass} {body : Body} (hc : s.classOf x = .builtin b) (hb : s.body? x = some body)
      (hmem : b ∈ [.function,.wrapper,.staticMethod,.classMethod,.classWrapper])
      (hbody : ∀ info, body ≠ .cls info) : ∃ r b body, x = .ref r ∧ s.classOf x = .builtin b ∧
        s.body? x = some body ∧ b ∈ [.function,.wrapper,.staticMethod,.classMethod,.classWrapper] ∧
        ∀ info, body ≠ .cls info := by
    obtain ⟨r,rfl⟩ := ref_of_body hb
    exact ⟨r,b,body,rfl,hc,hb,hmem,hbody⟩
  cases h with
  | method hr =>
    obtain ⟨hs,g,hf⟩ := hr
    cases hs with
    | original => exact found hf.cls hf.body (by simp) (by simp)
    | advised hw _ => exact found hw.classOf hw.body? (by simp) (by simp)
  | static hc hb _ => exact found hc hb (by simp) (by simp)
  | ofClass hc hb _ _ _ => exact found hc hb (by simp) (by simp)
  | wrapped hr _ =>
    obtain ⟨p,a,hw,-⟩ := hr.own
    exact found hw.classOf hw.body? (by simp) (by simp)

/-- Members come after the own attributes of an instance. -/
theorem isDataMember (h : s.Stored l x) : s.isDataMember x = false := by
  obtain ⟨r,b,body,rfl,hc,-,hb,-⟩ := h.place
  have hA : s.isA (.ref r) .property = false := by
    rw [isA_builtin hc]
    simp only [List.mem_cons,List.not_mem_nil,or_false] at hb
    rcases hb with rfl | rfl | rfl | rfl | rfl <;> decide
  simp [Store.isDataMember,hA,hc]

theorem keep (h : s.Stored l x) (ht : s.Keeps .callables t) : t.Stored l x := by
  have held {b : BuiltinClass} {body : Body} (hc : s.classOf x = .builtin b) (hb : s.body? x = some body)
      (hmem : b ∈ [.staticMethod,.classMethod]) :
      t.classOf x = .builtin b ∧ t.body? x = some body := by
    have hx : s.Holds .callables x := holds_of_class hb hc fun _ => by
      simp only [List.mem_cons,List.not_mem_nil,or_false] at hmem
      rcases hmem with rfl | rfl <;> simp [Frame.callables]
    exact ⟨by rw [ht.classOf hx,hc],by rw [ht.body? hx,hb]⟩
  cases h with
  | method hr => exact .method (hr.keep ht)
  | static hc hb hr =>
    obtain ⟨hc',hb'⟩ := held hc hb (by simp)
    exact .static hc' hb' (hr.keep ht)
  | ofClass hc hb hf hn hown =>
    obtain ⟨hc',hb'⟩ := held hc hb (by simp)
    exact .ofClass hc' hb' (hf.keep ht) (hn.keep ht hf.holds) (by rw [hn.ownBinder_keep ht hf.holds,hown])
  | wrapped hr hown =>
    obtain ⟨⟨g,hf⟩,hn⟩ := hr.function
    exact .wrapped (hr.keep ht) (by rw [hn.ownBinder_keep ht hf.holds,hown])

theorem grows (h : s.Stored l x) (ht : s.Grows t) : t.Stored l x := h.keep (Keeps.of_grows ht)

end Stored
end Store

namespace Wrapper
variable {M : Machine} {s : Store} {l : Layers} {f v x y w a i owner : Value} {as : List Value}

theorem iterate_of_le {k n : Nat} (h : k ≤ n) : ∃ N : Machine, Machine.next^[n] M = Machine.next^[k] N := by
  obtain ⟨j,rfl⟩ := Nat.exists_eq_add_of_le h
  exact ⟨Machine.next^[j] M,iterate_add k j⟩

/-- Static and class methods bind without a look at the instance. -/
theorem quiet_bindFree (h : s.Stored l x) (hd : l.Direct) (hl : l.receives ≠ .object) (ho : owner ≠ .absent)
    (v : Value) :
    ((Machine.next^[2 * l.advices.length + 2] M).bind x i owner).Quiet
      (fun c t => t.Routed l.original (l.receives.values v owner) c l.advices) s := by
  obtain ⟨r,-,-,rfl,-⟩ := h.place
  rw [iterate_two]
  cases h with
  | method _ => exact absurd rfl hl
  | @static f _ y _ as hc hb hr =>
    refine ⟨y,s,?_,Store.Keeps.refl _ s,hr⟩
    change bindMember _ (.ref r) i owner s = _
    simp [bindMember,hb]
  | @ofClass f _ g _ hc hb hf hn hown =>
    obtain ⟨c,t,ht,hg,rfl,hm⟩ := quiet_alloc { cls := .builtin .method, body := .bound f owner } s
    refine ⟨_,t,?_,hg,.bound (hf.grows hg) ⟨Store.classOf_of_get? hm,Store.body?_of_get? hm⟩⟩
    obtain ⟨q,rfl⟩ := Store.ref_of_body hf.body
    have hbinds : s.binds (.ref q) = true := by
      rw [Store.binds,hf.cls,Store.classMember?_builtin]
      decide
    change bindMember _ (.ref r) i owner s = _
    simp only [bindMember,get_bind_apply,hb,bindClassMethod,ho,if_false,hbinds,if_true]
    change bindMember _ (.ref q) owner owner s = _
    simpa [bindMember,hf.body,bindFunction,ho] using ht
  | @wrapped f _ _ as hr hown =>
    obtain ⟨N,hN⟩ := iterate_of_le (M := M) (Nat.le_succ (2 * as.length))
    have hown' : as.length ≤ 1 ∨ s.ownBinder f = false := hown ▸ hd rfl
    obtain ⟨c,t,ht,hg,hr'⟩ := quiet_bindClass (M := N) (i := i) hr hown' ho
    obtain ⟨p,a,hw,-⟩ := hr.own
    refine ⟨c,t,?_,hg,hr'⟩
    rw [bind_nextClass hw,← Function.iterate_succ_apply' Machine.next,hN,ht]

/-- A stored member that is read from an instance. -/
theorem quiet_bindStored (h : s.Stored l x) (hd : l.Direct) (hv : v ≠ .absent) (ho : owner ≠ .absent) :
    ((Machine.next^[2 * l.advices.length + 2] M).bind x v owner).Quiet
      (fun c t => t.Routed l.original (l.receives.values v owner) c l.advices) s := by
  by_cases hl : l.receives = .object
  · cases h with
    | @method f _ _ as hr =>
      obtain ⟨N,hN⟩ := iterate_of_le (M := M) (show as.length + 2 ≤ 2 * as.length + 2 by omega)
      rw [hN]
      exact quiet_bind hr hv ho
    | _ => cases hl
  · exact quiet_bindFree h hd hl ho v

/-- A stored member that is read from a class. -/
theorem quiet_readStored (h : s.Stored l x) (hd : l.Direct) (ho : owner ≠ .absent) :
    ((Machine.next^[2 * l.advices.length + 2] M).bind x .absent owner).Quiet
      (fun c t => t.ReadFrom owner l c) s := by
  by_cases hl : l.receives = .object
  · cases h with
    | @method f _ _ as hr =>
      obtain ⟨hs,g,hf⟩ := hr
      cases hs with
      | original =>
        refine ⟨_,s,?_,Store.Keeps.refl _ s,.plain hf⟩
        obtain ⟨r,rfl⟩ := Store.ref_of_body hf.body
        change bindMember _ (.ref r) .absent owner s = _
        simp [bindMember,hf.body,bindFunction]
      | @advised w p a _ as hw hp =>
        obtain ⟨N,hN⟩ := iterate_of_le (M := M) (show 3 ≤ 2 * (a :: as).length + 2 by simp; omega)
        rw [hN]
        have hground : Grounded (s.Grows ·) owner f (fun i => [i]) f [] :=
          grounded_function (fun _ _ ht hu => ht.trans hu) (fun _ ht => hf.grows ht) ho
        exact (quiet_unbound hground (Store.Keeps.refl _ s) hw hp (told_routed ⟨hp,g,hf⟩)).imp fun c t ht hc =>
          .waits (hf.grows ht) hc.1
    | _ => cases hl
  · exact (quiet_bindFree h hd hl ho .absent).imp fun c t _ hc => .routed hl hc

/-- An end that tells that an attribute is missing. -/
def Missing (y : EStateM.Result Stop Store Value) : Prop :=
  ∃ q t, y = .error (.raised q) t ∧ .attributeError ∈ q.cls.line

/-- A member that is read as what an attribute of the function makes of it, and not as what the wrapper below
gives; if that tells that the attribute is missing, a class may have another answer. -/
def Diverts (M : Machine) (s : Store) (l : Layers) (i owner : Value) (y : EStateM.Result Stop Store Value) : Prop :=
  ∃ w p a g as, l.advices = a :: as ∧ s.Wraps .classWrapper w p a ∧ s.Classed l.original p as ∧
    s.attr? p "__get__" = some g ∧
    (y = bindThrough M g w i owner s ∨ Missing (bindThrough M g w i owner s))

/-- A function that has an attribute by the name of the way of binding gets in the way. -/
theorem bindStored_through (h : s.Stored l x) (hd : ¬ l.Direct) (ho : owner ≠ .absent) :
    Diverts M.next s l i owner (M.next.next.bind x i owner s) := by
  simp only [Layers.Direct,Classical.not_imp,not_or,Nat.not_le,Bool.not_eq_false] at hd
  obtain ⟨hl,hlength,hown⟩ := hd
  cases h with
  | ofClass _ _ _ _ _ => simp at hlength
  | @wrapped f _ _ as hr hown' =>
    obtain ⟨a,b,as,rfl⟩ : ∃ a b c, as = a :: b :: c := by
      match as, hlength with
      | a :: b :: c, _ => exact ⟨a,b,c,rfl⟩
    obtain ⟨p,g,hw,hp,hg,hbind⟩ := bindClass_through (M := M) (i := i) hr (hown'.trans hown) ho
    refine ⟨x,p,a,g,b :: as,rfl,hw,hp,hg,Or.inl ?_⟩
    rw [bind_nextClass hw,hbind]
  | _ => cases hl

theorem Diverts.of_or {y z : EStateM.Result Stop Store Value} (h : Diverts M s l i owner y)
    (hz : z = y ∨ Missing y) : Diverts M s l i owner z := by
  obtain ⟨w,p,a,g,as,hl,hw,hp,hg,hy⟩ := h
  refine ⟨w,p,a,g,as,hl,hw,hp,hg,?_⟩
  rcases hy with rfl | hy
  · exact hz
  · exact Or.inr hy

/-- The table of an object that is no bound method is its own. -/
theorem tableOf_own {body : Body} (hb : s.body? v = some body) (hbody : ∀ f w, body ≠ .bound f w) :
    s.tableOf v = (s.attrs? v).getD [] := by
  obtain ⟨r,rfl⟩ := Store.ref_of_body hb
  have hself (n : Nat) : s.unbound n (.ref r) = .ref r := by
    cases n with
    | zero => rfl
    | succ n =>
      rw [Store.unbound,hb]
      cases body with
      | bound f w => exact absurd rfl (hbody f w)
      | _ => rfl
  simp [Store.tableOf,hself]

/-- What is taken over from an object is what it holds itself. -/
theorem takenTable_own {m : Machine} {body : Body} {b : BuiltinClass} (hc : s.classOf v = .builtin b)
    (hb : s.body? v = some body) (hbody : ∀ f w, body ≠ .bound f w) :
    takenTable m v s = .ok ((s.attrs? v).getD []) s := by
  have hhide : s.hidesTable v = false := by simp [Store.hidesTable,hc]
  simp [takenTable,hhide,tableOf_own hb hbody,map_apply]

/-- A wrapper takes over what is there by the name of the way of binding. -/
theorem quiet_ofClass {body : Body} {b : BuiltinClass} (hc : s.classOf f = .builtin b)
    (hb : s.body? f = some body) (hbody : ∀ v w, body ≠ .bound v w) (hn : s.Owns f)
    (hf : Tells (s.Grows ·) M f) (a : Value) :
    (ofClass M f a).Quiet (fun w t => t.Wraps .classWrapper w f a ∧ t.ownBinder w = s.ownBinder f) s := by
  refine (quiet_make (fun t ht => ht) hf (Or.inl rfl)).imp ?_
  rintro w t - ⟨hw,-,-,htakes⟩
  refine ⟨hw,htakes "__get__" (by decide) _ fun u x v hu hx => ?_⟩
  have hv := Store.holds_all_of_body hb
  have hc' : u.classOf f = .builtin b := by rw [hu.classOf hv,hc]
  have hb' : u.body? f = some body := by rw [hu.body? hv,hb]
  obtain ⟨rfl,-⟩ : (u.attrs? f).getD [] = x ∧ u = v := by simpa [takenTable_own hc' hb' hbody] using hx
  rw [Store.ownBinder,← hn.attr? hu hv (by decide),Store.attr?]
  cases u.attrs? f <;> rfl

/-- Functions and wrappers are wrapped as they are stored. -/
theorem wrapMember_later {m : Machine} {target : Value} {c : ClassId} {n : String} {b : BuiltinClass} {body : Body}
    {u : Store} (hx : storedMember s c n = some x) (hc : s.classOf x = .builtin b) (hb : s.body? x = some body)
    (hlater : b = .function ∨ b = .wrapper) (hbody : ∀ f, body ≠ .staticMethod f ∧ body ≠ .classMethod f)
    (hw : around m x a s = .ok w u) :
    wrapMember m target c n a s = (m.write target n w >>= fun _ => pure w) u := by
  have kind (k : BuiltinClass) {z : Bool} (hz : ({} : Store).isSubclass (.builtin b) (.builtin k) = z) :
      isKind m x k s = .ok z s := isKind_builtin hc hz
  have hnot : isKind m x .classWrapper s = .ok false s := by
    rcases hlater with rfl | rfl <;> exact kind _ (by decide)
  have hbinds : bindsLater m x s = .ok true s := by
    rcases hlater with rfl | rfl
    · rw [bindsLater,bind_ok (kind .function (z := true) (by decide))]
      rfl
    · rw [bindsLater,bind_ok (kind .function (z := false) (by decide))]
      exact kind .wrapper (by decide)
  rw [wrapMember_raw hx (fun f => by simpa [hb] using hbody f),wrapRaw,bind_ok hnot]
  simp only [Bool.false_eq_true,if_false]
  rw [bind_ok hbinds]
  exact bind_ok hw

/-- The stored member is wrapped in the form that it has, and written back. -/
theorem wrapMember_stored (target : Value) {c : ClassId} {n : String} (h : s.Stored l x)
    (hx : storedMember s c n = some x) (a : Value) :
    ∃ y w u, s.Grows u ∧ u.Stored (l.advised a) y ∧
      wrapMember M.next.next target c n a s = (M.next.next.write target n y >>= fun _ => pure w) u := by
  have kind {p : Value} {b k : BuiltinClass} {z : Bool} (hp : s.classOf p = .builtin b)
      (hz : ({} : Store).isSubclass (.builtin b) (.builtin k) = z) :
      isKind M.next.next p k s = .ok z s := isKind_builtin hp hz
  cases h with
  | @method f _ _ as hr =>
    obtain ⟨w,u,hw,hg,hr'⟩ := quiet_around (M := M) hr a
    refine ⟨w,w,u,hg,.method hr',?_⟩
    obtain ⟨hs,g,hf⟩ := hr
    cases hs with
    | original => exact wrapMember_later hx hf.cls hf.body (Or.inl rfl) (by simp) hw
    | advised hw' _ => exact wrapMember_later hx hw'.classOf hw'.body? (Or.inr rfl) (by simp) hw
  | @static f _ y _ as hc hb hr =>
    obtain ⟨w,u,hw,hg,hr'⟩ := quiet_around (M := M) hr a
    have htells : Tells (u.Grows ·) M.next.next w := tells_routed fun t ht => hr'.grows ht
    obtain ⟨copied,z,hz,hg',-⟩ := Calm.quiet (calm_copiedTitles htells.titles)
    let q : Obj :=
      { cls := .builtin .staticMethod
        body := .staticMethod w
        attrs := some copied }
    obtain ⟨_,v,hv,hg'',rfl,hq⟩ := quiet_alloc q z
    have hstatic : staticMethod M.next.next w u = .ok (.ref z.heap.size) v := by
      rw [staticMethod,holding,bind_ok hz]
      exact hv
    refine ⟨_,w,v,(hg.trans hg').trans hg'',.static (Store.classOf_of_get? hq) (Store.body?_of_get? hq)
      ((hr'.grows hg').grows hg''),?_⟩
    simp only [wrapMember,hx,ofOption_some,bind_apply,get_apply,hb,hw,hstatic]
  | @ofClass f _ g _ hc hb hf hn hbinder =>
    have htells : Tells (s.Grows ·) M.next.next f := tells_function fun t ht => hf.grows ht
    obtain ⟨w,u,hw,hg,hwraps,hown⟩ := quiet_ofClass hf.cls hf.body (by simp) hn htells a
    have hkeep := Store.Keeps.of_grows (F := .callables) hg
    have hsame := hn.ownBinder_keep hkeep hf.holds
    refine ⟨w,w,u,hg,.wrapped (.first (hf.grows hg) (hn.keep hkeep hf.holds) hwraps (hown.trans hsame.symm))
      (hsame.trans hbinder),?_⟩
    simp only [wrapMember,hx,ofOption_some,bind_apply,get_apply,hb,hw]
  | @wrapped f _ _ as hr hbinder =>
    obtain ⟨p,b,hp,hn⟩ := hr.own
    obtain ⟨⟨g,hf⟩,howns⟩ := hr.function
    have htells : Tells (s.Grows ·) M.next.next x :=
      ⟨fun n hn t ht => calm_readWrapper (by simp) (hp.grows ht) hn,
        fun t ht => calm_table (hp.grows ht).body? (hp.grows ht).classOf⟩
    obtain ⟨w,u,hw,hg,hwraps,hown⟩ := quiet_ofClass hp.classOf hp.body? (by simp) hp.owns htells a
    have hsame := howns.ownBinder_keep (Store.Keeps.of_grows hg) hf.holds
    refine ⟨w,w,u,hg,.wrapped (.layer hwraps ((hown.trans hn).trans hsame.symm) (hr.grows hg))
      (hsame.trans hbinder),?_⟩
    rw [wrapMember_raw hx (by simp [hp.body?]),wrapRaw,bind_ok (kind (z := true) hp.classOf (by decide))]
    exact bind_ok hw

end Wrapper
end CallContracts
