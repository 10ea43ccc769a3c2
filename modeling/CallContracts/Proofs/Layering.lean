import CallContracts.Proofs.Lookup
/-! Layers upon layers.  Wrapping the member of a class or of an instance, over and over, keeps the ledger
true; so a call that finds its callable in a hierarchy runs the advices that the ledger has and then the
function, which receives what it would have received without them. -/
namespace CallContracts
open Act

namespace Wrapper
variable {M : Machine} {s t u : Store} {L : Ledger} {r q D : Ref} {l : Layers} {n : String} {v x a : Value}
  {H I : Ref → Prop} {o : Obj}

theorem putOwn_own (ho : s.get? r = some o) (hattrs : o.attrs.isSome) (htable : o.table = none) :
    putOwn (.ref r) n x s = .ok () (s.putAttr r n x) := by
  obtain ⟨f,hf⟩ := Option.isSome_iff_exists.mp hattrs
  simp [putOwn,Store.attrs?,Store.obj?,ho,htable,hf]

theorem isMapping_governed {m : Machine} (h : s.Governed D) : isMapping m (.ref D) s = .ok false s := by
  rw [isMapping,isKind,isInstance_native h.spoofs,Store.isSubclass_mapping h.above h.type]

/-- On a class the member is wrapped as the class holds it. -/
theorem install_wrapMember {m : Machine} (h : s.Governed D) (n : String) (a : Value) :
    install m (.ref D) (.str n) a s = wrapMember m (.ref D) (.defined D) n a s := by
  have htype : isKind m (.ref D) .type s = .ok true s := by
    have hsub : s.isSubclass (s.classOf (.ref D)) (.builtin .type) = true := by
      simp [Store.isSubclass,Store.comesFrom,h.type]
    rw [isKind,isInstance_native h.spoofs,hsub]
  rw [install,bind_ok (isMapping_governed h)]
  simp only [Bool.false_eq_true,if_false,get_bind_apply]
  rw [bind_ok htype]
  simp only [h.class?,aroundClassMember,get_bind_apply,Store.text?_str]

/-- What is written to a class becomes its own. -/
theorem write_branch {m : Machine} (h : s.Branch n H D) (hn : n ∉ specialNames) (y : Value) :
    ∃ t, m.next.write (.ref D) n y s = .ok () t ∧ s.Wrote D n y t := by
  obtain ⟨info,hinfo⟩ := h.classInfo?
  obtain ⟨o,ho,htable,hattrs⟩ := h.own
  have hnames : n ∉ "__name__" :: "__qualname__" :: "__class__" :: "__bases__" :: fixedTitles := by
    simp only [specialNames,List.mem_append,List.mem_cons,not_or] at hn ⊢
    simp [hn]
  refine ⟨s.putAttr D n y,?_,Store.wrote_putAttr ho htable hattrs (h.governed.not_callable ho) n y⟩
  rw [write_class (h.rules "__setattr__" (by simp)) hinfo (h.rules n (by simp)) hnames]
  exact putOwn_own ho hattrs htable

/-- What is made of the member of a class is written to the class. -/
theorem install_class {w y : Value} (h : s.Branch n H D) (hn : n ∉ specialNames) (a : Value) (hg : s.Grows u)
    (hwrap : wrapMember M.next.next (.ref D) (.defined D) n a s
      = (M.next.next.write (.ref D) n y >>= fun _ => pure w) u) :
    ∃ t, install M.next.next (.ref D) (.str n) a s = .ok w t ∧ s.Wrote D n y t ∧ u.Wrote D n y t := by
  obtain ⟨t,ht,hwrote⟩ := write_branch (m := M.next) (h.grows hn hg) hn y
  refine ⟨t,?_,hwrote.after hg,hwrote⟩
  rw [install_wrapMember h.governed,hwrap,bind_ok ht]
  rfl

/-- The member of a class is wrapped as the class holds it. -/
theorem install_branch (h : s.Branch n H D) (hn : n ∉ specialNames) (hF : s.Family n H I)
    (hL : s.Agrees n H I L) (hl : L.found s D = some l) (a : Value) :
    ∃ w t y, install M.next.next (.ref D) (.str n) a s = .ok w t ∧ s.Wrote D n y t ∧
      t.Stored (l.advised a) y := by
  rw [Ledger.found_class (Store.home_branch h)] at hl
  obtain ⟨x,hx,hstored⟩ := Store.classMember?_of_search h hF hL hl
  have hmember : storedMember s (.defined D) n = some x := by simp [storedMember,hx]
  obtain ⟨y,w,u,hg,hy,hwrap⟩ : ∃ y w u, s.Grows u ∧ u.Stored (l.advised a) y ∧
      wrapMember M.next.next (.ref D) (.defined D) n a s
        = (M.next.next.write (.ref D) n y >>= fun _ => pure w) u :=
    wrapMember_stored (.ref D) hstored hmember a
  obtain ⟨t,ht,hwrote,hwrote'⟩ := install_class h hn a hg hwrap
  exact ⟨w,t,y,ht,hwrote,hy.keep hwrote'.callables⟩

/-- An instance gets a wrapper of its own, around what it finds. -/
theorem install_leaf (h : s.Leaf H r D) (hI : I r) (hopen : s.Open r D) (hn : n ∉ specialNames)
    (hF : s.Family n H I) (hL : s.Agrees n H I L) (hl : L.found s r = some l) (hd : L r = none → l.Direct)
    (a : Value) :
    ∃ w t, install (Machine.next^[2 * l.advices.length + 2] M) (.ref r) (.str n) a s = .ok w t ∧
      s.Wrote r n w t ∧
      t.Routed l.original (l.receives.values (.ref r) (.ref D)) w (a :: l.advices) := by
  obtain ⟨c,u,hc,hg,hr⟩ := quiet_readLeaf (M := M) h hI hF hL hl hd
  obtain ⟨w,z,hw,hg',hr'⟩ := quiet_around (M := Machine.next^[2 * l.advices.length] M) hr a
  rw [← iterate_two] at hw
  have hgz := hg.trans hg'
  have hspoofs : s.spoofs (s.classOf (.ref r)) = false := by
    simp [Store.spoofs,Store.overrides,h.cls,hopen.rules "__class__" (by simp),h.reads]
  have hmapping {m : Machine} : isMapping m (.ref r) s = .ok false s := by
    rw [isMapping,isKind,isInstance_native hspoofs,h.cls,(Store.isSubclass_guarded hopen.kind).1]
  have htype {m : Machine} : isKind m (.ref r) .type s = .ok false s := by
    rw [isKind,isInstance_native hspoofs,h.cls,(Store.isSubclass_guarded hopen.kind).2]
  -- what was found in the class is found there still when the wrapper is written
  have hD := hF.classes D h.member
  have hz := h.keep hD hn (Store.Keeps.of_grows hgz)
  have hopen' := hopen.keep hD hn (Store.Keeps.of_grows hgz)
  have hmember : ∀ x, z.classMember? (z.classOf (.ref r)) n = some x → z.isDataMember x = false := by
    rw [Ledger.found,Store.home_leaf h,Option.map_eq_some_iff] at hl
    obtain ⟨e,he,-⟩ := hl
    rw [← hD.lined.line_eq hgz fun _ _ => trivial] at he
    obtain ⟨x,hx,hstored⟩ := Store.classMember?_of_search (hD.grows hn hgz) (hF.grows hn hgz)
      (hL.grows hF hn hgz) he
    intro y hy
    rw [hz.cls,hx] at hy
    obtain rfl : x = y := by simpa using hy
    exact hstored.isDataMember
  obtain ⟨o,ho,htable⟩ := hz.own
  obtain ⟨o',ho',hattrs⟩ := hopen'.own
  obtain rfl : o = o' := by simpa [ho] using ho'
  have hcls : ¬ Frame.callables.holds r o.cls := by
    rw [← Store.classOf_of_get? ho,hz.cls]
    simp [Frame.callables]
  have hwrote := Store.wrote_putAttr ho htable hattrs hcls n w
  have hwrite : (Machine.next^[2 * l.advices.length + 2] M).write (.ref r) n w z
      = .ok () (z.putAttr r n w) := by
    rw [iterate_two,write_own (hopen'.unruled hz.cls n) hz.plain hmember]
    exact putOwn_own ho hattrs htable
  refine ⟨w,z.putAttr r n w,?_,hwrote.after hgz,hr'.keep hwrote.callables⟩
  rw [install,bind_ok hmapping]
  simp only [Bool.false_eq_true,if_false,get_bind_apply]
  rw [bind_ok htype]
  have hname (v : Store) : attributeName (.str n) v = .ok n v := by simp [attributeName]
  simp only [h.plain,getAttribute,setAttribute]
  rw [bind_ok ((bind_ok (hname s)).trans hc),bind_ok hw,bind_ok ((bind_ok (hname z)).trans hwrite)]
  rfl

/-- Wraps the member of one object after the other. -/
def installAll (m : Machine) (n : String) : List (Ref × Value) → Act Unit
  | [] => pure ()
  | p :: ps => do
    let _ ← install m (.ref p.1) (.str n) p.2
    installAll m n ps

/-- One more wrapper is one more advice in the ledger. -/
theorem install_agrees (hr : s.Wrappable H I r) (hn : n ∉ specialNames) (hF : s.Family n H I)
    (hL : s.Agrees n H I L) (hl : L.found s r = some l) (hd : I r → L r = none → l.Direct) (a : Value)
    (j : Nat) :
    ∃ w t x, install (Machine.next^[2 * l.advices.length + 2 + j] M) (.ref r) (.str n) a s = .ok w t ∧
      s.Wrote r n x t ∧ t.Family n H I ∧ t.Agrees n H I (L.wrap s r a) := by
  rw [iterate_add,Ledger.wrap_of_found hl]
  rcases hr with hr | ⟨hr,D,hD,hopen⟩
  · have h := hF.classes r hr
    obtain ⟨w,t,y,ht,hw,hy⟩ := install_branch (M := Machine.next^[2 * l.advices.length] (Machine.next^[j] M))
      h hn hF hL hl a
    rw [← iterate_two] at ht
    refine ⟨w,t,y,ht,hw,hF.wrote hn (Or.inl hr) hw,hL.wrote hF hn hw (fun _ => hy) fun D hI _ => ?_⟩
    obtain ⟨E,hE⟩ := hF.instances r hI
    cases h.class?.symm.trans hE.plain
  · obtain ⟨E,hE⟩ := hF.instances r hr
    obtain rfl : D = E := by simpa [hD] using hE.cls
    obtain ⟨w,t,ht,hw,hr'⟩ := install_leaf (M := Machine.next^[j] M) hE hr hopen hn hF hL hl (hd hr) a
    refine ⟨w,t,w,ht,hw,hF.wrote hn (Or.inr hE.plain) hw,hL.wrote hF hn hw (fun hH => ?_) fun E _ hE' => ?_⟩
    · cases (hF.classes r hH).class?.symm.trans hE.plain
    · obtain rfl : D = E := by simpa [hD] using hE'
      exact hr'

/-- What can be wrapped can be wrapped again. -/
theorem wrappable_keep (h : s.Wrappable H I r) (hn : n ∉ specialNames) (hF : s.Family n H I)
    (ht : s.Keeps (.members n) t) : t.Wrappable H I r := by
  refine h.imp id ?_
  rintro ⟨hr,D,hD,hopen⟩
  obtain ⟨E,hE⟩ := hF.instances r hr
  obtain rfl : D = E := by simpa [hD] using hE.cls
  obtain ⟨o,ho,-⟩ := hE.own
  exact ⟨hr,D,by rw [ht.classOf (Store.holds_ref ho trivial),hD],
    hopen.keep (hF.classes D hE.member) hn ht⟩

/-- One more advice costs what it costs itself and two calls. -/
theorem Ledger.cost_wrap_le {k : Value → Nat} {b : Nat} (hl : L.found s r = some l)
    (hb : ∀ r l, L r = some l → cost k l.advices ≤ b) (a : Value) :
    ∀ q e, L.wrap s r a q = some e → cost k e.advices ≤ b + (k a + 2) := by
  intro q e he
  obtain ⟨p,hp⟩ := Ledger.exists_of_found hl
  have hcost := hb p l hp
  rw [Ledger.wrap_of_found hl] at he
  by_cases hqr : q = r
  · obtain rfl : l.advised a = e := by simpa [hqr] using he
    simp only [Layers.advised,cost_cons]
    omega
  · have := hb q e (by simpa [hqr] using he)
    omega

/-- Wrapping members over and over keeps the ledger true. -/
theorem installAll_agrees {k : Value → Nat} {ops : List (Ref × Value)} {b d : Nat} (hn : n ∉ specialNames)
    (hF : s.Family n H I) (hL : s.Agrees n H I L)
    (hops : ∀ p ∈ ops, s.Wrappable H I p.1 ∧ (L.found s p.1).isSome) (hdirect : L.DirectAt s I ops)
    (hb : ∀ r l, L r = some l → cost k l.advices ≤ b) (hd : b + cost k (ops.map Prod.snd) + 2 ≤ d) :
    ∃ t, installAll (Machine.next^[d] M) n ops s = .ok () t ∧ t.Family n H I ∧
      t.Agrees n H I (L.wrapAll s ops) ∧ s.Keeps .callables t ∧ s.Keeps (.members n) t ∧
      ∀ r l, L.wrapAll s ops r = some l → cost k l.advices ≤ b + cost k (ops.map Prod.snd) := by
  induction ops generalizing s L b with
  | nil => exact ⟨s,rfl,hF,hL,Store.Keeps.refl _ s,Store.Keeps.refl _ s,by simpa [cost,Ledger.wrapAll] using hb⟩
  | cons p ops ih =>
    obtain ⟨hr,hfound⟩ := hops p (by simp)
    obtain ⟨l,hl⟩ := Option.isSome_iff_exists.mp hfound
    rw [List.map_cons,cost_cons] at hd ⊢
    obtain ⟨q,hq⟩ := Ledger.exists_of_found hl
    have hcost := hb q l hq
    have hlength := length_le_cost k l.advices
    obtain ⟨j,rfl⟩ := Nat.exists_eq_add_of_le (show 2 * l.advices.length + 2 ≤ d by omega)
    obtain ⟨w,u,x,hu,hwrote,hFu,hLu⟩ := install_agrees (M := M) hr hn hF hL hl
      (fun hI hLr => hdirect [] p ops rfl hI hLr l hl) p.2 j
    have hmembers : ∀ r ∈ ops, H r.1 ∨ I r.1 := fun r hr => (hops r (by simp [hr])).1.imp id And.left
    have hsame {r : Ref} (hr : H r ∨ I r) (L : Ledger) : L.found u r = L.found s r :=
      Store.found_keep hF hFu hr hwrote.members L
    have hbu := Ledger.cost_wrap_le hl hb p.2
    have hops' : ∀ r ∈ ops, u.Wrappable H I r.1 ∧ ((L.wrap s p.1 p.2).found u r.1).isSome := by
      intro r hr
      obtain ⟨hr',hfound'⟩ := hops r (by simp [hr])
      refine ⟨wrappable_keep hr' hn hF hwrote.members,?_⟩
      rw [hsame (hmembers r hr)]
      exact Ledger.isSome_found hfound' hfound p.2
    have hwrapAll (l : List (Ref × Value)) (hl : ∀ p ∈ l, p ∈ ops) :
        (L.wrap s p.1 p.2).wrapAll u l = L.wrapAll s (p :: l) :=
      Ledger.wrapAll_congr (fun r hr L => hsame (hmembers r (hl r hr)) L) _
    have hdirect' : (L.wrap s p.1 p.2).DirectAt u I ops := by
      intro ps q qs hps hI hnone e he
      have hw := hwrapAll ps fun r hr => by simp [hps,hr]
      rw [hw] at hnone he
      rw [hsame (Or.inr hI)] at he
      exact hdirect (p :: ps) q qs (by rw [hps]; rfl) hI hnone e he
    obtain ⟨t,ht,hFt,hLt,hcallables,hkeep,hbt⟩ := ih hFu hLu hops' hdirect' hbu (by omega)
    rw [hwrapAll ops fun _ h => h] at hLt hbt
    refine ⟨t,?_,hFt,?_,hwrote.callables.trans hcallables,hwrote.members.trans hkeep,?_⟩
    · rw [installAll,bind_ok hu,ht]
    · exact hLt
    · intro r e he
      have := hbt r e he
      omega

/-- A hierarchy with a member that no wrapper is around, and classes and instances in which it is to be wrapped,
one after the other, with advices that forward. -/
structure Layered (s : Store) (n : String) (H I : Ref → Prop) (L : Ledger) (k : Value → Nat)
    (ops : List (Ref × Value)) (d : Nat) : Prop where
  name : n ∉ specialNames
  family : s.Family n H I
  agrees : s.Agrees n H I L
  plain : ∀ r l, L r = some l → l.advices = []
  wrappable : ∀ p ∈ ops, s.Wrappable H I p.1 ∧ (L.found s p.1).isSome
  direct : L.DirectAt s I ops
  forwards : ∀ p ∈ ops, s.Forwards .callables (k p.2) p.2
  levels : cost k (ops.map Prod.snd) + 3 ≤ d

namespace Layered
variable {k : Value → Nat} {ops : List (Ref × Value)} {d : Nat}

/-- All wrappers are installed. -/
theorem run (h : Layered s n H I L k ops d) :
    ∃ t, installAll (Machine.next^[d] M) n ops s = .ok () t ∧ t.Family n H I ∧
      t.Agrees n H I (L.wrapAll s ops) ∧ s.Keeps .callables t ∧ s.Keeps (.members n) t ∧
      ∀ r l, L.wrapAll s ops r = some l → cost k l.advices ≤ cost k (ops.map Prod.snd) := by
  have hzero : ∀ r l, L r = some l → cost k l.advices ≤ 0 := by
    intro r l hl
    simp [h.plain r l hl,cost]
  have hlevels := h.levels
  obtain ⟨t,ht,hFt,hLt,hcallables,hmembers,hb⟩ := installAll_agrees (M := M) h.name h.family h.agrees h.wrappable
    h.direct hzero (show 0 + cost k (ops.map Prod.snd) + 2 ≤ d by omega)
  exact ⟨t,ht,hFt,hLt,hcallables,hmembers,by simpa using hb⟩

/-- The advices that are found forward, and there are levels enough for them. -/
theorem found (h : Layered s n H I L k ops d) {z : Store} (hz : s.Keeps .callables z)
    (hl : (L.wrapAll s ops).found z r = some l)
    (hb : ∀ r l, L.wrapAll s ops r = some l → cost k l.advices ≤ cost k (ops.map Prod.snd)) :
    cost k l.advices + 3 ≤ d ∧ ∀ a ∈ l.advices, z.Forwards .callables (k a) a := by
  obtain ⟨q,hq⟩ := Ledger.exists_of_found hl
  have hcost := hb q l hq
  have hlevels := h.levels
  refine ⟨by omega,?_⟩
  refine Ledger.advices_of_wrapAll (fun r e he a ha => ?_) (fun p hp => (h.forwards p hp).keep hz) hq
  simp [h.plain r e he] at ha

end Layered

/-- What was read from a class as a method relays all arguments, the first of which becomes the instance. -/
theorem relays_readObject {k : Value → Nat} {owner : Value} (h : s.ReadFrom owner l v)
    (hl : l.receives = .object) (ho : owner ≠ .absent) (ha : ∀ a ∈ l.advices, s.Forwards .callables (k a) a)
    (args : List Value) (j : Nat) :
    Relays .callables M l.original (trail (fun i => [i]) [] l.advices args).2
      (trail (fun i => [i]) [] l.advices args).1 s
      ((Machine.next^[cost k l.advices + 1 + j] M).call v args [] s) := by
  cases h with
  | plain _ => exact .original rfl (Store.Keeps.refl _ s)
  | @waits f w a g _ as hf hw =>
    have hground : Grounded (s.Keeps .callables ·) owner f (fun i => [i]) f [] :=
      grounded_function (fun _ _ ht hu => ht.trans (Store.Keeps.of_grows hu)) (fun _ ht => hf.keep ht) ho
    have hr := relays_waits (M := M) Frame.covers_callables hground (fun _ _ ht hu => ht.trans hu)
      (Store.Keeps.refl _ s) hw (k := k) (by simpa using ha) args j
    rwa [List.append_nil] at hr
  | routed hne _ => exact absurd hl hne

/-- What was read from a class relays to the function, given the instance first if it takes one. -/
theorem relays_readFrom {k : Value → Nat} {owner i : Value} (h : s.ReadFrom owner l v) (ho : owner ≠ .absent)
    (hi : i ≠ .absent) (ha : ∀ a ∈ l.advices, s.Forwards .callables (k a) a) (args : List Value) (j : Nat) :
    Relays .callables M l.original (some (l.receives.values i owner ++ args)) (allSee l.advices args) s
      ((Machine.next^[cost k l.advices + 1 + j] M).call v (l.receives.explicit i ++ args) [] s) := by
  cases h with
  | plain hf => exact .original rfl (Store.Keeps.refl _ s)
  | @waits f w a g b as hf hw =>
    have hr := relays_readObject (M := M) (.waits (b := b) hf hw) rfl ho ha (i :: args) j
    rwa [trail_instance hi,List.append_nil] at hr
  | @routed _ _ x hl hr =>
    cases hreceives : l.receives with
    | object => exact absurd hreceives hl
    | nothing =>
      rw [hreceives] at hr
      exact relays_routed Frame.covers_callables hr ha j
    | ofClass =>
      rw [hreceives] at hr
      exact relays_routed Frame.covers_callables hr ha j

/-- The member that is read from `v` can be called, with the arguments `lead` before the explicit ones: that
runs the advices, each once and with the explicit arguments, and then the function. -/
def Serves (M m : Machine) (s : Store) (n : String) (l : Layers) (v i owner : Value) (lead : List Value) : Prop :=
  ∃ c t, m.read v n s = .ok c t ∧ ∀ args,
    Relays .callables M l.original (some (l.receives.values i owner ++ args)) (allSee l.advices args) t
      (m.call c (lead ++ args) [] t)

/-- Take a hierarchy whose classes hold a member that is a function, a static method or a class method over
one, and wrap the member over and over in classes and instances with advices that forward.  From then on,
while the members stay what they are, a call of what is read from an instance, or from a class with an
instance first if the function takes one, runs the advices that the look-up finds, the last installed first;
and then the function with what it receives without them.  Exceptions are class methods under two or more
advices over a function that has an attribute `__get__`: a look-up that comes to one gives what that attribute
makes of it, under the last installed advice alone. -/
theorem calls_of_layered {k : Value → Nat} {ops : List (Ref × Value)} {d : Nat}
    (h : Layered s n H I L k ops d) :
    ∃ t K, K = L.wrapAll s ops ∧ installAll (Machine.next^[d] M) n ops s = .ok () t ∧
      s.Keeps (.members n) t ∧ t.Family n H I ∧ t.Agrees n H I K ∧
      ∀ z J, t.Keeps .callables z → z.Family n H J → z.Agrees n H J K →
        (∀ r D l, J r → z.classOf (.ref r) = .defined D → K.found z r = some l →
          ((K r = none → l.Direct) → Serves M (Machine.next^[d] M) z n l (.ref r) (.ref r) (.ref D) []) ∧
          (K r = none → ¬ l.Direct → Diverts (Machine.next^[d-1] M) z l (.ref r) (.ref D)
            ((Machine.next^[d] M).read (.ref r) n z))) ∧
        ∀ D l, H D → K.found z D = some l →
          (l.Direct → ∀ i, i ≠ .absent →
            Serves M (Machine.next^[d] M) z n l (.ref D) i (.ref D) (l.receives.explicit i)) ∧
          (¬ l.Direct → Diverts (Machine.next^[d-1] M) z l .absent (.ref D)
            ((Machine.next^[d] M).read (.ref D) n z)) := by
  obtain ⟨t,ht,hFt,hLt,hcallables,hmembers,hb⟩ := h.run (M := M)
  refine ⟨t,_,rfl,ht,hmembers,hFt,hLt,fun z J htz hFz hLz => ?_⟩
  have found {r : Ref} {l : Layers} (hl : (L.wrapAll s ops).found z r = some l) :=
    h.found (hcallables.trans htz) hl hb
  obtain ⟨e,rfl⟩ := Nat.exists_eq_add_of_le' (show 2 ≤ d by have := h.levels; omega)
  have hlevels : Machine.next^[e + 2] M = (Machine.next^[e] M).next.next := iterate_two e
  have hbelow : Machine.next^[e + 2 - 1] M = (Machine.next^[e] M).next := Function.iterate_succ_apply' _ _ _
  refine ⟨fun r D l hr hD hl => ⟨fun hdir => ?_,fun hnone hdir => ?_⟩,fun D l hD hl => ⟨fun hdir => ?_,fun hdir => ?_⟩⟩
  · obtain ⟨hcost,hforwards⟩ := found hl
    have hlength := length_le_cost k l.advices
    obtain ⟨E,hE⟩ := hFz.instances r hr
    obtain rfl : E = D := by simpa [hE.cls] using hD
    obtain ⟨N,hN⟩ := iterate_of_le (M := M) (show 2 * l.advices.length + 2 ≤ e + 2 by omega)
    obtain ⟨c,u,hc,hg,hr'⟩ := quiet_readLeaf (M := N) hE hr hFz hLz hl hdir
    refine ⟨c,u,by rw [hN,hc],fun args => ?_⟩
    obtain ⟨j,hj⟩ := Nat.exists_eq_add_of_le (show cost k l.advices + 1 ≤ e + 2 by omega)
    rw [hj]
    exact relays_routed Frame.covers_callables hr'
      (fun a ha => (hforwards a ha).keep (Store.Keeps.of_grows hg)) j
  · obtain ⟨E,hE⟩ := hFz.instances r hr
    obtain rfl : E = D := by simpa [hE.cls] using hD
    rw [hlevels,hbelow]
    exact diverts_readLeaf hE hr hFz hLz hl hnone hdir
  · intro i hi
    obtain ⟨hcost,hforwards⟩ := found hl
    have hlength := length_le_cost k l.advices
    obtain ⟨N,hN⟩ := iterate_of_le (M := M) (show 2 * l.advices.length + 2 ≤ e + 2 by omega)
    obtain ⟨c,u,hc,hg,hr⟩ := quiet_readBranch (M := N) (hFz.classes D hD) h.name hFz hLz hl hdir
    refine ⟨c,u,by rw [hN,hc],fun args => ?_⟩
    obtain ⟨j,hj⟩ := Nat.exists_eq_add_of_le (show cost k l.advices + 1 ≤ e + 2 by omega)
    rw [hj]
    exact relays_readFrom hr (by simp) hi (fun a ha => (hforwards a ha).keep (Store.Keeps.of_grows hg)) args j
  · rw [hlevels,hbelow]
    exact diverts_readBranch (hFz.classes D hD) h.name hFz hLz hl hdir

/-- A function and an advice that forwards; a class whose member the function is, one below it, and an instance
of that one. -/
def hierarchy : Store :=
  { Store.initial with heap := Store.initial.heap ++ #[
    { cls := .builtin .function, attrs := some []
      body := .function ⟨"m","m",.str "m",.absent,
        .closure ⟨"m",[(.required "self",none),(.required "x",none)],.variable "x",[]⟩⟩ },
    { cls := .builtin .function, attrs := some []
      body := .function ⟨"forward","forward",.str "m",.absent,.closure forwarding⟩ },
    { cls := .builtin .type, body := .cls ⟨"C","C",.builtin .root,[],true⟩
      attrs := some [("__module__",.str "m"),("m",.ref 33)] },
    { cls := .builtin .type, body := .cls ⟨"D","D",.defined 35,[],true⟩
      attrs := some [("__module__",.str "m")] },
    { cls := .defined 36, body := .plain, attrs := some [] }] }

/-- What the classes of the hierarchy hold. -/
def hierarchyLedger : Ledger := fun r => if r = 35 then some ⟨.object,.ref 33,false,[]⟩ else none

theorem hierarchy_family : hierarchy.Family "m" (· ∈ [35,36]) (· = 37) := by
  have hC : hierarchy.line (.defined 35) = [.defined 35,.builtin .root,.builtin .object] := by decide +kernel
  have hD : hierarchy.line (.defined 36) = [.defined 36,.defined 35,.builtin .root,.builtin .object] := by
    decide +kernel
  have htype {r : Ref} (hr : hierarchy.classOf (.ref r) = .builtin .type) :
      hierarchy.Lined (hierarchy.classOf (.ref r)) ∧
      .builtin .type ∈ hierarchy.line (hierarchy.classOf (.ref r)) ∧
      (∀ q, .defined q ∈ hierarchy.line (hierarchy.classOf (.ref r)) → q ∉ [35,36]) ∧
      ∀ k, hierarchy.override? (hierarchy.classOf (.ref r)) k = none := by
    have hmem : .builtin .type ∈ hierarchy.line (.builtin .type) := by decide +kernel
    rw [hr]
    refine ⟨⟨_,hmem⟩,hmem,fun q hq => ?_,fun k => Store.override?_builtin ..⟩
    simp [Store.line_builtin] at hq
  refine ⟨fun r hr => ?_,fun r hr => ?_⟩
  · simp only [List.mem_cons,List.not_mem_nil,or_false] at hr
    rcases hr with rfl | rfl
    · obtain ⟨habove,hmem,hapart,hrules⟩ := htype (r := 35) rfl
      exact ⟨⟨.root,by simp [hC]⟩,by simp [hC],⟨_,rfl,rfl,rfl⟩,habove,hmem,hapart,fun k _ => hrules k⟩
    · obtain ⟨habove,hmem,hapart,hrules⟩ := htype (r := 36) rfl
      exact ⟨⟨.root,by simp [hD]⟩,by simp [hD],⟨_,rfl,rfl,rfl⟩,habove,hmem,hapart,fun k _ => hrules k⟩
  · subst hr
    exact ⟨36,rfl,by simp,rfl,⟨_,rfl,rfl⟩,by decide +kernel⟩

theorem hierarchy_layered : Layered hierarchy "m" (· ∈ [35,36]) (· = 37) hierarchyLedger (fun _ => 0)
    [(35,.ref 34),(36,.ref 34),(37,.ref 34)] 9 := by
  have hforwards : hierarchy.Forwards .callables 0 (.ref 34) :=
    forwards_forwarding (g := ⟨"forward","forward",.str "m",.absent,.closure forwarding⟩) ⟨rfl,rfl⟩ rfl
      Frame.covers_callables
  have entry {r : Ref} {l : Layers} (hl : hierarchyLedger r = some l) :
      r = 35 ∧ l = ⟨.object,.ref 33,false,[]⟩ := by
    by_cases hr : r = 35
    · exact ⟨hr,by simpa [hierarchyLedger,hr] using hl.symm⟩
    · simp [hierarchyLedger,hr] at hl
  refine ⟨by decide,hierarchy_family,⟨fun r hr => ?_,?_⟩,fun r l hl => ?_,fun p hp => ?_,
    Ledger.directAt_of_receives fun r l hl => ?_,fun p hp => ?_,by decide⟩
  · simp only [List.mem_cons,List.not_mem_nil,or_false] at hr
    rcases hr with rfl | rfl
    · exact .some (.method (.original ⟨rfl,rfl⟩))
    · exact .none
  · rintro r D rfl -
    exact .none
  · rw [(entry hl).2]
  · simp only [List.mem_cons,List.not_mem_nil,or_false] at hp
    rcases hp with rfl | rfl | rfl
    · exact ⟨Or.inl (by simp),by decide +kernel⟩
    · exact ⟨Or.inl (by simp),by decide +kernel⟩
    · exact ⟨Or.inr ⟨rfl,36,rfl,⟨_,rfl,rfl⟩,by decide +kernel,by decide +kernel⟩,by decide +kernel⟩
  · simp [(entry hl).2]
  · simp only [List.mem_cons,List.not_mem_nil,or_false] at hp
    rcases hp with rfl | rfl | rfl <;> exact hforwards

/-- The instance runs the wrappers of both classes and its own, and gives back the argument. -/
theorem calls_of_layered_hierarchy : ∃ t l,
    Layered hierarchy "m" (· ∈ [35,36]) (· = 37) hierarchyLedger (fun _ => 0)
      [(35,.ref 34),(36,.ref 34),(37,.ref 34)] 9 ∧
    installAll (Machine.next^[9] Machine.halted) "m" [(35,.ref 34),(36,.ref 34),(37,.ref 34)] hierarchy
      = .ok () t ∧
    l.advices = [.ref 34,.ref 34,.ref 34] ∧
    Serves Machine.halted (Machine.next^[9] Machine.halted) t "m" l (.ref 37) (.ref 37) (.ref 36) [] := by
  obtain ⟨t,K,rfl,ht,hmembers,hF,hL,hcalls⟩ := calls_of_layered (M := Machine.halted) hierarchy_layered
  let l : Layers := ⟨.object,.ref 33,false,[.ref 34,.ref 34,.ref 34]⟩
  have hfound : (hierarchyLedger.wrapAll hierarchy [(35,.ref 34),(36,.ref 34),(37,.ref 34)]).found t 37 = some l := by
    rw [Store.found_keep hierarchy_family hF (Or.inr rfl) hmembers]
    rfl
  have hcls : t.classOf (.ref 37) = .defined 36 := by
    rw [hmembers.classOf (Store.holds_ref rfl trivial)]
    rfl
  refine ⟨t,l,hierarchy_layered,ht,rfl,?_⟩
  exact ((hcalls t (· = 37) (Store.Keeps.refl _ t) hF hL).1 37 36 l rfl hcls hfound).1 fun _ hc => by cases hc

/-- A class with a class method over a function that has an attribute `__get__`, and an advice that forwards. -/
def obstructed : Act (Value × Value) := do
  let g ← (Expr.function "m" [.required "cls",.required "x"] [] (.variable "x") none).eval Machine.full []
  Machine.full.write g "__get__" (.int 5)
  let c ← (Expr.classDef "C" [("m",.classMethod (.variable "g"))] []).eval Machine.full [("g",g)]
  let advice ← newFunction "forward" none forwarding
  return (c,advice)

/-- The member of a class, called with an argument. -/
def callMember (m : Machine) (c : Value) (n : String) (args : List Value) : Act Value := do
  m.call (← m.read c n) args []

/-- The class method gives back its argument; under two advices it cannot be called any more. -/
theorem fails_obstructed :
    returned (obstructed >>= fun p => callMember Machine.full p.1 "m" [.int 3]) Store.initial = some (.int 3) ∧
    raises (obstructed >>= fun p => do
      let _ ← install Machine.full p.1 (.str "m") p.2
      let _ ← install Machine.full p.1 (.str "m") p.2
      callMember Machine.full p.1 "m" [.int 3]) Store.initial = true := by decide +kernel

end Wrapper
end CallContracts
