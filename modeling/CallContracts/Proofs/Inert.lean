import CallContracts.Proofs.Layering
/-! Members of classes that do not bind.  A wrapper around one does not bind either; but a wrapper around that
wrapper takes what is below it for a member that binds, since every wrapper has a way of binding. -/
namespace CallContracts
open Act

/-- Members that turn into something else when they are read. -/
def Body.binds : Body → Bool
  | .function _ | .staticMethod _ | .classMethod _ | .property .. => true
  | _ => false

/-- A callable whose class has no way of binding: functions of the host, partial calls, bound functions, classes,
and callable instances of classes without one. -/
structure Store.Inert (s : Store) (x : Value) : Prop where
  member : s.classMember? (s.classOf x) "__get__" = none
  body : ∀ b, s.body? x = some b → b.binds = false
  honest : s.spoofs (s.classOf x) = false
  callable : s.isCallable x = true

namespace Store.Inert
variable {m : Machine} {s : Store} {x i owner : Value}

theorem of_builtin {b : BuiltinClass} (hc : s.classOf x = .builtin b)
    (hget : b.line.findSome? (·.ownMember? "__get__") = none) (hbody : ∀ o, s.body? x = some o → o.binds = false)
    (hcall : b.line.any (·.isCallable)) : s.Inert x :=
  ⟨by rw [hc,classMember?_builtin,hget],hbody,by rw [hc,spoofs_builtin],by rw [isCallable_builtin hc,hcall]⟩

theorem not_mem {b : BuiltinClass} (h : s.Inert x) (hb : (b.ownMember? "__get__").isSome) :
    .builtin b ∉ s.line (s.classOf x) := by
  intro hmem
  have hnone := List.findSome?_eq_none_iff.mp h.member _ hmem
  rw [heldBy] at hnone
  rw [hnone] at hb
  cases hb

theorem override? (h : s.Inert x) : s.override? (s.classOf x) "__get__" = none := by
  have hm := h.member
  cases hc : s.classOf x with
  | builtin b => rfl
  | defined r =>
    rw [hc] at hm
    refine List.findSome?_eq_none_iff.mpr fun c hmem => ?_
    have hnone := List.findSome?_eq_none_iff.mp hm c hmem
    cases c with
    | builtin b => rfl
    | defined q => exact hnone

theorem isKind {b : BuiltinClass} (h : s.Inert x) (hb : b ∈ [.function,.wrapper,.classWrapper]) :
    isKind m x b s = .ok false s := by
  have hno : .builtin b ∉ s.line (s.classOf x) := h.not_mem (by
    simp only [List.mem_cons,List.not_mem_nil,or_false] at hb
    rcases hb with rfl | rfl | rfl <;> decide)
  rw [CallContracts.isKind,isInstance_native h.honest]
  simp only [List.mem_cons,List.not_mem_nil,or_false] at hb
  rcases hb with rfl | rfl | rfl <;> simp [isSubclass,comesFrom,hno]

/-- Functions of the library that have no way of binding give themselves. -/
theorem bindOperation {o : Operation} (h : o.ownClass.line.findSome? (·.ownMember? "__get__") = none)
    (inst : Option Value) : bindOperation m o inst owner s = .ok (.operation o) s := by
  have hclass : ∀ b ∈ [BuiltinClass.builtinFunction,.method,.memberDescriptor,.getterDescriptor,.function,
      .methodDescriptor,.slotWrapper,.classMethodDescriptor,.property],
      b.line.findSome? (·.ownMember? "__get__") = none → b = .builtinFunction ∨ b = .method := by decide
  have hown := hclass o.ownClass (by
    cases o with
    | member c n sort => cases sort <;> simp [Operation.ownClass]
    | placeOf r n sort => cases sort <;> simp [Operation.ownClass]
    | _ => simp [Operation.ownClass]) h
  cases o with
  | member c n sort =>
    cases sort <;> simp [Operation.ownClass] at hown
    cases inst <;> rfl
  | placeOf r n sort => cases sort <;> simp [Operation.ownClass] at hown
  | length | absolute | fromEnvironment => cases inst <;> rfl
  | _ => simp [Operation.ownClass] at hown

/-- As a member of a class it stays what it is. -/
theorem bindMember (h : s.Inert x) : bindMember m x i owner s = .ok x s := by
  cases x with
  | operation o =>
    have hm := h.member
    rw [Store.classOf,classMember?_builtin] at hm
    exact bindOperation hm _
  | ref r =>
    cases hb : s.body? (.ref r) with
    | none => simp [CallContracts.bindMember,hb]
    | some b =>
      have hbinds := h.body b hb
      have hobject : bindObject m (.ref r) i owner s = .ok (.ref r) s := by simp [bindObject,h.member]
      cases b with
      | function _ | staticMethod _ | classMethod _ | property _ _ _ => cases hbinds
      | cls info => simp [CallContracts.bindMember,hb]
      | _ => simp only [CallContracts.bindMember,get_bind_apply,hb,hobject]
  | _ => rfl

theorem bindsProceed (h : s.Inert x) : Wrapper.bindsProceed m x s = .ok false s := by
  simp [Wrapper.bindsProceed,Wrapper.declaredBinder,h.override?,Store.binds,h.member,bind_apply,map_apply]

end Store.Inert

namespace Wrapper
variable {W : Store → Prop} {F : Frame} {M m : Machine} {s t u : Store} {D : Ref} {n : String}
  {x v w a owner : Value} {as : List Value} {H : Ref → Prop}

/-- A callable that stays inert whatever happens to the stores that are kept or in which the member of the class is
written. -/
structure Steady (W : Store → Prop) (F : Frame) (D : Ref) (n : String) (x : Value) : Prop where
  inert : ∀ t, W t → t.Inert x
  told : ∀ t, W t → Told t x
  keep : ∀ t u, W t → t.Keeps F u → W u
  wrote : ∀ t u y, W t → t.Wrote D n y u → W u

theorem Steady.grows (h : Steady W F D n x) (hs : W s) (ht : s.Grows t) : W t :=
  h.keep s t hs (Store.Keeps.of_grows ht)

/-- A bound function is inert. -/
theorem steady_method {f i : Value} {g : Function} (hF : F.Covers) (hf : s.IsFunction f g) (hm : s.IsMethod x f i) :
    Steady (s.Keeps .callables ·) F D n x := by
  refine ⟨fun t ht => ?_,fun t ht => told_routed (.bound (hf.keep ht) (hm.keep ht)),
    fun t u ht hu => ht.trans (hF.keeps hu),fun t u y ht hu => ht.trans hu.callables⟩
  have hm' := hm.keep ht
  refine .of_builtin hm'.cls (by decide) (fun b hb => ?_) (by decide)
  obtain rfl : b = .bound f i := by simpa [hm'.body] using hb.symm
  rfl

/-- The first wrapper around what does not bind is what an instance and a class give. -/
theorem grounded_inert {b : Value} (hsteady : Steady W F D n x) (ho : owner ≠ .absent) :
    Grounded (fun t => W t ∧ t.Wraps .wrapper b x a) owner x (fun _ => []) b [a] := by
  have binds (m : Machine) (t : Store) (i : Value) (ht : W t ∧ t.Wraps .wrapper b x a) :
      bind m b i owner t = .ok b t := by
    rw [bind,bind_ok (fieldOf_own ht.2.classOf ht.2.proceed),bind_ok (hsteady.inert t ht.1).bindsProceed]
    rfl
  refine ⟨fun t u ht hu => ⟨hsteady.grows ht.1 hu,ht.2.grows hu⟩,ho,fun t ht => (hsteady.inert t ht.1).callable,
    fun t ht => .advised ht.2 .original,fun t ht => told_wrapper (by simp) ht.2,fun m t ht => ?_,
    fun m t ht => ?_,fun m t i ht hi => ?_⟩
  · rw [bindsProceed_builtin ht.2.classOf]
    rfl
  · rw [bindProceed_builtin ht.2.classOf (Or.inr ho),bind_next ht.2,binds m t _ ht]
  · refine ⟨b,t,?_,Store.Keeps.refl _ t,.advised ht.2 .original,told_wrapper (by simp) ht.2⟩
    rw [bindProceed_builtin ht.2.classOf (Or.inl hi),bind_next ht.2,binds _ t i ht]

/-- What does not bind is wrapped as it is read, and a wrapper as it is stored. -/
theorem install_inert (h : s.Branch n H D) (hn : n ∉ specialNames) (hsteady : Steady W F D n x) (hs : W s)
    (hv : s.classMember? (.defined D) n = some v) (hstack : s.Stacked x [] v as) (a : Value) :
    ∃ w t, install M.next.next (.ref D) (.str n) a s = .ok w t ∧ s.Wrote D n w t ∧
      t.Stacked x [] w (a :: as) := by
  have hstored : storedMember s (.defined D) n = some v := by simp [storedMember,hv]
  have htold : Told s v := by
    cases hstack with
    | original => exact hsteady.told s hs
    | advised hw _ => exact told_wrapper (by simp) hw
  obtain ⟨w,u,hw,hg,hr,-⟩ := quiet_aroundStack (M := M) hstack htold a
  have hwrap : wrapMember M.next.next (.ref D) (.defined D) n a s
      = (M.next.next.write (.ref D) n w >>= fun _ => pure w) u := by
    cases hstack with
    | advised hw' _ => exact wrapMember_later hstored hw'.classOf hw'.body? (Or.inr rfl) (by simp) hw
    | original =>
      have hinert := hsteady.inert s hs
      have hread : M.next.next.read (.ref D) n s = .ok x s := by
        rcases read_class h hn hv M.next with hr | ⟨q,t,hr,-⟩
        · rw [hr,hinert.bindMember]
        · cases hinert.bindMember.symm.trans hr
      have hlater : bindsLater M.next.next x s = .ok false s := by
        rw [bindsLater,bind_ok (hinert.isKind (by simp))]
        exact hinert.isKind (by simp)
      have hbody (f : Value) : s.body? x ≠ some (.staticMethod f) ∧ s.body? x ≠ some (.classMethod f) :=
        ⟨fun hb => Bool.noConfusion (hinert.body _ hb),fun hb => Bool.noConfusion (hinert.body _ hb)⟩
      rw [wrapMember_raw hstored hbody,wrapRaw,bind_ok (hinert.isKind (by simp))]
      simp only [Bool.false_eq_true,if_false]
      rw [bind_ok hlater]
      simp only [Bool.false_eq_true,if_false]
      rw [bind_ok hread]
      exact bind_ok hw
  obtain ⟨t,ht,hwrote,hwrote'⟩ := install_class h hn a hg hwrap
  exact ⟨w,t,ht,hwrote,hr.keep hwrote'.callables⟩

/-- Every wrapper goes around what was there before. -/
theorem installAll_inert (h : s.Branch n H D) (hH : H D) (hn : n ∉ specialNames) (hsteady : Steady W F D n x)
    (hs : W s) (hv : s.classMember? (.defined D) n = some v) (hstack : s.Stacked x [] v as) (bs : List Value) :
    ∃ t w, installAll M.next.next n (bs.map (D,·)) s = .ok () t ∧ s.Keeps (.but D) t ∧ s.Keeps (.members n) t ∧
      W t ∧ t.Branch n H D ∧
      t.classMember? (.defined D) n = some w ∧ t.Stacked x [] w (bs.reverse ++ as) := by
  induction bs generalizing s v as with
  | nil => exact ⟨s,v,rfl,Store.Keeps.refl _ s,Store.Keeps.refl _ s,hs,h,hv,hstack⟩
  | cons b bs ih =>
    obtain ⟨w,u,hu,hwrote,hstack'⟩ := install_inert (M := M) h hn hsteady hs hv hstack b
    have hbranch := h.wrote hn (Or.inl hH) hwrote
    obtain ⟨t,y,ht,hothers,hkeep,hW,hbranch',hy,hstack''⟩ := ih hbranch (hsteady.wrote s u w hs hwrote)
      (hbranch.classMember?_own hwrote.here) hstack'
    refine ⟨t,y,?_,hwrote.others.trans hothers,hwrote.members.trans hkeep,hW,hbranch',hy,?_⟩
    · rw [List.map_cons,installAll,bind_ok hu,ht]
    · simpa using hstack''

/-- The innermost wrapper of a stack. -/
theorem exists_innermost {b : Value} (h : s.Stacked x [] w (as ++ [b])) :
    ∃ p, s.Stacked p [] w as ∧ s.Wraps .wrapper p x b := by
  induction as generalizing w with
  | nil =>
    cases h with
    | advised hw hp =>
      cases hp with
      | original => exact ⟨w,.original,hw⟩
  | cons a as ih =>
    cases h with
    | advised hw hp =>
      obtain ⟨p,hstack,hb⟩ := ih hp
      exact ⟨p,.advised hw hstack,hb⟩

theorem wraps_of_stacked {p b : Value} (h : s.Stacked p [] w as) (hp : s.Wraps .wrapper p x b) :
    ∃ q a, s.Wraps .wrapper w q a := by
  cases h with
  | original => exact ⟨_,_,hp⟩
  | advised hw _ => exact ⟨_,_,hw⟩

/-- What is read from a class relays what the trail through the wrappers but for the innermost says. -/
theorem relays_readInert {k : Value → Nat} {p b : Value} {d : Nat} (h : s.Branch n H D) (hn : n ∉ specialNames)
    (hsteady : Steady W F D n x) (hs : W s) (hF : F.Covers) (hw : s.classMember? (.defined D) n = some w)
    (hstack : s.Stacked p [] w as) (hp : s.Wraps .wrapper p x b)
    (hforwards : ∀ a ∈ as ++ [b], ∀ t, W t → t.Forwards F (k a) a) (hd : cost k (as ++ [b]) + 3 ≤ d) :
    ∃ c u, (Machine.next^[d] M).read (.ref D) n s = .ok c u ∧ ∀ args,
      Relays F M x (trail (fun _ => []) [b] as args).2 (trail (fun _ => []) [b] as args).1 u
        ((Machine.next^[d] M).call c args [] u) := by
  have hground : Grounded (fun t => W t ∧ t.Wraps .wrapper p x b) (.ref D) x (fun _ => []) p [b] :=
    grounded_inert hsteady (by simp)
  have hkeep (t u : Store) (ht : W t ∧ t.Wraps .wrapper p x b) (hu : t.Keeps F u) :
      W u ∧ u.Wraps .wrapper p x b :=
    ⟨hsteady.keep t u ht.1 hu,ht.2.keep_callables (by simp) (hF.keeps hu)⟩
  have forwards {u : Store} (hu : s.Grows u) : ∀ a ∈ as ++ [b], u.Forwards F (k a) a := fun a ha =>
    hforwards a ha u (hsteady.grows hs hu)
  obtain ⟨j,hj⟩ := Nat.exists_eq_add_of_le (show cost k (as ++ [b]) + 1 ≤ d by omega)
  obtain ⟨e,rfl⟩ := Nat.exists_eq_add_of_le' (show 3 ≤ d by omega)
  have read {m : Machine} {c : Value} {u : Store} (hc : m.next.bind w .absent (.ref D) s = .ok c u) :
      m.next.read (.ref D) n s = .ok c u := by
    rcases read_class h hn hw m with hread | ⟨f,z,hf,-⟩
    · exact hread.trans hc
    · cases hc.symm.trans hf
  cases hstack with
  | original =>
    refine ⟨w,s,?_,fun args => ?_⟩
    · rw [Function.iterate_succ_apply']
      refine read ?_
      rw [← bindProceed_builtin hp.classOf (Or.inr hground.named)]
      exact hground.unbound _ s ⟨hs,hp⟩
    · rw [hj]
      have hstacked : s.Stacked x [] w [b] := .advised hp .original
      have hrelays : Relays F M x (some ([] ++ args)) (allSee [b] args) s _ := relays_stacked hF hstacked
        (fun z hz => (hsteady.inert z (hsteady.keep s z hs hz)).callable) (forwards (Store.Keeps.refl _ s)) j
      exact hrelays
  | advised hw' hp' =>
    obtain ⟨c,u,hc,hg,hwaits,-⟩ := quiet_unbound (M := Machine.next^[e] M) hground ⟨hs,hp⟩ hw' hp'
      (told_stacked hground ⟨hs,hp⟩ hp')
    refine ⟨c,u,?_,fun args => ?_⟩
    · rw [iterate_three]
      exact read hc
    · rw [hj]
      exact relays_waits hF hground hkeep ⟨hsteady.grows hs hg,hp.grows hg⟩ hwaits (forwards hg) args j

/-- Wrap a member of a class over and over that is a callable without a way of binding.  A call of what is then
read from an instance runs all advices and then the callable, with all arguments; so does a call of what is read
from the class, if there is only one wrapper.  Under more of them each but the first installed one waits for an
instance, and what it takes for it is lost. -/
theorem calls_of_inert {k : Value → Nat} {b : Value} {bs : List Value} {d : Nat} (h : s.Branch n H D) (hH : H D)
    (hn : n ∉ specialNames) (hx : s.classMember? (.defined D) n = some x) (hsteady : Steady W F D n x) (hs : W s)
    (hF : F.Covers) (hforwards : ∀ a ∈ b :: bs, ∀ t, W t → t.Forwards F (k a) a)
    (hd : cost k (b :: bs) + 3 ≤ d) :
    ∃ t, installAll (Machine.next^[d] M) n ((b :: bs).map (D,·)) s = .ok () t ∧ s.Keeps (.but D) t ∧
      s.Keeps (.members n) t ∧
      (∀ r, t.Leaf H r D → t.attr? (.ref r) n = none → ∃ c u,
        (Machine.next^[d] M).read (.ref r) n t = .ok c u ∧ ∀ args,
          Relays F M x (some args) (allSee (bs.reverse ++ [b]) args) u ((Machine.next^[d] M).call c args [] u)) ∧
      (∃ c u, (Machine.next^[d] M).read (.ref D) n t = .ok c u ∧ ∀ args,
        Relays F M x (trail (fun _ => []) [b] bs.reverse args).2 (trail (fun _ => []) [b] bs.reverse args).1 u
          ((Machine.next^[d] M).call c args [] u)) ∧
      ∀ args, (trail (fun _ => []) [b] bs.reverse args).2 = some args ↔ bs = [] := by
  obtain ⟨e,rfl⟩ := Nat.exists_eq_add_of_le' (show 2 ≤ d by omega)
  obtain ⟨t,w,ht,hothers,hkeep,hW,hbranch,hw,hstack⟩ := installAll_inert (M := Machine.next^[e] M) h hH hn hsteady hs hx
    .original (b :: bs)
  rw [← iterate_two] at ht
  rw [List.append_nil,List.reverse_cons] at hstack
  obtain ⟨p,hstack,hp⟩ := exists_innermost hstack
  have hground : Grounded (fun t => W t ∧ t.Wraps .wrapper p x b) (.ref D) x (fun _ => []) p [b] :=
    grounded_inert hsteady (by simp)
  have hcost : cost k (bs.reverse ++ [b]) = cost k (b :: bs) := by
    rw [cost_append,cost_reverse,cost_cons,cost_cons]
    simp [cost,Nat.add_comm]
  have hlength := length_le_cost k bs.reverse
  rw [cost_append] at hcost
  obtain ⟨q,a,hq⟩ := wraps_of_stacked hstack hp
  have callable {u z : Store} (hu : t.Grows u) (hz : u.Keeps F z) : z.isCallable x = true :=
    (hsteady.inert z (hsteady.keep u z (hsteady.grows hW hu) hz)).callable
  have forwards {u : Store} (hu : t.Grows u) : ∀ a ∈ bs.reverse ++ [b], u.Forwards F (k a) a := fun a ha =>
    hforwards a (by simpa [or_comm] using ha) u (hsteady.grows hW hu)
  obtain ⟨j,hj⟩ := Nat.exists_eq_add_of_le (show cost k (bs.reverse ++ [b]) + 1 ≤ e + 2 by
    rw [cost_append]
    omega)
  refine ⟨t,ht,hothers,hkeep,fun r hr hattr => ?_,?_,fun args => got_inert.trans List.reverse_eq_nil_iff⟩
  · obtain ⟨N,hN⟩ := iterate_of_le (M := M) (show bs.reverse.length + 2 ≤ e + 2 by omega)
    obtain ⟨c,u,hc,hg,hr',-⟩ := quiet_bindProceed (M := N) hground ⟨hW,hp⟩ hstack
      (show Value.ref r ≠ .absent by simp)
    have hdata : t.isDataMember w = false := by
      obtain ⟨o,-,rfl,-⟩ := hq.place
      have hA : t.isA (.ref o) .property = false := by
        rw [Store.isA_builtin hq.classOf]
        decide
      simp [Store.isDataMember,hA,hq.classOf]
    have hread := read_instance hr hw hdata hattr (Machine.next^[bs.reverse.length + 1] N)
    rw [bindProceed_builtin hq.classOf (Or.inl (by simp)),Function.iterate_succ_apply'] at hc
    refine ⟨c,u,?_,fun args => ?_⟩
    · rw [hN,Function.iterate_succ_apply']
      rcases hread with hread | ⟨f,z,hf,-⟩
      · exact hread.trans hc
      · cases hc.symm.trans hf
    · rw [hj]
      have hrelays : Relays F M x (some ([] ++ args)) _ u _ :=
        relays_stacked hF hr' (fun z hz => callable hg hz) (forwards hg) j
      exact hrelays
  · exact relays_readInert hbranch hn hsteady hW hF hw hstack hp
      (fun a ha => hforwards a (by simpa [or_comm] using ha)) (by rw [cost_append]; omega)

/-- A function that is bound already, a class whose member that is, and an instance. -/
def holder : Store :=
  { hierarchy with heap := hierarchy.heap ++ #[
    { cls := .builtin .method, body := .bound (.ref 33) (.int 7) },
    { cls := .builtin .type, body := .cls ⟨"E","E",.builtin .root,[],true⟩, attrs := some [("m",.ref 38)] },
    { cls := .defined 39, body := .plain, attrs := some [] }] }

theorem holder_branch : holder.Branch "m" (· = 39) 39 := by
  have hE : holder.line (.defined 39) = [.defined 39,.builtin .root,.builtin .object] := by decide +kernel
  have htype : .builtin .type ∈ holder.line (holder.classOf (.ref 39)) := by decide +kernel
  refine ⟨⟨.root,by simp [hE]⟩,by simp [hE],⟨_,rfl,rfl,rfl⟩,⟨.type,htype⟩,htype,fun q hq => ?_,fun k _ => rfl⟩
  have hq : .defined q ∈ holder.line (.builtin .type) := hq
  simp [Store.line_builtin] at hq

/-- The instance passes the argument on through both wrappers, and the class loses it. -/
theorem calls_of_inert_holder : holder.Branch "m" (· = 39) 39 ∧
    ∃ t, installAll (Machine.next^[9] Machine.halted) "m" [(39,.ref 34),(39,.ref 34)] holder = .ok () t ∧
      (∃ c u, (Machine.next^[9] Machine.halted).read (.ref 40) "m" t = .ok c u ∧
        Relays .callables Machine.halted (.ref 38) (some [.int 5]) [(.ref 34,[.int 5]),(.ref 34,[.int 5])] u
          ((Machine.next^[9] Machine.halted).call c [.int 5] [] u)) ∧
      ∃ c u, (Machine.next^[9] Machine.halted).read (.ref 39) "m" t = .ok c u ∧
        Relays .callables Machine.halted (.ref 38) (some []) [(.ref 34,[]),(.ref 34,[])] u
          ((Machine.next^[9] Machine.halted).call c [.int 5] [] u) := by
  have hn : "m" ∉ specialNames := by decide
  have hsteady : Steady (holder.Keeps .callables ·) .callables 39 "m" (.ref 38) :=
    steady_method (f := .ref 33) (i := .int 7) (g := _) Frame.covers_callables ⟨rfl,rfl⟩ ⟨rfl,rfl⟩
  have hforwards : ∀ a ∈ [Value.ref 34,.ref 34], ∀ t, holder.Keeps .callables t → t.Forwards .callables 0 a := by
    intro a ha t ht
    obtain rfl : a = .ref 34 := by simpa using ha
    exact (forwards_forwarding (g := ⟨"forward","forward",.str "m",.absent,.closure forwarding⟩) ⟨rfl,rfl⟩ rfl
      Frame.covers_callables).keep ht
  obtain ⟨t,ht,hothers,hmembers,hinstance,⟨c,u,hc,hcall⟩,-⟩ := calls_of_inert (M := Machine.halted) (d := 9)
    holder_branch rfl hn (show holder.classMember? (.defined 39) "m" = some (.ref 38) by decide +kernel) hsteady
    (Store.Keeps.refl _ holder) Frame.covers_callables hforwards (by decide)
  have hleaf : holder.Leaf (· = 39) 40 39 := ⟨rfl,rfl,rfl,⟨_,rfl,rfl⟩,by decide +kernel⟩
  obtain ⟨c',u',hc',hcall'⟩ := hinstance 40 (hleaf.keep holder_branch hn hmembers) (by
    rw [hothers.attr? (r := 40) rfl (by simp [Frame.but]) rfl (by decide)]
    rfl)
  exact ⟨holder_branch,t,ht,⟨c',u',hc',hcall' [.int 5]⟩,c,u,hc,hcall [.int 5]⟩

/-- A class with a function of the host as a member, and an advice that forwards. -/
def measuring : Act (Value × Value) := do
  let c ← (Expr.classDef "C" [("n",.builtin "len")] []).eval Machine.full []
  let advice ← newFunction "forward" none forwarding
  return (c,advice)

/-- Under two advices the function of the host does not get its argument through the class. -/
theorem fails_measuring :
    returned (measuring >>= fun p => do
      let _ ← install Machine.full p.1 (.str "n") p.2
      callMember Machine.full p.1 "n" [.str "abc"]) Store.initial = some (.int 3) ∧
    raises (measuring >>= fun p => do
      let _ ← install Machine.full p.1 (.str "n") p.2
      let _ ← install Machine.full p.1 (.str "n") p.2
      callMember Machine.full p.1 "n" [.str "abc"]) Store.initial = true := by decide +kernel

end Wrapper
end CallContracts
