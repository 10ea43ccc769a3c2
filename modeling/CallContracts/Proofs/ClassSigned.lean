import CallContracts.Proofs.Decorated
/-! Class methods over a signed function.  A class method binds the wrapper that it holds, so that the check sees the
explicit arguments.  Once a signature is attached, the wrapper that takes its place binds the class by itself: the
new check sees the explicit arguments, and the old one the class as well. -/
namespace CallContracts
open Act

namespace Store
variable {s t : Store} {f w x k k' sig sig' : Value} {cs cs' : List Contract}

/-- A wrapper of a function, whose advice is a check. -/
structure Checked (s : Store) (w f sig : Value) (cs : List Contract) : Prop where
  wraps : ∃ k name, s.Wraps .wrapper w f k ∧ s.Checks k sig (.str name) cs
  function : ∃ g, s.IsFunction f g

theorem Checked.keep (h : s.Checked w f sig cs) (ht : s.Keeps .guards t) : t.Checked w f sig cs := by
  obtain ⟨⟨k,name,hw,hk⟩,g,hf⟩ := h
  exact ⟨⟨k,name,hw.keep_callables (by simp) ht.layers.callables,Signature.checks_library hk ht.library⟩,g,
    hf.keep ht.layers.callables⟩

/-- A wrapper in place of a class method, whose advice is a check. -/
def Replaces (s : Store) (x w sig : Value) (cs : List Contract) : Prop :=
  ∃ k name, s.Wraps .classWrapper x w k ∧ s.Checks k sig (.str name) cs

theorem Replaces.keep (h : s.Replaces x w sig cs) (ht : s.Keeps .guards t) : t.Replaces x w sig cs := by
  obtain ⟨k,name,hw,hk⟩ := h
  exact ⟨k,name,hw.keep_callables (by simp) ht.layers.callables,Signature.checks_library hk ht.library⟩

end Store

namespace Wrapper
variable {M : Machine} {s : Store} {f w x k i sig sig' owner : Value} {cs cs' : List Contract}

/-- What is bound to a wrapper tells its titles. -/
theorem told_boundWrapper {v p a : Value} (hw : s.Wraps .wrapper w p a) (h : s.IsMethod v w i) : Told s v := by
  intro N
  have later {t : Store} (ht : s.Grows t) : t.IsMethod v w i := h.keep (Store.Keeps.of_grows ht)
  refine ⟨fun n hn t ht => calm_readBound (calm_readWrapper (by simp) (hw.grows ht) hn) (later ht) hn,
    fun t ht => calm_table (later ht).body (later ht).cls⟩

/-- A class method hands the class down below the wrapper that it holds. -/
theorem quiet_bindClassMethod (hx : s.IsClassMethod x w) (h : s.Checked w f sig cs) (ho : owner ≠ .absent) (i : Value) :
    ((Machine.next^[4] M).bind x i owner).Quiet (fun v t => ∃ k name p, t.Wraps .wrapper v p k ∧
      t.Checks k sig (.str name) cs ∧ t.Stacked f [owner] p []) s := by
  obtain ⟨⟨k,name,hw,hk⟩,g,hf⟩ := h
  obtain ⟨c,t,hc,hg,q,hw',hq⟩ := quiet_bindWrapper (M := M) hw (.function hf) ho ho
  refine ⟨c,t,?_,hg,k,name,q,hw',hk.grows hg,?_⟩
  · obtain ⟨r,rfl⟩ := Store.ref_of_body hx.body
    have hbinds : s.binds w = true := by
      rw [Store.binds,hw.classOf,Store.classMember?_builtin]
      decide
    change bindMember (Machine.next^[3] M) (.ref r) i owner s = _
    simp only [bindMember,get_bind_apply,hx.body,bindClassMethod,ho,if_false,hbinds,if_true]
    exact hc
  · simpa [Receives.lead,Receives.explicit,ho] using hq

/-- The wrapper that took its place binds the class to what it wraps. -/
theorem quiet_bindReplaced (hx : s.Replaces x w sig' cs') (h : s.Checked w f sig cs) (ho : owner ≠ .absent) (i : Value) :
    ((Machine.next^[3] M).bind x i owner).Quiet (fun v t => ∃ k name p, t.Wraps .wrapper v p k ∧
      t.Checks k sig' (.str name) cs' ∧ t.Stacked w [owner] p []) s := by
  obtain ⟨k,name,hx,hk⟩ := hx
  obtain ⟨⟨_,_,hw,-⟩,-⟩ := h
  obtain ⟨_,t,ht,hg,rfl,hp⟩ := quiet_alloc { cls := .builtin .method, body := .bound w owner } s
  have hmethod : t.IsMethod (.ref s.heap.size) w owner := ⟨Store.classOf_of_get? hp,Store.body?_of_get? hp⟩
  obtain ⟨v,u,hv,hg',hv',-⟩ := quiet_make (m := M.next.next) (c := .wrapper) (a := k) (e := []) (fun y hy => hy)
    (told_boundWrapper (hw.grows hg) hmethod M) (Or.inl rfl)
  refine ⟨v,u,?_,hg.trans hg',k,name,_,hv',(hk.grows hg).grows hg',(Store.Stacked.bound hmethod).grows hg'⟩
  have hcall : s.isCallable w = true := by
    rw [Store.isCallable_builtin hw.classOf]
    decide
  have hbound : boundMethod w owner s = .ok (.ref s.heap.size) t := by simp [boundMethod,hcall,ho,← ht]
  have hkind : isKind M.next.next w .classWrapper s = .ok false s := isKind_builtin hw.classOf (by decide)
  have hx' := hx.grows hg
  change M.next.next.next.bind x i owner s = _
  rw [bind_nextClass hx,bindClass,get_bind_apply]
  simp only [ho,if_false]
  rw [bind_ok (fieldOf_own hx.classOf hx.proceed),bind_ok hkind]
  simp only [Bool.false_eq_true,if_false]
  rw [bind_ok hbound,bind_ok (fieldOf_own hx'.classOf hx'.advice)]
  exact hv

end Wrapper
namespace Signature
variable {M : Machine} {s t : Store} {H : Ref → Prop} {d D : Ref} {n : String} {f w x k sig sig' e e' owner target : Value}
  {cs cs' : List Contract} {p p' : Parts} {a : Access} {lead args : List Value} {b b' : Bool}
  {y : EStateM.Result Stop Store Value}

theorem Settled.lift (h : Settled (s.Grows ·) M sig cs p e) (l : Nat) :
    Settled (s.Grows ·) (Machine.next^[l] M) sig cs p e :=
  ⟨fun j => iterate_add (M := M) j l ▸ h.layer (j+l),fun j => by
    rw [← iterate_add,Nat.add_right_comm]
    exact h.input (j+l)⟩

theorem Decides.lift (h : Decides M s cs args b) (l : Nat) : Decides (Machine.next^[l] M) s cs args b :=
  ⟨fun j t ht => by
    rw [← iterate_add,Nat.add_right_comm]
    exact h.takes (j+l) t ht,fun hb j t v ht hv => by
    rw [← iterate_add,Nat.add_right_comm]
    exact h.shown hb (j+l) t v ht hv⟩

/-- A call that is guarded with so many levels below is guarded. -/
theorem Guarded.lower {l : Nat} (h : Guarded (Machine.next^[l] M) sig cs f lead args s y) :
    Guarded M sig cs f lead args s y := by
  cases h with
  | @enforced j k p z n name t ht hk hp hh =>
    rw [← iterate_add,Nat.add_right_comm]
    exact .enforced ht hk hp hh

/-- A member that is bound under a wrapper whose advice is a check guards its calls. -/
theorem guarded_found {j : Nat} (hx : s.Found n x a target) (hdata : s.isDataMember x = false) (hn : n ∉ specialNames)
    (hbind : ∀ i, ((Machine.next^[j+3] M).bind x i (s.ownerOf target a)).Quiet (fun v t => ∃ k name p,
      t.Wraps .wrapper v p k ∧ t.Checks k sig (.str name) cs ∧ t.Stacked f lead p []) s) (args : List Value) :
    Guarded M sig cs f lead args s (Wrapper.callMember (Machine.next^[j+3] M) target n args s) := by
  obtain ⟨i,-,-,hread⟩ := hx.read hn hdata
  have hread' : (Machine.next^[j+3] M).read target n s = (Machine.next^[j+3] M).bind x i (s.ownerOf target a) s ∨
      Wrapper.Missing ((Machine.next^[j+3] M).bind x i (s.ownerOf target a) s) := by
    rw [Function.iterate_succ_apply']
    exact hread _
  obtain ⟨v,t,hv,hg,k,name,q,hw,hk,hq⟩ := Wrapper.quiet_of_or (hbind i) hread'
  rw [Wrapper.callMember,bind_ok hv]
  exact (guarded_wrapper hw (Or.inl rfl) hk hq args).after hg

/-- How a call ends that goes through two checks, the inner one of which sees the class as well: the outer one
refuses the arguments, or the inner one refuses them with the class, or `f` is called once with all of them. -/
inductive Through (M : Machine) (sig sig' : Value) (cs cs' : List Contract) (f e e' owner : Value) (args : List Value)
    (s : Store) : Bool → Bool → EStateM.Result Stop Store Value → Prop where
  | refused {r : Blame} {b : Bool} {u : Store} : s.Grows u → r.expected = e' → u.IsTuple r.value args →
      Through M sig sig' cs cs' f e e' owner args s false b (.error (.raised (.input r)) u)
  | rejected {r : Blame} {u : Store} : s.Grows u → r.expected = e → u.IsTuple r.value (owner :: args) →
      Through M sig sig' cs cs' f e e' owner args s true false (.error (.raised (.input r)) u)
  | called {i j j' : Nat} {k k' : Value} {name name' : String} {t u : Store} : s.Grows t → t.Grows u →
      t.Checks k' sig' (.str name') cs' → u.Checks k sig (.str name) cs →
      Through M sig sig' cs cs' f e e' owner args s true true
        (finish (Machine.next^[j'+1] M) k' (fun _ =>
          finish (Machine.next^[j+1] M) k ((Machine.next^[i] M).call f (owner :: args) []) u) t)

/-- What is called behind the outer check is guarded in its turn. -/
theorem through_of_guarded (h : Guarded (Machine.next^[3] M) sig' cs' w [owner] args s y) (hw : s.Checked w f sig cs)
    (hsig : Settled (s.Grows ·) M sig cs p e) (hsig' : Settled (s.Grows ·) M sig' cs' p' e')
    (hb : Decides M s cs (owner :: args) b) (hb' : Decides M s cs' args b') :
    Through M sig sig' cs cs' f e e' owner args s b' b y := by
  cases h.concludes (hsig'.lift 3) (hb'.lift 3) with
  | refused hu hr hv => exact .refused hu hr hv
  | @called i j k' name' t ht hk' =>
    obtain ⟨⟨k,name,hwraps,hk⟩,g,hf⟩ := hw
    have hinner : Guarded M sig cs f [] (owner :: args) t ((Machine.next^[i+3] M).call w (owner :: args) [] t) :=
      guarded_wrapper (hwraps.grows ht) (Or.inl rfl) (hk.grows ht) .original (owner :: args)
    rw [← iterate_add,← iterate_add,Nat.add_right_comm]
    have hend := hinner.concludes (hsig.mono fun u hu => ht.trans hu) (hb.grows ht)
    have hcall : finish (Machine.next^[j+3+1] M) k' ((Machine.next^[i+3] M).call w ([owner] ++ args) []) t
        = finish (Machine.next^[j+3+1] M) k' (fun _ => (Machine.next^[i+3] M).call w (owner :: args) [] t) t := rfl
    rw [hcall]
    generalize (Machine.next^[i+3] M).call w (owner :: args) [] t = r at hend
    cases hend with
    | @refused b u hu hr hv =>
      have herror : finish (Machine.next^[j+3+1] M) k' (fun _ => .error (.raised (.input b)) u) t
          = .error (.raised (.input b)) u := rfl
      rw [herror]
      exact .rejected (ht.trans hu) hr hv
    | called hu hk => exact .called ht hu hk' hk

/-- A class that holds a class method of a wrapper whose advice checks a signature, and a map that has another
signature for it under the name of the member, or the same one. -/
structure SignedClassMethod (M : Machine) (s : Store) (H : Ref → Prop) (d D : Ref) (n : String) (x w f : Value)
    (sig : Value) (cs : List Contract) (p : Parts) (e : Value)
    (sig' : Value) (cs' : List Contract) (p' : Parts) (e' : Value) : Prop where
  standard : s.HasStandard
  map : s.IsMap d [(.str n,sig')]
  branch : s.Branch n H D
  name : n ∉ specialNames
  member : s.classMember? (.defined D) n = some x
  classMethod : s.IsClassMethod x w
  checked : s.Checked w f sig cs
  settled : Settled (s.Keeps .library ·) M sig cs p e
  settled' : Settled (s.Keeps .library ·) M sig' cs' p' e'
  described : ∃ c x, s.contract? sig' = some c ∧ c.description = .str x

namespace SignedClassMethod
variable (h : SignedClassMethod M s H d D n x w f sig cs p e sig' cs' p' e')
include h

theorem grown (ht : s.Grows t) : t.Branch n H D ∧ t.classMember? (.defined D) n = some x ∧ t.IsClassMethod x w ∧
    t.Checked w f sig cs := by
  refine ⟨h.branch.grows h.name ht,?_,h.classMethod.keep (Store.Keeps.of_grows ht),
    h.checked.keep (Store.Keeps.of_grows ht)⟩
  rw [h.branch.lined.classMember?_grows ht ?_,h.member]
  rintro rfl
  exact h.name (by decide)

/-- The member is signed with the signature of the wrapper that the class method holds. -/
theorem single (k : Nat) : Single (Machine.next^[k+4] M) s H d D n sig' cs' p' (decide (sig = sig')) := by
  refine ⟨h.standard,h.map,h.branch,h.name,(h.settled'.layer 0).signature s (Store.Keeps.refl _ s),h.described,
    fun t ht => ?_⟩
  obtain ⟨hD,hx,hclass,hw⟩ := h.grown ht
  have hbind := Wrapper.quiet_bindClassMethod (M := Machine.next^[k] M) hclass hw
    (show Value.ref D ≠ .absent by simp) .absent
  rw [← iterate_add,Nat.add_comm 4 k] at hbind
  have hread : (Machine.next^[k+4] M).read (.ref D) n t = (Machine.next^[k+4] M).bind x .absent (.ref D) t ∨
      Wrapper.Missing ((Machine.next^[k+4] M).bind x .absent (.ref D) t) := by
    rw [Function.iterate_succ_apply']
    exact Wrapper.read_class hD h.name hx _
  refine (Wrapper.quiet_of_or hbind hread).imp fun v u _ hv => ?_
  obtain ⟨i,name,q,hv,hi,-⟩ := hv
  refine ⟨?_,gives_of_eq (isSignedWith_wrapper (by simp [wrapperClasses]) hv ⟨?_,hi.signature⟩)⟩
  · rw [Store.isCallable_builtin hv.classOf]
    decide
  · obtain ⟨r,o,hr,ho,hcls,-,htable⟩ := hi.place
    exact ⟨r,o,hr,ho,hcls,htable⟩

/-- Attaching another signature puts a wrapper in the place of the class method. -/
theorem attach_replaces (hne : sig ≠ sig') (k : Nat) :
    ∃ y t, attach (Machine.next^[k+4] M) (.ref d) (.ref D) s = .ok (.ref D) t ∧ s.Keeps .guards t ∧
      s.Keeps (.members n) t ∧ t.Branch n H D ∧ t.attr? (.ref D) n = some y ∧ t.Replaces y w sig' cs' := by
  have hlayer : Layer (s.Grows ·) (Machine.next^[k+3] M) sig' cs' p' :=
    (h.settled'.layer (k+3)).mono fun t ht => Store.Keeps.of_grows ht
  have hsingle := h.single k
  rw [decide_eq_false hne] at hsingle
  rw [Function.iterate_succ_apply'] at hlayer
  rw [Wrapper.iterate_two] at hsingle ⊢
  refine attach_installs hsingle hlayer.parts (fun i t ht hi => ?_) fun y t t' hy ht => hy.keep ht
  obtain ⟨-,hx,hclass,⟨⟨_,_,hw,-⟩,-⟩⟩ := h.grown ht
  have hstored : Wrapper.storedMember t (.defined D) n = some x := by simp [Wrapper.storedMember,hx]
  obtain ⟨y,u,hy,hg,hwraps,-⟩ := Wrapper.quiet_make (m := (Machine.next^[k+2] M).next.next) (c := .classWrapper)
    (a := i) (e := []) (fun z hz => hz) (Wrapper.told_wrapper (by simp) hw (Machine.next^[k+2] M)) (Or.inl rfl)
  refine ⟨y,y,u,hg,⟨i,n,hwraps,hi.grows hg⟩,?_⟩
  rw [← Wrapper.ofClass] at hy
  simp only [Wrapper.wrapMember,hstored,ofOption_some,bind_apply,get_apply,hclass.body,hy]

/-- A call of the class method before: the check sees the explicit arguments, and the function gets the class before
them. -/
theorem guarded_before {z : Store} (hz : s.Keeps .guards z) (hx : z.Found n x a target) (args : List Value) (k : Nat) :
    Guarded M sig cs f [z.ownerOf target a] args z (Wrapper.callMember (Machine.next^[k+4] M) target n args z) := by
  have hclass := h.classMethod.keep hz.layers
  obtain ⟨r,rfl⟩ := Store.ref_of_body hclass.body
  have hdata : z.isDataMember (.ref r) = false := Store.isDataMember_builtin hclass.cls (by decide)
  obtain ⟨-,-,⟨E,howner⟩,-⟩ := hx.read h.name hdata
  refine guarded_found (j := k+1) hx hdata h.name (fun i => ?_) args
  have hbind := Wrapper.quiet_bindClassMethod (M := Machine.next^[k] M) hclass (h.checked.keep hz)
    (show z.ownerOf target a ≠ .absent by simp [howner]) i
  rwa [← iterate_add,Nat.add_comm 4 k] at hbind

/-- A call of what is in its place: the new check sees the explicit arguments, and what is behind it is called with
the class before them. -/
theorem guarded_after {z : Store} {v : Value} (hz : s.Keeps .guards z) (hv : z.Replaces v w sig' cs')
    (hx : z.Found n v a target) (args : List Value) (k : Nat) :
    Guarded (Machine.next^[k] M) sig' cs' w [z.ownerOf target a] args z
      (Wrapper.callMember (Machine.next^[k+3] M) target n args z) := by
  obtain ⟨i,name,hw,-⟩ := id hv
  obtain ⟨r,o,rfl,-⟩ := hw.place
  have hdata : z.isDataMember (.ref r) = false := Store.isDataMember_builtin hw.classOf (by decide)
  obtain ⟨-,-,⟨E,howner⟩,-⟩ := hx.read h.name hdata
  have hcall := guarded_found (M := Machine.next^[k] M) (j := 0) hx hdata h.name (fun i =>
    Wrapper.quiet_bindReplaced (M := Machine.next^[k] M) hv (h.checked.keep hz)
      (show z.ownerOf target a ≠ .absent by simp [howner]) i) args
  rwa [← iterate_add,Nat.add_comm] at hcall

end SignedClassMethod

/-- What fits has the right length, so that with the class in front it does not fit. -/
theorem Decides.unfit (h : Decides M s cs args true)
    (hshown : ∀ j t v, s.Grows t → t.IsTuple v (owner :: args) → (shortText (Machine.next^[j+1] M) v).Calm t) :
    Decides M s cs (owner :: args) false := by
  have hlength : args.length = cs.length := by
    by_contra hne
    obtain ⟨v,t,-,ht,hv⟩ := quiet_newTuple args s
    obtain ⟨u,hu,-⟩ := h.takes 0 t ht v hv
    obtain ⟨u',hu',-⟩ := takes_of_length (m := Machine.next^[0+1] M) hne v hv
    cases hu.symm.trans hu'
  exact ⟨fun j t ht => takes_of_length (by simp [hlength]),fun _ => hshown⟩

/-- A class method of a signed function keeps the class out of the checked arguments.  Attaching the signature that
it has changes nothing.  Attaching another one makes every call, from whichever class or instance the member is
found, go through two checks: the new one sees the explicit arguments and the old one the class as well, and the
function is called, once and with the class before the arguments, just when both fit.  So arguments that fit the old
signature never come to the function any more. -/
theorem calls_of_signedClassMethod (h : SignedClassMethod M s H d D n x w f sig cs p e sig' cs' p' e') (k : Nat) :
    (∀ z, s.Keeps .guards z → ∀ a target args, z.Found n x a target →
      Ended M sig cs f e z (some (args,[z.ownerOf target a]))
        (Wrapper.callMember (Machine.next^[k+6] M) target n args z)) ∧
    (sig = sig' → (attach (Machine.next^[k+6] M) (.ref d) (.ref D)).Gives (.ref D) s) ∧
    (sig ≠ sig' → ∃ y t, attach (Machine.next^[k+6] M) (.ref d) (.ref D) s = .ok (.ref D) t ∧
      s.Keeps (.members n) t ∧ t.Branch n H D ∧ t.attr? (.ref D) n = some y ∧
      ∀ z, t.Keeps .guards z → ∀ a target args, z.Found n y a target → ∀ b', Decides M z cs' args b' →
        (∀ b, Decides M z cs (z.ownerOf target a :: args) b →
          Through M sig sig' cs cs' f e e' (z.ownerOf target a) args z b' b
            (Wrapper.callMember (Machine.next^[k+6] M) target n args z)) ∧
        (Decides M z cs args true →
          (∀ j t v, z.Grows t → t.IsTuple v (z.ownerOf target a :: args) →
            (shortText (Machine.next^[j+1] M) v).Calm t) →
          Through M sig sig' cs cs' f e e' (z.ownerOf target a) args z b' false
            (Wrapper.callMember (Machine.next^[k+6] M) target n args z))) := by
  refine ⟨fun z hz a target args hx => ?_,fun heq => ?_,fun hne => ?_⟩
  · exact ended_of_passes (p := p) (h.guarded_before hz hx args (k+2)) <|
      h.settled.mono fun u hu => hz.library.trans (Store.Keeps.of_grows hu)
  · have hsingle := h.single (k+2)
    rw [decide_eq_true heq] at hsingle
    exact attach_signed hsingle
  · obtain ⟨y,t,ht,hguards,hmembers,hD,hy,hreplaces⟩ := h.attach_replaces hne (k+2)
    refine ⟨y,t,ht,hmembers,hD,hy,fun z hz a target args hx b' hb' => ?_⟩
    have hsz : s.Keeps .guards z := hguards.trans hz
    have grown (u : Store) (hu : z.Grows u) : s.Keeps .library u := hsz.library.trans (Store.Keeps.of_grows hu)
    have hguarded := h.guarded_after hsz (hreplaces.keep hz) hx args (k+3)
    rw [iterate_add] at hguarded
    have hthrough {b : Bool} (hb : Decides M z cs (z.ownerOf target a :: args) b) :
        Through M sig sig' cs cs' f e e' (z.ownerOf target a) args z b' b
          (Wrapper.callMember (Machine.next^[k+6] M) target n args z) :=
      through_of_guarded hguarded.lower (h.checked.keep hsz) (h.settled.mono grown) (h.settled'.mono grown) hb hb'
    exact ⟨fun b hb => hthrough hb,fun hfit hshown => hthrough (hfit.unfit hshown)⟩

/-- A class that holds a class method of a signed function which gives back its second argument, and another
signature for it. -/
def overSigned : Store :=
  { Store.initial with heap := Store.initial.heap ++ #[
    { cls := .builtin .function, attrs := some []
      body := .function ⟨"f","f",.str "m",.absent,
        .closure ⟨"f",[(.required "cls",none),(.required "x",none)],.variable "x",[]⟩⟩ },
    { cls := .builtin .contract
      body := .contract (.mk 34 (.str "any") (.product [Contract.anything])) (.operation .functionTest) none },
    { cls := .builtin .tuple, body := .tuple [.ref 1] },
    { cls := .builtin .signature
      body := .contract (.mk 36 (.str "any -> any") .function) (.operation .functionTest)
        (some ⟨.ref 35,.ref 1,.ref 1⟩) },
    { cls := .builtin .signature
      body := .contract (.mk 37 (.str "any -> any") .function) (.operation .functionTest)
        (some ⟨.ref 35,.ref 1,.ref 1⟩) },
    { cls := .builtin .signatureCheck, body := .plain
      attrs := some [("signature",.ref 36),("member",.str "f"),("_arguments",.ref 34)] },
    { cls := .builtin .wrapper, body := .plain
      attrs := some [("__wrapped__",.ref 33),("proceed",.ref 33),("advice",.ref 38)] },
    { cls := .builtin .classMethod, attrs := some [], body := .classMethod (.ref 39) },
    { cls := .builtin .type, body := .cls ⟨"C","C",.builtin .root,[],true⟩
      attrs := some [("__module__",.str "m"),("m",.ref 40)] },
    { cls := .builtin .dict, body := .table [(.str "m",.ref 37)] }] }

theorem overSigned_any : overSigned.IsContract Contract.anything := ⟨Or.inl rfl,rfl⟩

theorem overSigned_settled {v : Value} (hv : v = .ref 36 ∨ v = .ref 37) (M : Machine) :
    Settled (overSigned.Keeps .library ·) M v [Contract.anything] ⟨.ref 35,.ref 1,.ref 1⟩ (.str "any") := by
  have hspoken (m : Machine) : Described (overSigned.Keeps .library ·) m.next (.ref 1) (.str "any") :=
    (overSigned_any.stands (M := m) rfl).spoken
  refine ⟨fun j => ⟨fun t ht => ?_,fun c hc => ?_,.str "any",hspoken _⟩,fun j => ?_⟩
  · have hparams : overSigned.Holds .library (.ref 35) := Store.holds_ref rfl (List.mem_of_elem_eq_true rfl)
    rcases hv with rfl | rfl
    all_goals
      refine Store.IsSignature.keep ⟨rfl,⟨_,_,rfl⟩,rfl,rfl⟩ ht ?_ hparams
      exact Store.holds_ref rfl (List.mem_of_elem_eq_true rfl)
  · obtain rfl : c = Contract.anything := by simpa using hc
    exact (overSigned_any.stands (M := Machine.next^[j] M) rfl).describable
  · rw [Function.iterate_succ_apply']
    exact hspoken _

theorem overSigned_signed (M : Machine) : SignedClassMethod M overSigned (· = 41) 42 41 "m" (.ref 40) (.ref 39) (.ref 33)
    (.ref 36) [Contract.anything] ⟨.ref 35,.ref 1,.ref 1⟩ (.str "any")
    (.ref 37) [Contract.anything] ⟨.ref 35,.ref 1,.ref 1⟩ (.str "any") := by
  have hline : overSigned.line (.defined 41) = [.defined 41,.builtin .root,.builtin .object] := by decide +kernel
  have hcls : overSigned.classOf (.ref 41) = .builtin .type := rfl
  have hmem : .builtin .type ∈ overSigned.line (.builtin .type) := by decide +kernel
  have hstandard : overSigned.HasStandard := by
    simp only [Store.HasStandard]
    decide
  refine ⟨hstandard,⟨⟨rfl,rfl⟩,_,rfl,rfl,rfl⟩,?_,by decide,by decide +kernel,⟨rfl,rfl⟩,
    ⟨⟨.ref 38,"f",⟨⟨39,_,rfl,rfl,rfl,rfl,rfl⟩,rfl,rfl⟩,⟨⟨38,_,rfl,rfl,rfl,rfl,rfl⟩,rfl,rfl,34,_,rfl,rfl,rfl⟩⟩,
      _,rfl,rfl⟩,overSigned_settled (Or.inl rfl) M,overSigned_settled (Or.inr rfl) M,_,_,rfl,rfl⟩
  refine ⟨⟨.root,by simp [hline]⟩,by simp [hline],⟨_,rfl,rfl,rfl⟩,⟨_,hcls ▸ hmem⟩,hcls ▸ hmem,fun q hq => ?_,
    fun k _ => ?_⟩
  · simp [hcls,Store.line_builtin] at hq
  · rw [hcls,Store.override?_builtin]

/-- The attached signature takes the argument, and what becomes of the call is then up to the old one, which sees the
class too. -/
theorem calls_of_signedClassMethod_overSigned : ∃ y t,
    SignedClassMethod Machine.halted overSigned (· = 41) 42 41 "m" (.ref 40) (.ref 39) (.ref 33)
      (.ref 36) [Contract.anything] ⟨.ref 35,.ref 1,.ref 1⟩ (.str "any")
      (.ref 37) [Contract.anything] ⟨.ref 35,.ref 1,.ref 1⟩ (.str "any") ∧
    attach (Machine.next^[6] Machine.halted) (.ref 42) (.ref 41) overSigned = .ok (.ref 41) t ∧
    t.attr? (.ref 41) "m" = some y ∧
    ∀ b, Decides Machine.halted t [Contract.anything] [.ref 41,.int 3] b →
      Through Machine.halted (.ref 36) (.ref 37) [Contract.anything] [Contract.anything] (.ref 33) (.str "any")
        (.str "any") (.ref 41) [.int 3] t true b
        (Wrapper.callMember (Machine.next^[6] Machine.halted) (.ref 41) "m" [.int 3] t) := by
  obtain ⟨y,t,ht,hmembers,hD,hy,hcalls⟩ :=
    (calls_of_signedClassMethod (overSigned_signed Machine.halted) 0).2.2 (by decide)
  refine ⟨y,t,overSigned_signed Machine.halted,ht,hy,fun b hb => ?_⟩
  have hany {u : Store} (hu : t.Grows u) : u.contract? (.ref anyRef) = some Contract.anything := by
    have hkept : overSigned.Keeps (.members "m") u := hmembers.trans (Store.Keeps.of_grows hu)
    rw [hkept.contract? (Store.holds_ref rfl trivial)]
    rfl
  have hfits : Decides Machine.halted t [Contract.anything] [.int 3] true :=
    ⟨fun j u hu => takes_anything _ (hany hu),nofun⟩
  exact (hcalls t (Store.Keeps.refl _ t) .ofClass (.ref 41) [.int 3] (.ofClass hD (hD.classMember?_own hy)) true
    hfits).1 b hb

/-- A signature that takes any one argument and lets anything be returned. -/
def anySignature : Act Value := Contract.proc Machine.full [Contract.anything.value,Contract.anything.value]

/-- A class with a class method of a function that was signed with it. -/
def signedClass : Act Value := do
  let f ← (Expr.function "f" [.required "cls",.required "x"] [] (.variable "x") none).eval Machine.full []
  let w ← sign Machine.full (← anySignature) f
  (Expr.classDef "C" [("m",.classMethod (.variable "w"))] []).eval Machine.full [("w",w)]

/-- The class method gives back its argument; once another signature was attached that takes it as well, it cannot be
called with it. -/
theorem fails_signedClass :
    returned (signedClass >>= fun c => Wrapper.callMember Machine.full c "m" [.int 3]) Store.initial = some (.int 3) ∧
    raises (signedClass >>= fun c => do
      let _ ← attach Machine.full (← newNamed [("m",← anySignature)]) c
      Wrapper.callMember Machine.full c "m" [.int 3]) Store.initial = true := by decide +kernel

end Signature
end CallContracts
