import CallContracts.Proofs.ClassAttach
import CallContracts.Proofs.TableTarget
/-! Signing and attaching.  A function or a static method can be signed before a class holds it, or have the
signature attached to the class that holds it.  What is signed first waits for an instance when it is read from the
class; what was attached does so only if it is a function. -/
namespace CallContracts
open Act

namespace Signature
variable {M : Machine} {s t : Store} {H : Ref → Prop} {d D : Ref} {n name : String} {f u w x k sig e target : Value}
  {c : Receives} {cs : List Contract} {p : Parts} {waits : Bool} {a : Access} {args : List Value}

/-- A static method shows what it holds. -/
theorem calm_shownStatic {m : Machine} {g : Function} (hx : s.IsStatic x f) (hf : s.IsFunction f g) :
    (shown m x).Calm s := by
  obtain ⟨r,rfl⟩ := Store.ref_of_body hx.body
  obtain ⟨q,rfl⟩ := Store.ref_of_body hf.body
  have place {r : Ref} {b : Body} (hb : s.body? (.ref r) = some b) : ∃ o, s.get? r = some o := by
    cases ho : s.get? r with
    | none => simp [Store.body?,Store.obj?,ho] at hb
    | some o => exact ⟨o,rfl⟩
  obtain ⟨o,ho⟩ := place hx.body
  obtain ⟨o',ho'⟩ := place hf.body
  have hcls : o.cls = .builtin .staticMethod := by rw [← Store.classOf_of_get? ho,hx.cls]
  have hcls' : o'.cls = .builtin .function := by rw [← Store.classOf_of_get? ho',hf.cls]
  have hbody : o.body = .staticMethod (.ref q) := by simpa [Store.body?_of_get? ho] using hx.body
  have hbody' : o'.body = .function g := by simpa [Store.body?_of_get? ho'] using hf.body
  have hm : s.mark? o = none := by simp [Store.mark?,hbody]
  have hm' : s.mark? o' = none := by simp [Store.mark?,hbody']
  obtain ⟨k,hk⟩ : ∃ k, depthLimit = k + 2 := ⟨_,rfl⟩
  have hinner : writeAt m (k+1) [] .quoted (.ref q) s
      = .ok ("<function ".toList ++ g.path.toList ++ placed q) s := by
    rw [writeAt]
    simp only [get_bind_apply,ho',hcls',Store.override?_builtin,hm',showBody,hbody']
    rfl
  have htext : textAs m .quoted (.ref r) s
      = .ok ("<staticmethod(".toList ++ ("<function ".toList ++ g.path.toList ++ placed q) ++ [')','>']) s := by
    rw [textAs,hk,writeAt]
    simp only [get_bind_apply,ho,hcls,Store.override?_builtin,hm,showBody,hbody]
    rw [bind_ok hinner]
    rfl
  exact ⟨_,s,map_ok htext,Store.Keeps.refl _ s⟩

/-- A class that holds a function or a static method of one, which has a name, and a map that has a signature for it
under the name of the member. -/
structure Signable (M : Machine) (s : Store) (H : Ref → Prop) (d D : Ref) (n : String) (u f sig : Value)
    (c : Receives) (cs : List Contract) (p : Parts) (e : Value) : Prop where
  standard : s.HasStandard
  map : s.IsMap d [(.str n,sig)]
  branch : s.Branch n H D
  name : n ∉ specialNames
  member : s.classMember? (.defined D) n = some u
  plain : s.Plain f c u
  titled : c = .nothing → s.Owns u ∧ ∃ x : String, s.attr? u "__name__" = some (.str x)
  settled : Settled (s.Keeps .library ·) M sig cs p e
  described : ∃ q x, s.contract? sig = some q ∧ q.description = .str x

/-- Read from the class, both are the function. -/
theorem read_plain {t : Store} (hD : t.Branch n H D) (hn : n ∉ specialNames)
    (hx : t.classMember? (.defined D) n = some u) (h : t.Plain f c u) :
    M.next.read (.ref D) n t = .ok f t := by
  have hbind : bindMember M u .absent (.ref D) t = .ok f t := by
    cases h with
    | function hf =>
      obtain ⟨r,rfl⟩ := Store.ref_of_body hf.body
      simp [bindMember,hf.body,bindFunction]
    | static hx _ =>
      obtain ⟨r,rfl⟩ := Store.ref_of_body hx.body
      simp [bindMember,hx.body]
  rcases Wrapper.read_class hD hn hx M with hr | ⟨q,u,hq,-⟩
  · rw [hr,hbind]
  · cases hbind.symm.trans hq

namespace Signable
variable (h : Signable M s H d D n u f sig c cs p e)
include h

theorem grown {t : Store} (ht : s.Grows t) : t.Branch n H D ∧ t.classMember? (.defined D) n = some u ∧ t.Plain f c u := by
  refine ⟨h.branch.grows h.name ht,?_,h.plain.grows ht⟩
  rw [h.branch.lined.classMember?_grows ht ?_,h.member]
  rintro rfl
  exact h.name (by decide)

theorem single (k : Nat) : Single (Machine.next^[k+1] M) s H d D n sig cs p false := by
  refine ⟨h.standard,h.map,h.branch,h.name,(h.settled.layer 0).signature s (Store.Keeps.refl _ s),h.described,
    fun t ht => ?_⟩
  obtain ⟨hD,hx,hu⟩ := h.grown ht
  obtain ⟨g,hf⟩ : ∃ g, t.IsFunction f g := by
    cases hu with
    | function hf => exact ⟨_,hf⟩
    | static _ hf => exact ⟨_,hf⟩
  rw [Function.iterate_succ_apply']
  exact ⟨f,t,read_plain hD h.name hx hu,Store.Keeps.refl _ t,isCallable_function hf,
    gives_of_eq (Attachment.isSignedWith_function hf sig)⟩

/-- The member has a name of its own. -/
theorem ownName : ∃ x : String, ∀ m : Machine, Always (s.Grows ·) (m.next.read u "__name__") (.str x) := by
  cases h.plain with
  | @function g hf =>
    refine ⟨g.name,fun m t ht => gives_of_eq ?_⟩
    have hft := hf.grows ht
    rw [read_functionPart hft rfl (Or.inr rfl) (by decide)]
    simp [functionPart,Store.function?,hft.body]
  | static hx hf =>
    obtain ⟨howns,x,hname⟩ := h.titled rfl
    refine ⟨x,fun m t ht => gives_of_eq ?_⟩
    have hxt := hx.keep (Store.Keeps.of_grows ht)
    have hattr : t.attr? u "__name__" = some (.str x) := by
      rw [howns.attr? ht (Store.holds_all_of_body hx.body) (by decide),hname]
    obtain ⟨r,rfl⟩ := Store.ref_of_body hx.body
    have hclass : t.class? (.ref r) = none := Store.class?_of_body hxt.body (by simp)
    have hm : BuiltinClass.staticMethod.line.findSome? (·.ownMember? "__name__") = none := rfl
    rw [read_next_builtin hxt.cls hclass (by decide)]
    simp [readOfInstance,hxt.cls,Store.classMember?_builtin,hm,hattr]

/-- Signing wraps the function or the static method as it is. -/
theorem quiet_sign (k : Nat) :
    (sign (Machine.next^[k+2] M) sig u).Quiet (fun w t => t.SignedMember sig cs f true c w) s := by
  obtain ⟨x,hname⟩ := h.ownName
  have hshown : (shown (Machine.next^[k+2] M) u).Calm s := by
    cases h.plain with
    | function hf => exact calm_shown hf
    | static hx hf => exact calm_shownStatic hx hf
  have hlayer : Layer (s.Grows ·) (Machine.next^[k+1] M) sig cs p :=
    (h.settled.layer (k+1)).mono fun t ht => Store.Keeps.of_grows ht
  have htold := Wrapper.told_plain h.plain (Machine.next^[k] M)
  rw [Function.iterate_succ_apply'] at hlayer
  rw [Wrapper.iterate_two] at hshown ⊢
  refine (Signature.quiet_sign htold hshown (hname _) hlayer).imp fun w t ht hw => ?_
  obtain ⟨i,hw,hi⟩ := hw
  exact .wrapper hw hi (h.plain.grows ht)

/-- Attaching writes a wrapper of the function, or a static method of one. -/
theorem attach_plain (k : Nat) : ∃ y t, attach (Machine.next^[k+2] M) (.ref d) (.ref D) s = .ok (.ref D) t ∧
    s.Keeps .guards t ∧ s.Keeps (.members n) t ∧ t.Branch n H D ∧ t.attr? (.ref D) n = some y ∧
    t.SignedMember sig cs f (decide (c = .object)) c y := by
  have hlayer : Layer (s.Grows ·) (Machine.next^[k+1] M) sig cs p :=
    (h.settled.layer (k+1)).mono fun t ht => Store.Keeps.of_grows ht
  have hsingle := h.single (k+1)
  rw [Function.iterate_succ_apply'] at hlayer
  rw [Wrapper.iterate_two] at hsingle ⊢
  refine attach_installs hsingle hlayer.parts (fun i t ht hi => ?_) fun y t t' hy ht => hy.keep ht
  obtain ⟨-,hx,hu⟩ := h.grown ht
  have hstored : Wrapper.storedMember t (.defined D) n = some u := by simp [Wrapper.storedMember,hx]
  -- the stored member in the form that it gets, and the check that it is under
  cases hu with
  | function hf =>
    obtain ⟨y,w,z,hg,hy,hwrap⟩ := Wrapper.wrapMember_stored (M := Machine.next^[k] M) (n := n) (.ref D)
      (.method (b := false) (.original hf)) hstored i
    refine ⟨y,w,z,hg,?_,hwrap⟩
    cases hy with
    | method hr =>
      obtain ⟨hstack,-⟩ := hr
      cases hstack with
      | advised hw hp =>
        cases hp with
        | original => exact .wrapper hw (hi.grows hg) (.function (hf.grows hg))
  | static hs hf =>
    obtain ⟨y,w,z,hg,hy,hwrap⟩ := Wrapper.wrapMember_stored (M := Machine.next^[k] M) (n := n) (.ref D)
      (.static (b := false) hs.cls hs.body (.original hf)) hstored i
    refine ⟨y,w,z,hg,?_,hwrap⟩
    cases hy with
    | static hc hb hr =>
      obtain ⟨hstack,-⟩ := hr
      cases hstack with
      | advised hw hp =>
        cases hp with
        | original => exact .static ⟨hc,hb⟩ hw (hi.grows hg) (hf.grows hg)

theorem grows {t : Store} (ht : s.Grows t) : Signable M t H d D n u f sig c cs p e := by
  obtain ⟨hD,hx,hu⟩ := h.grown ht
  refine ⟨h.standard.grows ht,h.map.grows ht,hD,h.name,hx,hu,fun hc => ?_,
    h.settled.mono fun z hz => (Store.Keeps.of_grows ht).trans hz,(h.single 0).grows ht |>.described⟩
  obtain ⟨howns,x,hname⟩ := h.titled hc
  obtain ⟨r,b,body,rfl,-,hbody,-⟩ := h.plain.place
  have hholds := Store.holds_all_of_body hbody
  exact ⟨howns.keep ht hholds,x,by rw [howns.attr? ht hholds (by decide),hname]⟩

end Signable

/-- How a call ends that takes a route: without one it is refused before the check; otherwise it is guarded, and ends
as the contracts decide. -/
inductive Ended (M : Machine) (sig : Value) (cs : List Contract) (f e : Value) (s : Store) :
    Option (List Value × List Value) → EStateM.Result Stop Store Value → Prop where
  | unreached {q : Fault} {t : Store} : s.Grows t → .typeError ∈ q.cls.line →
      Ended M sig cs f e s none (.error (.raised q) t)
  | guarded {seen lead : List Value} {y : EStateM.Result Stop Store Value} : Guarded M sig cs f lead seen s y →
      (∀ b, Decides M s cs seen b → Concludes M sig cs f e lead seen s b y) →
      Ended M sig cs f e s (some (seen,lead)) y

theorem ended_of_passes {r : Option (List Value × List Value)} {y : EStateM.Result Stop Store Value}
    (h : Passes M sig cs f s y r) (hsig : Settled (s.Grows ·) M sig cs p e) : Ended M sig cs f e s r y := by
  cases r with
  | none =>
    obtain ⟨q,t,rfl,hg,hq⟩ := h
    exact .unreached hg hq
  | some r => exact .guarded h fun b hb => Guarded.concludes h hsig hb

/-- What is found takes its own route to the check. -/
theorem ended_of_found {k : Nat} (h : s.SignedMember sig cs f waits c x) (hx : s.Found n x a target)
    (hn : n ∉ specialNames) (hsig : Settled (s.Grows ·) M sig cs p e) (args : List Value) :
    Ended M sig cs f e s (route c waits a args) (Wrapper.callMember (Machine.next^[k+3] M) target n args s) :=
  ended_of_passes (passes_found h hx hn args) hsig

theorem route_signed_iff (c : Receives) (a : Access) (args : List Value) :
    route c true a args = route c (decide (c = .object)) a args ↔ c = .object ∨ ∃ o, a = .ofInstance o := by
  by_cases hc : c = .object
  · simp [hc]
  · simp [hc,route_waits_iff]

/-- A function or static method is signed, and the signature is attached to a class that holds it.  From then on, as
long as wrappers and checks are left alone, a call of the signed member, found from any class that holds or inherits
it or from an instance, and such a call of the attached one go to the same function through checks of the same
signature.  Which arguments the checks see and what the function gets before them is the same for both, unless the
member is a static method that is called through a class: there what was signed takes the first argument for an
instance, and cannot be called without. -/
theorem calls_of_signable (h : Signable M s H d D n u f sig c cs p e) (k : Nat) :
    ∃ w t x z, sign (Machine.next^[k+3] M) sig u s = .ok w t ∧
      attach (Machine.next^[k+3] M) (.ref d) (.ref D) t = .ok (.ref D) z ∧ s.Keeps (.members n) z ∧
      z.Branch n H D ∧ z.attr? (.ref D) n = some x ∧
      ∀ z', z.Keeps .guards z' → ∀ a args,
        (∀ target, z'.Found n w a target → Ended M sig cs f e z' (route c true a args)
          (Wrapper.callMember (Machine.next^[k+3] M) target n args z')) ∧
        (∀ target, z'.Found n x a target → Ended M sig cs f e z' (route c (decide (c = .object)) a args)
          (Wrapper.callMember (Machine.next^[k+3] M) target n args z')) ∧
        (route c true a args = route c (decide (c = .object)) a args ↔ c = .object ∨ ∃ o, a = .ofInstance o) := by
  obtain ⟨w,t,hw,ht,hsigned⟩ := h.quiet_sign (k+1)
  obtain ⟨x,z,hz,htz,hmembers,hD,hx,hattached⟩ := (h.grows ht).attach_plain (k+1)
  refine ⟨w,t,x,z,hw,hz,(Store.Keeps.of_grows ht).trans hmembers,hD,hx,fun z' hz' a args => ?_⟩
  have htz' : t.Keeps .guards z' := htz.trans hz'
  have hsettled : Settled (z'.Grows ·) M sig cs p e := h.settled.mono fun y hy =>
    ((Store.Keeps.of_grows ht).trans htz'.library).trans (Store.Keeps.of_grows hy)
  exact ⟨fun target hfound => ended_of_found (hsigned.keep htz') hfound h.name hsettled args,
    fun target hfound => ended_of_found (hattached.keep hz') hfound h.name hsettled args,route_signed_iff c a args⟩

/-- A class that holds a static method of a function which gives back its argument, and a signature for it. -/
def held : Store :=
  { Store.initial with heap := Store.initial.heap ++ #[
    { cls := .builtin .function, attrs := some []
      body := .function ⟨"f","f",.str "m",.absent,.closure ⟨"f",[(.required "x",none)],.variable "x",[]⟩⟩ },
    { cls := .builtin .staticMethod, attrs := some [("__name__",.str "f")], body := .staticMethod (.ref 33) },
    { cls := .builtin .type, body := .cls ⟨"C","C",.builtin .root,[],true⟩
      attrs := some [("__module__",.str "m"),("m",.ref 34)] },
    { cls := .builtin .tuple, body := .tuple [.ref 1] },
    { cls := .builtin .signature
      body := .contract (.mk 37 (.str "any -> any") .function) (.operation .functionTest)
        (some ⟨.ref 36,.ref 1,.ref 1⟩) },
    { cls := .builtin .dict, body := .table [(.str "m",.ref 37)] }] }

theorem held_signable (M : Machine) : Signable M held (· = 35) 38 35 "m" (.ref 34) (.ref 33) (.ref 37) .nothing
    [Contract.anything] ⟨.ref 36,.ref 1,.ref 1⟩ (.str "any") := by
  have hline : held.line (.defined 35) = [.defined 35,.builtin .root,.builtin .object] := by decide +kernel
  have hcls : held.classOf (.ref 35) = .builtin .type := rfl
  have hmem : .builtin .type ∈ held.line (.builtin .type) := by decide +kernel
  have hany : held.IsContract Contract.anything := ⟨Or.inl rfl,rfl⟩
  have hsig : held.IsSignature (.ref 37) [Contract.anything] ⟨.ref 36,.ref 1,.ref 1⟩ := ⟨rfl,⟨_,_,rfl⟩,rfl,rfl⟩
  have hspoken (m : Machine) : Described (held.Keeps .library ·) m.next (.ref 1) (.str "any") :=
    (hany.stands (M := m) rfl).spoken
  have hlayer (m : Machine) : Layer (held.Keeps .library ·) m (.ref 37) [Contract.anything] ⟨.ref 36,.ref 1,.ref 1⟩ := by
    refine ⟨fun t ht => ?_,fun c hc => ?_,.str "any",hspoken m⟩
    · exact hsig.keep ht (Store.holds_ref rfl (List.mem_of_elem_eq_true rfl))
        (Store.holds_ref rfl (List.mem_of_elem_eq_true rfl))
    · obtain rfl : c = Contract.anything := by simpa using hc
      exact (hany.stands (M := m) rfl).describable
  have hstandard : held.HasStandard := by
    simp only [Store.HasStandard]
    decide
  refine ⟨hstandard,⟨⟨rfl,rfl⟩,_,rfl,rfl,rfl⟩,?_,by decide,by decide +kernel,.static ⟨rfl,rfl⟩ ⟨rfl,rfl⟩,
    fun _ => ⟨⟨34,_,rfl,rfl,rfl⟩,"f",rfl⟩,⟨fun j => hlayer _,fun j => ?_⟩,_,_,rfl,rfl⟩
  · refine ⟨⟨.root,by simp [hline]⟩,by simp [hline],⟨_,rfl,rfl,rfl⟩,⟨_,hcls ▸ hmem⟩,hcls ▸ hmem,fun q hq => ?_,
      fun k _ => ?_⟩
    · simp [hcls,Store.line_builtin] at hq
    · rw [hcls,Store.override?_builtin]
  · rw [Function.iterate_succ_apply']
    exact hspoken _

/-- The attached static method passes its argument on when it is called through the class. -/
theorem calls_of_signable_held : ∃ w t z,
    Signable Machine.halted held (· = 35) 38 35 "m" (.ref 34) (.ref 33) (.ref 37) .nothing [Contract.anything]
      ⟨.ref 36,.ref 1,.ref 1⟩ (.str "any") ∧
    sign (Machine.next^[3] Machine.halted) (.ref 37) (.ref 34) held = .ok w t ∧
    attach (Machine.next^[3] Machine.halted) (.ref 38) (.ref 35) t = .ok (.ref 35) z ∧
    Ended Machine.halted (.ref 37) [Contract.anything] (.ref 33) (.str "any") z (some ([.int 3],[]))
      (Wrapper.callMember (Machine.next^[3] Machine.halted) (.ref 35) "m" [.int 3] z) := by
  obtain ⟨w,t,x,z,hw,hz,-,hD,hx,hcalls⟩ := calls_of_signable (held_signable Machine.halted) 0
  refine ⟨w,t,z,held_signable Machine.halted,hw,hz,?_⟩
  exact (hcalls z (Store.Keeps.refl _ z) .ofClass [.int 3]).2.1 (.ref 35)
    (.ofClass hD (hD.classMember?_own hx))

/-- A signature that takes any one argument and lets anything be returned, and a static method that gives back its
argument. -/
def anyStatic : Act (Value × Value) := do
  let f ← (Expr.function "f" [.required "x"] [] (.variable "x") none).eval Machine.full []
  let u ← Wrapper.staticMethod Machine.full f
  let sig ← Contract.proc Machine.full [Contract.anything.value,Contract.anything.value]
  return (sig,u)

/-- A class that holds a member. -/
def classWith (x : Value) : Act Value := (Expr.classDef "C" [("m",.variable "x")] []).eval Machine.full [("x",x)]

/-- Through the class, what the signature was attached to gives back its argument; what was signed first cannot be
called with it. -/
theorem fails_signedStatic :
    returned (anyStatic >>= fun p => do
      let c ← classWith p.2
      let _ ← attach Machine.full (← newNamed [("m",p.1)]) c
      Wrapper.callMember Machine.full c "m" [.int 3]) Store.initial = some (.int 3) ∧
    raises (anyStatic >>= fun p => do
      let c ← classWith (← sign Machine.full p.1 p.2)
      Wrapper.callMember Machine.full c "m" [.int 3]) Store.initial = true := by decide +kernel

end Signature
end CallContracts
