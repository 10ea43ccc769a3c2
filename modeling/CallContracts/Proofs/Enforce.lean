import CallContracts.Proofs.Calls
import CallContracts.Proofs.Function
import CallContracts.Proofs.Standard
/-! One call boundary.  A check refuses arguments that its contract does not take, and then nothing runs;
otherwise what is behind the check is called once, with the very arguments, and what it returned is
looked at. -/
namespace CallContracts
open Act

/-- What a fault tells of the member, what was expected and what was found. -/
structure Blame.Tells (b : Blame) (member expected value : Value) : Prop where
  member : b.member = member
  expected : b.expected = expected
  value : b.value = value

theorem plus_str (m : Machine) (a b : String) (s : Store) :
    Arithmetic.plus m (.str a) (.str b) s = .ok (.str (a ++ b)) s := by
  have ha (x : String) : s.classOf (.str x) = .builtin .str := rfl
  simp [Arithmetic.plus,Arithmetic.decided,ha,saysAbout,Arithmetic.firstOf,Arithmetic.added,
    Arithmetic.onNumbers,Arithmetic.operand?,Arithmetic.joined,Store.whole?,Store.unboxed,Store.scalar?,
    Store.body?,Store.obj?,Store.text?]

namespace Signature
variable {W : Store → Prop} {M m : Machine} {s t u : Store} {k f v d r : Value} {name : String}
  {cs : List Contract} {p : Parts}

/-- A contract always describes itself alike, in a way that can be written. -/
structure Described (W : Store → Prop) (m : Machine) (v d : Value) : Prop where
  description : Always W (descriptionOf m v) d
  written : AlwaysCalm W (formatted m d)

/-- One layer of a curried signature: its check can be made, and its input describes itself. -/
structure Layer (W : Store → Prop) (M : Machine) (v : Value) (cs : List Contract) (p : Parts) : Prop where
  signature : ∀ t, W t → t.IsSignature v cs p
  parts : ∀ c ∈ cs, Describable W M.next c
  input : ∃ d, Described W M.next p.input d

theorem quiet_blame (hW : ∀ u, t.Grows u → W u) (name : String) (hd : AlwaysCalm W (formatted m d))
    (hv : AlwaysCalm (t.Grows ·) (shortText m v)) :
    (blame m (.str name) d v).Quiet (fun b _ => b.Tells (.str name) d v) t := by
  refine Gives.bindQuiet (gives_of_eq (formatted_str m name t)) fun u hu => ?_
  refine Quiet.bind (Calm.quiet (hd u (hW u hu))) fun x w hw _ => ?_
  refine Quiet.bind (Calm.quiet (hv w (hu.trans hw))) fun y z hz _ => ?_
  exact quiet_pure ⟨rfl,rfl,rfl⟩

theorem fieldOf_member (h : t.Checks k f (.str name) cs) : fieldOf m k "member" t = .ok (.str name) t :=
  fieldOf_own h.classOf h.member

/-- Arguments are refused under the name of the member. -/
theorem rejectInput_raises (hW : ∀ u, t.Grows u → W u) (hk : t.Checks k f (.str name) cs)
    (hd : AlwaysCalm W (formatted m d)) (hv : AlwaysCalm (t.Grows ·) (shortText m v)) (message : String) :
    ∃ b u, rejectInput m message k d v t = .error (.raised (.input b)) u ∧ t.Grows u ∧
      b.Tells (.str name) d v := by
  obtain ⟨_,u,hu,hg⟩ := calm_logMessage (message ++ name) t
  have hku := hk.grows hg
  obtain ⟨b,w,hw,hg',hb⟩ := quiet_blame (fun z hz => hW z (hg.trans hz)) name hd
    fun z hz => hv z (hg.trans hz)
  refine ⟨b,w,?_,hg.trans hg',hb⟩
  rw [rejectInput,bind_ok (fieldOf_member hk),bind_ok (written_str m name t),bind_ok hu,
    bind_ok (fieldOf_member hku),bind_ok hw]
  rfl

/-- So is what was returned. -/
theorem rejectOutput_raises (hW : ∀ u, t.Grows u → W u) (hk : t.Checks k f (.str name) cs)
    (hr : Described W m r d) (hv : AlwaysCalm (t.Grows ·) (shortText m v))
    (before between reason : String) :
    ∃ b u, rejectOutput m before between reason k r v t = .error (.raised (.output b reason)) u ∧
      t.Grows u ∧ b.Tells (.str name) d v := by
  obtain ⟨_,u,hu,hg⟩ := calm_logMessage (before ++ name ++ between) t
  have hku := hk.grows hg
  obtain ⟨w,hw,hg'⟩ := hr.description u (hW u hg)
  have hgw := hg.trans hg'
  obtain ⟨b,z,hz,hg'',hb⟩ := quiet_blame (fun y hy => hW y (hgw.trans hy)) name hr.written
    fun y hy => hv y (hgw.trans hy)
  refine ⟨b,z,?_,hgw.trans hg'',hb⟩
  rw [rejectOutput,bind_ok (fieldOf_member hk),bind_ok (written_str m name t),bind_ok hu,
    bind_ok (fieldOf_member hku),bind_ok hw,bind_ok hz]
  rfl

/-- What a signature that was built promises. -/
theorem part_of_isSignature (h : t.IsSignature f cs p) (n : String) :
    part m f n t = .ok (if n = "input" then p.input else p.ret) t := by
  obtain ⟨c,test,hb⟩ := h.body
  simp [part,Store.contract?_of_body hb,Store.parts?_of_body hb]

/-- Whether an argument list meets the contracts of a layer. -/
def Takes (m : Machine) (cs : List Contract) (args : List Value) (b : Bool) (t : Store) : Prop :=
  ∀ v, t.IsTuple v args → ((Rule.product cs).holds m v).Gives b t

theorem mismatches_arguments {a : Value} {args : List Value} {b : Bool} (hk : t.Checks k f (.str name) cs)
    (ha : t.IsTuple a args) (h : Takes m cs args b t) :
    ∃ x, t.attr? k "_arguments" = some x ∧ (mismatches m x a).Gives (!b) t := by
  obtain ⟨q,d,harg,-,hq⟩ := hk.arguments
  obtain ⟨u,hu,hg⟩ := h a ha
  have ho : (Contract.mk q d (.product cs)).outcome m a t
      = .ok (if b then .matched else .mismatched) u :=
    Contract.outcome_of_holds (by rw [hq]; rfl) hu
  refine ⟨_,harg,u,?_,hg⟩
  rw [mismatches,get_bind_apply,hq]
  simp only []
  rw [bind_ok ho]
  cases b <;> rfl

section boundary
variable {a n : Value} {args : List Value} {g : Value} (hW : ∀ u, t.Grows u → W u) (hl : Layer W M f cs p)
  (hk : t.Checks k f (.str name) cs) (hh : t.Handed args a n)
include hW hl hk hh

/-- Up to the look at the arguments. -/
theorem enforce_asks {b : Bool} (hd : Described W M.next p.input d)
    (hb : ∀ u, t.Grows u → Takes M.next cs args b u) :
    ∃ u, t.Grows u ∧
      enforce M.next k g a n t = (if !b then rejectInput M.next "input type mismatch in " k d a else do
        let result ← M.next.call g (← iterate M.next a) (← namedOf M.next n)
        checkResult M.next k (← part M.next (← fieldOf M.next k "signature") "ret") result : Act Value) u := by
  obtain ⟨e,rfl,hn⟩ := hh.named
  have ht := hW t (Store.Keeps.refl _ t)
  have hsig := hl.signature t ht
  obtain ⟨u,hu,hg⟩ := hd.description t ht
  have hku := hk.grows hg
  obtain ⟨x,hx,w,hw,hg'⟩ := mismatches_arguments hku (hh.args.grows hg) (hb u hg)
  refine ⟨w,hg.trans hg',?_⟩
  have htruth : refusesNamed M.next (.ref e) u = .ok false u := by
    rw [refusesNamed,bind_ok (truth_table (hn.grows hg))]
    rfl
  rw [enforce,bind_ok (fieldOf_own hk.classOf hk.signature),bind_ok (part_of_isSignature hsig "input")]
  simp only [if_true]
  rw [bind_ok hu,bind_ok htruth]
  simp only [Bool.false_eq_true,if_false]
  rw [bind_ok (fieldOf_own hku.classOf hx),bind_ok hw]

/-- Arguments that the layer does not take are refused before anything runs. -/
theorem enforce_refuses (hd : Described W M.next p.input d)
    (hb : ∀ u, t.Grows u → Takes M.next cs args false u)
    (hv : AlwaysCalm (t.Grows ·) (shortText M.next a)) :
    ∃ b u, enforce M.next k g a n t = .error (.raised (.input b)) u ∧ t.Grows u ∧
      b.Tells (.str name) d a := by
  obtain ⟨u,hg,hu⟩ := enforce_asks (g := g) hW hl hk hh hd hb
  obtain ⟨b,w,hw,hg',hb⟩ := rejectInput_raises (fun z hz => hW z (hg.trans hz)) (hk.grows hg) hd.written
    (fun z hz => hv z (hg.trans hz)) "input type mismatch in "
  exact ⟨b,w,hu.trans hw,hg.trans hg',hb⟩

/-- Arguments that it takes are handed on as they are, and what was returned is looked at. -/
theorem enforce_calls (hb : ∀ u, t.Grows u → Takes M.next cs args true u) :
    ∃ u, t.Grows u ∧ enforce M.next k g a n t = (do
      let result ← M.next.call g args []
      checkResult M.next k (← part M.next (← fieldOf M.next k "signature") "ret") result : Act Value) u := by
  obtain ⟨d,hd⟩ := hl.input
  obtain ⟨u,hg,hu⟩ := enforce_asks (g := g) hW hl hk hh hd hb
  refine ⟨u,hg,hu.trans ?_⟩
  obtain ⟨e,rfl,hn⟩ := (hh.grows hg).named
  have hnamed : namedOf M.next (.ref e) u = .ok [] u := (namedOf_table hn).trans rfl
  simp only [Bool.not_true,Bool.false_eq_true,if_false]
  rw [bind_ok (iterate_tuple (hh.grows hg).args),bind_ok hnamed]

end boundary

/-- Wraps what was returned with a check of the promised signature, under the name with the suffix. -/
def nest (m : Machine) (k r g : Value) : Act Value := do
  let member ← Arithmetic.plus m (← fieldOf m k "member") (← setting "anonymous_suffix")
  Wrapper.around m g (← check m r member)

/-- A contract that is no signature runs on what was returned. -/
theorem checkResult_contract {g : Value} (hr : isSignature m r t = .ok false u) :
    checkResult m k r g t = (do
      if ← mismatches m r g then rejectOutput m "output type mismatch in " "" "but returned" k r g
      else return g : Act Value) u := by
  rw [checkResult,bind_ok hr]
  rfl

/-- Where a signature is promised, a callable is nested unless it is signed. -/
theorem checkResult_signature {g : Value} (hr : isSignature m r t = .ok true u) :
    checkResult m k r g t = (if !u.isCallable g then
        rejectOutput m "output of " " is not callable" "but returned value is no function" k r g
      else do if ← isSigned m g then return g else nest m k r g : Act Value) u := by
  rw [checkResult,bind_ok hr]
  simp only [if_true]
  rw [get_bind_apply]
  rfl

theorem nest_eq {g c : Value} {suffix : String} (hk : t.Checks k f (.str name) cs)
    (hs : t.attr? (.ref settingsRef) "anonymous_suffix" = some (.str suffix))
    (hc : check m r (.str (name ++ suffix)) t = .ok c u) : nest m k r g t = Wrapper.around m g c u := by
  have hset : setting "anonymous_suffix" t = .ok (.str suffix) t := by simp [setting,ownAttr,hs]
  rw [nest,bind_ok (fieldOf_member hk),bind_ok hset,bind_ok (plus_str m name suffix t),bind_ok hc]

section result
variable {g : Value} (hW : ∀ u, t.Grows u → W u) (hk : t.Checks k f (.str name) cs)
include hW hk

theorem checkResult_layer (hl : Layer W M f cs p) :
    (do checkResult M.next k (← part M.next (← fieldOf M.next k "signature") "ret") g : Act Value) t
      = checkResult M.next k p.ret g t := by
  have hsig := hl.signature t (hW t (Store.Keeps.refl _ t))
  rw [bind_ok (fieldOf_own hk.classOf hk.signature),bind_ok (part_of_isSignature hsig "ret")]
  rfl

/-- What a layer returns that promises no function. -/
theorem checkResult_plain {b : Bool} (hr : Always W (isSignature m r) false) (hd : Described W m r d)
    (hb : Always (t.Grows ·) (mismatches m r g) b)
    (hv : b → AlwaysCalm (t.Grows ·) (shortText m g)) :
    ∃ u, t.Grows u ∧ (b = false ∧ checkResult m k r g t = .ok g u ∨
      b ∧ ∃ e reason, checkResult m k r g t = .error (.raised (.output e reason)) u ∧
        e.Tells (.str name) d g) := by
  obtain ⟨u,hu,hg⟩ := hr t (hW t (Store.Keeps.refl _ t))
  obtain ⟨w,hw,hg'⟩ := hb u hg
  have hgw := hg.trans hg'
  have hstep : checkResult m k r g t = (if b then
      rejectOutput m "output type mismatch in " "" "but returned" k r g else return g : Act Value) w := by
    rw [checkResult_contract hu,bind_ok hw]
  cases b with
  | false => exact ⟨w,hgw,Or.inl ⟨rfl,hstep⟩⟩
  | true =>
    obtain ⟨e,z,hz,hg'',he⟩ := rejectOutput_raises (fun y hy => hW y (hgw.trans hy)) (hk.grows hgw) hd
      (fun y hy => hv rfl y (hgw.trans hy)) "output type mismatch in " "" "but returned"
    exact ⟨z,hgw.trans hg'',Or.inr ⟨rfl,e,_,hstep.trans hz,he⟩⟩

/-- What is no function is refused where a function is promised. -/
theorem checkResult_notCallable (hr : Always W (isSignature m r) true) (hd : Described W m r d)
    (hg : ∀ u, t.Grows u → u.isCallable g = false) (hv : AlwaysCalm (t.Grows ·) (shortText m g)) :
    ∃ e reason u, checkResult m k r g t = .error (.raised (.output e reason)) u ∧ t.Grows u ∧
      e.Tells (.str name) d g := by
  obtain ⟨u,hu,hgu⟩ := hr t (hW t (Store.Keeps.refl _ t))
  obtain ⟨e,z,hz,hg',he⟩ := rejectOutput_raises (fun y hy => hW y (hgu.trans hy)) (hk.grows hgu) hd
    (fun y hy => hv y (hgu.trans hy)) "output of " " is not callable" "but returned value is no function"
  refine ⟨e,"but returned value is no function",z,?_,hgu.trans hg',he⟩
  rw [checkResult_signature hu,hg u hgu]
  exact hz

/-- A function is wrapped in turn, under the name with the suffix. -/
theorem checkResult_wraps {suffix : String} {ds : List Contract} {q : Parts}
    (hs : ∀ u, W u → u.attr? (.ref settingsRef) "anonymous_suffix" = some (.str suffix))
    (hl : Layer W M r ds q) (hg : ∀ u, t.Grows u → u.isCallable g)
    (hsigned : Always (t.Grows ·) (isSigned M.next g) false) (hwrap : Wrapper.Tells (t.Grows ·) M.next g) :
    ∃ w i u, checkResult M.next k r g t = .ok w u ∧ t.Grows u ∧ u.Wraps .wrapper w g i ∧
      u.Checks i r (.str (name ++ suffix)) ds := by
  have ht := hW t (Store.Keeps.refl _ t)
  have hsig : isSignature M.next r t = .ok true t :=
    isKind_builtin (hl.signature t ht).cls (by decide)
  obtain ⟨u,hu,hgu⟩ := hsigned t (Store.Keeps.refl _ t)
  have hWu := hW u hgu
  obtain ⟨i,w,hw,hgw,hi,-⟩ := quiet_check (fun z hz => hW z (hgu.trans hz)) (hl.signature u hWu)
    (n := .str (name ++ suffix)) hl.parts
  obtain ⟨x,z,hz,hgz,hx,-⟩ := Wrapper.quiet_make (m := M.next) (c := .wrapper) (a := i) (e := [])
    (fun y hy => (hgu.trans hgw).trans hy) hwrap (Or.inl rfl)
  refine ⟨x,i,z,?_,(hgu.trans hgw).trans hgz,hx,hi.grows hgz⟩
  rw [checkResult_signature hsig,hg t (Store.Keeps.refl _ t)]
  simp only [Bool.not_true,Bool.false_eq_true,if_false]
  rw [bind_ok hu]
  exact (nest_eq (hk.grows hgu) (hs u hWu) hw).trans hz

end result
end Signature
end CallContracts
