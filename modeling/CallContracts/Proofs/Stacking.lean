import CallContracts.Proofs.Guarded
/-! Stacked signatures.  A function that was wrapped with one signature and then with another runs its body, hands
on what it returned and complains exactly as if it had been wrapped once, with the conjunctions of their contracts.
Signatures that take different numbers of arguments refuse every call.  A complaint has to show what it is about;
where that fails, it ends in the fault that the showing ends in. -/
namespace CallContracts
open Act

/-- Writes a text in every store of a kind or, if a class is named, fails with a fault of that class. -/
def Act.Renders (W : Store → Prop) (x : Act String) : Option BuiltinClass → Prop
  | none => AlwaysCalm W x
  | some c => ∀ t, W t → ∃ q u, x t = .error (.raised q) u ∧ t.Grows u ∧ q.cls = c

theorem Act.Renders.mono {W W' : Store → Prop} {x : Act String} {c : Option BuiltinClass} (h : x.Renders W c)
    (hW : ∀ t, W' t → W t) : x.Renders W' c := by
  cases c with
  | none => exact fun t ht => h t (hW t ht)
  | some c => exact fun t ht => h t (hW t ht)

/-- The class of the fault that a computation ends in. -/
def Act.faultClass {α : Type} (x : Act α) (s : Store) : Option BuiltinClass :=
  match x s with
  | .error (.raised q) _ => some q.cls
  | _ => none

/-- One after the other, each makes a contract of its own. -/
theorem Act.quiet_contracts {α : Type} {f : α → Act Value} {P : α → Contract → Store → Prop} {l : List α} {s : Store}
    (hP : ∀ x c t u, t.Grows u → P x c t → P x c u)
    (h : ∀ x ∈ l, ∀ t, s.Grows t → (f x).Quiet (fun v u => ∃ c : Contract, v = c.value ∧ P x c u) t) :
    (each f l).Quiet (fun vs t => ∃ cs : List Contract, vs = cs.map Contract.value ∧
      List.Forall₂ (fun x c => P x c t) l cs) s := by
  induction l generalizing s with
  | nil => exact quiet_pure ⟨[],rfl,.nil⟩
  | cons x xs ih =>
    refine Quiet.bind (h x (by simp) s (Store.Keeps.refl _ s)) ?_
    rintro _ t ht ⟨c,rfl,hc⟩
    refine Quiet.bind (ih fun z hz u hu => h z (by simp [hz]) u (ht.trans hu)) ?_
    rintro _ u hu ⟨cs,rfl,hcs⟩
    exact quiet_pure ⟨c :: cs,rfl,.cons (hP x c t u hu hc) hcs⟩

/-- A contract that stands for itself on every level. -/
def Contract.Standing (M : Machine) (s : Store) (c : Contract) : Prop := ∃ x, ∀ j, c.Stands s (Machine.next^[j+1] M) x

/-- A contract always says the same about a value. -/
def Contract.Judges (M : Machine) (s : Store) (c : Contract) (v : Value) (b : Bool) : Prop :=
  ∀ j, Always (s.Grows ·) (c.outcome (Machine.next^[j+1] M) v) (if b then .matched else .mismatched)

/-- Whether an argument list meets contracts, by what each of them says of a value. -/
def fits (opinion : Contract → Value → Bool) (cs : List Contract) (args : List Value) : Bool :=
  cs.length == args.length && (cs.zip args).all fun p => opinion p.1 p.2

namespace Contract
variable {M m : Machine} {s t : Store} {v : Value} {a b : Bool} {c r : Contract} {cs : List Contract}
  {args : List Value} {opinion : Contract → Value → Bool} {x : String}

theorem Standing.keep (h : c.Standing M s) (ht : s.Keeps .library t) : c.Standing M t := by
  obtain ⟨x,hx⟩ := h
  exact ⟨x,fun j => (hx j).keep ht⟩

theorem Standing.stands (h : c.Standing M s) (j : Nat) : ∃ x, c.Stands s (Machine.next^[j] M).next x := by
  obtain ⟨x,hx⟩ := h
  exact ⟨x,Function.iterate_succ_apply' Machine.next j M ▸ hx j⟩

theorem standing_of_worded (h : s.Worded c) : c.Standing M s := by
  obtain ⟨x,hx⟩ := h.text
  refine ⟨x,fun j => ?_⟩
  rw [Function.iterate_succ_apply']
  exact h.held.stands hx

theorem Judges.grows (h : c.Judges M s v b) (ht : s.Grows t) : c.Judges M t v b :=
  fun j u hu => h j u (ht.trans hu)

/-- The contracts say in turn what they say on their own. -/
theorem noneFails_pair {d e : Contract} (hd : d.Judges M s v a) (he : e.Judges M s v b) (j : Nat) :
    (noneFails (Machine.next^[j+1] M) [d,e] v).Gives (a && b) s := by
  obtain ⟨t,ht,hst⟩ := hd j s (Store.Keeps.refl _ s)
  obtain ⟨u,hu,htu⟩ := he j t hst
  rw [Act.Gives]
  rw [noneFails_cons,bind_ok ht]
  cases a with
  | false => exact ⟨t,rfl,hst⟩
  | true =>
    refine ⟨u,?_,hst.trans htu⟩
    simp only [if_true,reduceCtorEq,if_false]
    rw [noneFails_cons,bind_ok hu]
    cases b <;> rfl

/-- A conjunction says what its parts say together. -/
theorem judges_all {d e : Contract} (hc : s.IsContract c) (hr : c.rule = .all [d,e]) (hd : d.Judges M s v a)
    (he : e.Judges M s v b) : c.Judges M s v (a && b) := by
  intro j t ht
  obtain ⟨q,x,rule⟩ := c
  obtain rfl : rule = .all [d,e] := hr
  obtain ⟨u,hu,hg⟩ := noneFails_pair (hd.grows ht) (he.grows ht) j
  have hheld : (t.contract? (.ref q)).isSome := by
    have h := (hc.library (Store.Keeps.of_grows ht)).held
    rw [value,id_mk] at h
    simp [h]
  exact ⟨u,outcome_of_holds hheld (by simpa only [Rule.holds] using hu),hg⟩

/-- Contracts meet the items of a tuple position by position. -/
theorem eachPasses_judged (hsaid : ∀ c ∈ cs, ∀ v ∈ args, c.Judges M s v (opinion c v))
    (hlen : cs.length = args.length) (j : Nat) :
    (eachPasses (Machine.next^[j+1] M) cs (.fixed args)).Gives ((cs.zip args).all fun p => opinion p.1 p.2) s := by
  induction cs generalizing args s with
  | nil =>
    refine gives_of_eq ?_
    simp [eachPasses]
  | cons c cs ih =>
    cases args with
    | nil => simp at hlen
    | cons v args =>
      obtain ⟨t,ht,hg⟩ := hsaid c (by simp) v (by simp) j s (Store.Keeps.refl _ s)
      have hstep : eachPasses (Machine.next^[j+1] M) (c :: cs) (.fixed (v :: args)) s
          = (if opinion c v then eachPasses (Machine.next^[j+1] M) cs (.fixed args) else return false : Act Bool) t := by
        rw [eachPasses_cons,bind_ok ht]
        cases opinion c v <;> rfl
      cases hb : opinion c v with
      | false => exact ⟨t,by rw [hstep,hb]; simp [hb],hg⟩
      | true =>
        obtain ⟨u,hu,hg'⟩ := ih (s := t)
          (fun d hd w (hw : w ∈ args) => (hsaid d (by simp [hd]) w (by simp [hw])).grows hg) (by simpa using hlen)
        refine ⟨u,?_,hg.trans hg'⟩
        rw [hstep,hb]
        simpa [hb] using hu

/-- What arguments come to under contracts that always say the same. -/
theorem takes_judged (hsaid : ∀ c ∈ cs, ∀ v ∈ args, c.Judges M s v (opinion c v)) (ht : s.Grows t) (j : Nat) :
    Signature.Takes (Machine.next^[j+1] M) cs args (fits opinion cs args) t := by
  by_cases hlen : cs.length = args.length
  · intro v hv
    obtain ⟨u,hu,hg⟩ := eachPasses_judged (s := t) (fun c hc v hv => (hsaid c hc v hv).grows ht) hlen j
    refine ⟨u,?_,hg⟩
    rw [holds_tuple hv,if_pos hlen.symm,hu]
    simp [fits,hlen]
  · have hno : fits opinion cs args = false := by simp [fits,hlen]
    rw [hno]
    exact Signature.takes_of_length fun h => hlen h.symm

/-- Asking whether what a contract is taken for fails is running that contract. -/
theorem mismatches_checked (h : (checked m c.value).Gives c t) :
    Signature.mismatches m c.value v t = (do return (← c.outcome m v) = .mismatched : Act Bool) t := by
  obtain ⟨u,hu,-⟩ := h
  rw [Signature.mismatches,get_bind_apply]
  cases hc : t.contract? c.value with
  | some d =>
    obtain ⟨rfl,-⟩ : d = c ∧ t = u := by simpa [checked,hc] using hu
    rfl
  | none =>
    simp only [checked,get_bind_apply,hc] at hu
    obtain ⟨b,w,-,hu⟩ := bind_eq_ok.mp hu
    obtain ⟨q,x,rule⟩ := c
    cases b with
    | false =>
      obtain ⟨_,_,-,hu⟩ := bind_eq_ok.mp hu
      simp at hu
    | true =>
      have hout : (Contract.mk q x rule).outcome m v t
          = (do outcomeOf m (← m.call (← m.read (.ref q) "run") [v] []) : Act Outcome) t := by
        have hq : t.contract? (.ref q) = none := hc
        simp [outcome,hq]
      calc _ = ((do outcomeOf m (← m.call (← m.read (.ref q) "run") [v] []) : Act Outcome) >>=
                fun o => pure (decide (o = .mismatched))) t := by
              simp only [bind_assoc]
              rfl
        _ = _ := by
              rw [bind_apply,← hout]
              exact (bind_apply ..).symm

theorem judges_mismatches {j : Nat} (hc : c.Stands s (Machine.next^[j+1] M) x) (hb : c.Judges M t v b)
    (ht : s.Keeps .library t) : Always (t.Grows ·) (Signature.mismatches (Machine.next^[j+1] M) c.value v) (!b) := by
  intro u hu
  obtain ⟨w,hw,hg⟩ := hb j u hu
  refine ⟨w,?_,hg⟩
  rw [mismatches_checked (hc.checked u (ht.trans (Store.Keeps.of_grows hu))),bind_ok hw]
  cases b <;> rfl

/-- The conjunction of contracts that stand for themselves. -/
theorem quiet_conjunction (hcs : ∀ c ∈ cs, ∃ x, c.Stands s M.next x) :
    (all M.next (cs.map value)).Quiet (fun v t => ∃ c : Contract, v = c.value ∧ t.Worded c ∧
      t.classOf v = .builtin .contract ∧ c.rule = .all cs) s := by
  have hd : ∀ c ∈ cs, Describable (s.Keeps .library ·) M.next c := fun c hc => by
    obtain ⟨x,hx⟩ := hcs c hc
    exact hx.describable
  refine Gives.bindQuiet (gives_allChecked (fun t ht => Store.Keeps.of_grows ht) hd) fun t ht => ?_
  obtain ⟨x,hx⟩ := calm_joined (s := t) (fun u hu => Store.Keeps.of_grows (ht.trans hu)) hd ") & ("
  refine Gives.bindQuiet hx fun u hu => (quiet_build _ _ u).imp ?_
  rintro v w hw ⟨q,rfl,-,hc,hk⟩
  exact ⟨.mk q (.str x) (.all cs),rfl,⟨⟨Or.inl hc,hk⟩,x,rfl⟩,hc,rfl⟩

end Contract

namespace Signature
variable {M m : Machine} {W : Store → Prop} {s t u : Store} {sig f g k d r v w p x : Value} {name : String}
  {cs as bs : List Contract} {ra rb : Contract} {args : List Value} {a b : Bool} {q : Parts}
  {c : Option BuiltinClass} {y : EStateM.Result Stop Store Value}

theorem blame_fails {e : BuiltinClass} (hW : ∀ u, t.Grows u → W u) (name : String) (hd : AlwaysCalm W (formatted m d))
    (hv : (shortText m v).Renders (t.Grows ·) (some e)) :
    ∃ q u, blame m (.str name) d v t = .error (.raised q) u ∧ t.Grows u ∧ q.cls = e := by
  obtain ⟨_,z,hz,hg'⟩ := hd t (hW t (Store.Keeps.refl _ t))
  obtain ⟨q,y,hy,hg'',hq⟩ := hv z hg'
  refine ⟨q,y,?_,hg'.trans hg'',hq⟩
  rw [blame,bind_ok (formatted_str m name t),bind_ok hz,bind_error hy]

/-- A refusal of arguments is an input error, if they can be shown. -/
theorem rejectInput_ends (hW : ∀ u, t.Grows u → W u) (hk : t.Checks k f (.str name) cs)
    (hd : AlwaysCalm W (formatted m d)) (hv : (shortText m v).Renders (t.Grows ·) c) (message : String) :
    ∃ q u, rejectInput m message k d v t = .error (.raised q) u ∧ t.Grows u ∧ q.cls = c.getD .inputTypeError := by
  cases c with
  | none =>
    obtain ⟨b,u,hu,hg,-⟩ := rejectInput_raises hW hk hd hv message
    exact ⟨.input b,u,hu,hg,rfl⟩
  | some e =>
    obtain ⟨_,u,hu,hg⟩ := calm_logMessage (message ++ name) t
    obtain ⟨q,z,hz,hg',hq⟩ := blame_fails (fun z hz => hW z (hg.trans hz)) name hd fun z hz => hv z (hg.trans hz)
    refine ⟨q,z,?_,hg.trans hg',hq⟩
    rw [rejectInput,bind_ok (fieldOf_member hk),bind_ok (written_str m name t),bind_ok hu,
      bind_ok (fieldOf_member (hk.grows hg)),bind_error hz]

/-- A refusal of a result is an output error, if it can be shown. -/
theorem rejectOutput_ends (hW : ∀ u, t.Grows u → W u) (hk : t.Checks k f (.str name) cs) (hr : Described W m r d)
    (hv : (shortText m v).Renders (t.Grows ·) c) (before between reason : String) :
    ∃ q u, rejectOutput m before between reason k r v t = .error (.raised q) u ∧ t.Grows u ∧
      q.cls = c.getD .outputTypeError := by
  cases c with
  | none =>
    obtain ⟨b,u,hu,hg,-⟩ := rejectOutput_raises hW hk hr hv before between reason
    exact ⟨.output b reason,u,hu,hg,rfl⟩
  | some e =>
    obtain ⟨_,u,hu,hg⟩ := calm_logMessage (before ++ name ++ between) t
    obtain ⟨w,hw,hg'⟩ := hr.description u (hW u hg)
    have hgw := hg.trans hg'
    obtain ⟨q,z,hz,hg'',hq⟩ := blame_fails (fun z hz => hW z (hgw.trans hz)) name hr.written
      fun z hz => hv z (hgw.trans hz)
    refine ⟨q,z,?_,hgw.trans hg'',hq⟩
    rw [rejectOutput,bind_ok (fieldOf_member hk),bind_ok (written_str m name t),bind_ok hu,
      bind_ok (fieldOf_member (hk.grows hg)),bind_ok hw,bind_error hz]

/-- What a plain contract makes of a result: it is handed on, or refused. -/
theorem checkResult_ends (hW : ∀ u, t.Grows u → W u) (hk : t.Checks k f (.str name) cs)
    (hr : Always W (isSignature m r) false) (hd : Described W m r d)
    (hb : Always (t.Grows ·) (mismatches m r g) (!b))
    (hv : b = false → (shortText m g).Renders (t.Grows ·) c) :
    ∃ u, t.Grows u ∧ (b = true ∧ checkResult m k r g t = .ok g u ∨ b = false ∧
      ∃ q, checkResult m k r g t = .error (.raised q) u ∧ q.cls = c.getD .outputTypeError) := by
  obtain ⟨u,hu,hg⟩ := hr t (hW t (Store.Keeps.refl _ t))
  obtain ⟨z,hz,hg'⟩ := hb u hg
  have hgz := hg.trans hg'
  have hstep : checkResult m k r g t = (if !b then
      rejectOutput m "output type mismatch in " "" "but returned" k r g else return g : Act Value) z := by
    rw [checkResult_contract hu,bind_ok hz]
  cases b with
  | true => exact ⟨z,hgz,Or.inl ⟨rfl,hstep⟩⟩
  | false =>
    obtain ⟨q,v,hv,hgv,hq⟩ := rejectOutput_ends (fun y hy => hW y (hgz.trans hy)) (hk.grows hgz) hd
      ((hv rfl).mono fun y hy => hgz.trans hy) "output type mismatch in " "" "but returned"
    exact ⟨v,hgz.trans hgv,Or.inr ⟨rfl,q,hstep.trans hv,hq⟩⟩

/-- A signature that promises no function, on every level. -/
def Flat (W : Store → Prop) (M : Machine) (sig : Value) (cs : List Contract) (r : Value) : Prop :=
  ∀ j, Curried W (Machine.next^[j] M) r sig [cs]

theorem Flat.mono {W' : Store → Prop} (h : Flat W M sig cs r) (hW : ∀ t, W' t → W t) : Flat W' M sig cs r :=
  fun j => (h j).mono hW

/-- What is built out of contracts that stand for themselves is flat, if the last one is no signature. -/
theorem flat_of_assembled (hcs : ∀ c ∈ cs, c.Standing M s) (hr : rb.Standing M s)
    (hplain : ∀ j, Always (s.Keeps .library ·) (isSignature (Machine.next^[j+1] M) rb.value) false)
    (h : s.Assembled sig cs rb.value) : Flat (s.Keeps .library ·) M sig cs rb.value := by
  intro j
  have hcs' : ∀ c ∈ cs, ∃ x, c.Stands s (Machine.next^[j] M).next x := fun c hc => (hcs c hc).stands j
  obtain ⟨x,hx⟩ := hr.stands j
  have hplain' := hplain j
  rw [Function.iterate_succ_apply'] at hplain'
  exact curried_of_built hcs' (h.built hcs') ⟨rfl,hplain',.str x,hx.spoken⟩

theorem flat_of_proc {i : Nat} (hcs : ∀ c ∈ cs, c.Standing M s) (hr : rb.Standing M s)
    (hplain : ∀ j, Always (s.Keeps .library ·) (isSignature (Machine.next^[j+1] M) rb.value) false)
    (h : Contract.proc (Machine.next^[i+1] M) (cs.map Contract.value ++ [rb.value]) s = .ok sig t) :
    s.Grows t ∧ Flat (t.Keeps .library ·) M sig cs rb.value := by
  obtain ⟨x,hx⟩ := hr.stands i
  obtain ⟨v,u,hv,hg,hassembled⟩ := Contract.quiet_assemble (fun c hc => (hcs c hc).stands i) hx
  rw [Function.iterate_succ_apply'] at h
  cases h.symm.trans hv
  have hst : s.Keeps .library t := Store.Keeps.of_grows hg
  exact ⟨hg,flat_of_assembled (fun c hc => (hcs c hc).keep hst) (hr.keep hst)
    (fun j u hu => hplain j u (hst.trans hu)) hassembled⟩

/-- How a call ends: its arguments are refused, the body fails, its result is refused or it is handed on.  A class
is that of the fault. -/
inductive Verdict where
  | refused (c : BuiltinClass)
  | failed (c : BuiltinClass)
  | rejected (c : BuiltinClass)
  | returned
  deriving DecidableEq

/-- What becomes of it under a further look at the result. -/
def Verdict.andThen (passes : Bool) (c : BuiltinClass) : Verdict → Verdict
  | returned => if passes then returned else rejected c
  | v => v

/-- Two looks at a result are one look with both. -/
theorem Verdict.andThen_andThen (a b : Bool) (c : BuiltinClass) (v : Verdict) :
    (v.andThen a c).andThen b c = v.andThen (a && b) c := by
  cases v <;> cases a <;> rfl

/-- How a call of `f`, bare or wrapped, ends: arguments that are refused run nothing; otherwise `f` ran once, on
these arguments, and what was handed on is what it returned. -/
inductive Comes (M : Machine) (f : Value) (args : List Value) (s : Store) :
    Verdict → EStateM.Result Stop Store Value → Prop where
  | refused {q : Fault} {u : Store} : s.Grows u → Comes M f args s (.refused q.cls) (.error (.raised q) u)
  | failed {j : Nat} {t u : Store} {q : Fault} : s.Grows t →
      (Machine.next^[j+1] M).call f args [] t = .error (.raised q) u →
      Comes M f args s (.failed q.cls) (.error (.raised q) u)
  | rejected {j : Nat} {t u v : Store} {g : Value} {q : Fault} : s.Grows t →
      (Machine.next^[j+1] M).call f args [] t = .ok g u → u.Grows v →
      Comes M f args s (.rejected q.cls) (.error (.raised q) v)
  | returned {j : Nat} {t u v : Store} {g : Value} : s.Grows t →
      (Machine.next^[j+1] M).call f args [] t = .ok g u → u.Grows v → Comes M f args s .returned (.ok g v)

/-- What a result that `f` returns on its arguments comes to: it is left to be shown like this, and a contract says
this of it. -/
def Weighs (M : Machine) (f : Value) (args : List Value) (s : Store) (r : Contract) (b : Bool)
    (c : Option BuiltinClass) : Prop :=
  ∀ j t g u, s.Grows t → (Machine.next^[j+1] M).call f args [] t = .ok g u → t.Keeps .library u ∧
    r.Judges M u g b ∧ (b = false → ∀ i, (shortText (Machine.next^[i+1] M) g).Renders (u.Grows ·) c)

theorem Weighs.grows {r : Contract} (h : Weighs M f args s r b c) (ht : s.Grows t) : Weighs M f args t r b c :=
  fun j u g v hu => h j u g v (ht.trans hu)

section boundary
variable {z : Verdict} {j : Nat} (hsig : Flat W M sig cs rb.value) (hW : ∀ t u, W t → t.Keeps .library u → W u)
  (hs : W s) (hw : s.Wraps .wrapper w p k) (hk : s.Checks k sig (.str name) cs)
include hsig hW hs hw hk

/-- Arguments that a signature does not take are refused before anything runs. -/
theorem comes_refused (htakes : ∀ t, s.Grows t → Takes (Machine.next^[j+1] M) cs args false t)
    (hshown : ∀ t x, s.Grows t → t.IsTuple x args → (shortText (Machine.next^[j+1] M) x).Renders (t.Grows ·) c) :
    Comes M f args s (.refused (c.getD .inputTypeError)) ((Machine.next^[j+3] M).call w args [] s) := by
  obtain ⟨q,hl,-,-⟩ := hsig j
  obtain ⟨a,n,t,ht,hh,hcall⟩ := call_wrapper (M := Machine.next^[j+2] M) args hw (Or.inl rfl)
  rw [Function.iterate_succ_apply',hcall,Function.iterate_succ_apply' _ (j+1),call_check (hk.grows ht)]
  have hWt (u : Store) (hu : t.Grows u) : W u := hW s u hs (Store.Keeps.of_grows (ht.trans hu))
  obtain ⟨d,hd⟩ := hl.input
  rw [Function.iterate_succ_apply'] at htakes hshown ⊢
  obtain ⟨u,hg,hu⟩ := enforce_asks (g := p) hWt hl (hk.grows ht) hh hd fun u hu => htakes u (ht.trans hu)
  obtain ⟨e,v,hv,hg',he⟩ := rejectInput_ends (fun z hz => hWt z (hg.trans hz)) ((hk.grows ht).grows hg) hd.written
    (hshown u a (ht.trans hg) (hh.args.grows hg)) "input type mismatch in "
  rw [hu]
  simp only [Bool.not_false,if_true]
  rw [hv,← he]
  exact .refused ((ht.trans hg).trans hg')

/-- Arguments that it takes go to what is wrapped, and the signature has a further look at what that returned. -/
theorem comes_called (htakes : ∀ t, s.Grows t → Takes (Machine.next^[j+1] M) cs args true t)
    (hp : ∀ t, s.Grows t → Comes M f args t z ((Machine.next^[j+1] M).call p args [] t))
    (hr : rb.Standing M s) (hb : z = .returned → Weighs M f args s rb b c) :
    Comes M f args s (z.andThen b (c.getD .outputTypeError)) ((Machine.next^[j+3] M).call w args [] s) := by
  obtain ⟨q,hl,-,hret,hplain,d,hd⟩ := hsig j
  obtain ⟨a,n,t,ht,hh,hcall⟩ := call_wrapper (M := Machine.next^[j+2] M) args hw (Or.inl rfl)
  rw [Function.iterate_succ_apply',hcall,Function.iterate_succ_apply' _ (j+1),call_check (hk.grows ht)]
  have hWt (u : Store) (hu : t.Grows u) : W u := hW s u hs (Store.Keeps.of_grows (ht.trans hu))
  rw [Function.iterate_succ_apply'] at htakes hp ⊢
  obtain ⟨u,hu,henforce⟩ := enforce_calls (g := p) hWt hl (hk.grows ht) hh fun u hu => htakes u (ht.trans hu)
  rw [henforce]
  have hinner := hp u (ht.trans hu)
  generalize hy : (Machine.next^[j] M).next.call p args [] u = y at hinner
  cases hinner with
  | refused hg =>
    rw [bind_error hy]
    exact .refused ((ht.trans hu).trans hg)
  | failed hg hf =>
    rw [bind_error hy]
    exact .failed ((ht.trans hu).trans hg) hf
  | rejected hg hf hg' =>
    rw [bind_error hy]
    exact .rejected ((ht.trans hu).trans hg) hf hg'
  | @returned i t' u' v g hg hf hg' =>
    have hst' := (ht.trans hu).trans hg
    obtain ⟨hkeep,hjudge,hshow⟩ := hb rfl i t' g u' hst' hf
    have hkv := ((Store.Keeps.of_grows hst').trans hkeep).trans (Store.Keeps.of_grows hg')
    have hWv : W v := hW s v hs hkv
    have hkv' : v.Checks k sig (.str name) cs := checks_library hk hkv
    obtain ⟨x,hx⟩ := hr
    have hmismatch := Contract.judges_mismatches (hx j) (hjudge.grows hg') hkv
    rw [Function.iterate_succ_apply'] at hmismatch
    have hlater (z : Store) (hz : v.Grows z) : W z := hW v z hWv (Store.Keeps.of_grows hz)
    have hshown (hb : b = false) := (hshow hb j).mono fun y hy => hg'.trans hy
    rw [Function.iterate_succ_apply'] at hshown
    obtain ⟨z,hz,hend⟩ := checkResult_ends hlater hkv' hplain hd hmismatch hshown
    rw [bind_ok hy,checkResult_layer hlater hkv' hl,hret]
    rcases hend with ⟨rfl,hok⟩ | ⟨rfl,e,herr,he⟩
    · rw [hok]
      exact .returned hst' hf (hg'.trans hz)
    · rw [herr]
      simp only [Verdict.andThen,Bool.false_eq_true,if_false]
      rw [← he]
      exact .rejected hst' hf (hg'.trans hz)

end boundary

/-- What a callable does on its arguments, wherever it is called: it raises a fault of a class; or it returns what
two contracts always say the same of, and what can be shown or not. -/
inductive Course where
  | raises (c : BuiltinClass)
  | returns (a b : Bool) (shown : Option BuiltinClass)

/-- How a call ends that runs such a body. -/
def Course.verdict : Course → Verdict
  | raises c => .failed c
  | returns a b c => if a && b then .returned else .rejected (c.getD .outputTypeError)

/-- A body that returns leaves the library's objects alone. -/
def Follows (M : Machine) (ra rb : Contract) (f : Value) (args : List Value) (s : Store) : Course → Prop
  | .raises c => ∀ j t, s.Grows t →
      ∃ q u, (Machine.next^[j+1] M).call f args [] t = .error (.raised q) u ∧ q.cls = c
  | .returns a b c => ∀ j t, s.Grows t →
      ∃ g u, (Machine.next^[j+1] M).call f args [] t = .ok g u ∧ t.Keeps .library u ∧ ra.Judges M u g a ∧
        rb.Judges M u g b ∧ (!(a && b) → ∀ i, (shortText (Machine.next^[i+1] M) g).Renders (u.Grows ·) c)

/-- What a body does is looked at twice, or once with both contracts. -/
theorem Follows.weighs {x : Course} (h : Follows M ra rb f args s x) : ∃ z a b e,
    (∀ j t, s.Grows t → Comes M f args t z ((Machine.next^[j+1] M).call f args [] t)) ∧
      Weighs M f args s ra a e ∧ Weighs M f args s rb b e ∧
      (∀ r : Contract, s.IsContract r → r.rule = .all [ra,rb] → Weighs M f args s r (a && b) e) ∧
      x.verdict = z.andThen (a && b) (e.getD .outputTypeError) := by
  cases x with
  | raises c =>
    have none (r : Contract) : Weighs M f args s r true none := by
      intro j t g u ht hg
      obtain ⟨q,v,hv,-⟩ := h j t ht
      cases hv.symm.trans hg
    refine ⟨.failed c,true,true,Option.none,fun j t ht => ?_,none ra,none rb,fun r _ _ => none r,rfl⟩
    obtain ⟨q,u,hu,rfl⟩ := h j t ht
    rw [hu]
    exact .failed (Store.Keeps.refl _ t) hu
  | returns a b c =>
    have weighs {r : Contract} {b' : Bool} (hr : ∀ t u g, s.Grows t → t.Keeps .library u → ra.Judges M u g a →
        rb.Judges M u g b → r.Judges M u g b') (hb : b' = false → !(a && b)) : Weighs M f args s r b' c := by
      intro j t g u ht hg
      obtain ⟨g',u',hg',hkeep,ha,hb',hshow⟩ := h j t ht
      cases hg'.symm.trans hg
      exact ⟨hkeep,hr t u g ht hkeep ha hb',fun hf => hshow (hb hf)⟩
    refine ⟨.returned,a,b,c,fun j t ht => ?_,weighs (fun _ _ _ _ _ h _ => h) (by rintro rfl; rfl),
      weighs (fun _ _ _ _ _ _ h => h) (by rintro rfl; simp),fun r hr hrule => weighs (fun t u g ht hkeep ha hb => ?_)
      (by intro h; simp [h]),rfl⟩
    · obtain ⟨g,u,hu,-⟩ := h j t ht
      rw [hu]
      exact .returned (Store.Keeps.refl _ t) hu (Store.Keeps.refl _ u)
    · exact Contract.judges_all (hr.library ((Store.Keeps.of_grows ht).trans hkeep)) hrule ha hb

/-- The signature that two signatures are together: each parameter has to meet both contracts of its place, and
the result both contracts of results. -/
def conjoined (m : Machine) (as bs : List Value) (ra rb : Value) : Act Value := do
  let cs ← each (fun p => Contract.all m [p.2,p.1]) (as.zip bs)
  let r ← Contract.all m [ra,rb]
  Contract.proc m (cs ++ [r])

/-- The contracts that a conjunction of signatures is made of. -/
structure Conjoins (s : Store) (as bs : List Contract) (ra rb : Contract) (cs : List Contract) (r : Contract) :
    Prop where
  params : List.Forall₂ (fun p c => s.Worded c ∧ c.rule = .all [p.2,p.1]) (as.zip bs) cs
  ret : s.Worded r
  plain : s.classOf r.value = .builtin .contract
  both : r.rule = .all [ra,rb]

theorem Conjoins.keep {r : Contract} (h : Conjoins s as bs ra rb cs r) (ht : s.Keeps .library t) :
    Conjoins t as bs ra rb cs r := by
  refine ⟨h.params.imp fun p c hc => ⟨hc.1.keep ht,hc.2⟩,h.ret.keep ht,?_,h.both⟩
  rw [ht.classOf h.ret.held.holds,h.plain]

theorem each_map {α β γ : Type} (f : β → Act γ) (h : α → β) (l : List α) :
    each f (l.map h) = each (fun x => f (h x)) l := by
  induction l with
  | nil => rfl
  | cons x xs ih => simp only [List.map_cons,each,ih]

theorem quiet_conjoined (hcs : ∀ c ∈ ra :: rb :: (as ++ bs), ∃ x, c.Stands s M.next x) :
    (conjoined M.next (as.map Contract.value) (bs.map Contract.value) ra.value rb.value).Quiet
      (fun v t => ∃ cs r, t.Assembled v cs r.value ∧ Conjoins t as bs ra rb cs r) s := by
  have hzip : (as.map Contract.value).zip (bs.map Contract.value)
      = (as.zip bs).map fun p => (p.1.value,p.2.value) := by
    simp [List.zip_map,Prod.map]
  have later {c : Contract} {t : Store} (ht : s.Grows t) (hc : ∃ x, c.Stands s M.next x) :
      ∃ x, c.Stands t M.next x := by
    obtain ⟨x,hx⟩ := hc
    exact ⟨x,hx.grows ht⟩
  rw [conjoined,hzip,each_map]
  refine Quiet.bind (quiet_contracts
    (P := fun (p : Contract × Contract) c t => t.Worded c ∧ c.rule = .all [p.2,p.1])
    (fun p c t u hu hc => ⟨hc.1.keep (Store.Keeps.of_grows hu),hc.2⟩) fun p hp t ht => ?_) ?_
  · obtain ⟨ha,hb⟩ := List.of_mem_zip hp
    refine (Contract.quiet_conjunction fun c (hc : c ∈ [p.2,p.1]) => ?_).imp ?_
    · obtain rfl | rfl : c = p.2 ∨ c = p.1 := by simpa using hc
      · exact later ht (hcs _ (by simp [hb]))
      · exact later ht (hcs _ (by simp [ha]))
    · rintro v u - ⟨c,rfl,hc,-,hr⟩
      exact ⟨c,rfl,hc,hr⟩
  rintro _ t ht ⟨cs,rfl,hparams⟩
  refine Quiet.bind (Contract.quiet_conjunction fun c (hc : c ∈ [ra,rb]) => ?_) ?_
  · obtain rfl | rfl : c = ra ∨ c = rb := by simpa using hc
    · exact later ht (hcs _ (by simp))
    · exact later ht (hcs _ (by simp))
  rintro _ u hu ⟨r,rfl,hr,hplain,hboth⟩
  have hcs' : ∀ c ∈ cs, ∃ x, c.Stands u M.next x := by
    intro c hc
    obtain ⟨p,-,hc,-⟩ := exists_of_mem_right hparams hc
    exact (hc.keep (Store.Keeps.of_grows hu)).stands
  obtain ⟨x,hx⟩ := hr.stands (M := M)
  refine (Contract.quiet_assemble hcs' hx).imp fun v w hw hv => ⟨cs,r,hv,?_⟩
  have hconj : Conjoins u as bs ra rb cs r :=
    ⟨hparams.imp fun p c hc => ⟨hc.1.keep (Store.Keeps.of_grows hu),hc.2⟩,hr,hplain,hboth⟩
  exact hconj.keep (Store.Keeps.of_grows hw)

theorem flat_of_conjoined {i : Nat} (hcs : ∀ d ∈ ra :: rb :: (as ++ bs), d.Standing M s)
    (h : conjoined (Machine.next^[i+1] M) (as.map Contract.value) (bs.map Contract.value) ra.value rb.value s
      = .ok sig t) : s.Grows t ∧ ∃ cs r, Flat (t.Keeps .library ·) M sig cs r.value ∧ Conjoins t as bs ra rb cs r := by
  obtain ⟨v,u,hv,hg,cs,r,hassembled,hconj⟩ := quiet_conjoined fun d hd => (hcs d hd).stands i
  rw [Function.iterate_succ_apply'] at h
  cases h.symm.trans hv
  refine ⟨hg,cs,r,flat_of_assembled (fun c hc => ?_) (Contract.standing_of_worded hconj.ret) (fun j u hu => ?_)
    hassembled,hconj⟩
  · obtain ⟨p,-,hc,-⟩ := exists_of_mem_right hconj.params hc
    exact Contract.standing_of_worded hc
  · exact gives_of_eq (isKind_builtin (hconj.keep hu).plain (by decide))

/-- What each of two contracts says, for a contract that is made of both. -/
def both (opinion : Contract → Value → Bool) (c : Contract) (v : Value) : Bool :=
  match c.rule with
  | .all [d,e] => opinion d v && opinion e v
  | _ => false

/-- Arguments meet the conjunctions if they meet the contracts of both sides. -/
theorem fits_both {opinion : Contract → Value → Bool} (hlen : as.length = bs.length)
    (h : List.Forall₂ (fun p (c : Contract) => c.rule = .all [p.2,p.1]) (as.zip bs) cs) :
    fits (both opinion) cs args = (fits opinion bs args && fits opinion as args) := by
  induction as generalizing bs cs args with
  | nil =>
    obtain rfl : bs = [] := by simpa using hlen.symm
    obtain rfl : cs = [] := by simpa using h
    cases args <;> rfl
  | cons a as ih =>
    cases bs with
    | nil => simp at hlen
    | cons b bs =>
      obtain ⟨c,cs,hc,hcs,rfl⟩ := List.forall₂_cons_left_iff.mp h
      cases args with
      | nil => rfl
      | cons v args =>
        have hrest := @ih cs bs args (by simpa using hlen) hcs
        have hone : both opinion c v = (opinion b v && opinion a v) := by simp [both,hc]
        have hcount (n : Nat) : (n + 1 == args.length + 1) = (n == args.length) := by simp
        simp only [fits,List.length_cons,List.zip_cons_cons,List.all_cons,hone,hcount] at hrest ⊢
        cases opinion a v <;> cases opinion b v <;> simp [hrest]

/-- `w` was made as a wrapper of `f` with a new check of the signature, for a member of some name. -/
structure Signed (M : Machine) (s t : Store) (w f sig : Value) : Prop where
  made : ∃ k name i u v, s.Keeps .library u ∧ check (Machine.next^[i+1] M) sig (.str name) u = .ok k v ∧
    v.Keeps .library t ∧ t.Wraps .wrapper w f k

theorem Signed.checks (h : Signed M s t w f sig) (hsig : Flat (s.Keeps .library ·) M sig cs r) :
    s.Keeps .library t ∧ ∃ k name, t.Wraps .wrapper w f k ∧ t.Checks k sig (.str name) cs := by
  obtain ⟨k,name,i,u,v,hu,hk,hv,hw⟩ := h.made
  obtain ⟨q,hl,-⟩ := hsig i
  rw [Function.iterate_succ_apply'] at hk
  obtain ⟨k',v',hk',hg,hchecks,-⟩ := quiet_check (fun z hz => hu.trans (Store.Keeps.of_grows hz)) (hl.signature u hu)
    (n := .str name) hl.parts
  cases hk.symm.trans hk'
  exact ⟨(hu.trans (Store.Keeps.of_grows hg)).trans hv,k,name,hw,checks_library hchecks hv⟩

/-- How a signed call ends: the arguments are refused, or the body runs and its result is looked at. -/
def Course.under (x : Course) (accepted : Bool) (shown : Option BuiltinClass) : Verdict :=
  if accepted then x.verdict else .refused (shown.getD .inputTypeError)

section stacked
variable {A B C w₁ w₂ : Value} {sA sB sC : Store} {opinion : Contract → Value → Bool} {i j : Nat} {o : Course}
  (hsaid : ∀ c ∈ as ++ bs, ∀ v ∈ args, c.Judges M t v (opinion c v))
  (hshown : !(fits opinion bs args && fits opinion as args) → ∀ j u x, t.Grows u → u.IsTuple x args →
    (shortText (Machine.next^[j+1] M) x).Renders (u.Grows ·) c)
include hsaid hshown

/-- A wrapper in a wrapper: the outer one looks at the arguments first and at the result last. -/
theorem comes_stacked (hW : ∀ t u, W t → t.Keeps .library u → W u) (ht : W t)
    (hA : Flat W M A as ra.value) (hB : Flat W M B bs rb.value)
    (hra : ra.Standing M t) (hrb : rb.Standing M t)
    {k₁ k₂ : Value} {n₁ n₂ : String} (hw₁ : t.Wraps .wrapper w₁ f k₁) (hk₁ : t.Checks k₁ A (.str n₁) as)
    (hw₂ : t.Wraps .wrapper w₂ w₁ k₂) (hk₂ : t.Checks k₂ B (.str n₂) bs)
    (hf : fits opinion bs args && fits opinion as args → Follows M ra rb f args t o) :
    Comes M f args t (o.under (fits opinion bs args && fits opinion as args) c)
      ((Machine.next^[j+5] M).call w₂ args [] t) := by
  have later {u : Store} (hu : t.Grows u) : W u := hW t u ht (Store.Keeps.of_grows hu)
  have htakesA {u : Store} (hu : t.Grows u) (j : Nat) : Takes (Machine.next^[j+1] M) as args (fits opinion as args) u :=
    Contract.takes_judged (fun c hc v hv => hsaid c (by simp [hc]) v hv) hu j
  have htakesB {u : Store} (hu : t.Grows u) (j : Nat) : Takes (Machine.next^[j+1] M) bs args (fits opinion bs args) u :=
    Contract.takes_judged (fun c hc v hv => hsaid c (by simp [hc]) v hv) hu j
  cases hb : fits opinion bs args with
  | false =>
    rw [hb] at htakesB hshown
    exact comes_refused hB hW ht hw₂ hk₂ (fun u hu => htakesB hu _) fun u x hu hx => hshown rfl _ u x hu hx
  | true =>
    rw [hb] at htakesB hf hshown
    cases ha : fits opinion as args with
    | false =>
      rw [ha] at htakesA hshown
      refine comes_called (z := .refused (c.getD .inputTypeError)) (b := true) (c := none) hB hW ht hw₂ hk₂
        (fun u hu => htakesB hu _) (fun u hu => ?_) hrb nofun
      exact comes_refused hA hW (later hu) (hw₁.grows hu) (hk₁.grows hu)
        (fun v hv => htakesA (hu.trans hv) _) fun v x hv hx => hshown rfl _ v x (hu.trans hv) hx
    | true =>
      rw [ha] at htakesA hf
      obtain ⟨z,a,b,e,hbare,hweighsA,hweighsB,-,hverdict⟩ := (hf rfl).weighs
      have hunder : o.under (true && true) c = (z.andThen a (e.getD .outputTypeError)).andThen b (e.getD .outputTypeError) := by
        rw [Verdict.andThen_andThen,← hverdict]
        rfl
      rw [hunder]
      refine comes_called hB hW ht hw₂ hk₂ (fun u hu => htakesB hu _) (fun u hu => ?_) hrb fun _ => hweighsB
      exact comes_called hA hW (later hu) (hw₁.grows hu) (hk₁.grows hu) (fun v hv => htakesA (hu.trans hv) _)
        (fun v hv => hbare _ v (hu.trans hv)) (hra.keep (Store.Keeps.of_grows hu)) fun _ => hweighsA.grows hu

/-- A single wrapper with the conjunctions. -/
theorem comes_conjoined (hW : ∀ t u, W t → t.Keeps .library u → W u) (ht : W t) {r : Contract}
    (hC : Flat W M C cs r.value) (hcs : Conjoins t as bs ra rb cs r) (hlen : as.length = bs.length) {k : Value}
    {n : String} (hw : t.Wraps .wrapper w f k) (hk : t.Checks k C (.str n) cs)
    (hf : fits opinion bs args && fits opinion as args → Follows M ra rb f args t o) :
    Comes M f args t (o.under (fits opinion bs args && fits opinion as args) c)
      ((Machine.next^[j+3] M).call w args [] t) := by
  have hboth : fits (both opinion) cs args = (fits opinion bs args && fits opinion as args) :=
    fits_both hlen (hcs.params.imp fun _ _ h => h.2)
  have htakes {u : Store} (hu : t.Grows u) : Takes (Machine.next^[j+1] M) cs args (fits (both opinion) cs args) u := by
    refine Contract.takes_judged (fun d hd v hv => ?_) hu j
    obtain ⟨p,hp,hworded,hrule⟩ := exists_of_mem_right hcs.params hd
    obtain ⟨ha,hb⟩ := List.of_mem_zip hp
    have hsay : both opinion d v = (opinion p.2 v && opinion p.1 v) := by simp [both,hrule]
    rw [hsay]
    exact Contract.judges_all hworded.held hrule (hsaid p.2 (by simp [hb]) v hv) (hsaid p.1 (by simp [ha]) v hv)
  rw [hboth] at htakes
  cases hb : fits opinion bs args && fits opinion as args with
  | false =>
    rw [hb] at htakes hshown
    exact comes_refused hC hW ht hw hk (fun u hu => htakes hu) fun u x hu hx => hshown rfl _ u x hu hx
  | true =>
    rw [hb] at htakes
    obtain ⟨z,a,b,e,hbare,-,-,hweighs,hverdict⟩ := (hf hb).weighs
    have hunder : o.under true c = z.andThen (a && b) (e.getD .outputTypeError) := hverdict
    rw [hunder]
    exact comes_called hC hW ht hw hk (fun u hu => htakes hu) (fun u hu => hbare _ u hu)
      (Contract.standing_of_worded hcs.ret) fun _ => hweighs r hcs.ret.held hcs.both

/-- Take a callable that was wrapped with one signature and then with another, and the same callable wrapped once
with the conjunctions of their contracts.  If the signatures take the same number of arguments, a call of either ends
alike: its arguments are refused, the body fails, its result is refused, or what the body returned is handed on.  If
they do not, every call is refused and no body runs. -/
theorem calls_of_stacked (hstands : ∀ d ∈ ra :: rb :: (as ++ bs), d.Standing M s)
    (hplain : ∀ r ∈ [ra,rb], ∀ j, Always (s.Keeps .library ·) (isSignature (Machine.next^[j+1] M) r.value) false)
    (hA : Contract.proc (Machine.next^[i+1] M) (as.map Contract.value ++ [ra.value]) s = .ok A sA)
    (hB : Contract.proc (Machine.next^[i+1] M) (bs.map Contract.value ++ [rb.value]) sA = .ok B sB)
    (hC : conjoined (Machine.next^[i+1] M) (as.map Contract.value) (bs.map Contract.value) ra.value rb.value sB
      = .ok C sC)
    (h₁ : Signed M sC t w₁ f A) (h₂ : Signed M sC t w₂ w₁ B) (h : Signed M sC t w f C)
    (hf : fits opinion bs args && fits opinion as args → Follows M ra rb f args t o) :
    (as.length = bs.length →
      Comes M f args t (o.under (fits opinion bs args && fits opinion as args) c)
        ((Machine.next^[j+5] M).call w₂ args [] t) ∧
      Comes M f args t (o.under (fits opinion bs args && fits opinion as args) c)
        ((Machine.next^[j+5] M).call w args [] t)) ∧
    (as.length ≠ bs.length →
      Comes M f args t (.refused (c.getD .inputTypeError)) ((Machine.next^[j+5] M).call w₂ args [] t)) := by
  -- the three signatures, each made where the one before it was
  obtain ⟨hgA,hflatA⟩ := flat_of_proc (fun c hc => hstands c (by simp [hc])) (hstands ra (by simp))
    (fun j => hplain ra (by simp) j) hA
  have hsA : s.Keeps .library sA := Store.Keeps.of_grows hgA
  obtain ⟨hgB,hflatB⟩ := flat_of_proc (fun c hc => (hstands c (by simp [hc])).keep hsA)
    ((hstands rb (by simp)).keep hsA) (fun j u hu => hplain rb (by simp) j u (hsA.trans hu)) hB
  have hAB : sA.Keeps .library sB := Store.Keeps.of_grows hgB
  obtain ⟨hgC,cs,r,hflatC,hconj⟩ := flat_of_conjoined (fun d hd => (hstands d hd).keep (hsA.trans hAB)) hC
  have hBC : sB.Keeps .library sC := Store.Keeps.of_grows hgC
  -- the wrappers around them
  have hflatA' := hflatA.mono fun u hu => (hAB.trans hBC).trans hu
  have hflatB' := hflatB.mono fun u hu => hBC.trans hu
  obtain ⟨ht,k₁,n₁,hw₁,hk₁⟩ := h₁.checks hflatA'
  obtain ⟨-,k₂,n₂,hw₂,hk₂⟩ := h₂.checks hflatB'
  obtain ⟨-,k,n,hw,hk⟩ := h.checks hflatC
  have hW (t u : Store) (ht : sC.Keeps .library t) (hu : t.Keeps .library u) : sC.Keeps .library u := ht.trans hu
  have hst : s.Keeps .library t := ((hsA.trans hAB).trans hBC).trans ht
  have hstacked := comes_stacked (j := j) hsaid hshown hW ht hflatA' hflatB' ((hstands ra (by simp)).keep hst)
    ((hstands rb (by simp)).keep hst) hw₁ hk₁ hw₂ hk₂ hf
  refine ⟨fun hlen => ⟨hstacked,?_⟩,fun hlen => ?_⟩
  · exact comes_conjoined (j := j+2) hsaid hshown hW ht hflatC (hconj.keep ht) hlen hw hk hf
  · have hno : (fits opinion bs args && fits opinion as args) = false := by
      by_contra hyes
      simp only [Bool.not_eq_false,Bool.and_eq_true,fits,beq_iff_eq] at hyes
      exact hlen (hyes.2.1.trans hyes.1.1.symm)
    rw [hno] at hstacked
    exact hstacked

end stacked

theorem Signed.grows (h : Signed M s t w f sig) (ht : t.Grows u) : Signed M s u w f sig := by
  obtain ⟨k,name,i,u',v,hu',hk,hv,hw⟩ := h.made
  exact ⟨k,name,i,u',v,hu',hk,hv.trans (Store.Keeps.of_grows ht),hw.grows ht⟩

/-- Signing a callable with a flat signature makes such a wrapper. -/
theorem exists_signed (hsig : Flat (s.Keeps .library ·) M sig cs r) (ht : s.Keeps .library t)
    (hf : Wrapper.Tells (t.Grows ·) M.next f) (name : String) :
    ∃ w k u, t.Grows u ∧ u.Wraps .wrapper w f k ∧ Signed M s u w f sig := by
  obtain ⟨q,hl,-⟩ := hsig 0
  obtain ⟨k,v,hk,hg,-,-⟩ := quiet_check (M := M) (fun z hz => ht.trans (Store.Keeps.of_grows hz)) (hl.signature t ht)
    (n := .str name) hl.parts
  obtain ⟨w,u,-,hg',hw,-⟩ := Wrapper.quiet_make (m := M.next) (c := .wrapper) (a := k) (e := [])
    (fun y hy => hg.trans hy) hf (Or.inl rfl)
  exact ⟨w,k,u,hg.trans hg',hw,⟨k,name,0,t,v,ht,hk,Store.Keeps.of_grows hg',hw⟩⟩

/-- A function that gives back its only argument. -/
def identity : Function := ⟨"f","f",.str "m",.absent,.closure ⟨"f",[(.required "x",none)],.variable "x",[]⟩⟩

def withIdentity : Store :=
  { Store.initial with
    heap := Store.initial.heap.push { cls := .builtin .function, attrs := some [], body := .function identity } }

/-- What lets everything pass says so on every level. -/
theorem judges_anything (h : s.IsContract Contract.anything) (v : Value) : Contract.anything.Judges M s v true := by
  intro j t ht
  have hheld : (t.contract? (.ref anyRef)).isSome := by
    have hc := (h.library (Store.Keeps.of_grows ht)).held
    rw [show Contract.anything.value = .ref anyRef from rfl] at hc
    simp [hc]
  exact gives_of_eq (Contract.outcome_of_holds (b := true) hheld (by simp [Rule.holds]))

/-- Its argument goes through two wrappers, and through one, and comes back. -/
theorem calls_of_stacked_identity : ∃ w₁ w₂ w t,
    (∃ k₁ k₂ k, t.Wraps .wrapper w₁ (.ref 33) k₁ ∧ t.Wraps .wrapper w₂ w₁ k₂ ∧ t.Wraps .wrapper w (.ref 33) k) ∧
    Comes Machine.halted (.ref 33) [.int 1] t .returned ((Machine.next^[5] Machine.halted).call w₂ [.int 1] [] t) ∧
    Comes Machine.halted (.ref 33) [.int 1] t .returned ((Machine.next^[5] Machine.halted).call w [.int 1] [] t) := by
  have hany : withIdentity.IsContract Contract.anything := ⟨Or.inl rfl,rfl⟩
  have hstanding : Contract.anything.Standing Machine.halted withIdentity := Contract.standing_of_worded ⟨hany,_,rfl⟩
  have hstands : ∀ d ∈ Contract.anything :: Contract.anything :: ([Contract.anything] ++ [Contract.anything]),
      d.Standing Machine.halted withIdentity := by
    intro d hd
    obtain rfl : d = Contract.anything := by simpa using hd
    exact hstanding
  have hplain (j : Nat) : Always (withIdentity.Keeps .library ·)
      (isSignature (Machine.next^[j+1] Machine.halted) Contract.anything.value) false := by
    intro t ht
    have hcls : t.classOf (.ref anyRef) = .builtin .contract := by
      rw [ht.classOf (Store.holds_ref rfl (List.mem_of_elem_eq_true rfl))]
      rfl
    exact gives_of_eq (isKind_builtin hcls (by decide))
  have hf {t : Store} (ht : withIdentity.Grows t) : t.IsFunction (.ref 33) identity :=
    Store.IsFunction.grows ⟨rfl,rfl⟩ ht
  -- three signatures
  obtain ⟨x,hx⟩ := hstanding.stands 0
  obtain ⟨A,sA,hA,hgA,-⟩ := Contract.quiet_assemble
    (fun c (hc : c ∈ [Contract.anything]) => (hstands c (by simp_all)).stands 0) hx
  have hstands' := fun d hd => (hstands d hd).keep (Store.Keeps.of_grows hgA)
  obtain ⟨-,hflatA⟩ := flat_of_proc (i := 0) (fun c hc => hstands c (by simp_all)) hstanding hplain hA
  obtain ⟨y,hy⟩ := (hstands' Contract.anything (by simp)).stands 0
  obtain ⟨B,sB,hB,hgB,-⟩ := Contract.quiet_assemble
    (fun c (hc : c ∈ [Contract.anything]) => (hstands' c (by simp_all)).stands 0) hy
  have hAB : sA.Keeps .library sB := Store.Keeps.of_grows hgB
  obtain ⟨-,hflatB⟩ := flat_of_proc (i := 0) (fun c hc => hstands' c (by simp_all)) (hstands' _ (by simp))
    (fun j u hu => hplain j u ((Store.Keeps.of_grows hgA).trans hu)) hB
  have hstandsB := fun d hd => (hstands' d hd).keep hAB
  obtain ⟨C,sC,hC,hgC,-⟩ := quiet_conjoined fun d hd => (hstandsB d hd).stands 0
  obtain ⟨-,cs,r,hflatC,-⟩ := flat_of_conjoined (i := 0) hstandsB hC
  have hBC : sB.Keeps .library sC := Store.Keeps.of_grows hgC
  have hgrown := (hgA.trans hgB).trans hgC
  -- three wrappers
  obtain ⟨w₁,k₁,t₁,h₁,hw₁,hs₁⟩ := exists_signed (hflatA.mono fun u hu => (hAB.trans hBC).trans hu)
    (Store.Keeps.refl _ sC) (Wrapper.tells_function fun t ht => hf (hgrown.trans ht)) "f"
  obtain ⟨w₂,k₂,t₂,h₂,hw₂,hs₂⟩ := exists_signed (hflatB.mono fun u hu => hBC.trans hu) (Store.Keeps.of_grows h₁)
    (Wrapper.tells_wrapper (by simp) fun t ht => hw₁.grows ht) "f"
  obtain ⟨w,k,t,h,hw,hs⟩ := exists_signed hflatC (Store.Keeps.of_grows (h₁.trans h₂))
    (Wrapper.tells_function fun t ht => hf ((hgrown.trans (h₁.trans h₂)).trans ht)) "f"
  have hgrownt := hgrown.trans ((h₁.trans h₂).trans h)
  have hanyt {u : Store} (hu : t.Grows u) : u.IsContract Contract.anything :=
    hany.library (Store.Keeps.of_grows (hgrownt.trans hu))
  refine ⟨w₁,w₂,w,t,⟨k₁,k₂,k,(hw₁.grows h₂).grows h,hw₂.grows h,hw⟩,?_⟩
  have hsaid : ∀ c ∈ [Contract.anything] ++ [Contract.anything], ∀ v ∈ [Value.int 1],
      c.Judges Machine.halted t v true := by
    intro c hc v _
    obtain rfl : c = Contract.anything := by simpa using hc
    exact judges_anything (hanyt (Store.Keeps.refl _ t)) v
  have hfollows : Follows Machine.halted Contract.anything Contract.anything (.ref 33) [.int 1] t
      (.returns true true none) := by
    intro j u hu
    refine ⟨.int 1,u,?_,Store.Keeps.refl _ u,judges_anything (hanyt hu) _,judges_anything (hanyt hu) _,nofun⟩
    rw [Function.iterate_succ_apply',call_function (hf (hgrownt.trans hu))]
    rfl
  have hplains : ∀ r ∈ [Contract.anything,Contract.anything], ∀ j, Always (withIdentity.Keeps .library ·)
      (isSignature (Machine.next^[j+1] Machine.halted) r.value) false := by
    intro r hr
    obtain rfl : r = Contract.anything := by simpa using hr
    exact hplain
  have hcalls := calls_of_stacked (M := Machine.halted) (c := none) (i := 0) (j := 0)
    (o := .returns true true none) hsaid nofun hstands hplains hA hB hC ((hs₁.grows h₂).grows h) (hs₂.grows h) hs
    fun _ => hfollows
  exact hcalls.1 rfl

/-- A function that was wrapped with a signature of one parameter and then with one of two, and an instance of a
class that bears the name of a builtin one. -/
def misnamed : Act (Value × Value) := do
  let c ← (Expr.classDef "list" [] []).eval Machine.full []
  let x ← Machine.full.call c [] []
  let f ← (Expr.function "f" [.required "x"] [] (.variable "x") none).eval Machine.full []
  let one ← Contract.proc Machine.full [Contract.anything.value,Contract.anything.value]
  let two ← Contract.proc Machine.full [Contract.anything.value,Contract.anything.value,Contract.anything.value]
  return (← sign Machine.full two (← sign Machine.full one f),x)

/-- The numbers of parameters differ, and yet the call ends in no input error: what was passed cannot be shown. -/
theorem fails_misnamed :
    faultClass (misnamed >>= fun p => Machine.full.call p.1 [.int 3] []) Store.initial = some .inputTypeError ∧
    faultClass (misnamed >>= fun p => Machine.full.call p.1 [p.2] []) Store.initial = some .typeError := by
  decide +kernel

end Signature
end CallContracts
