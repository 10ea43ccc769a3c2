import CallContracts.Proofs.Guarded
import CallContracts.Proofs.Made
import CallContracts.Proofs.Rendering
/-! Four ways to check arguments.  A predicate, a strict predicate, a wrapper with a signature and the input contract of
the signature look at an argument list by themselves.  They come to the same: it passes, or it is refused, or the first
item that does not pass stops them. -/
namespace CallContracts
open Act

/-- What the test of a contract makes of a value. -/
inductive Ruling where
  | passes
  | fails
  | raises (e : Stop)

namespace Ruling

/-- How a run that comes to this ends. -/
def outcome : Ruling → Store → EStateM.Result Stop Store Outcome
  | passes, z => .ok .matched z
  | fails, z => .ok .mismatched z
  | raises e, z => .error e z

/-- How a search for what does not pass ends. -/
def answer : Ruling → Store → EStateM.Result Stop Store Bool
  | passes, z => .ok true z
  | fails, z => .ok false z
  | raises e, z => .error e z

theorem after_outcome {o : Ruling} {x : Act Outcome} {w z : Store} (h : x w = o.outcome z) : after x w = z := by
  rw [after,h]
  cases o <;> rfl

end Ruling

namespace Signature
section ruling
variable (J : Contract → Value → Ruling)

/-- What the first item that does not pass its contract comes to. -/
def firstRuling : List Contract → List Value → Ruling
  | c :: cs, v :: vs =>
    match J c v with
    | .passes => firstRuling cs vs
    | o => o
  | _, _ => .passes

/-- What an argument list comes to. -/
def ruling (cs : List Contract) (args : List Value) : Ruling :=
  if args.length = cs.length then firstRuling J cs args else .fails

/-- There is an item that does not pass its contract, and the first one comes to this. -/
inductive FirstOff (o : Ruling) : List Contract → List Value → Prop
  | here {c : Contract} {v : Value} {cs : List Contract} {vs : List Value} : J c v = o → o ≠ .passes →
      FirstOff o (c :: cs) (v :: vs)
  | later {c : Contract} {v : Value} {cs : List Contract} {vs : List Value} : J c v = .passes → FirstOff o cs vs →
      FirstOff o (c :: cs) (v :: vs)

/-- The three cases: as many items as contracts, each of which passes; or another number of them, or a first one that
mismatches; or a first one whose test raises. -/
inductive Case (cs : List Contract) (args : List Value) : Ruling → Prop
  | passes : List.Forall₂ (fun c v => J c v = .passes) cs args → Case cs args .passes
  | length : args.length ≠ cs.length → Case cs args .fails
  | fails : args.length = cs.length → FirstOff J .fails cs args → Case cs args .fails
  | raises {e : Stop} : args.length = cs.length → FirstOff J (.raises e) cs args → Case cs args (.raises e)

variable {J} {cs : List Contract} {args : List Value} {o : Ruling}

theorem firstOff_iff (ho : o ≠ .passes) : FirstOff J o cs args ↔ firstRuling J cs args = o := by
  constructor
  · intro h
    induction h with
    | here hJ _ =>
      rw [firstRuling,hJ]
      cases o <;> trivial
    | later hJ _ ih => rwa [firstRuling,hJ]
  · intro h
    induction cs generalizing args with
    | nil => exact absurd h.symm (by simpa [firstRuling] using ho)
    | cons c cs ih =>
      cases args with
      | nil => exact absurd h.symm (by simpa [firstRuling] using ho)
      | cons v vs =>
        rw [firstRuling] at h
        cases hJ : J c v with
        | passes => exact .later hJ (ih (by simpa [hJ] using h))
        | fails => exact .here (by simpa [hJ] using h) ho
        | raises e => exact .here (by simpa [hJ] using h) ho

theorem forall_passes_iff (hlen : args.length = cs.length) :
    List.Forall₂ (fun c v => J c v = .passes) cs args ↔ firstRuling J cs args = .passes := by
  induction cs generalizing args with
  | nil =>
    obtain rfl := List.length_eq_zero_iff.mp hlen
    simp [firstRuling]
  | cons c cs ih =>
    cases args with
    | nil => simp at hlen
    | cons v vs =>
      rw [List.forall₂_cons,ih (by simpa using hlen),firstRuling]
      cases J c v <;> simp

/-- Exactly one of the cases holds. -/
theorem case_iff : Case J cs args o ↔ ruling J cs args = o := by
  rw [ruling]
  constructor
  · intro h
    cases h with
    | passes h =>
      rw [if_pos h.length_eq.symm]
      exact (forall_passes_iff h.length_eq.symm).mp h
    | length h => rw [if_neg h]
    | fails hlen h =>
      rw [if_pos hlen]
      exact (firstOff_iff (by simp)).mp h
    | raises hlen h =>
      rw [if_pos hlen]
      exact (firstOff_iff (by simp)).mp h
  · intro h
    split at h
    next hlen =>
      cases o with
      | passes => exact .passes ((forall_passes_iff hlen).mpr h)
      | fails => exact .fails hlen ((firstOff_iff (by simp)).mpr h)
      | raises e => exact .raises hlen ((firstOff_iff (by simp)).mpr h)
    next hlen => exact h ▸ .length hlen

end ruling

/-- The tests of contracts about the items of an argument list come to these rulings, in whatever store and on
whatever level they are asked, and tamper with nothing that a call which begins in `s` relies on. -/
structure Tests (W : Store → Prop) (m : Machine) (s : Store) (J : Contract → Value → Ruling) (cs : List Contract)
    (args : List Value) : Prop where
  start : W s
  grows : ∀ t u, W t → t.Grows u → W u
  rules : ∀ p ∈ cs.zip args, ∀ j t, W t → ∃ z, p.1.outcome (Machine.next^[j+1] m) p.2 t = (J p.1 p.2).outcome z
  heeds : ∀ p ∈ cs.zip args, ∀ j, (p.1.outcome (Machine.next^[j+1] m) p.2).Heeds W s

section look
variable {W : Store → Prop} {m : Machine} {s t u : Store} {J : Contract → Value → Ruling} {cs : List Contract}
  {args : List Value}

theorem eachPasses_of_tests (h : Tests W m s J cs args) (hs : s.Grows t) (hu : s.Minds W t u) (j : Nat) :
    ∃ z, eachPasses (Machine.next^[j+1] m) cs (.fixed args) u = (firstRuling J cs args).answer z ∧ s.Minds W t z := by
  induction cs generalizing args u with
  | nil => exact ⟨u,by simp [eachPasses,firstRuling,Ruling.answer],hu⟩
  | cons c cs ih =>
    cases args with
    | nil =>
      refine ⟨u,?_,hu⟩
      rw [eachPasses,bind_ok (Cursor.next_nil _ u)]
      rfl
    | cons v vs =>
      obtain ⟨z,hz⟩ := h.rules (c,v) (by simp) j u hu.own
      have hmz := h.heeds (c,v) (by simp) j t u hs hu
      rw [Ruling.after_outcome hz] at hmz
      rw [eachPasses_cons,firstRuling]
      cases hJ : J c v with
      | passes =>
        rw [hJ] at hz
        have hrest : Tests W m s J cs vs := ⟨h.start,h.grows,fun p hp => h.rules p (by simp [hp]),
          fun p hp => h.heeds p (by simp [hp])⟩
        obtain ⟨y,hy,hmy⟩ := ih hrest hmz
        refine ⟨y,?_,hmy⟩
        rw [bind_ok hz]
        simpa using hy
      | fails =>
        rw [hJ] at hz
        refine ⟨z,?_,hmz⟩
        rw [bind_ok hz]
        rfl
      | raises e =>
        rw [hJ] at hz
        exact ⟨z,bind_error hz,hmz⟩

/-- A look at the arguments comes to what they come to. -/
theorem look_of_tests (h : Tests W m s J cs args) (hs : s.Grows t) (hu : s.Minds W t u) (j : Nat) :
    ∃ z, look (Machine.next^[j+1] m) cs args u = (ruling J cs args).answer z ∧ s.Minds W t z := by
  rw [look,ruling]
  split
  · exact eachPasses_of_tests h hs hu j
  · exact ⟨u,rfl,hu⟩

end look
end Signature

namespace Contract
variable {m : Machine} {s : Store} {cs : List Contract} {y : Value}

/-- The text that a contract is described by. -/
def text (c : Contract) : String :=
  match c.description with
  | .str x => x
  | _ => ""

/-- The text that a product is described by. -/
def productText (cs : List Contract) : String := "(" ++ String.intercalate ") x (" (cs.map text) ++ ")"

theorem text_of_worded {c : Contract} (h : s.Worded c) : c.description = .str c.text := by
  obtain ⟨x,hx⟩ := h.text
  rw [text,hx]

theorem gives_joined (h : ∀ c ∈ cs, s.Worded c) (word : String) :
    (joined m cs word).Gives (.str ("(" ++ String.intercalate word (cs.map text) ++ ")")) s := by
  refine Gives.bind (gives_each (k := cs.map description) ?_) fun t ht =>
    Gives.bind (gives_each (k := cs.map text) ?_) fun u _ => gives_pure _ u
  · rw [List.forall₂_map_right_iff,List.forall₂_same]
    intro c hc t ht
    exact gives_of_eq (by simp [describe,((h c hc).keep (Store.Keeps.of_grows ht)).held.held])
  · rw [List.forall₂_map_left_iff,List.forall₂_map_right_iff,List.forall₂_same]
    intro c hc u _
    exact gives_of_eq (by simp [asText,text_of_worded (h c hc)])

/-- A product says in words what it is made of. -/
theorem quiet_productText (h : ∀ c ∈ cs, s.Worded c) : (productOf m cs).Quiet
    (fun x u => ∃ p : Contract, x = p.value ∧ u.Made p (.product cs) ∧ p.description = .str (productText cs)) s := by
  refine Gives.bindQuiet (gives_joined h ") x (") fun t _ => (quiet_build _ _ t).imp ?_
  rintro x u - ⟨r,rfl,-,hc,hk⟩
  exact ⟨.mk r (.str (productText cs)) (.product cs),rfl,⟨hc,hk,⟨_,rfl⟩,rfl⟩,rfl⟩

end Contract

namespace Signature

/-- What is made out of contracts to check arguments: their product, the two predicates, a signature and its check. -/
structure Kit where
  product : Value
  test : Value
  strict : Value
  signature : Value
  check : Value

/-- A kit that was made, one thing after the other, out of contracts, a contract for results and a name. -/
def Kit.Made (m : Machine) (cs : List Contract) (r : Contract) (name : String) (s : Store) (kit : Kit) (t : Store) :
    Prop :=
  ∃ t₁ t₂ t₃ t₄, Contract.productOf m cs s = .ok kit.product t₁ ∧
    Operation.checker m (cs.map Contract.value) false t₁ = .ok kit.test t₂ ∧
    Operation.checker m (cs.map Contract.value) true t₂ = .ok kit.strict t₃ ∧
    Contract.proc m (cs.map Contract.value ++ [r.value]) t₃ = .ok kit.signature t₄ ∧
    Signature.check m kit.signature (.str name) t₄ = .ok kit.check t

/-- A function of the library that applies a product to an argument list. -/
def IsChecker (s : Store) (v : Value) (strict : Bool) (cs : List Contract) : Prop :=
  ∃ F c, s.IsFunction v F ∧ F.code = .checker c strict ∧ c.rule = .product cs ∧
    c.description = .str (Contract.productText cs)

/-- A kit that is ready to be used. -/
structure Kit.Ready (s : Store) (kit : Kit) (name : String) (cs : List Contract) (p i r : Contract) : Prop where
  product : kit.product = p.value ∧ s.Made p (.product cs)
  text : p.description = .str (Contract.productText cs)
  test : IsChecker s kit.test false cs
  strict : IsChecker s kit.strict true cs
  guard : Guard s kit.check kit.signature name cs i r
  input : cs.length ≠ 1 → s.Made i (.product cs)

section kit
variable {m : Machine} {s t : Store} {cs : List Contract} {r : Contract} {name : String} {v : Value} {strict : Bool}

theorem IsChecker.keep (h : IsChecker s v strict cs) (ht : s.Keeps .callables t) : IsChecker t v strict cs := by
  obtain ⟨F,c,hF,hc⟩ := h
  exact ⟨F,c,hF.keep ht,hc⟩

theorem quiet_checker (h : ∀ c ∈ cs, s.Worded c) (strict : Bool) :
    (Operation.checker m (cs.map Contract.value) strict).Quiet (fun v t => IsChecker t v strict cs) s := by
  refine Gives.bindQuiet (Contract.gives_allWorded h) fun t ht => ?_
  refine Quiet.bind (Contract.quiet_productText (Contract.worded_grows h ht)) ?_
  rintro _ u hu ⟨p,rfl,hp,htext⟩
  refine Quiet.get ?_
  rw [hp.held]
  refine (quiet_alloc _ u).imp ?_
  rintro _ z - ⟨rfl,ho⟩
  exact ⟨_,p,⟨Store.classOf_of_get? ho,Store.body?_of_get? ho⟩,rfl,hp.rule,htext⟩

/-- The input of a signature is its only parameter, or else the product of its parameters. -/
theorem quiet_procInput (h : ∀ c ∈ cs, s.Worded c) (hr : s.Worded r) :
    (Contract.proc m.next (cs.map Contract.value ++ [r.value])).Quiet (fun v t =>
      ∃ p i, t.IsSignature v cs p ∧ p.ret = r.value ∧ p.input = Contract.value i ∧
        (cs = [i] ∧ t.Worded i ∨ cs.length ≠ 1 ∧ t.Made i (.product cs))) s := by
  obtain ⟨y,hy⟩ := hr.stands (M := m)
  have keep {t u : Store} {i : Contract} (hu : t.Grows u) :
      (cs = [i] ∧ t.Worded i ∨ cs.length ≠ 1 ∧ t.Made i (.product cs)) →
      (cs = [i] ∧ u.Worded i ∨ cs.length ≠ 1 ∧ u.Made i (.product cs)) :=
    Or.imp (And.imp_right (·.keep (Store.Keeps.of_grows hu))) (And.imp_right (·.keep (Store.Keeps.of_grows hu)))
  refine (Contract.quiet_assembleAround (fun c hc => (h c hc).stands) hy
    (fun t ht => Contract.made_collapse (Contract.worded_grows h ht)) (fun t i _ hi => ?_) fun t u i hu => keep hu).imp ?_
  · exact (hi.elim (·.2) (·.2.worded)).stands
  · rintro v t - ⟨⟨p,hp,hret,i,hi,hmade⟩,-⟩
    exact ⟨p,i,hp,hret,hi,hmade⟩

/-- A kit can be made out of contracts of the library. -/
theorem exists_kit (hcs : ∀ c ∈ cs, s.Worded c) (hr : Pledged s r) (m : Machine) (name : String) :
    ∃ kit t p i, Kit.Made m.next cs r name s kit t ∧ s.Grows t ∧ kit.Ready t name cs p i r := by
  obtain ⟨P,t₁,hP,h₁,p,rfl,hp,htext⟩ := Contract.quiet_productText (m := m.next) hcs
  have hcs₁ := Contract.worded_grows hcs h₁
  obtain ⟨T,t₂,hT,h₂,htest⟩ := quiet_checker (m := m.next) hcs₁ false
  have hcs₂ := Contract.worded_grows hcs₁ h₂
  obtain ⟨C,t₃,hC,h₃,hstrict⟩ := quiet_checker (m := m.next) hcs₂ true
  have hcs₃ := Contract.worded_grows hcs₂ h₃
  have hr₃ := hr.grows ((h₁.trans h₂).trans h₃)
  obtain ⟨sig,t₄,hsig,h₄,q,i,hq,hret,hi,hinput⟩ := quiet_procInput (m := m) hcs₃ hr₃.worded
  have hcs₄ := Contract.worded_grows hcs₃ h₄
  obtain ⟨k,t,hk,h₅,-,-⟩ := quiet_check (M := m) (n := .str name) (fun _ h => h) hq fun c hc =>
    (Contract.describable_of_worded (hcs₄ c hc) m.next).mono fun _ h => Store.Keeps.of_grows h
  have hworded : t₄.Worded i := hinput.elim (·.2) (·.2.worded)
  obtain ⟨-,hguard⟩ := guard_of_signature hq hret hi hcs₄ hworded (hr₃.grows h₄) hk (Store.Keeps.refl _ t)
  have later {u w : Store} {F : Frame} (h : u.Grows w) : u.Keeps F w := Store.Keeps.of_grows h
  refine ⟨⟨p.value,T,C,sig,k⟩,t,p,i,⟨t₁,t₂,t₃,t₄,hP,hT,hC,hsig,hk⟩,(((h₁.trans h₂).trans h₃).trans h₄).trans h₅,
    ⟨rfl,hp.keep (later (((h₂.trans h₃).trans h₄).trans h₅))⟩,htext,htest.keep (later ((h₃.trans h₄).trans h₅)),
    hstrict.keep (later (h₄.trans h₅)),hguard,fun hlen => ?_⟩
  rcases hinput with ⟨rfl,-⟩ | ⟨-,hmade⟩
  · exact absurd rfl hlen
  · exact hmade.keep (Store.Keeps.of_grows h₅)

theorem Kit.Ready.keep {kit : Kit} {p i : Contract} (h : kit.Ready s name cs p i r) (ht : s.Keeps .guards t) :
    kit.Ready t name cs p i r := by
  have hcallables : s.Keeps .callables t := ht.mono (fun _ _ hc => Or.inl (Or.inl hc)) (by simp [Frame.guards]) nofun
  exact ⟨⟨h.product.1,h.product.2.keep ht.library⟩,h.text,h.test.keep hcallables,h.strict.keep hcallables,
    h.guard.keep library_holds rfl ht.library,fun hlen => (h.input hlen).keep ht.library⟩

end kit

/-- What a predicate gives. -/
def Answers (y : EStateM.Result Stop Store Value) : Ruling → Prop
  | .passes => ∃ z, y = .ok (.bool true) z
  | .fails => ∃ z, y = .ok (.bool false) z
  | .raises e => ∃ z, y = .error e z

/-- What a strict predicate gives: where the other one answers no, it raises a fault that tells what was expected and
the value. -/
def Insists (d v : Value) (y : EStateM.Result Stop Store Value) : Ruling → Prop
  | .passes => ∃ z, y = .ok (.bool true) z
  | .fails => ∃ text x z, y = .error (.raised (.violation d v text x)) z
  | .raises e => ∃ z, y = .error e z

/-- What a run of a contract gives. -/
def Finds (c : Contract) (v : Value) (y : EStateM.Result Stop Store Value) : Ruling → Prop
  | .passes => ∃ z, y = Contract.newMatch c.value z
  | .fails => ∃ z, y = Contract.newMismatch c.description v z
  | .raises e => ∃ z, y = .error e z

/-- How a call of a wrapper around `f` goes.  It packs the arguments and looks at them; then the body is called on them,
or the refusal is raised, which tells the packed arguments, or what a test raised is handed on. -/
inductive Reaches (m : Machine) (name : String) (i : Contract) (cs : List Contract) (f k : Value) (args : List Value)
    (s : Store) : EStateM.Result Stop Store Value → Ruling → Prop
  | body {a n : Value} {t u : Store} : s.Packs t → t.Packed args [] a n → look m cs args t = .ok true u →
      Reaches m name i cs f k args s ((m.call f args [] >>= conclude m k) u) .passes
  | refused {a n : Value} {t u v w : Store} {b : Blame} : s.Packs t → t.Packed args [] a n →
      look m cs args t = .ok false u → u.Grows v → shortText m a v = .ok b.shown w →
      b.Tells (.str name) i.description a → Reaches m name i cs f k args s (.error (.raised (.input b)) w) .fails
  | stopped {a n : Value} {t u : Store} {e : Stop} : s.Packs t → t.Packed args [] a n →
      look m cs args t = .error e u → Reaches m name i cs f k args s (.error e u) (.raises e)

/-- The argument list, as it is given or packed anew, can be shown. -/
def Shows (W : Store → Prop) (m : Machine) (v : Value) (args : List Value) : Prop :=
  ∀ j t a, W t → a = v ∨ t.IsTuple a args → ∃ x u, shortText (Machine.next^[j+1] m) a t = .ok x u

section run
variable {W : Store → Prop} {m M : Machine} {s t : Store} {J : Contract → Value → Ruling} {cs : List Contract}
  {args : List Value} {v w f k sig : Value} {strict : Bool} {name : String} {i r : Contract}

/-- What a call of such a function goes through. -/
theorem call_checker (h : IsChecker s w strict cs) (hv : s.Arguments v args) : M.next.call w [v] [] s
    = (do
        if ← look M cs args then return .bool true
        else if strict then
          let d := Contract.productText cs
          fail (.violation (.str d) v d (← shortText M v))
        else return .bool false : Act Value) s := by
  obtain ⟨F,c,hF,hcode,hrule,htext⟩ := h
  have hsingle : Operation.single "args" [v] [] s = .ok v s := rfl
  rw [call_function hF,hcode,Code.call,bind_ok hsingle,Operation.runChecker,hrule,htext,bind_congr_left (holds_arguments hv)]
  refine bind_congr_of fun b u _ => ?_
  cases b with
  | true => rfl
  | false =>
    cases strict with
    | false => rfl
    | true =>
      simp only [Bool.false_eq_true,if_false,if_true]
      rw [bind_ok (formatted_str M _ u)]

section tests
variable (h : Tests W m s J cs args) (hv : s.Arguments v args)
include h

/-- A look at the arguments in the store where a call begins. -/
theorem look_of_start (j : Nat) : ∃ z, look (Machine.next^[j+1] m) cs args s = (ruling J cs args).answer z ∧ W z := by
  obtain ⟨z,hz,hmz⟩ := look_of_tests h (Store.Keeps.refl _ s) ⟨Store.Keeps.refl _ s,h.start⟩ j
  exact ⟨z,hz,hmz.own⟩

include hv

theorem test_answers (hw : IsChecker s w false cs) (j : Nat) :
    Answers ((Machine.next^[j+2] m).call w [v] [] s) (ruling J cs args) := by
  obtain ⟨z,hz,-⟩ := look_of_start h j
  rw [Function.iterate_succ_apply',call_checker hw hv]
  cases ho : ruling J cs args with
  | passes =>
    rw [ho] at hz
    exact ⟨z,bind_ok hz⟩
  | fails =>
    rw [ho] at hz
    exact ⟨z,bind_ok hz⟩
  | raises e =>
    rw [ho] at hz
    exact ⟨z,bind_error hz⟩

theorem strict_insists (hw : IsChecker s w true cs) (hshow : Shows W m v args) (j : Nat) :
    Insists (.str (Contract.productText cs)) v ((Machine.next^[j+2] m).call w [v] [] s) (ruling J cs args) := by
  obtain ⟨z,hz,hown⟩ := look_of_start h j
  rw [Function.iterate_succ_apply',call_checker hw hv]
  cases ho : ruling J cs args with
  | passes =>
    rw [ho] at hz
    exact ⟨z,bind_ok hz⟩
  | fails =>
    rw [ho] at hz
    obtain ⟨x,u,hx⟩ := hshow j z v hown (Or.inl rfl)
    refine ⟨Contract.productText cs,x,u,?_⟩
    rw [bind_ok hz]
    simp only [Bool.false_eq_true,if_false,if_true]
    rw [bind_ok hx]
    rfl
  | raises e =>
    rw [ho] at hz
    exact ⟨z,bind_error hz⟩

/-- The product itself, if it is in place. -/
theorem product_finds {c : Contract} (hc : s.Made c (.product cs)) (j : Nat) :
    Finds c v (Contract.running (Machine.next^[j+1] m) c v s) (ruling J cs args) := by
  obtain ⟨z,hz,-⟩ := look_of_start h j
  have hholds : c.rule.holds (Machine.next^[j+1] m) v s = (ruling J cs args).answer z := by
    rw [hc.rule,holds_arguments hv,hz]
  rw [Contract.running_eq]
  cases ho : ruling J cs args with
  | passes =>
    rw [ho] at hholds
    exact ⟨z,Contract.run_of_matched hc.held hholds⟩
  | fails =>
    rw [ho] at hholds
    exact ⟨z,Contract.run_of_mismatched hc.held hholds⟩
  | raises e =>
    rw [ho] at hholds
    exact ⟨z,Contract.run_of_stopped hc.held hholds⟩

end tests

/-- A call of a wrapper whose advice is a check. -/
theorem call_reaches (h : Tests W m s J cs args) (hg : Guard s k sig name cs i r) (hw : s.Wraps .wrapper w f k)
    (hshow : Shows W m v args) (j : Nat) : Reaches (Machine.next^[j+1] m) name i cs f k args s
      ((Machine.next^[j+3] m).call w args [] s) (ruling J cs args) := by
  obtain ⟨a,u,n,t,hu,ht,hpacks,hp,hholds⟩ := quiet_packed args [] s
  have hst := hpacks.grows
  obtain ⟨ha,hn⟩ := hholds t (Store.Keeps.refl _ t)
  have hgt := hg.grows hst
  obtain ⟨d,hd,htable⟩ := hp.named
  have hnamed : refusesNamed (Machine.next^[j+1] m) n t = .ok false t := by
    rw [refusesNamed,hd,bind_ok (truth_table htable)]
    rfl
  have henforce : (Machine.next^[j+3] m).call w args [] s = (do
      if ← look (Machine.next^[j+1] m) cs args then pass (Machine.next^[j+1] m) k f a n
      else rejectInput (Machine.next^[j+1] m) "input type mismatch in " k i.description a : Act Value) t := by
    rw [Function.iterate_succ_apply',call_wrapper_hands args [] hw (Or.inl rfl),if_neg (by simp [Fields.get?]),bind_ok hu,
      bind_ok ht,Function.iterate_succ_apply',call_check hgt.checks,enforce_packed hgt hp.args hnamed]
    rfl
  obtain ⟨z,hz,hmz⟩ := look_of_tests h hst ⟨Store.Keeps.refl _ t,h.grows s t h.start hst⟩ j
  rw [henforce]
  cases ho : ruling J cs args with
  | passes =>
    rw [ho] at hz
    rw [bind_ok hz,if_pos rfl,pass_packed hp ha hn hmz.kept]
    exact .body hpacks hp hz
  | fails =>
    rw [ho] at hz
    have hgz := hgt.minds hmz
    obtain ⟨text,htext⟩ := hgz.input.text
    obtain ⟨_,y,hlog,hzy⟩ := calm_logMessage ("input type mismatch in " ++ name) z
    obtain ⟨x,q,hx⟩ := hshow j y a (h.grows z y hmz.own hzy) (Or.inr ((hp.args.keep hmz.kept ha).grows hzy))
    rw [bind_ok hz,if_neg (by simp),htext,rejectInput_eq hgz.checks text a hlog hzy,tell,bind_ok hx]
    exact .refused hpacks hp hz hzy hx ⟨rfl,htext.symm,rfl⟩
  | raises e =>
    rw [ho] at hz
    rw [bind_error hz]
    exact .stopped hpacks hp hz

/-- The input of a signature, as it is read from it. -/
theorem read_input (hg : Guard s k sig name cs i r) : M.next.read sig "input" s = .ok i.value s := by
  obtain ⟨c,test,p,hb,hi,-⟩ := hg.body
  obtain ⟨q,rfl⟩ := Store.ref_of_body hb
  have hclass : s.class? (.ref q) = none := Store.class?_of_body hb (by simp)
  rw [read_next_builtin hg.cls hclass (by decide),readOfInstance_property hg.cls (c := .signature) rfl]
  have hslot : s.slot? (.ref q) "_input" = some p.input := by
    cases ho : s.get? q with
    | none => simp [Store.body?,Store.obj?,ho] at hb
    | some o =>
      obtain ⟨cls,body,attrs,slots,table⟩ := o
      have hbody : body = .contract c test (some p) := by simpa [Store.body?,Store.obj?,ho] using hb
      subst hbody
      simp [Store.slot?,Store.obj?,ho]
  simp [computed,slotShown,Store.contract?_of_body hb,hslot,hi]

end run

/-- Everything that is made out of contracts to check arguments agrees about an argument list: the predicate, the
strict predicate, a wrapper around `f` with the check, and the input of the signature where it is a product. -/
structure Concord (M : Machine) (name : String) (cs : List Contract) (kit : Kit) (p i : Contract) (w f v : Value)
    (args : List Value) (s : Store) (o : Ruling) : Prop where
  test : Answers (M.next.next.next.call kit.test [v] [] s) o
  strict : Insists p.description v (M.next.next.next.call kit.strict [v] [] s) o
  wrapped : Reaches M.next name i cs f kit.check args s (M.next.next.next.call w args [] s) o
  input : cs.length ≠ 1 → Finds i v (Contract.running M.next.next i v s) o

/-- Out of contracts, whose tests may raise, and a contract for results there can be made their product, the two
predicates, a signature and its check.  Later on, whatever the program did but tamper with these, take a wrapper around
anything with this check, and any tuple of arguments.  Then exactly one of the three cases holds, and all the ways to
check the arguments end as it says: with the product's description and the tuple itself in the violation, and without
the body being called unless the arguments pass. -/
theorem checkers_agree {s : Store} {cs : List Contract} {r : Contract} (hcs : ∀ c ∈ cs, s.Worded c) (hr : Pledged s r)
    (m : Machine) (name : String) :
    ∃ kit t p i, Kit.Made m.next cs r name s kit t ∧ s.Grows t ∧ kit.product = Contract.value p ∧
      ∀ x, t.Keeps .guards x → (∀ M : Machine, M.next.read kit.signature "input" x = .ok (Contract.value i) x) ∧
        ∀ w f v args W J, x.Wraps .wrapper w f kit.check → x.Arguments v args → Tests W m x J cs args →
          Shows W m v args → ∃ o, Case J cs args o ∧ (∀ o', Case J cs args o' → o' = o) ∧
            ∀ j, Concord (Machine.next^[j] m) name cs kit p i w f v args x o := by
  obtain ⟨kit,t,p,i,hmade,hst,hready⟩ := exists_kit hcs hr m name
  refine ⟨kit,t,p,i,hmade,hst,hready.product.1,fun x htx => ?_⟩
  have hx := hready.keep htx
  refine ⟨fun M => read_input hx.guard,fun w f v args W J hw hv htests hshow => ?_⟩
  refine ⟨ruling J cs args,case_iff.mpr rfl,fun o ho => (case_iff.mp ho).symm,fun j => ?_⟩
  have htest := test_answers htests hv hx.test (j+1)
  have hstrict := strict_insists htests hv hx.strict hshow (j+1)
  have hcall := call_reaches htests hx.guard hw hshow j
  have hinput (hlen : cs.length ≠ 1) := product_finds htests hv (hx.input hlen) (j+1)
  rw [← hx.text] at hstrict
  simp only [Function.iterate_succ_apply'] at htest hstrict hcall hinput
  exact ⟨htest,hstrict,hcall,hinput⟩

/-- A function that raises. -/
def grumbling : Function :=
  ⟨"f","f",.str "m",.absent,.closure ⟨"f",[(.required "x",none)],.raise "ValueError" "no",[]⟩⟩

/-- A contract that it decides. -/
def grumpy : Contract := .mk 34 (.str "grumpy") (.test (.ref 33))

def grumpyStore : Store :=
  { Store.initial with heap := Store.initial.heap ++
      #[{ cls := .builtin .function, body := .function grumbling, attrs := some [] },
        { cls := .builtin .contract, body := .contract grumpy (.ref 33) none },
        { cls := .builtin .tuple, body := .tuple [.str "a",.str "b"] }] }

/-- What it raises. -/
def grumble : Stop := .raised (Make.raised "ValueError" "no")

/-- Anything passes but what comes to the function. -/
def grumpyRuling (c : Contract) (_ : Value) : Ruling := if c.id = 34 then .raises grumble else .passes

theorem grumpy_worded {t : Store} (h : grumpyStore.Grows t) : t.Worded Contract.anything ∧ t.Worded grumpy := by
  have hany : grumpyStore.Worded Contract.anything := ⟨⟨Or.inl rfl,rfl⟩,_,rfl⟩
  have hgrumpy : grumpyStore.Worded grumpy := ⟨⟨Or.inl rfl,rfl⟩,_,rfl⟩
  exact ⟨hany.keep (Store.Keeps.of_grows h),hgrumpy.keep (Store.Keeps.of_grows h)⟩

/-- On whatever level they are asked, the tests leave all as it was. -/
theorem grumpy_rules {t : Store} (h : grumpyStore.Grows t) {c : Contract} (hc : c ∈ [Contract.anything,grumpy])
    (m : Machine) (v : Value) (j : Nat) :
    c.outcome (Machine.next^[j+1] m) v t = (grumpyRuling c v).outcome t := by
  obtain ⟨hany,hgrumpy⟩ := grumpy_worded h
  rw [Function.iterate_succ_apply']
  rcases List.mem_pair.mp hc with rfl | rfl
  · exact Contract.outcome_of_holds (b := true)
      (by rw [show Value.ref anyRef = Contract.anything.value from rfl,hany.held.held]; rfl) (by simp [Rule.holds])
  · have hf : t.IsFunction (.ref 33) grumbling := Store.IsFunction.grows (s := grumpyStore) ⟨rfl,rfl⟩ h
    have hcall : (Machine.next^[j] m).next.call (.ref 33) [v] [] t = .error grumble t := by
      rw [call_function hf]
      rfl
    rw [Contract.outcome_of_held hgrumpy.held.held]
    refine bind_error ?_
    rw [show grumpy.rule = .test (.ref 33) from rfl,Rule.holds]
    exact bind_error hcall

theorem grumpy_tests {x : Store} (h : grumpyStore.Grows x) (m : Machine) (args : List Value) :
    Tests (x.Grows ·) m x grumpyRuling [Contract.anything,grumpy] args := by
  have rules {p : Contract × Value} (hp : p ∈ [Contract.anything,grumpy].zip args) (j : Nat) {t : Store}
      (ht : x.Grows t) : p.1.outcome (Machine.next^[j+1] m) p.2 t = (grumpyRuling p.1 p.2).outcome t :=
    grumpy_rules (h.trans ht) (List.of_mem_zip hp).1 m p.2 j
  refine ⟨Store.Keeps.refl _ x,fun t u ht hu => ht.trans hu,fun p hp j t ht => ⟨t,rules hp j ht⟩,
    fun p hp j t u _ hu => ?_⟩
  rwa [Ruling.after_outcome (rules hp j hu.own)]

/-- Texts in a tuple can be shown. -/
theorem grumpy_shows {x : Store} (h : grumpyStore.Grows x) (m : Machine) :
    Shows (x.Grows ·) m (.ref 35) [.str "a",.str "b"] := by
  intro j t a ht ha
  have hxt := h.trans ht
  have htuple : t.IsTuple a [.str "a",.str "b"] := by
    rcases ha with rfl | ha
    · exact Store.IsTuple.grows (s := grumpyStore) ⟨rfl,rfl⟩ hxt
    · exact ha
  have hset : grumpyStore.Owns (.ref settingsRef) := ⟨_,_,rfl,rfl,rfl⟩
  have hmet := Rendering.meets_tuple (m := Machine.next^[j+1] m) (n := 5) htuple
  have hbreaks := Rendering.breaks_shortText (m := Machine.next^[j+1] m) (hset.grows hxt)
    (Store.setting_grows hset (by decide) rfl hxt)
    (Rendering.known_tuple (n := 5) htuple (by simp [limits,Rendering.known_str]))
  obtain ⟨y,u,hu,-⟩ := hbreaks.calm (fun hm => by simpa [limits,Rendering.not_meets_str] using hmet.mp hm) t
    (Store.Keeps.refl _ t)
  exact ⟨y,u,hu⟩

/-- The second test raises: all the ways to check two texts end in that. -/
theorem checkers_agree_grumpy : ∃ kit p i x w, x.Wraps .wrapper w (.ref 33) (Kit.check kit) ∧
    Concord Machine.halted "f" [Contract.anything,grumpy] kit p i w (.ref 33) (.ref 35) [.str "a",.str "b"] x
      (.raises grumble) := by
  obtain ⟨hany,hgrumpy⟩ := grumpy_worded (Store.Keeps.refl _ grumpyStore)
  have hcs : ∀ c ∈ [Contract.anything,grumpy], grumpyStore.Worded c := by simpa using ⟨hany,hgrumpy⟩
  have hpledged : Pledged grumpyStore Contract.anything := ⟨hany,fun h => by cases h⟩
  obtain ⟨kit,t,p,i,-,hst,-,hagree⟩ := checkers_agree hcs hpledged Machine.halted "f"
  have hf {z : Store} (hz : t.Grows z) : z.IsFunction (.ref 33) grumbling :=
    Store.IsFunction.grows (s := grumpyStore) ⟨rfl,rfl⟩ (hst.trans hz)
  obtain ⟨w,x,-,htx,hw,-⟩ := Wrapper.quiet_make (c := .wrapper) (a := kit.check) (e := []) (fun z hz => hz)
    (Wrapper.tells_function (M := Machine.halted) fun z hz => hf hz) (Or.inl rfl)
  have hsx := hst.trans htx
  obtain ⟨-,hagree⟩ := hagree x (Store.Keeps.of_grows htx)
  obtain ⟨o,-,honly,hends⟩ := hagree w (.ref 33) (.ref 35) [.str "a",.str "b"] (x.Grows ·) grumpyRuling hw
    (Store.IsTuple.arguments (Store.IsTuple.grows (s := grumpyStore) ⟨rfl,rfl⟩ hsx)) (grumpy_tests hsx _ _)
    (grumpy_shows hsx _)
  have hcase : Case grumpyRuling [Contract.anything,grumpy] [.str "a",.str "b"] (.raises grumble) :=
    .raises rfl (.later rfl (.here rfl nofun))
  obtain rfl := honly _ hcase
  exact ⟨kit,p,i,x,w,hw,hends 0⟩

end Signature
end CallContracts
