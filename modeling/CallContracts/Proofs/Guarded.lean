import CallContracts.Proofs.Chain
import CallContracts.Proofs.Targets
/-! Guarded calls.  A call that comes to a check of a signature hands it the arguments that it sees; the check
refuses them, or calls what is behind it once and looks at the result.  Where that is called on which level does
not matter, and neither does the name that the check was made for. -/
namespace CallContracts
open Act

/-- What the library makes out of members and signatures. -/
def Frame.guards : Frame where
  holds r c := Frame.layers.holds r c ∨ Frame.library.holds r c
  silent := false

namespace Store
variable {s t : Store} {H : Ref → Prop} {D : Ref} {n : String} {y : Value}

theorem Keeps.layers (h : s.Keeps .guards t) : s.Keeps .layers t :=
  h.mono (fun _ _ hc => Or.inl hc) (by simp [Frame.guards]) nofun

theorem Keeps.library (h : s.Keeps .guards t) : s.Keeps .library t :=
  h.mono (fun _ _ hc => Or.inr hc) (by simp [Frame.guards]) nofun

/-- Classes are none of these. -/
theorem Branch.wrote_guards (h : s.Branch n H D) (ht : s.Wrote D n y t) : s.Keeps .guards t := by
  refine ht.keeps (fun o ho hq => ?_) nofun
  rcases hq with (hq | hq) | hq
  · exact h.governed.not_callable ho hq
  · exact h.governed.cls_ne ho (by decide) hq
  · simp only [Frame.library,List.mem_map] at hq
    obtain ⟨b,hb,hc⟩ := hq
    refine h.governed.cls_ne ho ?_ hc.symm
    simp only [List.mem_cons,List.not_mem_nil,or_false] at hb
    rcases hb with rfl | rfl | rfl | rfl | rfl <;> decide

end Store

namespace Signature
variable {W : Store → Prop} {M m : Machine} {s t : Store} {sig d f v x k : Value} {cs : List Contract} {p : Parts}
  {lead args : List Value} {b : Bool} {name : String} {y : EStateM.Result Stop Store Value}

/-- A signature that can be checked on every level, and how its input describes itself. -/
structure Settled (W : Store → Prop) (M : Machine) (sig : Value) (cs : List Contract) (p : Parts) (d : Value) :
    Prop where
  layer : ∀ j, Layer W (Machine.next^[j] M) sig cs p
  input : ∀ j, Described W (Machine.next^[j+1] M) p.input d

theorem Settled.mono {W' : Store → Prop} (h : Settled W M sig cs p d) (hW : ∀ t, W' t → W t) :
    Settled W' M sig cs p d :=
  ⟨fun j => (h.layer j).mono hW,fun j => ⟨fun t ht => (h.input j).description t (hW t ht),
    fun t ht => (h.input j).written t (hW t ht)⟩⟩

/-- The contracts of a signature say on every level whether an argument list fits, and what does not fit can be
shown. -/
structure Decides (M : Machine) (s : Store) (cs : List Contract) (args : List Value) (b : Bool) : Prop where
  takes : ∀ j t, s.Grows t → Takes (Machine.next^[j+1] M) cs args b t
  shown : b = false → ∀ j t v, s.Grows t → t.IsTuple v args → (shortText (Machine.next^[j+1] M) v).Calm t

theorem Decides.grows (h : Decides M s cs args b) (ht : s.Grows t) : Decides M t cs args b :=
  ⟨fun j u hu => h.takes j u (ht.trans hu),fun hb j u v hu => h.shown hb j u v (ht.trans hu)⟩

/-- Too many arguments do not fit, and neither do too few. -/
theorem takes_of_length (h : args.length ≠ cs.length) : Takes m cs args false t := by
  intro v hv
  exact gives_of_eq (by rw [holds_tuple hv,if_neg h]; rfl)

/-- What is left of a call when it is known how what is behind the check ends. -/
def finish (m : Machine) (k : Value) (x : Act Value) : Act Value := do
  let result ← x
  checkResult m k (← part m (← fieldOf m k "signature") "ret") result

/-- A call that comes to a check of the signature with these arguments; behind the check `f` gets `lead` before
them. -/
inductive Guarded (M : Machine) (sig : Value) (cs : List Contract) (f : Value) (lead args : List Value) (s : Store) :
    EStateM.Result Stop Store Value → Prop where
  | enforced {j : Nat} {k p x n : Value} {name : String} {t : Store} : s.Grows t → t.Checks k sig (.str name) cs →
      t.Stacked f lead p [] → t.Handed args x n →
      Guarded M sig cs f lead args s (enforce (Machine.next^[j+1] M) k p x n t)

theorem Guarded.after (hs : s.Grows t) (h : Guarded M sig cs f lead args t y) : Guarded M sig cs f lead args s y := by
  cases h with
  | enforced ht hk hp hh => exact .enforced (hs.trans ht) hk hp hh

/-- How a guarded call ends: arguments that do not fit are refused before anything runs, and otherwise `f` is called
once and the check looks at what it returned. -/
inductive Concludes (M : Machine) (sig : Value) (cs : List Contract) (f d : Value) (lead args : List Value)
    (s : Store) : Bool → EStateM.Result Stop Store Value → Prop where
  | refused {b : Blame} {u : Store} : s.Grows u → b.expected = d → u.IsTuple b.value args →
      Concludes M sig cs f d lead args s false (.error (.raised (.input b)) u)
  | called {i j : Nat} {k : Value} {name : String} {t : Store} : s.Grows t → t.Checks k sig (.str name) cs →
      Concludes M sig cs f d lead args s true
        (finish (Machine.next^[j+1] M) k ((Machine.next^[i] M).call f (lead ++ args) []) t)

/-- What goes through no advice is called with what it receives first. -/
theorem call_stacked {j : Nat} (h : s.Stacked f lead v []) (args : List Value) :
    ∃ i, (Machine.next^[j+1] M).call v args [] s = (Machine.next^[i] M).call f (lead ++ args) [] s := by
  cases h with
  | original => exact ⟨j+1,rfl⟩
  | bound hm =>
    refine ⟨j,?_⟩
    rw [Function.iterate_succ_apply',call_method hm]
    rfl

/-- When the contracts decide, a guarded call ends as they say. -/
theorem Guarded.concludes (h : Guarded M sig cs f lead args s y) (hsig : Settled (s.Grows ·) M sig cs p d)
    (hb : Decides M s cs args b) : Concludes M sig cs f d lead args s b y := by
  cases h with
  | @enforced j k g x n name t ht hk hp hh =>
    have hW (u : Store) (hu : t.Grows u) : s.Grows u := ht.trans hu
    have hl := hsig.layer j
    have htakes (u : Store) (hu : t.Grows u) := hb.takes j u (hW u hu)
    rw [Function.iterate_succ_apply'] at htakes ⊢
    cases b with
    | false =>
      have hd := hsig.input j
      rw [Function.iterate_succ_apply'] at hd
      have hshown (u : Store) (hu : t.Grows u) := hb.shown rfl j u x (hW u hu) (hh.args.grows hu)
      rw [Function.iterate_succ_apply'] at hshown
      obtain ⟨e,u,hu,hg,he⟩ := enforce_refuses (g := g) hW hl hk hh hd htakes hshown
      rw [hu]
      exact .refused (hW u hg) he.expected (he.value ▸ hh.args.grows hg)
    | true =>
      obtain ⟨u,hg,hu⟩ := enforce_calls (g := g) hW hl hk hh htakes
      obtain ⟨i,hcall⟩ := call_stacked (M := M) (j := j) (hp.grows hg) args
      rw [Function.iterate_succ_apply'] at hcall
      have hfinish : enforce (Machine.next^[j] M).next k g x n t
          = finish (Machine.next^[j+1] M) k ((Machine.next^[i] M).call f (lead ++ args) []) u := by
        rw [hu,finish,bind_apply,bind_apply,hcall,Function.iterate_succ_apply']
      rw [hfinish]
      exact .called (hW u hg) (hk.grows hg)

/-- A wrapper whose advice is a check guards its calls. -/
theorem guarded_wrapper {c : BuiltinClass} {w q : Value} {j : Nat} (hw : s.Wraps c w q k)
    (hc : c = .wrapper ∨ c = .classWrapper) (hk : s.Checks k sig (.str name) cs) (hq : s.Stacked f lead q [])
    (args : List Value) : Guarded M sig cs f lead args s ((Machine.next^[j+3] M).call w args [] s) := by
  obtain ⟨a,n,t,ht,hh,hcall⟩ := call_wrapper (M := Machine.next^[j+2] M) args hw hc
  rw [Function.iterate_succ_apply',hcall,Function.iterate_succ_apply' _ (j+1),call_check (hk.grows ht)]
  exact .enforced ht (hk.grows ht) (hq.grows ht) hh

end Signature
end CallContracts
