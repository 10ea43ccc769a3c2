import Mathlib.Algebra.GroupWithZero.Nat
import CallContracts.Proofs.Binding
/-! Advices that forward.  Such an advice calls what it is handed once, with the very arguments, and hands
on how that ends.  So a call of a stack of wrappers runs its advices one inside the other, and in the middle
what is below them all, with what it receives and the explicit arguments. -/
namespace CallContracts
open Act

/-- A frame that holds what the library makes out of members. -/
def Frame.Covers (F : Frame) : Prop := F.free = [] ∧ ∀ r c, Frame.callables.holds r c → F.holds r c

theorem Frame.covers_callables : Frame.callables.Covers := ⟨rfl,fun _ _ h => h⟩

variable {F : Frame} {M N : Machine} {s t u : Store} {f v w p a i owner : Value} {as recv args : List Value}
  {x y : EStateM.Result Stop Store Value} {seen : List (Value × List Value)} {got : Option (List Value)}

theorem Frame.Covers.keeps (hF : F.Covers) (h : s.Keeps F t) : s.Keeps .callables t :=
  h.mono hF.2 (by simp [hF.1]) nofun

/-- The same end, after which what the frame holds is as it was. -/
inductive Store.Follows (F : Frame) : EStateM.Result Stop Store Value → EStateM.Result Stop Store Value → Prop where
  | ok {v : Value} {s t : Store} : s.Keeps F t → Follows F (.ok v s) (.ok v t)
  | error {e : Stop} {s t : Store} : s.Keeps F t → Follows F (.error e s) (.error e t)

/-- An advice that takes `k` levels to call what it is handed, and hands on how that ends. -/
def Store.Forwards (F : Frame) (s : Store) (k : Nat) (a : Value) : Prop :=
  ∀ M t p x n args, s.Keeps F t → t.Handed args x n → t.isCallable p = true →
    ∃ u, t.Keeps F u ∧ Follows F (M.call p args [] u) ((Machine.next^[k+1] M).call a [p,x,n] [] t)

theorem Store.Forwards.keep {k : Nat} (h : s.Forwards F k a) (ht : s.Keeps F t) : t.Forwards F k a :=
  fun M u p x n args hu hh hp => h M u p x n args (ht.trans hu) hh hp

/-- The advice that does nothing but forward. -/
def forwarding : Closure :=
  ⟨"forward",[(.required "proceed",none),(.required "args",none),(.required "kwargs",none)],
    .call (.variable "proceed") [] (some (.variable "args")) [] (some (.variable "kwargs")),[]⟩

theorem forwards_forwarding {g : Function} (h : s.IsFunction a g) (hg : g.code = .closure forwarding)
    (hF : F.Covers) : s.Forwards F 0 a := by
  intro M t p x n args ht hh _
  refine ⟨t,Store.Keeps.refl _ t,?_⟩
  obtain ⟨d,rfl,hd⟩ := hh.named
  have hnamed : namedOf M (.ref d) t = .ok [] t := namedOf_table hd
  have hcall : (Machine.next^[1] M).call a [p,x,.ref d] [] t = M.call p args [] t := by
    rw [Function.iterate_one,call_function (h.keep (hF.keeps ht)),hg]
    have hframe : each (fun q : String × Argument => do return (q.1,← q.2.value))
        [("proceed",.one p),("args",.one x),("kwargs",.one (.ref d))] t
        = .ok [("proceed",p),("args",x),("kwargs",.ref d)] t := rfl
    change (each _ _ >>= _) t = _
    rw [bind_ok hframe]
    simp only [forwarding,List.append_nil,Expr.eval,lookupVariable,Fields.get?,if_true,evalAll,evalOption,
      evalNamed,String.reduceEq,if_false,pure_bind]
    rw [bind_ok (iterate_tuple hh.args),mergeNamed,bind_assoc,bind_ok hnamed]
    rfl
  rw [Nat.zero_add,hcall]
  cases M.call p args [] t with
  | ok v u => exact .ok (Store.Keeps.refl _ u)
  | error e u => exact .error (Store.Keeps.refl _ u)

/-- A call that goes through advices.  Each of them, the first one outermost, is called once with the
arguments that it sees and calls what is below it once; in the end `f` is called once with what it got, by a
machine that has at least the levels of `M`.  If nothing can be got, that call is refused as one with wrong
arguments. -/
inductive Relays (F : Frame) (M : Machine) (f : Value) (got : Option (List Value)) :
    List (Value × List Value) → Store → EStateM.Result Stop Store Value → Prop where
  | original {k : Nat} {args : List Value} {s t : Store} : got = some args → s.Keeps F t →
      Relays F M f got [] s ((Machine.next^[k] M).call f args [] t)
  | refused {q : Fault} {s t : Store} : got = none → s.Keeps F t → .typeError ∈ q.cls.line →
      Relays F M f got [] s (.error (.raised q) t)
  | advised {N : Machine} {p a x n : Value} {args : List Value} {seen : List (Value × List Value)}
      {s t u : Store} {y : EStateM.Result Stop Store Value} : s.Keeps F t → t.Handed args x n →
      t.Keeps F u → Relays F M f got seen u y → Store.Follows F y (N.call a [p,x,n] [] t) →
      Relays F M f got ((a,args) :: seen) s (N.call a [p,x,n] [] t)

/-- The advices that all see the same arguments. -/
def allSee (as args : List Value) : List (Value × List Value) := as.map fun a => (a,args)

@[simp] theorem allSee_cons (a : Value) (as args : List Value) :
    allSee (a :: as) args = (a,args) :: allSee as args := rfl

/-- The levels that the advices take. -/
def cost (k : Value → Nat) (as : List Value) : Nat := (as.map fun a => k a + 2).sum

@[simp] theorem cost_cons (k : Value → Nat) (a : Value) (as : List Value) :
    cost k (a :: as) = k a + 2 + cost k as := by simp [cost]

@[simp] theorem cost_append (k : Value → Nat) (as bs : List Value) :
    cost k (as ++ bs) = cost k as + cost k bs := by simp [cost]

@[simp] theorem cost_reverse (k : Value → Nat) (as : List Value) : cost k as.reverse = cost k as := by
  simp [cost,List.sum_reverse]

theorem length_le_cost (k : Value → Nat) (as : List Value) : 2 * as.length ≤ cost k as := by
  induction as with
  | nil => simp [cost]
  | cons a as ih =>
    rw [cost_cons,List.length_cons]
    omega

/-- A bound function is called with the instance before the arguments. -/
theorem call_method (h : s.IsMethod v f i) (args : List Value) {named : Fields Value} :
    M.next.call v args named s = M.call f (i :: args) named s := by
  obtain ⟨r,rfl⟩ := Store.ref_of_body h.body
  have hclass : s.class? (.ref r) = none := Store.class?_of_body h.body (by simp)
  change callValue M (.ref r) args named s = _
  simp only [callValue,get_bind_apply,h.cls,Store.override?_builtin,callNative,hclass,h.body]

theorem iterate_add (k l : Nat) : Machine.next^[k + l] M = Machine.next^[k] (Machine.next^[l] M) :=
  Function.iterate_add_apply _ _ _ _

/-- An advice that is called on something which relays, relays. -/
theorem relays_advised {k : Nat} {n : Value} {z : Value} (hs : s.Keeps F t) (ha : t.Forwards F k a)
    (hh : t.Handed args z n) (hp : t.isCallable p = true)
    (hr : ∀ u, t.Keeps F u → Relays F M f got seen u (N.call p args [] u)) :
    Relays F M f got ((a,args) :: seen) s ((Machine.next^[k+1] N).call a [p,z,n] [] t) := by
  obtain ⟨u,hu,hx⟩ := ha N t p z n args (Store.Keeps.refl _ t) hh hp
  exact .advised hs hh hu (hr u hu) hx

/-- A call of a stack of wrappers relays. -/
theorem relays_stacked {k : Value → Nat} (hF : F.Covers) (h : s.Stacked f recv v as)
    (hf : ∀ t, s.Keeps F t → t.isCallable f = true) (ha : ∀ a ∈ as, s.Forwards F (k a) a) (j : Nat) :
    Relays F M f (some (recv ++ args)) (allSee as args) s
      ((Machine.next^[cost k as + 1 + j] M).call v args [] s) := by
  induction as generalizing s v with
  | nil =>
    cases h with
    | original => exact .original rfl (Store.Keeps.refl _ s)
    | bound hm =>
      rw [cost,List.map_nil,List.sum_nil,Nat.zero_add,Nat.add_comm,Function.iterate_succ_apply',call_method hm]
      exact .original rfl (Store.Keeps.refl _ s)
  | cons a as ih =>
    cases h with
    | @advised _ p _ _ _ hw hp =>
      obtain ⟨z,n,t,ht,hh,hcall⟩ := call_wrapper (M := Machine.next^[k a + 1] (Machine.next^[cost k as + 1 + j] M))
        args hw (Or.inl rfl)
      have hst := Store.Keeps.of_grows (F := F) ht
      have hlevels : cost k (a :: as) + 1 + j = (k a + 1) + (cost k as + 1 + j) + 1 := by
        rw [cost_cons]
        omega
      rw [hlevels,Function.iterate_succ_apply',iterate_add,hcall]
      refine relays_advised hst ((ha a (by simp)).keep hst) hh ((hp.grows ht).isCallable (hf t hst))
        fun u hu => ?_
      exact ih (hp.keep (hF.keeps (hst.trans hu))) (fun z hz => hf z ((hst.trans hu).trans hz)) fun b hb =>
        (ha b (by simp [hb])).keep (hst.trans hu)

theorem relays_routed {k : Value → Nat} (hF : F.Covers) (h : s.Routed f recv v as)
    (ha : ∀ a ∈ as, s.Forwards F (k a) a) (j : Nat) :
    Relays F M f (some (recv ++ args)) (allSee as args) s
      ((Machine.next^[cost k as + 1 + j] M).call v args [] s) := by
  obtain ⟨hs,g,hf⟩ := h
  exact relays_stacked hF hs (fun t ht => isCallable_function (hf.keep (hF.keeps ht))) ha j

end CallContracts
