import CallContracts.Proofs.Forward
/-! Wrappers that wait for an instance.  Each takes the first argument of a call as the instance.  An
instance goes below all wrappers at once; but to bind no value at all is to read the next wrapper from the
class, which waits in its turn and takes an argument too. -/
namespace CallContracts
open Act

/-- What each advice sees, and what is got below them all, when a wrapper that waits is called: `recv` is what
an instance adds to the explicit arguments, and `rest` are advices that do not wait. -/
def trail (recv : Value → List Value) (rest : List Value) :
    List Value → List Value → List (Value × List Value) × Option (List Value)
  | [], args => (allSee rest args,some args)
  | _ :: _, [] => ([],none)
  | a :: as, i :: args =>
    if i = .absent then ((a,args) :: (trail recv rest as args).1,(trail recv rest as args).2)
    else (allSee (a :: as ++ rest) args,some (recv i ++ args))

variable {recv : Value → List Value} {rest as args : List Value} {a i : Value}

theorem trail_instance (hi : i ≠ .absent) :
    trail recv rest (a :: as) (i :: args) = (allSee (a :: as ++ rest) args,some (recv i ++ args)) := by
  rw [trail,if_neg hi]

/-- No more is got than was given. -/
theorem length_trail {got : List Value} (hrecv : ∀ i, (recv i).length ≤ 1)
    (h : (trail recv rest as args).2 = some got) : got.length ≤ args.length := by
  induction as generalizing args with
  | nil =>
    obtain rfl : args = got := by simpa [trail] using h
    exact Nat.le_refl _
  | cons a as ih =>
    cases args with
    | nil => cases h
    | cons i args =>
      by_cases hi : i = .absent
      · have hgot : (trail recv rest as args).2 = some got := by simpa [trail,hi] using h
        have := ih hgot
        simp only [List.length_cons]
        omega
      · rw [trail_instance hi] at h
        obtain rfl : recv i ++ args = got := by simpa using h
        have := hrecv i
        simp only [List.length_append,List.length_cons]
        omega

/-- A function gets its first argument through the class unless that is no value at all. -/
theorem got_function : (trail (fun i => [i]) rest (a :: as) (i :: args)).2 = some (i :: args) ↔ i ≠ .absent := by
  refine ⟨?_,fun hi => by rw [trail_instance hi]; rfl⟩
  rintro h rfl
  have hgot : (trail (fun i => [i]) rest as args).2 = some (.absent :: args) := by simpa [trail] using h
  have hlength := length_trail (by simp) hgot
  rw [List.length_cons] at hlength
  omega

/-- A call through the class is the call that it would be without wrappers, unless the first argument is no value
at all. -/
theorem trail_function :
    trail (fun i => [i]) rest (a :: as) (i :: args) = (allSee (a :: as ++ rest) args,some (i :: args)) ↔
      i ≠ .absent := by
  refine ⟨fun h => got_function.mp (congrArg Prod.snd h),fun hi => ?_⟩
  rw [trail_instance hi]
  rfl

/-- What does not take an instance gets all arguments only if no wrapper waits. -/
theorem got_inert : (trail (fun _ => []) rest as args).2 = some args ↔ as = [] := by
  refine ⟨fun h => ?_,fun h => by rw [h,trail]⟩
  match as, args, h with
  | [], _, _ => rfl
  | a :: as, [], h => cases h
  | a :: as, i :: args, h =>
    by_cases hi : i = .absent
    · have hgot : (trail (fun _ => []) rest as args).2 = some (i :: args) := by simpa [trail,hi] using h
      have hlength := length_trail (by simp) hgot
      rw [List.length_cons] at hlength
      omega
    · rw [trail_instance hi] at h
      simp at h

section call
variable {F : Frame} {W : Store → Prop} {M : Machine} {s : Store} {f b owner w : Value}

/-- A wrapper that waits is called with an instance first. -/
theorem call_unbound {p : Value} (h : s.Wraps .unboundWrapper w p a) (i : Value) (args : List Value) :
    M.next.call w (i :: args) [] s = Wrapper.callUnbound M w i args [] s := by
  obtain ⟨r,o,rfl,-⟩ := h.place
  exact call_member h.classOf h.body? (c := .unboundWrapper) rfl []

theorem call_unbound_nil {p : Value} (h : s.Wraps .unboundWrapper w p a) :
    ∃ q, M.next.call w [] [] s = .error (.raised q) s ∧ .typeError ∈ q.cls.line := by
  obtain ⟨r,o,rfl,-⟩ := h.place
  rw [call_member h.classOf h.body? (c := .unboundWrapper) rfl []]
  exact ⟨_,rfl,by decide⟩

theorem iterate_three (n : Nat) : Machine.next^[n+3] M = (Machine.next^[n] M).next.next.next := by
  rw [Function.iterate_succ_apply',Wrapper.iterate_two]

theorem relays_nothing {k : Value → Nat} {j : Nat} (h : s.Waits b owner w a as) :
    Relays F M f none [] s ((Machine.next^[cost k (a :: as ++ rest) + 1 + j] M).call w [] [] s) := by
  obtain ⟨p,hw,-⟩ := h
  rw [Nat.add_right_comm,Function.iterate_succ_apply']
  obtain ⟨q,hq,htype⟩ := call_unbound_nil (M := Machine.next^[cost k (a :: as ++ rest) + j] M) hw
  rw [hq]
  exact .refused rfl (Store.Keeps.refl _ s) htype

/-- What is bound to the first argument is handed to the advice, and relays when the advice calls it. -/
theorem relays_callUnbound {N N' : Machine} {k : Nat} {got : Option (List Value)}
    {seen : List (Value × List Value)} (hground : Wrapper.Grounded W owner f recv b rest) (hs : W s)
    (h : s.Waits b owner w a as) (ha : s.Forwards F k a) (hN : N = Machine.next^[k+1] N')
    (hbind : ∀ u p, s.Grows u → u.Stacked b [] p as → ∃ c z, Wrapper.bindProceed N p i owner u = .ok c z ∧
      u.Grows z ∧ z.isCallable c = true ∧ ∀ y, z.Keeps F y → Relays F M f got seen y (N'.call c args [] y)) :
    Relays F M f got ((a,args) :: seen) s (N.next.call w (i :: args) [] s) := by
  obtain ⟨x,t,n,u,hx,hn,hg,hh⟩ := quiet_handed args s
  have hu := hground.grows s u hs hg
  have hcall : N.next.call w (i :: args) [] s = Wrapper.callUnbound N w i args [] s := by
    obtain ⟨q,hq,-⟩ := h
    exact call_unbound hq i args
  obtain ⟨p,hw,ho,hp⟩ := h.grows hg
  obtain ⟨c,z,hc,hz,hcall',hr⟩ := hbind u p hg hp
  have hwz := hw.grows hz
  have hsz := Store.Keeps.of_grows (F := F) (hg.trans hz)
  rw [hcall,Wrapper.callUnbound,bind_ok hx,bind_ok hn,bind_ok (fieldOf_own hw.classOf hw.proceed),
    bind_ok (Wrapper.bindsProceed_stacked hground hu hp)]
  simp only [Bool.not_true,Bool.false_eq_true,if_false]
  rw [bind_ok (fieldOf_own hw.classOf ho),bind_ok hc,bind_ok (fieldOf_own hwz.classOf hwz.advice),hN]
  exact relays_advised hsz (ha.keep hsz) (hh.grows hz) hcall' hr

/-- An instance goes below all wrappers. -/
theorem relays_instance {k : Value → Nat} (hF : F.Covers) (hground : Wrapper.Grounded W owner f recv b rest)
    (hW : ∀ t u, W t → t.Keeps F u → W u) (hs : W s) (h : s.Waits b owner w a as) (hi : i ≠ .absent)
    (ha : ∀ c ∈ a :: as ++ rest, s.Forwards F (k c) c) (args : List Value) (j : Nat) :
    Relays F M f (some (recv i ++ args)) (allSee (a :: as ++ rest) args) s
      ((Machine.next^[cost k (a :: as ++ rest) + 1 + j] M).call w (i :: args) [] s) := by
  have hlevel : cost k (a :: as ++ rest) + 1 + j = (k a + 1) + (cost k (as ++ rest) + 1 + j) + 1 := by
    rw [List.cons_append,cost_cons]
    omega
  obtain ⟨l,hl⟩ := Nat.exists_eq_add_of_le (show as.length + 2 ≤ (k a + 1) + (cost k (as ++ rest) + 1 + j) by
    have := length_le_cost k as
    rw [cost_append]
    omega)
  rw [hlevel,Function.iterate_succ_apply']
  refine relays_callUnbound hground hs h (ha a (by simp)) (iterate_add _ _) fun u p hg hp => ?_
  obtain ⟨c,z,hc,hz,hr,-⟩ := Wrapper.quiet_bindProceed (M := Machine.next^[l] M) hground
    (hground.grows s u hs hg) hp hi
  rw [← iterate_add,← hl] at hc
  have later {y : Store} (hy : z.Keeps F y) : s.Keeps F y := (Store.Keeps.of_grows (hg.trans hz)).trans hy
  refine ⟨c,z,hc,hz,hr.isCallable (hground.callable z (hW s z hs (later (Store.Keeps.refl _ z)))),fun y hy => ?_⟩
  exact relays_stacked hF (hr.keep (hF.keeps hy)) (fun x hx => hground.callable x (hW s x hs ((later hy).trans hx)))
    (fun c hc => (ha c (List.mem_cons_of_mem a hc)).keep (later hy)) j

/-- With one wrapper, what is below is the original, and the call goes there as it came. -/
theorem relays_absent_original {k : Value → Nat} (hF : F.Covers) (hground : Wrapper.Grounded W owner f recv b rest)
    (hW : ∀ t u, W t → t.Keeps F u → W u) (hs : W s) (h : s.Waits b owner w a [])
    (ha : ∀ c ∈ a :: rest, s.Forwards F (k c) c) (args : List Value) (j : Nat) :
    Relays F M f (some args) (allSee (a :: rest) args) s
      ((Machine.next^[cost k (a :: rest) + 1 + j] M).call w (.absent :: args) [] s) := by
  have hlevel : cost k (a :: rest) + 1 + j = (k a + (cost k rest + 1 + j)) + 1 + 1 := by
    rw [cost_cons]
    omega
  have hN : (Machine.next^[k a + (cost k rest + 1 + j)] M).next
      = Machine.next^[k a + 1] (Machine.next^[cost k rest + 1 + j] M) := by
    rw [← iterate_add,Nat.add_right_comm (k a) 1,Function.iterate_succ_apply']
  rw [hlevel,Function.iterate_succ_apply',Function.iterate_succ_apply']
  refine relays_callUnbound hground hs h (ha a (by simp)) hN fun u p hg hp => ?_
  have hu := hground.grows s u hs hg
  cases hp with
  | original =>
    have hb := hground.stacked u hu
    refine ⟨b,u,hground.unbound _ u hu,Store.Keeps.refl _ u,hb.isCallable (hground.callable u hu),fun y hy => ?_⟩
    exact relays_stacked hF (hb.keep (hF.keeps hy)) (fun z hz => hground.callable z (hW u z hu (hy.trans hz)))
      (fun c hc => (ha c (List.mem_cons_of_mem a hc)).keep ((Store.Keeps.of_grows hg).trans hy)) j

/-- With more, the wrapper below waits in turn. -/
theorem relays_absent_advised {k : Value → Nat} {got : Option (List Value)} {seen : List (Value × List Value)}
    (hF : F.Covers) (hground : Wrapper.Grounded W owner f recv b rest) (hs : W s)
    (h : s.Waits b owner w a (a' :: as)) (ha : s.Forwards F (k a) a) (args : List Value) (j : Nat)
    (hnext : ∀ w y, s.Keeps F y → y.Waits b owner w a' as →
      Relays F M f got seen y ((Machine.next^[cost k (a' :: as ++ rest) + 1 + j] M).call w args [] y)) :
    Relays F M f got ((a,args) :: seen) s
      ((Machine.next^[cost k (a :: a' :: as ++ rest) + 1 + j] M).call w (.absent :: args) [] s) := by
  have hlevel : cost k (a :: a' :: as ++ rest) + 1 + j = (k a + (k a' + cost k (as ++ rest) + 1 + j)) + 3 + 1 := by
    rw [List.cons_append,List.cons_append,cost_cons,cost_cons]
    omega
  have hN : (Machine.next^[k a + (k a' + cost k (as ++ rest) + 1 + j)] M).next.next.next
      = Machine.next^[k a + 1] (Machine.next^[cost k (a' :: as ++ rest) + 1 + j] M) := by
    have hsum : k a + 1 + (cost k (a' :: as ++ rest) + 1 + j) = k a + (k a' + cost k (as ++ rest) + 1 + j) + 3 := by
      rw [List.cons_append,cost_cons]
      omega
    rw [← iterate_add,hsum,iterate_three]
  rw [hlevel,Function.iterate_succ_apply',iterate_three]
  refine relays_callUnbound hground hs h ha hN fun u p hg hp => ?_
  have hu := hground.grows s u hs hg
  cases hp with
  | advised hw hp' =>
    obtain ⟨c,z,hc,hz,hwaits,-⟩ := Wrapper.quiet_unbound
      (M := Machine.next^[k a + (k a' + cost k (as ++ rest) + 1 + j)] M) hground hu hw hp'
      (Wrapper.told_stacked hground hu hp')
    rw [← Wrapper.bindProceed_builtin hw.classOf (Or.inr hground.named)] at hc
    refine ⟨c,z,hc,hz,?_,fun y hy => hnext c y ((Store.Keeps.of_grows (hg.trans hz)).trans hy)
      (hwaits.keep (hF.keeps hy))⟩
    obtain ⟨q,hq,-⟩ := hwaits
    rw [Store.isCallable_builtin hq.classOf]
    decide

/-- A call of a wrapper that waits relays what its trail says. -/
theorem relays_waits {k : Value → Nat} (hF : F.Covers) (hground : Wrapper.Grounded W owner f recv b rest)
    (hW : ∀ t u, W t → t.Keeps F u → W u) (hs : W s) (h : s.Waits b owner w a as)
    (ha : ∀ c ∈ a :: as ++ rest, s.Forwards F (k c) c) (args : List Value) (j : Nat) :
    Relays F M f (trail recv rest (a :: as) args).2 (trail recv rest (a :: as) args).1 s
      ((Machine.next^[cost k (a :: as ++ rest) + 1 + j] M).call w args [] s) := by
  induction as generalizing s w a args with
  | nil =>
    rcases args with _ | ⟨i,args⟩
    · exact relays_nothing h
    · by_cases hi : i = .absent
      · subst hi
        rw [trail,if_pos rfl]
        exact relays_absent_original hF hground hW hs h ha args j
      · rw [trail_instance hi]
        exact relays_instance hF hground hW hs h hi ha args j
  | cons a' as ih =>
    rcases args with _ | ⟨i,args⟩
    · exact relays_nothing h
    · by_cases hi : i = .absent
      · subst hi
        rw [trail,if_pos rfl]
        exact relays_absent_advised hF hground hs h (ha a (by simp)) args j fun w y hsy hwaits =>
          ih (hW s y hs hsy) hwaits (fun c hc => (ha c (List.mem_cons_of_mem a hc)).keep hsy) args
      · rw [trail_instance hi]
        exact relays_instance hF hground hW hs h hi ha args j

end call
end CallContracts
