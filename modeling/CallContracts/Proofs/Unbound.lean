import CallContracts.Proofs.Layering
/-! Methods called through their class.  The wrapper that is read from the class takes the first argument as
the instance; that is faithful but for one value, which stands for no instance. -/
namespace CallContracts
open Act

namespace Wrapper
variable {M : Machine} {s : Store} {L : Ledger} {n : String} {H I : Ref → Prop} {k : Value → Nat}
  {ops : List (Ref × Value)} {d : Nat}

/-- A method that is read from a class under advices passes a call on to all of them, and then to the function
with everything that was given.  If the first argument is no value at all, the function does not get it: it is
lost, and so is the next such argument for each further advice. -/
theorem calls_through_class (h : Layered s n H I L k ops d) :
    ∃ t K, K = L.wrapAll s ops ∧ installAll (Machine.next^[d] M) n ops s = .ok () t ∧
      s.Keeps (.members n) t ∧ t.Family n H I ∧ t.Agrees n H I K ∧
      ∀ z J, t.Keeps .callables z → z.Family n H J → z.Agrees n H J K →
        ∀ D l a as, H D → K.found z D = some l → l.receives = .object → l.advices = a :: as →
          ∃ c u, (Machine.next^[d] M).read (.ref D) n z = .ok c u ∧
            (∀ args, Relays .callables M l.original (trail (fun i => [i]) [] (a :: as) args).2
              (trail (fun i => [i]) [] (a :: as) args).1 u ((Machine.next^[d] M).call c args [] u)) ∧
            ∀ i args, trail (fun i => [i]) [] (a :: as) (i :: args)
              = (allSee (a :: as) args,some (i :: args)) ↔ i ≠ .absent := by
  obtain ⟨t,ht,hFt,hLt,hcallables,hmembers,hb⟩ := h.run (M := M)
  refine ⟨t,_,rfl,ht,hmembers,hFt,hLt,fun z J htz hFz hLz D l a as hD hl hobject hadvices => ?_⟩
  obtain ⟨hcost,hforwards⟩ := h.found (hcallables.trans htz) hl hb
  have hlength := length_le_cost k l.advices
  have hdirect : l.Direct := fun hc => by cases hobject.symm.trans hc
  obtain ⟨N,hN⟩ := iterate_of_le (M := M) (show 2 * l.advices.length + 2 ≤ d by omega)
  obtain ⟨c,u,hc,hg,hr⟩ := quiet_readBranch (M := N) (hFz.classes D hD) h.name hFz hLz hl hdirect
  obtain ⟨j,rfl⟩ := Nat.exists_eq_add_of_le (show cost k l.advices + 1 ≤ d by omega)
  refine ⟨c,u,by rw [hN,hc],fun args => ?_,fun i args => ?_⟩
  · rw [← hadvices]
    exact relays_readObject hr hobject (by simp)
      (fun a ha => (hforwards a ha).keep (Store.Keeps.of_grows hg)) args j
  · have h : trail (fun i => [i]) [] (a :: as) (i :: args) = (allSee (a :: as ++ []) args,some (i :: args)) ↔
        i ≠ .absent := trail_function
    rwa [List.append_nil] at h

/-- The wrappers of both classes see what comes after the instance, and the function gets it all. -/
theorem calls_through_class_hierarchy : ∃ t c u,
    Layered hierarchy "m" (· ∈ [35,36]) (· = 37) hierarchyLedger (fun _ => 0)
      [(35,.ref 34),(36,.ref 34),(37,.ref 34)] 9 ∧
    installAll (Machine.next^[9] Machine.halted) "m" [(35,.ref 34),(36,.ref 34),(37,.ref 34)] hierarchy
      = .ok () t ∧
    (Machine.next^[9] Machine.halted).read (.ref 36) "m" t = .ok c u ∧
    Relays .callables Machine.halted (.ref 33) (some [.int 5,.int 3]) [(.ref 34,[.int 3]),(.ref 34,[.int 3])] u
      ((Machine.next^[9] Machine.halted).call c [.int 5,.int 3] [] u) ∧
    Relays .callables Machine.halted (.ref 33) (some [.int 3])
      [(.ref 34,[.absent,.int 3]),(.ref 34,[.int 3])] u
      ((Machine.next^[9] Machine.halted).call c [.absent,.absent,.int 3] [] u) := by
  obtain ⟨t,K,rfl,ht,hmembers,hF,hL,hcalls⟩ := calls_through_class (M := Machine.halted) hierarchy_layered
  have hfound : (hierarchyLedger.wrapAll hierarchy [(35,.ref 34),(36,.ref 34),(37,.ref 34)]).found t 36
      = some ⟨.object,.ref 33,false,[.ref 34,.ref 34]⟩ := by
    rw [Store.found_keep hierarchy_family hF (Or.inl (by simp)) hmembers]
    rfl
  obtain ⟨c,u,hc,hr,-⟩ := hcalls t (· = 37) (Store.Keeps.refl _ t) hF hL 36 _ _ _ (by simp) hfound rfl rfl
  exact ⟨t,c,u,hierarchy_layered,ht,hc,hr [.int 5,.int 3],hr [.absent,.absent,.int 3]⟩

/-- Without a wrapper the method gives back its second argument, whatever the first one is; under one advice it
cannot be called with no value at all. -/
theorem fails_through_class :
    returned (callMember Machine.full (.ref 35) "m" [.absent,.int 3]) hierarchy = some (.int 3) ∧
    raises (do
      let _ ← install Machine.full (.ref 35) (.str "m") (.ref 34)
      callMember Machine.full (.ref 35) "m" [.absent,.int 3]) hierarchy = true := by decide +kernel

end Wrapper
end CallContracts
