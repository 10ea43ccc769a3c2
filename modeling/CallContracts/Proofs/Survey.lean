import CallContracts.Proofs.Host
/-! Going over a map of signatures.  On a target that bears signatures, the entries whose members are to be wrapped are
those that ask for another signature than the last one; wrapping them signs their members once more. -/
namespace CallContracts
open Act

namespace Attachment
variable {W : Store → Prop} {E R : Store → Store → Prop} {m : Machine} {target signatures : Value}
  {names : Value → Prop} {site : Value → Option Value} {calls : Value × Value → Bool}
  {B : Store → (Value → List Value) → Prop} {S : Value → List Value} {s t u : Store} {map ps : List (Value × Value)}
  {p : Value × Value}

/-- A map of signatures that is gone over with such steps: it lists its entries, and whether a member is called does
not change. -/
structure Surveys (E : Store → Store → Prop) (W : Store → Prop) (m : Machine) (target : Value) (names : Value → Prop)
    (calls : Value × Value → Bool) (signatures : Value) (map : List (Value × Value)) : Prop where
  accepts : Within E W (Signature.accepts m signatures target)
  inserted : MayGive W (Signature.accepts m signatures target) .mismatched →
    Within E W (Contract.attachment.inserted m)
  lists : Lists W m signatures map
  named : ∀ p ∈ map, names p.1
  regarded : ∀ p ∈ map, Signature.Regarded E W m target p
  called : ∀ p ∈ map, Calls W m target p (calls p)

/-- A callable member is wrapped unless its outermost wrapper checks the signature. -/
theorem judge_due {b c : Bool} {v : Value} {i : Value} (hi : site p.1 = some i) (htop : t.Topped R m v (S i).head?)
    (ht : R t t) (hc : calls p = c) (hu : judge m p v c t = .ok b u) : b = due site calls S p := by
  cases c with
  | false =>
    obtain ⟨_,_,-,hu⟩ := bind_eq_ok.mp hu
    obtain ⟨rfl,-⟩ : false = b ∧ _ = u := by simpa using hu
    simp [due,hc]
  | true =>
    obtain ⟨d,z,hd,hu⟩ := bind_eq_ok.mp hu
    obtain rfl := htop _ _ _ _ ht hd
    by_cases hhead : (S i).head? = some p.2
    · simp only [hhead,decide_true,if_true] at hu
      obtain ⟨_,_,-,hu⟩ := bind_eq_ok.mp hu
      obtain ⟨rfl,-⟩ : false = b ∧ _ = u := by simpa using hu
      simp [due,hc,hi,hhead]
    · simp only [hhead,decide_false,Bool.false_eq_true,if_false] at hu
      obtain ⟨rfl,-⟩ : true = b ∧ _ = u := by simpa using hu
      simp [due,hc,hi,hhead]

section host
variable (hhost : Host E R m target names site B s)
include hhost

theorem Host.grows (hB : B t S) (hg : t.Grows u) : B u S :=
  hhost.keeps t u S hB (hhost.steps.grows t u (hhost.later t S hB) hg)

/-- An entry that does not fail is noted if its member is to be wrapped. -/
theorem examine_due {b : Bool} (hn : names p.1) (h : Signature.Regarded E (R s) m target p)
    (hcalls : Calls (R s) m target p (calls p)) (hB : B t S)
    (hu : Signature.examine m target p.1 p.2 t = .ok b u) :
    b = due site calls S p := by
  have hE := hhost.steps
  rw [Signature.examine] at hu
  obtain ⟨b₀,t₁,-,hu,h₁,hR₁⟩ := h.contract.step hE (hhost.later t S hB) hu
  cases b₀ with
  | false =>
    simp only [Bool.not_false,if_true] at hu
    obtain ⟨n,_,-,hu⟩ := bind_eq_ok.mp hu
    obtain ⟨x,_,-,hu⟩ := bind_eq_ok.mp hu
    simp [bind_apply] at hu
  | true =>
    simp only [Bool.not_true,Bool.false_eq_true,if_false,pure_bind] at hu
    obtain ⟨b₁,t₂,-,hu,h₂,hR₂⟩ := h.has.step hE hR₁ hu
    cases b₁ with
    | false =>
      simp only [Bool.not_false,if_true] at hu
      obtain ⟨n,_,-,hu⟩ := bind_eq_ok.mp hu
      simp [bind_apply] at hu
    | true =>
      simp only [Bool.not_true,Bool.false_eq_true,if_false] at hu
      have hB₂ := hhost.keeps _ _ _ (hhost.keeps _ _ _ hB h₁) h₂
      obtain ⟨v,t₃,hv,hu,h₃,hR₃⟩ := h.member.step hE hR₂ hu
      obtain ⟨i,hi,htop⟩ := hhost.reads _ _ _ _ _ hB₂ hn hv
      rw [get_bind_apply] at hu
      have hrest : ∃ c t₄, (if t₃.isCallable v then isSignature m p.2 else pure false) t₃ = .ok c t₄ ∧
          E t₃ t₄ ∧ judge m p v c t₄ = .ok b u := by
        cases hcallable : t₃.isCallable v with
        | true =>
          simp only [hcallable,if_true] at hu
          obtain ⟨c,t₄,hc,hu,h₄,-⟩ := h.signature.step hE hR₃ hu
          exact ⟨c,t₄,hc,h₄,hu⟩
        | false =>
          simp only [hcallable,Bool.false_eq_true,if_false] at hu
          exact ⟨false,t₃,rfl,hE.refl hR₃,hu⟩
      obtain ⟨c,t₄,hc,h₄,hu⟩ := hrest
      obtain rfl := hcalls _ _ _ _ _ hR₂ hv hc
      have hR := hhost.evolves
      have hR₄ := hE.lasts _ _ hR₃ h₄
      exact judge_due hi (Store.Topped.later hR hR₃ htop (hhost.within _ _ hR₃ h₄))
        (hR.grows _ _ hR₄ (Store.Keeps.refl _ _)) rfl hu

/-- When no entry fails, those whose members are to be wrapped are noted. -/
theorem pending_due {noted l : List (Value × Value)} {c : Cursor} {n : Nat}
    (hmap : ∀ p ∈ map, names p.1 ∧ Signature.Regarded E (R s) m target p ∧ Calls (R s) m target p (calls p))
    (hc : c.Yields (R s) m map) (hn : map.length < n) (hB : B t S)
    (hu : Signature.pending m target noted n c t = .ok l u) :
    l = noted ++ map.filter (due site calls S) := by
  induction map generalizing c n noted t with
  | nil =>
    obtain ⟨n,rfl⟩ := Nat.exists_eq_add_one_of_ne_zero (Nat.ne_of_gt hn)
    obtain ⟨v,hv,-⟩ := hc t (hhost.later t S hB)
    rw [Signature.pending,bind_ok hv] at hu
    obtain ⟨rfl,-⟩ : noted = l ∧ v = u := by simpa using hu
    simp
  | cons p ps ih =>
    obtain ⟨n,rfl⟩ := Nat.exists_eq_add_one_of_ne_zero (Nat.ne_of_gt (Nat.zero_lt_of_lt hn))
    obtain ⟨hp,hregarded,hcalls⟩ := hmap p (by simp)
    obtain ⟨x,c',v,hv,hg,hparts,hc'⟩ := hc t (hhost.later t S hB)
    have hBv := hhost.grows hB hg
    obtain ⟨w,hw,hg'⟩ := hparts v (hhost.later v S hBv)
    have hBw := hhost.grows hBv hg'
    rw [Signature.pending_next hv hw] at hu
    obtain ⟨b,z,hz,hu⟩ := bind_eq_ok.mp hu
    have hwz := (Signature.within_examine hhost.steps hregarded).ok (hhost.later w S hBw) hz
    obtain rfl := examine_due hhost hp hregarded hcalls hBw hz
    rw [ih (fun q hq => hmap q (by simp [hq])) hc' (Nat.lt_of_succ_lt_succ hn) (hhost.keeps w z S hBw hwz) hu,
      List.filter_cons]
    cases due site calls S p <;> simp

/-- Going over a map makes such steps only; if it ends well, the members that are to be wrapped are noted. -/
theorem prepare_due (h : Surveys E (R s) m target names calls signatures map) (hB : B t S) :
    (Signature.prepare m signatures target).Leads (fun l u => E t u ∧ l = map.filter (due site calls S)) (E t) t := by
  have hE := hhost.steps
  have hRt := hhost.later t S hB
  rw [Signature.prepare_eq]
  refine (h.accepts.leads hRt).bind ?_
  rintro o z ⟨ho,hz⟩
  have hRz := hE.lasts t z hRt hz
  have after {u : Store} (hu : E z u) : E t u := hE.trans t z u hRt hz hu
  by_cases hm : o = .mismatched
  · -- the arguments are refused
    rw [if_pos hm]
    have hinserted := (h.inserted ⟨t,z,hRt,hm ▸ ho⟩).leads hRz
    refine (hinserted.impError fun u hu => after hu).bind ?_
    rintro _ u ⟨-,hu⟩
    exact leads_fail (after hu)
  · rw [if_neg hm]
    obtain ⟨c,v,hv,hg,hyields,hbound⟩ := h.lists z hRz
    have hRv := hE.lasting z v hRz hg
    have hzv := hE.grows z v hRz hg
    have hBv : B v S := hhost.keeps t v S hB (after hzv)
    have hmap : ∀ p ∈ map, names p.1 ∧ Signature.Regarded E (R s) m target p ∧ Calls (R s) m target p (calls p) :=
      fun p hp => ⟨h.named p hp,h.regarded p hp,h.called p hp⟩
    have later {u : Store} (hu : E v u) : E t u := after (hE.trans z v u hRz hzv hu)
    refine leads_congr ((bind_ok hv).trans (get_bind_apply _ _)) ?_
    refine ((Signature.within_pending hE h.regarded [] hyields hbound).leads hRv).imp ?_ fun u hu => later hu
    rintro l u ⟨hl,hu⟩
    exact ⟨later hu,by simpa using pending_due hhost hmap hyields hbound hBv hl⟩

/-- One noted member is wrapped, or nothing is; what is recorded afterwards may fail. -/
theorem wrapNoted_signs (hn : names p.1) (h : Signature.Regarded E (R s) m target p) (hB : B t S) :
    (Signature.wrapNoted m target p.1 p.2).Leads (fun _ u => B u (signAll site S [p]))
      (fun u => B u S ∨ B u (signAll site S [p])) t := by
  rw [Signature.wrapNoted]
  refine ((h.check.leads (hhost.later t S hB)).impError fun u hu => Or.inl (hhost.keeps t u S hB hu)).bind ?_
  rintro k z ⟨hk,hz⟩
  have hinstall := hhost.installs z S p.1 k p.2 (hhost.keeps t z S hB hz) hn (Signature.enforces_check hk)
  refine (hinstall.impError fun u hu => Or.inl hu).bind ?_
  rintro w v ⟨i,hi,hv⟩
  have hBv : B v (signAll site S [p]) := by simpa [signAll,hi] using hv
  have hlog := Signature.within_logAgainst hhost.steps h.noted "checking calls of " " against "
  exact (hlog.leads (hhost.later v _ hBv)).imp (fun _ u hu => hhost.keeps v u _ hBv hu.2)
    fun u hu => Or.inr (hhost.keeps v u _ hBv hu)

/-- The noted members are wrapped in turn; when that fails, those that came before have their wrappers. -/
theorem wrapAll_signs (hps : ∀ p ∈ ps, names p.1 ∧ Signature.Regarded E (R s) m target p) (hB : B t S) :
    (Signature.wrapAll m target ps).Leads (fun _ u => B u (signAll site S ps))
      (fun u => ∃ done, done.Sublist ps ∧ B u (signAll site S done)) t := by
  induction ps generalizing t S with
  | nil => exact leads_pure hB
  | cons p ps ih =>
    obtain ⟨hn,h⟩ := hps p (by simp)
    rw [Signature.wrapAll]
    refine ((wrapNoted_signs hhost hn h hB).impError ?_).bind fun _ z hz => ?_
    · rintro u (hu | hu)
      · exact ⟨[],List.nil_sublist _,hu⟩
      · exact ⟨[p],List.singleton_sublist.mpr (by simp),hu⟩
    · refine (ih (fun q hq => hps q (by simp [hq])) hz).imp (fun _ u hu => hu) ?_
      rintro u ⟨done,hdone,hu⟩
      exact ⟨p :: done,hdone.cons_cons p,hu⟩

end host
end Attachment
end CallContracts
