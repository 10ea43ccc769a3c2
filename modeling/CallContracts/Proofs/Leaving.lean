import CallContracts.Proofs.Sparing
/-! Leaving things alone.  What is asked while a map of signatures is gone over, and while a member is wrapped, may
run code of the program and may fail; as long as that code makes steps of some kind only, so does going over the map.
The smallest such steps are those of growth, in which nothing changes that was there. -/
namespace CallContracts
open Act

namespace Act
variable {α β : Type} {W : Store → Prop} {E : Store → Store → Prop} {x : Act α} {f : α → Act β} {t u : Store}

/-- Whether it ends well or not, it makes a step that the relation has. -/
def Within (E : Store → Store → Prop) (W : Store → Prop) (x : Act α) : Prop := ∀ t, W t → E t (after x t)

/-- Whether it ends well or not, what was there is as it was. -/
def Leaves (W : Store → Prop) (x : Act α) : Prop := ∀ t, W t → t.Grows (after x t)

theorem Within.ok {a : α} (hx : Within E W x) (ht : W t) (h : x t = .ok a u) : E t u := by
  have := hx t ht
  rwa [after_ok h] at this

theorem Within.error {e : Stop} (hx : Within E W x) (ht : W t) (h : x t = .error e u) : E t u := by
  have := hx t ht
  rwa [after_error h] at this

theorem Within.mono {W' : Store → Prop} (hx : Within E W x) (hW : ∀ t, W' t → W t) : Within E W' x :=
  fun t ht => hx t (hW t ht)

theorem Within.get {f : Store → Act β} (h : ∀ t, W t → Within E W (f t)) : Within E W (MonadState.get >>= f) := by
  intro t ht
  have hafter : after (MonadState.get >>= f) t = after (f t) t := by simp only [after,get_bind_apply]
  rw [hafter]
  exact h t ht t ht

theorem Leaves.ok {a : α} (hx : Leaves W x) (ht : W t) (h : x t = .ok a u) : t.Grows u :=
  Within.ok (E := Store.Grows) hx ht h

theorem Leaves.error {e : Stop} (hx : Leaves W x) (ht : W t) (h : x t = .error e u) : t.Grows u :=
  Within.error (E := Store.Grows) hx ht h

theorem leaves_pure (a : α) : Leaves W (pure a : Act α) := fun t _ => Store.Keeps.refl _ t

theorem AlwaysCalm.leaves (hx : AlwaysCalm W x) : Leaves W x := by
  intro t ht
  obtain ⟨a,u,hu,hg⟩ := hx t ht
  rwa [after_ok hu]

theorem Always.leaves {a : α} (hx : Always W x a) : Leaves W x := hx.calm.leaves

theorem Leaves.mono {W' : Store → Prop} (hx : Leaves W x) (hW : ∀ t, W' t → W t) : Leaves W' x :=
  fun t ht => hx t (hW t ht)

/-- Stores that stay of their kind when they grow. -/
def Lasting (W : Store → Prop) : Prop := ∀ t u, W t → t.Grows u → W u

/-- Steps that lead from stores of a kind to stores of that kind, one after the other; growth is such a step. -/
structure Steps (W : Store → Prop) (E : Store → Store → Prop) : Prop where
  grows : ∀ t u, W t → t.Grows u → E t u
  trans : ∀ t u v, W t → E t u → E u v → E t v
  lasts : ∀ t u, W t → E t u → W u

theorem Lasting.steps (hW : Lasting W) : Steps W Store.Grows :=
  ⟨fun _ _ _ h => h,fun _ _ _ _ h h' => h.trans h',hW⟩

theorem Steps.lasting (hE : Steps W E) : Lasting W := fun t u ht hg => hE.lasts t u ht (hE.grows t u ht hg)

theorem Steps.refl (hE : Steps W E) (ht : W t) : E t t := hE.grows t t ht (Store.Keeps.refl _ t)

/-- The stores that such steps lead to from one on. -/
theorem Steps.after (hE : Steps W E) (ht : W t) : Steps (E t) E :=
  ⟨fun u v hu hg => hE.grows u v (hE.lasts t u ht hu) hg,
    fun u v w hu => hE.trans u v w (hE.lasts t u ht hu),fun u v hu hv => hE.trans t u v ht hu hv⟩

section steps
variable (hE : Steps W E)
include hE

theorem Leaves.within (hx : Leaves W x) : Within E W x := fun t ht => hE.grows t _ ht (hx t ht)

theorem within_pure (a : α) : Within E W (pure a : Act α) := fun _ ht => hE.refl ht

theorem within_fail (q : Fault) : Within E W (fail q : Act α) := fun _ ht => hE.refl ht

/-- What comes next is asked of what was answered, and where. -/
theorem Within.andThen (hx : Within E W x) (hf : ∀ a t u, W t → x t = .ok a u → Within E (E u) (f a)) :
    Within E W (x >>= f) := by
  intro t ht
  cases h : x t with
  | error e u =>
    rw [after_error (bind_error h)]
    exact hx.error ht h
  | ok a u =>
    have hafter : Act.after (x >>= f) t = Act.after (f a) u := by simp only [Act.after,bind_ok h]
    rw [hafter]
    have hu := hx.ok ht h
    exact hE.trans _ _ _ ht hu (hf a t u ht h u (hE.refl (hE.lasts t u ht hu)))

theorem Within.bind (hx : Within E W x) (hf : ∀ a, MayGive W x a → Within E W (f a)) : Within E W (x >>= f) := by
  refine hx.andThen hE fun a t u ht hu => (hf a ⟨t,u,ht,hu⟩).mono fun v hv => ?_
  exact hE.lasts t v ht (hE.trans t u v ht (hx.ok ht hu) hv)

/-- What goes before made a step, and so did what came after it. -/
theorem Within.step {b : β} {v : Store} (hx : Within E W x) (ht : W t) (h : (x >>= f) t = .ok b v) :
    ∃ a u, x t = .ok a u ∧ f a u = .ok b v ∧ E t u ∧ W u := by
  obtain ⟨a,u,hu,hv⟩ := bind_eq_ok.mp h
  have hg := hx.ok ht hu
  exact ⟨a,u,hu,hv,hg,hE.lasts t u ht hg⟩

end steps

section lasting
variable (hW : Lasting W)
include hW

theorem Leaves.bind (hx : Leaves W x) (hf : ∀ a, MayGive W x a → Leaves W (f a)) : Leaves W (x >>= f) :=
  Within.bind (E := Store.Grows) hW.steps hx hf

/-- What goes before was harmless, and so was what came after it. -/
theorem Leaves.step {b : β} {v : Store} (hx : Leaves W x) (ht : W t) (h : (x >>= f) t = .ok b v) :
    ∃ a u, x t = .ok a u ∧ f a u = .ok b v ∧ t.Grows u ∧ W u :=
  Within.step (E := Store.Grows) hW.steps hx ht h

end lasting

/-- Where something leads: to `P` if it ends well, and to `Q` otherwise. -/
def Leads (x : Act α) (P : α → Store → Prop) (Q : Store → Prop) (t : Store) : Prop :=
  (∀ a u, x t = .ok a u → P a u) ∧ ∀ e u, x t = .error e u → Q u

section leads
variable {P : α → Store → Prop} {P' : β → Store → Prop} {Q : Store → Prop}

theorem leads_pure {a : α} (h : P a t) : (pure a : Act α).Leads P Q t := by
  refine ⟨fun b u hu => ?_,fun e u hu => (by cases hu)⟩
  cases hu
  exact h

theorem leads_fail {q : Fault} (h : Q t) : (fail q : Act α).Leads P Q t := by
  refine ⟨fun b u hu => (by simp at hu),fun e u hu => ?_⟩
  cases hu
  exact h

theorem leads_error {e : Stop} (hx : x t = .error e u) (h : Q u) : x.Leads P Q t :=
  ⟨fun a v hv => by simp [hx] at hv,fun e' v hv => by
    obtain ⟨-,rfl⟩ : e = e' ∧ u = v := by simpa [hx] using hv
    exact h⟩

theorem Leads.bind (hx : x.Leads P Q t) (hf : ∀ a u, P a u → (f a).Leads P' Q u) : (x >>= f).Leads P' Q t := by
  cases h : x t with
  | error e u =>
    refine ⟨fun b v hv => ?_,fun e' v hv => ?_⟩
    · rw [bind_error h] at hv
      cases hv
    · rw [bind_error h] at hv
      cases hv
      exact hx.2 e u h
  | ok a u =>
    obtain ⟨hok,herr⟩ := hf a u (hx.1 a u h)
    refine ⟨fun b v hv => hok b v ?_,fun e v hv => herr e v ?_⟩
    all_goals rwa [bind_ok h] at hv

theorem Leads.imp {P' : α → Store → Prop} {Q' : Store → Prop} (hx : x.Leads P Q t) (hP : ∀ a u, P a u → P' a u)
    (hQ : ∀ u, Q u → Q' u) : x.Leads P' Q' t :=
  ⟨fun a u hu => hP a u (hx.1 a u hu),fun e u hu => hQ u (hx.2 e u hu)⟩

theorem Leads.impError {Q' : Store → Prop} (hx : x.Leads P Q t) (hQ : ∀ u, Q u → Q' u) : x.Leads P Q' t :=
  hx.imp (fun _ _ h => h) hQ

theorem Leads.after (hx : x.Leads P Q t) (hP : ∀ a u, P a u → Q u) : Q (after x t) := by
  cases h : x t with
  | ok a u =>
    rw [after_ok h]
    exact hP a u (hx.1 a u h)
  | error e u =>
    rw [after_error h]
    exact hx.2 e u h

theorem leads_congr {y : Act α} (h : x t = y u) (hy : y.Leads P Q u) : x.Leads P Q t := by
  rw [Leads,h]
  exact hy

theorem Within.leads (hx : Within E W x) (ht : W t) : x.Leads (fun a u => x t = .ok a u ∧ E t u) (E t) t :=
  ⟨fun _ _ hu => ⟨hu,hx.ok ht hu⟩,fun _ _ hu => hx.error ht hu⟩

theorem Leaves.leads (hx : Leaves W x) (ht : W t) : x.Leads (fun a u => x t = .ok a u ∧ t.Grows u) (t.Grows ·) t :=
  Within.leads (E := Store.Grows) hx ht

end leads
end Act

namespace Signature
variable {W : Store → Prop} {E : Store → Store → Prop} {m : Machine} {signatures target : Value} {p : Value × Value}

/-- What is recorded of an entry is found without changing anything. -/
structure Recorded (W : Store → Prop) (m : Machine) (p : Value × Value) : Prop where
  name : Leaves W (formatted m p.1) ∧ Leaves W (written m p.1)
  description : Leaves W (descriptionOf m p.2)
  text : ∀ d, MayGive W (descriptionOf m p.2) d → Leaves W (formatted m d) ∧ Leaves W (written m d)

/-- So is what is asked about a member. -/
structure Seen (W : Store → Prop) (m : Machine) (p : Value × Value) (v : Value) : Prop where
  signed : Leaves W (isSignedWith m v p.2)
  matched : Called W m p v false → Leaves W (mismatches m p.2 v) ∧ Leaves W (shortText m v)

/-- All that is asked about an entry of a map and about its member leaves things alone. -/
structure Harmless (W : Store → Prop) (m : Machine) (target : Value) (p : Value × Value) : Prop where
  contract : Leaves W (isContract m p.2)
  shown : MayGive W (isContract m p.2) false → Leaves W (shown m p.2)
  recorded : Recorded W m p
  has : Leaves W (hasMember m target p.1)
  member : Leaves W (memberOf m target p.1)
  signature : Leaves W (isSignature m p.2)
  seen : ∀ t v u, W t → memberOf m target p.1 t = .ok v u → Seen (u.Grows ·) m p v
  check : Leaves W (check m p.2 p.1)

/-- What is recorded of an entry is found within such steps. -/
structure Noted (E : Store → Store → Prop) (W : Store → Prop) (m : Machine) (p : Value × Value) : Prop where
  name : Within E W (formatted m p.1) ∧ Within E W (written m p.1)
  description : Within E W (descriptionOf m p.2)
  text : ∀ d, MayGive W (descriptionOf m p.2) d → Within E W (formatted m d) ∧ Within E W (written m d)

/-- So is what is asked about a member. -/
structure Viewed (E : Store → Store → Prop) (W : Store → Prop) (m : Machine) (p : Value × Value) (v : Value) :
    Prop where
  signed : Within E W (isSignedWith m v p.2)
  matched : Called W m p v false → Within E W (mismatches m p.2 v) ∧ Within E W (shortText m v)

/-- All that is asked about an entry of a map and about its member makes such steps. -/
structure Regarded (E : Store → Store → Prop) (W : Store → Prop) (m : Machine) (target : Value) (p : Value × Value) :
    Prop where
  contract : Within E W (isContract m p.2)
  shown : MayGive W (isContract m p.2) false → Within E W (shown m p.2)
  noted : Noted E W m p
  has : Within E W (hasMember m target p.1)
  member : Within E W (memberOf m target p.1)
  signature : Within E W (isSignature m p.2)
  viewed : ∀ t v u, W t → memberOf m target p.1 t = .ok v u → Viewed E (E u) m p v
  check : Within E W (check m p.2 p.1)

/-- What leaves things alone makes steps of growth. -/
theorem Harmless.regarded (h : Harmless W m target p) : Regarded Store.Grows W m target p where
  contract := h.contract
  shown := h.shown
  noted := ⟨h.recorded.name,h.recorded.description,h.recorded.text⟩
  has := h.has
  member := h.member
  signature := h.signature
  viewed t v u ht hv := ⟨(h.seen t v u ht hv).signed,(h.seen t v u ht hv).matched⟩
  check := h.check

theorem Called.mono {W' : Store → Prop} {v : Value} {b : Bool} (h : Called W' m p v b) (hW : ∀ t, W' t → W t) :
    Called W m p v b := by
  cases h with
  | data ht hc => exact .data (hW _ ht) hc
  | asked ht hc hb =>
    obtain ⟨t,u,hu,hbu⟩ := hb
    exact .asked (hW _ ht) hc ⟨t,u,hW t hu,hbu⟩

theorem Seen.mono {W' : Store → Prop} {v : Value} (h : Seen W m p v) (hW : ∀ t, W' t → W t) : Seen W' m p v :=
  ⟨h.signed.mono hW,fun hcalled => (h.matched (hcalled.mono hW)).imp (·.mono hW) (·.mono hW)⟩

/-- What leaves things alone makes any steps that growth is one of, if it does so as well about members in the stores
that such steps lead to. -/
theorem Harmless.within (h : Harmless W m target p) (hE : Steps W E)
    (hseen : ∀ t v u, W t → memberOf m target p.1 t = .ok v u → Seen (E u) m p v) : Regarded E W m target p := by
  obtain ⟨hname,hdescription,htext⟩ := h.recorded
  refine ⟨h.contract.within hE,fun hno => (h.shown hno).within hE,
    ⟨hname.imp (·.within hE) (·.within hE),hdescription.within hE,fun x hx => (htext x hx).imp (·.within hE) (·.within hE)⟩,
    h.has.within hE,h.member.within hE,h.signature.within hE,fun t v u ht hv => ?_,h.check.within hE⟩
  have hsteps := hE.after (hE.lasts t u ht (hE.grows t u ht (h.member.ok ht hv)))
  have hlater := hseen t v u ht hv
  exact ⟨hlater.signed.within hsteps,fun hcalled => (hlater.matched hcalled).imp (·.within hsteps) (·.within hsteps)⟩

theorem Noted.mono {W' : Store → Prop} (h : Noted E W m p) (hW : ∀ t, W' t → W t) : Noted E W' m p := by
  refine ⟨⟨h.name.1.mono hW,h.name.2.mono hW⟩,h.description.mono hW,fun d ⟨t,u,ht,hu⟩ => ?_⟩
  obtain ⟨hform,hwrite⟩ := h.text d ⟨t,u,hW t ht,hu⟩
  exact ⟨hform.mono hW,hwrite.mono hW⟩

section entry
variable (hE : Steps W E)
include hE

theorem within_logAgainst (h : Noted E W m p) (before between : String) :
    Within E W (logAgainst m before between p.1 p.2) :=
  h.description.bind hE fun d hd => h.name.2.bind hE fun _ _ => (h.text d hd).2.bind hE fun _ _ =>
    fun t ht => hE.grows t _ ht (Store.Keeps.logged t _)

theorem within_checkMember {v : Value} (h : Noted E W m p) (hv : Viewed E W m p v) (hcall : Called W m p v false) :
    Within E W (checkMember m p.2 p.1 v) := by
  obtain ⟨hmatched,hshort⟩ := hv.matched hcall
  refine (within_logAgainst hE h _ _).bind hE fun _ _ => hmatched.bind hE fun b _ => ?_
  cases b with
  | false => exact within_pure hE _
  | true =>
    refine h.description.bind hE fun d hd => Within.bind hE ?_ fun b _ => within_fail hE _
    exact h.name.1.bind hE fun n _ => (h.text d hd).1.bind hE fun x _ => hshort.bind hE fun y _ => within_pure hE _

theorem within_judge {v : Value} {b : Bool} (h : Noted E W m p) (hv : Viewed E W m p v) (hcall : Called W m p v b) :
    Within E W (Attachment.judge m p v b) := by
  cases b with
  | false => exact (within_checkMember hE h hv hcall).bind hE fun _ _ => within_pure hE _
  | true =>
    refine hv.signed.bind hE fun b _ => ?_
    cases b with
    | false => exact within_pure hE _
    | true => exact (within_logAgainst hE h _ _).bind hE fun _ _ => within_pure hE _

/-- Looking at an entry makes no other steps, whatever comes of it. -/
theorem within_examine (h : Regarded E W m target p) : Within E W (examine m target p.1 p.2) := by
  have hname := h.noted.name.1
  refine h.contract.bind hE fun b hb => ?_
  cases b with
  | false =>
    exact hname.bind hE fun n _ => (h.shown hb).bind hE fun x _ =>
      (within_fail hE _).bind hE fun _ ⟨_,_,_,he⟩ => by simp at he
  | true =>
    refine h.has.bind hE fun b _ => ?_
    cases b with
    | false => exact hname.bind hE fun n _ => (within_fail hE _).bind hE fun _ ⟨_,_,_,he⟩ => by simp at he
    | true =>
      refine h.member.andThen hE fun v t u ht hv => ?_
      have hu := hE.lasts t u ht (h.member.ok ht hv)
      have hlater : ∀ z, E u z → W z := fun z hz => hE.lasts u z hu hz
      have hafter := hE.after hu
      have hnoted := h.noted.mono hlater
      have hviewed := h.viewed t v u ht hv
      refine Within.get fun z hz => ?_
      cases hcallable : z.isCallable v with
      | true =>
        exact (h.signature.mono hlater).bind hafter fun b hb =>
          within_judge hafter hnoted hviewed (.asked hz hcallable hb)
      | false => exact within_judge (b := false) hafter hnoted hviewed (.data hz hcallable)

end entry

/-- One more entry of a map is looked at. -/
theorem pending_next {noted : List (Value × Value)} {n : Nat} {c c' : Cursor} {x : Given} {t u v : Store}
    (hx : c.next m t = .ok (some (x,c')) u) (hp : fieldParts m x u = .ok p v) :
    pending m target noted (n + 1) c t
      = (examine m target p.1 p.2 >>= fun b => pending m target (if b then noted ++ [p] else noted) n c') v := by
  simp only [pending]
  rw [bind_ok hx]
  exact bind_ok hp

theorem within_pending {map : List (Value × Value)} {c : Cursor} {n : Nat} (hE : Steps W E)
    (hmap : ∀ p ∈ map, Regarded E W m target p) (noted : List (Value × Value)) (hc : c.Yields W m map)
    (hn : map.length < n) : Within E W (pending m target noted n c) := by
  induction map generalizing c n noted with
  | nil =>
    obtain ⟨n,rfl⟩ := Nat.exists_eq_add_one_of_ne_zero (Nat.ne_of_gt hn)
    refine ((Always.leaves (a := none) hc).within hE).bind hE fun o ho => ?_
    obtain rfl := Always.eq (a := none) hc ho
    exact within_pure hE _
  | cons p ps ih =>
    obtain ⟨n,rfl⟩ := Nat.exists_eq_add_one_of_ne_zero (Nat.ne_of_gt (Nat.zero_lt_of_lt hn))
    intro t ht
    obtain ⟨x,c',u,hu,hg,hparts,hc'⟩ := hc t ht
    have hWu := hE.lasting t u ht hg
    obtain ⟨v,hv,hg'⟩ := hparts u hWu
    have hgrown := hg.trans hg'
    have hrest : Within E W (examine m target p.1 p.2 >>= fun b =>
        pending m target (if b then noted ++ [p] else noted) n c') :=
      (within_examine hE (hmap p (by simp))).bind hE fun b _ =>
        ih (fun q hq => hmap q (by simp [hq])) _ hc' (Nat.lt_of_succ_lt_succ hn)
    have hafter : Act.after (pending m target noted (n + 1) c) t
        = Act.after (examine m target p.1 p.2 >>= fun b =>
          pending m target (if b then noted ++ [p] else noted) n c') v := by
      simp only [Act.after,pending_next hu hv]
    rw [hafter]
    have hWv := hE.lasting t v ht hgrown
    exact hE.trans t v _ ht (hE.grows t v ht hgrown) (hrest v hWv)

end Signature

namespace Wrapper
variable {W : Store → Prop} {m : Machine} {c : BuiltinClass} {f a : Value}

/-- What a wrapper takes over is read without changing anything. -/
structure Yielding (W : Store → Prop) (m : Machine) (f : Value) : Prop where
  titles : Leaves W (copiedTitles m f titles)
  table : Leaves W (takenTable m f)

theorem Yielding.mono {W' : Store → Prop} (h : Yielding W m f) (hW : ∀ t, W' t → W t) : Yielding W' m f :=
  ⟨h.titles.mono hW,h.table.mono hW⟩

theorem Tells.yielding (hW : Lasting W) (h : Tells W m f) : Yielding W m f := by
  refine ⟨AlwaysCalm.leaves fun t ht => ?_,h.table.leaves⟩
  exact calm_copiedTitles fun n hn u hu => h.titles n hn u (hW t u ht hu)

theorem leaves_make (hW : Lasting W) (h : Yielding W m f) (e : Fields Value) : Leaves W (make m c f a e) :=
  h.titles.bind hW fun _ _ => h.table.bind hW fun _ _ => fun t _ => Store.Keeps.alloc t _

end Wrapper
end CallContracts
