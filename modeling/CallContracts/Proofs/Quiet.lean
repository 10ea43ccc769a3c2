import Mathlib.Data.List.Forall2
import CallContracts.Proofs.Growth
/-! Quiet computations: they end well and leave the store as it was, but for growth.  What is asked of a
value while it is only looked at is answered by such a computation. -/
namespace CallContracts
namespace Act
variable {α β : Type} {x : Act α} {f : α → Act β} {s t : Store} {a : α} {b : β}

/-- Ends well with a result, having only looked at things. -/
def Quiet (x : Act α) (P : α → Store → Prop) (s : Store) : Prop :=
  ∃ a t, x s = .ok a t ∧ s.Grows t ∧ P a t

/-- Quietly ends with this very result. -/
def Gives (x : Act α) (a : α) (s : Store) : Prop := ∃ t, x s = .ok a t ∧ s.Grows t

/-- Quietly ends with some result. -/
def Calm (x : Act α) (s : Store) : Prop := ∃ a, x.Gives a s

/-- Gives the same result in every store of a kind. -/
def Always (W : Store → Prop) (x : Act α) (a : α) : Prop := ∀ t, W t → x.Gives a t

/-- Is calm in every store of a kind. -/
def AlwaysCalm (W : Store → Prop) (x : Act α) : Prop := ∀ t, W t → x.Calm t

theorem gives_of_eq (h : x s = .ok a s) : x.Gives a s := ⟨s,h,Store.Keeps.refl _ s⟩

theorem gives_pure (a : α) (s : Store) : (pure a : Act α).Gives a s := gives_of_eq rfl

theorem Gives.bind (hx : x.Gives a s) (hf : ∀ t, s.Grows t → (f a).Gives b t) : (x >>= f).Gives b s := by
  obtain ⟨t,ht,hs⟩ := hx
  obtain ⟨u,hu,hs'⟩ := hf t hs
  exact ⟨u,by rw [bind_ok ht,hu],hs.trans hs'⟩

theorem Gives.map (g : α → β) (hx : x.Gives a s) : (g <$> x).Gives (g a) s := by
  obtain ⟨t,ht,hs⟩ := hx
  exact ⟨t,map_ok ht,hs⟩

theorem Gives.calm (hx : x.Gives a s) : x.Calm s := ⟨a,hx⟩

theorem Gives.quiet (hx : x.Gives a s) : x.Quiet (fun b _ => b = a) s := by
  obtain ⟨t,ht,hs⟩ := hx
  exact ⟨a,t,ht,hs,rfl⟩

theorem Calm.bind (hx : x.Calm s) (hf : ∀ a t, s.Grows t → (f a).Calm t) : (x >>= f).Calm s := by
  obtain ⟨a,t,ht,hs⟩ := hx
  obtain ⟨b,u,hu,hs'⟩ := hf a t hs
  exact ⟨b,u,by rw [bind_ok ht,hu],hs.trans hs'⟩

theorem Gives.bindCalm (hx : x.Gives a s) (hf : ∀ t, s.Grows t → (f a).Calm t) : (x >>= f).Calm s := by
  obtain ⟨t,ht,hs⟩ := hx
  obtain ⟨b,u,hu,hs'⟩ := hf t hs
  exact ⟨b,u,by rw [bind_ok ht,hu],hs.trans hs'⟩

theorem Calm.quiet (hx : x.Calm s) : x.Quiet (fun _ _ => True) s := by
  obtain ⟨a,t,ht,hs⟩ := hx
  exact ⟨a,t,ht,hs,trivial⟩

variable {P : α → Store → Prop} {Q : β → Store → Prop}

theorem Quiet.bind (hx : x.Quiet P s) (hf : ∀ a t, s.Grows t → P a t → (f a).Quiet Q t) :
    (x >>= f).Quiet Q s := by
  obtain ⟨a,t,ht,hs,hP⟩ := hx
  obtain ⟨b,u,hu,hs',hQ⟩ := hf a t hs hP
  exact ⟨b,u,by rw [bind_ok ht,hu],hs.trans hs',hQ⟩

theorem Gives.bindQuiet (hx : x.Gives a s) (hf : ∀ t, s.Grows t → (f a).Quiet Q t) :
    (x >>= f).Quiet Q s := by
  obtain ⟨t,ht,hs⟩ := hx
  obtain ⟨b,u,hu,hs',hQ⟩ := hf t hs
  exact ⟨b,u,by rw [bind_ok ht,hu],hs.trans hs',hQ⟩

theorem Quiet.imp {R : α → Store → Prop} (hx : x.Quiet P s) (h : ∀ a t, s.Grows t → P a t → R a t) :
    x.Quiet R s := by
  obtain ⟨a,t,ht,hs,hP⟩ := hx
  exact ⟨a,t,ht,hs,h a t hs hP⟩

theorem quiet_pure (h : P a s) : (pure a : Act α).Quiet P s := ⟨a,s,rfl,Store.Keeps.refl _ s,h⟩

/-- A new object is where no object was. -/
theorem quiet_alloc (o : Obj) (s : Store) :
    (alloc o).Quiet (fun v t => v = .ref s.heap.size ∧ t.get? s.heap.size = some o) s :=
  ⟨_,_,rfl,Store.Keeps.alloc s o,rfl,Store.get?_alloc_self s o⟩

theorem calm_logMessage (t : String) (s : Store) : (logMessage t).Calm s :=
  ⟨(),_,rfl,Store.Keeps.logged s (s.log ++ [t])⟩

theorem Quiet.get {f : Store → Act β} (h : (f s).Quiet Q s) : (MonadState.get >>= f).Quiet Q s := by
  obtain ⟨b,t,ht,hs⟩ := h
  exact ⟨b,t,by rw [get_bind_apply,ht],hs⟩

theorem optional_ok (hx : x s = .ok a t) : optional x s = .ok (some a) t := by
  simp only [optional,orElseMissing,orElseOn]
  rw [map_ok hx]

theorem gives_optional (hx : x.Gives a s) : (optional x).Gives (some a) s := by
  obtain ⟨t,ht,hs⟩ := hx
  exact ⟨t,optional_ok ht,hs⟩

/-- What fails for want of an attribute alone is optional. -/
theorem calm_optional {q : Fault} (hx : x s = .error (.raised q) t) (hs : s.Grows t)
    (hq : .attributeError ∈ q.cls.line) : (optional x).Calm s := by
  refine ⟨none,t,?_,hs⟩
  simp only [optional,orElseMissing,orElseOn]
  rw [map_error hx]
  simp [hq]

/-- One after the other, each with its own result. -/
theorem gives_each {l : List α} {k : List β}
    (h : List.Forall₂ (fun x y => ∀ t, s.Grows t → (f x).Gives y t) l k) :
    (each f l).Gives k s := by
  induction l generalizing s k with
  | nil =>
    cases h
    exact gives_pure _ s
  | cons x xs ih =>
    cases h with
    | cons hx hxs =>
      refine Gives.bind (hx s (Store.Keeps.refl _ s)) fun t ht => ?_
      refine Gives.bind (ih ?_) fun u _ => gives_pure _ u
      exact hxs.imp fun _ _ hy u hu => hy u (ht.trans hu)

end Act

theorem exists_forall₂ {α β : Type} {R : α → β → Prop} {xs : List α} (h : ∀ x ∈ xs, ∃ y, R x y) :
    ∃ ys, List.Forall₂ R xs ys := by
  induction xs with
  | nil => exact ⟨[],List.Forall₂.nil⟩
  | cons x xs ih =>
    obtain ⟨y,hy⟩ := h x (by simp)
    obtain ⟨ys,hys⟩ := ih fun z hz => h z (by simp [hz])
    exact ⟨y :: ys,List.Forall₂.cons hy hys⟩

theorem exists_of_mem_right {α β : Type} {R : α → β → Prop} {xs : List α} {ys : List β} {y : β}
    (h : List.Forall₂ R xs ys) (hy : y ∈ ys) : ∃ x ∈ xs, R x y := by
  induction h with
  | nil => cases hy
  | cons hR _ ih =>
    rcases List.mem_cons.mp hy with rfl | hy
    · exact ⟨_,by simp,hR⟩
    · obtain ⟨x,hx,hR⟩ := ih hy
      exact ⟨x,by simp [hx],hR⟩

end CallContracts
