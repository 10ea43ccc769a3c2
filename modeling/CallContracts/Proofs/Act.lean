import CallContracts.Machine
/-! Computations on the store, opened one step at a time: what a step does to a given store is the result
of its first part, handed on to the rest. -/
namespace CallContracts
namespace Act
variable {α β : Type} {x : Act α} {f : α → Act β} {s t : Store} {a : α} {e : Stop}

theorem bind_apply (x : Act α) (f : α → Act β) (s : Store) :
    (x >>= f) s = match x s with
      | .ok a t => f a t
      | .error e t => .error e t := by
  change EStateM.bind x f s = _
  unfold EStateM.bind
  cases x s <;> rfl

@[simp] theorem pure_apply (a : α) (s : Store) : (pure a : Act α) s = .ok a s := rfl
@[simp] theorem get_apply (s : Store) : (get : Act Store) s = .ok s s := rfl
@[simp] theorem modify_apply (g : Store → Store) (s : Store) :
    (modify g : Act Unit) s = .ok () (g s) := rfl
@[simp] theorem throw_apply (e : Stop) (s : Store) : (throw e : Act α) s = .error e s := rfl
@[simp] theorem fail_apply (q : Fault) (s : Store) : (fail q : Act α) s = .error (.raised q) s := rfl
@[simp] theorem refuse_apply (c : BuiltinClass) (s : Store) :
    (refuse c : Act α) s = .error (.raised (.refused c)) s := rfl
@[simp] theorem alloc_apply (o : Obj) (s : Store) :
    alloc o s = .ok (.ref s.heap.size) (s.alloc o).2 := rfl
@[simp] theorem ofOption_some (q : Fault) (a : α) (s : Store) : ofOption q (some a) s = .ok a s := rfl
@[simp] theorem ofOption_none (q : Fault) (s : Store) :
    (ofOption q none : Act α) s = .error (.raised q) s := rfl

theorem bind_ok (h : x s = .ok a t) : (x >>= f) s = f a t := by rw [bind_apply,h]
theorem bind_error (h : x s = .error e t) : (x >>= f) s = .error e t := by rw [bind_apply,h]

@[simp] theorem pure_bind_apply (a : α) (f : α → Act β) (s : Store) : ((pure a : Act α) >>= f) s = f a s :=
  bind_ok rfl
@[simp] theorem get_bind_apply (f : Store → Act β) (s : Store) : ((get : Act Store) >>= f) s = f s s :=
  bind_ok rfl

theorem map_apply (g : α → β) (x : Act α) (s : Store) :
    (g <$> x) s = match x s with
      | .ok a t => .ok (g a) t
      | .error e t => .error e t := by
  change EStateM.map g x s = _
  unfold EStateM.map
  cases x s <;> rfl

theorem map_ok {g : α → β} (h : x s = .ok a t) : (g <$> x) s = .ok (g a) t := by rw [map_apply,h]
theorem map_error {g : α → β} (h : x s = .error e t) : (g <$> x) s = .error e t := by rw [map_apply,h]

/-- A computation that ends well went well in its first part, and then in the rest. -/
theorem bind_eq_ok {b : β} : (x >>= f) s = .ok b t ↔ ∃ a u, x s = .ok a u ∧ f a u = .ok b t := by
  rw [bind_apply]
  constructor
  · intro h
    cases hx : x s with
    | ok a u => exact ⟨a,u,rfl,by simpa [hx] using h⟩
    | error e u => simp [hx] at h
  · rintro ⟨a,u,hx,h⟩
    simpa [hx] using h

theorem bind_eq_error :
    (x >>= f) s = .error e t ↔ x s = .error e t ∨ ∃ a u, x s = .ok a u ∧ f a u = .error e t := by
  rw [bind_apply]
  constructor
  · intro h
    cases hx : x s with
    | ok a u => exact Or.inr ⟨a,u,rfl,by simpa [hx] using h⟩
    | error e u => exact Or.inl (by simpa [hx] using h)
  · rintro (hx | ⟨a,u,hx,h⟩)
    · simp [hx]
    · simpa [hx] using h

theorem bind_congr_of {g : α → Act β} (h : ∀ a u, x s = .ok a u → f a u = g a u) : (x >>= f) s = (x >>= g) s := by
  rw [bind_apply,bind_apply]
  cases hx : x s with
  | ok a u => exact h a u hx
  | error e u => rfl

theorem bind_congr_left {y : Act α} (h : x s = y s) : (x >>= f) s = (y >>= f) s := by
  rw [bind_apply,bind_apply,h]

/-- The store that a computation leaves behind, whether it ends well or not. -/
def after (x : Act α) (s : Store) : Store :=
  match x s with
  | .ok _ t => t
  | .error _ t => t

theorem after_ok (h : x s = .ok a t) : after x s = t := by simp [after,h]
theorem after_error (h : x s = .error e t) : after x s = t := by simp [after,h]

/-- What a computation gives in the end, if it goes well. -/
def returned (x : Act α) (s : Store) : Option α :=
  match x s with
  | .ok a _ => some a
  | .error _ _ => none

/-- Whether a computation ends in a fault. -/
def raises (x : Act α) (s : Store) : Bool :=
  match x s with
  | .error (.raised _) _ => true
  | _ => false

end Act
end CallContracts
