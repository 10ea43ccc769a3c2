import CallContracts.Proofs.Kind
/-! New wrappers.  Making one reads the titles and attributes of what it wraps and nothing else; whatever
it takes over, what it wraps and its advice are its own. -/
namespace CallContracts
open Act

namespace Store

/-- A wrapper of a builtin class around `proceed`. -/
structure Wraps (s : Store) (c : BuiltinClass) (w proceed advice : Value) : Prop where
  place : ∃ r o, w = .ref r ∧ s.get? r = some o ∧ o.cls = .builtin c ∧ o.body = .plain ∧ o.table = none
  proceed : s.attr? w "proceed" = some proceed
  advice : s.attr? w "advice" = some advice

namespace Wraps
variable {s t : Store} {c : BuiltinClass} {w p a : Value} {F : Frame}

theorem classOf (h : s.Wraps c w p a) : s.classOf w = .builtin c := by
  obtain ⟨r,o,rfl,ho,hc,-,-⟩ := h.place
  rw [classOf_of_get? ho,hc]

theorem body? (h : s.Wraps c w p a) : s.body? w = some .plain := by
  obtain ⟨r,o,rfl,ho,-,hb,-⟩ := h.place
  rw [body?_of_get? ho,hb]

theorem keep (h : s.Wraps c w p a) (ht : s.Keeps F t) (hF : s.Holds F w)
    (hp : ¬ F.frees "proceed") (ha : ¬ F.frees "advice") : t.Wraps c w p a := by
  obtain ⟨r,o,rfl,ho,hc,hb,hn⟩ := h.place
  obtain ⟨o',ho',hf⟩ := hF r rfl
  obtain rfl : o = o' := by simpa [ho] using ho'
  obtain ⟨q,hq,hk⟩ := ht.kept r o ho hf
  refine ⟨⟨r,q,rfl,hq,hk.cls.trans hc,hk.body.trans hb,hk.table.trans hn⟩,?_,?_⟩
  · rw [ht.attr? ho hf hn hp,h.proceed]
  · rw [ht.attr? ho hf hn ha,h.advice]

theorem grows (h : s.Wraps c w p a) (ht : s.Grows t) : t.Wraps c w p a := by
  refine h.keep ht ?_ (by decide) (by decide)
  obtain ⟨r,o,rfl,ho,-⟩ := h.place
  exact holds_ref ho trivial

end Wraps
end Store

theorem fieldOf_own {m : Machine} {s : Store} {v x : Value} {b : BuiltinClass} {n : String}
    (hc : s.classOf v = .builtin b) (hx : s.attr? v n = some x) : fieldOf m v n s = .ok x s := by
  simp [fieldOf,hc,hx]

namespace Fields
variable {α : Type} {f g : Fields α} {n k : String} {v w : α}

theorem putAll_nil (f : Fields α) : f.putAll [] = f := rfl

theorem putAll_single (f : Fields α) (n : String) (v : α) : f.putAll [(n,v)] = f.put n v := rfl

theorem get?_eq_none (h : ∀ p ∈ f, p.1 ≠ n) : f.get? n = none := by
  induction f with
  | nil => rfl
  | cons p r ih =>
    have hp : p.1 ≠ n := h p (by simp)
    simpa [get?,hp] using ih fun q hq => h q (by simp [hq])

/-- A field is there if one of the tables has it. -/
theorem isSome_putAll : ((f.putAll g).get? n).isSome = ((f.get? n).isSome || (g.get? n).isSome) := by
  induction g generalizing f with
  | nil => simp [putAll_nil]
  | cons p r ih =>
    have hs : f.putAll (p :: r) = (f.put p.1 p.2).putAll r := rfl
    rw [hs,ih]
    by_cases hp : p.1 = n
    · subst hp
      simp [get?]
    · simp [get?,hp,get?_put_ne _ _ (Ne.symm hp)]

end Fields

namespace Wrapper
variable {m : Machine} {s : Store} {f a : Value} {c : BuiltinClass}

/-- Reading what a wrapper takes over from a value fails for want of an attribute only. -/
structure Tells (W : Store → Prop) (m : Machine) (f : Value) : Prop where
  titles : ∀ n ∈ titles, AlwaysCalm W (optional (m.read f n))
  table : AlwaysCalm W (takenTable m f)

theorem Tells.mono {W W' : Store → Prop} (h : Tells W m f) (hW : ∀ t, W' t → W t) : Tells W' m f :=
  ⟨fun n hn t ht => h.titles n hn t (hW t ht),fun t ht => h.table t (hW t ht)⟩

theorem calm_copiedTitles {ns : List String}
    (h : ∀ n ∈ ns, ∀ t, s.Grows t → (optional (m.read f n)).Calm t) : (copiedTitles m f ns).Calm s := by
  induction ns generalizing s with
  | nil => exact (gives_pure _ s).calm
  | cons n ns ih =>
    refine Calm.bind (h n (by simp) s (Store.Keeps.refl _ s)) fun v t ht => ?_
    refine Calm.bind (ih fun k hk u hu => h k (by simp [hk]) u (ht.trans hu)) fun r u _ => ?_
    cases v with
    | none => exact (gives_pure _ u).calm
    | some v => exact (gives_pure _ u).calm

/-- The own attributes of a wrapper, whatever it takes over. -/
theorem own_proceed (taken : Fields Value) (p a : Value) :
    (ownFields taken p a).get? "proceed" = some p ∧ (ownFields taken p a).get? "advice" = some a := by
  simp [ownFields,Fields.get?_put]

/-- What is copied are titles. -/
theorem names_copiedTitles {ns : List String} {l : Fields Value} {t : Store}
    (h : copiedTitles m f ns s = .ok l t) : ∀ p ∈ l, p.1 ∈ ns := by
  induction ns generalizing s l t with
  | nil =>
    obtain ⟨rfl,-⟩ : [] = l ∧ s = t := by simpa [copiedTitles] using h
    simp
  | cons n ns ih =>
    rw [copiedTitles,bind_eq_ok] at h
    obtain ⟨v,u,-,h⟩ := h
    rw [bind_eq_ok] at h
    obtain ⟨r,w,hr,h⟩ := h
    have hmem := ih hr
    cases v with
    | none =>
      obtain ⟨rfl,-⟩ : r = l ∧ w = t := by simpa using h
      exact fun p hp => List.mem_cons_of_mem n (hmem p hp)
    | some v =>
      obtain ⟨rfl,-⟩ : (n,v) :: r = l ∧ w = t := by simpa using h
      intro p hp
      rcases List.mem_cons.mp hp with rfl | hp
      · exact List.mem_cons_self
      · exact List.mem_cons_of_mem n (hmem p hp)

/-- The attributes that a wrapper writes itself, or copies under their own names. -/
def ownNames : List String := titles ++ ["__wrapped__","proceed","advice","owner"]

/-- Whatever else was found, a new wrapper holds what it wraps and what it asks. -/
theorem wraps_of_make {e : Fields Value} {w : Value} {t : Store} (he : e = [] ∨ ∃ o, e = [("owner",o)])
    (h : make m c f a e s = .ok w t) : t.Wraps c w f a := by
  rw [make,bind_eq_ok] at h
  obtain ⟨copied,u,-,h⟩ := h
  rw [bind_eq_ok] at h
  obtain ⟨taken,v,-,h⟩ := h
  obtain ⟨rfl,rfl⟩ : Value.ref v.heap.size = w ∧ _ = t := by simpa using h
  have ho := Store.get?_alloc_self v
    { cls := .builtin c, body := .plain, attrs := some (Fields.putAll (ownFields (copied.putAll taken) f a) e) }
  obtain ⟨hproceed,hadvice⟩ := own_proceed (copied.putAll taken) f a
  refine ⟨⟨_,_,rfl,ho,rfl,rfl,rfl⟩,?_,?_⟩
  all_goals refine (Store.attr?_of_get? ho rfl).trans ?_
  · rcases he with rfl | ⟨o,rfl⟩
    · exact hproceed
    · exact (Fields.get?_put_ne _ _ (show "proceed" ≠ "owner" by decide)).trans hproceed
  · rcases he with rfl | ⟨o,rfl⟩
    · exact hadvice
    · exact (Fields.get?_put_ne _ _ (show "advice" ≠ "owner" by decide)).trans hadvice

/-- Of other attributes a new wrapper has those that it takes over. -/
theorem attr?_of_make {e : Fields Value} {w : Value} {t : Store} {n : String} (he : e = [] ∨ ∃ o, e = [("owner",o)])
    (hn : n ∉ ownNames) (h : make m c f a e s = .ok w t) : ∃ copied u taken v,
      copiedTitles m f titles s = .ok copied u ∧ takenTable m f u = .ok taken v ∧
        (t.attr? w n).isSome = (taken.get? n).isSome := by
  rw [make,bind_eq_ok] at h
  obtain ⟨copied,u,hcopied,h⟩ := h
  rw [bind_eq_ok] at h
  obtain ⟨taken,v,htaken,h⟩ := h
  obtain ⟨rfl,rfl⟩ : Value.ref v.heap.size = w ∧ _ = t := by simpa using h
  refine ⟨copied,u,taken,v,hcopied,htaken,?_⟩
  have ho := Store.get?_alloc_self v
    { cls := .builtin c, body := .plain, attrs := some (Fields.putAll (ownFields (copied.putAll taken) f a) e) }
  simp only [ownNames,List.mem_append,List.mem_cons,List.not_mem_nil,or_false,not_or] at hn
  obtain ⟨htitle,hwrapped,hproceed,hadvice,howner⟩ := hn
  have hnone : Fields.get? copied n = none :=
    Fields.get?_eq_none fun p hp hn => htitle (hn ▸ names_copiedTitles hcopied p hp)
  have htable : ((ownFields (copied.putAll taken) f a).get? n).isSome = (taken.get? n).isSome := by
    rw [ownFields,Fields.get?_put_ne _ _ hadvice,Fields.get?_put_ne _ _ hproceed,
      Fields.get?_put_ne _ _ hwrapped,Fields.isSome_putAll,hnone]
    simp
  refine (congrArg Option.isSome (Store.attr?_of_get? ho rfl)).trans (Eq.trans ?_ htable)
  rcases he with rfl | ⟨o,rfl⟩
  · rfl
  · exact congrArg Option.isSome (Fields.get?_put_ne _ _ howner)

/-- A new wrapper is an object of its own. -/
theorem quiet_make {W : Store → Prop} {e : Fields Value} (hW : ∀ t, s.Grows t → W t)
    (hf : Tells W m f) (he : e = [] ∨ ∃ o, e = [("owner",o)]) :
    (make m c f a e).Quiet
      (fun w t => t.Wraps c w f a ∧ (∃ r, w = .ref r ∧ s.heap.size ≤ r) ∧
        (∀ o, e = [("owner",o)] → t.attr? w "owner" = some o) ∧
        ∀ n ∉ ownNames, ∀ b, (∀ u x v, s.Grows u → takenTable m f u = .ok x v → (x.get? n).isSome = b) →
          (t.attr? w n).isSome = b) s := by
  obtain ⟨copied,t,ht,hst,-⟩ := Calm.quiet (calm_copiedTitles fun n hn t ht => hf.titles n hn t (hW t ht))
  obtain ⟨taken,u,hu,htu,-⟩ := Calm.quiet (hf.table t (hW t hst))
  let fields := Fields.putAll (ownFields (copied.putAll taken) f a) e
  obtain ⟨_,z,hz,huz,rfl,ho⟩ := quiet_alloc { cls := .builtin c, body := .plain, attrs := some fields } u
  have hs : s.heap.size ≤ u.heap.size := Nat.le_trans hst.size htu.size
  have hmade : make m c f a e s = .ok (.ref u.heap.size) z := by
    rw [make,bind_ok ht]
    exact (bind_ok hu).trans hz
  refine ⟨_,z,hmade,(hst.trans htu).trans huz,wraps_of_make he hmade,⟨_,rfl,hs⟩,?_,?_⟩
  · rintro o rfl
    rw [Store.attr?_of_get? ho rfl]
    change Fields.get? (Fields.putAll _ _) "owner" = _
    rw [Fields.putAll_single,Fields.get?_put_self]
  · intro n hn b htaken
    obtain ⟨copied',t',taken',u',ht',hu',hattr⟩ := attr?_of_make he hn hmade
    obtain ⟨-,rfl⟩ : copied = copied' ∧ t = t' := by simpa [ht] using ht'
    rw [hattr]
    exact htaken t taken' u' hst hu'

/-- How a class member is wrapped that is neither a static nor a class method, and written back. -/
def wrapRaw (m : Machine) (target raw : Value) (n : String) (advice : Value) : Act Value := do
  let isClass ← isKind m raw .classWrapper
  if isClass then ofClass m raw advice >>= fun w => do
    m.write target n w
    return w
  else do
    let later ← bindsLater m raw
    if later then around m raw advice >>= fun w => do
      m.write target n w
      return w
    else do
      let v ← m.read target n
      around m v advice >>= fun w => do
        m.write target n w
        return w

theorem wrapMember_raw {d : ClassId} {n : String} {x : Value} (hx : storedMember s d n = some x)
    (hbody : ∀ f, s.body? x ≠ some (.staticMethod f) ∧ s.body? x ≠ some (.classMethod f)) (target : Value) :
    wrapMember m target d n a s = wrapRaw m target x n a s := by
  have hraw : ofOption .attributeError (some x) s = .ok x s := rfl
  rw [wrapMember,get_bind_apply,hx,bind_ok hraw,get_bind_apply]
  cases hb : s.body? x with
  | none => rfl
  | some body =>
    cases body with
    | staticMethod f => exact absurd hb (hbody f).1
    | classMethod f => exact absurd hb (hbody f).2
    | _ => rfl

end Wrapper
end CallContracts
