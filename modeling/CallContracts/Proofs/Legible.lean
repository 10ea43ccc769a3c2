import CallContracts.Proofs.Inert
import CallContracts.Proofs.Host
/-! Legible values.  A wrapper takes over the titles and attributes of what it wraps; reading them from what the
language and the library make changes nothing that was there, on whatever level it is done. -/
namespace CallContracts
open Act

/-- Whether a member gives an instance a value that is computed or stored, and no function of the host. -/
def Operation.computes : Operation → Bool
  | .member _ _ sort => sort = .property || sort = .storage || sort = .getter
  | .placeOf .. => true
  | _ => false

namespace Act
variable {α : Type}

/-- What may be missing is asked for. -/
theorem after_optional (x : Act α) (s : Store) : after (optional x) s = after x s := by
  cases h : x s with
  | ok a t => simp [after,optional,orElseMissing,orElseOn,map_apply,h]
  | error e t =>
    cases e with
    | raised q =>
      simp only [after,optional,orElseMissing,orElseOn,map_apply,h]
      by_cases hq : BuiltinClass.attributeError ∈ q.cls.line <;> simp [hq]
    | exhausted =>
      simp only [after,optional,orElseMissing,orElseOn,map_apply,h]
      rfl

end Act

namespace Store

theorem body_of_classInfo? {s : Store} {q : Ref} {info : ClassInfo} (h : s.classInfo? q = some info) :
    s.body? (.ref q) = some (.cls info) := by
  rw [classInfo?_eq] at h
  split at h
  · rename_i heq
    obtain rfl := Option.some.inj h
    exact heq
  · cases h

/-- What a wrapper takes over from a value is read without changing anything, on whatever level. -/
structure Legible (s : Store) (x : Value) : Prop where
  titles : ∀ j, ∀ n ∈ Wrapper.titles, Leaves (s.Grows ·) ((Machine.ofLevel j).read x n)
  shows : ∀ t, s.Grows t → t.hidesTable x = false

end Store

namespace Wrapper
variable {M m : Machine} {s t : Store} {x y f i w p a owner : Value} {b c : BuiltinClass} {n : String} {o : Operation}
  {q : Ref}

theorem hidesTable_builtin (hx : s.classOf x = .builtin b) : s.hidesTable x = false := by
  simp [Store.hidesTable,hx]

theorem takenTable_shown (h : s.hidesTable x = false) : takenTable m x s = .ok (s.tableOf x) s := by
  simp [takenTable,h,map_apply]

theorem leaves_copiedTitles {ns : List String} (h : ∀ n ∈ ns, Leaves (s.Grows ·) (m.read x n)) :
    Leaves (s.Grows ·) (copiedTitles m x ns) := by
  have hlast : Lasting (s.Grows ·) := fun _ _ ht hu => ht.trans hu
  induction ns with
  | nil => exact leaves_pure _
  | cons n ns ih =>
    have hn : Leaves (s.Grows ·) (optional (m.read x n)) := fun t ht => by
      rw [after_optional]
      exact h n (by simp) t ht
    refine hn.bind hlast fun v _ => (ih fun k hk => h k (by simp [hk])).bind hlast fun r _ => ?_
    cases v <;> exact leaves_pure _

theorem yields_legible (h : s.Legible x) (j : Nat) : Yielding (s.Grows ·) (Machine.ofLevel j) x :=
  ⟨leaves_copiedTitles (h.titles j),fun t ht => by
    rw [after_ok (takenTable_shown (h.shows t ht))]
    exact Store.Keeps.refl _ t⟩

/-- A machine that has no levels left reads nothing. -/
theorem legible_of_next (hc : ∀ t, s.Grows t → t.classOf x = .builtin b)
    (h : ∀ M : Machine, ∀ t, s.Grows t → ∀ n ∈ titles, t.Grows (after (M.next.read x n) t)) : s.Legible x := by
  refine ⟨fun j n hn t ht => ?_,fun t ht => hidesTable_builtin (hc t ht)⟩
  cases j with
  | zero => exact Store.Keeps.refl _ t
  | succ j => exact h _ t ht n hn

theorem legible_of_calm (hc : ∀ t, s.Grows t → t.classOf x = .builtin b)
    (h : ∀ M : Machine, ∀ t, s.Grows t → ∀ n ∈ titles, (optional (M.next.read x n)).Calm t) : s.Legible x := by
  refine legible_of_next hc fun M t ht n hn => ?_
  obtain ⟨y,u,hu,hg⟩ := h M t ht n hn
  rwa [← after_optional,after_ok hu]

theorem legible_function {g : Function} (hf : s.IsFunction f g) : s.Legible f :=
  legible_of_calm (fun _ ht => (hf.grows ht).cls) fun _ _ ht _ hn => calm_title (hf.grows ht) hn

theorem legible_wrapper (hb : b ∈ wrapperClasses) (hw : s.Wraps b w p a) : s.Legible w :=
  legible_of_calm (fun _ ht => (hw.grows ht).classOf) fun _ _ ht _ hn => calm_readWrapper hb (hw.grows ht) hn

/-- A static or class method. -/
theorem legible_held (hx : s.IsStatic x y ∨ s.IsClassMethod x y) : s.Legible x := by
  have read {t : Store} {b : BuiltinClass} {n : String} {body : Body} (hb : b ∈ [.staticMethod,.classMethod]) (hc : t.classOf x = .builtin b)
      (hx : t.body? x = some body) (hbody : (∀ info, body ≠ .cls info) ∧ ∀ f i, body ≠ .bound f i) (M : Machine)
      (hn : n ∈ titles) : (optional (M.next.read x n)).Calm t := by
    obtain ⟨r,rfl⟩ := Store.ref_of_body hx
    simp only [titles,List.mem_cons,List.not_mem_nil,or_false] at hb hn
    refine calm_readPlain hc hx hbody ?_ ?_
    · rcases hb with rfl | rfl <;> decide
    · rcases hb with rfl | rfl <;> rcases hn with rfl | rfl | rfl | rfl | rfl <;> decide
  rcases hx with hx | hx
  · have hxt {t : Store} (ht : s.Grows t) := hx.keep (Store.Keeps.of_grows ht)
    exact legible_of_calm (fun t ht => (hxt ht).cls)
      fun M t ht n hn => read (by simp) (hxt ht).cls (hxt ht).body (by simp) M hn
  · have hxt {t : Store} (ht : s.Grows t) := hx.keep (Store.Keeps.of_grows ht)
    exact legible_of_calm (fun t ht => (hxt ht).cls)
      fun M t ht n hn => read (by simp) (hxt ht).cls (hxt ht).body (by simp) M hn

/-- A bound method answers for what it binds. -/
theorem legible_method (hx : s.IsMethod x f i) (hf : s.Legible f) : s.Legible x := by
  have hxt {t : Store} (ht : s.Grows t) := hx.keep (Store.Keeps.of_grows ht)
  refine ⟨fun j n hn t ht => ?_,fun t ht => hidesTable_builtin (hxt ht).cls⟩
  cases j with
  | zero => exact Store.Keeps.refl _ t
  | succ j =>
    rcases read_bound (M := Machine.ofLevel j) (hxt ht) hn with ⟨y,hy⟩ | hforward
    · rw [Machine.ofLevel_succ,after_ok hy]
      exact Store.Keeps.refl _ t
    · have hafter : after ((Machine.ofLevel (j+1)).read x n) t = after ((Machine.ofLevel j).read f n) t := by
        simp only [Machine.ofLevel_succ,after,hforward]
      rw [hafter]
      exact hf.titles j n hn t ht

/-- Classes of functions of the host. -/
def hostClasses : List BuiltinClass :=
  [.function,.builtinFunction,.method,.methodDescriptor,.classMethodDescriptor,.slotWrapper,.methodWrapper]

/-- What they say about their titles is computed. -/
theorem title_hostClass (hb : b ∈ hostClasses) (hn : n ∈ titles) :
    b.line.findSome? (·.ownMember? n) = none ∨ ∃ sort, (sort = .storage ∨ sort = .getter) ∧
      b.line.findSome? (·.ownMember? n) = some (.operation (.member b n sort)) ∧
      (n = "__annotations__" → b = .function) := by
  simp only [hostClasses,titles,List.mem_cons,List.not_mem_nil,or_false] at hb hn
  rcases hb with rfl | rfl | rfl | rfl | rfl | rfl | rfl <;> rcases hn with rfl | rfl | rfl | rfl | rfl <;>
    first
    | exact Or.inl rfl
    | exact Or.inr ⟨.storage,Or.inl rfl,rfl,by decide⟩
    | exact Or.inr ⟨.getter,Or.inr rfl,rfl,by decide⟩

/-- But for annotations, which functions of the program keep, nothing is made when titles are computed. -/
theorem functionPart_title (hn : n ∈ titles) (ha : n ≠ "__annotations__") : ∃ v, functionPart x n s = .ok v s := by
  simp only [functionPart,get_bind_apply]
  simp only [titles,List.mem_cons,List.not_mem_nil,or_false,ha] at hn
  cases s.function? x with
  | some f => rcases hn with rfl | rfl | rfl | rfl <;> exact ⟨_,rfl⟩
  | none =>
    cases s.operation? x with
    | none => rcases hn with rfl | rfl | rfl | rfl <;> exact ⟨_,rfl⟩
    | some o =>
      rcases hn with rfl | rfl | rfl | rfl
      · cases s.body? x with
        | none => exact ⟨_,rfl⟩
        | some body => cases body <;> exact ⟨_,rfl⟩
      all_goals exact ⟨_,rfl⟩

theorem after_computedTitle (hb : b ∈ hostClasses) (hn : n ∈ titles)
    (hx : n = "__annotations__" → b = .function ∧ ∃ o, x = .operation o) : s.Grows (after (computed m x b n) s) := by
  have hne : n ≠ "__class__" ∧ n ≠ "__dict__" ∧ n ≠ "__weakref__" := by
    simp only [titles,List.mem_cons,List.not_mem_nil,or_false] at hn
    rcases hn with rfl | rfl | rfl | rfl | rfl <;> decide
  by_cases ha : n = "__annotations__"
  · obtain ⟨rfl,o,rfl⟩ := hx ha
    subst ha
    have hcomputed : computed m (.operation o) .function "__annotations__" s = newTable [] s := by
      simp [computed,functionPart,annotationsOf,Store.slot?,Store.obj?,Store.function?]
    simp only [after,hcomputed]
    exact Store.Keeps.alloc s _
  · have hcomputed : ∃ v, computed m x b n s = .ok v s := by
      obtain ⟨v,hv⟩ := functionPart_title (x := x) (s := s) hn ha
      simp only [hostClasses,List.mem_cons,List.not_mem_nil,or_false] at hb
      rcases hb with rfl | rfl | rfl | rfl | rfl | rfl | rfl
      case inr.inr.inl =>
        -- a method tells what its function does
        simp only [titles,List.mem_cons,List.not_mem_nil,or_false] at hn
        refine ⟨s.functionDoc x,?_⟩
        simp only [computed,get_bind_apply,hne,if_false]
        rcases hn with rfl | rfl | rfl | rfl | rfl <;> cases s.body? x with
        | none => rfl
        | some body => cases body <;> rfl
      all_goals exact ⟨v,by simpa [computed,hne] using hv⟩
    obtain ⟨v,hv⟩ := hcomputed
    rw [after_ok hv]
    exact Store.Keeps.refl _ s

/-- Functions of the host tell their titles, methods apart that tell those of what they bind. -/
theorem after_readTitle (hb : b ∈ hostClasses) (hc : s.classOf x = .builtin b) (hclass : s.class? x = none)
    (hbound : b = .method → ∀ f i, s.body? x ≠ some (.bound f i)) (hx : b = .function → ∃ o, x = .operation o)
    (hn : n ∈ titles) : s.Grows (after (M.next.read x n) s) := by
  have hmodule : .module ∉ b.line := by
    simp only [hostClasses,List.mem_cons,List.not_mem_nil,or_false] at hb
    rcases hb with rfl | rfl | rfl | rfl | rfl | rfl | rfl <;> decide
  have hread : M.next.read x n s = readOfInstance M x n s := read_next_builtin hc hclass hmodule
  simp only [after,hread]
  change s.Grows (after (readOfInstance M x n) s)
  rcases title_hostClass hb hn with hm | ⟨sort,hsort,hm,ha⟩
  · have hself : after (readOfInstance M x n) s = s := by
      simp only [after,readOfInstance,get_bind_apply,hc,Store.classMember?_builtin,hm]
      cases s.attr? x n with
      | some y => rfl
      | none =>
        cases hbody : s.body? x with
        | none => rfl
        | some body =>
          cases body with
          | bound f i =>
            have hne : b ≠ .method := fun h => hbound h f i hbody
            simp [hne]
          | _ => rfl
    rw [hself]
    exact Store.Keeps.refl _ s
  · have hdata : s.isDataMember (.operation (.member b n sort)) = true := by
      rcases hsort with rfl | rfl <;> rfl
    have hA : s.isA x b = true := by
      rw [Store.isA_builtin hc]
      simp [BuiltinClass.self_mem_line]
    have hcomputed : readOfInstance M x n s = computed M x b n s := by
      rcases hsort with rfl | rfl <;>
        simp [readOfInstance,hc,Store.classMember?_builtin,hm,hdata,bindTo,bindOperation,hA]
    simp only [after,hcomputed]
    exact after_computedTitle hb hn fun h => ⟨ha h,hx (ha h)⟩

theorem ownClass_mem (ho : o.computes = false) : o.ownClass ∈ hostClasses := by
  cases o with
  | member c n sort => cases sort <;> simp_all [Operation.ownClass,Operation.computes,hostClasses]
  | placeOf q n sort => cases ho
  | _ => decide

/-- Functions of the host, not bound to an instance. -/
theorem legible_operation (ho : o.computes = false) : s.Legible (.operation o) :=
  legible_of_next (b := o.ownClass) (fun t _ => rfl) fun M t _ n hn =>
    after_readTitle (ownClass_mem ho) rfl rfl (fun _ f i h => by cases h) (fun _ => ⟨o,rfl⟩) hn

/-- A function of the host that is bound. -/
theorem legible_hostBound (hb : b ∈ [.builtinFunction,.methodWrapper])
    (hx : ∀ t, s.Grows t → t.classOf x = .builtin b ∧ t.body? x = some (.bound f i)) : s.Legible x := by
  have hne : b ≠ .method ∧ b ≠ .function ∧ b ∈ hostClasses := by
    simp only [List.mem_cons,List.not_mem_nil,or_false] at hb
    rcases hb with rfl | rfl <;> decide
  refine legible_of_next (fun t ht => (hx t ht).1) fun M t ht n hn => ?_
  obtain ⟨r,rfl⟩ := Store.ref_of_body (hx t ht).2
  exact after_readTitle hne.2.2 (hx t ht).1 (Store.class?_of_body (hx t ht).2 (by simp)) (fun h => absurd h hne.1)
    (fun h => absurd h hne.2.1) hn

/-- What is no object is bound to no instance without being asked. -/
theorem after_bindStatic (hx : ∀ q, x ≠ .ref q) : s.Grows (after (bindMember m x .absent owner) s) := by
  have hself := Store.Keeps.refl .all s
  cases x with
  | operation o =>
    cases o with
    | member c n sort =>
      cases sort with
      | ofClass => exact Store.Keeps.alloc s _
      | _ => exact hself
    | _ => exact hself
  | ref q => exact absurd rfl (hx q)
  | _ => exact hself

/-- The annotations of a class come into being when they are first asked for. -/
theorem after_classAnnotations {info : ClassInfo} (hq : s.classInfo? q = some info) :
    s.Grows (after (classAnnotations q) s) := by
  cases ha : (s.classAttrs q).get? "__annotations__" with
  | some y =>
    have hself : after (classAnnotations q) s = s := by simp [after,classAnnotations,ha]
    rw [hself]
    exact Store.Keeps.refl _ s
  | none =>
    let t := s.alloc { cls := .builtin .dict, body := .table [] }
    have hmade : after (classAnnotations q) s
        = t.2.update q fun o => { o with attrs := o.attrs.map (·.put "__annotations__" (.ref t.1)) } := by
      simp [after,classAnnotations,ha,newTable,bind_apply,map_apply,update,t]
    have hgrows : s.Grows t.2 := Store.Keeps.alloc s _
    rw [hmade]
    refine hgrows.trans (Store.Keeps.update fun o ho _ => ?_)
    have hbody : o.body = .cls info := by
      have hb := Store.body_of_classInfo? hq
      have hkept := hgrows.body? (Store.holds_all_of_body hb)
      rw [Store.body?_of_get? ho,hb] at hkept
      exact Option.some.inj hkept
    refine ⟨rfl,rfl,rfl,?_,rfl,fun hn => by rw [hbody] at hn; cases hn⟩
    cases o.attrs with
    | none => rfl
    | some f => simp [Frame.lasting_put f (.ref t.1) (Or.inl rfl)]

/-- What a class tells about itself first, if its documentation is no object. -/
theorem after_readTitleOfClass {c : ClassId} (hdoc : ∀ q, s.heldBy "__doc__" c ≠ some (.ref q))
    (hinfo : ∀ q, c = .defined q → ∃ info, s.classInfo? q = some info) (hn : n ∈ titles) :
    s.Grows (after (readTitle M c n) s) ∧ ∀ o u, readTitle M c n s = .ok o u → o.isSome := by
  simp only [titles,List.mem_cons,List.not_mem_nil,or_false] at hn
  have found {x : Act Value} (h : readTitle M c n s = (some <$> x) s) (hx : s.Grows (after x s)) :
      s.Grows (after (readTitle M c n) s) ∧ ∀ o u, readTitle M c n s = .ok o u → o.isSome := by
    cases hxs : x s with
    | ok y t =>
      have hok : readTitle M c n s = .ok (some y) t := by rw [h,map_apply,hxs]
      rw [after_ok hxs] at hx
      refine ⟨by rwa [after_ok hok],fun o u ho => ?_⟩
      obtain ⟨rfl,-⟩ : some y = o ∧ t = u := by simpa [hok] using ho
      rfl
    | error e t =>
      have hfail : readTitle M c n s = .error e t := by rw [h,map_apply,hxs]
      rw [after_error hxs] at hx
      exact ⟨by rwa [after_error hfail],fun o u ho => by simp [hfail] at ho⟩
  rcases hn with rfl | rfl | rfl | rfl | rfl
  · refine found (x := ofOption .attributeError (classModule s c)) (by simp [readTitle]) ?_
    cases classModule s c <;> exact Store.Keeps.refl _ s
  · exact found (x := pure (.str (s.nameOfClass c))) (by simp [readTitle]) (Store.Keeps.refl _ s)
  · exact found (x := pure (.str (s.pathOfClass c))) (by simp [readTitle]) (Store.Keeps.refl _ s)
  · refine found (x := bindMember M ((s.heldBy "__doc__" c).getD .absent) .absent c.value) (by simp [readTitle])
      (after_bindStatic fun q hq => ?_)
    cases hd : s.heldBy "__doc__" c with
    | none => simp [hd] at hq
    | some d =>
      obtain rfl : d = .ref q := by simpa [hd] using hq
      exact hdoc q hd
  · cases c with
    | builtin b => exact found (x := refuse .attributeError) (by simp [readTitle]; rfl) (Store.Keeps.refl _ s)
    | defined q =>
      obtain ⟨info,hq⟩ := hinfo q rfl
      exact found (x := classAnnotations q) (by simp [readTitle]) (after_classAnnotations hq)

/-- Classes of builtin classes tell their titles. -/
theorem after_readClassTitle {c : ClassId} (hc : s.classOf x = .builtin b) (hclass : s.class? x = some c)
    (hdoc : ∀ q, s.heldBy "__doc__" c ≠ some (.ref q))
    (hinfo : ∀ q, c = .defined q → ∃ info, s.classInfo? q = some info) (hn : n ∈ titles) :
    s.Grows (after (M.next.read x n) s) := by
  obtain ⟨hgrows,hsome⟩ := after_readTitleOfClass (M := M) hdoc hinfo hn
  have hread : M.next.read x n s = readOfClass M x c n s := by
    simp [Machine.next,readAttribute,hc,readNative,hclass]
  cases htitle : readTitle M c n s with
  | error e u =>
    rw [after_error htitle] at hgrows
    have hfail : M.next.read x n s = .error e u := by
      rw [hread]
      simp [readOfClass,hc,bind_error htitle]
    rwa [after_error hfail]
  | ok o u =>
    obtain ⟨y,rfl⟩ := Option.isSome_iff_exists.mp (hsome o u htitle)
    rw [after_ok htitle] at hgrows
    have hok : M.next.read x n s = .ok y u := by
      rw [hread]
      simp [readOfClass,hc,bind_ok htitle]
    rwa [after_ok hok]

/-- A class that a program defined. -/
theorem legible_class {info : ClassInfo} (hb : s.classOf (.ref q) = .builtin b) (hq : s.classInfo? q = some info)
    (hdoc : ∀ p, (s.classAttrs q).get? "__doc__" ≠ some (.ref p)) : s.Legible (.ref q) := by
  have hbody := Store.body_of_classInfo? hq
  have hall := Store.holds_all_of_body hbody
  have hc {t : Store} (ht : s.Grows t) : t.classOf (.ref q) = .builtin b := by rw [ht.classOf hall,hb]
  refine legible_of_next (fun t ht => hc ht) fun M t ht n hn => ?_
  have hqt : t.classInfo? q = some info := by rw [ht.classInfo? hall,hq]
  refine after_readClassTitle (c := .defined q) (hc ht) (by simp [Store.class?,hqt]) (fun p hp => hdoc p ?_)
    (fun p hp => ?_) hn
  · rw [← ht.classAttrs hall (by decide)]
    exact hp
  · obtain rfl : q = p := by simpa using hp
    exact ⟨info,hqt⟩

/-- A class that is there from the start. -/
theorem legible_builtinClass (c : BuiltinClass) : s.Legible (.builtinClass c) := by
  refine legible_of_next (b := c.ownClass) (fun t _ => rfl) fun M t _ n hn => ?_
  refine after_readClassTitle (c := .builtin c) rfl rfl (fun p hp => ?_) (fun p hp => by cases hp) hn
  rcases BuiltinClass.ownMember?_cases hp with ⟨sort,-,h⟩ | h | h | h <;> cases h

end Wrapper
end CallContracts
