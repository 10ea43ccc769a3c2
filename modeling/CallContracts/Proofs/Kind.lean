import CallContracts.Call
import CallContracts.Proofs.Quiet
/-! Instances of builtin classes.  What their class says does not depend on the store, so what is asked of
them is answered at once. -/
namespace CallContracts

/-- What a class of the host holds under a name. -/
theorem BuiltinClass.ownMember?_cases {c : BuiltinClass} {n : String} {x : Value} (h : c.ownMember? n = some x) :
    (∃ sort, (n,sort) ∈ c.ownMembers ∧ x = .operation (.member c n sort)) ∨
      x = .str c.home ∨ x = .absent ∨ x = .operation .fromEnvironment := by
  unfold ownMember? at h
  split at h
  · rename_i sort hsort
    obtain ⟨p,hp,rfl⟩ := Option.map_eq_some_iff.mp hsort
    have hn : p.1 = n := by simpa using List.find?_some hp
    exact .inl ⟨p.2,hn ▸ List.mem_of_find?_eq_some hp,(Option.some.inj h).symm⟩
  · grind

namespace Store
variable {s t : Store} {v : Value} {b c : BuiltinClass} {n : String}

@[simp] theorem line_builtin (s : Store) (b : BuiltinClass) :
    s.line (.builtin b) = b.line.map .builtin := by
  unfold line
  cases s.heap.size <;> rfl

@[simp] theorem override?_builtin (s : Store) (b : BuiltinClass) (n : String) :
    s.override? (.builtin b) n = none := rfl

@[simp] theorem overrides_builtin (s : Store) (b : BuiltinClass) (ns : List String) :
    s.overrides (.builtin b) ns = false := by simp [overrides]

@[simp] theorem spoofs_builtin (s : Store) (b : BuiltinClass) : s.spoofs (.builtin b) = false := by
  simp [spoofs]

@[simp] theorem builtinLine_builtin (s : Store) (b : BuiltinClass) :
    s.builtinLine (.builtin b) = b.line := by
  simp only [builtinLine,line_builtin,List.filterMap_map]
  exact List.filterMap_some

@[simp] theorem builtinBase_builtin (s : Store) (b : BuiltinClass) :
    s.builtinBase (.builtin b) = b := by
  rw [builtinBase,builtinLine_builtin]
  cases b <;> rfl

theorem classMember?_builtin (s : Store) (b : BuiltinClass) (n : String) :
    s.classMember? (.builtin b) n = b.line.findSome? (·.ownMember? n) := by
  rw [classMember?,line_builtin,List.findSome?_map]
  rfl

@[simp] theorem comesFrom_builtin (s : Store) (b c : BuiltinClass) :
    s.comesFrom (.builtin b) (.builtin c) = decide (c ∈ b.line) := by
  simp [comesFrom]

@[simp] theorem makesCallable_builtin (s : Store) (b : BuiltinClass) :
    s.makesCallable (.builtin b) = b.line.any (·.isCallable) := by
  simp [makesCallable,List.any_map,Function.comp_def]

theorem isSubclass_builtin (s t : Store) (b c : BuiltinClass) :
    s.isSubclass (.builtin b) (.builtin c) = t.isSubclass (.builtin b) (.builtin c) := by
  simp only [isSubclass,comesFrom_builtin,builtinLine_builtin,makesCallable_builtin,
    classMember?_builtin]

theorem isA_builtin (h : s.classOf v = .builtin b) : s.isA v c = decide (c ∈ b.line) := by
  rw [isA,h,comesFrom_builtin]

theorem isCallable_builtin (h : s.classOf v = .builtin b) :
    s.isCallable v = b.line.any (·.isCallable) := by
  rw [isCallable,h,makesCallable_builtin]

/-- An object is of the class that it was made of. -/
theorem classOf_of_get? {r : Ref} {o : Obj} (h : s.get? r = some o) : s.classOf (.ref r) = o.cls := by
  simp [classOf,h]

theorem body?_of_get? {r : Ref} {o : Obj} (h : s.get? r = some o) : s.body? (.ref r) = some o.body := by
  simp [body?,obj?,h]

theorem attr?_of_get? {r : Ref} {o : Obj} (h : s.get? r = some o) (ht : o.table = none) :
    s.attr? (.ref r) n = o.attrs.bind (·.get? n) := by
  simp [attr?,attrs?,obj?,h,ht]

theorem class?_of_body {r : Ref} {b : Body} (h : s.body? (.ref r) = some b)
    (hb : ∀ info, b ≠ .cls info) : s.class? (.ref r) = none := by
  rw [class?,classInfo?_eq,h]
  cases b with
  | cls info => exact absurd rfl (hb info)
  | _ => rfl

theorem contract?_of_body {c : Contract} {test : Value} {p : Option Parts}
    (h : s.body? v = some (.contract c test p)) : s.contract? v = some c := by
  rw [contract?,h]

theorem body_of_contract? {c : Contract} (h : s.contract? v = some c) :
    ∃ test p, s.body? v = some (.contract c test p) := by
  rw [contract?] at h
  split at h
  · obtain rfl := Option.some.inj h
    exact ⟨_,_,‹_›⟩
  · cases h

theorem parts?_of_body {c : Contract} {test : Value} {p : Option Parts}
    (h : s.body? v = some (.contract c test p)) : s.parts? v = p := by
  rw [parts?,h]

theorem unboxed_of_body {b : Body} (h : s.body? v = some b) (hb : ∀ w, b ≠ .boxed w) :
    s.unboxed v = v := by
  rw [unboxed,h]
  cases b with
  | boxed w => exact absurd rfl (hb w)
  | _ => rfl

theorem text?_of_body {r : Ref} {b : Body} (h : s.body? (.ref r) = some b) (hb : ∀ w, b ≠ .boxed w) :
    s.text? (.ref r) = none := by
  rw [text?,unboxed_of_body h hb]

theorem scalar?_of_body {b : Body} (h : s.body? v = some b) (hb : ∀ x, b ≠ .scalar x) :
    s.scalar? v = none := by
  rw [scalar?,h]
  cases b with
  | scalar x => exact absurd rfl (hb x)
  | _ => rfl

theorem pieces?_of_body {r : Ref} {b : Body} (h : s.body? (.ref r) = some b) (hb : ∀ w, b ≠ .boxed w)
    (hs : ∀ x, b ≠ .scalar x) : s.pieces? (.ref r) = none := by
  rw [pieces?,text?_of_body h hb,scalar?_of_body h hs]

theorem entries?_of_table {es : List (Value × Value)} (h : s.body? v = some (.table es)) :
    s.entries? v = some es := by
  rw [entries?,entriesFrom,h]

end Store

section kind
variable {m : Machine} {s : Store} {v : Value} {b c : BuiltinClass}

theorem isInstance_native {target : ClassId} (h : s.spoofs (s.classOf v) = false) :
    isInstance m v target s = .ok (s.isSubclass (s.classOf v) target) s := by
  simp [isInstance,h]

/-- Membership of an instance of a builtin class can be looked up. -/
theorem isKind_builtin {x : Bool} (h : s.classOf v = .builtin b)
    (hx : ({} : Store).isSubclass (.builtin b) (.builtin c) = x) : isKind m v c s = .ok x s := by
  rw [isKind,isInstance_native (by rw [h]; exact Store.spoofs_builtin s b),h,
    Store.isSubclass_builtin s {},hx]

end kind

section text
variable (m : Machine) (t : String) (s : Store)

theorem written_str : written m (.str t) s = .ok t s := by
  simp [written,textAs,depthLimit,writeAt,Act.map_apply]

theorem formatted_str : formatted m (.str t) s = .ok t s := by
  simp [formatted,textAs,depthLimit,writeAt,Act.map_apply]

theorem checkKey_str : checkKey m (.str t) s = .ok () s := by simp [checkKey]

theorem sameKey_str (u : String) : sameKey m (.str t) (.str u) s = .ok (decide (t = u)) s := by
  by_cases h : t = u <;> simp [sameKey,keyEqual,h]

end text
end CallContracts
