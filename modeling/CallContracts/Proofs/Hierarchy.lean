import CallContracts.Proofs.Lineage
import CallContracts.Proofs.Stored
/-! Hierarchies of classes and the wrappers that were installed in them.  A ledger tells for each class that
holds the member, and for each instance that holds one of its own, under which advices it is; what is found
along the line of a class is then what the ledger has first along that line. -/
namespace CallContracts
open Act

/-- The names under which classes and instances tell about themselves, or by which they rule how their
attributes are read and written. -/
def specialNames : List String :=
  ["__name__","__qualname__","__module__","__doc__","__bases__","__annotations__","__class__",
    "__getattribute__","__setattr__"] ++ fixedTitles

namespace Store
variable {s t u : Store} {r q D : Ref} {o : Obj} {n : String} {x : Value} {H I : Ref → Prop}

/-- A member was written to one object, and nothing else changed but for new objects. -/
structure Wrote (s : Store) (r : Ref) (n : String) (x : Value) (t : Store) : Prop where
  others : s.Keeps (.but r) t
  members : s.Keeps (.members n) t
  callables : s.Keeps .callables t
  here : t.attr? (.ref r) n = some x

theorem Wrote.after (hs : s.Grows u) (h : u.Wrote r n x t) : s.Wrote r n x t :=
  ⟨(Keeps.of_grows hs).trans h.others,(Keeps.of_grows hs).trans h.members,
    (Keeps.of_grows hs).trans h.callables,h.here⟩

/-- What does not hold the object that was written to is kept. -/
theorem Wrote.keeps {F : Frame} (h : s.Wrote r n x t) (hF : ∀ o, s.get? r = some o → ¬ F.holds r o.cls)
    (hsilent : ¬ F.silent) : s.Keeps F t := by
  refine ⟨h.others.size,fun q o ho hq => ?_,h.others.globals,fun hs => absurd hs hsilent⟩
  have hne : q ≠ r := by
    rintro rfl
    exact hF o ho hq
  obtain ⟨p,hp,hk⟩ := h.others.kept q o ho hne
  exact ⟨p,hp,Obj.Keeps.mono (F := .but r) (fun _ hn => by cases hn) hk⟩

theorem wrote_putAttr (ho : s.get? r = some o) (htable : o.table = none) (hattrs : o.attrs.isSome)
    (hcls : ¬ Frame.callables.holds r o.cls) (n : String) (x : Value) :
    s.Wrote r n x (s.putAttr r n x) := by
  have hput : s.putAttr r n x = s.update r fun o => { o with attrs := o.attrs.map (·.put n x) } := by
    simp [putAttr,updateAttrs,ho,htable]
  have hfree : (Frame.members n).frees n := Or.inr (by simp [Frame.members])
  have same {p : Obj} (hp : s.get? r = some p) : p = o := by simpa [ho] using hp.symm
  rw [hput]
  refine ⟨Keeps.update ?_,Keeps.update ?_,Keeps.update ?_,?_⟩
  · exact fun p _ hp => absurd rfl hp
  · intro p _ _
    refine ⟨rfl,rfl,rfl,?_,rfl,fun _ h => by cases h⟩
    cases hp : p.attrs with
    | none => rfl
    | some f => simp [Frame.lasting_put f x hfree]
  · intro p hp hF
    obtain rfl := same hp
    exact absurd hF hcls
  · obtain ⟨f,hf⟩ := Option.isSome_iff_exists.mp hattrs
    simp [attr?,attrs?,obj?,get?_update_self,ho,attrsOf,htable,hf]

theorem lookup_self (s : Store) (r : Ref) : .defined r ∈ s.line (.defined r) := by
  rw [line]
  cases s.heap.size <;> simp [lineFrom]

/-- A class whose own class leaves to the language how its attributes are read and written. -/
structure Governed (s : Store) (r : Ref) : Prop where
  info : ∃ info, s.classInfo? r = some info
  above : s.Lined (s.classOf (.ref r))
  type : .builtin .type ∈ s.line (s.classOf (.ref r))
  rules : ∀ k ∈ ["__class__","__getattribute__","__setattr__"], s.override? (s.classOf (.ref r)) k = none

namespace Governed

theorem class? (h : s.Governed r) : s.class? (.ref r) = some (.defined r) := by
  obtain ⟨info,hi⟩ := h.info
  simp [Store.class?,hi]

theorem spoofs (h : s.Governed r) : s.spoofs (s.classOf (.ref r)) = false := by
  simp [Store.spoofs,Store.overrides,h.rules "__class__" (by simp),h.rules "__getattribute__" (by simp)]

/-- A class is an instance of classes of classes only. -/
theorem cls_ne {b : BuiltinClass} (h : s.Governed r) (ho : s.get? r = some o) (hb : .type ∉ b.line) :
    o.cls ≠ .builtin b := by
  intro hc
  have ht := h.type
  rw [classOf_of_get? ho,hc,line_builtin,List.mem_map] at ht
  obtain ⟨d,hd,he⟩ := ht
  obtain rfl : d = .type := by simpa using he
  exact hb hd

theorem not_callable (h : s.Governed r) (ho : s.get? r = some o) : ¬ Frame.callables.holds r o.cls := by
  simp only [Frame.callables,List.mem_map,not_exists,not_and]
  intro b hb hc
  refine h.cls_ne ho ?_ hc.symm
  simp only [List.mem_cons,List.not_mem_nil,or_false] at hb
  rcases hb with rfl | rfl | rfl | rfl | rfl | rfl | rfl <;> decide

end Governed

/-- A class of a hierarchy.  It holds its members itself, and its own class, which is none of the hierarchy,
leaves the reading and writing of the member to the language. -/
structure Branch (s : Store) (n : String) (H : Ref → Prop) (r : Ref) : Prop where
  lined : s.Lined (.defined r)
  closed : ∀ q, .defined q ∈ s.line (.defined r) → H q
  own : ∃ o, s.get? r = some o ∧ o.table = none ∧ o.attrs.isSome
  above : s.Lined (s.classOf (.ref r))
  type : .builtin .type ∈ s.line (s.classOf (.ref r))
  apart : ∀ q, .defined q ∈ s.line (s.classOf (.ref r)) → ¬ H q
  rules : ∀ k ∈ [n,"__class__","__getattribute__","__setattr__"], s.override? (s.classOf (.ref r)) k = none

/-- An instance of a class of a hierarchy that is no class.  Its attributes are its own and are read as the
language says. -/
structure Leaf (s : Store) (H : Ref → Prop) (r D : Ref) : Prop where
  cls : s.classOf (.ref r) = .defined D
  member : H D
  plain : s.class? (.ref r) = none
  own : ∃ o, s.get? r = some o ∧ o.table = none
  reads : s.override? (.defined D) "__getattribute__" = none

/-- Builtin classes whose instances are mappings or classes, or refuse attributes. -/
def guarded : List BuiltinClass :=
  [.dict,.orderedDict,.mappingProxy,.mapping,.type,.contract,.settings,.matched,.mismatched]

/-- An instance whose attributes are written as the language says. -/
structure Open (s : Store) (r D : Ref) : Prop where
  own : ∃ o, s.get? r = some o ∧ o.attrs.isSome
  rules : ∀ k ∈ ["__class__","__setattr__"], s.override? (.defined D) k = none
  kind : ∀ b ∈ guarded, .builtin b ∉ s.line (.defined D)

/-- Nobody has a say when an instance of a class that is none of those is written to. -/
theorem unruled_guarded {v : Value} (hrule : s.override? (s.classOf v) "__setattr__" = none)
    (h : ∀ b ∈ guarded, .builtin b ∉ s.line (s.classOf v)) (n : String) : s.Unruled v n := by
  have other {b : BuiltinClass} (hb : b ∈ guarded) : s.isA v b = false := by
    simp [isA,comesFrom,h b hb]
  have hne {b : BuiltinClass} (hb : b ∈ guarded) : s.classOf v ≠ .builtin b := by
    intro hc
    refine h b hb ?_
    rw [hc,line_builtin]
    exact List.mem_map_of_mem b.self_mem_line
  refine ⟨hrule,other (by simp [guarded]),?_,other (by simp [guarded])⟩
  simp [isFrozen,hne (b := .matched) (by simp [guarded]),hne (b := .mismatched) (by simp [guarded]),
    other (b := .matched) (by simp [guarded]),other (b := .mismatched) (by simp [guarded])]

theorem isSubclass_guarded {c : ClassId} (h : ∀ b ∈ guarded, .builtin b ∉ s.line c) :
    s.isSubclass c (.builtin .mapping) = false ∧ s.isSubclass c (.builtin .type) = false := by
  have hmapping : (s.builtinLine c).any (·.isMapping) = false := by
    rw [List.any_eq_false]
    intro b hb
    simp only [BuiltinClass.isMapping,decide_eq_true_eq]
    intro hmem
    refine h b ?_ (mem_builtinLine.mp hb)
    simp only [List.mem_cons,List.not_mem_nil,or_false] at hmem
    rcases hmem with rfl | rfl | rfl | rfl <;> simp [guarded]
  simp [Store.isSubclass,comesFrom,h .mapping (by simp [guarded]),hmapping,h .type (by simp [guarded])]

theorem Open.unruled (h : s.Open r D) (hcls : s.classOf (.ref r) = .defined D) (n : String) :
    s.Unruled (.ref r) n :=
  unruled_guarded (by rw [hcls]; exact h.rules "__setattr__" (by simp)) (by rw [hcls]; exact h.kind) n

/-- Classes and instances of a hierarchy. -/
structure Family (s : Store) (n : String) (H I : Ref → Prop) : Prop where
  classes : ∀ r, H r → s.Branch n H r
  instances : ∀ r, I r → ∃ D, s.Leaf H r D

/-- A class of the hierarchy, or an instance whose attributes are written as the language says. -/
def Wrappable (s : Store) (H I : Ref → Prop) (r : Ref) : Prop :=
  H r ∨ I r ∧ ∃ D, s.classOf (.ref r) = .defined D ∧ s.Open r D

namespace Branch

theorem governed (h : s.Branch n H r) : s.Governed r :=
  ⟨h.lined.classInfo? (lookup_self s r),h.above,h.type,fun k hk => h.rules k (List.mem_cons_of_mem n hk)⟩

theorem classInfo? (h : s.Branch n H r) : ∃ info, s.classInfo? r = some info := h.governed.info

theorem class? (h : s.Branch n H r) : s.class? (.ref r) = some (.defined r) := h.governed.class?

theorem spoofs (h : s.Branch n H r) : s.spoofs (s.classOf (.ref r)) = false := h.governed.spoofs

/-- What lets the classes be that rule over a class of a hierarchy keeps it one. -/
theorem keep {F : Frame} (h : s.Branch n H r) (hn : n ∉ specialNames) (ht : s.Keeps F t) (hF : ∀ r c, F.holds r c)
    (hrules : ∀ d, .defined d ∈ s.line (s.classOf (.ref r)) → ∀ k, k ≠ "__annotations__" →
      (t.classAttrs d).get? k = (s.classAttrs d).get? k) : t.Branch n H r := by
  have hline : t.line (.defined r) = s.line (.defined r) := h.lined.line_eq ht hF
  obtain ⟨o,ho,htable,hattrs⟩ := h.own
  obtain ⟨p,hp,hk⟩ := ht.kept r o ho (hF r o.cls)
  have hcls : t.classOf (.ref r) = s.classOf (.ref r) := ht.classOf (holds_ref ho (hF r o.cls))
  have habove : t.line (s.classOf (.ref r)) = s.line (s.classOf (.ref r)) := h.above.line_eq ht hF
  refine ⟨h.lined.keep ht hF,fun k hk => h.closed k (hline ▸ hk),
    ⟨p,hp,hk.table.trans htable,hk.isSome_attrs.trans hattrs⟩,?_,?_,?_,?_⟩
  all_goals rw [hcls]
  · exact h.above.keep ht hF
  · rw [habove]
    exact h.type
  · rw [habove]
    exact h.apart
  · intro k hk
    rw [← h.rules k hk]
    refine override?_congr habove fun d hd => hrules d hd k ?_
    rintro rfl
    simp only [List.mem_cons,List.not_mem_nil,or_false] at hk
    rcases hk with rfl | hk
    · exact hn (by simp [specialNames])
    · simp at hk

theorem grows (h : s.Branch n H r) (hn : n ∉ specialNames) (ht : s.Grows t) : t.Branch n H r := by
  refine h.keep hn ht (fun _ _ => trivial) fun d hd k hk => ?_
  obtain ⟨o,ho⟩ := h.above.get? hd
  exact ht.classAttrs (holds_ref ho trivial) (by simpa [Frame.frees,Frame.all] using hk)

/-- Classes of a hierarchy stay so when a member of another one or of an instance is written. -/
theorem wrote {k : String} (h : s.Branch k H r) (hk : k ∉ specialNames) (hq : H q ∨ s.class? (.ref q) = none)
    (ht : s.Wrote q n x t) : t.Branch k H r := by
  refine h.keep hk ht.members (fun _ _ => trivial) fun d hd k hk => ?_
  -- what is written to is no class that rules over the classes of the hierarchy
  have hne : d ≠ q := by
    rintro rfl
    rcases hq with hq | hq
    · exact h.apart d hd hq
    · obtain ⟨info,hi⟩ := h.above.classInfo? hd
      simp [Store.class?,hi] at hq
  obtain ⟨o,ho⟩ := h.above.get? hd
  exact ht.others.classAttrs (holds_ref ho hne) (by simpa using hk)

end Branch

theorem Leaf.keep (h : s.Leaf H r D) (hD : s.Branch n H D) (hn : n ∉ specialNames) (ht : s.Keeps (.members n) t) :
    t.Leaf H r D := by
  obtain ⟨o,ho,htable⟩ := h.own
  obtain ⟨p,hp,hk⟩ := ht.kept r o ho trivial
  have hr : s.Holds (.members n) (.ref r) := holds_ref ho trivial
  refine ⟨by rw [ht.classOf hr,h.cls],h.member,by rw [ht.class? hr,h.plain],
    ⟨p,hp,hk.table.trans htable⟩,?_⟩
  rw [← h.reads]
  refine override?_congr (hD.lined.line_eq ht fun _ _ => trivial) fun d hd => ?_
  obtain ⟨e,he⟩ := hD.lined.get? hd
  refine ht.classAttrs (holds_ref he trivial) ?_
  rintro (hk | hk)
  · simp at hk
  · obtain rfl : "__getattribute__" = n := by simpa [Frame.members] using hk
    exact hn (by decide)

theorem Open.keep (h : s.Open r D) (hD : s.Branch n H D) (hn : n ∉ specialNames) (ht : s.Keeps (.members n) t) :
    t.Open r D := by
  obtain ⟨o,ho,hattrs⟩ := h.own
  obtain ⟨p,hp,hkeep⟩ := ht.kept r o ho trivial
  have hline : t.line (.defined D) = s.line (.defined D) := hD.lined.line_eq ht fun _ _ => trivial
  refine ⟨⟨p,hp,hkeep.isSome_attrs.trans hattrs⟩,?_,by rw [hline]; exact h.kind⟩
  intro k hk
  rw [← h.rules k hk]
  refine override?_congr hline fun d hd => ?_
  obtain ⟨e,he⟩ := hD.lined.get? hd
  refine ht.classAttrs (holds_ref he trivial) ?_
  simp only [List.mem_cons,List.not_mem_nil,or_false] at hk
  rintro (hk' | hk')
  · subst hk'
    simp at hk
  · obtain rfl : k = n := by simpa [Frame.members] using hk'
    exact hn (by rcases hk with rfl | rfl <;> decide)

theorem Family.grows (h : s.Family n H I) (hn : n ∉ specialNames) (ht : s.Grows t) : t.Family n H I := by
  refine ⟨fun r hr => (h.classes r hr).grows hn ht,fun r hr => ?_⟩
  obtain ⟨D,hD⟩ := h.instances r hr
  exact ⟨D,hD.keep (h.classes D hD.member) hn (Keeps.of_grows ht)⟩

theorem Family.wrote (h : s.Family n H I) (hn : n ∉ specialNames) (hq : H q ∨ s.class? (.ref q) = none)
    (ht : s.Wrote q n x t) : t.Family n H I := by
  refine ⟨fun r hr => (h.classes r hr).wrote hn hq ht,fun r hr => ?_⟩
  obtain ⟨D,hD⟩ := h.instances r hr
  exact ⟨D,hD.keep (h.classes D hD.member) hn ht.members⟩

end Store
end CallContracts
