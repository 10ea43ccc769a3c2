import CallContracts.Attribute.Delete
import CallContracts.Proofs.Algebra
/-! What a program does to a contract through its attributes.  No assignment reaches it.  A deletion does, when it
names a storage place: the place is empty then, and what is kept there can no longer be asked for. -/
namespace CallContracts
open Act

namespace Fields
variable {α : Type} {f : Fields α} {n k : String}

theorem get?_erase_ne (h : k ≠ n) : (f.erase n).get? k = f.get? k := by
  induction f with
  | nil => rfl
  | cons p r ih =>
    by_cases hp : p.1 = n
    · have hk : p.1 ≠ k := fun hk => h (hk.symm.trans hp)
      simp only [erase,get?,hp,↓reduceIte]
      rw [if_neg (hp ▸ hk)]
    · simp only [erase,get?,hp,↓reduceIte,ih]

theorem get?_erase_self (h : f.keys.Nodup) : (f.erase n).get? n = none := by
  induction f with
  | nil => rfl
  | cons p r ih =>
    obtain ⟨hp,hr⟩ := List.nodup_cons.mp h
    by_cases hn : p.1 = n
    · simp only [erase,hn,↓reduceIte]
      exact get?_eq_none fun q hq heq => hp (hn ▸ heq ▸ List.mem_map_of_mem hq)
    · simp only [erase,get?,hn,↓reduceIte]
      exact ih hr

theorem sublist_erase : (f.erase n).Sublist f := by
  induction f with
  | nil => exact .slnil
  | cons p r ih =>
    by_cases hn : p.1 = n
    · simp only [erase,hn,↓reduceIte]
      exact (List.Sublist.refl r).cons p
    · simp only [erase,hn,↓reduceIte]
      exact ih.cons_cons p

theorem nodup_erase (h : f.keys.Nodup) : (f.erase n).keys.Nodup := h.sublist (sublist_erase.map _)

end Fields

/-- The storage places that instances of a class have. -/
def BuiltinClass.places (b : BuiltinClass) : List String :=
  b.line.flatMap fun c => (c.ownMembers.filter (·.2 = .storage)).map Prod.fst

/-- What holds a contract: its parts, or the storage places of one that was taken apart. -/
inductive Obj.KeepsContract : Obj → Prop
  | whole {o : Obj} {c : Contract} {test : Value} {parts : Option Parts} (h : o.body = .contract c test parts) :
    o.KeepsContract
  | apart {o : Obj} (h : o.body = .plain) (hn : o.slots.keys.Nodup) : o.KeepsContract

/-- A contract or a signature, whole or taken apart. -/
structure Store.HoldsContract (s : Store) (v : Value) (b : BuiltinClass) : Prop where
  sort : b ∈ [BuiltinClass.contract,.signature]
  place : ∃ r o, v = .ref r ∧ s.get? r = some o ∧ o.cls = .builtin b ∧ o.attrs = none ∧ o.table = none ∧
    o.KeepsContract

namespace Store
variable {s : Store} {v : Value} {b : BuiltinClass} {r : Ref} {o : Obj} {n k : String}

/-- The storage place of an object. -/
theorem slot?_of_get? (h : s.get? r = some o) : s.slot? (.ref r) n = match o.body with
    | .contract c test parts =>
      if n = "_test" then some test
      else if n = "_description" then some c.description
      else if n = "_params" then parts.map Parts.params
      else if n = "_input" then parts.map Parts.input
      else if n = "_ret" then parts.map Parts.ret
      else none
    | _ => o.slots.get? n := by
  obtain ⟨_,body,_,_,_⟩ := o
  simp only [slot?,obj?,h]
  cases body <;> rfl

theorem loosened_apart (h : o.KeepsContract) :
    (loosened o).body = .plain ∧ (loosened o).slots.keys.Nodup := by
  cases h with
  | whole hb =>
    rename_i c test parts
    cases parts <;> simp [loosened,hb,Fields.keys]
  | apart hb hn => simp [loosened,hb,hn]

@[simp] theorem loosened_cls : (loosened o).cls = o.cls := by
  unfold loosened
  split <;> rfl

@[simp] theorem loosened_attrs : (loosened o).attrs = o.attrs := by
  unfold loosened
  split <;> rfl

@[simp] theorem loosened_table : (loosened o).table = o.table := by
  unfold loosened
  split <;> rfl

/-- Taking a contract apart leaves in its places what it held. -/
theorem slots_loosened (ho : s.get? r = some o) (h : o.KeepsContract) :
    (loosened o).slots.get? n = s.slot? (.ref r) n := by
  rw [slot?_of_get? ho]
  cases h with
  | whole hb =>
    rename_i c test parts
    cases parts <;> simp only [loosened,hb,List.append_nil,List.cons_append,List.nil_append,Fields.get?,
      Option.map_some,Option.map_none,ite_self,eq_comm (b := n)]
  | apart hb hn => simp [loosened,hb]

end Store

section delete
variable {m : Machine} {s : Store} {v x : Value} {b c : BuiltinClass} {n k : String}

/-- The storage places of contracts are members of the classes of contracts. -/
theorem BuiltinClass.member_of_place : ∀ b ∈ [BuiltinClass.contract,.signature], ∀ n ∈ b.places,
    ∃ c ∈ [BuiltinClass.contract,.signature], c ∈ b.line ∧
      b.line.findSome? (·.ownMember? n) = some (.operation (.member c n .storage)) := by decide

/-- Their other members are shown by a function of the library, are asked after the own attributes, or tell the class
of an object. -/
theorem BuiltinClass.sort_of_member : ∀ b ∈ [BuiltinClass.contract,.signature], ∀ c ∈ b.line, ∀ p ∈ c.ownMembers,
    p.1 ∉ b.places → p.2 = .property ∨ p.2 ∉ [MemberSort.getter,.storage] ∨ p.1 = "__class__" := by decide

namespace Store.HoldsContract

theorem classOf (h : s.HoldsContract v b) : s.classOf v = .builtin b := by
  obtain ⟨r,o,rfl,ho,hc,-⟩ := h.place
  rw [classOf_of_get? ho,hc]

theorem class? (h : s.HoldsContract v b) : s.class? v = none := by
  obtain ⟨r,o,rfl,ho,-,-,-,hk⟩ := h.place
  refine class?_of_body (body?_of_get? ho) fun info => ?_
  cases hk with
  | whole hb => simp [hb]
  | apart hb => simp [hb]

theorem attrs? (h : s.HoldsContract v b) : s.attrs? v = none := by
  obtain ⟨r,o,rfl,ho,-,ha,ht,-⟩ := h.place
  simp [Store.attrs?,obj?,ho,attrsOf,ha,ht]

theorem isA (h : s.HoldsContract v b) : s.isA v c = decide (c ∈ b.line) := isA_builtin h.classOf

theorem eraseOwn (h : s.HoldsContract v b) : eraseOwn v n s = .error (.raised (.refused .attributeError)) s := by
  have ha : s.attr? v n = none := by simp [attr?,h.attrs?]
  obtain ⟨r,-,rfl,-⟩ := h.place
  simp [CallContracts.eraseOwn,ha]

/-- Every assignment is refused, before the name is looked at. -/
theorem write (h : s.HoldsContract v b) :
    m.next.write v n x s = .error (.raised (.immutable (s.typeName v))) s := by
  have hA : s.isA v .contract = true := by
    rw [h.isA]
    exact (by decide : ∀ b ∈ [BuiltinClass.contract,.signature], decide (.contract ∈ b.line) = true) b h.sort
  simp [Machine.next,writeAttribute,h.classOf,writeNative,h.class?,hA]

theorem deleteAttribute (h : s.HoldsContract v b) : deleteAttribute m v n s = deleteInstance m v n s := by
  have hf : s.isFrozen v n = false := by
    have hs := h.sort
    simp only [isFrozen,h.isA,h.classOf]
    obtain rfl | rfl : b = .contract ∨ b = .signature := by simpa using hs
    · rfl
    · rfl
  simp [CallContracts.deleteAttribute,h.classOf,deleteNative,h.class?,hf]

/-- A deletion under the name of a storage place empties it. -/
theorem deleteAttribute_place (h : s.HoldsContract v b) (hn : n ∈ b.places) :
    CallContracts.deleteAttribute m v n s = eraseSlot v n s := by
  obtain ⟨c,hc,hcb,hm⟩ := BuiltinClass.member_of_place b h.sort n hn
  have hfixed : n ≠ "__class__" ∧ n ≠ "__dict__" :=
    (by decide : ∀ b ∈ [BuiltinClass.contract,.signature], ∀ n ∈ b.places, n ≠ "__class__" ∧ n ≠ "__dict__")
      b h.sort n hn
  have hpart : deletePart v c n s = eraseSlot v n s := by
    obtain rfl | rfl : c = .contract ∨ c = .signature := by simpa using hc
    · simp [deletePart,hfixed]
    · simp [deletePart,hfixed]
  rw [h.deleteAttribute]
  simp [deleteInstance,h.classOf,classMember?_builtin,hm,isDataMember,deleteMember,h.isA,hcb,hpart]

/-- Under every other name there is nothing that can be deleted. -/
theorem deleteAttribute_other (h : s.HoldsContract v b) (hn : n ∉ b.places) :
    ∃ e, CallContracts.deleteAttribute m v n s = .error e s := by
  rw [h.deleteAttribute]
  simp only [deleteInstance,get_bind_apply,h.classOf,classMember?_builtin]
  cases hm : b.line.findSome? (·.ownMember? n) with
  | none => exact ⟨_,h.eraseOwn⟩
  | some x =>
    obtain ⟨c,hc,hx⟩ := List.exists_of_findSome?_eq_some hm
    by_cases hd : s.isDataMember x = true
    · rcases BuiltinClass.ownMember?_cases hx with ⟨sort,hp,rfl⟩ | rfl | rfl | rfl
      · simp only [hd,↓reduceIte,deleteMember,get_bind_apply]
        rcases BuiltinClass.sort_of_member b h.sort c hc _ hp hn with hsort | hsort | hname
        · simp [show sort = .property from hsort]
        · have : sort = .property := by
            simpa [isDataMember,not_or.mp (by simpa using hsort)] using hd
          simp [this]
        · by_cases hsort : sort = .property
          · simp [hsort]
          · simp [hsort,h.isA,hc,deletePart,show n = "__class__" from hname]
      · simp [isDataMember,Store.isA,Store.classOf] at hd
        exact absurd hd (by decide)
      · simp [isDataMember,Store.isA,Store.classOf] at hd
        exact absurd hd (by decide)
      · simp [isDataMember,Store.isA,Store.classOf] at hd
        exact absurd hd (by decide)
    · exact ⟨_,by simpa [hd] using h.eraseOwn⟩

theorem eraseSlot_empty (h : s.HoldsContract v b) (hs : s.slot? v n = none) :
    eraseSlot v n s = .error (.raised (.refused .attributeError)) s := by
  obtain ⟨r,-,rfl,-⟩ := h.place
  simp [eraseSlot,hs]

/-- Emptying a place takes the contract apart and leaves what the other places hold. -/
theorem eraseSlot_full (h : s.HoldsContract v b) (hs : s.slot? v n ≠ none) :
    ∃ t, eraseSlot v n s = .ok () t ∧ t.HoldsContract v b ∧
      ∀ k, t.slot? v k = if k = n then none else s.slot? v k := by
  obtain ⟨r,o,rfl,ho,hc,ha,ht,hk⟩ := h.place
  obtain ⟨x,hx⟩ := Option.ne_none_iff_exists'.mp hs
  obtain ⟨hplain,hnodup⟩ := loosened_apart hk
  let p : Obj := { loosened o with slots := (loosened o).slots.erase n }
  let t : Store := (s.loosen r).update r fun o => { o with slots := o.slots.erase n }
  have hr : t.get? r = some p := by
    rw [get?_update_self,loosen,get?_update_self,ho]
    rfl
  have herase : eraseSlot (.ref r) n s = .ok () t := by
    simp only [eraseSlot,get_bind_apply,hx]
    rfl
  refine ⟨t,herase,⟨h.sort,r,p,rfl,hr,loosened_cls.trans hc,loosened_attrs.trans ha,loosened_table.trans ht,
    .apart hplain (Fields.nodup_erase hnodup)⟩,fun k => ?_⟩
  have hslot : t.slot? (.ref r) k = ((loosened o).slots.erase n).get? k := by
    rw [slot?_of_get? hr]
    simp [p,hplain]
  rw [hslot]
  by_cases hkn : k = n
  · rw [if_pos hkn,hkn,Fields.get?_erase_self hnodup]
  · rw [if_neg hkn,Fields.get?_erase_ne hkn,slots_loosened ho hk]

end Store.HoldsContract

namespace Contract

/-- What a program can try with an attribute of a contract. -/
inductive Attempt where
  | assign (n : String) (x : Value)
  | delete (n : String)
  deriving DecidableEq

/-- The attempt itself, which may fail. -/
def Attempt.act (m : Machine) (v : Value) : Attempt → Act Unit
  | .assign n x => m.write v n x
  | .delete n => deleteAttribute m v n

/-- What is left after attempts, each of which may fail. -/
def attemptAll (m : Machine) (v : Value) : Store → List Attempt → Store
  | s, [] => s
  | s, a :: as => attemptAll m v (after (a.act m v) s) as

/-- One attempt empties the place that it deletes and does nothing else. -/
theorem slot?_attempt (h : s.HoldsContract v b) (a : Attempt) :
    (after (a.act m.next v) s).HoldsContract v b ∧
      ((∀ n ∈ b.places, a = .delete n → s.slot? v n = none) → after (a.act m.next v) s = s) ∧
      ∀ k ∈ b.places, (after (a.act m.next v) s).slot? v k = if a = .delete k then none else s.slot? v k := by
  cases a with
  | assign n x =>
    have hs : after ((Attempt.assign n x).act m.next v) s = s := after_error h.write
    rw [hs]
    exact ⟨h,fun _ => rfl,fun k _ => by simp⟩
  | delete n =>
    by_cases hn : n ∈ b.places
    · by_cases hs : s.slot? v n = none
      · have ht : after ((Attempt.delete n).act m.next v) s = s := by
          rw [Attempt.act,after_error ((h.deleteAttribute_place hn).trans (h.eraseSlot_empty hs))]
        rw [ht]
        refine ⟨h,fun _ => rfl,fun k _ => ?_⟩
        split
        · next hk =>
          obtain rfl := Attempt.delete.inj hk
          exact hs
        · rfl
      · obtain ⟨t,ht,h',hslot⟩ := h.eraseSlot_full hs
        rw [Attempt.act,after_ok ((h.deleteAttribute_place hn).trans ht)]
        refine ⟨h',fun hempty => absurd (hempty n hn rfl) hs,fun k _ => ?_⟩
        simp [hslot,eq_comm (a := n)]
    · obtain ⟨e,he⟩ := h.deleteAttribute_other (m := m.next) hn
      rw [Attempt.act,after_error he]
      refine ⟨h,fun _ => rfl,fun k hk => ?_⟩
      rw [if_neg (by rintro ⟨rfl⟩; exact hn hk)]

/-- After attempts the deleted places are empty, and the contract is as it was when they all were before. -/
theorem slot?_attemptAll (h : s.HoldsContract v b) (as : List Attempt) :
    (attemptAll m.next v s as).HoldsContract v b ∧
      ((∀ n ∈ b.places, .delete n ∈ as → s.slot? v n = none) → attemptAll m.next v s as = s) ∧
      ∀ k ∈ b.places,
        (attemptAll m.next v s as).slot? v k = if .delete k ∈ as then none else s.slot? v k := by
  induction as generalizing s with
  | nil => exact ⟨h,fun _ => rfl,fun k _ => by simp [attemptAll]⟩
  | cons a as ih =>
    obtain ⟨h',hsame,hslot⟩ := slot?_attempt (m := m) h a
    obtain ⟨hall,hsames,hslots⟩ := ih h'
    refine ⟨hall,fun hn => ?_,fun k hk => ?_⟩
    · have ha := hsame fun n hp e => hn n hp (by simp [e])
      rw [ha] at hsames
      rw [attemptAll,ha]
      exact hsames fun n hp hd => hn n hp (by simp [hd])
    · rw [attemptAll,hslots k hk,hslot k hk]
      by_cases hd : .delete k ∈ as
      · simp [hd]
      · simp [hd,eq_comm (a := a)]

/-- What a place holds can be asked for as it is stored. -/
theorem read_place (h : s.HoldsContract v b) (hn : n ∈ b.places) :
    m.next.read v n s = ofOption .attributeError (s.slot? v n) s := by
  obtain ⟨c,hc,hcb,hm⟩ := BuiltinClass.member_of_place b h.sort n hn
  have hname : n ≠ "__class__" ∧ n ≠ "__dict__" ∧ n ≠ "__weakref__" ∧ n.toList.head? = some '_' :=
    (by decide : ∀ b ∈ [BuiltinClass.contract,.signature], ∀ n ∈ b.places,
      n ≠ "__class__" ∧ n ≠ "__dict__" ∧ n ≠ "__weakref__" ∧ n.toList.head? = some '_') b h.sort n hn
  have hmodule : .module ∉ b.line :=
    (by decide : ∀ b ∈ [BuiltinClass.contract,.signature], .module ∉ b.line) b h.sort
  rw [read_next_builtin h.classOf h.class? hmodule]
  simp only [readOfInstance,get_bind_apply,h.classOf,Store.classMember?_builtin,hm,Store.isDataMember,bindTo,bindOperation,
    h.isA,hcb,decide_true,Bool.or_true,Bool.true_or,↓reduceIte]
  obtain rfl | rfl : c = .contract ∨ c = .signature := by simpa using hc
  · simp [computed,hname]
  · simp [computed,hname]

/-- It is shown under the name of the place without its mark. -/
theorem read_shown {p : String × String} (h : s.HoldsContract v b) (hp : p ∈ shownSlots) (hn : p.2 ∈ b.places) :
    m.next.next.read v p.1 s = ofOption .attributeError (s.slot? v p.2) s := by
  obtain ⟨hmodule,c,hc,hm,hname,hmark⟩ : .module ∉ b.line ∧ ∃ c ∈ [BuiltinClass.contract,.signature],
      b.line.findSome? (·.ownMember? p.1) = some (.operation (.member c p.1 .property)) ∧
      (p.1 ≠ "__class__" ∧ p.1 ≠ "__dict__" ∧ p.1 ≠ "__weakref__" ∧ p.1.toList.head? ≠ some '_') ∧
      "_" ++ p.1 = p.2 :=
    (by decide : ∀ b ∈ [BuiltinClass.contract,.signature], ∀ p ∈ shownSlots, p.2 ∈ b.places →
      .module ∉ b.line ∧ ∃ c ∈ [BuiltinClass.contract,.signature],
        b.line.findSome? (·.ownMember? p.1) = some (.operation (.member c p.1 .property)) ∧
        (p.1 ≠ "__class__" ∧ p.1 ≠ "__dict__" ∧ p.1 ≠ "__weakref__" ∧ p.1.toList.head? ≠ some '_') ∧
        "_" ++ p.1 = p.2) b h.sort p hp hn
  have hshown : slotShown m.next v p.1 s = ofOption .attributeError (s.slot? v p.2) s := by
    have hread := read_place (m := m) h hn
    simp only [slotShown,get_bind_apply,hmark]
    cases hc : s.contract? v with
    | none => exact hread
    | some c =>
      cases hx : s.slot? v p.2 with
      | none => rwa [hx] at hread
      | some y => rfl
  rw [read_next_builtin h.classOf h.class? hmodule,readOfInstance_property h.classOf hm,← hshown]
  obtain rfl | rfl : c = .contract ∨ c = .signature := by simpa using hc
  · simp [computed,hname]
  · simp [computed,hname]

/-- A contract without its test runs on nothing. -/
theorem runOn_empty (h : s.HoldsContract v b) (hs : s.slot? v "_test" = none) :
    runOn m.next v x s = .error (.raised (.refused .attributeError)) s := by
  have hn : "_test" ∈ b.places :=
    (by decide : ∀ b ∈ [BuiltinClass.contract,.signature], "_test" ∈ b.places) b h.sort
  have hr := read_place (m := m) h hn
  rw [hs] at hr
  have hc : s.contract? v = none := by
    obtain ⟨r,o,rfl,ho,-⟩ := h.place
    rw [Store.slot?_of_get? ho] at hs
    rw [Store.contract?,Store.body?_of_get? ho]
    split <;> simp_all
  simp only [runOn,get_bind_apply,hc]
  exact bind_error hr

/-- Whatever a program tries with the attributes of a contract, the contract stays as it is exactly when no deletion
names a place that holds something.  What a deleted place held is gone, and without its test the contract does not
run. -/
theorem attemptAll_eq_iff (h : s.HoldsContract v b) (as : List Attempt) :
    (attemptAll m.next v s as = s ↔ ∀ n ∈ b.places, .delete n ∈ as → s.slot? v n = none) ∧
    (∀ p ∈ shownSlots, p.2 ∈ b.places →
      m.next.next.read v p.1 (attemptAll m.next v s as)
        = ofOption .attributeError (if .delete p.2 ∈ as then none else s.slot? v p.2)
          (attemptAll m.next v s as)) ∧
    (.delete "_test" ∈ as → ∀ x,
      m.next.next.call (.operation (.member .contract "run" .plain)) [v,x] [] (attemptAll m.next v s as)
        = .error (.raised (.refused .attributeError)) (attemptAll m.next v s as)) := by
  obtain ⟨hall,hsame,hslot⟩ := slot?_attemptAll (m := m) h as
  refine ⟨⟨fun heq n hn hd => ?_,hsame⟩,fun p hp hn => ?_,fun hd x => ?_⟩
  · rw [← heq,hslot n hn,if_pos hd]
  · rw [read_shown hall hp hn,hslot p.2 hn]
  · have hn : "_test" ∈ b.places :=
      (by decide : ∀ b ∈ [BuiltinClass.contract,.signature], "_test" ∈ b.places) b h.sort
    rw [call_run]
    exact runOn_empty hall (by rw [hslot _ hn,if_pos hd])

/-- The contract for anything, which every program shares, loses its description. -/
theorem attemptAll_anything :
    Store.initial.HoldsContract anything.value .contract ∧
      attemptAll Machine.halted.next anything.value Store.initial
        [.assign "description" .absent,.delete "_description"] ≠ Store.initial := by
  have h : Store.initial.HoldsContract anything.value .contract :=
    ⟨by simp,1,standardObject anything,rfl,rfl,rfl,rfl,rfl,.whole rfl⟩
  refine ⟨h,fun heq => ?_⟩
  have := (attemptAll_eq_iff h [.assign "description" .absent,.delete "_description"]).1.mp heq "_description"
    (by decide) (by simp)
  exact absurd this (by decide)

/-- After one deletion it has no description, and after another it does not run. -/
theorem anything_deleted :
    returned (Machine.full.read anything.value "description") Store.initial = some (.str "any") ∧
    raises (do
      deleteAttribute Machine.full anything.value "_description"
      Machine.full.read anything.value "description") Store.initial = true ∧
    raises (do
      deleteAttribute Machine.full anything.value "_test"
      let run ← Machine.full.read anything.value "run"
      Machine.full.call run [.absent] []) Store.initial = true := by decide +kernel

end Contract
end delete
end CallContracts
