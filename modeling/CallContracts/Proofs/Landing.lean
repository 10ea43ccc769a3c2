import CallContracts.Proofs.Sparing
/-! Installing a wrapper is all or nothing: a slot of the target changes only when the new wrapper is
written to it, and nothing that comes before can touch the slots. -/
namespace CallContracts
open Act

namespace Wrapper
variable {W W' : Store → Prop} {m : Machine} {target name advice : Value} {size : Nat}

/-- A write of a new object is all or nothing: the slots hold a new object, or they are as they were. -/
def Lands {α : Type} (W W' : Store → Prop) (target : Value) (size : Nat) (x : Act α) : Prop :=
  ∀ t, W t → (∀ a u, x t = .ok a u → W' u ∧ u.Touched target size) ∧
    ∀ e u, x t = .error e u → u.slots target = t.slots target

/-- What is wrapped tells what a wrapper takes over. -/
structure Takes (W : Store → Prop) (m : Machine) (target v : Value) : Prop where
  titles : Spares W target (copiedTitles m v titles)
  table : Spares W target (takenTable m v)

/-- An item is read without being noticed, and what is written in its place lands. -/
structure PutsItem (W W' : Store → Prop) (m : Machine) (target name : Value) (size : Nat) : Prop where
  read : Spares W target (Item.get m target name)
  takes : ∀ v, MayGive W (Item.get m target name) v → Takes W m target v
  write : ∀ r, size ≤ r → Lands W W' target size (Item.put m target name (.ref r))

/-- What a member that is wrapped may be, or may hold: what is read from the target, what its class
holds, and the wrapper itself. -/
inductive Candidate (W : Store → Prop) (m : Machine) (target name : Value) : Value → Prop where
  | member {v : Value} : MayGive W (getAttribute m target name) v → Candidate W m target name v
  | read {n : String} {v : Value} : MayGive W (m.read target n) v → Candidate W m target name v
  | stored {t : Store} {c : ClassId} {n : String} {v : Value} :
      W t → storedMember t c n = some v → Candidate W m target name v
  | inside {t : Store} {v f : Value} : Candidate W m target name v → W t →
      t.body? v = some (.staticMethod f) ∨ t.body? v = some (.classMethod f) → Candidate W m target name f
  | made {c : BuiltinClass} {f advice w : Value} : Candidate W m target name f →
      MayGive W (make m c f advice []) w → Candidate W m target name w

/-- A member is read without being noticed, and what is written in its place lands. -/
structure PutsMember (W W' : Store → Prop) (m : Machine) (target name : Value) (size : Nat) : Prop where
  kind : Spares W target (isKind m target .type)
  member : Spares W target (getAttribute m target name)
  read : ∀ n, Spares W target (m.read target n)
  key : Spares W target (checkKey m name)
  kinds : ∀ v c, Candidate W m target name v → Spares W target (isKind m v c)
  takes : ∀ v, Candidate W m target name v → Takes W m target v
  write : ∀ n r, size ≤ r → Lands W W' target size (m.write target n (.ref r))

/-- An installation asks without being noticed, and what it writes lands. -/
structure Installs (W W' : Store → Prop) (m : Machine) (target name : Value) (size : Nat) : Prop where
  mapping : Spares W target (isMapping m target)
  item : MayGive W (isMapping m target) true → PutsItem W W' m target name size
  member : MayGive W (isMapping m target) false → PutsMember W W' m target name size

section lands
variable {α β : Type} {x : Act α} {f : α → Act β}

theorem lands_fail (q : Fault) : Lands W W' target size (fail q : Act α) :=
  fun _ _ => ⟨fun _ _ he => by simp at he,fun _ _ he => by cases he; rfl⟩

theorem lands_after (hx : Spares W target x) (hf : ∀ a, MayGive W x a → Lands W W' target size (f a)) :
    Lands W W' target size (x >>= f) := by
  intro t ht
  cases h : x t with
  | error e u =>
    refine ⟨?_,?_⟩
    · intro a v hv
      rw [bind_error h] at hv
      cases hv
    · intro e' v hv
      rw [bind_error h] at hv
      cases hv
      exact (hx.error ht h).2
  | ok a u =>
    obtain ⟨hu,hs⟩ := hx.ok ht h
    obtain ⟨hok,herr⟩ := hf a ⟨t,u,ht,h⟩ u hu
    refine ⟨?_,?_⟩
    · intro b v hv
      rw [bind_ok h] at hv
      exact hok b v hv
    · intro e v hv
      rw [bind_ok h] at hv
      exact (herr e v hv).trans hs

theorem lands_get {f : Store → Act β} (hf : ∀ t, W t → Lands W W' target size (f t)) :
    Lands W W' target size (MonadState.get >>= f) := by
  intro t ht
  obtain ⟨hok,herr⟩ := hf t ht t ht
  exact ⟨fun a u hu => hok a u (by rwa [get_bind_apply] at hu),
    fun e u hu => herr e u (by rwa [get_bind_apply] at hu)⟩

theorem lands_return (hx : Lands W W' target size x) (b : β) :
    Lands W W' target size (x >>= fun _ => pure b) := by
  intro t ht
  obtain ⟨hok,herr⟩ := hx t ht
  refine ⟨?_,?_⟩
  · intro a u hu
    obtain ⟨c,v,hv,he⟩ := bind_eq_ok.mp hu
    obtain ⟨-,rfl⟩ : b = a ∧ v = u := by simpa using he
    exact hok c v hv
  · intro e u hu
    rcases bind_eq_error.mp hu with hu | ⟨c,v,-,he⟩
    · exact herr e u hu
    · cases he

end lands

section make
variable (hW : Watched W target size) {c : BuiltinClass} {v : Value} (hv : Takes W m target v)
include hW hv

theorem spares_make : Spares W target (make m c v advice []) := by
  refine hv.titles.bind fun copied _ => hv.table.bind fun taken _ => ?_
  exact hW.spares fun t _ => Store.Keeps.alloc t _

/-- What is made is new. -/
theorem new_of_make {w : Value} (hw : MayGive W (make m c v advice []) w) :
    ∃ r, w = .ref r ∧ size ≤ r := by
  obtain ⟨t,u,ht,hw⟩ := hw
  rw [make,bind_eq_ok] at hw
  obtain ⟨copied,t₁,h₁,hw⟩ := hw
  have hW₁ := (hv.titles.ok ht h₁).1
  rw [bind_eq_ok] at hw
  obtain ⟨taken,t₂,h₂,hw⟩ := hw
  have hW₂ := (hv.table.ok hW₁ h₂).1
  obtain ⟨rfl,-⟩ : Value.ref t₂.heap.size = w ∧ _ := by simpa using hw
  exact ⟨_,rfl,hW.size t₂ hW₂⟩

/-- A member is wrapped and the wrapper written. -/
theorem lands_wrapped {write : Value → Act Unit}
    (hw : ∀ r, size ≤ r → Lands W W' target size (write (.ref r))) :
    Lands W W' target size (do
      let w ← make m c v advice []
      write w
      return w) := by
  refine lands_after (spares_make hW hv) fun w hm => ?_
  obtain ⟨r,rfl,hr⟩ := new_of_make hW hv hm
  exact lands_return (hw r hr) _

/-- A wrapper that stays static is held by a static method, which is new as well. -/
theorem lands_static {n : String} (hmade : ∀ w, MayGive W (make m .wrapper v advice []) w → Takes W m target w)
    (hw : ∀ r, size ≤ r → Lands W W' target size (m.write target n (.ref r))) :
    Lands W W' target size (do
      let w ← around m v advice
      m.write target n (← staticMethod m w)
      return w) := by
  refine lands_after (spares_make hW hv) fun w hm => ?_
  have hread := (hmade w hm).titles
  refine lands_after (hread.bind fun copied _ => hW.spares fun t _ => Store.Keeps.alloc t _) ?_
  rintro x ⟨t,u,ht,hx⟩
  rw [staticMethod,holding,bind_eq_ok] at hx
  obtain ⟨copied,t₁,h₁,hx⟩ := hx
  have hW₁ := (hread.ok ht h₁).1
  obtain ⟨rfl,-⟩ : Value.ref t₁.heap.size = x ∧ _ := by simpa using hx
  exact lands_return (hw _ (hW.size t₁ hW₁)) w

end make

section member
variable {n : String} (hW : Watched W target size) (h : PutsMember W W' m target name size)
include hW h

theorem lands_wrappedMember {k : BuiltinClass} (hv : Candidate W m target name v) :
    Lands W W' target size (make m k v advice [] >>= fun w => do
      m.write target n w
      return w) :=
  lands_wrapped hW (h.takes v hv) fun r hr => h.write n r hr

theorem lands_wrapRaw {raw : Value} (hc : Candidate W m target name raw) :
    Lands W W' target size (wrapRaw m target raw n advice) := by
  refine lands_after (h.kinds raw .classWrapper hc) fun b _ => ?_
  cases b with
  | true => exact lands_wrappedMember hW h hc
  | false =>
    have later : Spares W target (bindsLater m raw) := by
      refine (h.kinds raw .function hc).bind fun b _ => ?_
      cases b with
      | true => exact spares_pure _
      | false => exact h.kinds raw .wrapper hc
    refine lands_after later fun b _ => ?_
    cases b with
    | true => exact lands_wrappedMember hW h hc
    | false => exact lands_after (h.read n) fun v hv => lands_wrappedMember hW h (.read hv)

/-- On a class the member is wrapped as the class holds it. -/
theorem lands_wrapMember {c : ClassId} : Lands W W' target size (wrapMember m target c n advice) := by
  refine lands_get fun t ht => lands_after (spares_ofOption _ _) fun raw hraw => lands_get fun u hu => ?_
  have hc : Candidate W m target name raw := by
    obtain ⟨v,w,-,he⟩ := hraw
    cases hs : storedMember t c n with
    | none => simp [hs] at he
    | some x =>
      obtain ⟨rfl,-⟩ : x = raw ∧ v = w := by simpa [hs] using he
      exact .stored ht hs
  cases hb : u.body? raw with
  | none => exact lands_wrapRaw hW h hc
  | some body =>
    cases body with
    | staticMethod f =>
      have hf : Candidate W m target name f := .inside hc hu (Or.inl hb)
      exact lands_static hW (h.takes f hf) (fun w hw => h.takes w (.made hf hw)) fun r hr => h.write n r hr
    | classMethod f => exact lands_wrappedMember hW h (.inside hc hu (Or.inr hb))
    | _ => exact lands_wrapRaw hW h hc

end member

/-- An installation is all or nothing. -/
theorem lands_install (hW : Watched W target size) (h : Installs W W' m target name size) :
    Lands W W' target size (install m target name advice) := by
  refine lands_after h.mapping fun b hb => ?_
  cases b with
  | true =>
    have hi := h.item hb
    exact lands_after hi.read fun v hv => lands_wrapped hW (hi.takes v hv) hi.write
  | false =>
    have ho := h.member hb
    have plain : Lands W W' target size (do
        let v ← getAttribute m target name
        let w ← around m v advice
        setAttribute m target name w
        return w) := by
      refine lands_after ho.member fun v hv => lands_wrapped hW (ho.takes v (.member hv)) ?_
      intro r hr
      exact lands_get fun t _ => lands_after (spares_ofOption _ _) fun n _ => ho.write n r hr
    refine lands_get fun t ht => lands_after ho.kind fun b _ => ?_
    cases b with
    | false => cases t.class? target <;> exact plain
    | true =>
      cases t.class? target with
      | none => exact lands_fail _
      | some c =>
        refine lands_get fun u _ => ?_
        cases u.text? name with
        | some n => exact lands_wrapMember hW ho
        | none => exact lands_after ho.key fun _ _ => lands_fail _

end Wrapper

namespace Store
variable {s t : Store} {v : Value} {n : String} {r q : Ref} {size : Nat} {o : Obj}

theorem touched_of_attr (h : s.attr? v n = some (.ref r)) (hr : size ≤ r) : s.Touched v size := by
  obtain ⟨f,hf,hn⟩ := Option.bind_eq_some_iff.mp h
  refine ⟨(.str n,.ref r),?_,r,rfl,hr⟩
  have hm : (Value.str n,Value.ref r) ∈ fieldEntries f := List.mem_map.mpr ⟨_,Fields.mem_of_get? hn,rfl⟩
  simp [slots,hf,hm]

theorem touched_of_slot (ho : s.obj? v = some o) (h : o.slots.get? n = some (.ref r)) (hr : size ≤ r) :
    s.Touched v size := by
  refine ⟨(.str n,.ref r),?_,r,rfl,hr⟩
  have hm : (Value.str n,Value.ref r) ∈ fieldEntries o.slots := List.mem_map.mpr ⟨_,Fields.mem_of_get? h,rfl⟩
  simp [slots,ho,hm]

theorem touched_of_entry {es : List (Value × Value)} {k : Value} (h : s.entries? v = some es)
    (hk : (k,.ref r) ∈ es) (hr : size ≤ r) : s.Touched v size :=
  ⟨(k,.ref r),by simp [slots,h,hk],r,rfl,hr⟩

/-- Nobody has a say when an attribute of an instance is written. -/
structure Unruled (s : Store) (v : Value) (n : String) : Prop where
  setattr : s.override? (s.classOf v) "__setattr__" = none
  contract : s.isA v .contract = false
  frozen : s.isFrozen v n = false
  settings : s.isA v .settings = false

/-- What is not there is no property. -/
@[simp] theorem isDataMember_absent (s : Store) : s.isDataMember .absent = false := by
  have hA : s.isA .absent .property = false := by
    rw [isA_builtin (b := .absent) rfl]
    decide
  simp [isDataMember,hA,classOf]

end Store

namespace Wrapper
variable {W W' : Store → Prop} {M : Machine} {n : String} {size : Nat} {r q : Ref} {x : Value}

/-- Writing to the own attributes lands. -/
theorem lands_putOwn (hown : ∀ t, W t → ∃ o, t.get? r = some o ∧ o.table = none ∧ o.attrs.isSome)
    (hstep : ∀ t, W t → W' (t.putAttr r n (.ref q))) (hq : size ≤ q) :
    Lands W W' (.ref r) size (putOwn (.ref r) n (.ref q)) := by
  intro t ht
  obtain ⟨o,ho,htable,hattrs⟩ := hown t ht
  obtain ⟨f,hf⟩ := Option.isSome_iff_exists.mp hattrs
  have hput : putOwn (.ref r) n (.ref q) t = .ok () (t.putAttr r n (.ref q)) := by
    simp [putOwn,Store.attrs?,Store.obj?,ho,htable,hf]
  have hattr : (t.putAttr r n (.ref q)).attr? (.ref r) n = some (.ref q) := by
    simp [Store.putAttr,Store.updateAttrs,Store.attr?,Store.attrs?,Store.obj?,Store.get?_update_self,ho,
      htable,hf,Store.attrsOf]
  refine ⟨?_,?_⟩
  · intro a u hu
    obtain rfl : t.putAttr r n (.ref q) = u := by simpa [hput] using hu
    exact ⟨hstep t ht,Store.touched_of_attr hattr hq⟩
  · intro e u hu
    rw [hput] at hu
    cases hu

/-- Writing to a storage place lands. -/
theorem lands_putSlot (hobj : ∀ t, W t → (t.get? r).isSome)
    (hstep : ∀ t, W t → W' ((t.loosen r).update r fun o => { o with slots := o.slots.put n (.ref q) }))
    (hq : size ≤ q) : Lands W W' (.ref r) size (putSlot (.ref r) n (.ref q)) := by
  intro t ht
  obtain ⟨o,ho⟩ := Option.isSome_iff_exists.mp (hobj t ht)
  have hslot : ((t.loosen r).update r fun o => { o with slots := o.slots.put n (.ref q) }).obj? (.ref r)
      = some { Store.loosened o with slots := (Store.loosened o).slots.put n (.ref q) } := by
    simp [Store.loosen,Store.obj?,Store.get?_update_self,ho]
  refine ⟨?_,fun e u hu => by cases hu⟩
  intro a u hu
  obtain rfl : ((t.loosen r).update r fun o => { o with slots := o.slots.put n (.ref q) }) = u := by
    cases hu
    rfl
  exact ⟨hstep t ht,Store.touched_of_slot hslot (Fields.get?_put_self _ _ _) hq⟩

/-- An attribute that no member of the class comes before is written to the instance itself. -/
theorem write_own {t : Store} (h : t.Unruled (.ref r) n) (hc : t.class? (.ref r) = none)
    (hm : ∀ x, t.classMember? (t.classOf (.ref r)) n = some x → t.isDataMember x = false) :
    M.next.write (.ref r) n x t = putOwn (.ref r) n x t := by
  change writeAttribute M (.ref r) n x t = _
  have hinstance : writeInstance M (.ref r) n x t = putOwn (.ref r) n x t := by
    simp only [writeInstance,get_bind_apply]
    cases hx : t.classMember? (t.classOf (.ref r)) n with
    | none => rfl
    | some y => simp [hm y hx]
  simp only [writeAttribute,writeNative,get_bind_apply,h.setattr,hc,h.contract,h.frozen,h.settings,
    Bool.false_and,Bool.false_eq_true,if_false]
  exact hinstance

/-- A storage place that the class of an instance adds. -/
theorem write_storage {t : Store} {owner : Ref} {k : String} (h : t.Unruled (.ref r) n)
    (hc : t.class? (.ref r) = none)
    (hm : t.classMember? (t.classOf (.ref r)) n = some (.operation (.placeOf owner k .storage)))
    (hfrom : t.comesFrom (t.classOf (.ref r)) (.defined owner)) :
    M.next.write (.ref r) n x t = putSlot (.ref r) k x t := by
  change writeAttribute M (.ref r) n x t = _
  have hdata : t.isDataMember (.operation (.placeOf owner k .storage)) = true := rfl
  simp only [writeAttribute,writeNative,get_bind_apply,h.setattr,hc,h.contract,h.frozen,h.settings,
    Bool.false_and,Bool.false_eq_true,if_false,writeInstance,hm,hdata,if_true,writeMember,writePlace,
    hfrom,Bool.not_true]

/-- A member of a class that its own class says nothing about. -/
theorem write_class {t : Store} {info : ClassInfo}
    (hset : t.override? (t.classOf (.ref r)) "__setattr__" = none) (hc : t.classInfo? r = some info)
    (habove : t.override? (t.classOf (.ref r)) n = none)
    (hn : n ∉ "__name__" :: "__qualname__" :: "__class__" :: "__bases__" :: fixedTitles) :
    M.next.write (.ref r) n x t = putOwn (.ref r) n x t := by
  change writeAttribute M (.ref r) n x t = _
  have hclass : t.class? (.ref r) = some (.defined r) := by simp [Store.class?,hc]
  simp only [List.mem_cons,not_or] at hn
  obtain ⟨h₁,h₂,h₃,h₄,h₅⟩ := hn
  simp only [writeAttribute,writeNative,writeClass,get_bind_apply,hset,hclass,habove,Option.getD_none,
    Option.isSome_none,Store.isDataMember_absent,Bool.false_eq_true,if_false,h₁,h₂,h₃,h₄,h₅]

/-- What a plain table holds under a key is read, wrapped and put back. -/
theorem installs_table {m : Machine} {same : Value → Value → Bool} {d : Ref} {ks : List Value}
    {name v : Value} (hW : ∀ t u, W t → t.Grows u → W u) (hwatch : Watched W (.ref d) size)
    (hf : Table.Files W m same ks name)
    (hd : ∀ t, W t → ∃ es k, t.IsTable d es ∧ es.map Prod.fst = ks ∧
      Table.found? same name es = some (k,v))
    (hv : Tells W m v)
    (hstep : ∀ t es r, W t → t.IsTable d es → W' (t.refill d (Table.refilled same name (.ref r) es))) :
    Installs W W' m (.ref d) name size := by
  have hmapping : Always W (isMapping m (.ref d)) true := fun t ht => by
    obtain ⟨es,k,htable,-⟩ := hd t ht
    exact gives_of_eq (Attachment.isMapping_table htable)
  have hread : Always W (Item.get m (.ref d) name) v := fun t ht => by
    obtain ⟨es,k,htable,hk,he⟩ := hd t ht
    exact Table.gives_item (fun u hu => hW t u ht hu) hf htable hk he
  refine ⟨hwatch.calm hmapping.calm,fun _ => ⟨hwatch.calm hread.calm,?_,?_⟩,?_⟩
  · intro w hw
    rw [hread.eq hw]
    refine ⟨hwatch.calm fun t ht => ?_,hwatch.calm hv.table⟩
    exact calm_copiedTitles fun n hn u hu => hv.titles n hn u (hW t u ht hu)
  · intro r hr t ht
    obtain ⟨es,k,htable,hk,-⟩ := hd t ht
    obtain ⟨u,hu,hput⟩ := Table.put_eq_refill (w := .ref r) (fun u hu => hW t u ht hu) hf htable hk
    have htable' := htable.grows hu
    refine ⟨?_,fun e z hz => by rw [hput] at hz; cases hz⟩
    intro a z hz
    obtain rfl : u.refill d (Table.refilled same name (.ref r) es) = z := by simpa [hput] using hz
    obtain ⟨x,hx⟩ := Table.mem_refilled same name (.ref r) es
    have hentries := Store.entries?_of_table (htable'.refill (Table.refilled same name (.ref r) es)).2.body
    exact ⟨hstep u es r (hW t u ht hu) htable',Store.touched_of_entry hentries hx hr⟩
  · intro hno
    cases hmapping.eq hno

end Wrapper
end CallContracts
