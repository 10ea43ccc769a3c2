import Mathlib.Data.List.Nodup
import CallContracts.Proofs.ClassTarget
import CallContracts.Proofs.Legible
import CallContracts.Proofs.Slot
/-! What wrapping a member changes.  The wrapper is written to the slot of the member, and the objects that are made on
the way are new ones; all the rest is what it was, and lookups that do not come by the slot find what they found. -/
namespace CallContracts
open Act

namespace Store
variable {s u : Store} {r : Ref}

theorem Governed.holds (h : s.Governed r) : s.Holds .all (.ref r) := by
  obtain ⟨info,hinfo⟩ := h.info
  exact holds_all_of_body (body_of_classInfo? hinfo)

theorem Governed.grows (h : s.Governed r) (hg : s.Grows u) : u.Governed r := by
  obtain ⟨info,hinfo⟩ := h.info
  have hr := h.holds
  have hcls : u.classOf (.ref r) = s.classOf (.ref r) := hg.classOf hr
  refine ⟨⟨info,by rw [hg.classInfo? hr,hinfo]⟩,?_,?_,fun k hk => ?_⟩
  all_goals rw [hcls]
  · exact h.above.keep hg fun _ _ => trivial
  · rw [h.above.line_eq hg fun _ _ => trivial]
    exact h.type
  · rw [h.above.override?_grows hg (by rintro rfl; simp at hk)]
    exact h.rules k hk

/-- An object that is no class and no mapping, and whose attributes are written as the language says. -/
structure Loose (s : Store) (r : Ref) : Prop where
  plain : s.class? (.ref r) = none
  rules : ∀ k ∈ ["__class__","__getattribute__","__setattr__"], s.override? (s.classOf (.ref r)) k = none
  kind : ∀ b ∈ guarded, .builtin b ∉ s.line (s.classOf (.ref r))
  inert : ∀ o, s.get? r = some o → ¬ Frame.callables.holds r o.cls

namespace Loose

theorem spoofs (h : s.Loose r) : s.spoofs (s.classOf (.ref r)) = false := by
  simp [Store.spoofs,Store.overrides,h.rules "__class__" (by simp),h.rules "__getattribute__" (by simp)]

theorem isMapping {m : Machine} (h : s.Loose r) : isMapping m (.ref r) s = .ok false s := by
  rw [CallContracts.isMapping,isKind,isInstance_native h.spoofs,(isSubclass_guarded h.kind).1]

theorem isType {m : Machine} (h : s.Loose r) : isKind m (.ref r) .type s = .ok false s := by
  rw [isKind,isInstance_native h.spoofs,(isSubclass_guarded h.kind).2]

theorem unruled (h : s.Loose r) (n : String) : s.Unruled (.ref r) n :=
  unruled_guarded (h.rules "__setattr__" (by simp)) h.kind n

theorem grows (h : s.Loose r) (hs : s.Rooted) (hr : s.Holds .all (.ref r)) (hg : s.Grows u) : u.Loose r := by
  have hcls : u.classOf (.ref r) = s.classOf (.ref r) := hg.classOf hr
  refine ⟨by rw [hg.class? hr,h.plain],fun k hk => ?_,?_,fun o ho => ?_⟩
  · rw [hcls,(hs.lined r).override?_grows hg (by rintro rfl; simp at hk)]
    exact h.rules k hk
  · rw [hcls,(hs.lined r).line_eq hg fun _ _ => trivial]
    exact h.kind
  · obtain ⟨o',ho',-⟩ := hr r rfl
    rw [← classOf_of_get? ho,hcls,classOf_of_get? ho']
    exact h.inert o' ho'

end Loose

end Store

namespace Table
variable {same : Value → Value → Bool} {k n v w : Value} {es : List (Value × Value)}

/-- Putting rewrites one entry. -/
theorem refilled_eq_set (h : found? same n es = some (k,v)) :
    ∃ i : Nat, es[i]? = some (k,v) ∧ refilled same n w es = es.set i (k,w) := by
  rw [found?_eq] at h
  obtain ⟨i,hi,he⟩ := Option.bind_eq_some_iff.mp h
  refine ⟨i,he,List.ext_getElem? fun j => ?_⟩
  rw [getElem?_refilled hi,List.getElem?_set]
  by_cases hj : j = i
  · subst hj
    obtain ⟨hlt,he⟩ := List.getElem?_eq_some_iff.mp he
    simp [he,hlt]
  · simp [hj,Ne.symm hj]

end Table

namespace Wrapper
open Attachment (Askable isMapping_table)
variable {M m : Machine} {s t u z : Store} {r q : Ref} {n k : String} {a v w x p owner name : Value} {b : BuiltinClass}
  {l : Layers} {es : List (Value × Value)}

/-- What reading `k` from `v` comes to in the store `z` if the lookup finds what it finds in `s`: a value as it stands, or
what a member gives that is bound, which goes through the advices that it has in `s` to the function that it has there. -/
structure ReadsAs (M : Machine) (s : Store) (v : Value) (k : String) (z : Store) : Prop where
  value : ∀ y, (s.lookup v k).way = .value y → M.next.read v k z = .ok y z
  bound : ∀ x l, (s.lookup v k).way = .member x (some v) (s.classOf v).value → s.Stored l x → l.Direct →
    ((Machine.next^[2 * l.advices.length + 2] M).read v k).Quiet
      (fun c u => u.Routed l.original (l.receives.values v (s.classOf v).value) c l.advices) z
  unbound : ∀ x l, (s.lookup v k).way = .member x none v → s.Stored l x → l.Direct →
    ((Machine.next^[2 * l.advices.length + 2] M).read v k).Quiet (fun c u => u.ReadFrom v l c) z

section found
variable (hrule : (s.lookup v k).rule = none) (hk : s.class? v = none ∨ k ∉ Store.classTitles)
include hrule hk

/-- Functions, static and class methods answer so, wrapped or not. -/
theorem readsAs_lookup (hv : v ≠ .absent) : ReadsAs M s v k s := by
  refine ⟨fun y hway => ?_,fun x l hway hx hd => ?_,fun x l hway hx hd => ?_⟩
  · rcases read_way hrule hk M with h | ⟨e,u,h,-⟩
    · rw [h,hway]
      rfl
    · rw [hway] at h
      cases h
  · have ho : (s.classOf v).value ≠ .absent := by cases s.classOf v <;> simp [ClassId.value]
    have hbind := quiet_bindStored (M := M) hx hd hv ho
    rw [Function.iterate_succ_apply'] at hbind ⊢
    have hread := read_way hrule hk (Machine.next^[2 * l.advices.length + 1] M)
    rw [hway] at hread
    obtain ⟨r,-,-,rfl,-⟩ := hx.place
    exact quiet_of_or hbind hread
  · have hbind := quiet_readStored (M := M) hx hd hv
    rw [Function.iterate_succ_apply'] at hbind ⊢
    have hread := read_way hrule hk (Machine.next^[2 * l.advices.length + 1] M)
    rw [hway] at hread
    exact quiet_of_or hbind hread

end found

/-- The same is answered where the lookup finds the same, as long as callables are what they were. -/
theorem ReadsAs.of_lookup (hz : s.Keeps .callables z) (hway : z.lookup v k = s.lookup v k) (hc : z.classOf v = s.classOf v)
    (h : ReadsAs M z v k z) : ReadsAs M s v k z := by
  obtain ⟨h₁,h₂,h₃⟩ := h
  rw [hway] at h₁ h₂ h₃
  rw [hc] at h₂
  exact ⟨h₁,fun x l hx hs => h₂ x l hx (hs.keep hz),fun x l hx hs => h₃ x l hx (hs.keep hz)⟩

/-- What is written to the own attributes fills a slot. -/
theorem puts_of_putOwn (hq : s.seat (.ref r) = some q) (h : putOwn (.ref r) n x s = .ok () t) : s.Puts n x r q t := by
  obtain ⟨o,ho,rfl⟩ := Option.map_eq_some_iff.mp hq
  simp only [putOwn,get_bind_apply] at h
  cases hattrs : s.attrs? (.ref r) with
  | none => simp [hattrs] at h
  | some fields =>
    obtain rfl : s.putAttr r n x = t := by simpa [hattrs] using h
    simp only [Store.putAttr,Store.updateAttrs,ho,Option.bind_some]
    cases htable : o.table with
    | none => exact .own ho htable
    | some d => exact .shown ho htable

/-- A wrapper or a static method cannot stand for a text, a class or classes. -/
structure Inept (s : Store) (x : Value) : Prop where
  text : s.text? x = none
  cls : s.class? x = none
  bases : ∀ b, s.body? x ≠ some (.tuple [b])

theorem inept_of_wraps (h : s.Wraps b w p a) : Inept s w := by
  obtain ⟨r,rfl⟩ := Store.ref_of_body h.body?
  exact ⟨Store.text?_of_body h.body? (by simp),by simp [Store.class?,Store.classInfo?_eq,h.body?],by simp [h.body?]⟩

theorem inept_of_static (h : s.IsStatic x w) : Inept s x := by
  obtain ⟨r,rfl⟩ := Store.ref_of_body h.body
  exact ⟨Store.text?_of_body h.body (by simp),by simp [Store.class?,Store.classInfo?_eq,h.body],by simp [h.body]⟩

/-- What can be written to a class at all becomes its own. -/
theorem putOwn_of_writeClass (hs : s.Governed r) (hx : Inept s x)
    (hdata : ∀ y, s.override? (s.classOf (.ref r)) n = some y → s.isDataMember y = false)
    (h : M.next.write (.ref r) n x s = .ok () t) : putOwn (.ref r) n x s = .ok () t := by
  obtain ⟨info,hinfo⟩ := hs.info
  cases habove : s.override? (s.classOf (.ref r)) n with
  | none =>
    by_cases hn : n ∈ "__name__" :: "__qualname__" :: "__class__" :: "__bases__" :: fixedTitles
    · have hwrite : M.next.write (.ref r) n x s = writeClass M (.ref r) (.defined r) n x s := by
        change writeAttribute M (.ref r) n x s = _
        simp [writeAttribute,writeNative,hs.rules "__setattr__" (by simp),hs.class?]
      rw [hwrite] at h
      simp only [writeClass,get_bind_apply,habove,Option.getD_none,Store.isDataMember_absent,
        Option.isSome_none,Bool.false_eq_true,if_false] at h
      simp only [List.mem_cons,fixedTitles,List.not_mem_nil,or_false] at hn
      rcases hn with rfl | rfl | rfl | rfl | hn
      · simp [hx.text,bind_apply] at h
      · simp [hx.text,bind_apply] at h
      · simp [setClass,hx.cls,bind_apply] at h
      · have hbases : setBase M r x s = (iterate M x >>= fun _ => refuse .typeError) s := by
          simp only [setBase,get_bind_apply]
          cases hb : s.body? x with
          | none => rfl
          | some body =>
            cases body with
            | tuple xs =>
              rcases xs with _ | ⟨b,_ | ⟨_,_⟩⟩
              · rfl
              · exact absurd hb (hx.bases b)
              · rfl
            | _ => rfl
        simp only [String.reduceEq,if_false,if_true,hbases] at h
        obtain ⟨_,_,-,h⟩ := bind_eq_ok.mp h
        cases h
      · rcases hn with rfl | rfl | rfl | rfl | rfl | rfl | rfl | rfl | rfl <;> simp [fixedTitles] at h
    · rwa [write_class (hs.rules "__setattr__" (by simp)) hinfo habove hn] at h
  | some y =>
    have hwrite : M.next.write (.ref r) n x s = putOwn (.ref r) n x s := by
      change writeAttribute M (.ref r) n x s = _
      simp [writeAttribute,writeNative,writeClass,hs.rules "__setattr__" (by simp),hs.class?,habove,hdata y habove]
    rwa [hwrite] at h

/-- A slot that can be wrapped: an entry of a plain table, a member of a class that leaves it to the language how it is
written to, or an attribute of another object that no property of its class comes before.  Looking at what is there
changes nothing. -/
inductive Slot (m : Machine) (s : Store) (r : Ref) (n : String) : Ref → Value → Prop where
  | entry {es : List (Value × Value)} {same : Value → Value → Bool} {name k f : Value} : s.IsTable r es →
      Table.Files (s.Grows ·) m same (es.map Prod.fst) name → Table.found? same name es = some (k,f) →
      (∀ j, k = .str j → j = n) → Yielding (s.Grows ·) m f → Slot m s r n r name
  | member {q : Ref} {x : Value} : s.Governed r → s.seat (.ref r) = some q → n ≠ "__annotations__" →
      (∀ y, s.override? (s.classOf (.ref r)) n = some y → s.isDataMember y = false) →
      storedMember s (.defined r) n = some x → Askable m s x → Leaves (s.Grows ·) (m.read (.ref r) n) →
      (∀ t p u, s.Grows t → m.read (.ref r) n t = .ok p u → Yielding (u.Grows ·) m p) → Slot m s r n q (.str n)
  | own {q : Ref} : s.Loose r → s.seat (.ref r) = some q → n ≠ "__annotations__" →
      (∀ y, s.classMember? (s.classOf (.ref r)) n = some y → s.isDataMember y = false) →
      Leaves (s.Grows ·) (m.read (.ref r) n) →
      (∀ t p u, s.Grows t → m.read (.ref r) n t = .ok p u → Yielding (u.Grows ·) m p) → Slot m s r n q (.str n)

/-- In the store a slot was filled with a wrapper around something, or with a static method of it, and nothing else was
done since the first one than making new objects. -/
def Filled (s : Store) (r q : Ref) (n : String) (a w : Value) (t : Store) : Prop :=
  ∃ u x b p, s.Grows u ∧ u.Puts n x r q t ∧ u.Wraps b w p a ∧ (x = w ∨ u.IsStatic x w)

/-- An entry is written to the table. -/
theorem filled_entry {same : Value → Value → Bool} {key f : Value} (hd : s.IsTable r es)
    (hf : Table.Files (s.Grows ·) m same (es.map Prod.fst) name) (he : Table.found? same name es = some (key,f))
    (hkey : ∀ j, key = .str j → j = n) (hp : Yielding (s.Grows ·) m f)
    (h : install m (.ref r) name a s = .ok w t) : Filled s r r n a w t := by
  have hlasting : Lasting (s.Grows ·) := fun _ _ ht hu => ht.trans hu
  obtain ⟨u,hu,hgu⟩ := Table.gives_item (fun _ ht => ht) hf hd rfl he
  rw [install,bind_ok (isMapping_table hd)] at h
  simp only [if_true] at h
  rw [bind_ok hu] at h
  obtain ⟨w',z,hw,h⟩ := bind_eq_ok.mp h
  have hgz := hgu.trans ((leaves_make hlasting hp []).ok hgu hw)
  obtain ⟨y,hgy,hput⟩ := Table.put_eq_refill (w := w') (fun _ ht => hgz.trans ht) hf (hd.grows hgz) rfl
  rw [bind_ok hput] at h
  obtain ⟨rfl,rfl⟩ : w' = w ∧ _ = t := by simpa using h
  obtain ⟨i,hi,hset⟩ := Table.refilled_eq_set (w := w') he
  refine ⟨y,w',.wrapper,f,hgz.trans hgy,?_,(wraps_of_make (Or.inl rfl) hw).grows hgy,Or.inl rfl⟩
  rw [hset]
  exact .entry (hd.grows (hgz.trans hgy)) hi hkey

/-- A member is written to the class. -/
theorem filled_member (hs : s.Rooted) (hr : s.Governed r) (hq : s.seat (.ref r) = some q) (hn : n ≠ "__annotations__")
    (hdata : ∀ y, s.override? (s.classOf (.ref r)) n = some y → s.isDataMember y = false)
    (hx : storedMember s (.defined r) n = some x) (hask : Askable M.next.next s x)
    (hread : Leaves (s.Grows ·) (M.next.next.read (.ref r) n))
    (htold : ∀ t p u, s.Grows t → M.next.next.read (.ref r) n t = .ok p u → Yielding (u.Grows ·) M.next.next p)
    (h : install M.next.next (.ref r) (.str n) a s = .ok w t) : Filled s r q n a w t := by
  rw [install_wrapMember hr] at h
  rcases wrapMember_writes (a := a) hask.yields hask.kind hask.later hread htold hx with
    ⟨e,z,heq,-⟩ | ⟨b,p,y,w',z,hz,hmade,hy,-,heq⟩
  · rw [heq] at h
    cases h
  · rw [heq] at h
    obtain ⟨_,t',hwrite,h⟩ := bind_eq_ok.mp h
    obtain ⟨rfl,rfl⟩ : w' = w ∧ t' = t := by simpa using h
    have hall := hr.holds
    have hwraps := hmade.wraps
    have hinept : Inept z y := hy.elim (fun hy => hy ▸ inept_of_wraps hwraps) inept_of_static
    have hdata' : ∀ y, z.override? (z.classOf (.ref r)) n = some y → z.isDataMember y = false := by
      intro y hy
      rw [hz.classOf hall,hr.above.override?_grows hz hn] at hy
      rw [hs.isDataMember hz (hs.holds_member (k := n) (Or.inr hy))]
      exact hdata y hy
    have hput := putOwn_of_writeClass (hr.grows hz) hinept hdata' hwrite
    exact ⟨z,y,b,p,hz,puts_of_putOwn ((hz.seat hall).trans hq) hput,hwraps,hy⟩

/-- An attribute is written to the object. -/
theorem filled_attribute (hs : s.Rooted) (hr : s.Loose r) (hq : s.seat (.ref r) = some q) (hn : n ≠ "__annotations__")
    (hdata : ∀ y, s.classMember? (s.classOf (.ref r)) n = some y → s.isDataMember y = false)
    (hread : Leaves (s.Grows ·) (m.next.read (.ref r) n))
    (htold : ∀ t p u, s.Grows t → m.next.read (.ref r) n t = .ok p u → Yielding (u.Grows ·) m.next p)
    (h : install m.next (.ref r) (.str n) a s = .ok w t) : Filled s r q n a w t := by
  have hname (z : Store) : attributeName (.str n) z = .ok n z := by simp [attributeName]
  rw [install,bind_ok hr.isMapping] at h
  simp only [Bool.false_eq_true,if_false,get_bind_apply,hr.plain] at h
  rw [bind_ok hr.isType] at h
  simp only [getAttribute,setAttribute,bind_assoc] at h
  rw [bind_ok (hname s)] at h
  obtain ⟨p,u,hp,h⟩ := bind_eq_ok.mp h
  have hself := Store.Keeps.refl .all s
  have hu := hread.ok hself hp
  obtain ⟨w',z,hw,h⟩ := bind_eq_ok.mp h
  have hmake := leaves_make (c := .wrapper) (a := a) (fun _ _ ht hu => ht.trans hu) (htold s p u hself hp) []
  have hz := hu.trans (hmake.ok (Store.Keeps.refl _ u) hw)
  rw [bind_ok (hname z)] at h
  obtain ⟨_,t',hwrite,h⟩ := bind_eq_ok.mp h
  obtain ⟨rfl,rfl⟩ : w' = w ∧ t' = t := by simpa using h
  have hall : s.Holds .all (.ref r) := by
    obtain ⟨o,ho,-⟩ := Option.map_eq_some_iff.mp hq
    exact Store.holds_ref ho trivial
  have hloose := hr.grows hs hall hz
  have hdata' : ∀ y, z.classMember? (z.classOf (.ref r)) n = some y → z.isDataMember y = false := by
    intro y hy
    rw [hz.classOf hall,(hs.lined r).classMember?_grows hz hn] at hy
    rw [hs.isDataMember hz (hs.holds_member (k := n) (Or.inl hy))]
    exact hdata y hy
  rw [write_own (hloose.unruled n) hloose.plain hdata'] at hwrite
  exact ⟨z,w',.wrapper,p,hz,puts_of_putOwn ((hz.seat hall).trans hq) hwrite,wraps_of_make (Or.inl rfl) hw,Or.inl rfl⟩

/-- What is wrapped fills the slot. -/
theorem filled_of_install (hs : s.Rooted) (hslot : Slot M.next.next s r n q name)
    (h : install M.next.next (.ref r) name a s = .ok w t) : Filled s r q n a w t := by
  cases hslot with
  | entry hd hf he hkey hp => exact filled_entry hd hf he hkey hp h
  | member hr hq hn hdata hx hask hread htold => exact filled_member hs hr hq hn hdata hx hask hread htold h
  | own hr hq hn hdata hread htold => exact filled_attribute hs hr hq hn hdata hread htold h

/-- What keeps the slot is no callable. -/
theorem Slot.inert (h : Slot m s r n q name) (hs : s.Rooted) : s.Holds .all (.ref r) ∧
    (n = "__annotations__" → s.classInfo? r = none) ∧ ∃ o, s.get? q = some o ∧ ¬ Frame.callables.holds q o.cls := by
  have seated (hq : s.seat (.ref r) = some q) (hr : ∀ o, s.get? r = some o → ¬ Frame.callables.holds r o.cls) :
      s.Holds .all (.ref r) ∧ ∃ o, s.get? q = some o ∧ ¬ Frame.callables.holds q o.cls := by
    obtain ⟨o,ho,hd⟩ := Option.map_eq_some_iff.mp hq
    refine ⟨Store.holds_ref ho trivial,?_⟩
    cases htable : o.table with
    | none =>
      obtain rfl : r = q := by simpa [htable] using hd
      exact ⟨o,ho,hr o ho⟩
    | some d =>
      obtain rfl : d = q := by simpa [htable] using hd
      obtain ⟨e,es,he,-,hcls⟩ := hs.tables r o d ho htable
      exact ⟨e,he,hcls⟩
  cases h with
  | entry hd _ _ _ _ =>
    obtain ⟨o,ho⟩ : ∃ o, s.get? r = some o := by
      by_contra hnone
      have hbody := hd.body
      simp [Store.body?,Store.obj?,not_exists.mp hnone] at hbody
    refine ⟨Store.holds_ref ho trivial,fun _ => by simp [Store.classInfo?_eq,hd.body],o,ho,?_⟩
    rw [← Store.classOf_of_get? ho,hd.cls]
    simp [Frame.callables]
  | member hr hq hn =>
    obtain ⟨hall,hinert⟩ := seated hq fun o ho => hr.not_callable ho
    exact ⟨hall,fun hname => absurd hname hn,hinert⟩
  | own hr hq hn =>
    obtain ⟨hall,hinert⟩ := seated hq hr.inert
    exact ⟨hall,fun hname => absurd hname hn,hinert⟩

theorem spared_of_filled (hs : s.Rooted) (hslot : Slot m s r n q name) (h : Filled s r q n a w t) : s.Spared t r q n := by
  obtain ⟨hr,hn,hinert⟩ := hslot.inert hs
  obtain ⟨u,x,b,p,hg,hputs,-⟩ := h
  exact Store.spared_of_puts hs hg hputs hr hn hinert

/-- What does not come by the slot is read as before. -/
theorem readsAs_of_spared (h : s.Spared t r q n) (hb : s.Beyond r q n v k) (hv : v ≠ .absent)
    (hk : s.class? v = none ∨ k ∉ Store.classTitles) (hrule : (s.lookup v k).rule = none) : ReadsAs m s v k t := by
  have hlookup := h.lookups v k hb
  obtain ⟨hcls,hclass⟩ := h.classes v hb.there
  refine (readsAs_lookup ?_ ?_ hv).of_lookup h.callables hlookup hcls
  · rw [hlookup,hrule]
  · rwa [hclass]

/-- What wrapping asks about a function, a static or a class method changes nothing, wrapped or not. -/
theorem askable_stored (h : s.Stored l x) : Askable M.next.next s x := by
  have hlasting : Lasting (s.Grows ·) := fun _ _ ht hu => ht.trans hu
  obtain ⟨r,b,body,rfl,hc,hb,-⟩ := h.place
  have hclass (t : Store) (ht : s.Grows t) : t.classOf (.ref r) = .builtin b := by
    rw [ht.classOf (Store.holds_all_of_body hb),hc]
  have kind (d : BuiltinClass) : Leaves (s.Grows ·) (isKind M.next.next (.ref r) d) := fun t ht => by
    rw [after_ok (isKind_builtin (hclass t ht) rfl)]
    exact Store.Keeps.refl _ t
  refine ⟨Tells.yielding hlasting ?_,kind _,(kind .function).bind hlasting fun d _ => ?_⟩
  · cases h with
    | method hr =>
      have hinner : s.inner (.ref r) = .ref r := by
        obtain ⟨hs,g,hf⟩ := hr
        cases hs with
        | original => simp [Store.inner,hf.body]
        | advised hw _ => simp [Store.inner,hw.body?]
      rw [hinner]
      exact told_routed hr M
    | static _ hb hr =>
      simp only [Store.inner,hb]
      exact told_routed hr M
    | ofClass _ hb hf _ _ =>
      simp only [Store.inner,hb]
      exact tells_function fun t ht => hf.grows ht
    | wrapped hr _ =>
      obtain ⟨p,a,hw,-⟩ := hr.own
      simp only [Store.inner,hw.body?]
      exact told_wrapper (by simp) hw M
  · cases d with
    | true => exact leaves_pure _
    | false => exact kind .wrapper

theorem told_readFrom (h : s.ReadFrom owner l v) : Told s v := by
  cases h with
  | plain hf => exact fun N => tells_function fun t ht => hf.grows ht
  | waits _ hw =>
    obtain ⟨p,hw,-⟩ := hw
    exact told_wrapper (by simp) hw
  | routed _ hr => exact told_routed hr

/-- An entry of a table whose keys are texts can be wrapped, if looking at what is there changes nothing. -/
theorem slot_of_texts {f : Value} (hd : s.IsTable r es) (hkeys : ∀ e ∈ es, ∃ j, e.1 = .str j) (hmem : (.str n,f) ∈ es)
    (hn : (es.map Prod.fst).Nodup) (hf : Yielding (s.Grows ·) m f) : Slot m s r n r (.str n) := by
  have hfound : Table.found? (fun k k' => decide (k = k')) (.str n) es = some (.str n,f) := by
    cases he : Table.found? (fun k k' => decide (k = k')) (.str n) es with
    | none => simpa using List.find?_eq_none.mp he _ hmem
    | some e =>
      have hname : e.1 = .str n := by simpa using List.find?_some he
      exact congrArg some (List.inj_on_of_nodup_map hn (List.mem_of_find?_eq_some he) hmem hname)
  refine .entry hd ⟨fun t _ => gives_of_eq (checkKey_str m n t),fun k hk t _ => ?_⟩ hfound (fun j hj => ?_) hf
  · obtain ⟨e,he,rfl⟩ := List.mem_map.mp hk
    obtain ⟨j,hj⟩ := hkeys e he
    refine gives_of_eq ?_
    rw [hj,sameKey_str]
    simp
  · simpa using hj.symm

section hierarchies
variable {L : Ledger} {D : Ref} {H I : Ref → Prop} (hn : n ∉ specialNames) (hF : s.Family n H I) (hL : s.Agrees n H I L)
include hn hF hL

/-- The member of a class of a hierarchy can be wrapped. -/
theorem slot_of_branch (h : s.Branch n H D) (hl : L.found s D = some l) (hd : l.Direct) :
    Slot (Machine.next^[2 * l.advices.length + 2] M) s D n D (.str n) := by
  have hread (t : Store) (ht : s.Grows t) :
      ((Machine.next^[2 * l.advices.length + 2] M).read (.ref D) n).Quiet (fun c u => u.ReadFrom (.ref D) l c) t := by
    refine quiet_readBranch (h.grows hn ht) hn (hF.grows hn ht) (hL.grows hF hn ht) ?_ hd
    rwa [Store.found_keep hF (hF.grows hn ht) (Or.inl (h.closed D (Store.lookup_self s D))) (Store.Keeps.of_grows ht)]
  obtain ⟨o,ho,htable,-⟩ := h.own
  have hhome := hl
  rw [Ledger.found_class (Store.home_branch h)] at hhome
  obtain ⟨x,hx,hstored⟩ := Store.classMember?_of_search h hF hL hhome
  have hask := askable_stored (M := Machine.next^[2 * l.advices.length] M) hstored
  rw [← iterate_two] at hask
  refine .member h.governed (by simp [Store.seat,ho,htable]) (fun hname => hn (by simp [hname,specialNames]))
    (fun y hy => ?_) (x := x) (by simp [storedMember,hx]) hask (fun t ht => ?_) fun t p u ht hp => ?_
  · rw [h.rules n (by simp)] at hy
    cases hy
  · obtain ⟨c,u,hu,hg,-⟩ := hread t ht
    rwa [after_ok hu]
  · obtain ⟨c,u',hu,-,hc⟩ := hread t ht
    cases hu.symm.trans hp
    have htold := told_readFrom hc (Machine.next^[2 * l.advices.length] M)
    rw [← iterate_two] at htold
    exact htold.yielding fun _ _ ht hu => ht.trans hu

/-- So can that of an instance, which gets an attribute of its own. -/
theorem slot_of_leaf (h : s.Leaf H r D) (hI : I r) (hopen : s.Open r D) (hl : L.found s r = some l)
    (hd : L r = none → l.Direct) : Slot (Machine.next^[2 * l.advices.length + 2] M) s r n r (.str n) := by
  have hD := hF.classes D h.member
  have hread (t : Store) (ht : s.Grows t) : ((Machine.next^[2 * l.advices.length + 2] M).read (.ref r) n).Quiet
      (fun c u => u.Routed l.original (l.receives.values (.ref r) (.ref D)) c l.advices) t := by
    refine quiet_readLeaf (h.keep hD hn (Store.Keeps.of_grows ht)) hI (hF.grows hn ht) (hL.grows hF hn ht) ?_ hd
    rwa [Store.found_keep hF (hF.grows hn ht) (Or.inr hI) (Store.Keeps.of_grows ht)]
  obtain ⟨o,ho,htable⟩ := h.own
  have hloose : s.Loose r := by
    refine ⟨h.plain,fun k hk => ?_,by rw [h.cls]; exact hopen.kind,fun o ho => ?_⟩
    · rw [h.cls]
      simp only [List.mem_cons,List.not_mem_nil,or_false] at hk
      rcases hk with rfl | rfl | rfl
      · exact hopen.rules _ (by simp)
      · exact h.reads
      · exact hopen.rules _ (by simp)
    · rw [← Store.classOf_of_get? ho,h.cls]
      simp [Frame.callables]
  refine .own hloose (by simp [Store.seat,ho,htable]) (fun hname => hn (by simp [hname,specialNames])) (fun y hy => ?_)
    (fun t ht => ?_) fun t p u ht hp => ?_
  · rw [Ledger.found,Store.home_leaf h,Option.map_eq_some_iff] at hl
    obtain ⟨e,he,-⟩ := hl
    obtain ⟨x,hx,hstored⟩ := Store.classMember?_of_search hD hF hL he
    rw [h.cls,hx] at hy
    obtain rfl : x = y := by simpa using hy
    exact hstored.isDataMember
  · obtain ⟨c,u,hu,hg,-⟩ := hread t ht
    rwa [after_ok hu]
  · obtain ⟨c,u',hu,-,hc⟩ := hread t ht
    cases hu.symm.trans hp
    have htold := told_routed hc (Machine.next^[2 * l.advices.length] M)
    rw [← iterate_two] at htold
    exact htold.yielding fun _ _ ht hu => ht.trans hu

/-- In a hierarchy wrapping the member of a class or of an instance succeeds, and changes no other slot. -/
theorem install_spares (hs : s.Rooted) (hr : s.Wrappable H I r) (hl : L.found s r = some l) (hd : l.Direct) (a : Value) :
    ∃ w t, install (Machine.next^[2 * l.advices.length + 2] M) (.ref r) (.str n) a s = .ok w t ∧
      Filled s r r n a w t ∧ s.Spared t r r n := by
  obtain ⟨w,t,-,ht,-⟩ := install_agrees (M := M) hr hn hF hL hl (fun _ _ => hd) a 0
  have hslot : Slot (Machine.next^[2 * l.advices.length + 2] M) s r n r (.str n) := by
    rcases hr with hr | ⟨hI,D,hD,hopen⟩
    · exact slot_of_branch hn hF hL (hF.classes r hr) hl hd
    · obtain ⟨E,hE⟩ := hF.instances r hI
      obtain rfl : D = E := by simpa [hD] using hE.cls
      exact slot_of_leaf hn hF hL hE hI hopen hl fun _ => hd
  refine ⟨w,t,ht,?_⟩
  rw [Nat.add_zero,iterate_two] at ht
  rw [iterate_two] at hslot
  have hfilled := filled_of_install hs hslot ht
  exact ⟨hfilled,spared_of_filled hs hslot hfilled⟩

end hierarchies

/-- Wrapping what is in a slot fills that slot, and does nothing else than make new objects: all other objects and all
other attributes and entries of this one are what they were, annotations apart, which may come into being.  So a lookup
that does not come by the slot finds what it found; and where no class has a say in it, what is read is the same value, or
goes through the same advices to the same function. -/
theorem spares_of_install (hs : s.Rooted) (hslot : Slot M.next.next s r n q name)
    (h : install M.next.next (.ref r) name a s = .ok w t) : Filled s r q n a w t ∧ s.Spared t r q n ∧
      ∀ v k, s.Beyond r q n v k → v ≠ .absent → s.class? v = none ∨ k ∉ Store.classTitles → (s.lookup v k).rule = none →
        ∀ m, ReadsAs m s v k s ∧ ReadsAs m s v k t := by
  have hfilled := filled_of_install hs hslot h
  have hspared := spared_of_filled hs hslot hfilled
  exact ⟨hfilled,hspared,fun v k hb hv hk hrule m => ⟨readsAs_lookup hrule hk hv,readsAs_of_spared hspared hb hv hk hrule⟩⟩

/-- A class that has the member from the class above gets one of its own, and the class above answers as it did. -/
theorem spares_of_install_hierarchy : ∃ w t, hierarchy.Rooted ∧
    Slot Machine.halted.next.next hierarchy 36 "m" 36 (.str "m") ∧
    install Machine.halted.next.next (.ref 36) (.str "m") (.ref 34) hierarchy = .ok w t ∧
    hierarchy.Beyond 36 36 "m" (.ref 35) "m" ∧ (hierarchy.lookup (.ref 35) "m").rule = none ∧
    Filled hierarchy 36 36 "m" (.ref 34) w t ∧ hierarchy.Spared t 36 36 "m" ∧
    ReadsAs Machine.halted hierarchy (.ref 35) "m" hierarchy ∧ ReadsAs Machine.halted hierarchy (.ref 35) "m" t := by
  have hlayered := hierarchy_layered
  have hbranch := hlayered.family.classes 36 (by simp)
  have hl : hierarchyLedger.found hierarchy 36 = some ⟨.object,.ref 33,false,[]⟩ := rfl
  have hs : hierarchy.Rooted := Store.rooted_of_isRooted (by decide +kernel)
  have hslot : Slot Machine.halted.next.next hierarchy 36 "m" 36 (.str "m") :=
    slot_of_branch (M := Machine.halted) hlayered.name hlayered.family hlayered.agrees hbranch hl nofun
  obtain ⟨w,t,ht,-⟩ := install_spares (M := Machine.halted) hlayered.name hlayered.family hlayered.agrees hs
    (Or.inl (by simp)) hl nofun (.ref 34)
  have hbeyond : hierarchy.Beyond 36 36 "m" (.ref 35) "m" := by
    refine ⟨Store.holds_ref rfl trivial,fun _ hseat => ?_,fun _ => ?_,fun _ c hc => ?_,by decide,fun hname => ?_⟩
    · exact absurd hseat (by decide +kernel)
    · exact Store.not_inherits_of_notMem (by decide +kernel)
    · obtain rfl : .defined 35 = c := Option.some.inj hc
      exact Store.not_inherits_of_notMem (by decide +kernel)
    · simp at hname
  obtain ⟨hfilled,hspared,hreads⟩ := spares_of_install hs hslot ht
  obtain ⟨hbefore,hafter⟩ := hreads (.ref 35) "m" hbeyond (by simp) (Or.inr (by decide)) rfl Machine.halted
  exact ⟨w,t,hs,hslot,ht,hbeyond,rfl,hfilled,hspared,hbefore,hafter⟩

/-- A class without members, a table that holds it, and an advice that forwards. -/
def shelved : Act (Value × Value × Value) := do
  let c ← (Expr.classDef "K" [] []).eval Machine.full []
  let d ← newTable [(.str "m",c)]
  let advice ← newFunction "forward" none forwarding
  return (c,d,advice)

/-- How many attributes the class has, as it tells itself. -/
def countOwn (c : Value) : Act Nat := do
  lengthOf Machine.full (← Machine.full.read c "__dict__")

/-- The class gets annotations when the table's entry is wrapped, for the wrapper takes over what is asked for so. -/
theorem fails_shelved :
    returned (shelved >>= fun p => countOwn p.1) Store.initial = some 4 ∧
    returned (shelved >>= fun p => do
      let _ ← install Machine.full p.2.1 (.str "m") p.2.2
      countOwn p.1) Store.initial = some 5 := by decide +kernel

end Wrapper
end CallContracts
