import CallContracts.Proofs.Boundary
import CallContracts.Proofs.Legible
import CallContracts.Proofs.Lineage
import CallContracts.Proofs.Listing
/-! Short text of whatever value.  Showing goes by the names of classes: it asks what bears the name of a builtin
container for a length, for items or for entries, down to a few levels.  A value that cannot be asked this stands in
the way of all that show it, and so in the way of every error that would tell it. -/
namespace CallContracts
open Act

namespace Act
variable {α β : Type} {x : Act α} {f : α → Act β} {s t : Store} {a : α} {b : Prop}

/-- Ends in an error that is none of the library, having only looked at things. -/
def Fails (x : Act α) (s : Store) : Prop :=
  ∃ q t, x s = .error (.raised q) t ∧ s.Grows t ∧ .exception ∈ q.cls.line ∧ .contractError ∉ q.cls.line

/-- From some store on: fails if `b` holds, and is calm otherwise. -/
structure Breaks (s : Store) (x : Act α) (b : Prop) : Prop where
  calm : ¬ b → ∀ t, s.Grows t → x.Calm t
  fails : b → ∀ t, s.Grows t → x.Fails t

theorem Fails.left (hx : x.Fails s) : (x >>= f).Fails s := by
  obtain ⟨q,t,ht,h⟩ := hx
  exact ⟨q,t,bind_error ht,h⟩

theorem Fails.right (hx : x.Gives a s) (hf : ∀ t, s.Grows t → (f a).Fails t) : (x >>= f).Fails s := by
  obtain ⟨t,ht,hg⟩ := hx
  obtain ⟨q,u,hu,hg',hq⟩ := hf t hg
  exact ⟨q,u,by rw [bind_ok ht,hu],hg.trans hg',hq⟩

namespace Breaks

theorem grows (h : Breaks s x b) (ht : s.Grows t) : Breaks t x b :=
  ⟨fun hb u hu => h.calm hb u (ht.trans hu),fun hb u hu => h.fails hb u (ht.trans hu)⟩

theorem of_iff {b' : Prop} (h : Breaks s x b) (hb : b ↔ b') : Breaks s x b' :=
  ⟨fun h' => h.calm fun h => h' (hb.mp h),fun h' => h.fails (hb.mpr h')⟩

/-- What comes after something that never fails. -/
theorem after (hx : x.Always (s.Grows ·) a) (hf : Breaks s (f a) b) : Breaks s (x >>= f) b :=
  ⟨fun hb t ht => (hx t ht).bindCalm fun u hu => hf.calm hb u (ht.trans hu),
    fun hb t ht => Fails.right (hx t ht) fun u hu => hf.fails hb u (ht.trans hu)⟩

/-- What never fails comes after it. -/
theorem bind (hx : Breaks s x b) (hf : ∀ a t, s.Grows t → (f a).Calm t) : Breaks s (x >>= f) b :=
  ⟨fun hb t ht => (hx.calm hb t ht).bind fun a u hu => hf a u (ht.trans hu),
    fun hb t ht => (hx.fails hb t ht).left⟩

theorem andThen {b' : Prop} (hx : Breaks s x b) (hf : ∀ a, Breaks s (f a) b') : Breaks s (x >>= f) (b ∨ b') := by
  refine ⟨fun hb t ht => ?_,fun hb t ht => ?_⟩
  · rw [not_or] at hb
    exact (hx.calm hb.1 t ht).bind fun a u hu => (hf a).calm hb.2 u (ht.trans hu)
  · by_cases h : b
    · exact (hx.fails h t ht).left
    · obtain ⟨a,ha⟩ := hx.calm h t ht
      exact Fails.right ha fun u hu => (hf a).fails (hb.resolve_left h) u (ht.trans hu)

theorem each {γ : Type} {g : γ → Act α} {b : γ → Prop} {l : List γ} (h : ∀ p ∈ l, Breaks s (g p) (b p)) :
    Breaks s (Act.each g l) (∃ p ∈ l, b p) := by
  induction l with
  | nil => exact ⟨fun _ t _ => (gives_pure [] t).calm,fun hb => absurd hb (by simp)⟩
  | cons p l ih =>
    have hrest := ih fun q hq => h q (by simp [hq])
    have hboth : Breaks s (Act.each g (p :: l)) (b p ∨ ∃ q ∈ l, b q) :=
      (h p (by simp)).andThen fun y => hrest.bind fun ys t _ => (gives_pure (y :: ys) t).calm
    exact hboth.of_iff (by simp)

end Breaks
end Act

namespace Store
variable {s t : Store} {v : Value} {xs : List Value} {b : BuiltinClass} {k : Told}

/-- What a value goes by when it is shown, now and later. -/
def ToldAs (s : Store) (v : Value) (k : Told) : Prop := ∀ t, s.Grows t → toldAs (t.typeName v) = k

theorem toldAs_builtin (hv : s.Holds .all v) (hc : s.classOf v = .builtin b) (hk : toldAs b.name = k) :
    s.ToldAs v k := fun t ht => by rw [typeName,ht.classOf hv,hc,nameOfClass,hk]

theorem toldAs_defined {D : Ref} {info : ClassInfo} (hv : s.Holds .all v) (hc : s.classOf v = .defined D)
    (hD : s.classInfo? D = some info) (hk : toldAs info.name = k) : s.ToldAs v k := fun t ht => by
  rw [typeName,ht.classOf hv,hc,nameOfClass,ht.classInfo? (holds_all_of_body (Store.body_of_classInfo? hD)),hD]
  exact hk

/-- A builtin sequence and its items. -/
inductive Sequence (s : Store) (v : Value) (xs : List Value) : Prop where
  | list : s.classOf v = .builtin .list → s.body? v = some (.list xs) → Sequence s v xs
  | tuple : s.IsTuple v xs → Sequence s v xs
  | deque : s.classOf v = .builtin .deque → s.body? v = some (.deque xs) → Sequence s v xs

theorem Sequence.grows (h : s.Sequence v xs) (ht : s.Grows t) : t.Sequence v xs := by
  cases h with
  | list hc hb =>
    have hv := holds_all_of_body hb
    exact .list (by rw [ht.classOf hv,hc]) (by rw [ht.body? hv,hb])
  | tuple h => exact .tuple (h.grows ht)
  | deque hc hb =>
    have hv := holds_all_of_body hb
    exact .deque (by rw [ht.classOf hv,hc]) (by rw [ht.body? hv,hb])

theorem Sequence.told (h : s.Sequence v xs) : s.ToldAs v .list ∨ s.ToldAs v .tuple ∨ s.ToldAs v .deque := by
  cases h with
  | list hc hb => exact Or.inl (toldAs_builtin (holds_all_of_body hb) hc (by decide))
  | tuple h => exact Or.inr (Or.inl (toldAs_builtin (holds_all_of_body h.body) h.cls (by decide)))
  | deque hc hb => exact Or.inr (Or.inr (toldAs_builtin (holds_all_of_body hb) hc (by decide)))

/-- A builtin set and its members. -/
structure IsSet (s : Store) (v : Value) (xs : List Value) : Prop where
  cls : s.classOf v = .builtin .set ∨ s.classOf v = .builtin .frozenset
  body : s.body? v = some (.set xs)

theorem IsSet.grows (h : s.IsSet v xs) (ht : s.Grows t) : t.IsSet v xs := by
  have hv := holds_all_of_body h.body
  exact ⟨by rw [ht.classOf hv]; exact h.cls,by rw [ht.body? hv,h.body]⟩

/-- An instance of a class of the program that says nothing of a length, of truth or of items. -/
structure Mute (s : Store) (v : Value) : Prop where
  place : ∃ r D, v = .ref r ∧ s.classOf v = .defined D ∧ s.body? v = some .plain
  lined : s.Lined (s.classOf v)
  silent : ∀ n ∈ ["__len__","__bool__","__iter__","__getitem__"], s.override? (s.classOf v) n = none
  apart : s.isA v .undefined = false ∧ s.isA v .settings = false

theorem Mute.grows (h : s.Mute v) (ht : s.Grows t) : t.Mute v := by
  obtain ⟨r,D,rfl,hc,hb⟩ := h.place
  have hv := holds_all_of_body hb
  have hcls := ht.classOf hv
  have hline := h.lined.line_eq ht fun _ _ => trivial
  refine ⟨⟨r,D,rfl,hcls.trans hc,by rw [ht.body? hv,hb]⟩,by rw [hcls]; exact h.lined.keep ht fun _ _ => trivial,
    fun n hn => ?_,?_⟩
  · rw [hcls,override?_congr hline fun q hq => ?_,h.silent n hn]
    obtain ⟨o,ho⟩ := h.lined.get? hq
    refine ht.classAttrs (holds_ref ho trivial) ?_
    simp only [List.mem_cons,List.not_mem_nil,or_false] at hn
    rcases hn with rfl | rfl | rfl | rfl <;> decide
  · simpa only [isA,comesFrom,hcls,hline] using h.apart

end Store

namespace Act.Breaks
variable {α β : Type} {x y : Act α} {f : α → Act β} {P : α → Store → Prop} {s : Store} {b : Prop}

/-- What comes after something quiet, where its result is known. -/
theorem afterQuiet (hx : ∀ t, s.Grows t → x.Quiet P t) (hf : ∀ a t, s.Grows t → P a t → Breaks t (f a) b) :
    Breaks s (x >>= f) b := by
  refine ⟨fun hb t ht => ?_,fun hb t ht => ?_⟩
  · obtain ⟨a,u,ha,hg,hP⟩ := hx t ht
    obtain ⟨c,z,hz,hg'⟩ := (hf a u (ht.trans hg) hP).calm hb u (Store.Keeps.refl _ u)
    exact ⟨c,z,by rw [bind_ok ha,hz],hg.trans hg'⟩
  · obtain ⟨a,u,ha,hg,hP⟩ := hx t ht
    obtain ⟨q,z,hz,hg',hq⟩ := (hf a u (ht.trans hg) hP).fails hb u (Store.Keeps.refl _ u)
    exact ⟨q,z,by rw [bind_ok ha,hz],hg.trans hg',hq⟩

theorem of_calm (h : ∀ t, s.Grows t → x.Calm t) (hb : ¬ b) : Breaks s x b := ⟨fun _ => h,fun h => absurd h hb⟩

theorem congr (h : ∀ t, s.Grows t → y t = x t) (hx : Breaks s x b) : Breaks s y b := by
  refine ⟨fun hb t ht => ?_,fun hb t ht => ?_⟩
  · simpa only [Calm,Gives,h t ht] using hx.calm hb t ht
  · simpa only [Fails,h t ht] using hx.fails hb t ht

end Act.Breaks

namespace Rendering
variable {m : Machine} {s t : Store} {v : Value} {xs ys zs : List Value} {k : Told}

/-- Builtin containers, and what showing them goes into, in order. -/
inductive Opens (m : Machine) (s : Store) : Value → List Value → Prop where
  | sequence {v : Value} {xs : List Value} : s.Sequence v xs → Opens m s v (xs.take limits.items)
  | set {v : Value} {xs ys zs : List Value} : s.IsSet v xs → (sortedOr m xs).Always (s.Grows ·) ys →
      (sortedOr m ys).Always (s.Grows ·) zs → Opens m s v (zs.take limits.items)
  | table {r : Ref} {es : List (Value × Value)} {ks : List Value} {g : Value → Value} : s.IsTable r es →
      (es.map Prod.fst).Nodup → (sortedOr m (es.map Prod.fst)).Always (s.Grows ·) ks →
      (∀ k ∈ ks.take limits.entries, (Item.get m (.ref r) k).Always (s.Grows ·) (g k)) →
      Opens m s (.ref r) ((ks.take limits.entries).flatMap fun k => [k,g k])

/-- What is shown in one piece: text, and what writes itself out; a failure of that is made up for by a name. -/
inductive Whole (m : Machine) (s : Store) : Value → Prop where
  | string (t : String) : Whole m s (.str t)
  | number {v : Value} : s.ToldAs v .int → (∀ t, s.Grows t → (textAs m .quoted v).Calm t) → Whole m s v
  | other {v : Value} : s.ToldAs v .other → (∀ t, s.Grows t → (textAs m .quoted v).Calm t) → Whole m s v
  | placed {v : Value} : s.ToldAs v .other →
      (∀ t, s.Grows t → ∃ q u, textAs m .quoted v t = .error (.raised q) u ∧ t.Grows u ∧ .exception ∈ q.cls.line) →
      (∀ t, s.Grows t → (do textAs m .plain (← m.read (← m.read v "__class__") "__name__")).Calm t) → Whole m s v

/-- What bears the name of a builtin class and cannot be asked what its instances are asked. -/
inductive Impostor (m : Machine) (s : Store) : Value → Prop where
  | bare {v : Value} {k : Told} : s.Mute v → s.ToldAs v k →
      k ∈ [.list,.tuple,.deque,.set,.frozenset,.dict,.str] → Impostor m s v
  | array {v : Value} : s.Mute v → s.ToldAs v .array →
      (∀ t, s.Grows t → (m.read v "typecode").Fails t) → Impostor m s v

theorem Opens.body {ps : List Value} (h : Opens m s v ps) : ∃ b, s.body? v = some b ∧ b ≠ .plain := by
  cases h with
  | sequence h =>
    cases h with
    | list _ hb | deque _ hb => exact ⟨_,hb,by simp⟩
    | tuple h => exact ⟨_,h.body,by simp⟩
  | set h _ _ => exact ⟨_,h.body,by simp⟩
  | table h _ _ _ => exact ⟨_,h.body,by simp⟩

theorem Impostor.isMute (h : Impostor m s v) : s.Mute v := by
  cases h with
  | bare h _ _ | array h _ _ => exact h

/-- What is looked at when a value is shown so many levels down. -/
inductive Looks (m : Machine) (s : Store) : Nat → Value → Value → Prop where
  | self {n : Nat} {v : Value} : Looks m s n v v
  | part {n : Nat} {v p w : Value} {ps : List Value} : Opens m s v ps → p ∈ ps → Looks m s n p w →
      Looks m s (n+1) v w

/-- Whether an impostor is looked at. -/
def Meets (m : Machine) (s : Store) (n : Nat) (v : Value) : Prop := ∃ w, Looks m s n v w ∧ Impostor m s w

section cursor

/-- An iteration that goes by index gives the items that are left. -/
theorem take_indexed {k : Nat → Cursor}
    (hnext : ∀ i, (k i).next m s = .ok (xs[i]?.map fun x => (.value x,k (i+1))) s) (n i : Nat) :
    (k i).take m n s = .ok ((xs.drop i).take n) s := by
  induction n generalizing i with
  | zero => simp [Cursor.take]
  | succ n ih =>
    cases hi : xs[i]? with
    | none =>
      have hdrop : xs.drop i = [] := List.drop_eq_nil_of_le (List.getElem?_eq_none_iff.mp hi)
      simp [Cursor.take,hnext,hi,hdrop,bind_apply]
    | some x =>
      obtain ⟨hlt,hx⟩ := List.getElem?_eq_some_iff.mp hi
      have hdrop : xs.drop i = x :: xs.drop (i+1) := by rw [List.drop_eq_getElem_cons hlt,hx]
      simp [Cursor.take,hnext,hi,hdrop,bind_apply,map_apply,Given.toValue,ih]

theorem take_list {r : Ref} (h : s.items? (.ref r) = some xs) (n i : Nat) :
    (Cursor.list r i).take m n s = .ok ((xs.drop i).take n) s := by
  refine take_indexed (k := Cursor.list r) (fun i => ?_) n i
  cases hi : xs[i]? <;> simp [Cursor.next,h,hi]

theorem take_deque {r : Ref} (h : s.items? (.ref r) = some xs) (n i : Nat) :
    (Cursor.deque r i xs.length).take m n s = .ok ((xs.drop i).take n) s := by
  refine take_indexed (k := (Cursor.deque r · xs.length)) (fun i => ?_) n i
  cases hi : xs[i]? <;> simp [Cursor.next,h,hi]

/-- The keys of a table, after those that were given. -/
theorem take_keys {r : Ref} {es : List (Value × Value)} (h : s.IsTable r es) (hn : (es.map Prod.fst).Nodup)
    (done rest : List (Value × Value)) (he : es = done ++ rest) (n : Nat) :
    (Cursor.entries .keys (.entries (.ref r)) es.length (done.map Prod.fst) rest.length).take m n s
      = .ok ((rest.map Prod.fst).take n) s := by
  induction n generalizing done rest with
  | zero => simp [Cursor.take]
  | succ n ih =>
    have hd := dropGiven_append done rest (he ▸ hn)
    rw [← he] at hd
    cases rest with
    | nil => simp [Cursor.take,Cursor.next,Cursor.nextEntry,entriesAt_table h,hd,bind_apply]
    | cons e rest =>
      have hrest := ih (done ++ [e]) rest (by simp [he])
      simp only [List.map_append,List.map_cons,List.map_nil] at hrest
      simp [Cursor.take,Cursor.next,Cursor.nextEntry,entriesAt_table h,hd,partOf,bind_apply,map_apply,Given.toValue,
        hrest]

end cursor

section sequence
variable (h : s.Sequence v xs)
include h

theorem lengthOf_sequence : lengthOf m v s = .ok xs.length s := by
  cases h with
  | list hc hb =>
    obtain ⟨r,rfl⟩ := Store.ref_of_body hb
    have hx : s.text? (.ref r) = none := Store.text?_of_body hb (by simp)
    simp [lengthOf,hc,Store.nativeLength?,hx,hb]
  | tuple h => exact lengthOf_tuple h
  | deque hc hb =>
    obtain ⟨r,rfl⟩ := Store.ref_of_body hb
    have hx : s.text? (.ref r) = none := Store.text?_of_body hb (by simp)
    simp [lengthOf,hc,Store.nativeLength?,hx,hb]

theorem firstItems_sequence (n : Nat) : firstItems m n v s = .ok (xs.take n) s := by
  cases h with
  | list hc hb =>
    obtain ⟨r,rfl⟩ := Store.ref_of_body hb
    have hp : s.pieces? (.ref r) = none := Store.pieces?_of_body hb (by simp) (by simp)
    have hcursor : cursorOf m (.ref r) s = .ok (.list r 0) s := by simp [cursorOf,hc,nativeCursor,hp,hb]
    have hitems : s.items? (.ref r) = some xs := by simp [Store.items?,hb]
    rw [firstItems,bind_ok hcursor,take_list hitems,List.drop_zero]
  | tuple h => rw [firstItems,bind_ok (cursorOf_tuple h),Cursor.take_fixed]
  | deque hc hb =>
    obtain ⟨r,rfl⟩ := Store.ref_of_body hb
    have hp : s.pieces? (.ref r) = none := Store.pieces?_of_body hb (by simp) (by simp)
    have hcursor : cursorOf m (.ref r) s = .ok (.deque r 0 xs.length) s := by simp [cursorOf,hc,nativeCursor,hp,hb]
    have hitems : s.items? (.ref r) = some xs := by simp [Store.items?,hb]
    rw [firstItems,bind_ok hcursor,take_deque hitems,List.drop_zero]

end sequence

theorem quiet_newList (xs : List Value) (s : Store) : (newList xs).Quiet (fun v t => t.Sequence v xs) s := by
  obtain ⟨_,t,ht,hg,rfl,ho⟩ := quiet_alloc { cls := .builtin .list, body := .list xs } s
  exact ⟨_,t,ht,hg,.list (Store.classOf_of_get? ho) (Store.body?_of_get? ho)⟩

section levels
variable {level : Nat} {short : Value → Act Chars} {B : Value → Prop}

/-- Items are shown one after the other. -/
theorem breaks_shortItems (hv : s.Sequence v xs) (most : Nat) (left right trail : String)
    (h : level ≠ 0 → ∀ p ∈ xs.take most, Breaks s (short p) (B p)) :
    Breaks s (shortItems m level short most left right trail v) (level ≠ 0 ∧ ∃ p ∈ xs.take most, B p) := by
  have hlength : (lengthOf m v).Always (s.Grows ·) xs.length := fun t ht =>
    gives_of_eq (lengthOf_sequence (hv.grows ht))
  have hitems : (firstItems m most v).Always (s.Grows ·) (xs.take most) := fun t ht =>
    gives_of_eq (firstItems_sequence (hv.grows ht) most)
  refine Breaks.after hlength ?_
  dsimp only
  by_cases hno : level = 0 ∧ xs.length ≠ 0
  · rw [if_pos hno]
    exact .of_calm (fun t _ => (gives_pure _ t).bindCalm fun u _ => (gives_pure _ u).calm) fun hb => hb.1 hno.1
  · rw [if_neg hno]
    have hparts : ∀ p ∈ xs.take most, Breaks s (short p) (B p) := by
      by_cases hlevel : level = 0
      · obtain rfl : xs = [] := by simpa [hlevel] using hno
        simp
      · exact h hlevel
    refine Breaks.of_iff (b := ∃ p ∈ xs.take most, B p) (Breaks.after hitems (Breaks.bind (Breaks.each hparts) ?_)) ?_
    · exact fun ts t _ => (gives_pure _ t).bindCalm fun u _ => (gives_pure _ u).calm
    refine ⟨fun ⟨p,hp,hb⟩ => ⟨fun hlevel => ?_,p,hp,hb⟩,fun hb => hb.2⟩
    obtain rfl : xs = [] := by simpa [hlevel] using hno
    simp at hp

theorem sortedOr_nil (m : Machine) (s : Store) : sortedOr m [] s = .ok [] s := rfl

/-- A set is true unless it is empty. -/
theorem truth_set (hv : s.IsSet v xs) : truth m v s = .ok (decide (xs ≠ [])) s := by
  obtain ⟨r,rfl⟩ := Store.ref_of_body hv.body
  have hb := hv.body
  have hx : s.text? (.ref r) = none := Store.text?_of_body hb (by simp)
  have hu : s.unboxed (.ref r) = .ref r := Store.unboxed_of_body hb (by simp)
  have hparts : s.parts (.ref r) = none := by
    simp [Store.parts,Store.real?,Store.whole?,hu,Store.scalar?_of_body hb]
  rcases hv.cls with hc | hc
  · have hA : s.isA (.ref r) .undefined = false := by
      rw [Store.isA_builtin hc]
      decide
    simp [truth,hc,Store.nativeTruth?,hu,hparts,hA,hb,Store.nativeLength?,hx]
  · have hA : s.isA (.ref r) .undefined = false := by
      rw [Store.isA_builtin hc]
      decide
    simp [truth,hc,Store.nativeTruth?,hu,hparts,hA,hb,Store.nativeLength?,hx]

/-- Its members are gone over in order, as far as they have one. -/
theorem gives_iterateSet (hv : s.IsSet v xs) (hys : (sortedOr m xs).Gives ys s) : (iterate m v).Gives ys s := by
  obtain ⟨r,rfl⟩ := Store.ref_of_body hv.body
  have hb := hv.body
  have hp : s.pieces? (.ref r) = none := Store.pieces?_of_body hb (by simp) (by simp)
  obtain ⟨u,hu,hg⟩ := hys
  have hcursor : cursorOf m (.ref r) s = .ok (.fixed ys) u := by
    rcases hv.cls with hc | hc
    · simp [cursorOf,hc,nativeCursor,hp,hb,map_ok hu]
    · simp [cursorOf,hc,nativeCursor,hp,hb,map_ok hu]
  refine ⟨u,?_,hg⟩
  rw [iterate,bind_ok hcursor,get_bind_apply,Cursor.take_fixed,List.take_of_length_le]
  simp [Store.bound,Store.remaining]

/-- The members of a set are put in order, as far as they have one, and shown like items. -/
theorem breaks_shortSet (hv : s.IsSet v xs) (hys : (sortedOr m xs).Always (s.Grows ·) ys)
    (hzs : (sortedOr m ys).Always (s.Grows ·) zs) (left right empty : String)
    (h : level ≠ 0 → ∀ p ∈ zs.take limits.items, Breaks s (short p) (B p)) :
    Breaks s (shortSet m level short left right empty v) (level ≠ 0 ∧ ∃ p ∈ zs.take limits.items, B p) := by
  have htruth : (truth m v).Always (s.Grows ·) (decide (xs ≠ [])) := fun t ht =>
    gives_of_eq (truth_set (hv.grows ht))
  have hiterate : (iterate m v).Always (s.Grows ·) ys := fun t ht => gives_iterateSet (hv.grows ht) (hys t ht)
  rw [shortSet]
  refine Breaks.after htruth ?_
  by_cases hempty : xs = []
  · subst hempty
    have hnone : zs = [] := by
      obtain ⟨_,hy,-⟩ := hys s (Store.Keeps.refl _ s)
      obtain ⟨rfl,-⟩ : [] = ys ∧ _ := by simpa [sortedOr_nil] using hy
      obtain ⟨_,hz,-⟩ := hzs s (Store.Keeps.refl _ s)
      obtain ⟨rfl,-⟩ : [] = zs ∧ _ := by simpa [sortedOr_nil] using hz
      rfl
    simp only [ne_eq,not_true_eq_false,decide_false,Bool.not_false,if_true]
    exact .of_calm (fun t _ => (gives_pure _ t).calm) (by simp [hnone])
  · simp only [ne_eq,hempty,not_false_eq_true,decide_true,Bool.not_true,Bool.false_eq_true,if_false]
    refine Breaks.after hiterate (Breaks.after hzs (Breaks.afterQuiet (fun t _ => quiet_newList zs t) ?_))
    exact fun w t ht hw => breaks_shortItems hw _ _ _ _ fun hlevel p hp => (h hlevel p hp).grows ht

theorem lengthOf_table {r : Ref} {es : List (Value × Value)} (h : s.IsTable r es) :
    lengthOf m (.ref r) s = .ok es.length s := by
  have hx : s.text? (.ref r) = none := Store.text?_of_body h.body (by simp)
  simp [lengthOf,h.cls,Store.nativeLength?,hx,h.body,Store.entries?_of_table h.body]

/-- The keys of a table are gone over as they were put in. -/
theorem iterate_keys {r : Ref} {es : List (Value × Value)} (h : s.IsTable r es) (hn : (es.map Prod.fst).Nodup) :
    iterate m (.ref r) s = .ok (es.map Prod.fst) s := by
  have hp : s.pieces? (.ref r) = none := Store.pieces?_of_body h.body (by simp) (by simp)
  have hbehind : s.behind (.ref r) = .ref r := by simp [Store.behind,h.body]
  have hA : s.isA (.ref r) .orderedDict = false := by
    rw [Store.isA_builtin h.cls]
    decide
  have hcursor : cursorOf m (.ref r) s = .ok (.entries .keys (.entries (.ref r)) es.length [] es.length) s := by
    simp [cursorOf,h.cls,nativeCursor,hp,h.body,Store.overEntries,hbehind,hA,Store.entries?_of_table h.body]
  have htake := take_keys (m := m) h hn [] es rfl
  rw [iterate,bind_ok hcursor,get_bind_apply]
  simp only [List.map_nil] at htake
  rw [htake,List.take_of_length_le]
  simp [Store.bound,Store.remaining]

/-- The first keys of a table are shown, each before its value. -/
theorem breaks_shortTable {r : Ref} {es : List (Value × Value)} {ks : List Value} {g : Value → Value}
    (hv : s.IsTable r es) (hn : (es.map Prod.fst).Nodup)
    (hks : (sortedOr m (es.map Prod.fst)).Always (s.Grows ·) ks)
    (hg : ∀ k ∈ ks.take limits.entries, (Item.get m (.ref r) k).Always (s.Grows ·) (g k))
    (h : level ≠ 0 → ∀ p ∈ (ks.take limits.entries).flatMap fun k => [k,g k], Breaks s (short p) (B p)) :
    Breaks s (shortTable m level short (.ref r))
      (level ≠ 0 ∧ ∃ p ∈ (ks.take limits.entries).flatMap fun k => [k,g k], B p) := by
  have hlength : (lengthOf m (.ref r)).Always (s.Grows ·) es.length := fun t ht =>
    gives_of_eq (lengthOf_table (hv.grows ht))
  have hiterate : (iterate m (.ref r)).Always (s.Grows ·) (es.map Prod.fst) := fun t ht =>
    gives_of_eq (iterate_keys (hv.grows ht) hn)
  rw [shortTable]
  refine Breaks.after hlength ?_
  by_cases hempty : es.length = 0
  · obtain rfl : es = [] := by simpa using hempty
    have hnone : ks = [] := by
      obtain ⟨_,hk,-⟩ := hks s (Store.Keeps.refl _ s)
      obtain ⟨rfl,-⟩ : [] = ks ∧ _ := by simpa [sortedOr_nil] using hk
      rfl
    exact .of_calm (fun t _ => (gives_pure _ t).calm) (by simp [hnone])
  · rw [if_neg hempty]
    by_cases hlevel : level = 0
    · rw [if_pos hlevel]
      exact .of_calm (fun t _ => (gives_pure _ t).calm) fun hb => hb.1 hlevel
    · rw [if_neg hlevel]
      refine Breaks.after hiterate (Breaks.after hks (Breaks.bind ?_ fun ts t _ => (gives_pure _ t).calm))
      refine Breaks.of_iff (b := ∃ k ∈ ks.take limits.entries, B k ∨ B (g k)) (Breaks.each fun k hk => ?_) ?_
      · have hkey := h hlevel k (List.mem_flatMap.mpr ⟨k,hk,by simp⟩)
        have hvalue := h hlevel (g k) (List.mem_flatMap.mpr ⟨k,hk,by simp⟩)
        exact hkey.andThen fun t => Breaks.after (hg k hk) (hvalue.bind fun u t _ => (gives_pure _ t).calm)
      · simp only [List.mem_flatMap,List.mem_cons,List.not_mem_nil,or_false]
        constructor
        · rintro ⟨k,hk,hb | hb⟩
          · exact ⟨hlevel,k,⟨k,hk,Or.inl rfl⟩,hb⟩
          · exact ⟨hlevel,g k,⟨k,hk,Or.inr rfl⟩,hb⟩
        · rintro ⟨-,p,⟨k,hk,rfl | rfl⟩,hb⟩
          · exact ⟨p,hk,Or.inl hb⟩
          · exact ⟨k,hk,Or.inr hb⟩

variable {limit : Int}

/-- Showing a container goes into what it opens to, unless the last level is reached. -/
theorem breaks_opens {ps : List Value} (hv : Opens m s v ps)
    (h : level ≠ 0 → ∀ p ∈ ps, Breaks s (short p) (B p)) :
    Breaks s (shortWith m (.exactly limit) level short v) (level ≠ 0 ∧ ∃ p ∈ ps, B p) := by
  cases hv with
  | @sequence _ xs hv =>
    have items (left right trail : String) := breaks_shortItems (m := m) hv limits.items left right trail h
    rcases hv.told with hk | hk | hk
    · exact (items "[" "]" "").congr fun t ht => by unfold shortWith; rw [get_bind_apply,hk t ht]
    · exact (items "(" ")" ",").congr fun t ht => by unfold shortWith; rw [get_bind_apply,hk t ht]
    · exact (items "deque([" "])" "").congr fun t ht => by unfold shortWith; rw [get_bind_apply,hk t ht]
  | @set _ xs ys zs hv hys hzs =>
    have members (left right empty : String) := breaks_shortSet hv hys hzs left right empty h
    have hholds := Store.holds_all_of_body hv.body
    rcases hv.cls with hc | hc
    · have hk : s.ToldAs v .set := Store.toldAs_builtin hholds hc (by decide)
      exact (members "\x7b" "\x7d" "set()").congr fun t ht => by unfold shortWith; rw [get_bind_apply,hk t ht]
    · have hk : s.ToldAs v .frozenset := Store.toldAs_builtin hholds hc (by decide)
      exact (members "frozenset(\x7b" "\x7d)" "frozenset()").congr fun t ht => by
        unfold shortWith; rw [get_bind_apply,hk t ht]
  | @table r es ks g hv hn hks hg =>
    have hk : s.ToldAs (.ref r) .dict := Store.toldAs_builtin (Store.holds_all_of_body hv.body) hv.cls (by decide)
    exact (breaks_shortTable hv hn hks hg h).congr fun t ht => by unfold shortWith; rw [get_bind_apply,hk t ht]

/-- What is shown in one piece is shown. -/
theorem calm_whole (hv : Whole m s v) (ht : s.Grows t) : (shortWith m (.exactly limit) level short v).Calm t := by
  cases hv with
  | string x =>
    have hk : toldAs (t.typeName (.str x)) = .str := by
      change toldAs BuiltinClass.str.name = .str
      decide
    unfold shortWith Calm Gives
    rw [get_bind_apply,hk]
    exact (gives_pure _ t).calm
  | number hk hx =>
    have hcalm := (hx t ht).bind (f := fun x => pure (Text.clip limits.digits x)) fun x u _ => (gives_pure _ u).calm
    unfold shortWith Calm Gives
    rw [get_bind_apply,hk t ht]
    exact hcalm
  | other hk hx =>
    obtain ⟨x,u,hu,hg⟩ := hx t ht
    have htext : orElseOn .exception (some <$> textAs m .quoted v) (pure none) t = .ok (some x) u := by
      simp only [orElseOn,map_ok hu]
    refine ⟨Text.clip limit x,u,?_,hg⟩
    unfold shortWith
    rw [get_bind_apply,hk t ht]
    change shortOther m (.exactly limit) v t = _
    unfold shortOther
    rw [bind_ok htext]
    rfl
  | placed hk hx hname =>
    obtain ⟨q,u,hu,hg,hq⟩ := hx t ht
    have htext : orElseOn .exception (some <$> textAs m .quoted v) (pure none) t = .ok none u := by
      simp only [orElseOn,map_error hu,hq,if_true]
      rfl
    have hcalm : (shortOther m (.exactly limit) v).Calm t := by
      obtain ⟨x,z,hz,hg'⟩ := hname u (ht.trans hg)
      obtain ⟨c,_,hc,hz⟩ := bind_eq_ok.mp hz
      obtain ⟨n,_,hn,hz⟩ := bind_eq_ok.mp hz
      unfold shortOther
      exact ⟨_,z,by rw [bind_ok htext]; simp only []; rw [bind_ok hc,bind_ok hn,bind_ok hz]; rfl,hg.trans hg'⟩
    unfold shortWith Calm Gives
    rw [get_bind_apply,hk t ht]
    exact hcalm

section mute
variable (hv : s.Mute v)
include hv

theorem lengthOf_mute : lengthOf m v s = .error (.raised .typeError) s := by
  obtain ⟨r,D,rfl,hc,hb⟩ := hv.place
  have hx : s.text? (.ref r) = none := Store.text?_of_body hb (by simp)
  have hentries : s.entries? (.ref r) = none := by simp [Store.entries?,Store.entriesFrom,hb]
  have hlen := hv.silent "__len__" (by simp)
  rw [hc] at hlen
  simp [lengthOf,hc,hlen,Store.nativeLength?,hx,hb,hentries]
  rfl

theorem truth_mute : truth m v s = .ok true s := by
  obtain ⟨r,D,rfl,hc,hb⟩ := hv.place
  have hx : s.text? (.ref r) = none := Store.text?_of_body hb (by simp)
  have hu : s.unboxed (.ref r) = .ref r := Store.unboxed_of_body hb (by simp)
  have hparts : s.parts (.ref r) = none := by simp [Store.parts,Store.real?,Store.whole?,hu,Store.scalar?_of_body hb]
  have hentries : s.entries? (.ref r) = none := by simp [Store.entries?,Store.entriesFrom,hb]
  have hlen := hv.silent "__len__" (by simp)
  have hbool := hv.silent "__bool__" (by simp)
  rw [hc] at hlen hbool
  simp [truth,hc,hlen,hbool,Store.nativeTruth?,hu,hparts,hv.apart.1,hb,Store.nativeLength?,hx,hentries]

theorem iterate_mute : iterate m v s = .error (.raised .typeError) s := by
  obtain ⟨r,D,rfl,hc,hb⟩ := hv.place
  have hp : s.pieces? (.ref r) = none := Store.pieces?_of_body hb (by simp) (by simp)
  have hiter := hv.silent "__iter__" (by simp)
  have hitem := hv.silent "__getitem__" (by simp)
  rw [hc] at hiter hitem
  have hcursor : cursorOf m (.ref r) s = .error (.raised .typeError) s := by
    simp [cursorOf,hc,hiter,nativeCursor,hp,hb,hv.apart.2,hitem]
    rfl
  rw [iterate,bind_error hcursor]

theorem shortSliced_mute (n : Int) : shortSliced m n v s = .error (.raised .typeError) s := by
  obtain ⟨r,D,rfl,hc,hb⟩ := hv.place
  have hp : s.pieces? (.ref r) = none := Store.pieces?_of_body hb (by simp) (by simp)
  have hitem := hv.silent "__getitem__" (by simp)
  have hno : s.overrides (s.classOf (.ref r)) ["__getitem__"] = false := by simp [Store.overrides,hitem]
  have hsliced : sliced? s (.ref r) = none := by simp [sliced?,hp,hb]
  rw [shortSliced,get_bind_apply]
  simp only [hno,Bool.false_eq_true,if_false,hsliced]
  rfl

end mute

/-- An impostor is not. -/
theorem fails_impostor (hv : Impostor m s v) (ht : s.Grows t) :
    (shortWith m (.exactly limit) level short v).Fails t := by
  have refused {x : Act Chars} (hx : x t = .error (.raised .typeError) t) : x.Fails t :=
    ⟨_,t,hx,Store.Keeps.refl _ t,by decide⟩
  cases hv with
  | @bare k hv hk hmem =>
    have hv := hv.grows ht
    have hshort : shortWith m (.exactly limit) level short v t = .error (.raised .typeError) t := by
      have items (left right trail : String) :
          shortItems m level short limits.items left right trail v t = .error (.raised .typeError) t := by
        rw [shortItems,bind_error (lengthOf_mute hv)]
      have members (left right empty : String) :
          shortSet m level short left right empty v t = .error (.raised .typeError) t := by
        rw [shortSet,bind_ok (truth_mute hv)]
        simp only [Bool.not_true,Bool.false_eq_true,if_false]
        rw [bind_error (iterate_mute hv)]
      unfold shortWith
      rw [get_bind_apply,hk t ht]
      simp only [List.mem_cons,List.not_mem_nil,or_false] at hmem
      rcases hmem with rfl | rfl | rfl | rfl | rfl | rfl | rfl
      all_goals simp only []
      · exact items _ _ _
      · exact items _ _ _
      · exact items _ _ _
      · exact members _ _ _
      · exact members _ _ _
      · exact bind_error (lengthOf_mute hv)
      · obtain ⟨r,-,rfl,-⟩ := hv.place
        exact shortSliced_mute hv limit
    exact refused hshort
  | array hv hk hread =>
    have hfails : (shortArray m level short v).Fails t := by
      rw [shortArray]
      exact Fails.right (gives_of_eq (truth_mute (hv.grows ht))) fun u hu => (hread u (ht.trans hu)).left
    unfold shortWith Fails
    rw [get_bind_apply,hk t ht]
    exact hfails

/-- Whatever a value is: when it is shown so many levels down, that breaks just if an impostor is looked at. -/
theorem breaks_shortAt (n : Nat)
    (h : ∀ w, Looks m s n v w → (∃ ps, Opens m s w ps) ∨ Whole m s w ∨ Impostor m s w) :
    Breaks s (shortAt m (.exactly limit) n v) (Meets m s n v) := by
  induction n generalizing v with
  | zero =>
    constructor
    · intro hno t ht
      rcases h v .self with ⟨ps,hps⟩ | hv | hv
      · exact (breaks_opens (B := fun _ => False) hps (fun h => absurd rfl h)).calm (by simp) t ht
      · exact calm_whole hv ht
      · exact absurd ⟨v,.self,hv⟩ hno
    · rintro ⟨w,hw,himp⟩ t ht
      cases hw
      exact fails_impostor himp ht
  | succ n ih =>
    have opened {ps : List Value} (hps : Opens m s v ps) :
        Breaks s (shortAt m (.exactly limit) (n+1) v) (n + 1 ≠ 0 ∧ ∃ p ∈ ps, Meets m s n p) :=
      breaks_opens hps fun _ p hp => ih fun w hw => h w (.part hps hp hw)
    constructor
    · intro hno t ht
      rcases h v .self with ⟨ps,hps⟩ | hv | hv
      · refine (opened hps).calm ?_ t ht
        rintro ⟨-,p,hp,w,hw,himp⟩
        exact hno ⟨w,.part hps hp hw,himp⟩
      · exact calm_whole hv ht
      · exact absurd ⟨v,.self,hv⟩ hno
    · rintro ⟨w,hw,himp⟩ t ht
      cases hw with
      | self => exact fails_impostor himp ht
      | part hps hp hw => exact (opened hps).fails ⟨by simp,_,hp,w,hw,himp⟩ t ht

end levels

/-- Every value that is looked at is shown one way or the other, or is an impostor. -/
def Known (m : Machine) (s : Store) (n : Nat) (v : Value) : Prop :=
  ∀ w, Looks m s n v w → (∃ ps, Opens m s w ps) ∨ Whole m s w ∨ Impostor m s w

section tuple
variable {a : Value} {args : List Value} {n : Nat}

theorem opens_tuple {ps : List Value} (ha : s.IsTuple a args) (h : Opens m s a ps) : ps = args.take limits.items := by
  cases h with
  | sequence h =>
    cases h with
    | list _ hb | deque _ hb => cases ha.body.symm.trans hb
    | tuple h =>
      obtain rfl : args = _ := by simpa using ha.body.symm.trans h.body
      rfl
  | set h _ _ => cases ha.body.symm.trans h.body
  | table h _ _ _ => cases ha.body.symm.trans h.body

/-- What is looked at in a tuple of arguments. -/
theorem looks_tuple (ha : s.IsTuple a args) {w : Value} :
    Looks m s (n+1) a w ↔ w = a ∨ ∃ v ∈ args.take limits.items, Looks m s n v w := by
  constructor
  · intro h
    cases h with
    | self => exact Or.inl rfl
    | part hps hp hw => exact Or.inr ⟨_,opens_tuple ha hps ▸ hp,hw⟩
  · rintro (rfl | ⟨v,hv,hw⟩)
    · exact .self
    · exact .part (.sequence (.tuple ha)) hv hw

theorem known_tuple (ha : s.IsTuple a args) (h : ∀ v ∈ args.take limits.items, Known m s n v) :
    Known m s (n+1) a := by
  intro w hw
  rcases (looks_tuple ha).mp hw with rfl | ⟨v,hv,hw⟩
  · exact Or.inl ⟨_,.sequence (.tuple ha)⟩
  · exact h v hv w hw

theorem meets_tuple (ha : s.IsTuple a args) :
    Meets m s (n+1) a ↔ ∃ v ∈ args.take limits.items, Meets m s n v := by
  have hno : ¬ Impostor m s a := by
    have bare (h : s.Mute a) : False := by
      obtain ⟨r,D,rfl,hc,-⟩ := h.place
      cases ha.cls.symm.trans hc
    rintro (⟨h,-,-⟩ | ⟨h,-,-⟩) <;> exact bare h
  constructor
  · rintro ⟨w,hw,himp⟩
    rcases (looks_tuple ha).mp hw with rfl | ⟨v,hv,hw⟩
    · exact absurd himp hno
    · exact ⟨v,hv,w,hw,himp⟩
  · rintro ⟨v,hv,w,hw,himp⟩
    exact ⟨w,(looks_tuple ha).mpr (Or.inr ⟨v,hv,hw⟩),himp⟩

end tuple

/-- How something ends that has to show a value to tell what is wrong: in such a fault, or if the value stands in
the way, in an error that is none of the library. -/
structure Surfaces {α : Type} (met : Prop) (tells : Fault → Prop) (y : EStateM.Result Stop Store α) : Prop where
  told : ¬ met → ∃ q t, y = .error (.raised q) t ∧ tells q
  lost : met → ∃ q t, y = .error (.raised q) t ∧ .exception ∈ q.cls.line ∧ .contractError ∉ q.cls.line

section surfaces
variable {limit : Int} (hset : s.Owns (.ref settingsRef))
  (hlimit : s.attr? (.ref settingsRef) "repr_limit" = some (.int limit)) (hv : Known m s limits.depth v)
include hset hlimit hv

theorem breaks_shortText : Breaks s (shortText m v) (Meets m s limits.depth v) := by
  have hshort : Breaks s (shortAt m (.exactly limit) limits.depth v) (Meets m s limits.depth v) :=
    breaks_shortAt limits.depth hv
  refine Breaks.congr (fun t ht => ?_) (hshort.bind fun x t _ => (gives_pure (String.ofList x) t).calm)
  have hset : setting "repr_limit" t = .ok (.int limit) t := by
    simp [setting,ownAttr,Store.setting_grows hset (by decide) hlimit ht]
  have hexact : t.textLimit (.int limit) = .exactly limit := rfl
  rw [shortText,bind_ok hset,short,get_bind_apply,hexact]
  rfl

theorem refusal_surfaces {fault : Blame → Fault} {member expected : Value} {y : EStateM.Result Stop Store Value}
    (hy : Signature.Refusal m fault member expected v s y) : Surfaces (Meets m s limits.depth v)
      (fun q => ∃ b, q = fault b ∧ b.Tells member expected v) y := by
  have h := breaks_shortText hset hlimit hv
  cases hy with
  | told ht hx hb =>
    refine ⟨fun _ => ⟨_,_,rfl,_,rfl,hb⟩,fun hmet => ?_⟩
    obtain ⟨q,u,hu,-⟩ := h.fails hmet _ ht
    cases hx.symm.trans hu
  | mute ht hx =>
    constructor
    · intro hno
      obtain ⟨x,u,hu,-⟩ := h.calm hno _ ht
      cases hx.symm.trans hu
    · intro hmet
      obtain ⟨q,u,hu,-,hq⟩ := h.fails hmet _ ht
      obtain ⟨rfl,rfl⟩ : _ = Stop.raised q ∧ _ = u := by simpa using hx.symm.trans hu
      exact ⟨q,_,rfl,hq⟩

/-- Take any value, and any whole limit on its text.  Unless an impostor is looked at there is a short text of it,
and what has to tell of it does: a contract that is run on an argument and does not match raises a violation, and a
check that refuses arguments or a result raises its own fault.  If one is looked at all of these end in some other
error. -/
theorem surfaces_unless_met :
    Breaks s (shortText m v) (Meets m s limits.depth v) ∧
    (∀ (c : Contract) text r, c.description = .str text → c.rule.holds m v r = .ok false s →
      Surfaces (Meets m s limits.depth v) (fun q => ∃ x, q = .violation (.str text) v text x)
        ((Code.checker c true).call m [v] [] r)) ∧
    (∀ message k sig name cs text, s.Checks k sig (.str name) cs → Surfaces (Meets m s limits.depth v)
      (fun q => ∃ b, q = .input b ∧ b.Tells (.str name) (.str text) v)
        (Signature.rejectInput m message k (.str text) v s)) ∧
    ∀ before between reason k sig name cs r, s.Checks k sig (.str name) cs → s.Worded r →
      Surfaces (Meets m s limits.depth v) (fun q => ∃ b, q = .output b reason ∧ b.Tells (.str name) r.description v)
        (Signature.rejectOutput m before between reason k r.value v s) := by
  have h := breaks_shortText hset hlimit hv
  refine ⟨h,fun c text r hd hr => ?_,fun message k sig name cs text hk => ?_,fun _ _ _ k sig name cs r hk hr => ?_⟩
  · have hsingle : Operation.single "args" [v] [] r = .ok v r := rfl
    have hcall : (Code.checker c true).call m [v] [] r
        = (do fail (.violation (.str text) v text (← shortText m v)) : Act Value) s := by
      rw [Code.call,bind_ok hsingle,Operation.runChecker,bind_ok hr,hd]
      simp only [Bool.false_eq_true,if_false,if_true]
      rw [bind_ok (formatted_str m text s)]
    rw [hcall]
    constructor
    · intro hno
      obtain ⟨x,t,hx,-⟩ := h.calm hno s (Store.Keeps.refl _ s)
      exact ⟨_,t,by rw [bind_ok hx]; rfl,x,rfl⟩
    · intro hmet
      obtain ⟨q,t,hq,-,hcls⟩ := h.fails hmet s (Store.Keeps.refl _ s)
      exact ⟨q,t,bind_error hq,hcls⟩
  · exact refusal_surfaces hset hlimit hv (Signature.rejectInput_refuses hk ⟨text,rfl⟩ message v)
  · exact refusal_surfaces hset hlimit hv (Signature.rejectOutput_refuses hk hr _ _ _ v)

end surfaces

/-- An instance of a class named like a builtin one, a tuple without it and one with it. -/
def withImpostor : Store :=
  { Store.initial with
    heap := Store.initial.heap ++
      #[{ cls := .builtin .type, attrs := some [], body := .cls ⟨"list","list",.builtin .object,[],true⟩ },
        { cls := .defined 33, attrs := some [], body := .plain },
        { cls := .builtin .tuple, body := .tuple [.str "a"] },
        { cls := .builtin .tuple, body := .tuple [.str "a",.ref 34] }] }

theorem impostor_withImpostor : Impostor Machine.halted withImpostor (.ref 34) := by
  refine .bare (k := .list) ⟨⟨34,33,rfl,rfl,rfl⟩,⟨.object,by decide⟩,by decide,by decide⟩ ?_ (by decide)
  exact Store.toldAs_defined (Store.holds_all_of_body (b := .plain) rfl) rfl rfl (by decide)

theorem known_str (n : Nat) (x : String) : Known m s n (.str x) := by
  intro w hw
  cases hw with
  | self => exact Or.inr (Or.inl (.string x))
  | part h _ _ =>
    obtain ⟨b,hb,-⟩ := h.body
    cases hb

theorem not_meets_str (n : Nat) (x : String) : ¬ Meets m s n (.str x) := by
  rintro ⟨w,hw,himp⟩
  cases hw with
  | self =>
    obtain ⟨r,-,h,-⟩ := himp.isMute.place
    cases h
  | part h _ _ =>
    obtain ⟨b,hb,-⟩ := h.body
    cases hb

theorem known_impostor (n : Nat) (hv : Impostor m s v) : Known m s n v := by
  intro w hw
  cases hw with
  | self => exact Or.inr (Or.inr hv)
  | part h _ _ =>
    obtain ⟨b,hb,hplain⟩ := h.body
    obtain ⟨r,D,rfl,-,hr⟩ := hv.isMute.place
    exact absurd (Option.some.inj (hb.symm.trans hr)) hplain

/-- Only the tuple without it is told of. -/
theorem surfaces_withImpostor :
    (∃ x t, (Code.checker Contract.number true).call Machine.halted [.ref 35] [] withImpostor
      = .error (.raised (.violation (.str "type number") (.ref 35) "type number" x)) t) ∧
    ∃ q t, (Code.checker Contract.number true).call Machine.halted [.ref 36] [] withImpostor = .error (.raised q) t ∧
      .exception ∈ q.cls.line ∧ .contractError ∉ q.cls.line := by
  have himp := impostor_withImpostor
  have hplain : withImpostor.IsTuple (.ref 35) [.str "a"] := ⟨rfl,rfl⟩
  have hboth : withImpostor.IsTuple (.ref 36) [.str "a",.ref 34] := ⟨rfl,rfl⟩
  have hset : withImpostor.Owns (.ref settingsRef) := ⟨_,_,rfl,rfl,rfl⟩
  have hno : ¬ Meets Machine.halted withImpostor limits.depth (.ref 35) := by
    have htuple := meets_tuple (m := Machine.halted) (n := 5) hplain
    exact fun h => by simpa [limits,not_meets_str] using htuple.mp h
  have hmet : Meets Machine.halted withImpostor limits.depth (.ref 36) :=
    (meets_tuple (n := 5) hboth).mpr ⟨.ref 34,by simp [limits],.ref 34,.self,himp⟩
  have hknown : Known Machine.halted withImpostor limits.depth (.ref 35) :=
    known_tuple (n := 5) hplain (by simp [limits,known_str])
  have hknown' : Known Machine.halted withImpostor limits.depth (.ref 36) :=
    known_tuple (n := 5) hboth (by simp [limits,known_str,known_impostor _ himp])
  obtain ⟨-,htold,-⟩ := surfaces_unless_met hset rfl hknown
  obtain ⟨-,hlost,-⟩ := surfaces_unless_met hset rfl hknown'
  obtain ⟨_,t,hx,x,rfl⟩ := (htold Contract.number "type number" withImpostor rfl rfl).told hno
  exact ⟨⟨x,t,hx⟩,(hlost Contract.number "type number" withImpostor rfl rfl).lost hmet⟩

/-- A strict check of a single number, and an instance of a class that bears the name of a builtin one. -/
def strictNumber : Act (Value × Value) := do
  let c ← (Expr.classDef "list" [] []).eval Machine.full []
  let x ← Machine.full.call c [] []
  return (← Operation.checker Machine.full [Contract.number.value] true,x)

/-- Neither a text nor the instance is a list of one number; where it cannot be shown, that is no violation. -/
theorem fails_impostor_checked :
    faultClass (strictNumber >>= fun p => Machine.full.call p.1 [.str "a"] []) Store.initial
      = some .contractViolation ∧
    faultClass (strictNumber >>= fun p => Machine.full.call p.1 [p.2] []) Store.initial = some .typeError := by
  decide +kernel

end Rendering
end CallContracts
