import CallContracts.Proofs.Listing
/-! Native values: their classes leave to the builtin ancestors what is asked while a contract runs, which is what
a value belongs to, which items an array has and which fields an object has.  Such questions are answered at once
and leave the store as it is; the answers are functions of the store. -/
namespace CallContracts
open Act

namespace Store

/-- Membership in a builtin class, as the line of ancestors tells. -/
def belongs (s : Store) (v : Value) (c : BuiltinClass) : Bool := s.isSubclass (s.classOf v) (.builtin c)

def isSequence (s : Store) (v : Value) : Bool := s.belongs v .list || s.belongs v .tuple

/-- The items of a list or tuple. -/
def elements (s : Store) (v : Value) : List Value :=
  match s.body? v with
  | some (.list xs) | some (.tuple xs) => xs
  | _ => []

def kind (s : Store) (v : Value) : Kind :=
  if v = .undefined then .undefined
  else if v = .absent then .null
  else if s.belongs v .bool then .boolean
  else if s.belongs v .number then .number
  else if s.belongs v .str then .string
  else if !s.isCallable v then .object
  else if s.belongs v .type then .object
  else .function

/-- The fields of a mapping, or of a value of kind object that is no array and has attributes. -/
def fields? (s : Store) (v : Value) : Option (List (Value × Value)) :=
  if s.belongs v .mapping then s.entries? v
  else if s.kind v ≠ .object || s.isSequence v then none
  else if s.isClass v || (s.attrs? v).isSome then some (s.entriesAt (.attributes v))
  else none

/-- A mapping that holds its entries itself, or lets those of another one be read, and lists them as builtin
mappings do. -/
structure Maps (s : Store) (v : Value) (es : List (Value × Value)) : Prop where
  held : s.entries? v = some es
  behind : s.isA (s.behind v) .orderedDict → s.entries? (s.behind v) = some es
  lists : s.isNative (s.behind v) "items"
  distinct : (es.map Prod.fst).Nodup

/-- A value that leaves to its builtin ancestors what is asked of it. -/
structure Native (s : Store) (v : Value) : Prop where
  honest : s.spoofs (s.classOf v) = false
  array : s.isSequence v → s.overrides (s.classOf v) ["__iter__","__len__"] = false ∧
    ∃ xs, s.body? v = some (.list xs) ∨ s.body? v = some (.tuple xs)
  mapping : s.belongs v .mapping → ∃ es, s.Maps v es
  object : s.kind v = .object → s.isSequence v = false → s.belongs v .mapping = false →
    s.hidesTable v = false ∧ ((s.entriesAt (.attributes v)).map Prod.fst).Nodup

end Store

section questions
variable {m : Machine} {s : Store} {v : Value}

theorem isKind_native (h : s.Native v) (c : BuiltinClass) : isKind m v c s = .ok (s.belongs v c) s :=
  isInstance_native h.honest

theorem isArray_native (h : s.Native v) : isArray m v s = .ok (s.isSequence v) s := by
  rw [isArray,bind_ok (isKind_native h .list)]
  cases hl : s.belongs v .list with
  | true => simp [Store.isSequence,hl]
  | false => simpa [Store.isSequence,hl] using isKind_native h .tuple

theorem kindOf_native (h : s.Native v) : kindOf m v s = .ok (s.kind v) s := by
  unfold kindOf Store.kind
  split
  · rfl
  · split
    · rfl
    · rw [bind_ok (isKind_native h .bool)]
      split
      · rfl
      · rw [bind_ok (isKind_native h .number)]
        split
        · rfl
        · rw [bind_ok (isKind_native h .str)]
          split
          · rfl
          · rw [get_bind_apply]
            split
            · rfl
            · rw [bind_ok (isKind_native h .type)]
              split <;> rfl

/-- A class comes from itself. -/
theorem Store.isSubclass_self (s : Store) (c : ClassId) : s.isSubclass c c = true := by
  have h : c ∈ s.line c := by
    cases c with
    | builtin b =>
      rw [line_builtin]
      exact List.mem_map_of_mem (by cases b <;> decide)
    | defined r =>
      rw [line]
      cases s.heap.size <;> simp [lineFrom]
  simp [isSubclass,comesFrom,h]

theorem Store.class?_value {s : Store} {c k : ClassId} (h : s.class? c.value = some k) : c = k := by
  cases c with
  | builtin b => simpa [ClassId.value,class?] using h
  | defined r =>
    simp only [ClassId.value,class?,Option.map_eq_some_iff] at h
    obtain ⟨-,-,rfl⟩ := h
    rfl

/-- Membership in a class whose own class does not decide it. -/
theorem belongsTo_native {cls : Value} {k : ClassId} (h : s.Native v) (hk : s.class? cls = some k)
    (hc : s.override? (s.classOf cls) "__instancecheck__" = none) :
    belongsTo m depthLimit v cls s = .ok (s.isSubclass (s.classOf v) k) s := by
  change belongsTo m (999+1) _ _ s = _
  generalize 999 = n
  rw [belongsTo,get_bind_apply]
  split
  · rename_i heq
    obtain rfl := Store.class?_value (heq ▸ hk)
    rw [Store.isSubclass_self]
    rfl
  · have hbody : ∀ xs, s.body? cls ≠ some (.tuple xs) := by
      intro xs hb
      obtain ⟨r,rfl⟩ := Store.ref_of_body hb
      rw [Store.class?_of_body hb (by simp)] at hk
      cases hk
    simp only [hc,hk]
    exact isInstance_native h.honest

end questions

/-- An iteration that gives these items and then ends, looking at nothing but the store. -/
def Cursor.Runs (m : Machine) (s : Store) : List Given → Cursor → Prop
  | [], c => c.next m s = .ok none s
  | x :: xs, c => ∃ c', c.next m s = .ok (some (x,c')) s ∧ c'.Runs m s xs

namespace Cursor
variable {m : Machine} {s : Store} {v : Value} {W : Store → Prop}

theorem Steps.runs {xs : List Given} {c : Cursor} (h : c.Steps W m xs) (hs : W s) : c.Runs m s xs := by
  induction xs generalizing c with
  | nil => exact h s hs
  | cons x xs ih =>
    obtain ⟨c',hnext,hrest⟩ := h
    exact ⟨c',hnext s hs,ih hrest⟩

theorem steps_fixed (xs : List Value) : (Cursor.fixed xs).Steps W m (xs.map .value) := by
  induction xs with
  | nil => exact fun _ _ => rfl
  | cons x xs ih => exact ⟨_,fun _ _ => rfl,ih⟩

/-- A list is gone over by position. -/
theorem steps_list {r : Ref} {xs : List Value} (h : ∀ w, W w → w.items? (.ref r) = some xs) (i : Nat) :
    (Cursor.list r i).Steps W m ((xs.drop i).map .value) := by
  induction hd : xs.drop i generalizing i with
  | nil =>
    have hx : xs[i]? = none := by simpa using List.drop_eq_nil_iff.mp hd
    exact fun w hw => by simp [next,h w hw,hx]
  | cons x rest ih =>
    have hx : xs[i]? = some x := by
      rw [← List.head?_drop,hd]
      rfl
    have hrest : xs.drop (i+1) = rest := by
      rw [← List.drop_drop,hd]
      rfl
    exact ⟨.list r (i+1),fun w hw => by simp [next,h w hw,hx],ih (i+1) hrest⟩

theorem dropWhile_ne {k : Value} {done rest : List Value} (hk : k ∉ done) :
    (done ++ k :: rest).dropWhile (· ≠ k) = k :: rest := by
  induction done with
  | nil => simp
  | cons a done ih =>
    simp only [List.mem_cons,not_or] at hk
    simpa [Ne.symm hk.1] using ih hk.2

/-- An ordered table fixes the next key with the one before. -/
theorem steps_ordered {es : List (Value × Value)} (part : Part) (hs : ∀ w, W w → w.entries? v = some es)
    (hn : (es.map Prod.fst).Nodup) (done rest : List (Value × Value)) (he : es = done ++ rest) :
    (Cursor.ordered part v (es.map Prod.fst) (rest.head?.map Prod.fst)).Steps W m (rest.map (partOf part)) := by
  induction rest generalizing done with
  | nil => exact fun _ _ => rfl
  | cons e rest ih =>
    obtain ⟨k,x⟩ := e
    have hkeys : es.map Prod.fst = done.map Prod.fst ++ k :: rest.map Prod.fst := by simp [he]
    have hk : k ∉ done.map Prod.fst := by
      rw [hkeys] at hn
      exact fun h => (List.nodup_append.mp hn).2.2 k h k (by simp) rfl
    have hfind : es.find? (fun e => e.1 = k) = some (k,x) := by
      rw [he,List.find?_append,List.find?_eq_none.mpr,Option.none_or]
      · simp
      · intro e hmem
        simp only [decide_eq_true_eq]
        rintro rfl
        exact hk (List.mem_map_of_mem hmem)
    have hnext : (((es.map Prod.fst).dropWhile (· ≠ k)).drop 1).head? = rest.head?.map Prod.fst := by
      rw [hkeys,dropWhile_ne hk]
      cases rest <;> rfl
    refine ⟨_,fun w hw => ?_,ih (done ++ [(k,x)]) (by simp [he])⟩
    simp only [next,List.head?_cons,Option.map_some,nextOrdered,get_bind_apply,hs w hw,Option.getD_some,
      ne_eq,not_true_eq_false,if_false,hfind,hnext]
    rfl

/-- Whether all items pass is found out within the bound. -/
theorem every_runs {α : Type} {f : Given → Act Bool} {g : α → Given} {p : α → Prop} {xs : List α} {c : Cursor}
    {n : Nat} (hc : c.Runs m s (xs.map g)) (hf : ∀ x ∈ xs, ∃ b, f (g x) s = .ok b s ∧ (b ↔ p x))
    (hn : xs.length < n) : ∃ b, c.every m f n s = .ok b s ∧ (b ↔ ∀ x ∈ xs, p x) := by
  induction xs generalizing c n with
  | nil =>
    obtain ⟨n,rfl⟩ := Nat.exists_eq_add_one_of_ne_zero (Nat.ne_of_gt hn)
    refine ⟨true,?_,by simp⟩
    rw [every,bind_ok hc]
    rfl
  | cons x xs ih =>
    obtain ⟨n,rfl⟩ := Nat.exists_eq_add_one_of_ne_zero (Nat.ne_of_gt (Nat.zero_lt_of_lt hn))
    obtain ⟨c',hnext,hc'⟩ := hc
    obtain ⟨b,hb,hp⟩ := hf x (by simp)
    rw [every,bind_ok hnext]
    simp only []
    rw [bind_ok hb]
    cases b with
    | false => exact ⟨false,rfl,by simp [← hp]⟩
    | true =>
      obtain ⟨b',hb',hps⟩ := ih hc' (fun y hy => hf y (by simp [hy])) (by simpa using hn)
      exact ⟨b',hb',by simp [hps,← hp]⟩

/-- Within the bound, all items are taken. -/
theorem take_runs {xs : List Value} {c : Cursor} {n : Nat} (hc : c.Runs m s (xs.map .value)) (hn : xs.length < n) :
    c.take m n s = .ok xs s := by
  induction xs generalizing c n with
  | nil =>
    obtain ⟨n,rfl⟩ := Nat.exists_eq_add_one_of_ne_zero (Nat.ne_of_gt hn)
    rw [take,bind_ok hc]
    rfl
  | cons x xs ih =>
    obtain ⟨n,rfl⟩ := Nat.exists_eq_add_one_of_ne_zero (Nat.ne_of_gt (Nat.zero_lt_of_lt hn))
    obtain ⟨c',hnext,hc'⟩ := hc
    have htoValue : (Given.value x).toValue s = .ok x s := rfl
    rw [take,bind_ok hnext]
    simp only []
    rw [bind_ok htoValue,bind_ok (ih hc' (by simpa using hn))]
    rfl

end Cursor

section iteration
variable {m : Machine} {s : Store} {v : Value} {es : List (Value × Value)}

theorem override?_of_overrides {c : ClassId} {ns : List String} {n : String} (h : s.overrides c ns = false)
    (hn : n ∈ ns) : s.override? c n = none := by
  simpa using List.any_eq_false.mp h n hn

/-- The items of an array, and how many there are. -/
theorem cursorOf_native (h : s.Native v) (ha : s.isSequence v) :
    (∃ c, cursorOf m v s = .ok c s ∧ c.Runs m s ((s.elements v).map .value) ∧
      (s.elements v).length < s.bound c) ∧ lengthOf m v s = .ok (s.elements v).length s := by
  obtain ⟨hover,xs,hxs⟩ := h.array ha
  have hiter := override?_of_overrides hover (n := "__iter__") (by simp)
  have hlen := override?_of_overrides hover (n := "__len__") (by simp)
  obtain ⟨r,rfl⟩ : ∃ r, v = .ref r := by rcases hxs with hb | hb <;> exact Store.ref_of_body hb
  rcases hxs with hb | hb
  · have hp : s.pieces? (.ref r) = none := Store.pieces?_of_body hb (by simp) (by simp)
    have ht : s.text? (.ref r) = none := Store.text?_of_body hb (by simp)
    have he : s.elements (.ref r) = xs := by simp [Store.elements,hb]
    have hi : s.items? (.ref r) = some xs := by simp [Store.items?,hb]
    rw [he]
    refine ⟨⟨.list r 0,by simp [cursorOf,hiter,nativeCursor,hp,hb],by
      simpa using (Cursor.steps_list (W := (· = s)) (fun w hw => hw ▸ hi) 0).runs rfl,?_⟩,
      by simp [lengthOf,hlen,Store.nativeLength?,ht,hb]⟩
    simp [Store.bound,Store.remaining,hi,stepLimit]
  · have hp : s.pieces? (.ref r) = none := Store.pieces?_of_body hb (by simp) (by simp)
    have ht : s.text? (.ref r) = none := Store.text?_of_body hb (by simp)
    have he : s.elements (.ref r) = xs := by simp [Store.elements,hb]
    rw [he]
    refine ⟨⟨.fixed xs,by simp [cursorOf,hiter,nativeCursor,hp,hb],(Cursor.steps_fixed (W := (· = s)) xs).runs rfl,?_⟩,
      by simp [lengthOf,hlen,Store.nativeLength?,ht,hb]⟩
    simp [Store.bound,Store.remaining,stepLimit]

/-- All that an iteration over an array gives are its items. -/
theorem iterate_native (h : s.Native v) (ha : s.isSequence v) : iterate m v s = .ok (s.elements v) s := by
  obtain ⟨c,hc,hruns,hbound⟩ := (cursorOf_native (m := m) h ha).1
  rw [iterate,bind_ok hc,get_bind_apply]
  exact Cursor.take_runs hruns hbound

section sequence
variable {b : BuiltinClass} {xs : List Value} (hc : s.classOf v = .builtin b) (hb : b ∈ [BuiltinClass.list,.tuple])
include hc hb

theorem isSequence_builtin : s.isSequence v = true ∧ s.belongs v .mapping = false := by
  simp only [Store.isSequence,Store.belongs,hc,Store.isSubclass_builtin s {}]
  rcases List.mem_pair.mp hb with rfl | rfl <;> decide

/-- Lists and tuples that no class of the program makes are native. -/
theorem native_sequence (hxs : s.body? v = some (.list xs) ∨ s.body? v = some (.tuple xs)) : s.Native v := by
  obtain ⟨hseq,hmapping⟩ := isSequence_builtin hc hb
  refine ⟨by rw [hc,Store.spoofs_builtin],fun _ => ⟨by rw [hc,Store.overrides_builtin],xs,hxs⟩,fun h => ?_,
    fun _ h => ?_⟩
  · rw [hmapping] at h
    cases h
  · rw [hseq] at h
    cases h

end sequence

theorem itemsOf_maps (h : s.Maps v es) : itemsOf m v s = .ok (s.overEntries .items v) s := by
  simp [itemsOf,h.held,h.lists]

theorem itemsOf_native (h : s.Maps v es) :
    ∃ c, itemsOf m v s = .ok c s ∧ c.Runs m s (es.map (partOf .items)) ∧ es.length < s.bound c := by
  refine ⟨_,itemsOf_maps h,?_⟩
  simp only [Store.overEntries,h.held,Option.getD_some]
  split
  · have hheld : ∀ w, w = s → w.entries? (s.behind v) = some es := fun w hw => hw ▸ h.behind ‹_›
    exact ⟨by simpa using (Cursor.steps_ordered .items hheld h.distinct [] es rfl).runs rfl,
      by simp [Store.bound,Store.remaining,stepLimit]⟩
  · have hat : ∀ w, w = s → w.entriesAt (.entries v) = es := fun w hw => by simp [hw,Store.entriesAt,h.held]
    exact ⟨(Cursor.steps_entries .items hat h.distinct [] es rfl).runs rfl,
      by simp [Store.bound,Store.remaining,stepLimit]⟩

/-- A mapping is asked for its items. -/
theorem ownFields_mapping (h : s.Native v) (hm : s.belongs v .mapping = true) (hes : s.Maps v es) :
    ownFields m v s = .ok (some (s.overEntries .items v)) s := by
  have hmapping : isMapping m v s = .ok true s := hm ▸ isKind_native h .mapping
  rw [ownFields,bind_ok hmapping]
  simp only [if_true]
  rw [bind_ok (itemsOf_maps hes)]
  rfl

/-- What is no mapping is taken by its kind. -/
theorem ownFields_other (h : s.Native v) (hm : s.belongs v .mapping = false) :
    ownFields m v s = (if s.kind v ≠ .object then pure none
      else if s.isSequence v then pure none
      else if s.hidesTable v then declaredFields m v
      else if s.isClass v || (s.attrs? v).isSome then pure (some (s.overAttributes .items v))
      else pure none : Act (Option Cursor)) s := by
  have hmapping : isMapping m v s = .ok false s := hm ▸ isKind_native h .mapping
  rw [ownFields,bind_ok hmapping]
  simp only [Bool.false_eq_true,if_false]
  rw [bind_ok (kindOf_native h)]
  split
  · rfl
  · rw [bind_ok (isArray_native h)]
    split <;> rfl

/-- An object that has attributes is asked for these. -/
theorem ownFields_object (h : s.Native v) (hm : s.belongs v .mapping = false) (hk : s.kind v = .object)
    (ha : s.isSequence v = false) (hattrs : (s.isClass v || (s.attrs? v).isSome) = true) :
    ownFields m v s = .ok (some (s.overAttributes .items v)) s := by
  rw [ownFields_other h hm]
  simp only [hk,ha,(h.object hk ha hm).1,hattrs,ne_eq,not_true_eq_false,Bool.false_eq_true,if_false,if_true]
  rfl

/-- The fields of a value, if it has any. -/
theorem ownFields_native (h : s.Native v) :
    match s.fields? v with
    | none => ownFields m v s = .ok none s
    | some es => ∃ c, ownFields m v s = .ok (some c) s ∧ c.Runs m s (es.map (partOf .items)) ∧
        es.length < s.bound c := by
  cases hm : s.belongs v .mapping with
  | true =>
    obtain ⟨es,hes⟩ := h.mapping hm
    obtain ⟨c,hc,hruns,hbound⟩ := itemsOf_native (m := m) hes
    have hf : s.fields? v = some es := by simp [Store.fields?,hm,hes.held]
    obtain rfl : c = s.overEntries .items v := by simpa [itemsOf_maps hes] using hc.symm
    rw [hf]
    exact ⟨_,ownFields_mapping h hm hes,hruns,hbound⟩
  | false =>
    by_cases hk : s.kind v = .object
    · cases ha : s.isSequence v with
      | true => simp [ownFields_other h hm,Store.fields?,hm,hk,ha]
      | false =>
        obtain ⟨hhides,hdistinct⟩ := h.object hk ha hm
        by_cases hattrs : (s.isClass v || (s.attrs? v).isSome) = true
        · simp only [Store.fields?,hm,hk,ha,hattrs,Bool.false_eq_true,if_false,if_true,ne_eq,not_true_eq_false,
            decide_false,Bool.or_self]
          have hat : ∀ w, w = s → w.entriesAt (.attributes v) = s.entriesAt (.attributes v) := fun w hw => by rw [hw]
          exact ⟨_,ownFields_object h hm hk ha hattrs,(Cursor.steps_entries .items hat hdistinct [] _ rfl).runs rfl,
            by simp [Store.overAttributes,Store.bound,Store.remaining,stepLimit]⟩
        · simp [ownFields_other h hm,Store.fields?,hm,hk,ha,hhides,hattrs]
    · simp [ownFields_other h hm,Store.fields?,hm,hk]

end iteration
end CallContracts
