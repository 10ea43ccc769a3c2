import Mathlib.Data.List.Nodup
import CallContracts.Proofs.Lineage
import CallContracts.Proofs.Repeated
/-! What a value shows of its fields.  A value is asked for its fields each time that a record contract runs on it, and the
program may have a say in the answer.  Many values show the same each time: those that the language answers for, which
are tables, what lets a table be read, and objects with attributes, and those of the program that keep to what they
said. -/
namespace CallContracts
open Act

/-- What may happen to a store while contracts run: nothing at all, one thing after another, and contracts stay. -/
structure Leeway (R : Store → Store → Prop) : Prop where
  refl : ∀ w, R w w
  trans : ∀ {w y z}, R w y → R y z → R w z
  retains : ∀ {w z}, R w z → w.Retains z

namespace Act
variable {α β : Type}

/-- From a store on, ends well each time, within the leeway. -/
def Surely (R : Store → Store → Prop) (w : Store) (x : Act α) (P : α → Store → Prop) : Prop :=
  ∀ y, R w y → ∃ a z, x y = .ok a z ∧ R y z ∧ P a z

/-- Ends with the same result each time. -/
def Repeats (R : Store → Store → Prop) (w : Store) (x : Act α) (a : α) : Prop := Surely R w x fun b _ => b = a

/-- Is stopped each time. -/
def Stops (R : Store → Store → Prop) (w : Store) (x : Act α) : Prop := ∀ y, R w y → ∃ e z, x y = .error e z

/-- Finds each time that something is so, or never. -/
def Settles (R : Store → Store → Prop) (w : Store) (x : Act Bool) : Bool → Prop
  | true => Repeats R w x true
  | false => ∀ y, R w y → ∀ z, x y ≠ .ok true z

section leeway
variable {R : Store → Store → Prop} {w z : Store} {x : Act α} {f : α → Act β} {a : α} {P : α → Store → Prop}
  {Q : β → Store → Prop}

theorem Stops.bind (hx : Stops R w x) : Stops R w (x >>= f) := by
  intro y hy
  obtain ⟨e,z,hz⟩ := hx y hy
  exact ⟨e,z,bind_error hz⟩

theorem Stops.settles {x : Act Bool} (h : Stops R w x) : Settles R w x false := by
  intro y hy z hz
  obtain ⟨e,u,hu⟩ := h y hy
  simp [hu] at hz

theorem Repeats.settles {x : Act Bool} {b : Bool} (h : Repeats R w x b) : Settles R w x b := by
  cases b with
  | true => exact h
  | false =>
    intro y hy z hz
    obtain ⟨o,u,hu,-,rfl⟩ := h y hy
    simp [hu] at hz

theorem Settles.congr {x y : Act Bool} {b : Bool} (h : ∀ u, R w u → y u = x u) (hx : Settles R w x b) :
    Settles R w y b := by
  cases b with
  | true =>
    intro u hu
    rw [h u hu]
    exact hx u hu
  | false =>
    intro u hu z
    rw [h u hu]
    exact hx u hu z

variable (hR : Leeway R)
include hR

theorem repeats_of_eq (h : ∀ y, R w y → x y = .ok a y) : Repeats R w x a := fun y hy => ⟨a,y,h y hy,hR.refl y,rfl⟩

theorem repeats_pure (a : α) : Repeats R w (pure a) a := repeats_of_eq hR fun _ _ => rfl

theorem Surely.later (h : Surely R w x P) (hz : R w z) : Surely R z x P := fun y hy => h y (hR.trans hz hy)

theorem Settles.later {x : Act Bool} {b : Bool} (h : Settles R w x b) (hz : R w z) : Settles R z x b := by
  cases b with
  | true => exact Surely.later hR h hz
  | false => exact fun y hy => h y (hR.trans hz hy)

theorem Surely.bind (hx : Surely R w x P) (hf : ∀ a z, R w z → P a z → Surely R z (f a) Q) : Surely R w (x >>= f) Q := by
  intro y hy
  obtain ⟨a,z,hz,hyz,hP⟩ := hx y hy
  obtain ⟨b,u,hu,hzu,hQ⟩ := hf a z (hR.trans hy hyz) hP z (hR.refl z)
  exact ⟨b,u,(bind_ok hz).trans hu,hR.trans hyz hzu,hQ⟩

/-- What is read of the store first does not matter, if the result does not depend on it. -/
theorem repeats_get {f : Store → Act α} (h : ∀ y, R w y → Repeats R y (f y) a) : Repeats R w (get >>= f) a := by
  intro y hy
  rw [get_bind_apply]
  exact h y hy y (hR.refl y)

theorem settles_get {f : Store → Act Bool} {b : Bool} (h : ∀ y, R w y → Settles R y (f y) b) :
    Settles R w (get >>= f) b := by
  cases b with
  | true => exact repeats_get hR h
  | false =>
    intro y hy
    rw [get_bind_apply]
    exact h y hy y (hR.refl y)

theorem Surely.settles {f : α → Act Bool} {b : Bool} (hx : Surely R w x P)
    (hf : ∀ a z, R w z → P a z → Settles R z (f a) b) : Settles R w (x >>= f) b := by
  cases b with
  | true => exact hx.bind hR hf
  | false =>
    intro y hy u hu
    obtain ⟨a,z,hz,hyz,hP⟩ := hx y hy
    rw [bind_ok hz] at hu
    exact hf a z (hR.trans hy hyz) hP z (hR.refl z) u hu

theorem Repeats.bind {b : β} (hx : Repeats R w x a) (hf : Repeats R w (f a) b) : Repeats R w (x >>= f) b :=
  Surely.bind hR hx fun _ _ hz h => h ▸ Surely.later hR hf hz

theorem Repeats.bindSettles {f : α → Act Bool} {b : Bool} (hx : Repeats R w x a) (hf : Settles R w (f a) b) :
    Settles R w (x >>= f) b :=
  Surely.settles hR hx fun _ _ hz h => h ▸ hf.later hR hz

/-- One test after the other. -/
theorem Settles.and {x y : Act Bool} {a b : Bool} (hx : Settles R w x a) (hy : Settles R w y b) :
    Settles R w (x >>= fun o => if o then y else pure false) (a && b) := by
  cases a with
  | true => simpa using Repeats.bindSettles (f := fun o => if o then y else pure false) hR hx hy
  | false =>
    intro u hu z hz
    obtain ⟨o,v,hv,hz⟩ := bind_eq_ok.mp hz
    cases o with
    | true => exact hx u hu v hv
    | false => cases hz

end leeway
end Act

/-- The text that a name of a field is, for what is looked up by texts: each time it compares with texts as this text
does.  A name that is no text is equal to none, or cannot be compared. -/
def Spells (R : Store → Store → Prop) (n : Machine) (w : Store) (name : Value) : Option String → Prop
  | some t => ∀ k, Repeats R w (sameKey n (.str k) name) (decide (k = t))
  | none => ∀ k, Repeats R w (sameKey n (.str k) name) false ∨ Stops R w (sameKey n (.str k) name)

/-- One step of an iteration over fields: a name that can be a key, a value, and what remains. -/
def Cursor.field (n : Machine) (c : Cursor) : Act (Option (Value × Value × Cursor)) := do
  match ← c.next n with
  | none => return none
  | some (g,c) =>
    let e ← fieldParts n g
    checkKey n e.1
    return some (e.1,e.2,c)

/-- An iteration that shows these fields, by the texts that their names are, and then ends or is stopped. -/
def Cursor.Displays (R : Store → Store → Prop) (n : Machine) : List (Option String × Value) → Bool → Store → Cursor → Prop
  | [], true, w, c => Repeats R w (c.field n) none
  | [], false, w, c => Stops R w (c.field n)
  | (t,x) :: es, whole, w, c => Surely R w (c.field n) fun o z =>
      ∃ name c', o = some (name,x,c') ∧ Spells R n z name t ∧ c'.Displays R n es whole z

/-- What a value shows when it is asked for its fields: that it is no record, or fields, to the end or not. -/
inductive Display where
  | other
  | fields (es : List (Option String × Value)) (whole : Bool)

def Display.shown : Display → List (Option String × Value)
  | other => []
  | fields es _ => es

/-- A value that shows the same each time it is asked for its fields.  It may refuse to show any, be stopped on the way,
or go on for longer than is looked at. -/
inductive Displays (R : Store → Store → Prop) (n : Machine) (w : Store) (v : Value) : Display → Prop
  | other : Repeats R w (ownFields n v) none → Displays R n w v .other
  | refused : Stops R w (ownFields n v) → Displays R n w v (.fields [] false)
  | fields {es : List (Option String × Value)} {whole : Bool} :
      (Surely R w (ownFields n v) fun o z => ∃ c, o = some c ∧ c.Displays R n es whole z ∧
        ∀ y, R z y → es.length < y.bound c) →
      Displays R n w v (.fields es whole)
  | endless {es : List (Option String × Value)} {whole : Bool} :
      (Surely R w (ownFields n v) fun o z => ∃ c, o = some c ∧ c.Displays R n es whole z ∧
        ∀ y, R z y → y.bound c ≤ es.length) →
      Displays R n w v (.fields es false)

/-- A value whose fields are gone over in the same steps in all stores of a kind: its fields are these, all of them, and
their names are texts. -/
def Unrolls (W : Store → Prop) (n : Machine) (v : Value) (fs : Fields Value) : Prop :=
  ∃ c, (∀ w, W w → ownFields n v w = .ok (some c) w) ∧ c.Steps W n ((fieldEntries fs).map (partOf .items)) ∧
    ∀ w, W w → fs.length < w.bound c

section unrolls
variable {R : Store → Store → Prop} (hR : Leeway R) {n : Machine} {w z : Store} {v : Value} {fs : Fields Value}
  {c : Cursor}
include hR

theorem Cursor.Steps.displays (hc : c.Steps (R w ·) n ((fieldEntries fs).map (partOf .items))) (hz : R w z) :
    c.Displays R n (fs.map fun f => (some f.1,f.2)) true z := by
  induction fs generalizing c z with
  | nil =>
    refine repeats_of_eq hR fun y hy => ?_
    rw [Cursor.field,bind_ok (hc y (hR.trans hz hy))]
    rfl
  | cons f fs ih =>
    obtain ⟨c',hnext,hrest⟩ := hc
    intro y hy
    have hwy := hR.trans hz hy
    refine ⟨some (.str f.1,f.2,c'),y,?_,hR.refl y,.str f.1,c',rfl,fun k => repeats_of_eq hR fun u _ => ?_,ih hrest hwy⟩
    · rw [Cursor.field,bind_ok (hnext y hwy)]
      simp only [partOf,fieldParts,pure_bind]
      rw [bind_ok (checkKey_str n f.1 y)]
      rfl
    · rw [sameKey_str]

theorem Unrolls.displays (h : Unrolls (R w ·) n v fs) : Displays R n w v (.fields (fs.map fun f => (some f.1,f.2)) true) := by
  obtain ⟨c,hown,hc,hbound⟩ := h
  exact .fields fun y hy => ⟨some c,y,hown y hy,hR.refl y,c,rfl,hc.displays hR hy,fun z hz => by
    simpa using hbound z (hR.trans hy hz)⟩

end unrolls

section carriers

theorem nodup_fieldEntries {fs : Fields Value} (h : (Fields.keys fs).Nodup) : ((fieldEntries fs).map Prod.fst).Nodup := by
  have hmap : (fieldEntries fs).map Prod.fst = (Fields.keys fs).map Value.str := by simp [fieldEntries,Fields.keys]
  rw [hmap]
  exact List.Nodup.map (fun a b hab => by simpa using hab) h

/-- A table of a builtin class with texts as keys, and without an attribute of its own in place of its items. -/
structure Store.IsDict (s : Store) (b : BuiltinClass) (v : Value) (fs : Fields Value) : Prop where
  cls : s.classOf v = .builtin b
  body : s.body? v = some (.table (fieldEntries fs))
  bare : s.attr? v "items" = none

/-- A mapping that lets another one be read. -/
structure Store.IsProxy (s : Store) (v of : Value) : Prop where
  cls : s.classOf v = .builtin .mappingProxy
  body : s.body? v = some (.proxy of)

/-- An object with attributes that cannot be called.  Its class comes from the builtin class `b`, and leaves to the
language of which class the object is and what its attributes are. -/
structure Store.IsBag (s : Store) (b : BuiltinClass) (v : Value) (fs : Fields Value) : Prop where
  line : s.builtinLine (s.classOf v) = b.line
  honest : s.spoofs (s.classOf v) = false
  uncalled : s.isCallable v = false
  tabled : s.hidesTable v = false
  body : s.body? v = some .plain
  attrs : s.attrs? v = some fs

/-- What carries fields in all stores of a kind. -/
inductive Bears (W : Store → Prop) (fs : Fields Value) (v : Value) : Prop
  | dict (h : ∀ w, W w → w.IsDict .dict v fs)
  | orderedDict (h : ∀ w, W w → w.IsDict .orderedDict v fs)
  | mappingProxy {of : Value} {b : BuiltinClass} (hb : b ∈ [BuiltinClass.dict,.orderedDict])
      (h : ∀ w, W w → w.IsProxy v of ∧ w.IsDict b of fs)
  | simpleNamespace (h : ∀ w, W w → w.classOf v = .builtin .attributeBag ∧ w.body? v = some .plain ∧ w.attrs? v = some fs)
  | plainInstance (h : ∀ w, W w → w.IsBag .object v fs)

variable {W : Store → Prop} {n : Machine} {s : Store} {b : BuiltinClass} {v of : Value} {fs : Fields Value}
  {es : List (Value × Value)}

namespace Store

theorem IsDict.entries (h : s.IsDict b v fs) : s.entries? v = some (fieldEntries fs) := entries?_of_table h.body

theorem IsDict.behind (h : s.IsDict b v fs) : s.behind v = v := by simp [Store.behind,h.body]

theorem IsDict.lists (h : s.IsDict b v fs) : s.isNative v "items" = true := by
  rw [isNative,h.cls,overrides_builtin,h.bare]
  rfl

theorem IsDict.maps (h : s.IsDict b v fs) (hn : (Fields.keys fs).Nodup) : s.Maps v (fieldEntries fs) :=
  ⟨h.entries,fun _ => h.behind.symm ▸ h.entries,h.behind.symm ▸ h.lists,nodup_fieldEntries hn⟩

theorem IsProxy.maps (h : s.IsProxy v of) (hof : s.IsDict b of fs) (hn : (Fields.keys fs).Nodup) :
    s.Maps v (fieldEntries fs) := by
  have hbehind : s.behind v = of := by simp [Store.behind,h.body]
  obtain ⟨r,rfl⟩ := ref_of_body hof.body
  have hheld : s.entries? v = some (fieldEntries fs) := by
    cases hsize : s.heap.size with
    | zero =>
      have hb := hof.body
      simp [body?,obj?,get?,hsize] at hb
    | succ k =>
      simp [entries?,entriesFrom,hsize,h.body,class?_of_body hof.body (by simp),hof.body]
  exact ⟨hheld,fun _ => hbehind.symm ▸ hof.entries,hbehind.symm ▸ hof.lists,nodup_fieldEntries hn⟩

/-- Builtin mappings are native. -/
theorem native_mapping (hc : s.classOf v = .builtin b) (hb : b ∈ [BuiltinClass.dict,.orderedDict,.mappingProxy])
    (hes : s.Maps v es) : s.Native v ∧ s.belongs v .mapping = true := by
  have hmapping : s.belongs v .mapping = true := by
    rw [belongs,hc,isSubclass_builtin s {}]
    simp only [List.mem_cons,List.not_mem_nil,or_false] at hb
    rcases hb with rfl | rfl | rfl <;> decide
  have hsequence : s.isSequence v = false := by
    simp only [isSequence,belongs,hc,isSubclass_builtin s {}]
    simp only [List.mem_cons,List.not_mem_nil,or_false] at hb
    rcases hb with rfl | rfl | rfl <;> decide
  refine ⟨⟨by rw [hc,spoofs_builtin],fun h => ?_,fun _ => ⟨es,hes⟩,fun _ _ h => ?_⟩,hmapping⟩
  · rw [hsequence] at h
    cases h
  · rw [hmapping] at h
    cases h

/-- Namespaces are such objects. -/
theorem isBag_namespace (hc : s.classOf v = .builtin .attributeBag) (hb : s.body? v = some .plain)
    (ha : s.attrs? v = some fs) : s.IsBag .attributeBag v fs :=
  ⟨by rw [hc,builtinLine_builtin],by rw [hc,spoofs_builtin],(isCallable_builtin hc).trans (by decide),
    by simp [hidesTable,hc,ha],hb,ha⟩

section bag
variable (h : s.IsBag b v fs) (hb : b ∈ [BuiltinClass.object,.attributeBag])
include h hb

theorem IsBag.belongs {d : BuiltinClass} (hd : d ∈ [BuiltinClass.bool,.number,.str,.list,.tuple,.mapping]) :
    s.belongs v d = false := by
  have hc : d ≠ .callable := by
    rintro rfl
    simp at hd
  rw [Store.belongs,isSubclass_congr h.line hc]
  simp only [List.mem_cons,List.not_mem_nil,or_false] at hd hb
  rcases hb with rfl | rfl <;> rcases hd with rfl | rfl | rfl | rfl | rfl | rfl <;> decide

theorem IsBag.kind : s.kind v = .object := by
  obtain ⟨r,rfl⟩ := ref_of_body h.body
  simp [Store.kind,h.belongs hb,h.uncalled]

theorem IsBag.isSequence : s.isSequence v = false := by simp [Store.isSequence,h.belongs hb]

omit hb in
theorem IsBag.entriesAt : s.entriesAt (.attributes v) = fieldEntries fs := by
  obtain ⟨r,rfl⟩ := ref_of_body h.body
  simp [Store.entriesAt,class?_of_body h.body (by simp),h.attrs]

theorem IsBag.native (hn : (Fields.keys fs).Nodup) : s.Native v := by
  refine ⟨h.honest,fun ha => ?_,fun hm => ?_,fun _ _ _ => ⟨h.tabled,?_⟩⟩
  · rw [h.isSequence hb] at ha
    cases ha
  · rw [h.belongs hb (by simp)] at hm
    cases hm
  · rw [h.entriesAt]
    exact nodup_fieldEntries hn

end bag
end Store

/-- A mapping that is a table, or lets one be read, shows its entries. -/
theorem unrolls_mapping (hb : b ∈ [BuiltinClass.dict,.orderedDict]) (hn : (Fields.keys fs).Nodup)
    (h : ∀ w, W w → (w.Native v ∧ w.belongs v .mapping = true) ∧ w.Maps v (fieldEntries fs) ∧ w.behind v = of ∧
      w.IsDict b of fs) : Unrolls W n v fs := by
  have hown (w : Store) (hw : W w) : ownFields n v w = .ok (some (w.overEntries .items v)) w :=
    ownFields_mapping (h w hw).1.1 (h w hw).1.2 (h w hw).2.1
  have hisA (w : Store) (hw : W w) : w.isA of .orderedDict = decide (b = .orderedDict) := by
    rw [Store.isA_builtin (h w hw).2.2.2.cls]
    rcases List.mem_pair.mp hb with rfl | rfl <;> decide
  by_cases ho : b = .orderedDict
  · have hover (w : Store) (hw : W w) : w.overEntries .items v
        = .ordered .items of ((fieldEntries fs).map Prod.fst) ((fieldEntries fs).head?.map Prod.fst) := by
      simp [Store.overEntries,(h w hw).2.1.held,(h w hw).2.2.1,hisA w hw,ho]
    refine ⟨_,fun w hw => (hown w hw).trans (by rw [hover w hw]),Cursor.steps_ordered .items
      (fun w hw => (h w hw).2.2.2.entries) (nodup_fieldEntries hn) [] (fieldEntries fs) rfl,fun w _ => ?_⟩
    simp [Store.bound,Store.remaining,stepLimit,fieldEntries]
  · have hover (w : Store) (hw : W w) : w.overEntries .items v
        = .entries .items (.entries v) (fieldEntries fs).length [] (fieldEntries fs).length := by
      simp [Store.overEntries,(h w hw).2.1.held,(h w hw).2.2.1,hisA w hw,ho]
    have hat (w : Store) (hw : W w) : w.entriesAt (.entries v) = fieldEntries fs := by
      simp [Store.entriesAt,(h w hw).2.1.held]
    refine ⟨_,fun w hw => (hown w hw).trans (by rw [hover w hw]; rfl),Cursor.steps_entries .items hat
      (nodup_fieldEntries hn) [] (fieldEntries fs) rfl,fun w _ => ?_⟩
    simp [Store.bound,Store.remaining,stepLimit,fieldEntries]

/-- An object with attributes shows these. -/
theorem unrolls_bag (hb : b ∈ [BuiltinClass.object,.attributeBag]) (hn : (Fields.keys fs).Nodup)
    (h : ∀ w, W w → w.IsBag b v fs) : Unrolls W n v fs := by
  have hat (w : Store) (hw : W w) : w.entriesAt (.attributes v) = fieldEntries fs := (h w hw).entriesAt
  have hover (w : Store) (hw : W w) : w.overAttributes .items v
      = .entries .items (.attributes v) (fieldEntries fs).length [] (fieldEntries fs).length := by
    simp [Store.overAttributes,hat w hw]
  have hown (w : Store) (hw : W w) : ownFields n v w = .ok (some (w.overAttributes .items v)) w :=
    ownFields_object ((h w hw).native hb hn) ((h w hw).belongs hb (by simp)) ((h w hw).kind hb) ((h w hw).isSequence hb)
      (by simp [(h w hw).attrs])
  refine ⟨_,fun w hw => (hown w hw).trans (by rw [hover w hw]; rfl),Cursor.steps_entries .items hat
    (nodup_fieldEntries hn) [] (fieldEntries fs) rfl,fun w _ => ?_⟩
  simp [Store.bound,Store.remaining,stepLimit,fieldEntries]

/-- Whatever carries fields shows them all. -/
theorem Bears.unrolls (h : Bears W fs v) (hn : (Fields.keys fs).Nodup) (n : Machine) : Unrolls W n v fs := by
  cases h with
  | dict h =>
    exact unrolls_mapping (b := .dict) (by simp) hn fun w hw =>
      ⟨Store.native_mapping (h w hw).cls (by simp) ((h w hw).maps hn),(h w hw).maps hn,(h w hw).behind,h w hw⟩
  | orderedDict h =>
    exact unrolls_mapping (b := .orderedDict) (by simp) hn fun w hw =>
      ⟨Store.native_mapping (h w hw).cls (by simp) ((h w hw).maps hn),(h w hw).maps hn,(h w hw).behind,h w hw⟩
  | @mappingProxy of b hb h =>
    have hproxy (w : Store) (hw : W w) : (w.Native v ∧ w.belongs v .mapping = true) ∧
        w.Maps v (fieldEntries fs) ∧ w.behind v = of := by
      obtain ⟨hv,hof⟩ := h w hw
      exact ⟨Store.native_mapping hv.cls (by simp) (hv.maps hof hn),hv.maps hof hn,by simp [Store.behind,hv.body]⟩
    exact unrolls_mapping hb hn fun w hw => ⟨(hproxy w hw).1,(hproxy w hw).2.1,(hproxy w hw).2.2,(h w hw).2⟩
  | simpleNamespace h =>
    exact unrolls_bag (b := .attributeBag) (by simp) hn fun w hw =>
      Store.isBag_namespace (h w hw).1 (h w hw).2.1 (h w hw).2.2
  | plainInstance h => exact unrolls_bag (by simp) hn h

end carriers
end CallContracts
