import CallContracts.Proofs.Alike
import CallContracts.Proofs.Lineage
import CallContracts.Proofs.Native
/-! What two stores have in common.  A region names objects, and data that are made of nothing else.  Where two
stores hold the same objects in a region, all that contracts ask about its data is answered alike, whatever else
they hold. -/
namespace CallContracts
open Act

/-- Objects, the data that are made of them and the keys in these, and how many objects there were at least. -/
structure Region where
  size : Nat
  place : Ref → Prop
  datum : Value → Prop
  key : Value → Prop

namespace Store
variable {G : Region} {s t u w : Store} {c : ClassId} {v : Value} {n : String} {ns : List String} {r : Ref}

/-- Two stores hold the same objects in a region. -/
structure Shares (G : Region) (s t : Store) : Prop where
  left : G.size ≤ s.heap.size
  right : G.size ≤ t.heap.size
  object : ∀ r, G.place r → t.get? r = s.get? r

/-- The line of a class is complete, and lies in a region. -/
structure Settled (G : Region) (s : Store) (c : ClassId) : Prop where
  complete : ∃ b, .builtin b ∈ s.lineFrom G.size c
  within : ∀ r, .defined r ∈ s.lineFrom G.size c → G.place r

theorem settled_builtin (b : BuiltinClass) : s.Settled G (.builtin b) := by
  refine ⟨⟨b,?_⟩,fun r hr => ?_⟩
  · rw [lineFrom_builtin]
    exact List.mem_map_of_mem (by cases b <;> decide)
  · simp [lineFrom_builtin] at hr

theorem classInfo?_of_get? (h : t.get? r = s.get? r) : t.classInfo? r = s.classInfo? r := by
  rw [classInfo?,classInfo?,h]

namespace Shares
variable (h : s.Shares G t)
include h

theorem trans (h' : t.Shares G u) : s.Shares G u :=
  ⟨h.left,h'.right,fun r hr => (h'.object r hr).trans (h.object r hr)⟩

theorem symm : t.Shares G s := ⟨h.right,h.left,fun r hr => (h.object r hr).symm⟩

section settled
variable (hc : s.Settled G c)
include hc

theorem lineFrom : t.lineFrom G.size c = s.lineFrom G.size c := by
  obtain ⟨b,hb⟩ := hc.complete
  exact lineFrom_eq hb (Nat.le_refl _) fun r hr => classInfo?_of_get? (h.object r (hc.within r hr))

theorem settled : t.Settled G c := by
  have hline := h.lineFrom hc
  exact ⟨by rw [hline]; exact hc.complete,by rw [hline]; exact hc.within⟩

theorem line_left : s.line c = s.lineFrom G.size c := by
  obtain ⟨b,hb⟩ := hc.complete
  exact lineFrom_eq hb h.left fun _ _ => rfl

theorem line : t.line c = s.line c := by
  rw [h.symm.line_left (h.settled hc),h.lineFrom hc,h.line_left hc]

theorem classAttrs (hr : .defined r ∈ s.line c) : t.classAttrs r = s.classAttrs r := by
  rw [h.line_left hc] at hr
  rw [Store.classAttrs,Store.classAttrs,h.object r (hc.within r hr)]

theorem override? : t.override? c n = s.override? c n :=
  override?_congr (h.line hc) fun r hr => by rw [h.classAttrs hc hr]

theorem overrides : t.overrides c ns = s.overrides c ns := by
  simp only [Store.overrides,h.override? hc]

theorem spoofs : t.spoofs c = s.spoofs c := h.overrides hc

theorem classMember? : t.classMember? c n = s.classMember? c n := by
  rw [Store.classMember?,Store.classMember?,h.line hc]
  refine findSome?_congr fun x hx => ?_
  cases x with
  | builtin b => rfl
  | defined r => simp only [heldBy,h.classAttrs hc hx]

theorem makesCallable : t.makesCallable c = s.makesCallable c := by
  rw [Store.makesCallable,Store.makesCallable,h.line hc,Bool.eq_iff_iff,List.any_eq_true,List.any_eq_true]
  refine exists_congr fun x => and_congr_right fun hx => ?_
  cases x with
  | builtin b => rfl
  | defined r => simp only [h.classAttrs hc hx]

theorem isSubclass (d : ClassId) : t.isSubclass c d = s.isSubclass c d := by
  have hfrom : t.comesFrom c d = s.comesFrom c d := by rw [comesFrom,comesFrom,h.line hc]
  have hline : t.builtinLine c = s.builtinLine c := by rw [builtinLine,builtinLine,h.line hc]
  simp only [Store.isSubclass,hfrom,hline,h.makesCallable hc,h.classMember? hc]

end settled
end Shares

/-- A datum of a region: native, made of objects of the region and of other data, and no view of what may be
elsewhere. -/
structure Rests (G : Region) (s : Store) (v : Value) : Prop where
  native : s.Native v
  placed : ∀ r, v = .ref r → G.place r
  settled : s.Settled G (s.classOf v)
  table : ∀ o q, s.obj? v = some o → o.table = some q → G.place q
  direct : ∀ x, s.body? v ≠ some (.proxy x)
  items : ∀ x ∈ (s.items? v).getD [], G.datum x
  entries : ∀ e ∈ s.entriesAt (.entries v), G.key e.1 ∧ G.datum e.2
  attributes : ∀ e ∈ s.entriesAt (.attributes v), G.key e.1 ∧ G.datum e.2

/-- Numbers are data of every region. -/
theorem rests_int (i : Int) : s.Rests G (.int i) := by
  have hclass : s.classOf (.int i) = .builtin .int := rfl
  have hbelongs (b : BuiltinClass) : s.belongs (.int i) b = ({} : Store).isSubclass (.builtin .int) (.builtin b) := by
    rw [belongs,hclass,isSubclass_builtin s {}]
  have hseq : s.isSequence (.int i) = false := by
    rw [isSequence,hbelongs,hbelongs]
    decide
  have hmap : s.belongs (.int i) .mapping = false := by
    rw [hbelongs]
    decide
  have hkind : s.kind (.int i) = .number := by
    have hbool : s.belongs (.int i) .bool = false := by
      rw [hbelongs]
      decide
    have hnumber : s.belongs (.int i) .number = true := by
      rw [hbelongs]
      decide
    simp [kind,hbool,hnumber]
  have hobj : s.obj? (.int i) = none := rfl
  exact
    { native := ⟨by rw [hclass,spoofs_builtin],by simp [hseq],by simp [hmap],by simp [hkind]⟩
      placed := fun _ h => by cases h
      settled := hclass ▸ settled_builtin .int
      table := by simp [hobj]
      direct := by simp [body?,hobj]
      items := by simp [items?,body?,hobj]
      entries := by simp [entriesAt,entries?,entriesFrom,body?,hobj]
      attributes := by simp [entriesAt,class?,attrs?,hobj,fieldEntries] }

/-- Lists and tuples that hold data are data. -/
theorem rests_sequence {b : BuiltinClass} {body : Body} {xs : List Value} (hb : b ∈ [BuiltinClass.list,.tuple])
    (hbody : body = .list xs ∨ body = .tuple xs) (ho : s.get? r = some { cls := .builtin b, body := body })
    (hr : G.place r) (hxs : ∀ x ∈ xs, G.datum x) : s.Rests G (.ref r) := by
  have hc : s.classOf (.ref r) = .builtin b := classOf_of_get? ho
  have hheld : s.body? (.ref r) = some body := body?_of_get? ho
  have hobj : s.obj? (.ref r) = some { cls := .builtin b, body := body } := ho
  have hclass : s.class? (.ref r) = none := class?_of_body hheld (by rcases hbody with rfl | rfl <;> simp)
  have hdirect : ∀ x, s.body? (.ref r) ≠ some (.proxy x) := by
    rcases hbody with rfl | rfl <;> simp [hheld]
  refine ⟨native_sequence hc hb (hbody.imp (fun h => h ▸ hheld) fun h => h ▸ hheld),fun q hq => ?_,
    hc ▸ settled_builtin b,?_,hdirect,?_,?_,?_⟩
  · obtain rfl : r = q := by simpa using hq
    exact hr
  · intro o q ho hq
    obtain rfl := Option.some.inj (hobj.symm.trans ho)
    cases hq
  · rcases hbody with rfl | rfl <;> simpa [items?,hheld] using hxs
  · rcases hbody with rfl | rfl <;> simp [entriesAt,entries?,entriesFrom,hheld]
  · simp [entriesAt,hclass,attrs?,hobj,attrsOf,fieldEntries]

theorem entries?_direct (h : ∀ x, s.body? v ≠ some (.proxy x)) : s.entries? v = match s.body? v with
    | some (.table es) => some es
    | _ => none := by
  rw [Store.entries?,entriesFrom]
  split <;> simp_all

theorem behind_direct (h : ∀ x, s.body? v ≠ some (.proxy x)) : s.behind v = v := by
  rw [behind]
  split <;> simp_all

namespace Shares
variable (h : s.Shares G t) (hv : s.Rests G v)
include h hv

theorem obj? : t.obj? v = s.obj? v := by
  cases v with
  | ref r => exact h.object r (hv.placed r rfl)
  | _ => rfl

theorem body? : t.body? v = s.body? v := by rw [Store.body?,Store.body?,h.obj? hv]

theorem classOf : t.classOf v = s.classOf v := by
  cases v with
  | ref r => simp only [Store.classOf,h.object r (hv.placed r rfl)]
  | _ => rfl

theorem items? : t.items? v = s.items? v := by simp only [Store.items?,h.body? hv]

theorem belongs (b : BuiltinClass) : t.belongs v b = s.belongs v b := by
  rw [Store.belongs,Store.belongs,h.classOf hv,h.isSubclass hv.settled]

theorem isSequence : t.isSequence v = s.isSequence v := by simp only [Store.isSequence,h.belongs hv]

theorem elements : t.elements v = s.elements v := by simp only [Store.elements,h.body? hv]

theorem isCallable : t.isCallable v = s.isCallable v := by
  rw [Store.isCallable,Store.isCallable,h.classOf hv,h.makesCallable hv.settled]

theorem kind : t.kind v = s.kind v := by simp only [Store.kind,h.belongs hv,h.isCallable hv]

theorem isA (b : BuiltinClass) : t.isA v b = s.isA v b := by
  rw [Store.isA,Store.isA,h.classOf hv,comesFrom,comesFrom,h.line hv.settled]

theorem entries? : t.entries? v = s.entries? v := by
  rw [entries?_direct (by simpa only [h.body? hv] using hv.direct),entries?_direct hv.direct,h.body? hv]

theorem class? : t.class? v = s.class? v := by
  cases v with
  | ref r => simp only [Store.class?,classInfo?_of_get? (h.object r (hv.placed r rfl))]
  | _ => rfl

theorem attrs? : t.attrs? v = s.attrs? v := by
  rw [Store.attrs?,Store.attrs?,h.obj? hv]
  cases ho : s.obj? v with
  | none => rfl
  | some o =>
    cases hq : o.table with
    | none => simp [attrsOf,hq]
    | some q => simp [attrsOf,hq,tableEntries,h.object q (hv.table o q ho hq)]

theorem attr? : t.attr? v n = s.attr? v n := by rw [Store.attr?,Store.attr?,h.attrs? hv]

theorem hidesTable : t.hidesTable v = s.hidesTable v := by
  simp only [Store.hidesTable,Store.isClass,h.classOf hv,h.override? hv.settled,h.overrides hv.settled,h.attrs? hv,
    h.class? hv]

theorem isNative : t.isNative v n = s.isNative v n := by
  rw [Store.isNative,Store.isNative,h.classOf hv,h.overrides hv.settled,h.attr? hv]

theorem entriesAt_entries : t.entriesAt (.entries v) = s.entriesAt (.entries v) := by
  simp only [entriesAt,h.entries? hv]

theorem entriesAt_attributes : t.entriesAt (.attributes v) = s.entriesAt (.attributes v) := by
  have hclass := h.class? hv
  simp only [entriesAt,hclass,h.attrs? hv]
  cases hk : s.class? v with
  | none => rfl
  | some c =>
    cases c with
    | builtin b => rfl
    | defined r =>
      obtain rfl : v = .ref r := by
        cases v <;> simp_all [Store.class?]
      simp only [classTable,Store.classAttrs,h.object r (hv.placed r rfl)]

theorem native : t.Native v := by
  have hclass := h.classOf hv
  have hbehind : t.behind v = v := behind_direct (by simpa only [h.body? hv] using hv.direct)
  refine ⟨?_,fun ha => ?_,fun hm => ?_,fun hk ha hm => ?_⟩
  · rw [hclass,h.spoofs hv.settled]
    exact hv.native.honest
  · rw [hclass,h.overrides hv.settled,h.body? hv]
    exact hv.native.array (by rwa [← h.isSequence hv])
  · obtain ⟨es,hes⟩ := hv.native.mapping (by rwa [← h.belongs hv])
    have hlists := hes.lists
    rw [behind_direct hv.direct] at hlists
    refine ⟨es,by rw [h.entries? hv,hes.held],fun _ => ?_,?_,hes.distinct⟩
    · rw [hbehind,h.entries? hv,hes.held]
    · rwa [hbehind,h.isNative hv]
  · rw [h.hidesTable hv,h.entriesAt_attributes hv]
    exact hv.native.object (by rwa [← h.kind hv]) (by rwa [← h.isSequence hv]) (by rwa [← h.belongs hv])

/-- A datum is one in every store that shares the region. -/
theorem rests : t.Rests G v where
  native := h.native hv
  placed := hv.placed
  settled := by
    rw [h.classOf hv]
    exact h.settled hv.settled
  table o q ho := hv.table o q (by rwa [← h.obj? hv])
  direct := by simpa only [h.body? hv] using hv.direct
  items := by simpa only [h.items? hv] using hv.items
  entries := by simpa only [h.entriesAt_entries hv] using hv.entries
  attributes := by simpa only [h.entriesAt_attributes hv] using hv.attributes

end Shares
end Store

section cursors
variable {m : Machine} {s : Store} {v : Value}

/-- The iteration over a list or a tuple. -/
def Store.overItems (s : Store) (v : Value) : Cursor :=
  match v, s.body? v with
  | .ref r, some (.list _) => .list r 0
  | _, some (.tuple xs) => .fixed xs
  | _, _ => .fixed []

/-- The iteration over the fields of a value, if it has any. -/
def Store.overFields (s : Store) (v : Value) : Option Cursor :=
  if s.belongs v .mapping then some (s.overEntries .items v)
  else if s.kind v ≠ .object || s.isSequence v then none
  else if s.isClass v || (s.attrs? v).isSome then some (s.overAttributes .items v)
  else none

theorem cursorOf_sequence (h : s.Native v) (ha : s.isSequence v) : cursorOf m v s = .ok (s.overItems v) s := by
  obtain ⟨hover,xs,hxs⟩ := h.array ha
  have hiter := override?_of_overrides hover (n := "__iter__") (by simp)
  obtain ⟨r,rfl⟩ : ∃ r, v = .ref r := by rcases hxs with hb | hb <;> exact Store.ref_of_body hb
  rcases hxs with hb | hb
  · have hp : s.pieces? (.ref r) = none := Store.pieces?_of_body hb (by simp) (by simp)
    simp [cursorOf,hiter,nativeCursor,hp,hb,Store.overItems]
  · have hp : s.pieces? (.ref r) = none := Store.pieces?_of_body hb (by simp) (by simp)
    simp [cursorOf,hiter,nativeCursor,hp,hb,Store.overItems]

theorem arrayItems_native (h : s.Native v) :
    arrayItems m v s = .ok (if s.isSequence v then some (s.overItems v) else none) s := by
  rw [arrayItems,bind_ok (isArray_native h)]
  cases ha : s.isSequence v with
  | false => rfl
  | true =>
    simp only [if_true]
    rw [bind_ok (cursorOf_sequence h ha)]
    rfl

theorem sizedItems_native (h : s.Native v) (n : Nat) :
    sizedItems m n v s = .ok (if s.isSequence v ∧ (s.elements v).length = n then some (s.overItems v) else none) s := by
  rw [sizedItems,bind_ok (isArray_native h)]
  cases ha : s.isSequence v with
  | false => simp
  | true =>
    simp only [Bool.not_true,Bool.false_eq_true,if_false,true_and]
    rw [bind_ok (cursorOf_native h ha).2]
    by_cases hn : (s.elements v).length = n
    · simp only [hn,ne_eq,not_true_eq_false,if_false,if_true]
      rw [bind_ok (cursorOf_sequence h ha)]
      rfl
    · simp [hn]

theorem ownFields_overFields (h : s.Native v) : ownFields m v s = .ok (s.overFields v) s := by
  have hmapping : isMapping m v s = .ok (s.belongs v .mapping) s := isKind_native h .mapping
  rw [ownFields,bind_ok hmapping,Store.overFields]
  cases hm : s.belongs v .mapping with
  | true =>
    obtain ⟨es,hes⟩ := h.mapping hm
    have hitems : itemsOf m v s = .ok (s.overEntries .items v) s := by simp [itemsOf,hes.held,hes.lists]
    simp only [if_true]
    rw [bind_ok hitems]
    rfl
  | false =>
    simp only [Bool.false_eq_true,if_false]
    rw [bind_ok (kindOf_native h)]
    by_cases hk : s.kind v = .object
    · simp only [hk,ne_eq,not_true_eq_false,if_false,decide_false,Bool.false_or]
      rw [bind_ok (isArray_native h)]
      cases ha : s.isSequence v with
      | true => rfl
      | false =>
        obtain ⟨hhides,-⟩ := h.object hk ha hm
        simp only [Bool.false_eq_true,if_false,get_bind_apply,hhides]
        split <;> rfl
    · simp [hk]

end cursors

namespace Region
variable {G : Region} {m : Machine} {R : Store → Store → Prop} {v : Value}

/-- The realm of the data of a region. -/
def realm (G : Region) : Realm where
  Val := G.datum
  Item i := ∃ v, i = .value v ∧ G.datum v
  Items c := (∃ xs, c = .fixed xs ∧ ∀ x ∈ xs, G.datum x) ∨ ∃ r i, c = .list r i ∧ G.datum (.ref r)
  Key := G.key
  Field i := ∃ k v, i = .entry k v ∧ G.key k ∧ G.datum v
  Fields c := ∃ v, G.datum v ∧
    ((∃ source size given left, c = .entries .items source size given left ∧ source ∈ [.entries v,.attributes v]) ∨
      ∃ keys next, c = .ordered .items v keys next ∧ ∀ k ∈ next, k ∈ keys)
  Name _ := False
  Cls _ := False
  Test _ := False

/-- Stores that go together share a region, and its data rest there. -/
def Common (G : Region) (R : Store → Store → Prop) : Prop :=
  ∀ s t, R s t → s.Shares G t ∧ ∀ v, G.datum v → s.Rests G v

section cursors
variable {s t : Store} (h : s.Shares G t) (hv : s.Rests G v) (hd : G.datum v)
include h hv hd

theorem overItems_datum :
    t.overItems v = s.overItems v ∧ G.realm.Items (s.overItems v) := by
  have hbody := h.body? hv
  refine ⟨by simp only [Store.overItems,hbody],?_⟩
  unfold Store.overItems
  split
  · exact Or.inr ⟨_,_,rfl,hd⟩
  · rename_i xs hb
    exact Or.inl ⟨xs,rfl,by simpa [Store.items?,hb] using hv.items⟩
  · exact Or.inl ⟨[],rfl,by simp⟩

theorem overFields_datum :
    t.overFields v = s.overFields v ∧ ∀ c ∈ s.overFields v, G.realm.Fields c := by
  have hbehind (u : Store) (hu : ∀ x, u.body? v ≠ some (.proxy x)) : u.behind v = v := Store.behind_direct hu
  have hentries : t.overEntries .items v = s.overEntries .items v := by
    simp only [Store.overEntries,h.entries? hv,hbehind t (h.rests hv).direct,hbehind s hv.direct,h.isA hv]
  have hattributes : t.overAttributes .items v = s.overAttributes .items v := by
    simp only [Store.overAttributes,h.entriesAt_attributes hv]
  refine ⟨?_,fun c hc => ?_⟩
  · rw [Store.overFields,Store.overFields,h.belongs hv,h.kind hv,h.isSequence hv,Store.isClass,Store.isClass,
      h.class? hv,h.attrs? hv,hentries,hattributes]
  · unfold Store.overFields at hc
    split at hc
    · obtain rfl : s.overEntries .items v = c := by simpa using hc
      refine ⟨v,hd,?_⟩
      simp only [Store.overEntries,hbehind s hv.direct]
      split
      · refine Or.inr ⟨_,_,rfl,fun k hk => ?_⟩
        obtain ⟨e,he,rfl⟩ := Option.map_eq_some_iff.mp hk
        exact List.mem_map_of_mem (List.mem_of_mem_head? he)
      · exact Or.inl ⟨_,_,_,_,rfl,by simp⟩
    · split at hc
      · cases hc
      · split at hc
        · obtain rfl : s.overAttributes .items v = c := by simpa using hc
          exact ⟨v,hd,Or.inl ⟨_,_,_,_,rfl,by simp⟩⟩
        · cases hc

end cursors

/-- A class that does not decide itself what belongs to it. -/
structure Plainly (G : Region) (s : Store) (c : Value) : Prop where
  cls : ∃ k, s.class? c = some k
  placed : ∀ r, c = .ref r → G.place r
  settled : s.Settled G (s.classOf c)
  ruled : s.override? (s.classOf c) "__instancecheck__" = none

/-- What goes alike, beside the data of a region: what is asked of values of another realm, the tests that data are
given to, and what their classes or their keys decide themselves. -/
structure Completes (G : Region) (m : Machine) (R : Store → Store → Prop) (O : Realm) : Prop where
  others : (G.realm.join O).Answers m R O
  test : ∀ f v, O.Test f → G.datum v →
    Alike R Eq (do truth m (← m.call f [v] [])) (do truth m (← m.call f [v] []))
  belongs : ∀ v c, G.datum v → O.Cls c → (∀ s t, R s t → G.Plainly s c) ∨
    Alike R Eq (belongsTo m depthLimit v c) (belongsTo m depthLimit v c)
  key : ∀ n, G.key n → (∀ r, n ≠ .ref r) ∨ Alike R Eq (checkKey m n) (checkKey m n)
  same : ∀ k n, O.Name k → G.key n → (∃ x y, k = .str x ∧ n = .str y) ∨ Alike R Eq (sameKey m k n) (sameKey m k n)

theorem mem_of_dropGiven {given : List Value} {es rest : List (Value × Value)} {e : Value × Value}
    (h : dropGiven given es = e :: rest) : e ∈ es := by
  fun_induction dropGiven given es with
  | case1 => cases h
  | case2 => simp_all
  | case3 _ _ _ _ _ _ ih => exact List.mem_cons_of_mem _ (ih h)

section answers
variable (hR : G.Common R)
include hR

theorem asked_datum (O : Realm) (hd : G.datum v) : (G.realm.join O).Asked m R v where
  kind := .of_still fun s t hst => by
    obtain ⟨h,hrests⟩ := hR s t hst
    have hv := hrests v hd
    exact ⟨_,_,kindOf_native hv.native,kindOf_native (h.native hv),(h.kind hv).symm⟩
  array := .of_still fun s t hst => by
    obtain ⟨h,hrests⟩ := hR s t hst
    have hv := hrests v hd
    exact ⟨_,_,isArray_native hv.native,isArray_native (h.native hv),(h.isSequence hv).symm⟩
  items := .of_still fun s t hst => by
    obtain ⟨h,hrests⟩ := hR s t hst
    have hv := hrests v hd
    obtain ⟨hover,hitems⟩ := overItems_datum h hv hd
    refine ⟨_,_,arrayItems_native hv.native,arrayItems_native (h.native hv),by rw [h.isSequence hv,hover],
      fun c hc => ?_⟩
    split at hc
    · obtain rfl : s.overItems v = c := by simpa using hc
      exact Or.inl hitems
    · cases hc
  sized n := .of_still fun s t hst => by
    obtain ⟨h,hrests⟩ := hR s t hst
    have hv := hrests v hd
    obtain ⟨hover,hitems⟩ := overItems_datum h hv hd
    refine ⟨_,_,sizedItems_native hv.native n,sizedItems_native (h.native hv) n,
      by rw [h.isSequence hv,h.elements hv,hover],fun c hc => ?_⟩
    split at hc
    · obtain rfl : s.overItems v = c := by simpa using hc
      exact Or.inl hitems
    · cases hc
  fields := .of_still fun s t hst => by
    obtain ⟨h,hrests⟩ := hR s t hst
    have hv := hrests v hd
    obtain ⟨hover,hfields⟩ := overFields_datum h hv hd
    exact ⟨_,_,ownFields_overFields hv.native,ownFields_overFields (h.native hv),hover.symm,
      fun c hc => Or.inl (hfields c hc)⟩

theorem paced_items (O : Realm) {c : Cursor} (hc : G.realm.Items c) :
    Paced m R (G.realm.join O).Item (G.realm.join O).Items c := by
  rcases hc with ⟨xs,rfl,hxs⟩ | ⟨r,i,rfl,hd⟩
  · refine ⟨fun s t _ => rfl,?_⟩
    cases xs with
    | nil => exact .pure ⟨rfl,by simp⟩
    | cons x xs =>
      refine .pure ⟨rfl,fun p hp => ?_⟩
      obtain rfl : (.value x,.fixed xs) = p := by simpa using hp
      exact ⟨Or.inl ⟨x,rfl,hxs x (by simp)⟩,Or.inl (Or.inl ⟨xs,rfl,fun y hy => hxs y (by simp [hy])⟩)⟩
  · refine ⟨fun s t hst => ?_,?_⟩
    · obtain ⟨h,hrests⟩ := hR s t hst
      simp only [Store.bound,Store.remaining,h.items? (hrests _ hd)]
    · simp only [Cursor.next]
      refine Alike.get fun s t hst => ?_
      obtain ⟨h,hrests⟩ := hR s t hst
      have hv := hrests _ hd
      rw [h.items? hv]
      cases hx : (s.items? (.ref r)).bind (·[i]?) with
      | none => exact .pure ⟨rfl,by simp⟩
      | some x =>
        refine .pure ⟨rfl,fun p hp => ?_⟩
        obtain rfl : (.value x,.list r (i+1)) = p := by simpa using hp
        obtain ⟨xs,hxs,hi⟩ := Option.bind_eq_some_iff.mp hx
        have hmem : x ∈ (s.items? (.ref r)).getD [] := by
          rw [hxs]
          exact List.mem_of_getElem? hi
        exact ⟨Or.inl ⟨x,rfl,hv.items x hmem⟩,Or.inl (Or.inr ⟨r,i+1,rfl,hd⟩)⟩

/-- Entries are given out of those that rest in the region. -/
theorem paced_entries (O : Realm) {source : Source} {size left : Nat} {given : List Value} (hd : G.datum v)
    (hsource : source ∈ [Source.entries v,.attributes v]) :
    Paced m R (G.realm.join O).Field (G.realm.join O).Fields (.entries .items source size given left) := by
  refine ⟨fun s t _ => rfl,?_⟩
  simp only [Cursor.next,Cursor.nextEntry]
  refine Alike.get fun s t hst => ?_
  obtain ⟨h,hrests⟩ := hR s t hst
  have hv := hrests v hd
  have heq : t.entriesAt source = s.entriesAt source := by
    rcases List.mem_pair.mp hsource with rfl | rfl
    · exact h.entriesAt_entries hv
    · exact h.entriesAt_attributes hv
  have hes : ∀ e ∈ s.entriesAt source, G.key e.1 ∧ G.datum e.2 := by
    rcases List.mem_pair.mp hsource with rfl | rfl
    · exact hv.entries
    · exact hv.attributes
  rw [heq]
  by_cases hsize : (s.entriesAt source).length ≠ size
  · simp only [hsize,ne_eq,not_false_eq_true,if_true]
    exact .fail _
  · simp only [hsize,if_false]
    cases hg : dropGiven given (s.entriesAt source) with
    | nil => exact .pure ⟨rfl,by simp⟩
    | cons e rest =>
      cases left with
      | zero => exact .fail _
      | succ left =>
        refine .pure ⟨rfl,fun p hp => ?_⟩
        obtain rfl : (partOf .items e,Cursor.entries .items source size (given ++ [e.1]) left) = p := by simpa using hp
        obtain ⟨hk,hx⟩ := hes e (mem_of_dropGiven hg)
        exact ⟨Or.inl ⟨e.1,e.2,rfl,hk,hx⟩,Or.inl ⟨v,hd,Or.inl ⟨_,_,_,_,rfl,hsource⟩⟩⟩

/-- So are those of an ordered table. -/
theorem paced_ordered (O : Realm) {keys : List Value} {next : Option Value} (hd : G.datum v)
    (hnext : ∀ k ∈ next, k ∈ keys) :
    Paced m R (G.realm.join O).Field (G.realm.join O).Fields (.ordered .items v keys next) := by
  refine ⟨fun s t _ => rfl,?_⟩
  cases next with
  | none => exact .pure ⟨rfl,by simp⟩
  | some k =>
    simp only [Cursor.next,Cursor.nextOrdered]
    refine Alike.get fun s t hst => ?_
    obtain ⟨h,hrests⟩ := hR s t hst
    have hv := hrests v hd
    rw [h.entries? hv]
    by_cases hkeys : ((s.entries? v).getD []).map Prod.fst ≠ keys
    · simp only [hkeys,ne_eq,not_false_eq_true,if_true]
      exact .fail _
    · simp only [hkeys,if_false]
      refine .pure ⟨rfl,fun p hp => ?_⟩
      obtain rfl := Option.some.inj hp
      have hmem : k ∈ ((s.entries? v).getD []).map Prod.fst := by
        rw [not_not.mp hkeys]
        exact hnext k rfl
      obtain ⟨e,he,rfl⟩ := List.mem_map.mp hmem
      obtain ⟨x,hx⟩ : ∃ x, ((s.entries? v).getD []).find? (fun f => f.1 = e.1) = some x := by
        refine Option.isSome_iff_exists.mp (List.find?_isSome.mpr ⟨e,he,by simp⟩)
      have hrest := hv.entries x (List.mem_of_find?_eq_some hx)
      have hfst : x.1 = e.1 := by simpa using List.find?_some hx
      refine ⟨Or.inl ⟨e.1,x.2,by simp [hx,partOf],hfst ▸ hrest.1,hrest.2⟩,Or.inl ⟨v,hd,Or.inr ⟨_,_,rfl,fun k hk => ?_⟩⟩⟩
      exact (List.dropWhile_sublist _).subset (List.mem_of_mem_drop (List.mem_of_mem_head? hk))

theorem answers_datum {O : Realm} (hO : G.Completes m R O) : (G.realm.join O).Answers m R G.realm where
  asked v hv := asked_datum hR O hv
  items c hc := paced_items hR O hc
  value i hi := by
    obtain ⟨v,rfl,hd⟩ := hi
    exact .pure ⟨rfl,Or.inl hd⟩
  fields c hc := by
    obtain ⟨v,hd,⟨_,_,_,_,rfl,hsource⟩ | ⟨_,_,rfl,hnext⟩⟩ := hc
    · exact paced_entries hR O hd hsource
    · exact paced_ordered hR O hd hnext
  parts i hi := by
    obtain ⟨k,v,rfl,hk,hd⟩ := hi
    exact .pure ⟨rfl,Or.inl hk,Or.inl hd⟩
  belongs v c hd hc := by
    rcases hO.belongs v c hd (hc.resolve_left id) with hplain | halike
    · refine .of_still fun s t hst => ?_
      obtain ⟨h,hrests⟩ := hR s t hst
      have hv := hrests v hd
      have hc := hplain s t hst
      obtain ⟨k,hk⟩ := hc.cls
      have hcls : t.classOf c = s.classOf c := by
        cases c with
        | ref r => simp only [Store.classOf,h.object r (hc.placed r rfl)]
        | _ => rfl
      have hkt : t.class? c = some k := by
        rw [← hk]
        cases c with
        | ref r => simp only [Store.class?,Store.classInfo?_of_get? (h.object r (hc.placed r rfl))]
        | _ => rfl
      refine ⟨_,_,belongsTo_native hv.native hk hc.ruled,belongsTo_native (h.native hv) hkt ?_,?_⟩
      · rw [hcls,h.override? hc.settled,hc.ruled]
      · rw [h.classOf hv,h.isSubclass hv.settled]
    · exact halike
  key n hn := by
    rcases hO.key n hn with hplain | halike
    · refine .of_still fun s t _ => ⟨(),(),?_,?_,rfl⟩ <;> cases n <;> first | rfl | exact absurd rfl (hplain _)
    · exact halike
  same k n hk hn := by
    rcases hO.same k n (hk.resolve_left id) hn with ⟨x,y,rfl,rfl⟩ | halike
    · exact .of_still fun s t _ => ⟨_,_,sameKey_str _ _ _ _,sameKey_str _ _ _ _,rfl⟩
    · exact halike
  test f v hf hd := hO.test f v (hf.resolve_left id) hd

/-- Where stores share a region, and all the rest goes alike, all that contracts ask is answered alike. -/
theorem even_of_common {O : Realm} (hO : G.Completes m R O) : (G.realm.join O).Even m R :=
  (answers_datum hR hO).join hO.others

end answers

end Region
end CallContracts
