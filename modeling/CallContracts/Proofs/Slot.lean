import CallContracts.Proofs.Finding
import CallContracts.Proofs.Table
/-! One slot.  What is written to a member fills one slot of the target, and nothing else changes; so a lookup that does
not come by that slot finds what it found before. -/
namespace CallContracts
open Act

namespace Store

/-- A store in which the lines of classes are complete, classes hold values of the store, and attributes that are held by
a table are held by one that is there. -/
structure Rooted (s : Store) : Prop where
  lined : ∀ r, s.Lined (s.classOf (.ref r))
  classes : ∀ r info, s.classInfo? r = some info → s.Lined (.defined r)
  members : ∀ r n x, (s.classAttrs r).get? n = some x → s.Holds .all x
  tables : ∀ r o d, s.get? r = some o → o.table = some d →
    ∃ e es, s.get? d = some e ∧ e.body = .table es ∧ ¬ Frame.callables.holds d e.cls

/-- The object in which the attributes of a value are kept: the value itself, or the table that holds them. -/
def seat (s : Store) : Value → Option Ref
  | .ref r => (s.get? r).map fun o => o.table.getD r
  | _ => none

/-- From the class, the class `r` is the first one of the program that can hold a member of this name. -/
def Inherits (s : Store) (c : ClassId) (r : Ref) (n : String) : Prop :=
  ∃ l l', s.line c = l ++ .defined r :: l' ∧ ∀ q, .defined q ∈ l → (s.classAttrs q).get? n = none

/-- In the second store the slot `n` of `r`, which is kept in `q`, was filled, and nothing else was done: it is an
attribute that `r` keeps itself or that its table keeps, or an entry of `r`. -/
inductive Puts (n : String) (x : Value) (s : Store) (r : Ref) : Ref → Store → Prop where
  | own {o : Obj} : s.get? r = some o → o.table = none →
      Puts n x s r r (s.update r fun o => { o with attrs := o.attrs.map (·.put n x) })
  | shown {o : Obj} {d : Ref} : s.get? r = some o → o.table = some d →
      Puts n x s r d (s.update d fun o => match o.body with
        | .table es => { o with body := .table (putNamed n x es) }
        | _ => o)
  | entry {es : List (Value × Value)} {i : Nat} {k y : Value} : s.IsTable r es → es[i]? = some (k,y) →
      (∀ j, k = .str j → j = n) → Puts n x s r r (s.refill r (es.set i (k,x)))

/-- An object with the same class and the same table for its attributes, which is still the same class if it is one. -/
structure Akin (o o' : Obj) : Prop where
  cls : o'.cls = o.cls
  table : o'.table = o.table
  body : o'.body = o.body ∨ (∃ es, o.body = .table es) ∧ ∃ es, o'.body = .table es

section entries
variable {n k : String} {x y key : Value} {es : List (Value × Value)}

theorem namedEntries_cons (e : Value × Value) (es : List (Value × Value)) : namedEntries (e :: es)
    = match e.1 with
      | .str j => (j,e.2) :: namedEntries es
      | _ => namedEntries es := by
  obtain ⟨a,b⟩ := e
  cases a <;> rfl

/-- Names that are not written keep what is under them. -/
theorem get?_putNamed (hk : k ≠ n) : (namedEntries (putNamed n x es)).get? k = (namedEntries es).get? k := by
  induction es with
  | nil => simp [putNamed,namedEntries,Fields.get?,Ne.symm hk]
  | cons e es ih =>
    obtain ⟨a,b⟩ := e
    by_cases ha : a = .str n
    · subst ha
      simp [putNamed,namedEntries_cons,Fields.get?,Ne.symm hk]
    · simp only [putNamed,ha,if_false,namedEntries_cons]
      cases a with
      | str j => simp only [Fields.get?,ih]
      | _ => exact ih

theorem get?_setEntry {i : Nat} (hi : es[i]? = some (key,y)) (hkey : ∀ j, key = .str j → j = n) (hk : k ≠ n) :
    (namedEntries (es.set i (key,x))).get? k = (namedEntries es).get? k := by
  induction es generalizing i with
  | nil => cases hi
  | cons e es ih =>
    cases i with
    | zero =>
      obtain rfl : e = (key,y) := by simpa using hi
      simp only [List.set_cons_zero,namedEntries_cons]
      cases key with
      | str j => simp [Fields.get?,hkey j rfl,Ne.symm hk]
      | _ => rfl
    | succ i =>
      have hrest := ih (i := i) (by simpa using hi)
      simp only [List.set_cons_succ,namedEntries_cons]
      cases e.1 with
      | str j => simp only [Fields.get?,hrest]
      | _ => exact hrest

end entries

section puts
variable {s t u : Store} {r q p : Ref} {n k : String} {x v : Value} {c : ClassId} {o : Obj}

namespace Puts

/-- One object is rewritten. -/
theorem update (h : s.Puts n x r q t) : ∃ f : Obj → Obj, t = s.update q f ∧ ∀ o, s.get? q = some o → Akin o (f o) := by
  cases h with
  | own _ _ => exact ⟨_,rfl,fun o _ => ⟨rfl,rfl,Or.inl rfl⟩⟩
  | shown _ _ =>
    refine ⟨_,rfl,fun o _ => ?_⟩
    cases hb : o.body with
    | table es => exact ⟨rfl,rfl,Or.inr ⟨⟨es,hb⟩,_,rfl⟩⟩
    | _ => exact ⟨rfl,rfl,Or.inl rfl⟩
  | @entry es i k y hes hi hk =>
    refine ⟨_,rfl,fun o ho => ⟨rfl,rfl,Or.inr ⟨⟨es,?_⟩,_,rfl⟩⟩⟩
    have hb := hes.body
    rw [body?_of_get? ho] at hb
    exact Option.some.inj hb

variable (h : s.Puts n x r q t)
include h

theorem size : t.heap.size = s.heap.size := by
  obtain ⟨f,rfl,-⟩ := h.update
  exact size_update s q f

theorem others (hp : p ≠ q) : t.get? p = s.get? p := by
  obtain ⟨f,rfl,-⟩ := h.update
  exact get?_update_ne s f hp

theorem akin (ho : s.get? p = some o) : ∃ o', t.get? p = some o' ∧ Akin o o' := by
  by_cases hp : p = q
  · subst hp
    obtain ⟨f,rfl,hf⟩ := h.update
    exact ⟨f o,by rw [get?_update_self,ho]; rfl,hf o ho⟩
  · exact ⟨o,by rw [h.others hp,ho],rfl,rfl,Or.inl rfl⟩

theorem get?_eq_none (ho : s.get? p = none) : t.get? p = none := by
  obtain ⟨f,rfl,-⟩ := h.update
  by_cases hp : p = q
  · subst hp
    rw [get?_update_self,ho]
    rfl
  · rw [get?_update_ne s f hp,ho]

theorem classOf : t.classOf v = s.classOf v := by
  cases v with
  | ref p =>
    cases ho : s.get? p with
    | none => simp only [Store.classOf,ho,h.get?_eq_none ho]
    | some o =>
      obtain ⟨o',ho',hakin⟩ := h.akin ho
      simp only [Store.classOf,ho,ho',hakin.cls]
  | _ => rfl

theorem classInfo? : t.classInfo? p = s.classInfo? p := by
  rw [classInfo?_eq,classInfo?_eq]
  cases ho : s.get? p with
  | none => simp [Store.body?,Store.obj?,ho,h.get?_eq_none ho]
  | some o =>
    obtain ⟨o',ho',hakin⟩ := h.akin ho
    rw [body?_of_get? ho,body?_of_get? ho']
    rcases hakin.body with hb | ⟨⟨es,hb⟩,fs,hb'⟩
    · rw [hb]
    · rw [hb,hb']

theorem class? : t.class? v = s.class? v := by
  cases v with
  | ref p => simp only [Store.class?,h.classInfo?]
  | _ => rfl

theorem line : t.line c = s.line c := by
  have hline (k : Nat) (c : ClassId) : t.lineFrom k c = s.lineFrom k c := by
    induction k generalizing c with
    | zero => cases c <;> rfl
    | succ k ih =>
      cases c with
      | builtin b => rfl
      | defined p => simp only [lineFrom,h.classInfo?,ih]
  rw [Store.line,Store.line,h.size,hline]

/-- What objects keep themselves stays, but for the slot. -/
theorem fields {o' : Obj} (ho : s.get? p = some o) (ho' : t.get? p = some o') (hp : p ≠ r ∨ k ≠ n) :
    o'.attrs.bind (·.get? k) = o.attrs.bind (·.get? k) := by
  by_cases hpq : p = q
  · subst hpq
    cases h with
    | own _ _ =>
      obtain rfl : _ = o' := by simpa [get?_update_self,ho] using ho'
      have hk := hp.resolve_left fun hp => hp rfl
      cases o.attrs with
      | none => rfl
      | some f => simp [Fields.get?_put_ne _ _ hk]
    | shown _ _ =>
      obtain rfl : _ = o' := by simpa [get?_update_self,ho] using ho'
      cases o.body <;> rfl
    | entry _ _ _ =>
      obtain rfl : _ = o' := by simpa [refill,get?_update_self,ho] using ho'
      rfl
  · obtain rfl : o = o' := by simpa [h.others hpq,ho] using ho'
    rfl

/-- What tables keep under names stays, but for the slot. -/
theorem named (hp : p ≠ q ∨ k ≠ n) :
    (namedEntries (t.tableEntries p)).get? k = (namedEntries (s.tableEntries p)).get? k := by
  by_cases hpq : p = q
  · subst hpq
    have hk := hp.resolve_left fun hp => hp rfl
    cases h with
    | @own o ho _ =>
      obtain ⟨c,b,a,l,z⟩ := o
      cases b <;> simp [tableEntries,get?_update_self,ho]
    | shown _ _ =>
      cases ho : s.get? p with
      | none => simp [tableEntries,get?_update_self,ho]
      | some o =>
        obtain ⟨c,b,a,l,z⟩ := o
        cases b with
        | table es => simp [tableEntries,get?_update_self,ho,get?_putNamed hk]
        | _ => simp [tableEntries,get?_update_self,ho]
    | @entry es i key y hes hi hkey =>
      cases ho : s.get? r with
      | none => simp [tableEntries,refill,get?_update_self,ho]
      | some o =>
        have hb := hes.body
        rw [body?_of_get? ho] at hb
        obtain ⟨c,b,a,l,z⟩ := o
        obtain rfl : b = .table es := Option.some.inj hb
        simp [tableEntries,refill,get?_update_self,ho,get?_setEntry hi hkey hk]
  · rw [tableEntries,h.others hpq,tableEntries]

/-- Classes keep what they hold, but for the slot. -/
theorem classAttrs (hp : p ≠ r ∨ k ≠ n) : (t.classAttrs p).get? k = (s.classAttrs p).get? k := by
  have hget (o : Obj) : (o.attrs.getD []).get? k = o.attrs.bind (·.get? k) := by cases o.attrs <;> rfl
  cases ho : s.get? p with
  | none => simp [Store.classAttrs,ho,h.get?_eq_none ho]
  | some o =>
    obtain ⟨o',ho',-⟩ := h.akin ho
    simp only [Store.classAttrs,ho,ho',Option.bind_some,hget,h.fields ho ho' hp]

/-- Attributes that are not kept where the slot is, or have another name, are kept. -/
theorem attr? (hv : s.seat v ≠ some q ∨ k ≠ n) : t.attr? v k = s.attr? v k := by
  cases v with
  | ref p =>
    cases ho : s.get? p with
    | none => simp [Store.attr?,attrs?,obj?,ho,h.get?_eq_none ho]
    | some o =>
      obtain ⟨o',ho',hakin⟩ := h.akin ho
      simp only [Store.attr?,attrs?,obj?,ho,ho',Option.bind_some,attrsOf,hakin.table]
      simp only [seat,ho,Option.map_some,ne_eq,Option.some.injEq] at hv
      cases htable : o.table with
      | some d =>
        rw [htable] at hv
        exact h.named hv
      | none =>
        rw [htable] at hv
        refine h.fields ho ho' (hv.imp_left fun hp hr => hp ?_)
        -- an object that keeps its attributes itself keeps the slot itself
        subst hr
        cases h with
        | own _ _ => rfl
        | shown hr htable' =>
          obtain rfl : o = _ := Option.some.inj (ho.symm.trans hr)
          cases htable.symm.trans htable'
        | entry _ _ _ => rfl
  | _ => rfl

/-- A table is no bound method. -/
theorem bound? : t.bound? v = s.bound? v := by
  cases v with
  | ref p =>
    cases ho : s.get? p with
    | none => simp [Store.bound?,Store.body?,Store.obj?,ho,h.get?_eq_none ho]
    | some o =>
      obtain ⟨o',ho',hakin⟩ := h.akin ho
      simp only [Store.bound?,body?_of_get? ho,body?_of_get? ho']
      rcases hakin.body with hb | ⟨⟨es,hb⟩,fs,hb'⟩
      · rw [hb]
      · rw [hb,hb']
  | _ => rfl

theorem keeps {F : Frame} (hF : ∀ o, s.get? q = some o → ¬ F.holds q o.cls) : s.Keeps F t := by
  obtain ⟨f,rfl,-⟩ := h.update
  exact Keeps.update fun o ho hq => absurd hq (hF o ho)

end Puts

/-- The first find is the same if everything is, but for one place that an earlier find comes before. -/
theorem findSome?_apart {α β : Type} {f g : α → Option β} {a : α} {l : List α} (h : ∀ x ∈ l, x ≠ a → f x = g x)
    (ha : ∀ l₁ l₂, l = l₁ ++ a :: l₂ → ∃ x ∈ l₁, g x ≠ none) : l.findSome? f = l.findSome? g := by
  induction l with
  | nil => rfl
  | cons y l ih =>
    have hy : y ≠ a := by
      rintro rfl
      obtain ⟨x,hx,-⟩ := ha [] l rfl
      cases hx
    rw [List.findSome?_cons,List.findSome?_cons,h y (by simp) hy]
    cases hg : g y with
    | some b => rfl
    | none =>
      refine ih (fun x hx => h x (by simp [hx])) fun l₁ l₂ hl => ?_
      obtain ⟨x,hx,hgx⟩ := ha (y :: l₁) l₂ (by rw [hl]; rfl)
      rcases List.mem_cons.mp hx with rfl | hx
      · exact absurd hg hgx
      · exact ⟨x,hx,hgx⟩

namespace Puts
variable (h : s.Puts n x r q t)
include h

/-- Along a line the same is found for every name, but for one that the line takes from `r`. -/
theorem findSome? {f g : ClassId → Option Value} (hb : ∀ b, f (.builtin b) = g (.builtin b))
    (hf : ∀ p, f (.defined p) = (t.classAttrs p).get? k) (hg : ∀ p, g (.defined p) = (s.classAttrs p).get? k)
    (hc : k = n → ¬ s.Inherits c r n) : (t.line c).findSome? f = (s.line c).findSome? g := by
  rw [h.line]
  by_cases hk : k = n
  · subst hk
    refine findSome?_apart (a := .defined r) (fun y _ hy => ?_) fun l₁ l₂ hl => ?_
    · cases y with
      | builtin b => exact hb b
      | defined p => rw [hf,hg,h.classAttrs (Or.inl fun hp => hy (hp ▸ rfl))]
    · by_contra hnone
      refine hc rfl ⟨l₁,l₂,hl,fun p hp => ?_⟩
      by_contra hne
      exact hnone ⟨_,hp,by rwa [hg]⟩
  · refine findSome?_congr fun y _ => ?_
    cases y with
    | builtin b => exact hb b
    | defined p => rw [hf,hg,h.classAttrs (Or.inr hk)]

theorem classMember? (hc : k = n → ¬ s.Inherits c r n) : t.classMember? c k = s.classMember? c k :=
  h.findSome? (fun _ => rfl) (fun _ => rfl) (fun _ => rfl) hc

theorem override? (hc : k = n → ¬ s.Inherits c r n) : t.override? c k = s.override? c k := by
  cases c with
  | builtin b => rfl
  | defined p => exact h.findSome? (fun _ => rfl) (fun _ => rfl) (fun _ => rfl) hc

/-- Whether a member comes before attributes is settled by its class. -/
theorem isDataMember (hv : n ∈ ["__set__","__delete__"] → ¬ s.Inherits (s.classOf v) r n) :
    t.isDataMember v = s.isDataMember v := by
  have hrule {j : String} (hj : j ∈ ["__set__","__delete__"]) : t.override? (s.classOf v) j = s.override? (s.classOf v) j :=
    h.override? fun hn => hv (hn ▸ hj)
  have hA : t.isA v .property = s.isA v .property := by simp only [isA,comesFrom,h.classOf,h.line]
  have hover : t.overrides (t.classOf v) ["__set__","__delete__"] = s.overrides (s.classOf v) ["__set__","__delete__"] := by
    simp [overrides,h.classOf,hrule]
  cases v with
  | operation o => cases o <;> simp only [Store.isDataMember,hA,hover]
  | _ => simp only [Store.isDataMember,hA,hover]

end Puts

end puts

theorem Keeps.seat {s u : Store} {v : Value} (hg : s.Grows u) (hv : s.Holds .all v) : u.seat v = s.seat v := by
  cases v with
  | ref p =>
    obtain ⟨o,ho,-⟩ := hv p rfl
    obtain ⟨o',ho',hkeep⟩ := hg.kept p o ho trivial
    simp only [Store.seat,ho,ho',Option.map_some,hkeep.table]
  | _ => rfl

namespace Lined
variable {s u : Store} {r p : Ref} {k : String} {c : ClassId} (hc : s.Lined c) (hg : s.Grows u) (hk : k ≠ "__annotations__")
include hc hg hk

theorem classAttrs_grows (hp : .defined p ∈ s.line c) : (u.classAttrs p).get? k = (s.classAttrs p).get? k := by
  obtain ⟨o,ho⟩ := hc.get? hp
  exact hg.classAttrs (holds_ref ho trivial) (by simpa [Frame.frees,Frame.all] using hk)

theorem override?_grows : u.override? c k = s.override? c k :=
  override?_congr (hc.line_eq hg fun _ _ => trivial) fun _ hp => hc.classAttrs_grows hg hk hp

theorem inherits_grows : u.Inherits c r k ↔ s.Inherits c r k := by
  rw [Inherits,Inherits,hc.line_eq hg fun _ _ => trivial]
  refine exists_congr fun l => exists_congr fun l' => and_congr_right fun hl => forall_congr' fun p => ?_
  refine imp_congr_right fun hp => ?_
  rw [hc.classAttrs_grows hg hk (p := p) (by rw [hl]; simp [hp])]

end Lined

theorem lined_builtin (s : Store) (b : BuiltinClass) : s.Lined (.builtin b) :=
  ⟨b,by rw [line_builtin]; exact List.mem_map_of_mem b.self_mem_line⟩

/-- Whether the line of a class ends with builtin classes. -/
def hasRoot (s : Store) (c : ClassId) : Bool := (s.line c).any fun
  | .builtin _ => true
  | .defined _ => false

/-- Whether all that a store is to have to be rooted is there for an object. -/
def rootsAt (s : Store) (r : Ref) (o : Obj) : Bool :=
  s.hasRoot o.cls &&
  (match o.body with
    | .cls _ => s.hasRoot (.defined r)
    | _ => true) &&
  (o.attrs.getD []).all (fun e => match e.2 with
    | .ref p => (s.get? p).isSome
    | _ => true) &&
  match o.table.bind s.get? with
    | some ⟨.builtin .dict,.table _,_,_,_⟩ => true
    | _ => o.table.isNone

def isRooted (s : Store) : Bool := (List.range s.heap.size).all fun r => (s.get? r).all (s.rootsAt r)

theorem rooted_of_isRooted {s : Store} (h : s.isRooted = true) : s.Rooted := by
  have hobj (r : Ref) (o : Obj) (ho : s.get? r = some o) : s.rootsAt r o = true := by
    have hr := List.all_eq_true.mp h r (List.mem_range.mpr (lt_of_get? ho))
    rwa [ho] at hr
  have hroot (c : ClassId) (hc : s.hasRoot c = true) : s.Lined c := by
    obtain ⟨b,hb,hroot⟩ := List.any_eq_true.mp hc
    cases b with
    | builtin b => exact ⟨b,hb⟩
    | defined p => cases hroot
  refine ⟨fun r => ?_,fun r info hr => ?_,fun r n x hx p hp => ?_,fun r o d ho hd => ?_⟩
  · cases ho : s.get? r with
    | none => simpa only [classOf,ho] using lined_builtin s _
    | some o =>
      have hcheck := hobj r o ho
      simp only [rootsAt,Bool.and_eq_true] at hcheck
      rw [classOf_of_get? ho]
      exact hroot _ hcheck.1.1.1
  · rw [classInfo?_eq] at hr
    cases ho : s.get? r with
    | none => simp [body?,obj?,ho] at hr
    | some o =>
      have hcheck := hobj r o ho
      simp only [rootsAt,Bool.and_eq_true] at hcheck
      rw [body?_of_get? ho] at hr
      have hclass := hcheck.1.1.2
      cases hb : o.body with
      | cls info =>
        rw [hb] at hclass
        exact hroot _ hclass
      | _ => simp [hb] at hr
  · subst hp
    cases ho : s.get? r with
    | none => simp [classAttrs,ho] at hx
    | some o =>
      have hcheck := hobj r o ho
      simp only [rootsAt,Bool.and_eq_true] at hcheck
      simp only [classAttrs,ho,Option.bind_some] at hx
      have hthere := List.all_eq_true.mp hcheck.1.2 _ (Fields.mem_of_get? hx)
      obtain ⟨e,he⟩ := Option.isSome_iff_exists.mp hthere
      exact ⟨e,he,trivial⟩
  · have hcheck := hobj r o ho
    simp only [rootsAt,Bool.and_eq_true,hd,Option.bind_some,Option.isNone_some] at hcheck
    have htable := hcheck.2
    split at htable
    · rename_i es _ _ _ he
      exact ⟨_,es,he,rfl,by simp [Frame.callables]⟩
    · cases htable

namespace Rooted
variable {s t u : Store} {r q p : Ref} {n k : String} {x v : Value} {c : ClassId}

section rooted
variable (hs : s.Rooted)
include hs

theorem lined_classOf (v : Value) : s.Lined (s.classOf v) := by
  cases v with
  | ref p => exact hs.lined p
  | _ => exact lined_builtin s _

theorem lined_class (hc : s.class? v = some c) : s.Lined c := by
  cases v with
  | ref p =>
    obtain ⟨info,hinfo,rfl⟩ := Option.map_eq_some_iff.mp hc
    exact hs.classes p info hinfo
  | builtinClass b =>
    obtain rfl : .builtin b = c := by simpa [Store.class?] using hc
    exact lined_builtin s b
  | _ => cases hc

/-- What a class holds is there. -/
theorem holds_member (hx : s.classMember? c k = some x ∨ s.override? c k = some x) : s.Holds .all x := by
  have held {y : ClassId} (hy : s.heldBy k y = some x) : s.Holds .all x := by
    cases y with
    | builtin b =>
      rcases BuiltinClass.ownMember?_cases hy with ⟨_,-,rfl⟩ | rfl | rfl | rfl <;> nofun
    | defined p => exact hs.members p k x hy
  rcases hx with hx | hx
  · obtain ⟨y,-,hy⟩ := List.exists_of_findSome?_eq_some hx
    exact held hy
  · cases c with
    | builtin b => cases hx
    | defined p =>
      obtain ⟨y,-,hy⟩ := List.exists_of_findSome?_eq_some hx
      cases y with
      | builtin b => cases hy
      | defined p => exact held (y := .defined p) hy

end rooted

/-- What stays of attributes, wherever they are kept. -/
theorem attr? (hs : s.Rooted) (hg : s.Grows u) (hk : k ≠ "__annotations__") (hv : s.Holds .all v) :
    u.attr? v k = s.attr? v k := by
  cases v with
  | ref p =>
    obtain ⟨o,ho,-⟩ := hv p rfl
    have hfree : ¬ Frame.all.frees k := by simpa [Frame.frees,Frame.all] using hk
    cases htable : o.table with
    | none => exact hg.attr? ho trivial htable hfree
    | some d =>
      obtain ⟨e,es,he,hes,-⟩ := hs.tables p o d ho htable
      obtain ⟨o',ho',hkeep⟩ := hg.kept p o ho trivial
      obtain ⟨e',he',hkeep'⟩ := hg.kept d e he trivial
      have hbody := hkeep'.body
      obtain ⟨_,b,_,_,_⟩ := e
      obtain ⟨_,b',_,_,_⟩ := e'
      obtain rfl : b = .table es := hes
      obtain rfl : b' = .table es := hbody
      simp [Store.attr?,attrs?,obj?,ho,ho',attrsOf,htable,hkeep.table,tableEntries,he,he']
  | _ => rfl

theorem isDataMember (hs : s.Rooted) (hg : s.Grows u) (hv : s.Holds .all v) : u.isDataMember v = s.isDataMember v := by
  have hc : u.classOf v = s.classOf v := hg.classOf hv
  have hA : u.isA v .property = s.isA v .property := by
    simp only [isA,comesFrom,hc,(hs.lined_classOf v).line_eq hg fun _ _ => trivial]
  have hover : u.overrides (u.classOf v) ["__set__","__delete__"] = s.overrides (s.classOf v) ["__set__","__delete__"] := by
    simp [overrides,hc,(hs.lined_classOf v).override?_grows hg (k := "__set__") (by decide),
      (hs.lined_classOf v).override?_grows hg (k := "__delete__") (by decide)]
  cases v with
  | operation o => cases o <;> simp only [Store.isDataMember,hA,hover]
  | _ => simp only [Store.isDataMember,hA,hover]

/-- Growth moves no lookup. -/
theorem unmoved (hs : s.Rooted) (hg : s.Grows u) (hv : s.Holds .all v) (hk : k ≠ "__annotations__") : s.Unmoved u v k where
  cls := hg.classOf hv
  class? := hg.class? hv
  bound? := by rw [bound?,bound?,hg.body? hv]
  line := (hs.lined_classOf v).line_eq hg fun _ _ => trivial
  overrides j hj := by
    refine (hs.lined_classOf v).override?_grows hg ?_
    rintro rfl
    simp only [List.mem_cons,List.not_mem_nil,or_false] at hj
    rcases hj with rfl | hj | hj
    · exact hk rfl
    · simp at hj
    · simp at hj
  above := (hs.lined_classOf v).classMember?_grows hg hk
  held c hc := (hs.lined_class hc).classMember?_grows hg hk
  attrs j hj := by
    refine hs.attr? hg ?_ hv
    rintro rfl
    simp only [List.mem_cons,List.not_mem_nil,or_false] at hj
    rcases hj with rfl | hj
    · exact hk rfl
    · simp at hj
  data x hx := hs.isDataMember hg (hs.holds_member hx)

end Rooted

/-- A lookup of `k` from `v` that does not come by the slot `n` of `r`, which is kept in `q`: if it looks for that name,
the attributes of `v` are kept elsewhere, and neither its class nor itself, if it is a class, takes the member from `r`. -/
structure Beyond (s : Store) (r q : Ref) (n : String) (v : Value) (k : String) : Prop where
  there : s.Holds .all v
  seat : n ∈ [k,"__getattr__"] → s.seat v ≠ some q
  cls : n ∈ [k,"__getattribute__","__getattr__"] → ¬ s.Inherits (s.classOf v) r n
  line : n = k → ∀ c, s.class? v = some c → ¬ s.Inherits c r n
  name : k ≠ "__annotations__"
  binding : n ∈ ["__set__","__delete__"] → ∀ x,
    s.classMember? (s.classOf v) k = some x ∨ s.override? (s.classOf v) k = some x → ¬ s.Inherits (s.classOf x) r n

section beyond
variable {s t u : Store} {r q : Ref} {n k : String} {x v : Value} {c : ClassId}

theorem not_inherits_of_notMem (hr : .defined r ∉ s.line c) : ¬ s.Inherits c r n := by
  rintro ⟨l,l',hl,-⟩
  exact hr (by rw [hl]; simp)

/-- Nothing is taken from what is no class. -/
theorem not_inherits (hc : s.Lined c) (hr : s.classInfo? r = none) : ¬ s.Inherits c r n := by
  rintro ⟨l,l',hl,-⟩
  obtain ⟨info,hinfo⟩ := hc.classInfo? (r := r) (by rw [hl]; simp)
  cases hr.symm.trans hinfo

theorem Beyond.grows (hs : s.Rooted) (hg : s.Grows u) (hr : s.Holds .all (.ref r))
    (hn : n = "__annotations__" → s.classInfo? r = none) (h : s.Beyond r q n v k) : u.Beyond r q n v k := by
  have free {c : ClassId} (hc : s.Lined c) (hfree : ¬ s.Inherits c r n) : ¬ u.Inherits c r n := by
    by_cases hname : n = "__annotations__"
    · refine not_inherits (hc.keep hg fun _ _ => trivial) ?_
      rw [hg.classInfo? hr,hn hname]
    · rwa [hc.inherits_grows hg hname]
  have hcls : u.classOf v = s.classOf v := hg.classOf h.there
  refine ⟨hg.holds h.there,fun hname => by rw [hg.seat h.there]; exact h.seat hname,fun hname => ?_,fun hname c hc => ?_,
    h.name,fun hname y hy => ?_⟩
  · rw [hcls]
    exact free (hs.lined_classOf v) (h.cls hname)
  · rw [hg.class? h.there] at hc
    exact free (hs.lined_class hc) (h.line hname c hc)
  · rw [hcls,(hs.lined_classOf v).classMember?_grows hg h.name,(hs.lined_classOf v).override?_grows hg h.name] at hy
    rw [hg.classOf (hs.holds_member hy)]
    exact free (hs.lined_classOf y) (h.binding hname y hy)

/-- A slot that is filled moves no lookup that does not come by it. -/
theorem Puts.unmoved (h : s.Puts n x r q t) (hb : s.Beyond r q n v k) : s.Unmoved t v k where
  cls := h.classOf
  class? := h.class?
  bound? := h.bound?
  line := h.line
  overrides j hj := h.override? fun hname => hb.cls (hname ▸ hj)
  above := h.classMember? fun hname => hb.cls (by simp [hname])
  held c hc := h.classMember? fun hname => hb.line hname.symm c hc
  attrs j hj := h.attr? <| or_iff_not_imp_right.mpr fun hname => hb.seat (not_not.mp hname ▸ hj)
  data y hy := h.isDataMember fun hname => hb.binding hname y hy

/-- What the second store has in common with the first one if no more was done to it than fill the slot `n` of `r`, which
is kept in `q`.  All objects but `q` are as they were.  Attributes and members are, unless they are taken from the slot.
Lookups that do not come by it find the same; the rest of reading binds what was found. -/
structure Spared (s t : Store) (r q : Ref) (n : String) : Prop where
  objects : s.Keeps (.but q) t
  callables : s.Keeps .callables t
  classes : ∀ v, s.Holds .all v → t.classOf v = s.classOf v ∧ t.class? v = s.class? v
  attrs : ∀ v k, s.Holds .all v → k ≠ "__annotations__" → (s.seat v ≠ some q ∨ k ≠ n) → t.attr? v k = s.attr? v k
  members : ∀ c k, s.Lined c → k ≠ "__annotations__" → (k = n → ¬ s.Inherits c r n) →
    t.classMember? c k = s.classMember? c k
  lookups : ∀ v k, s.Beyond r q n v k → t.lookup v k = s.lookup v k
  reads : ∀ v k, s.Beyond r q n v k → (s.class? v = none ∨ k ∉ classTitles) → ∀ m : Machine,
    m.next.read v k s = (s.lookup v k).read m v k s ∧ m.next.read v k t = (s.lookup v k).read m v k t

theorem spared_of_puts (hs : s.Rooted) (hg : s.Grows u) (h : u.Puts n x r q t) (hr : s.Holds .all (.ref r))
    (hn : n = "__annotations__" → s.classInfo? r = none)
    (hq : ∃ o, s.get? q = some o ∧ ¬ Frame.callables.holds q o.cls) : s.Spared t r q n := by
  have hlookup {v : Value} {k : String} (hb : s.Beyond r q n v k) : t.lookup v k = s.lookup v k :=
    (h.unmoved (hb.grows hs hg hr hn)).lookup.trans (hs.unmoved hg hb.there hb.name).lookup
  have hclass (v : Value) (hv : s.Holds .all v) : t.classOf v = s.classOf v ∧ t.class? v = s.class? v :=
    ⟨h.classOf.trans (hg.classOf hv),h.class?.trans (hg.class? hv)⟩
  have hinert (o : Obj) (ho : u.get? q = some o) : ¬ Frame.callables.holds q o.cls := by
    obtain ⟨o',ho',hcls⟩ := hq
    obtain ⟨o'',ho'',hkeep⟩ := hg.kept q o' ho' trivial
    obtain rfl : o'' = o := Option.some.inj (ho''.symm.trans ho)
    rwa [hkeep.cls]
  refine ⟨(Keeps.of_grows hg).trans (h.keeps fun _ _ hne => hne rfl),(Keeps.of_grows hg).trans (h.keeps hinert),hclass,
    ?_,?_,fun v k hb => hlookup hb,fun v k hb hk m => ⟨read_lookup hk,?_⟩⟩
  · intro v k hv hk hslot
    rw [h.attr? (by rwa [hg.seat hv]),hs.attr? hg hk hv]
  · intro c k hc hk hslot
    rw [h.classMember? fun hkn => ?_,hc.classMember?_grows hg hk]
    subst hkn
    rw [hc.inherits_grows hg hk]
    exact hslot rfl
  · rw [← hlookup hb]
    refine read_lookup ?_
    rwa [(hclass v hb.there).2]

end beyond

end Store
end CallContracts
