import CallContracts.Proofs.Act
/-! Frames: what a stretch of a run leaves alone.  New objects may come and messages may be logged.  The
objects in the frame stay as they are, but for attributes of the names that it frees; the annotations of
functions and classes are always free, for they come into being when they are first asked for. -/
namespace CallContracts

/-- The objects that are kept, by place and class, the names whose attributes are free, and whether the
program records nothing. -/
structure Frame where
  holds : Ref → ClassId → Prop
  free : List String := []
  silent : Bool := true

/-- Every object is kept. -/
def Frame.all : Frame where
  holds _ _ := True

def Frame.frees (F : Frame) (n : String) : Prop := n = "__annotations__" ∨ n ∈ F.free

instance (F : Frame) (n : String) : Decidable (F.frees n) := by unfold Frame.frees; infer_instance

/-- Fields of names that are not free. -/
def Frame.lasting (F : Frame) (f : Fields Value) : Fields Value := f.filter fun p => ¬ F.frees p.1

namespace Frame
variable {F G : Frame} {n : String}

theorem frees_mono (hfree : ∀ n ∈ F.free, n ∈ G.free) (n : String) (hn : F.frees n) : G.frees n :=
  hn.imp_right (hfree n)

theorem get?_lasting (f : Fields Value) (hn : ¬ F.frees n) : (F.lasting f).get? n = f.get? n := by
  induction f with
  | nil => rfl
  | cons p r ih =>
    by_cases hp : F.frees p.1
    · have hk : p.1 ≠ n := fun h => hn (h ▸ hp)
      have hl : F.lasting (p :: r) = F.lasting r := by simp [lasting,hp]
      rw [hl,ih]
      simp [Fields.get?,hk]
    · have hl : F.lasting (p :: r) = p :: F.lasting r := by simp [lasting,hp]
      rw [hl]
      simp [Fields.get?,ih]

theorem lasting_put (f : Fields Value) (v : Value) (hn : F.frees n) :
    F.lasting (f.put n v) = F.lasting f := by
  induction f with
  | nil => simp [Fields.put,lasting,hn]
  | cons p r ih =>
    by_cases hp : p.1 = n
    · subst hp
      simp [Fields.put,lasting,hn]
    · have hs : Fields.put (p :: r) n v = p :: Fields.put r n v := by simp [Fields.put,hp]
      rw [hs]
      by_cases hf : F.frees p.1
      · simpa [lasting,hf] using ih
      · simpa [lasting,hf] using ih

theorem lasting_of_lasting (hfree : ∀ n, F.frees n → G.frees n) (f : Fields Value) :
    G.lasting (F.lasting f) = G.lasting f := by
  simp only [lasting,List.filter_filter]
  congr 1
  funext p
  by_cases hp : G.frees p.1
  · simp [hp]
  · have hf : ¬ F.frees p.1 := fun h => hp (hfree _ h)
    simp [hp,hf]

end Frame

/-- What has annotations that come into being when they are first asked for. -/
def Body.annotated : Body → Bool
  | .function _ | .cls _ => true
  | _ => false

/-- What is left of an object in a frame. -/
structure Obj.Keeps (F : Frame) (o p : Obj) : Prop where
  cls : p.cls = o.cls
  body : p.body = o.body
  table : p.table = o.table
  attrs : p.attrs.map F.lasting = o.attrs.map F.lasting
  slots : F.lasting p.slots = F.lasting o.slots
  same : o.body.annotated = false → F.free = [] → p.attrs = o.attrs ∧ p.slots = o.slots

namespace Obj.Keeps
variable {F G : Frame} {o p q : Obj} {n : String}

theorem refl (F : Frame) (o : Obj) : o.Keeps F o := ⟨rfl,rfl,rfl,rfl,rfl,fun _ _ => ⟨rfl,rfl⟩⟩

theorem trans (h : o.Keeps F p) (h' : p.Keeps F q) : o.Keeps F q :=
  ⟨h'.cls.trans h.cls,h'.body.trans h.body,h'.table.trans h.table,h'.attrs.trans h.attrs,
    h'.slots.trans h.slots,fun hb hF =>
      have h₁ := h.same hb hF
      have h₂ := h'.same (by rw [h.body,hb]) hF
      ⟨h₂.1.trans h₁.1,h₂.2.trans h₁.2⟩⟩

theorem mono (hfree : ∀ n ∈ F.free, n ∈ G.free) (h : o.Keeps F p) : o.Keeps G p := by
  have hfree' := Frame.frees_mono hfree
  refine ⟨h.cls,h.body,h.table,?_,?_,fun hb hG => h.same hb ?_⟩
  · have ha := congrArg (Option.map G.lasting) h.attrs
    simpa only [Option.map_map,Function.comp_def,Frame.lasting_of_lasting hfree'] using ha
  · have hs := congrArg G.lasting h.slots
    simpa only [Frame.lasting_of_lasting hfree'] using hs
  · rw [hG] at hfree
    exact List.eq_nil_iff_forall_not_mem.mpr fun n hn => by simpa using hfree n hn

theorem attr (h : o.Keeps F p) (hn : ¬ F.frees n) :
    p.attrs.bind (·.get? n) = o.attrs.bind (·.get? n) := by
  have ha := h.attrs
  cases hp : p.attrs <;> cases ho : o.attrs <;> simp [hp,ho] at ha
  · rfl
  · rename_i f g
    have hg : (F.lasting f).get? n = (F.lasting g).get? n := by rw [ha]
    simpa [Frame.get?_lasting _ hn] using hg

theorem isSome_attrs (h : o.Keeps F p) : p.attrs.isSome = o.attrs.isSome := by
  have ha := congrArg Option.isSome h.attrs
  simpa using ha

end Obj.Keeps

namespace Store

structure Keeps (F : Frame) (s t : Store) : Prop where
  size : s.heap.size ≤ t.heap.size
  kept : ∀ r o, s.get? r = some o → F.holds r o.cls → ∃ p, t.get? r = some p ∧ o.Keeps F p
  globals : t.globals = s.globals
  trace : F.silent → t.trace = s.trace

/-- Growth: all that a computation does to the store which only looks at things. -/
abbrev Grows (s t : Store) : Prop := s.Keeps .all t

/-- Whether a value, if it is an object, is one of the store that the frame holds. -/
def Holds (F : Frame) (s : Store) (v : Value) : Prop :=
  ∀ r, v = .ref r → ∃ o, s.get? r = some o ∧ F.holds r o.cls

theorem lt_of_get? {s : Store} {r : Ref} {o : Obj} (h : s.get? r = some o) : r < s.heap.size := by
  simp only [get?] at h
  exact (Array.getElem?_eq_some_iff.mp h).1

theorem get?_size (s : Store) : s.get? s.heap.size = none := by simp [get?]

theorem holds_ref {F : Frame} {s : Store} {r : Ref} {o : Obj} (ho : s.get? r = some o)
    (hF : F.holds r o.cls) : s.Holds F (.ref r) := by
  rintro _ ⟨⟩
  exact ⟨o,ho,hF⟩

namespace Keeps
variable {F G : Frame} {s t u : Store} {r : Ref} {o : Obj} {n : String} {v : Value}

theorem refl (F : Frame) (s : Store) : s.Keeps F s :=
  ⟨Nat.le_refl _,fun _ o h _ => ⟨o,h,Obj.Keeps.refl F o⟩,rfl,fun _ => rfl⟩

theorem trans (h : s.Keeps F t) (h' : t.Keeps F u) : s.Keeps F u := by
  refine ⟨Nat.le_trans h.size h'.size,?_,h'.globals.trans h.globals,fun hF =>
    (h'.trace hF).trans (h.trace hF)⟩
  intro r o ho hF
  obtain ⟨p,hp,hk⟩ := h.kept r o ho hF
  obtain ⟨q,hq,hk'⟩ := h'.kept r p hp (hk.cls ▸ hF)
  exact ⟨q,hq,hk.trans hk'⟩

theorem mono (hholds : ∀ r c, G.holds r c → F.holds r c) (hfree : ∀ n ∈ F.free, n ∈ G.free)
    (hsilent : G.silent → F.silent) (h : s.Keeps F t) : s.Keeps G t := by
  refine ⟨h.size,?_,h.globals,fun hG => h.trace (hsilent hG)⟩
  intro r o ho hG
  obtain ⟨p,hp,hk⟩ := h.kept r o ho (hholds _ _ hG)
  exact ⟨p,hp,hk.mono hfree⟩

theorem of_grows (h : s.Grows t) : s.Keeps F t :=
  h.mono (fun _ _ _ => trivial) (fun n hn => by cases hn) fun _ => rfl

theorem alloc (s : Store) (o : Obj) : s.Keeps F (s.alloc o).2 := by
  refine ⟨by simp,?_,rfl,fun _ => rfl⟩
  intro r p hp _
  exact ⟨p,by rw [get?_alloc_of_lt s o (lt_of_get? hp),hp],Obj.Keeps.refl F p⟩

/-- Messages are no objects. -/
theorem logged (s : Store) (l : List String) : s.Keeps F { s with log := l } :=
  ⟨Nat.le_refl _,fun _ o h _ => ⟨o,h,Obj.Keeps.refl F o⟩,rfl,fun _ => rfl⟩

theorem update {f : Obj → Obj} (hf : ∀ o, s.get? r = some o → F.holds r o.cls → o.Keeps F (f o)) :
    s.Keeps F (s.update r f) := by
  refine ⟨by simp,?_,rfl,fun _ => rfl⟩
  intro q o ho hF
  by_cases hq : q = r
  · subst hq
    exact ⟨f o,by rw [get?_update_self,ho]; rfl,hf o ho hF⟩
  · exact ⟨o,by rw [get?_update_ne s f hq,ho],Obj.Keeps.refl F o⟩

theorem holds (h : s.Keeps F t) (hv : s.Holds F v) : t.Holds F v := by
  intro r hr
  obtain ⟨o,ho,hF⟩ := hv r hr
  obtain ⟨p,hp,hk⟩ := h.kept r o ho hF
  exact ⟨p,hp,hk.cls ▸ hF⟩

theorem body? (h : s.Keeps F t) (hv : s.Holds F v) : t.body? v = s.body? v := by
  cases v with
  | ref r =>
    obtain ⟨o,ho,hF⟩ := hv r rfl
    obtain ⟨p,hp,hk⟩ := h.kept r o ho hF
    simp [Store.body?,Store.obj?,ho,hp,hk.body]
  | _ => rfl

theorem classOf (h : s.Keeps F t) (hv : s.Holds F v) : t.classOf v = s.classOf v := by
  cases v with
  | ref r =>
    obtain ⟨o,ho,hF⟩ := hv r rfl
    obtain ⟨p,hp,hk⟩ := h.kept r o ho hF
    simp [Store.classOf,ho,hp,hk.cls]
  | _ => rfl

theorem contract? (h : s.Keeps F t) (hv : s.Holds F v) : t.contract? v = s.contract? v := by
  simp only [Store.contract?,h.body? hv]

theorem classAttrs (h : s.Keeps F t) (hv : s.Holds F (.ref r)) (hn : ¬ F.frees n) :
    (t.classAttrs r).get? n = (s.classAttrs r).get? n := by
  obtain ⟨o,ho,hF⟩ := hv r rfl
  obtain ⟨p,hp,hk⟩ := h.kept r o ho hF
  have ha := hk.attr hn
  cases hp' : p.attrs <;> cases ho' : o.attrs <;> simp_all [Store.classAttrs]

/-- An attribute that an object keeps for itself. -/
theorem attr? (h : s.Keeps F t) (ho : s.get? r = some o) (hF : F.holds r o.cls) (ht : o.table = none)
    (hn : ¬ F.frees n) : t.attr? (.ref r) n = s.attr? (.ref r) n := by
  obtain ⟨p,hp,hk⟩ := h.kept r o ho hF
  have ha := hk.attr hn
  simpa [Store.attr?,Store.attrs?,Store.obj?,attrsOf,ho,hp,ht,hk.table] using ha

end Keeps

theorem classInfo?_eq (s : Store) (r : Ref) :
    s.classInfo? r = match s.body? (.ref r) with
      | some (.cls info) => some info
      | _ => none := by
  have hb : s.body? (.ref r) = (s.get? r).map Obj.body := rfl
  rw [hb]
  unfold classInfo?
  rcases s.get? r with _ | ⟨c,b,a,l,t⟩
  · rfl
  · cases b <;> rfl

theorem Keeps.classInfo? {F : Frame} {s t : Store} {r : Ref} (h : s.Keeps F t)
    (hr : s.Holds F (.ref r)) : t.classInfo? r = s.classInfo? r := by
  rw [classInfo?_eq,classInfo?_eq,h.body? hr]

theorem Keeps.class? {F : Frame} {s t : Store} {v : Value} (h : s.Keeps F t) (hv : s.Holds F v) :
    t.class? v = s.class? v := by
  cases v with
  | ref r => simp [Store.class?,h.classInfo? hv]
  | _ => rfl

end Store
end CallContracts
