import Mathlib.Data.List.Nodup
import CallContracts.Proofs.Host
/-! Stacks of wrappers.  A wrapper takes over all that the one below has, and then writes its own over it; so what it
wraps and whom it asks is its own, however many layers there are below and whatever their attributes are called, and
what the callable at the bottom has under other names is read from the top. -/
namespace CallContracts
open Act

namespace Fields
variable {α : Type} {f g : Fields α} {n : String} {x : α}

/-- A field that is under its name alone. -/
def Lone (f : Fields α) (n : String) (x : α) : Prop := (n,x) ∈ f ∧ ∀ y, (n,y) ∈ f → y = x

theorem lone_of_get? (hf : f.keys.Nodup) (h : f.get? n = some x) : f.Lone n x :=
  ⟨mem_of_get? h,fun _ hy => congrArg Prod.snd (List.inj_on_of_nodup_map hf hy (mem_of_get? h) rfl)⟩

theorem keys_put_of_notMem (f : Fields α) (x : α) (h : n ∉ f.keys) : (f.put n x).keys = f.keys ++ [n] := by
  induction f with
  | nil => rfl
  | cons p f ih =>
    simp only [keys,List.map_cons,List.mem_cons,not_or] at h
    have hs : put (p :: f) n x = p :: put f n x := by simp [put,Ne.symm h.1]
    rw [hs]
    exact congrArg (p.1 :: ·) (ih h.2)

theorem nodup_put (hf : f.keys.Nodup) (n : String) (x : α) : (f.put n x).keys.Nodup := by
  by_cases h : n ∈ f.keys
  · rwa [keys_put_of_mem f x h]
  · rw [keys_put_of_notMem f x h]
    refine List.nodup_append.mpr ⟨hf,List.nodup_singleton n,fun k hk j hj hkj => h ?_⟩
    rwa [← List.mem_singleton.mp hj,← hkj]

theorem nodup_putAll (hf : f.keys.Nodup) (g : Fields α) : (f.putAll g).keys.Nodup := by
  induction g generalizing f with
  | nil => exact hf
  | cons p g ih => exact ih (nodup_put hf p.1 p.2)

theorem get?_putAll_of_notMem (h : ∀ y, (n,y) ∉ g) : (f.putAll g).get? n = f.get? n := by
  induction g generalizing f with
  | nil => rfl
  | cons p g ih =>
    have hp : n ≠ p.1 := fun hp => h p.2 (by simp [hp])
    exact (ih fun y hy => h y (List.mem_cons_of_mem p hy)).trans (get?_put_ne f p.2 hp)

/-- What is written last stays. -/
theorem get?_putAll_of_lone (h : g.Lone n x) : (f.putAll g).get? n = some x := by
  induction g generalizing f with
  | nil => cases h.1
  | cons p g ih =>
    by_cases hn : ∃ y, (n,y) ∈ g
    · obtain ⟨y,hy⟩ := hn
      obtain rfl : y = x := h.2 y (List.mem_cons_of_mem p hy)
      exact ih ⟨hy,fun z hz => h.2 z (List.mem_cons_of_mem p hz)⟩
    · obtain rfl : (n,x) = p := (List.mem_cons.mp h.1).resolve_right fun hx => hn ⟨x,hx⟩
      exact (get?_putAll_of_notMem fun y hy => hn ⟨y,hy⟩).trans (get?_put_self f n x)

end Fields

/-- An object that grows only is as it was, if nothing of it comes into being later. -/
theorem Store.Keeps.get?_plain {s t : Store} {r : Ref} {o : Obj} (h : s.Grows t) (ho : s.get? r = some o)
    (hb : o.body.annotated = false) : t.get? r = some o := by
  obtain ⟨p,hp,hk⟩ := h.kept r o ho trivial
  obtain ⟨hattrs,hslots⟩ := hk.same hb rfl
  rw [hp]
  obtain ⟨c,b,a,l,d⟩ := o
  obtain ⟨c',b',a',l',d'⟩ := p
  simp only [Option.some.injEq,Obj.mk.injEq]
  exact ⟨hk.cls,hk.body,hattrs,hslots,hk.table⟩

/-- What is rewritten was not there before. -/
theorem Store.Keeps.update_new {s t : Store} {r : Ref} (h : s.Grows t) (hr : s.heap.size ≤ r) (g : Obj → Obj) :
    s.Grows (t.update r g) := by
  refine ⟨by simpa using h.size,fun q o ho hF => ?_,h.globals,h.trace⟩
  have hq : q ≠ r := Nat.ne_of_lt (Nat.lt_of_lt_of_le (lt_of_get? ho) hr)
  rw [get?_update_ne t g hq]
  exact h.kept q o ho hF

namespace Wrapper
variable {M N : Machine} {m : Machine} {s t u : Store} {f w p a v x : Value} {b : BuiltinClass} {n : String} {r : Ref}
  {own taken fs : Fields Value}

/-- A wrapper of a builtin class with these attributes. -/
def wrapper (b : BuiltinClass) (own : Fields Value) : Obj where
  cls := .builtin b
  body := .plain
  attrs := some own

/-- The names that only the class of a wrapper answers for. -/
def classNames : List String := ["__class__","__dict__","__weakref__"]

theorem sort_of_wrapper : ∀ b ∈ wrapperClasses, ∀ c ∈ b.line, ∀ p ∈ c.ownMembers, p.1 ∉ classNames →
    p.2 ≠ .property ∧ p.2 ≠ .storage ∧ p.2 ≠ .getter := by decide

theorem isDataMember_wrapper (hb : b ∈ wrapperClasses) (hn : n ∉ classNames)
    (hx : b.line.findSome? (·.ownMember? n) = some x) : s.isDataMember x = false := by
  obtain ⟨c,hc,hx⟩ := List.exists_of_findSome?_eq_some hx
  rcases BuiltinClass.ownMember?_cases hx with ⟨sort,hsort,rfl⟩ | rfl | rfl | rfl
  · simpa [Store.isDataMember,and_assoc] using sort_of_wrapper b hb c hc (n,sort) hsort hn
  all_goals
    simp [Store.isDataMember,Store.isA,Store.classOf]
    decide

section own
variable (ho : s.get? r = some (wrapper b own)) (hb : b ∈ wrapperClasses)
include ho

theorem classOf_wrapper : s.classOf (.ref r) = .builtin b := Store.classOf_of_get? ho

theorem class?_wrapper : s.class? (.ref r) = none :=
  Store.class?_of_body (Store.body?_of_get? ho) (by simp [wrapper])

theorem attr?_wrapper (n : String) : s.attr? (.ref r) n = own.get? n := Store.attr?_of_get? ho rfl

theorem tableOf_wrapper : s.tableOf (.ref r) = own := by
  have hpos : 0 < s.heap.size := Nat.zero_lt_of_lt (Store.lt_of_get? ho)
  obtain ⟨k,hk⟩ := Nat.exists_eq_succ_of_ne_zero (Nat.ne_of_gt hpos)
  simp [Store.tableOf,hk,Store.unbound,Store.body?_of_get? ho,wrapper,Store.attrs?,Store.obj?,ho,Store.attrsOf]

theorem takenTable_wrapper (m : Machine) : takenTable m (.ref r) s = .ok own s := by
  have hhide : s.hidesTable (.ref r) = false := by
    simp [Store.hidesTable,Store.classOf_of_get? ho,wrapper,Store.attrs?,Store.obj?,ho,Store.attrsOf]
  simp [takenTable,hhide,map_apply,tableOf_wrapper ho]

include hb

/-- What a wrapper has is what is read from it. -/
theorem read_wrapper (hn : n ∉ classNames) (hx : own.get? n = some x) (N : Machine) :
    N.next.read (.ref r) n s = .ok x s := by
  have hc := classOf_wrapper ho
  have hmodule : BuiltinClass.module ∉ b.line := by
    simp only [wrapperClasses,List.mem_cons,List.not_mem_nil,or_false] at hb
    rcases hb with rfl | rfl | rfl <;> decide
  rw [read_next_builtin hc (class?_wrapper ho) hmodule]
  have ha := (attr?_wrapper ho n).trans hx
  cases hm : b.line.findSome? (·.ownMember? n) with
  | none => simp [readOfInstance,hc,Store.classMember?_builtin,hm,ha]
  | some y => simp [readOfInstance,hc,Store.classMember?_builtin,hm,isDataMember_wrapper hb hn hm,ha]

/-- What is written to a wrapper is its own. -/
theorem write_wrapper (hn : n ∉ classNames) (x : Value) (N : Machine) :
    N.next.write (.ref r) n x s = .ok () (s.putAttr r n x) := by
  have hc := classOf_wrapper ho
  have hkind : s.isA (.ref r) .contract = false ∧ s.isA (.ref r) .matched = false ∧
      s.isA (.ref r) .mismatched = false ∧ s.isA (.ref r) .settings = false := by
    simp only [Store.isA_builtin hc,wrapperClasses,List.mem_cons,List.not_mem_nil,or_false] at hb ⊢
    rcases hb with rfl | rfl | rfl <;> decide
  have hfrozen : s.isFrozen (.ref r) n = false := by
    simp only [wrapperClasses,List.mem_cons,List.not_mem_nil,or_false] at hb
    rcases hb with rfl | rfl | rfl <;> simp [Store.isFrozen,hc,hkind]
  have hput : putOwn (.ref r) n x s = .ok () (s.putAttr r n x) := by
    simp [putOwn,Store.attrs?,Store.obj?,ho,Store.attrsOf,wrapper]
  have hwrite : writeInstance N (.ref r) n x s = .ok () (s.putAttr r n x) := by
    cases hm : b.line.findSome? (·.ownMember? n) with
    | none => simp [writeInstance,hc,Store.classMember?_builtin,hm,hput]
    | some y => simp [writeInstance,hc,Store.classMember?_builtin,hm,isDataMember_wrapper hb hn hm,hput]
  simp [Machine.next,writeAttribute,hc,writeNative,class?_wrapper ho,hkind,hfrozen,hwrite]

end own

/-- The classes of wrappers, with what each is given beside what it wraps and whom it asks. -/
inductive Shape where
  | plain
  | unbound (owner : Value)
  | ofClass

namespace Shape

def cls : Shape → BuiltinClass
  | plain => .wrapper
  | unbound _ => .unboundWrapper
  | ofClass => .classWrapper

def extra : Shape → Fields Value
  | unbound owner => [("owner",owner)]
  | _ => []

/-- What the initialiser writes in the end. -/
def written (k : Shape) (p a : Value) : Fields Value :=
  [("__wrapped__",p),("proceed",p),("advice",a)] ++ k.extra

theorem cls_mem (k : Shape) : k.cls ∈ wrapperClasses := by cases k <;> simp [cls,wrapperClasses]

end Shape

/-- The store in which a wrapper is begun, which has no attributes yet. -/
def begun (b : BuiltinClass) (s : Store) : Store := (s.alloc (wrapper b [])).2

theorem get?_begun (b : BuiltinClass) (s : Store) : (begun b s).get? s.heap.size = some (wrapper b []) :=
  Store.get?_alloc_self s _

theorem classOf_begun (b : BuiltinClass) (s : Store) : (begun b s).classOf (.ref s.heap.size) = .builtin b :=
  Store.classOf_of_get? (get?_begun b s)

theorem grows_begun (b : BuiltinClass) (s : Store) : s.Grows (begun b s) := Store.Keeps.alloc s _

section calls
variable (k : Shape) (M : Machine) (s : Store)

theorem make_wrapper (hb : b ∈ wrapperClasses) (args : List Value) :
    Construct.make M (.builtin b) args [] s = .ok (.ref s.heap.size) (begun b s) := by
  simp only [wrapperClasses,List.mem_cons,List.not_mem_nil,or_false] at hb
  have htabled : s.isTabled (.builtin b) = true := by
    rw [Store.isTabled,Store.line_builtin,List.any_map]
    rcases hb with rfl | rfl | rfl <;> rfl
  have hfresh : Make.fresh (.builtin b) s = .ok (.ref s.heap.size) (begun b s) := by
    rcases hb with rfl | rfl | rfl <;>
      simp [Make.fresh,Make.isPlain,Store.lacks,BuiltinClass.required,Make.inClass,htabled,begun,wrapper]
  rcases hb with rfl | rfl | rfl <;>
    simp [Construct.make,Construct.create,Make.isPlain,BuiltinClass.isException,BuiltinClass.line,Start.isBare,hfresh]

/-- A wrapper that comes from calling its class is made first and then handed to its initialiser. -/
theorem construct_wrapper (args : List Value) : Construct.call M (.builtin k.cls) args [] s =
    ((fun _ => .ref s.heap.size) <$> Start.run M k.cls (.ref s.heap.size) args []) (begun k.cls s) := by
  have hc := classOf_begun k.cls s
  have hguard : ((begun k.cls s).comesFrom ((begun k.cls s).classOf (.ref s.heap.size)) (.builtin k.cls)
      && ((begun k.cls s).obj? (.ref s.heap.size)).isSome) = true := by
    rw [hc,Store.comesFrom_builtin]
    simp [BuiltinClass.self_mem_line,Store.obj?,get?_begun]
  have hinit : Start.initialise M (.ref s.heap.size) args [] (begun k.cls s) =
      Start.run M k.cls (.ref s.heap.size) args [] (begun k.cls s) := by
    simp only [Start.initialise,get_bind_apply,hc,Store.override?_builtin,Store.builtinBase_builtin]
  rw [Construct.call]
  · rw [bind_ok (make_wrapper M s k.cls_mem args),get_bind_apply,if_pos hguard,bind_apply,hinit,map_apply]
    rfl
  all_goals cases k <;> simp [Shape.cls]

theorem run_wrapper {v : Value} (hv : s.isA v k.cls = true) (f a : Value) :
    Start.run M k.cls v (f :: a :: k.extra.map Prod.snd) [] s = ((fun _ => ()) <$> initialise M v f a k.extra) s := by
  cases k with
  | unbound owner =>
    have hA : s.isA v .unboundWrapper = true := hv
    refine Eq.trans (b := Start.ofParts M v .unboundWrapper [f,a,owner] s) rfl ?_
    simp [Start.ofParts,hA,Shape.extra,map_apply,bind_apply]
  | _ => rfl

theorem call_wrapper (f a : Value) : M.next.call (.builtinClass k.cls) (f :: a :: k.extra.map Prod.snd) [] s =
    ((fun _ => .ref s.heap.size) <$> initialise M (.ref s.heap.size) f a k.extra) (begun k.cls s) := by
  have hA : (begun k.cls s).isA (.ref s.heap.size) k.cls = true :=
    (Store.isA_builtin (classOf_begun k.cls s)).trans (decide_eq_true (BuiltinClass.self_mem_line _))
  refine (construct_wrapper k M s _).trans ?_
  rw [map_apply,run_wrapper k M _ hA,map_apply,map_apply]
  cases initialise M (.ref s.heap.size) f a k.extra (begun k.cls s) <;> rfl

end calls

/-- All these attributes written over those of an object, one after the other. -/
def putAttrs (s : Store) (r : Ref) (fs : Fields Value) : Store := fs.foldl (fun s p => s.putAttr r p.1 p.2) s

theorem get?_putAttr (ho : s.get? r = some (wrapper b own)) (n : String) (x : Value) :
    (s.putAttr r n x).get? r = some (wrapper b (own.put n x)) := by
  simp [Store.putAttr,Store.updateAttrs,ho,wrapper,Store.get?_update_self]

theorem get?_putAttrs (ho : s.get? r = some (wrapper b own)) (fs : Fields Value) :
    (putAttrs s r fs).get? r = some (wrapper b (own.putAll fs)) := by
  induction fs generalizing s own with
  | nil => exact ho
  | cons p fs ih => exact ih (get?_putAttr ho p.1 p.2)

theorem grows_putAttrs (h : s.Grows t) (hr : s.heap.size ≤ r) (ho : t.get? r = some (wrapper b own))
    (fs : Fields Value) : s.Grows (putAttrs t r fs) := by
  induction fs generalizing t own with
  | nil => exact h
  | cons p fs ih =>
    refine ih ?_ (get?_putAttr ho p.1 p.2)
    simp only [Store.putAttr,Store.updateAttrs,ho,Option.bind_some,wrapper]
    exact h.update_new hr _

theorem putFields_wrapper (ho : s.get? r = some (wrapper b own)) (fs : Fields Value) :
    putFields (.ref r) fs s = .ok () (putAttrs s r fs) := by
  simp [putFields,Store.attrs?,Store.obj?,ho,Store.attrsOf,wrapper,putAttrs]

theorem writeAll_wrapper (ho : s.get? r = some (wrapper b own)) (hb : b ∈ wrapperClasses) (N : Machine)
    (hfs : ∀ p ∈ fs, p.1 ∉ classNames) : writeAll N.next (.ref r) fs s = .ok () (putAttrs s r fs) := by
  induction fs generalizing s own with
  | nil => rfl
  | cons p fs ih =>
    rw [writeAll,bind_ok (write_wrapper ho hb (hfs p (by simp)) p.2 N)]
    exact ih (get?_putAttr ho p.1 p.2) fun q hq => hfs q (List.mem_cons_of_mem p hq)

/-- The names under which a wrapper keeps what it wraps and whom it asks. -/
def layerNames : List String := ["__wrapped__","proceed","advice","owner"]

/-- The attributes of a wrapper of `p` that took over those of `below`. -/
structure Overlays (own below : Fields Value) (p a : Value) : Prop where
  wrapped : own.get? "__wrapped__" = some p
  proceed : own.get? "proceed" = some p
  advice : own.get? "advice" = some a
  distinct : own.keys.Nodup
  rest : ∀ n x, n ∉ layerNames → below.Lone n x → own.get? n = some x

theorem overlays_own {copied : Fields Value} (hc : copied.keys.Nodup) (k : Shape) (taken : Fields Value) (f a : Value) :
    Overlays (Fields.putAll (ownFields (copied.putAll taken) f a) k.extra) taken f a := by
  have hget {n : String} (hn : n ≠ "owner") : (Fields.putAll (ownFields (copied.putAll taken) f a) k.extra).get? n =
      (ownFields (copied.putAll taken) f a).get? n := by
    cases k with
    | unbound o => exact Fields.get?_put_ne _ o hn
    | _ => rfl
  refine ⟨(hget (by decide)).trans ?_,(hget (by decide)).trans (own_proceed _ f a).1,
    (hget (by decide)).trans (own_proceed _ f a).2,?_,fun n x hn hx => ?_⟩
  · simp [ownFields,Fields.get?_put]
  · refine Fields.nodup_putAll ?_ k.extra
    exact Fields.nodup_put (Fields.nodup_put (Fields.nodup_put (Fields.nodup_putAll hc taken) _ f) _ f) _ a
  · simp only [layerNames,List.mem_cons,List.not_mem_nil,or_false,not_or] at hn
    obtain ⟨hwrapped,hproceed,hadvice,howner⟩ := hn
    rw [hget howner,ownFields,Fields.get?_put_ne _ _ hadvice,Fields.get?_put_ne _ _ hproceed,
      Fields.get?_put_ne _ _ hwrapped]
    exact Fields.get?_putAll_of_lone hx

theorem keys_copiedTitles {ns : List String} {l : Fields Value} (h : copiedTitles m f ns s = .ok l t) :
    l.keys.Sublist ns := by
  induction ns generalizing s l t with
  | nil =>
    obtain ⟨rfl,-⟩ : [] = l ∧ s = t := by simpa [copiedTitles] using h
    exact List.Sublist.refl _
  | cons n ns ih =>
    obtain ⟨v,u,-,h⟩ := bind_eq_ok.mp h
    obtain ⟨r,w,hr,h⟩ := bind_eq_ok.mp h
    cases v with
    | none =>
      obtain ⟨rfl,-⟩ : r = l ∧ w = t := by simpa using h
      exact (ih hr).cons n
    | some v =>
      obtain ⟨rfl,-⟩ : (n,v) :: r = l ∧ w = t := by simpa using h
      exact (ih hr).cons_cons n

theorem notMem_copiedTitles {l : Fields Value} (h : copiedTitles m f titles s = .ok l t) :
    ∀ p ∈ l, p.1 ∉ classNames := by
  intro p hp
  have hdisjoint : ∀ n ∈ titles, n ∉ classNames := by decide
  exact hdisjoint p.1 (names_copiedTitles h p hp)

/-- A layer of a stack: a wrapper that the library makes, or one that comes from calling its class. -/
structure Layer where
  shape : Shape
  advice : Value
  called : Bool

namespace Layer
variable {l : Layer}

def build (M : Machine) (l : Layer) (p : Value) : Act Value :=
  if l.called then M.next.next.call (.builtinClass l.shape.cls) (p :: l.advice :: l.shape.extra.map Prod.snd) []
  else make M.next.next l.shape.cls p l.advice l.shape.extra

/-- The attributes that the wrapped value shows while the layer is made. -/
def shown (M : Machine) (l : Layer) (p : Value) : Act (Fields Value) :=
  if l.called then do
    let w ← alloc (wrapper l.shape.cls [])
    writeAll M.next w (← copiedTitles M.next p titles)
    takenTable M.next p
  else do
    let _ ← copiedTitles M.next.next p titles
    takenTable M.next.next p

/-- What the wrapped value does when it is asked leaves the wrapper in the making alone, of which nothing else in the
program knows yet. -/
structure Unseen (M : Machine) (l : Layer) (p : Value) (s : Store) : Prop where
  titles : ∀ copied t, copiedTitles M.next p titles (begun l.shape.cls s) = .ok copied t →
    t.get? s.heap.size = some (wrapper l.shape.cls [])
  table : ∀ copied t taken u, copiedTitles M.next p Wrapper.titles (begun l.shape.cls s) = .ok copied t →
    takenTable M.next p (putAttrs t s.heap.size copied) = .ok taken u →
      u.get? s.heap.size = some (wrapper l.shape.cls (Fields.putAll [] copied))

theorem notMem_written (k : Shape) (p a : Value) : ∀ q ∈ k.written p a, q.1 ∉ classNames := by
  cases k <;> simp [Shape.written,Shape.extra,classNames]

theorem putAll_written (fs : Fields Value) (k : Shape) (p a : Value) :
    fs.putAll (k.written p a) = Fields.putAll (ownFields fs p a) k.extra :=
  List.foldl_append

section called
variable (hl : l.called = true) {copied : Fields Value} {x y : Store}
  (hcopied : copiedTitles M.next p titles (begun l.shape.cls s) = .ok copied x)
  (hx : x.get? s.heap.size = some (wrapper l.shape.cls []))
include hl hcopied hx

/-- Calling the class copies the titles first, then what is shown, and then writes what is the layer's own. -/
theorem build_called (htaken : takenTable M.next p (putAttrs x s.heap.size copied) = .ok taken y)
    (hy : y.get? s.heap.size = some (wrapper l.shape.cls (Fields.putAll [] copied))) :
    l.build M p s = .ok (.ref s.heap.size)
      (putAttrs (putAttrs y s.heap.size taken) s.heap.size (l.shape.written p l.advice)) := by
  have hb := l.shape.cls_mem
  have hwrite := writeAll_wrapper hx hb M (notMem_copiedTitles hcopied)
  have hput := putFields_wrapper hy taken
  have hown := writeAll_wrapper (get?_putAttrs hy taken) hb M (notMem_written l.shape p l.advice)
  rw [build,if_pos hl,call_wrapper]
  refine map_ok (a := .absent) ?_
  rw [initialise,bind_ok hcopied,bind_ok hwrite,bind_ok htaken,bind_ok hput]
  exact bind_ok hown

theorem shown_called : l.shown M p s = takenTable M.next p (putAttrs x s.heap.size copied) := by
  have hwrite := writeAll_wrapper hx l.shape.cls_mem M (notMem_copiedTitles hcopied)
  have hbegun : alloc (wrapper l.shape.cls []) s = .ok (.ref s.heap.size) (begun l.shape.cls s) := rfl
  rw [shown,if_pos hl,bind_ok hbegun,bind_ok hcopied,bind_ok hwrite]

end called

/-- A layer that is made has its own attributes over those that were shown. -/
theorem overlays_build {w : Value} (h : l.build M p s = .ok w t) (hu : l.called = true → l.Unseen M p s) :
    ∃ taken u r own, l.shown M p s = .ok taken u ∧ w = .ref r ∧ t.get? r = some (wrapper l.shape.cls own) ∧
      Overlays own taken p l.advice := by
  cases hl : l.called with
  | false =>
    rw [build,hl] at h
    obtain ⟨copied,x,hcopied,h⟩ := bind_eq_ok.mp h
    obtain ⟨taken,y,htaken,h⟩ := bind_eq_ok.mp h
    obtain ⟨rfl,rfl⟩ : Value.ref y.heap.size = w ∧ _ = t := by simpa using h
    have hkeys : copied.keys.Nodup := (keys_copiedTitles hcopied).nodup (by decide)
    refine ⟨taken,y,y.heap.size,_,?_,rfl,Store.get?_alloc_self y _,overlays_own hkeys l.shape taken p l.advice⟩
    rw [shown,hl]
    exact (bind_ok hcopied).trans htaken
  | true =>
    -- What was read on the way is what was read when the wrapper was built.
    have hbuild := h
    rw [build,if_pos hl,call_wrapper,map_apply] at h
    have hu := hu hl
    cases hinit : initialise M.next (.ref s.heap.size) p l.advice l.shape.extra (begun l.shape.cls s) with
    | error q z => simp [hinit] at h
    | ok v z =>
      obtain ⟨copied,x,hcopied,hinit⟩ := bind_eq_ok.mp hinit
      have hx := hu.titles copied x hcopied
      have hwrite := writeAll_wrapper hx l.shape.cls_mem M (notMem_copiedTitles hcopied)
      rw [bind_ok hwrite] at hinit
      obtain ⟨taken,y,htaken,-⟩ := bind_eq_ok.mp hinit
      have hy := hu.table copied x taken y hcopied htaken
      rw [build_called hl hcopied hx htaken hy] at hbuild
      obtain ⟨rfl,rfl⟩ : Value.ref s.heap.size = w ∧ _ = t := by simpa using hbuild
      have ho := get?_putAttrs (get?_putAttrs hy taken) (l.shape.written p l.advice)
      rw [putAll_written] at ho
      exact ⟨taken,y,s.heap.size,_,(shown_called hl hcopied hx).trans htaken,rfl,ho,
        overlays_own (Fields.nodup_putAll (f := []) List.nodup_nil copied) l.shape taken p l.advice⟩

section tells
variable (h : ∀ N : Machine, Tells (s.Grows ·) N.next p)
include h

/-- What only looks at things leaves the wrapper in the making as it is. -/
theorem calm_called (M : Machine) (b : BuiltinClass) : ∃ copied x taken y,
    copiedTitles M.next p titles (begun b s) = .ok copied x ∧
    x.get? s.heap.size = some (wrapper b []) ∧ s.Grows (putAttrs x s.heap.size copied) ∧
    takenTable M.next p (putAttrs x s.heap.size copied) = .ok taken y ∧
    y.get? s.heap.size = some (wrapper b (Fields.putAll [] copied)) ∧ s.Grows y := by
  have hnew := grows_begun b s
  obtain ⟨copied,x,hcopied,hgx⟩ := calm_copiedTitles fun n hn t ht => (h M).titles n hn t (hnew.trans ht)
  have hx := hgx.get?_plain (get?_begun b s) rfl
  have hput := grows_putAttrs (hnew.trans hgx) (Nat.le_refl _) hx copied
  obtain ⟨taken,y,htaken,hgy⟩ := (h M).table _ hput
  exact ⟨copied,x,taken,y,hcopied,hx,hput,htaken,hgy.get?_plain (get?_putAttrs hx copied) rfl,hput.trans hgy⟩

theorem unseen_of_tells (M : Machine) (l : Layer) : l.Unseen M p s := by
  obtain ⟨copied,x,taken,y,hcopied,hx,-,htaken,hy,-⟩ := calm_called h M l.shape.cls
  refine ⟨fun c t hc => ?_,fun c t k u hc hk => ?_⟩
  · obtain ⟨-,rfl⟩ : copied = c ∧ x = t := by simpa [hcopied] using hc
    exact hx
  · obtain ⟨rfl,rfl⟩ : copied = c ∧ x = t := by simpa [hcopied] using hc
    obtain ⟨-,rfl⟩ : taken = k ∧ y = u := by simpa [htaken] using hk
    exact hy

/-- What only looks at things is always wrapped. -/
theorem build_of_tells (M : Machine) (l : Layer) : ∃ w t, l.build M p s = .ok w t ∧ s.Grows t := by
  cases hl : l.called with
  | false =>
    have hextra : l.shape.extra = [] ∨ ∃ o, l.shape.extra = [("owner",o)] := by
      cases l.shape with
      | unbound o => exact .inr ⟨o,rfl⟩
      | _ => exact .inl rfl
    obtain ⟨w,t,ht,hg,-⟩ := quiet_make (c := l.shape.cls) (a := l.advice) (fun _ => id) (h M.next) hextra
    exact ⟨w,t,by simpa [build,hl] using ht,hg⟩
  | true =>
    obtain ⟨copied,x,taken,y,hcopied,hx,-,htaken,hy,hg⟩ := calm_called h M l.shape.cls
    refine ⟨_,_,build_called hl hcopied hx htaken hy,?_⟩
    exact grows_putAttrs (grows_putAttrs hg (Nat.le_refl _) hy taken) (Nat.le_refl _) (get?_putAttrs hy taken) _

/-- What is shown is what is told later on. -/
theorem shown_of_tells (M : Machine) (l : Layer) :
    ∃ (N : Machine) (z : Store), s.Grows z ∧ l.shown M p s = takenTable N p z := by
  cases hl : l.called with
  | false =>
    obtain ⟨copied,x,hcopied,hg⟩ := calm_copiedTitles fun n hn t ht => (h M.next).titles n hn t ht
    exact ⟨M.next.next,x,hg,by rw [shown,hl]; exact bind_ok hcopied⟩
  | true =>
    obtain ⟨copied,x,-,-,hcopied,hx,hg,-⟩ := calm_called h M l.shape.cls
    exact ⟨M.next,_,hg,shown_called hl hcopied hx⟩

end tells

/-- All layers around a value, the outermost first. -/
def buildAll (M : Machine) (f : Value) : List Layer → Act Value
  | [] => pure f
  | l :: ls => buildAll M f ls >>= l.build M

end Layer

/-- A value with layers around it: each has its own attributes over those below. -/
inductive Coated (t : Store) (f : Value) (base : Fields Value) : List Layer → Value → Fields Value → Prop where
  | bare : Coated t f base [] f base
  | layer {l : Layer} {ls : List Layer} {p : Value} {below own : Fields Value} {r : Ref} :
      Coated t f base ls p below → t.get? r = some (wrapper l.shape.cls own) → Overlays own below p l.advice →
      Coated t f base (l :: ls) (.ref r) own

/-- What is reached from a wrapper after so many steps down. -/
def follow (m : Machine) : Nat → Value → Act Value
  | 0, w => pure w
  | n + 1, w => m.read w "proceed" >>= follow m n

namespace Coated
variable {base below : Fields Value} {l : Layer} {ls : List Layer} {w : Value}

theorem grows (h : Coated s f base ls w own) (ht : s.Grows t) : Coated t f base ls w own := by
  induction h with
  | bare => exact .bare
  | layer _ ho hown ih => exact .layer ih (ht.get?_plain ho rfl) hown

/-- As many steps down as there are layers lead to what was wrapped first. -/
theorem follow (h : Coated t f base ls w own) (N : Machine) : follow N.next ls.length w t = .ok f t := by
  induction h with
  | bare => rfl
  | @layer l _ _ _ _ _ _ ho hown ih =>
    have hread := read_wrapper ho l.shape.cls_mem (n := "proceed") (by decide) hown.proceed N
    exact (bind_ok hread).trans ih

/-- Other names than those of the layers are handed up through all of them. -/
theorem lone (h : Coated t f base ls w own) (hn : n ∉ layerNames) (hx : base.Lone n x) : own.Lone n x := by
  induction h with
  | bare => exact hx
  | layer _ _ hown ih => exact Fields.lone_of_get? hown.distinct (hown.rest n x hn ih)

theorem tells (h : Coated s f base (l :: ls) w own) (N : Machine) : Tells (s.Grows ·) N.next w := by
  cases h with
  | layer _ ho hown =>
    have hwraps : s.Wraps l.shape.cls _ _ l.advice :=
      ⟨⟨_,_,rfl,ho,rfl,rfl,rfl⟩,(attr?_wrapper ho "proceed").trans hown.proceed,
        (attr?_wrapper ho "advice").trans hown.advice⟩
    exact tells_wrapper l.shape.cls_mem fun _ ht => hwraps.grows ht

/-- One more layer goes around a stack, whatever it holds. -/
theorem build (h : Coated s f base (l :: ls) p below) (M : Machine) (k : Layer) :
    ∃ r t own, k.build M p s = .ok (.ref r) t ∧ s.Grows t ∧ t.get? r = some (wrapper k.shape.cls own) ∧
      Overlays own below p k.advice := by
  obtain ⟨w,t,hbuild,hg⟩ := Layer.build_of_tells h.tells M k
  obtain ⟨taken,u,r,own,hshown,rfl,ho,hown⟩ := Layer.overlays_build hbuild fun _ => Layer.unseen_of_tells h.tells M k
  obtain ⟨N,z,hz,hshow⟩ := Layer.shown_of_tells h.tells M k
  have htaken : k.shown M p s = .ok below z := by
    cases h with
    | layer _ hp _ => rw [hshow,takenTable_wrapper (hz.get?_plain hp rfl)]
  obtain rfl : taken = below := by
    rw [htaken] at hshown
    exact (EStateM.Result.ok.inj hshown).1.symm
  exact ⟨r,t,own,hbuild,hg,ho,hown⟩

/-- Around what was wrapped once all further layers are made, each around what the ones before made. -/
theorem buildAll {inner : Layer} (h : inner.build M f s = .ok w u) (hu : inner.called = true → inner.Unseen M f s) :
    ∃ taken v, inner.shown M f s = .ok taken v ∧
      ∀ (outer ls : List Layer) (l : Layer), outer ++ [inner] = l :: ls →
      ∃ p y r t below own, Layer.buildAll M f ls s = .ok p y ∧ Layer.buildAll M f (l :: ls) s = .ok (.ref r) t ∧
        u.Grows t ∧ Coated t f taken ls p below ∧ t.get? r = some (wrapper l.shape.cls own) ∧
        Overlays own below p l.advice := by
  obtain ⟨taken,v,r,own,hshown,rfl,ho,hown⟩ := Layer.overlays_build h hu
  refine ⟨taken,v,hshown,fun outer => ?_⟩
  induction outer with
  | nil =>
    rintro _ _ ⟨⟩
    exact ⟨f,s,r,u,taken,own,rfl,h,Store.Keeps.refl _ u,.bare,ho,hown⟩
  | cons k outer ih =>
    intro ls' l' hl'
    rw [List.cons_append] at hl'
    obtain ⟨rfl,rfl⟩ := List.cons.inj hl'
    have hne : outer ++ [inner] ≠ [] := by simp
    obtain ⟨l,ls,hl⟩ := List.exists_cons_of_ne_nil hne
    obtain ⟨p,y,q,t,below,top,-,hall,hg,hcoated,hq,htop⟩ := ih ls l hl
    have hstack := Coated.layer hcoated hq htop
    obtain ⟨x,z,new,hbuild,hz,hx,hnew⟩ := hstack.build M k
    rw [hl]
    refine ⟨.ref q,t,x,z,top,new,hall,?_,hg.trans hz,hstack.grows hz,hx,hnew⟩
    exact (bind_ok hall).trans hbuild

end Coated

/-- What is taken over of an object with attributes of its own is what its table shows. -/
theorem read_dict {c : BuiltinClass} {o : Obj} (ho : s.get? r = some o) (hcls : o.cls = .builtin b)
    (hattrs : o.attrs = some fs) (htable : o.table = none)
    (hbody : (∀ info, o.body ≠ .cls info) ∧ ∀ g x, o.body ≠ .bound g x)
    (hmodule : .module ∉ b.line) (hc : c ∈ b.line)
    (hm : b.line.findSome? (·.ownMember? "__dict__") = some (.operation (.member c "__dict__" .getter))) (N : Machine) :
    takenTable N (.ref r) s = .ok fs s ∧ ∃ t, N.next.read (.ref r) "__dict__" s = .ok (.ref s.heap.size) t ∧
      t.body? (.ref s.heap.size) = some (.table (fieldEntries fs)) := by
  have hcls := (Store.classOf_of_get? ho).trans hcls
  have hbody' := Store.body?_of_get? ho
  have hown : s.attrs? (.ref r) = some fs := by simp [Store.attrs?,Store.obj?,ho,htable,hattrs]
  constructor
  · have hhide : s.hidesTable (.ref r) = false := by simp [Store.hidesTable,hcls,hown]
    have hunbound : s.unbound s.heap.size (.ref r) = .ref r := by
      cases s.heap.size with
      | zero => rfl
      | succ k =>
        rw [Store.unbound,hbody']
        cases hb : o.body with
        | bound g x => exact absurd hb (hbody.2 g x)
        | _ => rfl
    simp [takenTable,hhide,map_apply,Store.tableOf,hunbound,hown]
  · have hclass := Store.class?_of_body hbody' hbody.1
    have hA : s.isA (.ref r) c = true := (Store.isA_builtin hcls).trans (decide_eq_true hc)
    have hne : s.heap.size ≠ r := Nat.ne_of_gt (Store.lt_of_get? ho)
    have hnew := Store.get?_alloc_self s { cls := .builtin .dict, body := .table (fieldEntries fs) }
    refine ⟨_,?_,Store.body?_of_get?
      ((Store.get?_update_ne _ (fun o => { o with table := some s.heap.size }) hne).trans hnew)⟩
    have hdata : s.isDataMember (.operation (.member c "__dict__" .getter)) = true := rfl
    rw [read_next_builtin hcls hclass hmodule]
    simp only [readOfInstance,get_bind_apply,hcls,Store.classMember?_builtin,hm,hdata,if_true,bindTo,bindOperation,hA,
      computed]
    simp [tableOfValue,hown,ownTable,ho,htable,hattrs,newTable,bind_apply]
    rfl

/-- A wrapper is signed if its own advice is a check, whatever it wraps. -/
theorem isSigned_wrapper (ho : s.get? r = some (wrapper b own)) (hb : b ∈ wrapperClasses)
    (ha : own.get? "advice" = some a) (N : Machine) :
    N.next.call (.operation .isSigned) [.ref r] [] s = (Value.bool <$> isKind N a .signatureCheck) s := by
  have hc := classOf_wrapper ho
  have hkind : isKind N (.ref r) .wrapper s = .ok true s := by
    refine isKind_builtin hc ?_
    simp only [wrapperClasses,List.mem_cons,List.not_mem_nil,or_false] at hb
    rcases hb with rfl | rfl | rfl <;> rfl
  have hfield : fieldOf N (.ref r) "advice" s = .ok a s := fieldOf_own hc ((attr?_wrapper ho "advice").trans ha)
  have hsigned : Signature.isSigned N (.ref r) s = isKind N a .signatureCheck s := by
    rw [Signature.isSigned,bind_ok hkind]
    exact bind_ok hfield
  change (Value.bool <$> Signature.isSigned N (.ref r)) s = _
  rw [map_apply,map_apply,hsigned]

/-- However many layers are put around a callable, and whatever its attributes are called: the outermost wrapper has
what it was given, as many steps down as there are layers lead to the callable, the outermost advice alone decides
whether the wrapper is signed, and all that the callable shows under other names is read from the top. -/
theorem outermost_decides (M : Machine) {f w : Value} {s u : Store} {inner : Layer}
    (h : inner.build M f s = .ok w u) (hu : inner.called = true → inner.Unseen M f s) :
    ∃ taken v, inner.shown M f s = .ok taken v ∧
      ∀ (outer ls : List Layer) (l : Layer), outer ++ [inner] = l :: ls →
      ∃ p y top t, Layer.buildAll M f ls s = .ok p y ∧ Layer.buildAll M f (l :: ls) s = .ok top t ∧ u.Grows t ∧
        ∀ N : Machine,
          N.next.read top "proceed" t = .ok p t ∧ N.next.read top "__wrapped__" t = .ok p t ∧
          N.next.read top "advice" t = .ok l.advice t ∧
          follow N.next (ls.length + 1) top t = .ok f t ∧
          N.next.call (.operation .isSigned) [top] [] t = (Value.bool <$> isKind N l.advice .signatureCheck) t ∧
          ∀ n x, taken.Lone n x → n ∉ layerNames → n ∉ classNames → N.next.read top n t = .ok x t := by
  obtain ⟨taken,v,hshown,hall⟩ := Coated.buildAll h hu
  refine ⟨taken,v,hshown,fun outer ls l hl => ?_⟩
  obtain ⟨p,y,r,t,below,own,hbelow,htop,hg,hcoated,ho,hown⟩ := hall outer ls l hl
  have hb := l.shape.cls_mem
  refine ⟨p,y,.ref r,t,hbelow,htop,hg,fun N => ⟨?_,?_,?_,?_,?_,fun n x hx hn hc => ?_⟩⟩
  · exact read_wrapper ho hb (by decide) hown.proceed N
  · exact read_wrapper ho hb (by decide) hown.wrapped N
  · exact read_wrapper ho hb (by decide) hown.advice N
  · exact (Coated.layer hcoated ho hown).follow N
  · exact isSigned_wrapper ho hb hown.advice N
  · exact read_wrapper ho hb hc (hown.rest n x hn (hcoated.lone hn hx)) N

/-- A function with attributes under the names that layers use and under one more, and a check of a signature. -/
def clashing : Store where
  heap := #[
    { cls := .builtin .function
      body := .function ⟨"f","f",.str "m",.absent,.closure ⟨"f",[(.required "x",none)],.variable "x",[]⟩⟩
      attrs := some [("proceed",.int 1),("advice",.int 2),("owner",.int 3),("__wrapped__",.int 4),("label",.int 5)] },
    { cls := .builtin .signatureCheck, body := .plain, attrs := some [("signature",.absent),("member",.str "f")] }]

def checking : Layer := ⟨.plain,.ref 1,true⟩
def counting : Layer := ⟨.unbound (.builtinClass .int),.operation .length,false⟩

theorem outermost_decides_clashing : ∃ p y w t,
    Layer.buildAll (.ofLevel 1998) (.ref 0) [counting,checking] clashing = .ok p y ∧
    Layer.buildAll (.ofLevel 1998) (.ref 0) [⟨.ofClass,.ref 1,true⟩,counting,checking] clashing = .ok w t ∧
    Machine.full.read w "proceed" t = .ok p t ∧ Machine.full.read p "advice" y = .ok (.operation .length) y ∧
    follow .full 3 w t = .ok (.ref 0) t ∧
    Machine.full.call (.operation .isSigned) [w] [] t = .ok (.bool true) t ∧
    Machine.full.call (.operation .isSigned) [p] [] y = .ok (.bool false) y ∧
    Machine.full.read w "label" t = .ok (.int 5) t := by
  have htells (N : Machine) : Tells (clashing.Grows ·) N.next (.ref 0) :=
    tells_function fun t ht => Store.IsFunction.grows ⟨rfl,rfl⟩ ht
  obtain ⟨u,x,hinner,hu⟩ := Layer.build_of_tells htells (.ofLevel 1998) checking
  obtain ⟨taken,v,hshown,hall⟩ := outermost_decides (.ofLevel 1998) hinner fun _ => Layer.unseen_of_tells htells _ _
  obtain ⟨p,y,w,t,hp,hw,hg,htop⟩ := hall [⟨.ofClass,.ref 1,true⟩,counting] [counting,checking] _ rfl
  obtain ⟨_,_,p',y',-,hp',-,hbelow⟩ := hall [counting] [checking] _ rfl
  obtain ⟨rfl,rfl⟩ : p = p' ∧ y = y' := by
    rw [hp] at hp'
    exact ⟨(EStateM.Result.ok.inj hp').1,(EStateM.Result.ok.inj hp').2⟩
  obtain ⟨hproceed,-,-,hfollow,hsigned,hrest⟩ := htop (.ofLevel 1999)
  obtain ⟨-,-,hadvice,-,hplain,-⟩ := hbelow (.ofLevel 1999)
  have hlabel : taken.Lone "label" (.int 5) := by
    have hattrs : checking.shown (.ofLevel 1998) (.ref 0) clashing = .ok
      [("proceed",.int 1),("advice",.int 2),("owner",.int 3),("__wrapped__",.int 4),("label",.int 5)] _ := rfl
    rw [hattrs] at hshown
    rw [← (EStateM.Result.ok.inj hshown).1]
    exact Fields.lone_of_get? (by decide) rfl
  have hcheck : t.classOf (.ref 1) = .builtin .signatureCheck := by
    have hheld : clashing.Holds .all (.ref 1) := Store.holds_ref (o := clashing.heap[1]) rfl trivial
    exact (hu.trans hg).classOf hheld
  refine ⟨p,y,w,t,hp,hw,hproceed,hadvice,hfollow,hsigned.trans ?_,hplain.trans ?_,
    hrest "label" _ hlabel (by decide) (by decide)⟩
  · exact map_ok (isKind_builtin hcheck (by decide))
  · exact map_ok (isKind_builtin (b := .builtinFunction) rfl (by decide))

end Wrapper
end CallContracts
