import CallContracts.Proofs.Ledger
/-! Lookups.  Reading a name from a value finds something first, which only looks at the store, and then binds what was
found, which may run code of the program.  What is found is put together from what the class of the value says, from what
the value holds itself, and from what is held along its line if it is a class. -/
namespace CallContracts
open Act

/-- What stands under a name: a value as it is, a member to be bound, to an instance or to none, an attribute of what a
method binds, or nothing. -/
inductive Way where
  | value (y : Value)
  | member (x : Value) (inst : Option Value) (owner : Value)
  | forward (f : Value)
  | missing

/-- What is found, and by whom else an answer is given: by the class in place of the language, and by the value itself, if
it is a module, or by its class where an attribute is missing. -/
structure Lookup where
  way : Way
  rule : Option Value
  own : Option Value
  fallback : Option Value

def Way.read (m : Machine) (n : String) : Way → Act Value
  | .value y => pure y
  | .member x (some v) owner => bindTo m x v owner
  | .member x none owner => bindMember m x .absent owner
  | .forward f => m.read f n
  | .missing => refuse .attributeError

namespace Lookup
variable (m : Machine) (v : Value) (n : String) (l : Lookup)

/-- What is found is read as the language says; a module may have an answer where it is missing. -/
def native : Act Value :=
  match l.own with
  | some g => orElseMissing (l.way.read m n) (m.call g [.str n] [])
  | none => l.way.read m n

/-- The class of the value may have a say in this. -/
def direct : Act Value :=
  match l.rule with
  | some f => callSpecial m v f [.str n]
  | none => l.native m n

def read : Act Value :=
  match l.fallback with
  | some g => orElseMissing (l.direct m v n) (callSpecial m v g [.str n])
  | none => l.direct m v n

end Lookup

namespace Store

/-- What a bound method binds. -/
def bound? (s : Store) (v : Value) : Option Value :=
  match s.body? v with
  | some (.bound f _) => some f
  | _ => none

/-- What is found from an instance. -/
def wayOfInstance (s : Store) (v : Value) (n : String) : Way :=
  match s.classMember? (s.classOf v) n with
  | some x =>
    if s.isDataMember x then .member x (some v) (s.classOf v).value
    else match s.attr? v n with
      | some y => .value y
      | none => .member x (some v) (s.classOf v).value
  | none => match s.attr? v n, s.bound? v with
    | some y, _ => .value y
    | none, some f => if s.classOf v = .builtin .method then .forward f else .missing
    | none, none => .missing

/-- What is found from a class, titles apart. -/
def wayOfClass (s : Store) (v : Value) (c : ClassId) (n : String) : Way :=
  let own := (s.classOf v).value
  match s.override? (s.classOf v) n, s.classMember? c n with
  | some x, y =>
    if s.isDataMember x then .member x (some v) own
    else match y with
      | some y => if n = "__class__" ∧ y = .operation (.member .object n .getter) then .value own else .member y none v
      | none => .member x (some v) own
  | none, some y =>
    if n = "__class__" ∧ y = .operation (.member .object n .getter) then .value own else .member y none v
  | none, none => match BuiltinClass.type.ownMember? n with
    | some x => .member x (some v) own
    | none => .missing

def lookup (s : Store) (v : Value) (n : String) : Lookup where
  way := match s.class? v with
    | some c => s.wayOfClass v c n
    | none => s.wayOfInstance v n
  rule := s.override? (s.classOf v) "__getattribute__"
  own := if (s.class? v).isNone && s.isA v .module then s.attr? v "__getattr__" else none
  fallback := s.override? (s.classOf v) "__getattr__"

/-- What a class tells about itself before its members are asked. -/
def classTitles : List String :=
  ["__name__","__qualname__","__module__","__doc__","__bases__","__base__","__mro__","__dict__","__annotations__"]

section read
variable {m : Machine} {s : Store} {v : Value} {c : ClassId} {n : String}

theorem readOfInstance_way : readOfInstance m v n s = (s.wayOfInstance v n).read m n s := by
  simp only [readOfInstance,get_bind_apply,wayOfInstance]
  cases s.classMember? (s.classOf v) n with
  | some x =>
    cases hx : s.isDataMember x with
    | true => simp [hx,Way.read]
    | false => cases s.attr? v n <;> simp [hx,Way.read]
  | none =>
    cases s.attr? v n with
    | some y => rfl
    | none =>
      cases hb : s.body? v with
      | none => simp [bound?,hb,Way.read]
      | some body =>
        cases body with
        | bound f i => by_cases hc : s.classOf v = .builtin .method <;> simp [bound?,hb,hc,Way.read]
        | _ => simp [bound?,hb,Way.read]

theorem readOfClass_way (hn : n ∉ classTitles) : readOfClass m v c n s = (s.wayOfClass v c n).read m n s := by
  have htitle : readTitle m c n s = .ok none s := by
    simp only [classTitles,List.mem_cons,List.not_mem_nil,or_false,not_or] at hn
    simp [readTitle,hn]
  simp only [readOfClass,get_bind_apply,wayOfClass]
  cases s.override? (s.classOf v) n with
  | some x =>
    cases hx : s.isDataMember x with
    | true => simp [hx,Way.read]
    | false =>
      cases hm : s.classMember? c n with
      | some y =>
        by_cases hy : n = "__class__" ∧ y = .operation (.member .object n .getter)
        · obtain ⟨rfl,rfl⟩ := hy
          simp [hx,hm,Way.read]
        · simp [hx,hm,hy,Way.read]
      | none => simp [hx,hm,Way.read]
  | none =>
    simp only [Option.isSome_none,Bool.false_eq_true,if_false]
    rw [bind_ok htitle]
    cases hm : s.classMember? c n with
    | some y =>
      by_cases hy : n = "__class__" ∧ y = .operation (.member .object n .getter)
      · obtain ⟨rfl,rfl⟩ := hy
        simp [hm,Way.read]
      · simp [hm,hy,Way.read]
    | none => cases BuiltinClass.type.ownMember? n <;> simp [hm,Way.read]

theorem orElseMissing_congr {α : Type} {x y : Act α} (h : x s = y s) (z : Act α) :
    orElseMissing x z s = orElseMissing y z s := by
  simp only [orElseMissing,orElseOn,h]

theorem readNative_lookup (h : s.class? v = none ∨ n ∉ classTitles) :
    readNative m v n s = (s.lookup v n).native m n s := by
  simp only [readNative,get_bind_apply,Lookup.native,lookup]
  cases hv : s.class? v with
  | some c =>
    simp only [Option.isNone_some,Bool.false_and,Bool.false_eq_true,if_false]
    exact readOfClass_way (h.resolve_left (by simp [hv]))
  | none =>
    cases s.isA v .module with
    | false => exact readOfInstance_way
    | true =>
      simp only [if_true,readOfModule,get_bind_apply,Option.isNone_none,Bool.and_self]
      cases s.attr? v "__getattr__" with
      | none => exact readOfInstance_way
      | some g => exact orElseMissing_congr readOfInstance_way _

/-- Reading is looking up and then binding what was found. -/
theorem read_lookup (h : s.class? v = none ∨ n ∉ classTitles) : m.next.read v n s = (s.lookup v n).read m v n s := by
  change readAttribute m v n s = _
  simp only [readAttribute,get_bind_apply]
  have hdirect : (match s.override? (s.classOf v) "__getattribute__" with
      | some f => callSpecial m v f [.str n]
      | none => readNative m v n) s = (s.lookup v n).direct m v n s := by
    simp only [Lookup.direct,lookup]
    cases s.override? (s.classOf v) "__getattribute__" with
    | some f => rfl
    | none => exact readNative_lookup h
  simp only [Lookup.read]
  have hfallback : (s.lookup v n).fallback = s.override? (s.classOf v) "__getattr__" := rfl
  rw [hfallback]
  cases s.override? (s.classOf v) "__getattr__" with
  | some g => exact orElseMissing_congr hdirect _
  | none => exact hdirect

end read

/-- All that a lookup of `n` from `v` looks at is the same in both stores. -/
structure Unmoved (s t : Store) (v : Value) (n : String) : Prop where
  cls : t.classOf v = s.classOf v
  class? : t.class? v = s.class? v
  bound? : t.bound? v = s.bound? v
  line : t.line (s.classOf v) = s.line (s.classOf v)
  overrides : ∀ k ∈ [n,"__getattribute__","__getattr__"], t.override? (s.classOf v) k = s.override? (s.classOf v) k
  above : t.classMember? (s.classOf v) n = s.classMember? (s.classOf v) n
  held : ∀ c, s.class? v = some c → t.classMember? c n = s.classMember? c n
  attrs : ∀ k ∈ [n,"__getattr__"], t.attr? v k = s.attr? v k
  data : ∀ x, s.classMember? (s.classOf v) n = some x ∨ s.override? (s.classOf v) n = some x →
    t.isDataMember x = s.isDataMember x

/-- Then the same is found. -/
theorem Unmoved.lookup {s t : Store} {v : Value} {n : String} (h : s.Unmoved t v n) : t.lookup v n = s.lookup v n := by
  have hinstance : t.wayOfInstance v n = s.wayOfInstance v n := by
    simp only [wayOfInstance,h.cls,h.above,h.bound?,h.attrs n (by simp)]
    cases hx : s.classMember? (s.classOf v) n with
    | none => rfl
    | some x => simp only [h.data x (Or.inl hx)]
  have hclass (c : ClassId) (hc : s.class? v = some c) : t.wayOfClass v c n = s.wayOfClass v c n := by
    simp only [wayOfClass,h.cls,h.overrides n (by simp),h.held c hc]
    cases hx : s.override? (s.classOf v) n with
    | none => cases s.classMember? c n <;> rfl
    | some x => simp only [h.data x (Or.inr hx)]
  have hmodule : t.isA v .module = s.isA v .module := by
    simp only [isA,comesFrom,h.cls,h.line]
  simp only [Store.lookup,h.class?,h.cls,hmodule,h.attrs "__getattr__" (by simp),
    h.overrides "__getattribute__" (by simp),h.overrides "__getattr__" (by simp)]
  cases hc : s.class? v with
  | none => simp only [hinstance]
  | some c => simp only [hclass c hc]

end Store
end CallContracts
