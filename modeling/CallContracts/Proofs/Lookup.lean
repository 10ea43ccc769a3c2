import CallContracts.Proofs.Finding
/-! Looking up the member from an instance or a class of a hierarchy gives a callable that goes through the
advices that the ledger has. -/
namespace CallContracts
open Act

theorem Store.Leaf.rule {s : Store} {H : Ref → Prop} {r D : Ref} (h : s.Leaf H r D) (n : String) :
    (s.lookup (.ref r) n).rule = none := by
  rw [Store.lookup,h.cls]
  exact h.reads

namespace Wrapper
variable {M : Machine} {s t : Store} {L : Ledger} {r D : Ref} {l : Layers} {n : String} {v x : Value}
  {H I : Ref → Prop} {P : Value → Store → Prop}

theorem orElseMissing_or (x y : Act Value) (s : Store) : orElseMissing x y s = x s ∨ Missing (x s) := by
  rw [orElseMissing,orElseOn]
  cases hx : x s with
  | ok a t => exact Or.inl rfl
  | error e t =>
    cases e with
    | exhausted => exact Or.inl rfl
    | raised q =>
      by_cases hq : BuiltinClass.attributeError ∈ q.cls.line
      · exact Or.inr ⟨q,t,rfl,hq⟩
      · simp [hq]

/-- What is found is read, unless the value or its class has another answer where it is missing. -/
theorem read_way (hrule : (s.lookup v n).rule = none) (hn : s.class? v = none ∨ n ∉ Store.classTitles) (m : Machine) :
    m.next.read v n s = (s.lookup v n).way.read m n s ∨ Missing ((s.lookup v n).way.read m n s) := by
  have hnative : (s.lookup v n).native m n s = (s.lookup v n).way.read m n s ∨
      Missing ((s.lookup v n).way.read m n s) := by
    simp only [Lookup.native]
    cases (s.lookup v n).own with
    | none => exact Or.inl rfl
    | some g => exact orElseMissing_or _ _ s
  rw [Store.read_lookup hn]
  simp only [Lookup.read,Lookup.direct,hrule]
  cases (s.lookup v n).fallback with
  | none => exact hnative
  | some g =>
    rcases hnative with heq | hmissing
    · rw [← heq]
      exact orElseMissing_or _ _ s
    · exact Or.inr hmissing

section instances
variable (h : s.Leaf H r D) (hx : s.classMember? (.defined D) n = some x) (hdata : s.isDataMember x = false)
include h hx hdata

/-- An attribute of an instance comes before a member of its class. -/
theorem read_attr {y : Value} (ha : s.attr? (.ref r) n = some y) (m : Machine) :
    m.next.read (.ref r) n s = .ok y s := by
  have hway : (s.lookup (.ref r) n).way = .value y := by
    simp [Store.lookup,h.plain,Store.wayOfInstance,h.cls,hx,hdata,ha]
  have hread := read_way (h.rule n) (Or.inl h.plain) m
  rw [hway] at hread
  rcases hread with hread | ⟨q,t,hq,-⟩
  · exact hread
  · cases hq

/-- Without one the member is bound as the class holds it. -/
theorem read_instance (ha : s.attr? (.ref r) n = none) (m : Machine) :
    m.next.read (.ref r) n s = bindMember m x (.ref r) (.ref D) s ∨ Missing (bindMember m x (.ref r) (.ref D) s) := by
  have hway : (s.lookup (.ref r) n).way = .member x (some (.ref r)) (.ref D) := by
    simp [Store.lookup,h.plain,Store.wayOfInstance,h.cls,hx,hdata,ha,ClassId.value]
  have hread := read_way (h.rule n) (Or.inl h.plain) m
  have hbind : bindTo m x (.ref r) (.ref D) = bindMember m x (.ref r) (.ref D) := by cases x <;> rfl
  rwa [hway,Way.read,hbind] at hread

end instances

/-- The member of an instance is its own attribute, or else it is bound as its class holds it. -/
theorem read_leaf (h : s.Leaf H r D) (hI : I r) (hF : s.Family n H I) (hL : s.Agrees n H I L)
    (hl : L.found s r = some l) :
    (∃ c, s.Routed l.original (l.receives.values (.ref r) (.ref D)) c l.advices ∧ (L r).isSome ∧
      ∀ m : Machine, m.next.read (.ref r) n s = .ok c s) ∨
    ∃ x, s.Stored l x ∧ L r = none ∧ ∀ m : Machine,
      m.next.read (.ref r) n s = m.next.bind x (.ref r) (.ref D) s ∨
        Missing (m.next.bind x (.ref r) (.ref D) s) := by
  rw [Ledger.found,Store.home_leaf h,Option.map_eq_some_iff] at hl
  obtain ⟨e,he,rfl⟩ := hl
  obtain ⟨x,hx,hstored⟩ := Store.classMember?_of_search (hF.classes D h.member) hF hL he
  have hrel := hL.instances r D hI h.cls
  cases hLr : L r with
  | some l =>
    rw [hLr] at hrel
    cases ha : s.attr? (.ref r) n with
    | none =>
      rw [ha] at hrel
      cases hrel
    | some y =>
      rw [ha] at hrel
      cases hrel with
      | some hy => exact Or.inl ⟨y,hy,rfl,read_attr h hx hstored.isDataMember ha⟩
  | none =>
    rw [hLr] at hrel
    cases ha : s.attr? (.ref r) n with
    | some y =>
      rw [ha] at hrel
      cases hrel
    | none => exact Or.inr ⟨x,hstored,rfl,read_instance h hx hstored.isDataMember ha⟩

/-- A quiet computation does not tell that something is missing. -/
theorem quiet_of_or {x y : Act Value} (h : x.Quiet P s) (hy : y s = x s ∨ Missing (x s)) : y.Quiet P s := by
  obtain ⟨c,t,hc,hg,hP⟩ := h
  refine ⟨c,t,?_,hg,hP⟩
  rcases hy with hy | ⟨q,u,hq,-⟩
  · rw [hy,hc]
  · cases hc.symm.trans hq

/-- The member of an instance goes through the advices of its own entry, or else of that of its class. -/
theorem quiet_readLeaf (h : s.Leaf H r D) (hI : I r) (hF : s.Family n H I) (hL : s.Agrees n H I L)
    (hl : L.found s r = some l) (hd : L r = none → l.Direct) :
    ((Machine.next^[2 * l.advices.length + 2] M).read (.ref r) n).Quiet
      (fun c t => t.Routed l.original (l.receives.values (.ref r) (.ref D)) c l.advices) s := by
  rw [Function.iterate_succ_apply']
  rcases read_leaf h hI hF hL hl with ⟨c,hc,-,hread⟩ | ⟨x,hx,hLr,hread⟩
  · exact ⟨c,s,hread _,Store.Keeps.refl _ s,hc⟩
  · refine quiet_of_or ?_ (hread _)
    rw [← Function.iterate_succ_apply' Machine.next]
    exact quiet_bindStored hx (hd hLr) (by simp) (by simp)

/-- Unless an attribute of the function gets in the way. -/
theorem diverts_readLeaf (h : s.Leaf H r D) (hI : I r) (hF : s.Family n H I) (hL : s.Agrees n H I L)
    (hl : L.found s r = some l) (hLr : L r = none) (hd : ¬ l.Direct) :
    Diverts M.next s l (.ref r) (.ref D) (M.next.next.read (.ref r) n s) := by
  rcases read_leaf h hI hF hL hl with ⟨-,-,hsome,-⟩ | ⟨x,hx,-,hread⟩
  · simp [hLr] at hsome
  · exact (bindStored_through hx hd (by simp)).of_or (hread _)

/-- The member of a class is found in the class or in the first one above it that holds one. -/
theorem way_class (h : s.Branch n H D) (hn : n ∉ specialNames) (hx : s.classMember? (.defined D) n = some x) :
    (s.lookup (.ref D) n).way = .member x none (.ref D) ∧ n ∉ Store.classTitles := by
  simp only [specialNames,fixedTitles,List.cons_append,List.nil_append,List.mem_cons,List.not_mem_nil,or_false,
    not_or] at hn
  simp [Store.lookup,h.class?,Store.wayOfClass,h.rules n (by simp),hx,hn,Store.classTitles]

/-- It is bound, unless the class of the class has another answer when an attribute is missing. -/
theorem read_class (h : s.Branch n H D) (hn : n ∉ specialNames) (hx : s.classMember? (.defined D) n = some x)
    (m : Machine) :
    m.next.read (.ref D) n s = bindMember m x .absent (.ref D) s ∨ Missing (bindMember m x .absent (.ref D) s) := by
  obtain ⟨hway,htitle⟩ := way_class h hn hx
  have hread := read_way (h.rules "__getattribute__" (by simp)) (Or.inr htitle) m
  rwa [hway] at hread

/-- If it has none, there is no more to it. -/
theorem read_unanswered (h : s.Branch n H D) (hn : n ∉ specialNames) (hx : s.classMember? (.defined D) n = some x)
    (hnone : s.override? (s.classOf (.ref D)) "__getattr__" = none) (m : Machine) :
    m.next.read (.ref D) n s = bindMember m x .absent (.ref D) s := by
  obtain ⟨hway,htitle⟩ := way_class h hn hx
  rw [Store.read_lookup (Or.inr htitle),Lookup.read,Lookup.direct,Lookup.native,hway]
  simp [Store.lookup,h.class?,hnone,h.rules "__getattribute__" (by simp),Way.read]

theorem read_branch (h : s.Branch n H D) (hn : n ∉ specialNames) (hF : s.Family n H I)
    (hL : s.Agrees n H I L) (hl : L.found s D = some l) : ∃ x, s.Stored l x ∧ ∀ m : Machine,
      m.next.read (.ref D) n s = m.next.bind x .absent (.ref D) s ∨
        Missing (m.next.bind x .absent (.ref D) s) := by
  rw [Ledger.found_class (Store.home_branch h)] at hl
  obtain ⟨x,hx,hstored⟩ := Store.classMember?_of_search h hF hL hl
  exact ⟨x,hstored,read_class h hn hx⟩

/-- What is read from a class waits for the instance, if it is a method under advices. -/
theorem quiet_readBranch (h : s.Branch n H D) (hn : n ∉ specialNames) (hF : s.Family n H I)
    (hL : s.Agrees n H I L) (hl : L.found s D = some l) (hd : l.Direct) :
    ((Machine.next^[2 * l.advices.length + 2] M).read (.ref D) n).Quiet
      (fun c t => t.ReadFrom (.ref D) l c) s := by
  obtain ⟨x,hx,hread⟩ := read_branch h hn hF hL hl
  rw [Function.iterate_succ_apply']
  refine quiet_of_or ?_ (hread _)
  rw [← Function.iterate_succ_apply' Machine.next]
  exact quiet_readStored hx hd (by simp)

/-- Unless an attribute of the function gets in the way. -/
theorem diverts_readBranch (h : s.Branch n H D) (hn : n ∉ specialNames) (hF : s.Family n H I)
    (hL : s.Agrees n H I L) (hl : L.found s D = some l) (hd : ¬ l.Direct) :
    Diverts M.next s l .absent (.ref D) (M.next.next.read (.ref D) n s) := by
  obtain ⟨x,hx,hread⟩ := read_branch h hn hF hL hl
  exact (bindStored_through hx hd (by simp)).of_or (hread _)

end Wrapper
end CallContracts
