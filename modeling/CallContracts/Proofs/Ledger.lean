import CallContracts.Proofs.Hierarchy
/-! The ledger of a hierarchy.  It has an entry for each class that holds the member and for each instance
that holds one of its own; wrapping what is found from an object adds one advice and enters the result under
the object itself. -/
namespace CallContracts
open Act

/-- Functions under advices, by the place of the class or instance that holds them. -/
abbrev Ledger := Ref → Option Layers

/-- The class from which the member of an object is looked up: the object itself, if it is a class. -/
def Store.home (s : Store) (r : Ref) : ClassId :=
  if (s.classInfo? r).isSome then .defined r else s.classOf (.ref r)

namespace Ledger
variable {L : Ledger} {s : Store} {r q : Ref} {l : Layers} {a : Value} {P : Value → Prop}

/-- The first entry of the classes of a line. -/
def search (L : Ledger) : List ClassId → Option Layers
  | .defined r :: l => (L r).or (search L l)
  | _ => none

/-- What is found from an object: its own entry, or the first one along its line. -/
def found (L : Ledger) (s : Store) (r : Ref) : Option Layers :=
  (L.search (s.line (s.home r))).map fun l => (L r).getD l

/-- What is found from an object is wrapped once more and entered there. -/
def wrap (L : Ledger) (s : Store) (r : Ref) (a : Value) : Ledger := fun q =>
  if q = r then (L.found s r).map (·.advised a) else L q

def wrapAll (s : Store) : Ledger → List (Ref × Value) → Ledger
  | L, [] => L
  | L, p :: ps => wrapAll s (L.wrap s p.1 p.2) ps

/-- Whenever an instance is wrapped, what it finds in its class binds without an attribute of the function. -/
def DirectAt (L : Ledger) (s : Store) (I : Ref → Prop) (ops : List (Ref × Value)) : Prop :=
  ∀ ps p qs, ops = ps ++ p :: qs → I p.1 → L.wrapAll s ps p.1 = none →
    ∀ l, (L.wrapAll s ps).found s p.1 = some l → l.Direct

theorem found_class (h : s.home r = .defined r) : L.found s r = L.search (s.line (.defined r)) := by
  obtain ⟨l,hl⟩ : ∃ l, s.line (.defined r) = .defined r :: l := by
    rw [Store.line]
    cases s.heap.size with
    | zero => exact ⟨[],rfl⟩
    | succ k => exact ⟨_,rfl⟩
  rw [found,h,hl,search]
  cases hr : L r with
  | none => cases L.search l <;> simp
  | some e => simp

/-- Wrapping loses nothing that was found. -/
theorem isSome_search {ls : List ClassId} (h : (L.search ls).isSome) (hr : (L.found s r).isSome) (a : Value) :
    ((L.wrap s r a).search ls).isSome := by
  induction ls with
  | nil => cases h
  | cons c ls ih =>
    cases c with
    | builtin b => cases h
    | defined q =>
      by_cases hq : q = r
      · subst hq
        simp [search,wrap,hr]
      · cases hL : L q with
        | none => simpa [search,wrap,hq,hL] using ih (by simpa [search,hL] using h)
        | some e => simp [search,wrap,hq,hL]

theorem isSome_found (h : (L.found s q).isSome) (hr : (L.found s r).isSome) (a : Value) :
    ((L.wrap s r a).found s q).isSome := by
  simp only [found,Option.isSome_map] at h ⊢
  exact isSome_search h hr a

theorem exists_of_search {ls : List ClassId} (h : L.search ls = some l) : ∃ q, L q = some l := by
  induction ls with
  | nil => cases h
  | cons c ls ih =>
    cases c with
    | builtin b => cases h
    | defined q =>
      cases hL : L q with
      | none => exact ih (by simpa [search,hL] using h)
      | some e => exact ⟨q,by simpa [search,hL] using h⟩

theorem exists_of_found (h : L.found s r = some l) : ∃ q, L q = some l := by
  obtain ⟨e,he,rfl⟩ := Option.map_eq_some_iff.mp h
  cases hL : L r with
  | none => exact exists_of_search he
  | some d => exact ⟨r,hL⟩

theorem wrap_of_found (h : L.found s r = some l) (a : Value) :
    L.wrap s r a = fun q => if q = r then some (l.advised a) else L q := by
  funext q
  simp [wrap,h]

/-- Every advice of the ledger was there before or was installed. -/
theorem advices_of_wrapAll {ops : List (Ref × Value)} (hops : ∀ r e, L r = some e → ∀ a ∈ e.advices, P a)
    (hP : ∀ p ∈ ops, P p.2) (h : L.wrapAll s ops r = some l) : ∀ a ∈ l.advices, P a := by
  induction ops generalizing L with
  | nil => exact hops r l h
  | cons p ops ih =>
    refine ih (L := L.wrap s p.1 p.2) ?_ (fun q hq => hP q (by simp [hq])) h
    intro q e he a ha
    by_cases hq : q = p.1
    · obtain ⟨d,hd,rfl⟩ : ∃ d, L.found s p.1 = some d ∧ d.advised p.2 = e := by
        simpa [wrap,hq,Option.map_eq_some_iff] using he
      obtain ⟨c,hc⟩ := exists_of_found hd
      rcases List.mem_cons.mp ha with rfl | ha
      · exact hP p (by simp)
      · exact hops c d hc a ha
    · exact hops q e (by simpa [wrap,hq] using he) a ha

theorem receives_of_wrapAll {c : Receives} {ops : List (Ref × Value)} (h : ∀ r e, L r = some e → e.receives ≠ c) :
    ∀ r e, L.wrapAll s ops r = some e → e.receives ≠ c := by
  induction ops generalizing L with
  | nil => exact h
  | cons p ops ih =>
    refine ih (L := L.wrap s p.1 p.2) fun q e he => ?_
    by_cases hq : q = p.1
    · obtain ⟨d,hd,rfl⟩ : ∃ d, L.found s p.1 = some d ∧ d.advised p.2 = e := by
        simpa [wrap,hq,Option.map_eq_some_iff] using he
      obtain ⟨j,hj⟩ := exists_of_found hd
      exact h j d hj
    · exact h q e (by simpa [wrap,hq] using he)

/-- Members that are no class methods bind directly. -/
theorem directAt_of_receives {I : Ref → Prop} {ops : List (Ref × Value)}
    (h : ∀ r e, L r = some e → e.receives ≠ .ofClass) : L.DirectAt s I ops := by
  intro ps p qs _ _ _ l hl
  obtain ⟨q,hq⟩ := exists_of_found hl
  exact fun hc => absurd hc (receives_of_wrapAll h q l hq)

theorem wrapAll_congr {t : Store} {ps : List (Ref × Value)}
    (h : ∀ p ∈ ps, ∀ L : Ledger, L.found t p.1 = L.found s p.1) (L : Ledger) :
    L.wrapAll t ps = L.wrapAll s ps := by
  induction ps generalizing L with
  | nil => rfl
  | cons p ps ih =>
    have hw : L.wrap t p.1 p.2 = L.wrap s p.1 p.2 := by
      funext q
      simp [wrap,h p (by simp) L]
    rw [wrapAll,wrapAll,hw]
    exact ih (fun q hq => h q (by simp [hq])) _

end Ledger

namespace Store
variable {s t : Store} {L : Ledger} {r q D : Ref} {l : Layers} {n : String} {x a : Value} {H I : Ref → Prop}

theorem rel_imp {α β : Type} {R R' : α → β → Prop} {a : Option α} {b : Option β} (h : Option.Rel R a b)
    (hR : ∀ x y, R x y → R' x y) : Option.Rel R' a b := by
  cases h with
  | some hx => exact .some (hR _ _ hx)
  | none => exact .none

/-- The store holds what the ledger says. -/
structure Agrees (s : Store) (n : String) (H I : Ref → Prop) (L : Ledger) : Prop where
  classes : ∀ r, H r → Option.Rel s.Stored (L r) (s.attr? (.ref r) n)
  instances : ∀ r D, I r → s.classOf (.ref r) = .defined D → Option.Rel (fun l x =>
    s.Routed l.original (l.receives.values (.ref r) (.ref D)) x l.advices) (L r) (s.attr? (.ref r) n)

theorem home_branch (h : s.Branch n H r) : s.home r = .defined r := by
  obtain ⟨info,hi⟩ := h.classInfo?
  simp [home,hi]

theorem home_leaf (h : s.Leaf H r D) : s.home r = .defined D := by
  have hi : s.classInfo? r = none := by simpa [class?] using h.plain
  simp [home,hi,h.cls]

theorem heldBy_own {o : Obj} (ho : s.get? r = some o) (htable : o.table = none) :
    s.heldBy n (.defined r) = s.attr? (.ref r) n := by
  cases ha : o.attrs <;> simp [heldBy,classAttrs,attr?,attrs?,obj?,ho,attrsOf,htable,ha]

/-- What a class holds itself comes first. -/
theorem Branch.classMember?_own (h : s.Branch n H r) (hx : s.attr? (.ref r) n = some x) :
    s.classMember? (.defined r) n = some x := by
  obtain ⟨l,hl⟩ : ∃ l, s.line (.defined r) = .defined r :: l := by
    rw [line]
    cases s.heap.size with
    | zero => exact ⟨[],rfl⟩
    | succ k => exact ⟨_,rfl⟩
  obtain ⟨o,ho,htable,-⟩ := h.own
  rw [classMember?,hl,List.findSome?_cons,heldBy_own ho htable,hx]

/-- What the ledger finds along a line is what the classes hold there. -/
theorem stored_of_search {ls : List ClassId} (h : ∀ q, .defined q ∈ ls → s.Branch n H q ∧ H q)
    (hL : s.Agrees n H I L) (hl : L.search ls = some l) :
    ∃ x, ls.findSome? (s.heldBy n) = some x ∧ s.Stored l x := by
  induction ls with
  | nil => cases hl
  | cons c ls ih =>
    cases c with
    | builtin b => cases hl
    | defined q =>
      obtain ⟨hq,hH⟩ := h q (by simp)
      obtain ⟨o,ho,htable,-⟩ := hq.own
      have hrel := hL.classes q hH
      rw [List.findSome?_cons,heldBy_own ho htable]
      cases hLq : L q with
      | none =>
        rw [hLq] at hrel
        cases ha : s.attr? (.ref q) n with
        | none =>
          obtain ⟨x,hx,hstored⟩ := ih (fun k hk => h k (by simp [hk])) (by simpa [Ledger.search,hLq] using hl)
          exact ⟨x,hx,hstored⟩
        | some x =>
          rw [ha] at hrel
          cases hrel
      | some e =>
        obtain rfl : e = l := by simpa [Ledger.search,hLq] using hl
        rw [hLq] at hrel
        cases ha : s.attr? (.ref q) n with
        | none =>
          rw [ha] at hrel
          cases hrel
        | some x =>
          rw [ha] at hrel
          cases hrel with
          | some hx => exact ⟨x,rfl,hx⟩

theorem classMember?_of_search (hD : s.Branch n H D) (hF : s.Family n H I) (hL : s.Agrees n H I L)
    (hl : L.search (s.line (.defined D)) = some l) : ∃ x, s.classMember? (.defined D) n = some x ∧ s.Stored l x :=
  stored_of_search (fun q hq => ⟨hF.classes q (hD.closed q hq),hD.closed q hq⟩) hL hl

theorem Agrees.grows (hL : s.Agrees n H I L) (hF : s.Family n H I) (hn : n ∉ specialNames)
    (ht : s.Grows t) : t.Agrees n H I L := by
  have hfree : ¬ Frame.all.frees n := by
    rintro (rfl | hk)
    · exact hn (by decide)
    · cases hk
  refine ⟨fun r hr => ?_,fun r D hr hD => ?_⟩
  · obtain ⟨o,ho,htable,-⟩ := (hF.classes r hr).own
    rw [ht.attr? ho trivial htable hfree]
    exact rel_imp (hL.classes r hr) fun l x hx => hx.grows ht
  · obtain ⟨E,hE⟩ := hF.instances r hr
    obtain ⟨o,ho,htable⟩ := hE.own
    rw [ht.attr? ho trivial htable hfree]
    exact rel_imp (hL.instances r D hr (by rw [← hD,ht.classOf (holds_ref ho trivial)])) fun
      l x hx => hx.grows ht

/-- Lines do not change, and neither does what a ledger finds. -/
theorem found_keep (hF : s.Family n H I) (hF' : t.Family n H I) (hr : H r ∨ I r)
    (ht : s.Keeps (.members n) t) (L : Ledger) : L.found t r = L.found s r := by
  rcases hr with hr | hr
  · have h := hF.classes r hr
    rw [Ledger.found,Ledger.found,home_branch h,home_branch (hF'.classes r hr),
      h.lined.line_eq ht fun _ _ => trivial]
  · obtain ⟨D,hD⟩ := hF.instances r hr
    obtain ⟨E,hE⟩ := hF'.instances r hr
    obtain ⟨o,ho,-⟩ := hD.own
    have hcls : t.classOf (.ref r) = s.classOf (.ref r) := ht.classOf (holds_ref ho trivial)
    obtain rfl : E = D := by simpa [hE.cls,hD.cls] using hcls
    rw [Ledger.found,Ledger.found,home_leaf hD,home_leaf hE,
      (hF.classes _ hD.member).lined.line_eq ht fun _ _ => trivial]

/-- A new entry for what was written. -/
theorem Agrees.wrote (hL : s.Agrees n H I L) (hF : s.Family n H I) (hn : n ∉ specialNames)
    (ht : s.Wrote q n x t) (hclass : H q → t.Stored l x)
    (hinstance : ∀ D, I q → s.classOf (.ref q) = .defined D →
      t.Routed l.original (l.receives.values (.ref q) (.ref D)) x l.advices) :
    t.Agrees n H I (fun r => if r = q then some l else L r) := by
  have hfree : ¬ (Frame.but q).frees n := by
    rw [Frame.frees_but]
    rintro rfl
    exact hn (by decide)
  refine ⟨fun r hr => ?_,fun r D hr hD => ?_⟩
  · obtain ⟨o,ho,htable,-⟩ := (hF.classes r hr).own
    by_cases hq : r = q
    · subst hq
      simp only [if_true,ht.here]
      exact Option.Rel.some (hclass hr)
    · simp only [hq,if_false]
      rw [ht.others.attr? ho hq htable hfree]
      exact rel_imp (hL.classes r hr) fun l x hx => hx.keep ht.callables
  · obtain ⟨E,hE⟩ := hF.instances r hr
    obtain ⟨o,ho,htable⟩ := hE.own
    have hD' : s.classOf (.ref r) = .defined D := by
      rw [← hD,ht.members.classOf (holds_ref ho trivial)]
    by_cases hq : r = q
    · subst hq
      simp only [if_true,ht.here]
      exact Option.Rel.some (hinstance D hr hD')
    · simp only [hq,if_false]
      rw [ht.others.attr? ho hq htable hfree]
      exact rel_imp (hL.instances r D hr hD') fun l x hx => hx.keep ht.callables

end Store
end CallContracts
