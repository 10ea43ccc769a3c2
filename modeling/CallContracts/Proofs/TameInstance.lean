import CallContracts.Proofs.Recast
import CallContracts.Proofs.TableTarget
/-! Instances that bear signatures.  An instance gives back what it holds itself, and what its class holds for it is
bound; what is written to it becomes its own.  Modules and namespaces are instances too. -/
namespace CallContracts
open Act

namespace Store
variable {P : Store → Value → Prop} {r : Ref} {N : List String} {n : String} {s t u : Store} {x y : Value}
  {o q : Option Value} {m : Machine}

/-- An object that is no class and no mapping, with attributes of its own, which are read and written as the language
says. -/
structure Ordinary (s : Store) (r : Ref) : Prop where
  plain : s.class? (.ref r) = none
  own : ∃ o, s.get? r = some o ∧ o.table = none ∧ o.attrs.isSome ∧ ¬ Frame.layers.holds r o.cls
  lined : s.Lined (s.classOf (.ref r))
  rules : ∀ k ∈ ["__class__","__getattribute__","__getattr__","__setattr__"],
    s.override? (s.classOf (.ref r)) k = none
  kind : ∀ b ∈ guarded, .builtin b ∉ s.line (s.classOf (.ref r))
  fallback : s.attr? (.ref r) "__getattr__" = none

namespace Ordinary

theorem holds (h : s.Ordinary r) {F : Frame} (hF : ∀ r c, F.holds r c) : s.Holds F (.ref r) := by
  obtain ⟨o,ho,-⟩ := h.own
  exact holds_ref ho (hF r o.cls)

/-- The classes above an object that is none are other objects. -/
theorem ne_of_line {d : Ref} (h : s.Ordinary r) (hd : .defined d ∈ s.line (s.classOf (.ref r))) : d ≠ r := by
  rintro rfl
  obtain ⟨info,hinfo⟩ := h.lined.classInfo? hd
  have hplain := h.plain
  simp [Store.class?,hinfo] at hplain

section recast
variable (h : s.Ordinary r) (ht : s.Recast P r N t)
include h ht

theorem classOf_recast : t.classOf (.ref r) = s.classOf (.ref r) := ht.names.classOf (h.holds fun _ _ => trivial)

theorem line_recast : t.line (s.classOf (.ref r)) = s.line (s.classOf (.ref r)) :=
  h.lined.line_eq ht.names fun _ _ => trivial

theorem classAttrs_recast {d : Ref} {k : String} (hd : .defined d ∈ s.line (s.classOf (.ref r)))
    (hk : k ≠ "__annotations__") : (t.classAttrs d).get? k = (s.classAttrs d).get? k := by
  obtain ⟨o,ho⟩ := h.lined.get? hd
  exact ht.apart.others.classAttrs (holds_ref ho (h.ne_of_line hd)) (by simpa using hk)

/-- What its class holds stays. -/
theorem classMember?_recast (hn : n ≠ "__annotations__") :
    t.classMember? (t.classOf (.ref r)) n = s.classMember? (s.classOf (.ref r)) n := by
  rw [h.classOf_recast ht,classMember?,h.line_recast ht]
  refine findSome?_congr fun c hc => ?_
  cases c with
  | builtin b => rfl
  | defined d => exact h.classAttrs_recast ht hc hn

theorem isCallable_recast : t.isCallable (.ref r) = s.isCallable (.ref r) := by
  rw [isCallable,isCallable,h.classOf_recast ht,makesCallable,h.line_recast ht,Bool.eq_iff_iff,makesCallable,
    List.any_eq_true,List.any_eq_true]
  refine exists_congr fun c => and_congr_right fun hc => ?_
  cases c with
  | builtin b => exact Iff.rfl
  | defined d => simp only [h.classAttrs_recast ht hc (show "__call__" ≠ "__annotations__" by decide)]

theorem recast (hN : "__getattr__" ∉ N) : t.Ordinary r := by
  obtain ⟨o,ho,htable,hattrs,hlayers⟩ := h.own
  obtain ⟨p,hp,hk⟩ := ht.names.kept r o ho trivial
  have hcls := h.classOf_recast ht
  have hline := h.line_recast ht
  refine ⟨by rw [ht.names.class? (h.holds fun _ _ => trivial),h.plain],
    ⟨p,hp,hk.table.trans htable,hk.isSome_attrs.trans hattrs,by rwa [hk.cls]⟩,?_,fun k hk => ?_,?_,?_⟩
  · rw [hcls]
    exact h.lined.keep ht.names fun _ _ => trivial
  · rw [hcls,← h.rules k hk]
    refine override?_congr hline fun d hd => h.classAttrs_recast ht hd ?_
    rintro rfl
    simp at hk
  · rw [hcls,hline]
    exact h.kind
  · rw [← h.fallback]
    refine ht.names.attr? ho trivial htable ?_
    rintro (hk | hk)
    · simp at hk
    · exact hN hk

end recast

variable (h : s.Ordinary r)
include h

theorem spoofs : s.spoofs (s.classOf (.ref r)) = false := by
  simp [Store.spoofs,Store.overrides,h.rules "__class__" (by simp),h.rules "__getattribute__" (by simp)]

theorem isMapping : isMapping m (.ref r) s = .ok false s := by
  rw [CallContracts.isMapping,isKind,isInstance_native h.spoofs,(isSubclass_guarded h.kind).1]

theorem isType : isKind m (.ref r) .type s = .ok false s := by
  rw [isKind,isInstance_native h.spoofs,(isSubclass_guarded h.kind).2]

theorem read : m.next.read (.ref r) n s = readOfInstance m (.ref r) n s := by
  change readAttribute m (.ref r) n s = _
  simp only [readAttribute,get_bind_apply,h.rules "__getattribute__" (by simp),h.rules "__getattr__" (by simp),readNative,
    h.plain]
  cases s.isA (.ref r) .module with
  | false => rfl
  | true => simp only [if_true,readOfModule,get_bind_apply,h.fallback]

/-- An attribute of its own, unless the class computes it. -/
theorem read_own (hdata : ∀ x, s.classMember? (s.classOf (.ref r)) n = some x → s.isDataMember x = false)
    (hy : s.attr? (.ref r) n = some y) : m.next.read (.ref r) n s = .ok y s := by
  rw [h.read]
  simp only [readOfInstance,get_bind_apply,hy]
  cases hx : s.classMember? (s.classOf (.ref r)) n with
  | none => rfl
  | some x => simp [hdata x hx]

/-- Otherwise what the class holds is bound. -/
theorem read_bound (hdata : s.isDataMember x = false) (hx : s.classMember? (s.classOf (.ref r)) n = some x)
    (hy : s.attr? (.ref r) n = none) : m.next.read (.ref r) n s
      = bindMember m x (.ref r) (s.classOf (.ref r)).value s := by
  rw [h.read]
  simp only [readOfInstance,get_bind_apply,hy,hx,hdata,Bool.false_eq_true,if_false]
  cases x <;> rfl

theorem write (hdata : ∀ x, s.classMember? (s.classOf (.ref r)) n = some x → s.isDataMember x = false) (y : Value) :
    ∃ t, m.next.write (.ref r) n y s = .ok () t ∧ s.Wrote r n y t ∧ s.Keeps .layers t := by
  obtain ⟨o,ho,htable,hattrs,hlayers⟩ := h.own
  have hwrote := wrote_putAttr ho htable hattrs (fun hc => hlayers (Or.inl hc)) n y
  refine ⟨s.putAttr r n y,?_,hwrote,hwrote.keeps (fun a ha => ?_) nofun⟩
  · rw [Wrapper.write_own (unruled_guarded (h.rules "__setattr__" (by simp)) h.kind n) h.plain hdata]
    exact Wrapper.putOwn_own ho hattrs htable
  · obtain rfl : o = a := by simpa [ho] using ha
    exact hlayers

end Ordinary

/-- A value that is looked at without running code of the program, whatever becomes of the object `r`, and then found to
be signed with this signature, or with none. -/
def Marked (r : Ref) (s : Store) (x : Value) (o : Option Value) : Prop :=
  ∀ t, s.Apart r t → t.Legible x ∧ ∀ m y, Signature.isSignedWith m x y t = .ok (decide (o = some y)) t

theorem Marked.keep (h : s.Marked r x o) (ht : s.Apart r t) : t.Marked r x o := fun u hu => h u (ht.trans hu)

theorem Tame.marked (h : s.Tame r x o q) : s.Marked r x o :=
  fun _ ht => ⟨(h.keep ht).legible,(h.keep ht).isSignedWith⟩

theorem Checking.marked (h : s.Checking x) : ∃ sig, s.Marked r x (some sig) := by
  obtain ⟨p,k,sig,hw,hk⟩ := h
  refine ⟨sig,fun t ht => ?_⟩
  have hwt := hw.keep_callables (by decide) ht.layers.callables
  refine ⟨Wrapper.legible_wrapper (by decide) hwt,fun m y => ?_⟩
  rw [isSignedWith_wrapper (by decide) hwt (hk.keep ht.layers)]
  simp

theorem Marked.topped (h : s.Marked r x o) (m : Machine) : s.Topped (Recast P r N) m x o := by
  intro t y b u ht hb
  rw [(h t ht.apart).2 m y] at hb
  cases hb
  rfl

/-- An ordinary object whose members are its own attributes, or tame members of its class and the classes above, and no
computed ones.  A member is read as signed with the signature that is listed for it. -/
structure TameInstance (s : Store) (r : Ref) (N : List String) (first : Value → Option Value) : Prop where
  ordinary : s.Ordinary r
  names : "__annotations__" ∉ N ∧ "__getattr__" ∉ N
  plain : ∀ n ∈ N, ∀ x, s.classMember? (s.classOf (.ref r)) n = some x → ∀ t, s.Apart r t → t.isDataMember x = false
  members : ∀ n ∈ N, (∃ x, s.attr? (.ref r) n = some x ∧ s.Marked r x (first (.str n))) ∨
    s.attr? (.ref r) n = none ∧ ∃ x o, s.classMember? (s.classOf (.ref r)) n = some x ∧ s.Tame r x o (first (.str n))

end Store

namespace Attachment
open Store
variable {r : Ref} {N : List String} {first : Value → Option Value} {n : String} {j : Nat} {s t u : Store} {w : Value}

theorem stable_checking : Stable r Checking := fun _ _ _ hx hu => hx.keep hu.layers

section tameInstance
variable (h : s.TameInstance r N first)
include h

theorem evolves_tameInstance : s.Evolves (Recast Checking r N) := by
  obtain ⟨o,ho,htable,-⟩ := h.ordinary.own
  exact evolves_recast stable_checking ⟨o,ho,htable⟩ h.names.1

variable (ht : s.Recast Checking r N t) (hn : n ∈ N)
include ht hn

theorem plain_recast (x : Value) (hx : t.classMember? (t.classOf (.ref r)) n = some x) : t.isDataMember x = false := by
  have hne : n ≠ "__annotations__" := fun hne => h.names.1 (hne ▸ hn)
  rw [h.ordinary.classMember?_recast ht hne] at hx
  exact h.plain n hn x hx t ht.apart

/-- Reading a member changes nothing that was there; it is an attribute of the object, or bound by its class. -/
theorem leads_readInstance : ((Machine.ofLevel (j+1)).read (.ref r) n).Leads
    (fun v u => t.Grows u ∧ (t.attr? (.ref r) n = some v ∨
      t.attr? (.ref r) n = s.attr? (.ref r) n ∧ ∃ q, u.Tame r v (first (.str n)) q)) (t.Grows ·) t := by
  have ho := h.ordinary.recast ht h.names.2
  have hne : n ≠ "__annotations__" := fun hne => h.names.1 (hne ▸ hn)
  cases hy : t.attr? (.ref r) n with
  | some y =>
    exact leads_congr (ho.read_own (m := Machine.ofLevel j) (plain_recast h ht hn) hy)
      (leads_pure ⟨Keeps.refl _ t,Or.inl rfl⟩)
  | none =>
    have hsame : t.attr? (.ref r) n = s.attr? (.ref r) n := by
      refine (ht.written n hn).resolve_right ?_
      rintro ⟨x,hx,-⟩
      cases hy.symm.trans hx
    rcases h.members n hn with ⟨x,hx,-⟩ | ⟨hnone,x,o,hx,hx'⟩
    · cases (hsame.symm.trans hy).symm.trans hx
    · rw [← h.ordinary.classMember?_recast ht hne] at hx
      obtain ⟨a,ha,-⟩ := ho.own
      refine leads_congr (ho.read_bound (m := Machine.ofLevel j) (plain_recast h ht hn x hx) hx hy) ?_
      have howner : (t.classOf (.ref r)).value ≠ .absent := by cases t.classOf (.ref r) <;> nofun
      refine (Wrapper.leads_bind howner (j+1) t x o _ (.ref r) (by simp [ha]) (hx'.keep ht.apart)).imp ?_ fun u hu => hu
      exact fun v u hu => ⟨hu.1,Or.inr ⟨hnone.symm,hu.2⟩⟩

/-- As long as a member was not written, it is signed as listed. -/
theorem marked_readInstance {v : Value} (hv : (Machine.ofLevel (j+1)).read (.ref r) n t = .ok v u) :
    ∃ o, u.Marked r v o ∧ (t.attr? (.ref r) n = s.attr? (.ref r) n → o = first (.str n)) := by
  obtain ⟨hg,hown | ⟨-,q,htame⟩⟩ := (leads_readInstance h ht hn).1 v u hv
  · by_cases hsame : t.attr? (.ref r) n = s.attr? (.ref r) n
    · rcases h.members n hn with ⟨x,hx,hmarked⟩ | ⟨hnone,-⟩
      · obtain rfl : v = x := Option.some.inj (hown.symm.trans (hsame.trans hx))
        exact ⟨_,hmarked.keep (ht.apart.trans (.of_grows hg)),fun _ => rfl⟩
      · cases (hsame.symm.trans hown).symm.trans hnone
    · obtain ⟨y,hy,hchecking⟩ := (ht.written n hn).resolve_left hsame
      obtain rfl : v = y := Option.some.inj (hown.symm.trans hy)
      obtain ⟨sig,hmarked⟩ := hchecking.marked (r := r)
      exact ⟨_,hmarked.keep (.of_grows hg),fun h => absurd h hsame⟩
  · exact ⟨_,htame.marked,fun _ => rfl⟩

end tameInstance

/-- An instance with such members gives back what it holds, and holds what is written to it. -/
theorem direct_tameInstance (h : s.TameInstance r N first) :
    Direct (Recast Checking r N) (Machine.ofLevel (j+1)) (.ref r) false (memberNames N) (memberSite N) (ownHeld r) s where
  evolves := evolves_tameInstance h
  stays t u ht hu := by
    obtain ⟨o,ho,htable,-⟩ := (h.ordinary.recast ht h.names.2).own
    exact ownHeld_grows ho htable hu
  mapping t ht := gives_of_eq (h.ordinary.recast ht h.names.2).isMapping
  noClass _ t ht := gives_of_eq (h.ordinary.recast ht h.names.2).isType
  reads := by
    rintro _ ⟨n,hn,rfl⟩ t ht
    exact (leads_readInstance h ht hn).after fun v u hu => hu.1
  finds := by
    rintro t _ v u ht ⟨n,hn,rfl⟩ hv
    exact ⟨.str n,by simp [memberSite,hn]⟩
  gives := by
    rintro t _ i w v u ht ⟨n,hn,rfl⟩ hi hw - hv
    obtain rfl : .str n = i := by simpa [memberSite,hn] using hi
    have hread := (h.ordinary.recast ht h.names.2).read_own (m := Machine.ofLevel j) (plain_recast h ht hn)
      (ownHeld_eq_some hw)
    have hv : (Machine.ofLevel (j+1)).read (.ref r) n t = .ok v u := hv
    cases hread.symm.trans hv
    rfl
  told := by
    rintro t _ v u ht ⟨n,hn,rfl⟩ hv
    obtain ⟨o,hmarked,-⟩ := marked_readInstance h ht hn hv
    exact Wrapper.yields_legible (hmarked u (.refl r u)).1 (j+1)
  takes := by
    rintro t _ i w p k sig ht ⟨n,hn,rfl⟩ hi hw hk
    obtain rfl : .str n = i := by simpa [memberSite,hn] using hi
    have ho := h.ordinary.recast ht h.names.2
    have hne : n ≠ "__annotations__" := fun hne => h.names.1 (hne ▸ hn)
    obtain ⟨u,hu,hwrote,hlayers⟩ := ho.write (m := Machine.ofLevel j) (plain_recast h ht hn) w
    obtain ⟨a,ha,htable,-⟩ := ho.own
    have hchecking : u.Checking w := ⟨p,k,sig,hw.keep_callables (by decide) hlayers.callables,hk.keep hlayers⟩
    have hwrite : writeAs false (Machine.ofLevel (j+1)) (.ref r) (.str n) w t = (pure () : Act Unit) u := hu
    refine leads_congr hwrite (leads_pure ⟨hwrote.recast hlayers ⟨a,ha,htable⟩ h.names.1 hn hchecking,?_,?_⟩)
    · simp [ownHeld,hne,hwrote.here]
    · intro i hi
      refine ownHeld_congr fun k hk hki => hwrote.members.attr? ha trivial htable ?_
      rintro (hfree | hfree)
      · exact hk hfree
      · obtain rfl : k = n := by simpa [Frame.members] using hfree
        exact hi hki

end Attachment
end CallContracts
