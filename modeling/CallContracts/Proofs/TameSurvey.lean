import CallContracts.Proofs.Survey
import CallContracts.Proofs.TameClass
import CallContracts.Proofs.TameInstance
import CallContracts.Proofs.ClassAttach
/-! Maps of signatures for objects with tame members.  A plain table of signatures that texts describe is gone over
without changing anything, whatever was wrapped and written to the object in the meantime. -/
namespace CallContracts
open Act

namespace Store
variable {F : Frame} {s t : Store} {d : Ref} {N : List String} {map : List (Value × Value)} {sig v : Value}
  {cs : List Contract} {b : Body}

theorem holds_of_body (hv : s.body? v = some b) (hF : ∀ r c, F.holds r c) : s.Holds F v := by
  intro r hr
  obtain ⟨o,ho,-⟩ := holds_all_of_body hv r hr
  exact ⟨o,ho,hF r o.cls⟩

/-- A signature that was built of contracts, all of which texts describe. -/
structure TextSignature (s : Store) (sig : Value) (cs : List Contract) : Prop where
  signature : ∃ parts, s.IsSignature sig cs parts
  text : ∃ c x, s.contract? sig = some c ∧ c.description = .str x
  parts : ∀ c ∈ cs, s.contract? c.value = some c ∧ ∃ x, c.description = .str x

theorem contract?_keep (ht : s.Keeps F t) (hF : ∀ r c, F.holds r c) {c : Contract} (hc : s.contract? v = some c) :
    t.contract? v = some c := by
  cases hb : s.body? v with
  | none => simp [contract?,hb] at hc
  | some b => rw [ht.contract? (holds_of_body hb hF),hc]

theorem TextSignature.keep (h : s.TextSignature sig cs) (ht : s.Keeps F t) (hF : ∀ r c, F.holds r c) : t.TextSignature sig cs := by
  obtain ⟨parts,hsig⟩ := h.signature
  obtain ⟨c,x,hc,hx⟩ := h.text
  obtain ⟨_,_,hb⟩ := hsig.body
  refine ⟨⟨parts,hsig.keep ht (holds_of_body hb hF) (holds_of_body hsig.params.body hF)⟩,
    ⟨c,x,contract?_keep ht hF hc,hx⟩,fun c hc => ?_⟩
  obtain ⟨hc,hx⟩ := h.parts c hc
  exact ⟨contract?_keep ht hF hc,hx⟩

theorem HasStandard.keep_all (h : s.HasStandard) (ht : s.Keeps F t) (hF : ∀ r c, F.holds r c) : t.HasStandard := by
  intro c hc
  obtain ⟨e,he⟩ := Option.isSome_iff_exists.mp (h c hc)
  rw [contract?_keep ht hF he]
  rfl

/-- A plain table of such signatures under names of members. -/
structure ListsSignatures (s : Store) (d : Ref) (N : List String) (map : List (Value × Value)) : Prop where
  standard : s.HasStandard
  table : s.IsMap d map
  keys : (map.map Prod.fst).Nodup
  entries : ∀ p ∈ map, (∃ n ∈ N, p.1 = .str n) ∧ ∃ cs, s.TextSignature p.2 cs

theorem ListsSignatures.keep (h : s.ListsSignatures d N map) (ht : s.Keeps F t) (hF : ∀ r c, F.holds r c) :
    t.ListsSignatures d N map := by
  have hd : s.Holds F (.ref d) := holds_of_body h.table.body hF
  obtain ⟨o,ho,htable,hattrs⟩ := h.table.own
  obtain ⟨p,hp,hk⟩ := ht.kept d o ho (hF d o.cls)
  have hnone : p.attrs = none := by simpa [hattrs] using hk.isSome_attrs
  refine ⟨h.standard.keep_all ht hF,
    ⟨⟨by rw [ht.classOf hd,h.table.cls],by rw [ht.body? hd,h.table.body]⟩,p,hp,hk.table.trans htable,hnone⟩,
    h.keys,fun q hq => ?_⟩
  obtain ⟨hn,cs,hcs⟩ := h.entries q hq
  exact ⟨hn,cs,hcs.keep ht hF⟩

/-- Builtin classes of values that are no objects for a contract. -/
def valueClasses : List BuiltinClass :=
  [.bool,.int,.float,.complex,.decimal,.fraction,.number,.complexNumber,.realNumber,.rationalNumber,.integral,.str,.list,
    .tuple,.date]

/-- An instance of a class that comes from none of them passes for an object, unless it can be called. -/
theorem Ordinary.object {m : Machine} {r : Ref} (h : s.Ordinary r) (hs : s.HasStandard)
    (hkind : ∀ b ∈ valueClasses, .builtin b ∉ s.line (s.classOf (.ref r))) (hplain : s.isCallable (.ref r) = false) :
    Contract.object.outcome m (.ref r) s = .ok .matched s := by
  have isKind {b : BuiltinClass} (hb : s.isSubclass (s.classOf (.ref r)) (.builtin b) = false) :
      isKind m (.ref r) b s = .ok false s := by rw [CallContracts.isKind,isInstance_native h.spoofs,hb]
  have other {b : BuiltinClass} (hb : b ∈ valueClasses) : s.comesFrom (s.classOf (.ref r)) (.builtin b) = false := by
    simp [comesFrom,hkind b hb]
  have hbool := isKind (b := .bool) (by simp [isSubclass,other (b := .bool) (by simp [valueClasses])])
  have hstr := isKind (b := .str) (by simp [isSubclass,other (b := .str) (by simp [valueClasses])])
  have hlist := isKind (b := .list) (by simp [isSubclass,other (b := .list) (by simp [valueClasses])])
  have htuple := isKind (b := .tuple) (by simp [isSubclass,other (b := .tuple) (by simp [valueClasses])])
  have hdate := isKind (b := .date) (by simp [isSubclass,other (b := .date) (by simp [valueClasses])])
  have hnumber : CallContracts.isKind m (.ref r) .number s = .ok false s := by
    refine isKind ?_
    have hany : (s.builtinLine (s.classOf (.ref r))).any (·.isNumber) = false := by
      rw [List.any_eq_false]
      intro b hb hnumber
      refine hkind b ?_ (mem_builtinLine.mp hb)
      revert hnumber
      cases b <;> decide
    simp [isSubclass,other (b := .number) (by simp [valueClasses]),hany]
  refine Contract.object_outcome hs ?_ ?_ ?_
  · simp [kindOf,bind_apply,hbool,hnumber,hstr,hplain]
  · rw [isArray,bind_ok hlist]
    exact htuple
  · refine Contract.belongsTo_builtin (fun hd => ?_) hdate
    cases hc : s.classOf (.ref r) with
    | defined q =>
      rw [hc] at hd
      cases hd
    | builtin b =>
      rw [hc] at hd
      obtain rfl : b = .date := by simpa [ClassId.value] using hd
      refine hkind .date (by simp [valueClasses]) ?_
      rw [hc,line_builtin]
      exact List.mem_map_of_mem BuiltinClass.date.self_mem_line

end Store

namespace Attachment
variable {P : Store → Value → Prop} {E : Store → Store → Prop} {M m : Machine} {d r : Ref} {N : List String}
  {s t : Store} {map : List (Value × Value)} {p : Value × Value}

/-- An object whose members are read as callables, which are looked at without running code of the program. -/
structure Offers (W : Store → Prop) (m : Machine) (r : Ref) (N : List String) : Prop where
  mapping : ∀ t, W t → isMapping m (.ref r) t = .ok false t
  object : ∀ t, W t → Contract.object.outcome m (.ref r) t = .ok .matched t
  reads : ∀ t, W t → ∀ n ∈ N, (m.read (.ref r) n).Leads
    (fun v u => t.Grows u ∧ (∃ o, u.Marked r v o) ∧ ∀ z, u.Apart r z → z.isCallable v = true) (t.Grows ·) t

section entry
variable (h : Offers (s.Recast P r N) M.next r N) (hs : s.Evolves (Store.Recast P r N))
  (hmap : s.ListsSignatures d N map)
include h hs hmap

omit h hs in
theorem listed_recast (ht : s.Recast P r N t) : t.ListsSignatures d N map :=
  hmap.keep ht.names fun _ _ => trivial

theorem accepts_object : Always (s.Recast P r N) (Signature.accepts M.next (.ref d) (.ref r)) .matched := by
  intro t ht
  have hlater {u : Store} (hu : t.Grows u) : s.Recast P r N u := hs.lasting t u ht hu
  refine Signature.gives_accepts (listed_recast hmap ht).standard (fun u hu => gives_of_eq ?_) fun u hu => gives_of_eq ?_
  · have hmapu := listed_recast hmap (hlater hu)
    exact Contract.signatureMap_table hmapu.standard hmapu.table.toIsTable
  · exact h.object u (hlater hu)

variable (hp : p ∈ map)
include hp

omit h hs in
theorem entry_recast (ht : s.Recast P r N t) :
    isContract m p.2 t = .ok true t ∧ isSignature m p.2 t = .ok true t := by
  obtain ⟨-,cs,hcs⟩ := (listed_recast hmap ht).entries p hp
  obtain ⟨_,hsig⟩ := hcs.signature
  exact ⟨isKind_builtin hsig.cls (by decide),isKind_builtin hsig.cls (by decide)⟩

omit hs hmap hp in
theorem member_object {n : String} (ht : s.Recast P r N t) (hn : n ∈ N) :
    (Signature.memberOf M.next (.ref r) (.str n)).Leads
      (fun v u => t.Grows u ∧ (∃ o, u.Marked r v o) ∧ ∀ z, u.Apart r z → z.isCallable v = true) (t.Grows ·) t := by
  refine leads_congr ?_ (h.reads t ht n hn)
  rw [memberOf_eq,bind_ok (h.mapping t ht)]
  rfl

omit h in
/-- A member is seen in all later stores, whatever was written. -/
theorem seen_object {u : Store} {v : Value} {o : Option Value} (hu : s.Recast P r N u) (hv : u.Marked r v o)
    (hcall : ∀ z, u.Apart r z → z.isCallable v = true) : Signature.Seen (u.Recast P r N) M.next p v := by
  refine seen_signature (fun z hz => gives_of_eq ?_) (fun z hz => hcall z hz.apart) fun z hz => ?_
  · exact (entry_recast hmap hp (hs.trans s u z hs.start hu hz)).2
  · rw [after_ok ((hv z hz.apart).2 M.next p.2)]
    exact Store.Keeps.refl _ z

/-- All that is asked about an entry changes nothing. -/
theorem harmless_object : Signature.Harmless (s.Recast P r N) M.next (.ref r) p := by
  obtain ⟨⟨n,hn,hname⟩,cs,hcs⟩ := hmap.entries p hp
  obtain ⟨parts,hsig⟩ := hcs.signature
  obtain ⟨c,x,hc,hx⟩ := hcs.text
  have described {t : Store} (ht : s.Recast P r N t) : t.TextSignature p.2 cs := hcs.keep ht.names fun _ _ => trivial
  have same {α : Type} {y : Act α} {a : Store → α} (hy : ∀ t, s.Recast P r N t → y t = .ok (a t) t) :
      Leaves (s.Recast P r N) y := fun t ht => by
    rw [after_ok (hy t ht)]
    exact Store.Keeps.refl _ t
  have hdesc {t : Store} (ht : s.Recast P r N t) : Signature.descriptionOf M.next p.2 t = .ok (.str x) t := by
    simp [Signature.descriptionOf,Store.contract?_keep ht.names (fun _ _ => trivial) hc,hx]
  have htext {y : String} : Leaves (s.Recast P r N) (formatted M.next (.str y)) ∧
      Leaves (s.Recast P r N) (written M.next (.str y)) :=
    ⟨same fun t _ => formatted_str M.next y t,same fun t _ => written_str M.next y t⟩
  have hmember : Leaves (s.Recast P r N) (Signature.memberOf M.next (.ref r) p.1) := fun t ht => by
    rw [hname]
    exact (member_object h ht hn).after fun v u hu => hu.1
  refine ⟨same fun t ht => (entry_recast hmap hp ht).1,?_,
    ⟨by rw [hname]; exact htext,same fun t ht => hdesc ht,?_⟩,?_,hmember,same fun t ht => (entry_recast hmap hp ht).2,?_,?_⟩
  · rintro ⟨t,u,ht,hu⟩
    rw [(entry_recast hmap hp ht).1] at hu
    cases hu
  · rintro y ⟨t,u,ht,hu⟩
    rw [hdesc ht] at hu
    cases hu
    exact htext
  · intro t ht
    have hhas : Signature.hasMember M.next (.ref r) (.str n) t
        = (Option.isSome <$> optional (M.next.read (.ref r) n)) t := by
      rw [Signature.hasMember,bind_ok (h.mapping t ht)]
      rfl
    have hread : after (Signature.hasMember M.next (.ref r) p.1) t = after (M.next.read (.ref r) n) t := by
      rw [hname,← after_optional (M.next.read (.ref r) n),after,hhas,map_apply,after]
      cases optional (M.next.read (.ref r) n) t <;> rfl
    rw [hread]
    exact (h.reads t ht n hn).after fun v u hu => hu.1
  · intro t v u ht hv
    rw [hname] at hv
    obtain ⟨hg,⟨o,hmarked⟩,hcall⟩ := (member_object h ht hn).1 v u hv
    have hu := hs.lasting t u ht hg
    exact (seen_object hs hmap hp hu hmarked hcall).mono fun z hz => hs.grows u z hu hz
  · intro t ht
    have hdescribed := described ht
    have hcs' : ∀ c ∈ cs, Describable (t.Grows ·) M.next c := fun c hc => by
      obtain ⟨hc,y,hy⟩ := hdescribed.parts c hc
      exact describable_of_contract (fun u hu => Store.contract?_keep hu (fun _ _ => trivial) hc) hy
    obtain ⟨_,hsig⟩ := hdescribed.signature
    obtain ⟨k,u,hu,hg,-⟩ := Signature.quiet_check (n := p.1) (fun u hu => hu) hsig hcs'
    rwa [after_ok hu]

end entry

/-- Such a map is gone over with any steps between the members that are written. -/
theorem surveys_object (h : Offers (s.Recast P r N) M.next r N) (hs : s.Evolves (Store.Recast P r N))
    (hmap : s.ListsSignatures d N map) (hE : Steps (s.Recast P r N) E)
    (hwithin : ∀ t u, s.Recast P r N t → E t u → t.Recast P r N u) :
    Surveys E (s.Recast P r N) M.next (.ref r) (memberNames N) (fun _ => true) (.ref d) map where
  accepts := (accepts_object h hs hmap).leaves.within hE
  inserted hm := by cases (accepts_object h hs hmap).eq hm
  lists := lists_table (fun t ht => ⟨(listed_recast hmap ht).table.toIsTable,(listed_recast hmap ht).table.attr? _⟩) hmap.keys
  named p hp := by
    obtain ⟨⟨n,hn,hname⟩,-⟩ := hmap.entries p hp
    exact ⟨n,hn,hname⟩
  regarded p hp := by
    refine (harmless_object h hs hmap hp).within hE fun t v u ht hv => ?_
    obtain ⟨⟨n,hn,hname⟩,-⟩ := hmap.entries p hp
    rw [hname] at hv
    obtain ⟨hg,⟨o,hmarked⟩,hcall⟩ := (member_object h ht hn).1 v u hv
    have hu := hs.lasting t u ht hg
    exact (seen_object hs hmap hp hu hmarked hcall).mono fun z hz => hwithin u z hu hz
  called p hp := by
    intro t v u c z ht hv hc
    obtain ⟨⟨n,hn,hname⟩,-⟩ := hmap.entries p hp
    rw [hname] at hv
    obtain ⟨hg,-,hcall⟩ := (member_object h ht hn).1 v u hv
    have hu := hs.lasting t u ht hg
    rw [hcall u (.refl r u)] at hc
    simp only [if_true,(entry_recast hmap hp hu).2] at hc
    cases hc
    rfl

section offers
variable {H : Ref → Prop} {first : Value → Option Value} {j : Nat}

/-- A class whose members are tame, and are read as callables as long as they are not written. -/
theorem offers_tameClass (h : s.TameClass r H N first) (hs : s.HasStandard)
    (hcall : ∀ t n v u, s.Recast (Store.Signing r) r N t → n ∈ N → t.attr? (.ref r) n = s.attr? (.ref r) n →
      (Machine.ofLevel (j+1)).read (.ref r) n t = .ok v u → u.isCallable v = true) :
    Offers (s.Recast (Store.Signing r) r N) (Machine.ofLevel (j+1)) r N where
  mapping t ht := Wrapper.isMapping_governed (h.branch_recast ht (n := "__getattr__") (by simp)).governed
  object t ht := Contract.object_branch (hs.keep_all ht.names fun _ _ => trivial)
    (h.branch_recast ht (n := "__getattr__") (by simp))
  reads t ht n hn := by
    obtain ⟨x,o,q,hx,hx',-,hsigned⟩ := h.member ht hn
    have hread := Wrapper.leads_read (j := j) h ht hn hx hx'
    refine ⟨fun v u hu => ?_,hread.2⟩
    obtain ⟨hg,q',hv⟩ := hread.1 v u hu
    have hcallable : u.isCallable v = true := by
      by_cases hsame : t.attr? (.ref r) n = s.attr? (.ref r) n
      · exact hcall t n v u ht hn hsame hu
      · obtain ⟨sig,rfl⟩ := Option.isSome_iff_exists.mp (hsigned hsame)
        exact hv.isCallable_signed
    exact ⟨hg,⟨_,hv.marked⟩,fun z hz => hv.isCallable_keep hcallable hz⟩

/-- So is an instance that passes for an object. -/
theorem offers_tameInstance (h : s.TameInstance r N first) (hs : s.HasStandard)
    (hkind : ∀ b ∈ Store.valueClasses, .builtin b ∉ s.line (s.classOf (.ref r))) (hplain : s.isCallable (.ref r) = false)
    (hcall : ∀ t n v u, s.Recast Store.Checking r N t → n ∈ N → t.attr? (.ref r) n = s.attr? (.ref r) n →
      (Machine.ofLevel (j+1)).read (.ref r) n t = .ok v u → ∀ z, u.Apart r z → z.isCallable v = true) :
    Offers (s.Recast Store.Checking r N) (Machine.ofLevel (j+1)) r N where
  mapping t ht := (h.ordinary.recast ht h.names.2).isMapping
  object t ht := by
    refine (h.ordinary.recast ht h.names.2).object (hs.keep_all ht.names fun _ _ => trivial) ?_ ?_
    · rw [h.ordinary.classOf_recast ht,h.ordinary.line_recast ht]
      exact hkind
    · rw [h.ordinary.isCallable_recast ht,hplain]
  reads t ht n hn := by
    have hread := leads_readInstance (j := j) h ht hn
    refine ⟨fun v u hu => ?_,hread.2⟩
    obtain ⟨hg,hv⟩ := hread.1 v u hu
    obtain ⟨o,hmarked,-⟩ := marked_readInstance h ht hn hu
    refine ⟨hg,⟨o,hmarked⟩,fun z hz => ?_⟩
    by_cases hsame : t.attr? (.ref r) n = s.attr? (.ref r) n
    · exact hcall t n v u ht hn hsame hu z hz
    · have hown := hv.resolve_right fun h => hsame h.1
      obtain ⟨y,hy,p,k,sig,hw,-⟩ := (ht.written n hn).resolve_left hsame
      obtain rfl : v = y := Option.some.inj (hown.symm.trans hy)
      rw [Store.isCallable_builtin ((hw.grows hg).keep_callables (by decide) hz.layers.callables).classOf]
      decide

end offers

end Attachment
end CallContracts
