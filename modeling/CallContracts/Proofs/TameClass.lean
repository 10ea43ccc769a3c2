import CallContracts.Proofs.Recast
/-! Classes whose members are tame.  Whatever is wrapped and written to them, their members stay tame; a member that
was not written is read as signed with the same signature, whatever way it is bound. -/
namespace CallContracts
open Act

namespace Store
variable {r : Ref} {H : Ref → Prop} {N : List String} {first : Value → Option Value} {n : String} {s t : Store}

/-- The members of a class are tame, its own class leaves reading and writing to the language, and a member is read as
signed with the signature that is listed for it. -/
structure TameClass (s : Store) (r : Ref) (H : Ref → Prop) (N : List String) (first : Value → Option Value) : Prop where
  branch : ∀ n ∈ "__getattr__" :: N, s.Branch n H r
  names : ∀ n ∈ N, n ∉ specialNames
  members : ∀ n ∈ N, ∃ x o, s.classMember? (.defined r) n = some x ∧ s.Tame r x o (first (.str n))

section tamed
variable (h : s.TameClass r H N first) (ht : s.Recast (Signing r) r N t)
include h ht

theorem TameClass.branch_recast (hn : n ∈ "__getattr__" :: N) : t.Branch n H r := by
  have hbranch := h.branch n hn
  have hspecial : n ∉ specialNames := by
    rcases List.mem_cons.mp hn with rfl | hn
    · decide
    · exact h.names n hn
  refine hbranch.keep hspecial ht.names (fun _ _ => trivial) fun d hd k hk => ?_
  have hne : d ≠ r := by
    rintro rfl
    exact hbranch.apart d hd (hbranch.closed d (lookup_self s d))
  obtain ⟨o,ho⟩ := hbranch.above.get? hd
  exact ht.apart.others.classAttrs (holds_ref ho hne) (by simpa using hk)

/-- A member that the class does not hold otherwise than before is found as before. -/
theorem TameClass.classMember?_recast (hn : n ∈ N) (hsame : t.attr? (.ref r) n = s.attr? (.ref r) n) :
    t.classMember? (.defined r) n = s.classMember? (.defined r) n := by
  have hbranch := h.branch n (by simp [hn])
  have hbranch' := h.branch_recast ht (n := n) (by simp [hn])
  rw [classMember?,hbranch.lined.line_eq ht.names fun _ _ => trivial]
  refine findSome?_congr fun c hc => ?_
  cases c with
  | builtin b => rfl
  | defined d =>
    by_cases hd : d = r
    · subst hd
      obtain ⟨o,ho,htable,-⟩ := hbranch.own
      obtain ⟨o',ho',htable',-⟩ := hbranch'.own
      rw [heldBy_own ho' htable',heldBy_own ho htable,hsame]
    · obtain ⟨o,ho⟩ := hbranch.lined.get? hc
      refine ht.apart.others.classAttrs (holds_ref ho hd) ?_
      rw [Frame.frees_but]
      rintro rfl
      exact h.names _ hn (by decide)

/-- A member that was written is signed. -/
theorem TameClass.member (hn : n ∈ N) : ∃ x o q, t.classMember? (.defined r) n = some x ∧ t.Tame r x o q ∧
    (t.attr? (.ref r) n = s.attr? (.ref r) n → q = first (.str n)) ∧
    (t.attr? (.ref r) n ≠ s.attr? (.ref r) n → q.isSome) := by
  by_cases hsame : t.attr? (.ref r) n = s.attr? (.ref r) n
  · obtain ⟨x,o,hx,hx'⟩ := h.members n hn
    exact ⟨x,o,_,by rw [h.classMember?_recast ht hn hsame,hx],hx'.keep ht.apart,fun _ => rfl,fun h => absurd hsame h⟩
  · obtain ⟨x,hx,hsigning⟩ := (ht.written n hn).resolve_left hsame
    obtain ⟨o,sig,hx'⟩ := hsigning.tame
    exact ⟨x,o,_,(h.branch_recast ht (n := n) (by simp [hn])).classMember?_own hx,hx',fun h => absurd h hsame,fun _ => rfl⟩

end tamed

theorem TameClass.evolves (h : s.TameClass r H N first) : s.Evolves (Recast (Signing r) r N) := by
  obtain ⟨o,ho,htable,-⟩ := (h.branch "__getattr__" (by simp)).own
  refine evolves_recast stable_signing ⟨o,ho,htable⟩ fun hN => ?_
  exact h.names _ hN (by decide)

end Store

namespace Wrapper
open Store
variable {m : Machine} {r : Ref} {H : Ref → Prop} {N : List String} {first : Value → Option Value} {n : String} {j : Nat}
  {s t z : Store} {x p w k : Value} {o q : Option Value} {c : BuiltinClass}

/-- A class wrapper binds as its class says if what it wraps has no attribute by that name. -/
theorem ownBinder_made (h : Made m s .classWrapper p k w t) (hp : Leaves (s.Grows ·) (copiedTitles m p titles))
    (hfree : ∀ u taken v, s.Grows u → takenTable m p u = .ok taken v → taken.get? "__get__" = none) :
    t.ownBinder w = false := by
  obtain ⟨u,v,hu,hmake,ht⟩ := h
  obtain ⟨_,u',taken,v',hcopied,htaken,hattr⟩ := attr?_of_make (n := "__get__") (Or.inl rfl) (by decide) hmake
  rw [hfree u' taken v' (hu.trans (hp.ok hu hcopied)) htaken] at hattr
  rw [(wraps_of_make (Or.inl rfl) hmake).ownBinder_keep (Keeps.of_grows ht)]
  exact hattr

/-- A tame member is read as something tame. -/
theorem leads_read (h : s.TameClass r H N first) (ht : s.Recast (Signing r) r N t) (hn : n ∈ N)
    (hx : t.classMember? (.defined r) n = some x) (hx' : t.Tame r x o q) :
    ((Machine.ofLevel (j+1)).read (.ref r) n).Leads (fun v u => t.Grows u ∧ ∃ q', u.Tame r v q q') (t.Grows ·) t := by
  have hbranch := h.branch_recast ht (n := n) (by simp [hn])
  have hnone : t.override? (t.classOf (.ref r)) "__getattr__" = none :=
    (h.branch_recast ht (n := "__getattr__") (by simp)).rules _ (by simp)
  obtain ⟨a,ha,-⟩ := hbranch.own
  refine leads_congr (read_unanswered hbranch (h.names n hn) hx hnone (Machine.ofLevel j)) ?_
  exact leads_bind (by simp) (j+1) t x o q .absent (by simp [ha]) hx'

/-- What is wrapped in place of a tame member is tame. -/
theorem tame_chosen (h : s.TameClass r H N first) (ht : s.Recast (Signing r) r N t) (hn : n ∈ N)
    (hx : t.classMember? (.defined r) n = some x) (hx' : t.Tame r x o q) (hz : t.Grows z)
    (hp : Chosen (Machine.ofLevel (j+1)) (.ref r) n t x c p z) : ∃ o' q', z.Tame r p o' q' := by
  rcases hp.inner_or with rfl | ⟨-,-,u,v,hu,hv,hvz⟩
  · obtain ⟨o',q',hin⟩ := hx'.inner
    exact ⟨o',q',hin.grows hz⟩
  · have hru := h.evolves.lasting t u ht hu
    have hxu : u.classMember? (.defined r) n = some x := by
      rw [(h.branch_recast ht (n := n) (by simp [hn])).lined.classMember?_grows hu fun heq =>
        h.names n hn (by rw [heq]; decide),hx]
    obtain ⟨-,q',hq⟩ := (leads_read h hru hn hxu (hx'.grows hu)).1 p v hv
    exact ⟨_,q',hq.grows hvz⟩

/-- A class wrapper in place of a tame class method or class wrapper has no way of binding of its own. -/
theorem ownBinder_chosen (hx : t.Tame r x o q) (hp : Chosen (Machine.ofLevel j) y n t x .classWrapper p z)
    (hw : Made (Machine.ofLevel j) t .classWrapper p k w z) : z.ownBinder w = false := by
  have hin : ∃ o' q', t.Tame r p o' q' := by
    cases hp with
    | ofClass hb =>
      have hin := hx.inner
      rwa [Store.inner,hb] at hin
    | classed _ _ _ => exact ⟨o,q,hx⟩
  have hbare : t.Bare r p := by
    cases hp with
    | ofClass hb => exact hx.bare hb
    | classed _ hy hk =>
      obtain ⟨y,a,hw,hown⟩ := hx.wraps_of_isKind hy hk
      exact bare_own hw.classOf (by simp [Frame.callables]) hw.body? (by simp) hw.owns hown
  obtain ⟨o',q',hin⟩ := hin
  refine ownBinder_made hw (yields_legible hin.legible j).titles fun u taken v hu htaken => ?_
  rw [takenTable_shown (hin.legible.shows u hu)] at htaken
  obtain ⟨rfl,-⟩ : u.tableOf p = taken ∧ u = v := by simpa using htaken
  exact hbare u (.of_grows hu)

end Wrapper

namespace Attachment
open Store Wrapper
variable {r : Ref} {H : Ref → Prop} {N : List String} {first : Value → Option Value} {n : String} {j : Nat}
  {s t u z : Store} {x y p w k sig : Value} {c : BuiltinClass}

/-- What holds of the members as long as only tame members are written. -/
theorem askable_tame {o q : Option Value} (hx : t.Tame r x o q) : Askable (Machine.ofLevel j) t x where
  yields := by
    obtain ⟨o',q',hin⟩ := hx.inner
    exact yields_legible hin.legible j
  kind u hu := by
    obtain ⟨d,hd⟩ := (hx.grows hu).isKind (b := .classWrapper) (by simp)
    rw [after_ok (hd _)]
    exact Keeps.refl _ u
  later u hu := by
    obtain ⟨d,hd⟩ := (hx.grows hu).bindsLater
    rw [after_ok (hd _)]
    exact Keeps.refl _ u

theorem rebinds_tame {o q : Option Value} (hw : t.Tame r w o q) (hr : (t.get? r).isSome)
    (hc : c = .wrapper ∨ c = .classWrapper) (hwraps : t.Wraps c w p k) :
    Rebinds (t.Grows ·) (Machine.ofLevel j) c p (.ref r) := by
  obtain ⟨o',q',hp⟩ := hw.proceed (mem_wrapperClasses hc) hwraps
  have bound {u : Store} (hu : t.Grows u) : (boundOfClass (Machine.ofLevel j) p .absent (.ref r)).Leads
      (fun v z => u.Grows z ∧ ∃ o' q', z.Tame r v o' q') (u.Grows ·) u := by
    refine leads_boundOfClass (fun l _ => leads_bind (by simp) l) ?_ (hp.grows hu) .absent
    obtain ⟨a,ha⟩ := Option.isSome_iff_exists.mp hr
    obtain ⟨b,hb,-⟩ := hu.kept r a ha trivial
    simp [hb]
  refine ⟨fun _ u hu => ?_,fun _ => yields_legible hp.legible j,fun _ u hu => ?_,fun _ u v z hu hv => ?_⟩
  · obtain ⟨d,hd,-⟩ := (hp.grows hu).bindsProceed
    rw [after_ok (hd _)]
    exact Keeps.refl _ u
  · exact (bound hu).after fun v z hz => hz.1
  · obtain ⟨-,o',q',hv⟩ := (bound hu).1 v z hv
    exact yields_legible hv.legible j

/-- A wrapper of a tame value with a check, or a static method of one, is what may be written. -/
theorem signing_written {o q : Option Value} (hp : z.Tame r p o q) (hc : c = .wrapper ∨ c = .classWrapper)
    (hw : z.Wraps c w p k) (hown : c = .classWrapper → z.ownBinder w = false) (hk : z.Enforces k sig)
    (hy : y = w ∨ z.IsStatic y w) : z.Signing r y :=
  ⟨w,sig,hy,.wrapper (mem_wrapperClasses hc) hw hown (.check hk) hp⟩

section tamed
variable (h : s.TameClass r H N first)
include h

theorem stored_tameClass (ht : s.Recast (Signing r) r N t) (hn : n ∈ N) (hx : storedMember t (.defined r) n = some x) :
    t.classMember? (.defined r) n = some x ∧ ∃ o q, t.Tame r x o q := by
  obtain ⟨y,o,q,hy,hy',-⟩ := h.member ht hn
  obtain rfl : y = x := by simpa [storedMember,hy] using hx
  exact ⟨hy,o,q,hy'⟩

theorem takes_tameClass (ht : s.Recast (Signing r) r N t) (hn : n ∈ N) (hx : storedMember t (.defined r) n = some x)
    (hz : t.Grows z) (hp : Chosen (Machine.ofLevel (j+1)) (.ref r) n t x c p z)
    (hw : Made (Machine.ofLevel (j+1)) t c p k w z) (hk : z.Enforces k sig) (hy : y = w ∨ z.IsStatic y w)
    (hwrote : z.Wrote r n y u) : z.Recast (Signing r) r N u := by
  have hRz := h.evolves.lasting t z ht hz
  have hbranch := h.branch_recast hRz (n := n) (by simp [hn])
  obtain ⟨hx,o,q,hx'⟩ := stored_tameClass h ht hn hx
  obtain ⟨o',q',hp'⟩ := tame_chosen h ht hn hx hx' hz hp
  have hlayers := hbranch.wrote_layers hwrote
  have hown : c = .classWrapper → z.ownBinder w = false := by
    rintro rfl
    exact ownBinder_chosen hx' hp hw
  have hsigning := signing_written hp' hp.cls hw.wraps hown hk hy
  obtain ⟨a,ha,htable,-⟩ := hbranch.own
  refine hwrote.recast hlayers ⟨a,ha,htable⟩ (fun hN => h.names _ hN (by decide)) hn ?_
  exact stable_signing z u y hsigning ⟨hwrote.others,hlayers⟩

/-- A class whose members are tame takes wrappers of them. -/
theorem receptive_tameClass : Receptive (Recast (Signing r) r N) (Machine.ofLevel j) r H N s where
  evolves := h.evolves
  own t ht := by
    obtain ⟨a,ha,htable,-⟩ := (h.branch_recast ht (n := "__getattr__") (by simp)).own
    exact ⟨a,ha,htable⟩
  branch t ht n hn := h.branch_recast ht (by simp [hn])
  names := h.names
  fallback t ht := (h.branch_recast ht (n := "__getattr__") (by simp)).rules _ (by simp)
  reads n hn t ht := by
    obtain ⟨x,o,q,hx,hx',-⟩ := h.member ht hn
    exact (leads_read (j := j+1) h ht hn hx hx').after fun v u hu => hu.1
  told t n v u ht hn hv := by
    obtain ⟨x,o,q,hx,hx',-⟩ := h.member ht hn
    obtain ⟨-,q',hv⟩ := (leads_read (j := j+1) h ht hn hx hx').1 v u hv
    exact yields_legible hv.legible (j+2)
  askable t n x ht hn _ hx := by
    obtain ⟨-,o,q,hx⟩ := stored_tameClass h ht hn hx
    exact askable_tame (j := j+2) hx
  binds t n w c p k ht hn hw hc hwraps := by
    have hbranch := h.branch_recast ht (n := n) (by simp [hn])
    obtain ⟨x,o,q,hx,hx',-⟩ := h.member ht hn
    obtain rfl : x = w := Option.some.inj (hx.symm.trans (hbranch.classMember?_own hw))
    obtain ⟨a,ha,-⟩ := hbranch.own
    exact rebinds_tame (j := j+1) hx' (by simp [ha]) hc hwraps
  takes t z u n x y w c p k sig ht hn hx hz hp hw hk hy hwrote := takes_tameClass (j := j+1) h ht hn hx hz hp hw hk hy hwrote

/-- A member is read as signed with the signature that is listed for it, until it is written. -/
theorem topped_tameClass (ht : s.Recast (Signing r) r N t) (hn : n ∈ N) (hsame : t.attr? (.ref r) n = s.attr? (.ref r) n)
    (hv : (Machine.ofLevel (j+1)).read (.ref r) n t = .ok x u) (m : Machine) :
    u.Topped (Recast (Signing r) r N) m x (first (.str n)) := by
  obtain ⟨y,o,q,hy,hy',hfirst,-⟩ := h.member ht hn
  obtain rfl := hfirst hsame
  obtain ⟨-,q',hx⟩ := (leads_read h ht hn hy hy').1 x u hv
  intro z sig b z' hz hb
  rw [(hx.keep hz.apart).isSignedWith] at hb
  cases hb
  rfl

end tamed

end Attachment
end CallContracts
