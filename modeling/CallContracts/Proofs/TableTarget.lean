import CallContracts.Proofs.Targets
/-! Plain tables bear signatures.  A member stands at its place in the table, and the wrapper that is written for it
stays there until another one is. -/
namespace CallContracts
open Act

namespace Store
variable {s t u : Store} {d : Ref} {es : List (Value × Value)} {w : Value}

/-- A wrapper that checks a signature. -/
def Checking (s : Store) (w : Value) : Prop := ∃ p k sig, s.Wraps .wrapper w p k ∧ s.Enforces k sig

theorem Checking.keep (h : s.Checking w) (ht : s.Keeps .layers t) : t.Checking w := by
  obtain ⟨p,k,sig,hw,hk⟩ := h
  exact ⟨p,k,sig,hw.keep_callables (by decide) ht.callables,hk.keep ht⟩

/-- A table is no wrapper and no check. -/
theorem IsTable.layers (h : s.IsTable d es) (ht : s.Keeps (.but d) t) : s.Keeps .layers t := by
  refine ⟨ht.size,fun r o ho hr => ?_,ht.globals,fun hF => by cases hF⟩
  have hne : r ≠ d := by
    rintro rfl
    have hcls : o.cls = .builtin .dict := (classOf_of_get? ho).symm.trans h.cls
    simp [Frame.layers,Frame.callables,hcls] at hr
  obtain ⟨p,hp,hk⟩ := ht.kept r o ho hne
  exact ⟨p,hp,Obj.Keeps.mono (F := .but d) (fun _ hn => by cases hn) hk⟩

/-- A later store, in which a table may hold wrappers that check signatures in place of what it held. -/
structure Rewraps (d : Ref) (es : List (Value × Value)) (s t : Store) : Prop where
  others : s.Keeps (.but d) t
  table : ∃ fs, t.IsTable d fs ∧ fs.map Prod.fst = es.map Prod.fst ∧
    ∀ (i : Nat) (e : Value × Value), fs[i]? = some e → es[i]? = some e ∨ t.Checking e.2

theorem Rewraps.refl (h : s.IsTable d es) : s.Rewraps d es s :=
  ⟨Keeps.refl _ s,es,h,rfl,fun _ _ he => Or.inl he⟩

theorem Rewraps.grows (h : s.Rewraps d es t) (hg : t.Grows u) : s.Rewraps d es u := by
  obtain ⟨fs,hfs,hkeys,hvalues⟩ := h.table
  exact ⟨h.others.trans (Keeps.of_grows hg),fs,hfs.grows hg,hkeys,
    fun i e he => (hvalues i e he).imp_right fun hw => hw.keep (Keeps.of_grows hg)⟩

theorem Rewraps.refills (h : s.Rewraps d es t) : s.Refills d (es.map Prod.fst) t := by
  obtain ⟨fs,hfs,hkeys,-⟩ := h.table
  exact ⟨h.others,fs,hfs,hkeys⟩

/-- One store comes later than another one, with such wrappers in the table in both. -/
structure Rewritten (s : Store) (d : Ref) (es : List (Value × Value)) (t u : Store) : Prop where
  before : s.Rewraps d es t
  after : s.Rewraps d es u
  others : t.Keeps (.but d) u

theorem Rewraps.rewritten (h : s.Rewraps d es t) (hs : s.IsTable d es) : s.Rewritten d es s t :=
  ⟨.refl hs,h,h.others⟩

theorem IsTable.evolves (h : s.IsTable d es) : s.Evolves (s.Rewritten d es) := by
  refine ⟨(Rewraps.refl h).rewritten h,?_,?_,?_⟩
  · exact fun t u ht hg => ⟨ht.after,ht.after.grows hg,Keeps.of_grows hg⟩
  · exact fun t u v _ hu hv => ⟨hu.before,hv.after,hu.others.trans hv.others⟩
  · intro t u ht hu
    obtain ⟨fs,hfs,-⟩ := ht.after.table
    exact hfs.layers hu.others

end Store

namespace Attachment
variable {M m : Machine} {same : Value → Value → Bool} {d : Ref} {es fs : List (Value × Value)}
  {names : Value → Prop} {s t u : Store} {n i v w : Value}

/-- Members of a table are held at their places. -/
def tableSite (same : Value → Value → Bool) (es : List (Value × Value)) (n : Value) : Option Value :=
  (Table.place? same n (es.map Prod.fst)).map fun i : Nat => .int i

/-- What a table holds at a place. -/
def tableHeld (d : Ref) (s : Store) : Value → Option Value
  | .int (.ofNat i) => match s.body? (.ref d) with
    | some (.table es) => es[i]?.map Prod.snd
    | _ => none
  | _ => none

theorem tableHeld_int (h : s.IsTable d es) (i : Nat) : tableHeld d s (.int i) = es[i]?.map Prod.snd := by
  change tableHeld d s (.int (.ofNat i)) = _
  rw [tableHeld,h.body]

/-- What is held at a place stands in the table. -/
theorem tableHeld_eq_some (h : s.IsTable d es) : tableHeld d s i = some w ↔
    ∃ j : Nat, i = .int j ∧ es[j]?.map Prod.snd = some w := by
  constructor
  · intro hi
    match i, hi with
    | .int (.ofNat j), hi => exact ⟨j,rfl,(tableHeld_int h j).symm.trans hi⟩
  · rintro ⟨j,rfl,hj⟩
    rwa [tableHeld_int h]

/-- A plain table whose keys can be looked for; what it holds can be wrapped, and is not signed. -/
structure Tabled (m : Machine) (same : Value → Value → Bool) (d : Ref) (es : List (Value × Value))
    (names : Value → Prop) (s : Store) : Prop where
  table : s.IsTable d es
  files : ∀ n, names n → Table.Files (s.Rewraps d es) m same (es.map Prod.fst) n
  told : ∀ e ∈ es, Wrapper.Yielding (s.Rewraps d es) m e.2
  clear : ∀ e ∈ es, s.Clear (s.Rewritten d es) m e.2

section tabled
variable (h : Tabled M.next.next same d es names s) (ht : s.Rewraps d es t) (hn : names n)
include h ht hn

/-- A member that is read is the one at the place of its name. -/
theorem item_tabled (hv : Item.get M.next.next (.ref d) n t = .ok v u) :
    ∃ j : Nat, tableSite same es n = some (.int j) ∧ tableHeld d t (.int j) = some v ∧ t.Grows u := by
  obtain ⟨fs,hfs,hkeys,-⟩ := ht.table
  have hW : ∀ u, t.Grows u → s.Rewraps d es u := fun u hg => ht.grows hg
  have hfound := Table.found?_eq same n fs
  rw [hkeys] at hfound
  cases he : Table.found? same n fs with
  | none =>
    obtain ⟨z,-,hz⟩ := Table.item_missing hW (h.files n hn) hfs hkeys he
    rw [hz] at hv
    cases hv
  | some e =>
    obtain ⟨z,hz,hg⟩ := Table.gives_item hW (h.files n hn) hfs hkeys he
    obtain ⟨rfl,rfl⟩ : e.2 = v ∧ z = u := by simpa [hz] using hv
    rw [he] at hfound
    obtain ⟨j,hj,hjv⟩ := Option.bind_eq_some_iff.mp hfound.symm
    exact ⟨j,by rw [tableSite,hj]; rfl,by rw [tableHeld_int hfs,hjv]; rfl,hg⟩

theorem leaves_item : t.Grows (after (Item.get M.next.next (.ref d) n) t) := by
  obtain ⟨fs,hfs,hkeys,-⟩ := ht.table
  have hW : ∀ u, t.Grows u → s.Rewraps d es u := fun u hg => ht.grows hg
  cases he : Table.found? same n fs with
  | none =>
    obtain ⟨z,hg,hz⟩ := Table.item_missing hW (h.files n hn) hfs hkeys he
    rwa [after_error hz]
  | some e =>
    obtain ⟨z,hz,hg⟩ := Table.gives_item hW (h.files n hn) hfs hkeys he
    rwa [after_ok hz]

/-- A wrapper is written to the place of a name. -/
theorem put_tabled (hi : tableSite same es n = some i) (hw : t.Checking w) :
    ∃ u, Item.put M.next.next (.ref d) n w t = .ok () u ∧ s.Rewritten d es t u ∧ tableHeld d u i = some w ∧
      ∀ j, j ≠ i → tableHeld d u j = tableHeld d t j := by
  obtain ⟨fs,hfs,hkeys,hvalues⟩ := ht.table
  obtain ⟨j,hj,rfl⟩ := Option.map_eq_some_iff.mp hi
  have hplace : Table.place? same n (fs.map Prod.fst) = some j := by rwa [hkeys]
  obtain ⟨u,hu,hothers,hfs'⟩ := Table.put_table (w := w) (fun u hg => ht.grows hg) (h.files n hn) hfs hkeys
  have hlayers := hfs.layers hothers
  have hget := Table.getElem?_refilled (w := w) hplace
  have hlt : j < fs.length := by simpa using (List.findIdx?_eq_some_iff_getElem.mp hplace).1
  have he : fs[j]? = some fs[j] := List.getElem?_eq_getElem hlt
  have hfound : (Table.found? same n fs).isSome := by
    rw [Table.found?_eq,hplace]
    simp [he]
  refine ⟨u,hu,⟨ht,⟨ht.others.trans hothers,_,hfs',(Table.keys_refilled hfound).trans hkeys,?_⟩,hothers⟩,?_,?_⟩
  · intro k e' he'
    rw [hget] at he'
    by_cases hk : k = j
    · subst hk
      obtain rfl : (fs[k].1,w) = e' := by simpa [he] using he'
      exact Or.inr (hw.keep hlayers)
    · exact (hvalues k e' (by simpa [hk] using he')).imp_right fun h => h.keep hlayers
  · rw [tableHeld_int hfs',hget]
    simp [he]
  · intro x hx
    refine Option.ext fun y => ?_
    rw [tableHeld_eq_some hfs',tableHeld_eq_some hfs]
    refine exists_congr fun k => and_congr_right ?_
    rintro rfl
    have hk : k ≠ j := by
      rintro rfl
      exact hx rfl
    simp [hget,hk]

end tabled

/-- What a plain table holds is what it held at first, or a wrapper. -/
theorem held_tabled (ht : s.Rewraps d es t) (hi : tableHeld d t i = some v) :
    (∃ e ∈ es, e.2 = v) ∨ t.Checking v := by
  obtain ⟨fs,hfs,-,hvalues⟩ := ht.table
  obtain ⟨j,-,hj⟩ := (tableHeld_eq_some hfs).mp hi
  obtain ⟨e,he,rfl⟩ := Option.map_eq_some_iff.mp hj
  exact (hvalues j e he).imp_left fun h => ⟨e,List.mem_of_getElem? h,rfl⟩

theorem Tabled.yields (h : Tabled M.next.next same d es names s) (ht : s.Rewraps d es t)
    (hi : tableHeld d t i = some v) : Wrapper.Yielding (t.Grows ·) M.next.next v := by
  rcases held_tabled ht hi with ⟨e,he,rfl⟩ | ⟨p,k,sig,hw,-⟩
  · exact (h.told e he).mono fun u hg => ht.grows hg
  · exact (Wrapper.told_wrapper (by simp) hw M).yielding fun _ _ ha hb => ha.trans hb

/-- Plain tables give back the wrappers that they hold. -/
theorem Tabled.direct (h : Tabled M.next.next same d es names s) :
    Direct (s.Rewritten d es) M.next.next (.ref d) true names (tableSite same es) (tableHeld d) s := by
  refine ⟨h.table.evolves,?_,?_,fun hf => (by cases hf),?_,?_,?_,?_,?_⟩
  · intro t u ht hg
    obtain ⟨fs,hfs,-⟩ := ht.after.table
    funext i
    refine Option.ext fun y => ?_
    rw [tableHeld_eq_some (hfs.grows hg),tableHeld_eq_some hfs]
  · intro t ht
    obtain ⟨fs,hfs,-⟩ := ht.after.table
    exact gives_of_eq (isMapping_table hfs)
  · exact fun n hn t ht => leaves_item h ht.after hn
  · intro t n v u ht hn hv
    obtain ⟨j,hj,-⟩ := item_tabled h ht.after hn hv
    exact ⟨_,hj⟩
  · intro t n i w v u ht hn hi hw _ hv
    obtain ⟨j,hj,hheld,-⟩ := item_tabled h ht.after hn hv
    obtain rfl : i = .int j := Option.some.inj (hi.symm.trans hj)
    exact Option.some.inj (hheld.symm.trans hw)
  · intro t n v u ht hn hv
    obtain ⟨j,-,hheld,hg⟩ := item_tabled h ht.after hn hv
    exact (h.yields ht.after hheld).mono fun z hz => hg.trans hz
  · intro t n i w p k sig ht hn hi hw hk
    obtain ⟨u,hu,hlater,hheld,hothers⟩ := put_tabled h ht.after hn hi ⟨p,k,sig,hw,hk⟩
    refine ⟨fun _ z hz => ?_,fun e z hz => ?_⟩
    · obtain rfl : u = z := by simpa [hu] using (hu.symm.trans hz)
      exact ⟨hlater,hheld,hothers⟩
    · cases hu.symm.trans hz

theorem Tabled.unsigned (h : Tabled M.next.next same d es names s) :
    Unsigned (s.Rewritten d es) M.next.next (.ref d) true names (tableSite same es) (tableHeld d) s := by
  have first (i w : Value) (hi : tableHeld d s i = some w) : ∃ e ∈ es, e.2 = w := by
    obtain ⟨j,-,hj⟩ := (tableHeld_eq_some h.table).mp hi
    obtain ⟨e,he,rfl⟩ := Option.map_eq_some_iff.mp hj
    exact ⟨e,List.mem_of_getElem? he,rfl⟩
  refine ⟨fun i w hi => ?_,fun t n i v u ht hn hi hfirst hv => ?_⟩
  · obtain ⟨e,he,rfl⟩ := first i w hi
    exact h.clear e he
  · obtain ⟨j,hj,hheld,hg⟩ := item_tabled h ht.after hn hv
    obtain rfl : i = .int j := Option.some.inj (hi.symm.trans hj)
    obtain ⟨e,he,rfl⟩ := first _ v (hfirst.symm.trans hheld)
    have hR := h.table.evolves
    exact (h.clear e he).later hR hR.start (hR.lasting t u ht hg)

/-- Functions are not signed. -/
theorem isSignedWith_function {f : Function} (hw : t.IsFunction w f) (x : Value) :
    Signature.isSignedWith m w x t = .ok false t := by
  have hk : isKind m w .wrapper t = .ok false t := isKind_builtin hw.cls (by decide)
  rw [Signature.isSignedWith,Signature.isSigned,bind_apply,bind_ok hk]
  rfl

theorem clear_function {R : Store → Store → Prop} {f : Function} (hw : ∀ t, R s t → t.IsFunction w f) :
    s.Clear R m w := by
  refine ⟨fun t x b u ht hb => ?_,fun t ht => .bottom fun c hc => ?_⟩
  · rw [isSignedWith_function (hw t ht)] at hb
    obtain ⟨rfl,-⟩ : false = b ∧ t = u := by simpa using hb
    simp
  · rw [(hw t ht).cls]
    simp only [wrapperClasses,List.mem_cons,List.not_mem_nil,or_false] at hc
    rcases hc with rfl | rfl | rfl <;> decide

/-- What a signature is attached to for an entry of a map: a callable, about which no more is asked than whether it
is signed. -/
theorem seen_signature {W : Store → Prop} {p : Value × Value} (hsig : Always W (isSignature m p.2) true)
    (hcall : ∀ t, W t → t.isCallable v = true) (hsigned : Leaves W (Signature.isSignedWith m v p.2)) :
    Signature.Seen W m p v := by
  refine ⟨hsigned,fun hcalled => ?_⟩
  cases hcalled with
  | data ht hc => simp [hcall _ ht] at hc
  | asked _ _ hb => cases hsig.eq hb

/-- A signature that was built, for members of a plain table that are callable. -/
structure SignatureEntry (A : Answers) (M : Machine) (s : Store) (d : Ref) (es : List (Value × Value))
    (p : Value × Value) : Prop where
  entry : A.AboutEntry p (s.Rewraps d es) M.next.next (es.map Prod.fst)
  contract : A.isContract p.2
  signature : A.isSignature p.2
  built : Built (s.Rewraps d es) M.next s p.2
  callable : ∀ e ∈ es, ∀ t, s.Rewraps d es t → t.isCallable e.2 = true
  signed : ∀ e ∈ es, Leaves (s.Rewraps d es) (Signature.isSignedWith M.next.next e.2 p.2)

section entry
variable {A : Answers} {p : Value × Value} (h : Tabled M.next.next A.same d es names s) (hp : SignatureEntry A M s d es p)
include h hp

omit h in
/-- A member is seen in all later stores, whatever was written to the table. -/
theorem seen_tabled (ht : s.Rewraps d es t) (hv : tableHeld d t i = some v) (hR : s.Evolves (s.Rewritten d es)) :
    Signature.Seen (s.Rewritten d es t) M.next.next p v := by
  have hsig : Always (s.Rewritten d es t) (isSignature M.next.next p.2) true := fun u hu => by
    have := hp.entry.signature u hu.after
    rwa [hp.signature] at this
  rcases held_tabled ht hv with ⟨e,he,rfl⟩ | ⟨q,k,x,hw,hk⟩
  · exact seen_signature hsig (fun u hu => hp.callable e he u hu.after)
      ((hp.signed e he).mono fun u hu => hu.after)
  · have hlater : s.Rewritten d es s t := ⟨(hR.start).before,ht,ht.others⟩
    have kept {u : Store} (hu : s.Rewritten d es t u) : u.Wraps .wrapper v q k ∧ u.Enforces k x :=
      ⟨hw.keep_callables (by decide) (hR.layers t u hlater hu).callables,hk.keep (hR.layers t u hlater hu)⟩
    refine seen_signature hsig (fun u hu => ?_) fun u hu => ?_
    · rw [Store.isCallable_builtin (kept hu).1.classOf]
      decide
    · rw [after_ok (isSignedWith_wrapper (by decide) (kept hu).1 (kept hu).2)]
      exact Store.Keeps.refl _ u

/-- The member that an entry names, as it is read. -/
theorem seen_member (ht : s.Rewritten d es s t) (hn : names p.1)
    (hv : Signature.memberOf M.next.next (.ref d) p.1 t = .ok v u) :
    t.Grows u ∧ Signature.Seen (s.Rewritten d es u) M.next.next p v := by
  obtain ⟨fs,hfs,-⟩ := ht.after.table
  rw [memberOf_eq,bind_ok (isMapping_table hfs)] at hv
  obtain ⟨j,-,hheld,hg⟩ := item_tabled h ht.after hn hv
  refine ⟨hg,seen_tabled (i := .int j) hp (ht.after.grows hg) ?_ h.table.evolves⟩
  rwa [h.direct.stays t u ht hg]

/-- All that is asked about such an entry changes nothing. -/
theorem harmless_tabled (hn : names p.1) :
    Signature.Harmless (s.Rewritten d es s) M.next.next (.ref d) p := by
  have always {α : Type} {x : Act α} {a : α} (hx : Always (s.Rewraps d es) x a) : Leaves (s.Rewritten d es s) x :=
    hx.leaves.mono fun t ht => ht.after
  have calm {α : Type} {x : Act α} (hx : AlwaysCalm (s.Rewraps d es) x) : Leaves (s.Rewritten d es s) x :=
    hx.leaves.mono fun t ht => ht.after
  obtain ⟨hdesc,hform,hwrite⟩ := hp.entry.described hp.contract
  have hmember : Leaves (s.Rewritten d es s) (Signature.memberOf M.next.next (.ref d) p.1) := fun t ht => by
    obtain ⟨fs,hfs,-⟩ := ht.after.table
    have hread : after (Signature.memberOf M.next.next (.ref d) p.1) t
        = after (Item.get M.next.next (.ref d) p.1) t := by
      simp only [after,memberOf_eq,bind_ok (isMapping_table hfs)]
      rfl
    rw [hread]
    exact leaves_item h ht.after hn
  refine ⟨always hp.entry.contract,fun hno => ?_,⟨⟨calm hp.entry.named.1,calm hp.entry.named.2⟩,always hdesc,?_⟩,?_,
    hmember,always hp.entry.signature,?_,?_⟩
  · obtain ⟨t,u,ht,hu⟩ := hno
    have := hp.entry.contract.eq ⟨t,u,ht.after,hu⟩
    rw [hp.contract] at this
    cases this
  · rintro x ⟨t,u,ht,hu⟩
    obtain rfl := hdesc.eq ⟨t,u,ht.after,hu⟩
    exact ⟨calm hform,calm hwrite⟩
  · intro t ht
    obtain ⟨fs,hfs,hkeys,-⟩ := ht.after.table
    obtain ⟨u,hu,hg⟩ := gives_hasMember (A := A) (fun u hu => ht.after.grows hu) hp.entry hfs hkeys
    rwa [after_ok hu]
  · intro t v u ht hv
    obtain ⟨hg,hseen⟩ := seen_member h hp ht hn hv
    have hR := h.table.evolves
    exact hseen.mono fun z hz => hR.grows u z (hR.lasting t u ht hg) hz
  · intro t ht
    obtain ⟨cs,parts,hsig,hcs⟩ := hp.built
    obtain ⟨k,u,hu,hg,-⟩ := Signature.quiet_check (n := p.1) (fun u hu => ht.after.grows hu)
      (isSignature_refills h.table ht.after.refills hsig) hcs
    rwa [after_ok hu]

/-- So it makes no other steps than those that are made between the members that are written. -/
theorem regarded_tabled {E : Store → Store → Prop} (hE : Steps (s.Rewritten d es s) E)
    (hwithin : ∀ t u, s.Rewritten d es s t → E t u → s.Rewritten d es t u) (hn : names p.1) :
    Signature.Regarded E (s.Rewritten d es s) M.next.next (.ref d) p := by
  refine (harmless_tabled h hp hn).within hE fun t v u ht hv => ?_
  obtain ⟨hg,hseen⟩ := seen_member h hp ht hn hv
  exact hseen.mono fun z hz => hwithin u z (h.table.evolves.lasting t u ht hg) hz

/-- The member of such an entry is called. -/
theorem calls_tabled (hn : names p.1) : Calls (s.Rewritten d es s) M.next.next (.ref d) p true := by
  intro t v u c z ht hv hc
  obtain ⟨fs,hfs,-⟩ := ht.after.table
  rw [memberOf_eq,bind_ok (isMapping_table hfs)] at hv
  obtain ⟨j,-,hheld,hg⟩ := item_tabled h ht.after hn hv
  have hu := ht.after.grows hg
  have hcall : u.isCallable v = true := by
    rcases held_tabled ht.after hheld with ⟨e,he,rfl⟩ | ⟨q,k,x,hw,-⟩
    · exact hp.callable e he u hu
    · rw [Store.isCallable_builtin (hw.grows hg).classOf]
      decide
  rw [hcall] at hc
  exact (hp.entry.signature.eq ⟨u,z,hu,hc⟩).trans hp.signature

end entry
end Attachment
end CallContracts
