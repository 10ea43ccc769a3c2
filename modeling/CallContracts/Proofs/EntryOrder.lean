import CallContracts.Proofs.Leaving
/-! The order of the entries of a map of signatures.  Every entry is looked at before the first wrapper is made, so
contracts that look at other members of the table see it as it was, in whatever order they are asked; and each member
is wrapped in its own slot.  Two maps with the same entries therefore fail together, and leave the table alone, or
attach the same signatures to the same members. -/
namespace CallContracts
open Act

namespace Attachment
variable {A : Answers} {M m : Machine} {W : Store → Prop} {s t t' : Store} {d : Ref}
  {es map map' : List (Value × Value)} {p : Value × Value} {signatures signatures' : Value}

/-- What is asked about an entry while the map is gone over has an answer; what goes into a complaint may fail to
show itself, as long as it leaves things alone. -/
structure Answers.Examined (A : Answers) (es : List (Value × Value)) (W : Store → Prop) (m : Machine)
    (p : Value × Value) : Prop where
  files : Table.Files W m A.same (es.map Prod.fst) p.1
  contract : Always W (CallContracts.isContract m p.2) (A.isContract p.2)
  signature : Always W (CallContracts.isSignature m p.2) (A.isSignature p.2)
  named : AlwaysCalm W (formatted m p.1) ∧ AlwaysCalm W (written m p.1)
  shown : A.isContract p.2 = false → Leaves W (CallContracts.shown m p.2)
  described : A.isContract p.2 → Always W (Signature.descriptionOf m p.2) (A.description p.2) ∧
    AlwaysCalm W (formatted m (A.description p.2)) ∧ AlwaysCalm W (written m (A.description p.2))
  member : ∀ v, A.isContract p.2 → A.member? es p = some v → A.AskedMember p W m v ∧
    (A.isCall p v = false → A.mismatches p.2 v → Leaves W (shortText m v))

/-- With an entry that holds a contract nothing but its member is left to be shown. -/
theorem Answers.Examined.entry (h : A.Examined es W m p) (hc : A.isContract p.2) :
    A.AboutEntry p W m (es.map Prod.fst) :=
  ⟨h.files,h.contract,h.signature,h.named,fun hno => by simp [hc] at hno,h.described⟩

/-- What leaves things alone before a complaint does so whether the complaint is made or not. -/
theorem complains_after {α β : Type} {x : Act α} {f : α → Act β} (hx : t.Grows (after x t))
    (hf : ∀ a u, ∃ e, f a u = .error e u) : ∃ e u, (x >>= f) t = .error e u ∧ t.Grows u := by
  cases h : x t with
  | error e u =>
    rw [after_error h] at hx
    exact ⟨e,u,bind_error h,hx⟩
  | ok a u =>
    rw [after_ok h] at hx
    obtain ⟨e,he⟩ := hf a u
    exact ⟨e,u,(bind_ok h).trans he,hx⟩

section examined
variable (hW : ∀ u, t.Grows u → W u) (hp : A.Examined es W m p) (hd : t.IsTable d es)
include hW hp

/-- A member that does not fit its contract is complained about, if it can be shown. -/
theorem judge_complains {v : Value} (hc : A.isContract p.2)
    (hv : Always W (Signature.mismatches m p.2 v) (A.mismatches p.2 v)) (hwrong : A.mismatches p.2 v)
    (hshort : Leaves W (shortText m v)) : ∃ e u, judge m p v false t = .error e u ∧ t.Grows u := by
  obtain ⟨_,u,hu,hg⟩ := calm_logAgainst hW (hp.entry hc) "checking " " against " hc
  obtain ⟨w,hw,hg'⟩ := hv u (hW u hg)
  obtain ⟨hdesc,hform,-⟩ := hp.described hc
  have hgw := hg.trans hg'
  obtain ⟨y,hy,hgy⟩ := hdesc w (hW w hgw)
  obtain ⟨n,x,hx,hgx⟩ := hp.named.1 y (hW y (hgw.trans hgy))
  have hgrown := (hgw.trans hgy).trans hgx
  obtain ⟨z,a,ha,hga⟩ := hform x (hW x hgrown)
  obtain ⟨e,b,hb,hgb⟩ := complains_after (hshort a (hW a (hgrown.trans hga)))
    (f := fun text => (fail (.member ⟨p.1,A.description p.2,v,n,z,text⟩) : Act Unit)) fun text u => ⟨_,rfl⟩
  have hcheck : Signature.checkMember m p.2 p.1 v t = .error e b := by
    rw [Signature.checkMember,bind_ok hu,bind_ok hw,hwrong]
    simp only [if_true]
    rw [bind_ok hy]
    simp only [Signature.blame,bind_assoc,pure_bind]
    rw [bind_ok hx,bind_ok ha]
    exact hb
  refine ⟨e,b,?_,(hgrown.trans hga).trans hgb⟩
  simp only [judge,Bool.not_false,if_true]
  exact bind_error hcheck

include hd

/-- An entry that fails ends the attachment, and nothing has changed. -/
theorem examine_complains (hf : (A.fate es p).fails) :
    ∃ e u, Signature.examine m (.ref d) p.1 p.2 t = .error e u ∧ t.Grows u := by
  obtain ⟨u,hu,hg⟩ := hp.contract t (hW t (Store.Keeps.refl _ t))
  cases hc : A.isContract p.2 with
  | false =>
    obtain ⟨n,w,hw,hg'⟩ := hp.named.1 u (hW u hg)
    have hgw := hg.trans hg'
    obtain ⟨e,z,hz,hgz⟩ := complains_after (hp.shown hc w (hW w hgw))
      (f := fun x => (fail (.misconfigured (.entryNotContract n x)) : Act Bool)) fun x u => ⟨_,rfl⟩
    exact ⟨e,z,by rw [examine_noContract (hc ▸ hu),bind_ok hw,hz],hgw.trans hgz⟩
  | true =>
    cases hm : A.member? es p with
    | none =>
      obtain ⟨w,hw,hg'⟩ := gives_hasMember (fun z hz => hW z (hg.trans hz)) (hp.entry hc) (hd.grows hg) rfl
      obtain ⟨n,z,hz,hg''⟩ := hp.named.1 w (hW w (hg.trans hg'))
      rw [hm] at hw
      refine ⟨.raised (.misconfigured (.memberMissing n)),z,?_,(hg.trans hg').trans hg''⟩
      rw [examine_noMember (hc ▸ hu) hw,bind_ok hz]
      rfl
    | some v =>
      obtain ⟨hv,hshort⟩ := hp.member v hc hm
      obtain ⟨hcall,hwrong⟩ := Answers.wrong_of_fails hc hm hf
      obtain ⟨w,hw,he⟩ := examine_present hW (hp.entry hc) hd rfl hc hm hv.callable
      obtain ⟨e,z,hz,hg'⟩ := judge_complains (fun y hy => hW y (hw.trans hy)) hp hc (hv.matched hcall) hwrong
        (hshort hcall hwrong)
      exact ⟨e,z,by rw [he,hcall,hz],hw.trans hg'⟩

end examined

theorem Answers.Examined.settles (hp : A.Examined es W m p) (hW : ∀ t u, W t → t.Grows u → W u)
    (hd : ∀ t, W t → t.IsTable d es) : A.Settles es W m d (fun _ => True) p := by
  refine ⟨fun hf t ht => ?_,fun hf t ht => ?_⟩
  · by_cases hc : A.isContract p.2
    · exact examine_passes (fun u hu => hW t u ht hu) (hd t ht) (hp.entry hc) (fun v hv => (hp.member v hc hv).1) hf
    · simp [Answers.fate,hc,Fate.fails] at hf
  · obtain ⟨e,u,hu,hg⟩ := examine_complains (fun u hu => hW t u ht hu) hp (hd t ht) hf
    exact ⟨e,u,hu,hg,trivial⟩

/-- Entries that are to be attached to a plain table: what is asked while they are gone over has answers, none names
a member twice, and the members that are to be wrapped can be, whatever else was wrapped before. -/
structure Presentable (A : Answers) (M : Machine) (s : Store) (d : Ref) (es map : List (Value × Value)) : Prop where
  table : s.IsTable d es
  standard : s.HasStandard
  examined : ∀ p ∈ map, A.Examined es (s.Grows ·) M.next p
  once : NamedOnce A es map
  wrapped : ∀ p ∈ A.wrapped es map, A.About es p (s.Refills d (es.map Prod.fst)) M.next ∧
    Built (s.Refills d (es.map Prod.fst)) M s p.2

/-- A map that has these entries, in this order. -/
structure Presents (M : Machine) (s : Store) (signatures : Value) (map : List (Value × Value)) : Prop where
  isMap : Always (s.Grows ·) (Contract.signatureMap.outcome M.next signatures) .matched
  lists : Lists (s.Grows ·) M.next signatures map

theorem wrapped_perm (h : map.Perm map') : (A.wrapped es map).Perm (A.wrapped es map') := h.filter _

theorem namedOnce_perm (h : map.Perm map') (honce : NamedOnce A es map) : NamedOnce A es map' :=
  (h.pairwise_iff fun hpq i hq hp => hpq i hp hq).mp honce

theorem Presentable.perm (h : Presentable A M s d es map) (hperm : map.Perm map') : Presentable A M s d es map' :=
  ⟨h.table,h.standard,fun p hp => h.examined p (hperm.mem_iff.mpr hp),namedOnce_perm hperm h.once,
    fun p hp => h.wrapped p ((wrapped_perm hperm).mem_iff.mpr hp)⟩

/-- Attaching fails if an entry fails, and changes nothing then; otherwise every member that is to be wrapped is. -/
theorem attach_presented (h : Presentable A M s d es map) (hmap : Presents M s signatures map) :
    ((∀ p ∈ map, (A.fate es p).fails = false) ∧
      ∃ t, Signature.attach M.next signatures (.ref d) s = .ok (.ref d) t ∧
        Attached A s.heap.size es (A.wrapped es map) d t) ∨
    ((∃ p ∈ map, (A.fate es p).fails) ∧
      ∃ e t, Signature.attach M.next signatures (.ref d) s = .error e t ∧ s.Grows t) := by
  rw [Signature.attach_eq]
  have hsettles (p : Value × Value) (hp : p ∈ map) := (h.examined p hp).settles (d := d)
    (fun t u ht hu => ht.trans hu) fun t ht => h.table.grows ht
  rcases prepare_settles (R := fun _ _ => True) h.table h.standard hmap.isMap hmap.lists hsettles with
    ⟨hall,t,ht,hg⟩ | ⟨p,e,t,⟨done,rest,rfl,-,hp⟩,ht,hg,-⟩
  · have hwrapped (p : Value × Value) (hp : p ∈ A.wrapped es map) :=
      And.intro (List.mem_filter.mp hp).2 (h.wrapped p hp)
    obtain ⟨u,hu,hdone⟩ := wrapAll_spec h.table hwrapped (h.once.sublist List.filter_sublist)
      (Store.refills_of_grows h.table hg) (Nat.le_refl _) (Attached.start h.table hg)
    refine Or.inl ⟨hall,u,?_,by simpa using hdone⟩
    rw [bind_ok ht,bind_ok hu]
    rfl
  · exact Or.inr ⟨⟨p,by simp,hp⟩,e,t,bind_error ht,hg⟩

/-- Two stores in which one table was filled alike: under every key, in their old order, there is the old value in
both, or in both a new wrapper of it that checks one and the same entry. -/
def FilledAlike (size : Nat) (es done : List (Value × Value)) (d : Ref) (t t' : Store) : Prop :=
  ∃ fs fs', t.IsTable d fs ∧ t'.IsTable d fs' ∧ fs.map Prod.fst = es.map Prod.fst ∧
    fs'.map Prod.fst = es.map Prod.fst ∧
    ∀ (i : Nat) (k v : Value), es[i]? = some (k,v) → ∃ x x', fs[i]? = some (k,x) ∧ fs'[i]? = some (k,x') ∧
      (x = v ∧ x' = v ∨ ∃ p ∈ done, t.Signs size x v p ∧ t'.Signs size x' v p)

theorem filledAlike {size : Nat} {done done' : List (Value × Value)} (hperm : done.Perm done')
    (h : Attached A size es done d t) (h' : Attached A size es done' d t') : FilledAlike size es done d t t' := by
  obtain ⟨fs,hfs,hk,hslots⟩ := h
  obtain ⟨fs',hfs',hk',hslots'⟩ := h'
  refine ⟨fs,fs',hfs,hfs',hk,hk',fun i k v hv => ?_⟩
  obtain ⟨x,hx,hnew,hold⟩ := hslots i k v hv
  obtain ⟨x',hx',hnew',hold'⟩ := hslots' i k v hv
  refine ⟨x,x',hx,hx',?_⟩
  by_cases hnamed : ∃ p ∈ done, A.place? es p = some i
  · obtain ⟨p,hp,hi⟩ := hnamed
    exact Or.inr ⟨p,hp,hnew p hp hi,hnew' p (hperm.mem_iff.mp hp) hi⟩
  · have hfree : ∀ p ∈ done, A.place? es p ≠ some i := fun p hp hi => hnamed ⟨p,hp,hi⟩
    exact Or.inl ⟨hold hfree,hold' fun p hp => hfree p (hperm.mem_iff.mpr hp)⟩

/-- Attaching does not depend on the order of the entries.  Either no entry fails, and both orders fill the table
alike; or one does, both orders end in an error, and nothing has changed that was there. -/
theorem attach_perm (hperm : map.Perm map') (h : Presentable A M s d es map) (hmap : Presents M s signatures map)
    (hmap' : Presents M s signatures' map') :
    ((∀ p ∈ map, (A.fate es p).fails = false) ∧
      ∃ t t', Signature.attach M.next signatures (.ref d) s = .ok (.ref d) t ∧
        Signature.attach M.next signatures' (.ref d) s = .ok (.ref d) t' ∧
        FilledAlike s.heap.size es (A.wrapped es map) d t t') ∨
    ((∃ p ∈ map, (A.fate es p).fails) ∧
      ∃ e e' t t', Signature.attach M.next signatures (.ref d) s = .error e t ∧
        Signature.attach M.next signatures' (.ref d) s = .error e' t' ∧
        s.Grows t ∧ t.IsTable d es ∧ s.Grows t' ∧ t'.IsTable d es) := by
  rcases attach_presented h hmap with ⟨hall,t,ht,hdone⟩ | ⟨⟨p,hp,hf⟩,e,t,ht,hg⟩
  · rcases attach_presented (h.perm hperm) hmap' with ⟨-,t',ht',hdone'⟩ | ⟨⟨p,hp,hf⟩,-⟩
    · exact Or.inl ⟨hall,t,t',ht,ht',filledAlike (wrapped_perm hperm) hdone hdone'⟩
    · exact absurd (hall p (hperm.mem_iff.mpr hp)) (by simp [hf])
  · rcases attach_presented (h.perm hperm) hmap' with ⟨hall,-⟩ | ⟨-,e',t',ht',hg'⟩
    · exact absurd (hall p (hperm.mem_iff.mp hp)) (by simp [hf])
    · exact Or.inr ⟨⟨p,hp,hf⟩,e,e',t,t',ht,ht',hg,h.table.grows hg,hg',h.table.grows hg'⟩

/-- What is answered about an entry in every later store has an answer while the map is gone over. -/
theorem Answers.About.examined (h : A.About es p W m) : A.Examined es W m p :=
  ⟨h.entry.files,h.entry.contract,h.entry.signature,h.entry.named,fun hc => (h.entry.shown hc).leaves,
    h.entry.described,fun v hc hv =>
      ⟨(h.member v hc hv).asked,fun hcall hx => ((h.member v hc hv).shown hcall hx).leaves⟩⟩

/-- The sample again, with a second map that has the same entries the other way round. -/
def turned : Store := (sample.alloc { cls := .builtin .dict, body := .table [(.str "b",.ref 3),(.str "a",.ref 35)] }).2

theorem attach_perm_turned : ∃ t t',
    Signature.attach Machine.halted.next (.ref 37) (.ref 36) turned = .ok (.ref 36) t ∧
    Signature.attach Machine.halted.next (.ref 38) (.ref 36) turned = .ok (.ref 36) t' ∧
    FilledAlike 39 [(.str "a",.ref 33),(.str "b",.int 5)] [(.str "a",.ref 35)] 36 t t' := by
  have hsample := sample_attachable Machine.halted
  have hgrown : sample.Grows turned := Store.Keeps.alloc sample _
  have hmap : turned.IsTable 38 [(.str "b",.ref 3),(.str "a",.ref 35)] := ⟨rfl,rfl⟩
  have hstandard : turned.HasStandard := hsample.standard.grows hgrown
  have hrefills {t : Store} (ht : turned.Refills 36 [.str "a",.str "b"] t) : sample.Refills 36 [.str "a",.str "b"] t :=
    ⟨(Store.Keeps.of_grows hgrown).trans ht.others,ht.table⟩
  have h : Presentable sampleAnswers Machine.halted turned 36 [(.str "a",.ref 33),(.str "b",.int 5)]
      [(.str "a",.ref 35),(.str "b",.ref 3)] := by
    refine ⟨hsample.table.grows hgrown,hstandard,fun p hp => ?_,hsample.once,fun p hp => ?_⟩
    · exact ((hsample.about p hp).mono fun t ht =>
        Store.refills_of_grows hsample.table (hgrown.trans ht)).examined
    · obtain ⟨hmem,hwrap⟩ := List.mem_filter.mp hp
      obtain ⟨-,v,-,hcall,-⟩ := (isWrap_fate sampleAnswers _ p).mp hwrap
      simp only [Answers.isCall,Bool.and_eq_true] at hcall
      obtain ⟨cs,parts,hsig,hcs⟩ := hsample.built p hmem hcall.2
      exact ⟨(hsample.about p hmem).mono fun t ht => hrefills ht,cs,parts,hsig.grows hgrown,fun c hc =>
        (hcs c hc).mono fun t ht => hrefills ht⟩
  have hfirst : Presents Machine.halted turned (.ref 37) [(.str "a",.ref 35),(.str "b",.ref 3)] :=
    ⟨fun t ht => hsample.isMap t (hgrown.trans ht),hsample.lists.mono fun t ht => hgrown.trans ht⟩
  have hsecond : Presents Machine.halted turned (.ref 38) [(.str "b",.ref 3),(.str "a",.ref 35)] := by
    refine ⟨fun t ht => gives_of_eq (Contract.signatureMap_table (hstandard.grows ht) (hmap.grows ht)),?_⟩
    refine lists_table (fun t ht => ⟨hmap.grows ht,?_⟩) (by decide)
    exact (ht.attr? (o := { cls := .builtin .dict, body := .table _ }) rfl trivial rfl (by decide)).trans rfl
  have hpasses : ∀ p ∈ [(Value.str "a",Value.ref 35),(.str "b",.ref 3)], (sampleAnswers.fate
      [(.str "a",.ref 33),(.str "b",.int 5)] p).fails = false := by decide
  rcases attach_perm (List.Perm.swap (Value.str "b",Value.ref 3) (.str "a",.ref 35) []) h hfirst hsecond with
    ⟨-,t,t',ht,ht',hfilled⟩ | ⟨⟨p,hp,hf⟩,-⟩
  · exact ⟨t,t',ht,ht',hfilled⟩
  · rw [hpasses p hp] at hf
    cases hf

/-- A table that holds a function, and something that can be called but whose class says of its table of attributes
that it is a number. -/
def tableless : Act (Value × Value) := do
  let f ← (Expr.function "f" [.required "x"] [] (.variable "x") none).eval Machine.full []
  let c ← (Expr.classDef "C"
    [("__call__",.function "__call__" [.required "self",.required "x"] [] (.variable "x") none),
      ("__dict__",.property (.function "d" [.required "self"] [] (.int 5) none))] []).eval Machine.full []
  let x ← (Expr.new (.variable "C") []).eval Machine.full [("C",c)]
  return (f,← newNamed [("a",f),("b",x)])

/-- Whether attaching a signature under these names goes well, and whether the function is in its place after it. -/
def attachedUnder (names : List String) : Act (Bool × Bool) := do
  let (f,target) ← tableless
  let sig ← Contract.proc Machine.full [Contract.anything.value,Contract.anything.value]
  let map ← newNamed (names.map fun n => (n,sig))
  let attached ← orElseOn .typeError (do
    let _ ← Signature.attach Machine.full map target
    return true) (return false)
  return (attached,decide ((← Item.get Machine.full target (.str "a")) = f))

/-- What cannot be wrapped ends the attachment after the entries before it were installed. -/
theorem fails_reordered :
    returned (attachedUnder ["b","a"]) Store.initial = some (false,true) ∧
    returned (attachedUnder ["a","b"]) Store.initial = some (false,false) := by decide +kernel

end Attachment
end CallContracts
