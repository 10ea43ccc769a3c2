import CallContracts.Proofs.History
import CallContracts.Proofs.TameSurvey
import CallContracts.Proofs.ClassSigned
/-! Attaching again.  Once a map of signatures was attached to a target, each member that it names is under a wrapper
whose own advice checks the signature, and whatever way the member is read, that advice is what is asked.  So nothing
is to be wrapped when the same map is attached once more, and the target holds what it held. -/
namespace CallContracts
open Act

namespace Attachment
variable {E R : Store → Store → Prop} {M m : Machine} {target signatures v : Value} {isMap cls : Bool}
  {names : Value → Prop} {site : Value → Option Value} {held : Store → Value → Option Value}
  {calls : Value × Value → Bool} {B : Store → (Value → List Value) → Prop} {S : Value → List Value}
  {first : Value → Option Value} {s t u : Store} {map ps : List (Value × Value)} {i w f x sig : Value}
  {r : Ref} {H : Ref → Prop} {N : List String}

/-- A step that leaves the members as they are held. -/
def Spare (R : Store → Store → Prop) (held : Store → Value → Option Value) (t u : Store) : Prop :=
  R t u ∧ held u = held t

theorem steps_spare (hR : s.Evolves R) (hstays : ∀ t u, R s t → t.Grows u → held u = held t) :
    Steps (R s) (Spare R held) :=
  ⟨fun t u ht hg => ⟨hR.grows t u ht hg,hstays t u ht hg⟩,
    fun t u v ht hu hv => ⟨hR.trans t u v ht hu.1 hv.1,hv.2.trans hu.2⟩,
    fun t u ht hu => hR.trans s t u hR.start ht hu.1⟩

/-- As long as a member is not written, it is read as signed with the same signature, or as not signed. -/
def Known (R : Store → Store → Prop) (m : Machine) (target : Value) (isMap : Bool) (names : Value → Prop)
    (site : Value → Option Value) (held : Store → Value → Option Value) (first : Value → Option Value) (s : Store) :
    Prop :=
  ∀ t n i v u, R s t → names n → site n = some i → held t i = held s i →
    readAs isMap m target n t = .ok v u → u.Topped R m v (first i)

/-- Each member is as it was at first, or under a wrapper with a check; the last signature is the one it is signed
with. -/
structure Tops (R : Store → Store → Prop) (held : Store → Value → Option Value) (cls : Bool)
    (first : Value → Option Value) (s t : Store) (S : Value → List Value) : Prop where
  later : R s t
  sites : ∀ i, held t i = held s i ∧ (S i).head? = first i ∨
    ∃ f w sig, held t i = some w ∧ Carries cls t f w [sig] ∧ (S i).head? = some sig

theorem Tops.start (hR : s.Evolves R) : Tops R held cls first s s fun i => (first i).toList := by
  refine ⟨hR.start,fun i => Or.inl ⟨rfl,?_⟩⟩
  cases first i <;> rfl

section tops
variable (hR : s.Evolves R) (h : Tops R held cls first s t S)
include hR h

theorem Tops.spare (hu : Spare R held t u) : Tops R held cls first s u S := by
  obtain ⟨hu,hheld⟩ := hu
  refine ⟨hR.trans s t u hR.start h.later hu,fun i => ?_⟩
  rw [hheld]
  refine (h.sites i).imp_right ?_
  rintro ⟨f,w,sig,hw,hc,hS⟩
  exact ⟨f,w,sig,hw,hc.keep (hR.layers t u h.later hu),hS⟩

/-- A wrapper with a check comes to a site, and the others are left alone. -/
theorem Tops.signs (hu : R t u) (hi : held u i = some w) (hc : Carries cls u f w [sig])
    (hothers : ∀ j, j ≠ i → held u j = held t j) :
    Tops R held cls first s u (Function.update S i (sig :: S i)) := by
  refine ⟨hR.trans s t u hR.start h.later hu,fun j => ?_⟩
  by_cases hij : j = i
  · subst hij
    exact Or.inr ⟨f,w,sig,hi,hc,by simp⟩
  · rw [Function.update_of_ne hij,hothers j hij]
    refine (h.sites j).imp_right ?_
    rintro ⟨g,y,x,hy,hg,hS⟩
    exact ⟨g,y,x,hy,hg.keep (hR.layers t u h.later hu),hS⟩

end tops

/-- Mappings, modules and instances, whether their members were signed before or not. -/
theorem Direct.rehost (h : Direct R m target isMap names site held s)
    (hfirst : Known R m target isMap names site held first s) :
    Host (Spare R held) R m target names site (Tops R held false first s) s := by
  have hR := h.evolves
  refine ⟨hR,steps_spare hR h.stays,fun t u _ hu => hu.1,fun t S hB => hB.later,fun t u S hB hu => hB.spare hR hu,
    fun t S n v u hB hn hv => ?_,fun t S n k sig hB hn hk => ?_⟩
  · obtain ⟨z,hz,hg⟩ := h.mapping t hB.later
    rw [memberOf_eq,bind_ok hz] at hv
    have hBz := hB.spare hR ⟨hR.grows t z hB.later hg,h.stays t z hB.later hg⟩
    obtain ⟨i,hi⟩ := h.finds z n v u hBz.later hn hv
    refine ⟨i,hi,?_⟩
    rcases hBz.sites i with ⟨hheld,hS⟩ | ⟨f,w,sig,hw,hc,hS⟩
    · rw [hS]
      exact hfirst z n i v u hBz.later hn hi hheld hv
    · rw [hS]
      cases hc with
      | static hcls _ _ => cases hcls
      | bare hsigned =>
        cases hsigned with
        | layer hc hwraps hk _ =>
          have hclass : ∃ c ∈ wrapperClasses, z.classOf w = .builtin c := ⟨_,mem_wrapperClasses hc,hwraps.classOf⟩
          obtain rfl := h.gives z n i w v u hBz.later hn hi hw hclass hv
          have hgu := (h.reads n hn).ok hBz.later hv
          exact topped_wrapper hR (hR.lasting z u hBz.later hgu) (mem_wrapperClasses hc) (hwraps.grows hgu)
            (hk.keep (Store.Keeps.of_grows hgu))
  · refine (h.installed hB.later hn hk).imp ?_ fun u hg => hB.spare hR ⟨hR.grows t u hB.later hg,h.stays t u hB.later hg⟩
    rintro - u ⟨i,v,w,z,a,b,hi,-,-,hb,-,hw,hkb,hu,hheld,hothers⟩
    have hBb := hB.spare hR ⟨hR.grows t b hB.later hb,h.stays t b hB.later hb⟩
    have hkeeps := hR.layers b u hBb.later hu
    have hlayer : u.Signed v w [sig] :=
      .layer (Or.inl rfl) (hw.keep_callables (by decide) hkeeps.callables) (hkb.keep hkeeps) .unsigned
    exact ⟨i,hi,hBb.signs hR hu hheld (.bare hlayer) hothers⟩

theorem Receptive.stays (h : Receptive R M r H N s) (ht : R s t) (hg : t.Grows u) : ownHeld r u = ownHeld r t := by
  obtain ⟨o,ho,htable⟩ := h.own t ht
  exact ownHeld_grows ho htable hg

/-- Classes, whether their members were signed before or not. -/
theorem Receptive.rehost (h : Receptive R M r H N s)
    (hfirst : Known R M.next.next (.ref r) false (memberNames N) (memberSite N) (ownHeld r) first s) :
    Host (Spare R (ownHeld r)) R M.next.next (.ref r) (memberNames N) (memberSite N)
      (Tops R (ownHeld r) true first s) s := by
  have hR := h.evolves
  have grown {t u : Store} {S : Value → List Value} (hB : Tops R (ownHeld r) true first s t S) (hg : t.Grows u) :
      Tops R (ownHeld r) true first s u S := hB.spare hR ⟨hR.grows t u hB.later hg,h.stays hB.later hg⟩
  have hsite {n : String} (hn : n ∈ N) : memberSite N (.str n) = some (.str n) := by simp [memberSite,hn]
  refine ⟨hR,steps_spare hR fun t u ht hg => h.stays ht hg,fun t u _ hu => hu.1,fun t S hB => hB.later,
    fun t u S hB hu => hB.spare hR hu,?_,?_⟩
  · rintro t S _ v u hB ⟨n,hn,rfl⟩ hv
    have hmapping := Wrapper.isMapping_governed (m := M.next.next) (h.branch t hB.later n hn).governed
    rw [memberOf_eq,bind_ok hmapping] at hv
    refine ⟨.str n,hsite hn,?_⟩
    rcases hB.sites (.str n) with ⟨hheld,hS⟩ | ⟨f,w,sig,hw,hc,hS⟩
    · rw [hS]
      exact hfirst t (.str n) (.str n) v u hB.later ⟨n,hn,rfl⟩ (hsite hn) hheld hv
    · rw [hS]
      exact h.read_carried hB.later hn (ownHeld_eq_some hw) hc hv
  · rintro t S _ k sig hB ⟨n,hn,rfl⟩ hk
    have hann : n ≠ "__annotations__" := by
      rintro rfl
      exact h.names _ hn (by decide)
    have hask (x : Value) (hx : Wrapper.storedMember t (.defined r) n = some x) : Askable M.next.next t x := by
      rcases hB.sites (.str n) with ⟨hheld,-⟩ | ⟨f,w,sig,hw,hc,-⟩
      · exact h.askable t n x hB.later hn (by simpa [ownHeld,hann] using hheld) hx
      · have hown := (h.branch t hB.later n hn).classMember?_own (ownHeld_eq_some hw)
        obtain rfl : w = x := by simpa [Wrapper.storedMember,hown] using hx
        exact askable_carried hc (by simp)
    refine (h.installed hB.later hn hk hask).imp ?_ fun u hg => grown hB hg
    rintro - u ⟨x,c,p,y,w,z,-,hz,hw,hkz,hy,hp,hwrote,hu⟩
    have hBz := grown hB hz
    have hkeeps := hR.layers z u hBz.later hu
    have hlayer : u.Signed p w [sig] :=
      .layer hp.cls (hw.keep_callables (mem_wrapperClasses hp.cls) hkeeps.callables) (hkz.keep hkeeps) .unsigned
    have hcarries : Carries true u p y [sig] := by
      rcases hy with rfl | hstatic
      · exact .bare hlayer
      · exact .static rfl (hstatic.keep hkeeps) hlayer
    have hheld : ownHeld r u (.str n) = some y := by simp [ownHeld,hann,hwrote.here]
    refine ⟨.str n,hsite hn,hBz.signs hR hu hheld hcarries fun j hj => ownHeld_congr fun q hq hjq => ?_⟩
    refine h.others hBz.later hwrote hq ?_
    rintro rfl
    exact hj hjq

/-- Signatures for the same member are the same. -/
def Agreeing (site : Value → Option Value) (calls : Value × Value → Bool) (map : List (Value × Value)) : Prop :=
  ∀ p ∈ map, ∀ q ∈ map, calls p → calls q → ∀ i, site p.1 = some i → site q.1 = some i → p.2 = q.2

/-- A site is signed last with the one signature that there is for it. -/
theorem head_signAll (hps : ∀ p ∈ ps, site p.1 = some i → p.2 = x)
    (h : (S i).head? = some x ∨ ∃ p ∈ ps, site p.1 = some i) : (signAll site S ps i).head? = some x := by
  induction ps generalizing S with
  | nil => simpa [signAll] using h
  | cons p ps ih =>
    rw [signAll]
    refine ih (fun q hq => hps q (by simp [hq])) ?_
    cases hp : site p.1 with
    | none =>
      refine h.imp_right ?_
      rintro ⟨q,hq,hi⟩
      rcases List.mem_cons.mp hq with rfl | hq
      · rw [hp] at hi
        cases hi
      · exact ⟨q,hq,hi⟩
    | some j =>
      by_cases hij : j = i
      · subst hij
        left
        simp [hps p (by simp) hp]
      · simp only [Function.update_of_ne (Ne.symm hij)]
        refine h.imp_right ?_
        rintro ⟨q,hq,hi⟩
        rcases List.mem_cons.mp hq with rfl | hq
        · rw [hp] at hi
          exact absurd (Option.some.inj hi) hij
        · exact ⟨q,hq,hi⟩

/-- Once the members that were to be wrapped are wrapped, none is to be wrapped any more. -/
theorem due_signAll (h : Agreeing site calls map) :
    map.filter (due site calls (signAll site S (map.filter (due site calls S)))) = [] := by
  rw [List.filter_eq_nil_iff]
  intro p hp hdue
  obtain ⟨hc,hsite⟩ : calls p = true ∧ _ := by simpa only [due,Bool.and_eq_true] using hdue
  cases hi : site p.1 with
  | none => simp [hi] at hsite
  | some i =>
    have hall : ∀ q ∈ map.filter (due site calls S), site q.1 = some i → q.2 = p.2 := by
      intro q hq hqi
      obtain ⟨hq,hqdue⟩ := List.mem_filter.mp hq
      obtain ⟨hqc,-⟩ : calls q = true ∧ _ := by simpa only [due,Bool.and_eq_true] using hqdue
      exact h q hq p hp hqc hc i hqi hi
    have hhead : (signAll site S (map.filter (due site calls S)) i).head? = some p.2 := by
      refine head_signAll hall ?_
      by_cases hfirst : (S i).head? = some p.2
      · exact Or.inl hfirst
      · exact Or.inr ⟨p,List.mem_filter.mpr ⟨hp,by simp [due,hc,hi,hfirst]⟩,hi⟩
    simp [hi,hhead] at hsite

/-- Whether it ends well or not, attaching a map again to a target right after it was attached makes no other steps
than those between the members that are wrapped. -/
theorem Host.again (hhost : Host E R m target names site B s)
    (h : Surveys E (R s) m target names calls signatures map) (hagree : Agreeing site calls map) (hB : B s S)
    (hok : Signature.attach m signatures target s = .ok v t) :
    E t (after (Signature.attach m signatures target) t) := by
  rw [Signature.attach_eq] at hok
  obtain ⟨l,z,hl,hok⟩ := bind_eq_ok.mp hok
  obtain ⟨hz,rfl⟩ := (prepare_due hhost h hB).1 l z hl
  obtain ⟨_,y,hy,hok⟩ := bind_eq_ok.mp hok
  obtain ⟨-,rfl⟩ : target = v ∧ y = t := by simpa using hok
  have hps : ∀ p ∈ map.filter (due site calls S), names p.1 ∧ Signature.Regarded E (R s) m target p :=
    fun p hp => ⟨h.named p (List.mem_filter.mp hp).1,h.regarded p (List.mem_filter.mp hp).1⟩
  have hBy := (wrapAll_signs hhost hps (hhost.keeps s z S hB hz)).1 _ y hy
  obtain ⟨hdone,hfail⟩ := prepare_due hhost h hBy
  rw [due_signAll hagree] at hdone
  cases hagain : Signature.prepare m signatures target y with
  | error e u =>
    have hend : Signature.attach m signatures target y = .error e u := by
      rw [Signature.attach_eq,bind_error hagain]
    rw [after_error hend]
    exact hfail e u hagain
  | ok l u =>
    obtain ⟨hu,rfl⟩ := hdone l u hagain
    have hend : Signature.attach m signatures target y = .ok target u := by
      rw [Signature.attach_eq,bind_ok hagain]
      rfl
    rwa [after_ok hend]

section known
variable {j : Nat}

/-- What was not written is held as before. -/
theorem attr?_of_ownHeld {n : String} (hn : n ≠ "__annotations__") (h : ownHeld r t (.str n) = ownHeld r s (.str n)) :
    t.attr? (.ref r) n = s.attr? (.ref r) n := by simpa [ownHeld,hn] using h

theorem known_tameInstance (h : s.TameInstance r N first) : Known (Store.Recast Store.Checking r N)
    (Machine.ofLevel (j+1)) (.ref r) false (memberNames N) (memberSite N) (ownHeld r) first s := by
  rintro t _ i v u ht ⟨n,hn,rfl⟩ hi hheld hv
  obtain rfl : .str n = i := by simpa [memberSite,hn] using hi
  have hne : n ≠ "__annotations__" := fun hne => h.names.1 (hne ▸ hn)
  obtain ⟨o,hmarked,hfirst⟩ := marked_readInstance h ht hn hv
  obtain rfl := hfirst (attr?_of_ownHeld hne hheld)
  exact hmarked.topped _

theorem known_tameClass (h : s.TameClass r H N first) : Known (Store.Recast (Store.Signing r) r N)
    (Machine.ofLevel (j+1)) (.ref r) false (memberNames N) (memberSite N) (ownHeld r) first s := by
  rintro t _ i v u ht ⟨n,hn,rfl⟩ hi hheld hv
  obtain rfl : .str n = i := by simpa [memberSite,hn] using hi
  have hne : n ≠ "__annotations__" := by
    rintro rfl
    exact h.names _ hn (by decide)
  exact topped_tameClass h ht hn (attr?_of_ownHeld hne hheld) hv _

end known

/-- A target that keeps what is written to it: a mapping, a module or an instance whose members are read as they are
held, or a class whose members are tame.  Members may be signed before. -/
inductive Keeper : (Store → Store → Prop) → Store → Machine → Value → (Value → Prop) → (Value → Option Value) →
    (Store → Value → Option Value) → Prop where
  | direct {R : Store → Store → Prop} {s : Store} {m : Machine} {target : Value} {isMap : Bool} {names : Value → Prop}
      {site : Value → Option Value} {held : Store → Value → Option Value} {first : Value → Option Value} :
      Direct R m target isMap names site held s → Known R m target isMap names site held first s →
      Keeper R s m target names site held
  | ofClass {s : Store} {r : Ref} {H : Ref → Prop} {N : List String} {first : Value → Option Value} {j : Nat} :
      s.TameClass r H N first → Keeper (Store.Recast (Store.Signing r) r N) s (Machine.ofLevel (j+2)) (.ref r)
        (memberNames N) (memberSite N) (ownHeld r)

theorem keeper_tameInstance {j : Nat} (h : s.TameInstance r N first) : Keeper (Store.Recast Store.Checking r N) s
    (Machine.ofLevel (j+1)) (.ref r) (memberNames N) (memberSite N) (ownHeld r) :=
  .direct (direct_tameInstance h) (known_tameInstance h)

theorem Keeper.host (h : Keeper R s m target names site held) : ∃ B S,
    Host (Spare R held) R m target names site B s ∧ B s S := by
  cases h with
  | direct h hfirst => exact ⟨_,_,h.rehost hfirst,.start h.evolves⟩
  | @ofClass _ r H N first j h =>
    exact ⟨_,_,(receptive_tameClass (j := j) h).rehost (known_tameClass (j := j+1) h),.start h.evolves⟩

/-- A plain table of signatures is gone over with any steps between the members of a plain table. -/
theorem surveys_table {M : Machine} {A : Answers} {d : Ref} {es : List (Value × Value)}
    (h : Tabled M.next.next A.same d es names s) (hE : Steps (s.Rewritten d es s) E)
    (hwithin : ∀ t u, s.Rewritten d es s t → E t u → s.Rewritten d es t u)
    (hattends : Attends (s.Rewritten d es s) M.next.next (.ref d) names (tableSite A.same es) calls signatures map)
    (hentries : ∀ p ∈ map, SignatureEntry A M s d es p) :
    Surveys E (s.Rewritten d es s) M.next.next (.ref d) names calls signatures map where
  accepts := hattends.accepts.within hE
  inserted hm := (hattends.inserted hm).within hE
  lists := hattends.lists
  named := hattends.named
  regarded p hp := regarded_tabled h (hentries p hp) hE hwithin (hattends.named p hp)
  called := hattends.called

/-- So is a plain map of signatures for an object with tame members. -/
theorem surveys_spare {M : Machine} {P : Store → Value → Prop} {d : Ref}
    (h : Offers (s.Recast P r N) M.next r N) (hR : s.Evolves (Store.Recast P r N))
    (hr : ∃ o, s.get? r = some o ∧ o.table = none) (hmap : s.ListsSignatures d N map) :
    Surveys (Spare (Store.Recast P r N) (ownHeld r)) (s.Recast P r N) M.next (.ref r) (memberNames N) (fun _ => true)
      (.ref d) map := by
  refine surveys_object h hR hmap (steps_spare hR fun t u ht hg => ?_) fun t u _ hu => hu.1
  obtain ⟨o,ho,htable⟩ := hr
  obtain ⟨p,hp,hk⟩ := ht.names.kept r o ho trivial
  exact ownHeld_grows hp (hk.table.trans htable) hg

/-- A class with a class method that was signed before, an instance of it, and a map with another signature. -/
def signedBefore : Store :=
  { Signature.overSigned with
    heap := Signature.overSigned.heap ++ #[{ cls := .defined 41, body := .plain, attrs := some [] }] }

theorem signedBefore_tame (r : Ref) : signedBefore.Tame r (.ref 40) none (some (.ref 36)) := by
  have hw : signedBefore.Wraps .wrapper (.ref 39) (.ref 33) (.ref 38) := ⟨⟨39,_,rfl,rfl,rfl,rfl,rfl⟩,rfl,rfl⟩
  have hbare : signedBefore.Bare r (.ref 39) :=
    Store.bare_own hw.classOf (by simp [Frame.callables]) hw.body? (by simp) hw.owns rfl
  have hf : signedBefore.Tame r (.ref 33) none none := .function ⟨rfl,rfl⟩
  exact .classMethod ⟨rfl,rfl⟩ hbare (.wrapper (by decide) hw (by simp) (.check ⟨⟨38,_,rfl,rfl,rfl,rfl⟩,rfl⟩) hf)

theorem signedBefore_lists : signedBefore.ListsSignatures 42 ["m"] [(.str "m",.ref 37)] := by
  have hstandard : signedBefore.HasStandard := by
    simp only [Store.HasStandard]
    decide
  refine ⟨hstandard,⟨⟨rfl,rfl⟩,_,rfl,rfl,rfl⟩,by simp,fun p hp => ?_⟩
  obtain rfl : p = (.str "m",.ref 37) := by simpa using hp
  refine ⟨⟨"m",by simp,rfl⟩,[Contract.anything],⟨⟨.ref 35,.ref 1,.ref 1⟩,rfl,⟨_,_,rfl⟩,rfl,rfl⟩,⟨_,_,rfl,rfl⟩,fun c hc => ?_⟩
  obtain rfl : c = Contract.anything := by simpa using hc
  exact ⟨rfl,_,rfl⟩

theorem signedBefore_line : signedBefore.line (.defined 41) = [.defined 41,.builtin .root,.builtin .object] := by
  decide +kernel

theorem signedBefore_member : signedBefore.classMember? (.defined 41) "m" = some (.ref 40) := by decide +kernel

theorem signedBefore_class : signedBefore.TameClass 41 (· = 41) ["m"] fun _ => some (.ref 36) := by
  have hcls : signedBefore.classOf (.ref 41) = .builtin .type := rfl
  have hmem : .builtin .type ∈ signedBefore.line (.builtin .type) := by decide +kernel
  refine ⟨fun n _ => ?_,fun n hn => ?_,fun n hn => ?_⟩
  · refine ⟨⟨.root,by simp [signedBefore_line]⟩,by simp [signedBefore_line],⟨_,rfl,rfl,rfl⟩,⟨_,hcls ▸ hmem⟩,hcls ▸ hmem,
      fun q hq => ?_,fun k _ => ?_⟩
    · simp [hcls,Store.line_builtin] at hq
    · rw [hcls,Store.override?_builtin]
  · obtain rfl : n = "m" := by simpa using hn
    decide
  · obtain rfl : n = "m" := by simpa using hn
    exact ⟨_,_,signedBefore_member,signedBefore_tame 41⟩

theorem signedBefore_instance : signedBefore.TameInstance 43 ["m"] fun _ => some (.ref 36) := by
  have hcls : signedBefore.classOf (.ref 43) = .defined 41 := rfl
  have hget : signedBefore.get? 43 = some { cls := .defined 41, body := .plain, attrs := some [] } := rfl
  refine ⟨⟨rfl,⟨_,hget,rfl,rfl,?_⟩,?_,?_,?_,rfl⟩,by simp,fun n hn x hx t ht => ?_,fun n hn => Or.inr ?_⟩
  · simp [Frame.layers,Frame.callables]
  · rw [hcls]
    exact ⟨.root,by simp [signedBefore_line]⟩
  · decide +kernel
  · rw [hcls,signedBefore_line]
    decide
  · obtain rfl : n = "m" := by simpa using hn
    obtain rfl : .ref 40 = x := Option.some.inj (signedBefore_member.symm.trans hx)
    have hclass : signedBefore.IsClassMethod (.ref 40) (.ref 39) := ⟨rfl,rfl⟩
    exact Store.isDataMember_builtin (hclass.keep ht.layers).cls (by decide)
  · obtain rfl : n = "m" := by simpa using hn
    exact ⟨rfl,_,_,signedBefore_member,signedBefore_tame 43⟩

theorem signedBefore_offers {j : Nat} :
    Offers (signedBefore.Recast (Store.Signing 41) 41 ["m"]) (Machine.ofLevel (j+1)) 41 ["m"] ∧
    Offers (signedBefore.Recast Store.Checking 43 ["m"]) (Machine.ofLevel (j+1)) 43 ["m"] := by
  refine ⟨offers_tameClass signedBefore_class signedBefore_lists.standard fun t n v u ht hn hsame hv => ?_,
    offers_tameInstance signedBefore_instance signedBefore_lists.standard ?_ (by decide +kernel)
      fun t n v u ht hn hsame hv z hz => ?_⟩
  · obtain ⟨x,o,q,hx,hx',hfirst,-⟩ := signedBefore_class.member ht hn
    obtain rfl := hfirst hsame
    obtain ⟨-,q',hv⟩ := (Wrapper.leads_read (j := j) signedBefore_class ht hn hx hx').1 v u hv
    exact hv.isCallable_signed
  · change ∀ b ∈ Store.valueClasses, .builtin b ∉ signedBefore.line (.defined 41)
    rw [signedBefore_line]
    decide
  · obtain ⟨-,hown | ⟨-,q,hv⟩⟩ := (leads_readInstance (j := j) signedBefore_instance ht hn).1 v u hv
    · obtain rfl : n = "m" := by simpa using hn
      cases hsame.symm.trans hown
    · exact hv.isCallable_keep hv.isCallable_signed hz

/-- What is found where one looks, after a map was attached and after it was attached once more. -/
def lookAgain (signatures target : Value) (look : Act Value) : Act (Value × Value) := do
  let _ ← Signature.attach Machine.full signatures target
  let v ← look
  let _ ← Signature.attach Machine.full signatures target
  return (v,← look)

/-- A table, and a map with a contract whose test puts a new list into the table. -/
def meddling : Act (Value × Value) := do
  let d ← (Expr.table .dict [(.str "n",.int 1),(.str "k",.int 0)]).eval Machine.full []
  let test := Expr.function "f" [.required "v"] []
    (.steps [.setItem (.variable "d") (.str "k") (.sequence .list []),.bool true]) none
  let s ← (Expr.table .dict [(.str "n",.call (.library "Contract") [test,.str "x"] none [] none)]).eval
    Machine.full [("d",d)]
  return (s,d)

def anyToAny : Expr := .call (.library "proc") [.library "any_",.library "any_"] none [] none

/-- A function and an instance that keeps a new function around whatever is written to it. -/
def hooking : Act (Value × Value) := do
  let around := Expr.function "g" [.rest "a"] [] (.call (.variable "v") [] (some (.variable "a")) [] none) none
  let write := Expr.function "__setattr__" [.required "self",.required "n",.required "v"] []
    (.setItem (.attribute (.variable "self") "__dict__") (.variable "n") around) none
  let c ← (Expr.classDef "C" [("__setattr__",write)] []).eval Machine.full []
  let f := Expr.function "f" [.required "x"] [] (.variable "x") none
  let o ← (Expr.new (.variable "C") [(.str "m",f)]).eval Machine.full [("C",c)]
  let s ← (Expr.table .dict [(.str "m",anyToAny)]).eval Machine.full []
  return (s,o)

/-- A table, and a map that lists two signatures under one name. -/
def doubled : Act (Value × Value) := do
  let p ← anyToAny.eval Machine.full []
  let q ← anyToAny.eval Machine.full []
  let entry (x : String) := Expr.sequence .tuple [.str "m",.variable x]
  let items := Expr.function "items" [.required "self"] [] (.sequence .list [entry "p",entry "q"]) none
  let c ← (Expr.classDef "S" [("items",items)] [.builtinClass "dict"]).eval Machine.full [("p",p),("q",q)]
  let s ← (Expr.call (.variable "S") [] none [] none).eval Machine.full [("S",c)]
  let f := Expr.function "f" [.required "x"] [] (.variable "x") none
  let d ← (Expr.table .dict [(.str "m",f)]).eval Machine.full []
  return (s,d)

end Attachment
end CallContracts
