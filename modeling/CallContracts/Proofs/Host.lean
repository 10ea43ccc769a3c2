import Mathlib.Data.List.Pairwise
import Mathlib.Logic.Function.Basic
import CallContracts.Proofs.Leaving
import CallContracts.Proofs.Routed
/-! What members are signed with.  The wrappers that are reached from a member check signatures, the last installed
first; only the outermost one is asked whether the member is signed.  A target bears signatures at the sites of its
members; wrapping a member signs its site once more. -/
namespace CallContracts
open Act

/-- Callables are kept, and the checks that advise them. -/
def Frame.layers : Frame where
  holds r c := Frame.callables.holds r c ∨ c = .builtin .signatureCheck
  silent := false

/-- The classes of wrappers. -/
def wrapperClasses : List BuiltinClass := [.wrapper,.unboundWrapper,.classWrapper]

theorem mem_wrapperClasses {c : BuiltinClass} (h : c = .wrapper ∨ c = .classWrapper) : c ∈ wrapperClasses := by
  rcases h with rfl | rfl <;> decide

namespace Store
variable {s t : Store} {R : Store → Store → Prop} {m : Machine} {f w p a k sig x : Value} {c : BuiltinClass}
  {sigs sigs' : List Value} {o : Option Value}

theorem Keeps.callables (h : s.Keeps .layers t) : s.Keeps .callables t :=
  Keeps.mono (F := .layers) (fun _ _ h => Or.inl h) (fun _ h => h) (fun h => h) h

/-- A check of a signature. -/
structure Enforces (s : Store) (k sig : Value) : Prop where
  place : ∃ r o, k = .ref r ∧ s.get? r = some o ∧ o.cls = .builtin .signatureCheck ∧ o.table = none
  signature : s.attr? k "signature" = some sig

namespace Enforces

theorem classOf (h : s.Enforces k sig) : s.classOf k = .builtin .signatureCheck := by
  obtain ⟨r,o,rfl,ho,hc,-⟩ := h.place
  rw [classOf_of_get? ho,hc]

theorem keep (h : s.Enforces k sig) (ht : s.Keeps .layers t) : t.Enforces k sig := by
  obtain ⟨r,o,rfl,ho,hc,htable⟩ := h.place
  obtain ⟨p,hp,hk⟩ := ht.kept r o ho (Or.inr hc)
  refine ⟨⟨r,p,rfl,hp,hk.cls.trans hc,hk.table.trans htable⟩,?_⟩
  rw [ht.attr? ho (Or.inr hc) htable (by decide),h.signature]

end Enforces

/-- A static method of a value. -/
structure IsStatic (s : Store) (v w : Value) : Prop where
  cls : s.classOf v = .builtin .staticMethod
  body : s.body? v = some (.staticMethod w)

theorem IsStatic.keep {v : Value} (h : s.IsStatic v w) (ht : s.Keeps .layers t) : t.IsStatic v w := by
  have hv : s.Holds .layers v := holds_of_class h.body h.cls fun _ => Or.inl (by simp [Frame.callables])
  exact ⟨by rw [ht.classOf hv,h.cls],by rw [ht.body? hv,h.body]⟩

/-- A class method of a value. -/
structure IsClassMethod (s : Store) (x w : Value) : Prop where
  cls : s.classOf x = .builtin .classMethod
  body : s.body? x = some (.classMethod w)

theorem IsClassMethod.keep (h : s.IsClassMethod x w) (ht : s.Keeps .layers t) : t.IsClassMethod x w := by
  have hx : s.Holds .layers x := holds_of_class h.body h.cls fun _ => Or.inl (by simp [Frame.callables])
  exact ⟨by rw [ht.classOf hx,h.cls],by rw [ht.body? hx,h.body]⟩

/-- The signatures that wrappers of `f` check, the last installed first. -/
inductive Signed (s : Store) (f : Value) : Value → List Value → Prop where
  | unsigned : Signed s f f []
  | layer {c : BuiltinClass} {w p k sig : Value} {sigs : List Value} : c = .wrapper ∨ c = .classWrapper →
      s.Wraps c w p k → s.Enforces k sig → Signed s f p sigs → Signed s f w (sig :: sigs)

/-- The signatures that are checked by the wrappers reached from a value, the outermost first; wrappers with other
advices may come in between. -/
inductive Stack (s : Store) : Value → List Value → Prop where
  | bottom {f : Value} : (∀ c ∈ wrapperClasses, s.classOf f ≠ .builtin c) → Stack s f []
  | other {c : BuiltinClass} {w p a : Value} {sigs : List Value} : c ∈ wrapperClasses → s.Wraps c w p a →
      s.classOf a ≠ .builtin .signatureCheck → Stack s p sigs → Stack s w sigs
  | check {c : BuiltinClass} {w p k sig : Value} {sigs : List Value} : c ∈ wrapperClasses → s.Wraps c w p k →
      s.Enforces k sig → Stack s p sigs → Stack s w (sig :: sigs)

theorem Wraps.unique {c' : BuiltinClass} {p' a' : Value} (h : s.Wraps c w p a) (h' : s.Wraps c' w p' a') :
    p = p' ∧ a = a' := by
  refine ⟨?_,?_⟩
  · simpa [h.proceed] using h'.proceed
  · simpa [h.advice] using h'.advice

/-- No value has two stacks. -/
theorem Stack.unique (h : s.Stack w sigs) (h' : s.Stack w sigs') : sigs = sigs' := by
  induction h generalizing sigs' with
  | bottom hf =>
    cases h' with
    | bottom _ => rfl
    | other hc hw _ _ => exact absurd hw.classOf (hf _ hc)
    | check hc hw _ _ => exact absurd hw.classOf (hf _ hc)
  | other hc hw ha _ ih =>
    cases h' with
    | bottom hf => exact absurd hw.classOf (hf _ hc)
    | other _ hw' _ hp =>
      obtain ⟨rfl,-⟩ := hw.unique hw'
      exact ih hp
    | check _ hw' hk _ =>
      obtain ⟨-,rfl⟩ := hw.unique hw'
      exact absurd hk.classOf ha
  | check hc hw hk _ ih =>
    cases h' with
    | bottom hf => exact absurd hw.classOf (hf _ hc)
    | other _ hw' ha _ =>
      obtain ⟨-,rfl⟩ := hw.unique hw'
      exact absurd hk.classOf ha
    | check _ hw' hk' hp =>
      obtain ⟨rfl,rfl⟩ := hw.unique hw'
      rw [ih hp,Option.some.inj (hk.signature.symm.trans hk'.signature)]

theorem Signed.wraps (h : s.Signed f w sigs) (hsigs : sigs ≠ []) :
    ∃ c p k, (c = .wrapper ∨ c = .classWrapper) ∧ s.Wraps c w p k := by
  cases h with
  | unsigned => exact absurd rfl hsigs
  | layer hc hw _ _ => exact ⟨_,_,_,hc,hw⟩

theorem Signed.stack (h : s.Signed f w sigs) (hf : s.Stack f []) : s.Stack w sigs := by
  induction h with
  | unsigned => exact hf
  | layer hc hw hk _ ih => exact .check (mem_wrapperClasses hc) hw hk ih

theorem Signed.keep (h : s.Signed f w sigs) (ht : s.Keeps .layers t) : t.Signed f w sigs := by
  induction h with
  | unsigned => exact .unsigned
  | layer hc hw hk _ ih =>
    exact .layer hc (hw.keep_callables (mem_wrapperClasses hc) ht.callables) (hk.keep ht) ih

/-- How a store goes on while signatures are attached to a target in it: it may grow, and wrappers and their checks
stay as they are. -/
structure Evolves (s : Store) (R : Store → Store → Prop) : Prop where
  start : R s s
  grows : ∀ t u, R s t → t.Grows u → R t u
  trans : ∀ t u v, R s t → R t u → R u v → R t v
  layers : ∀ t u, R s t → R t u → t.Keeps .layers u

theorem Evolves.lasting (h : s.Evolves R) : Lasting (R s) :=
  fun t u ht hu => h.trans s t u h.start ht (h.grows t u ht hu)

/-- Whenever it is asked from now on, a value is found to be signed with this signature and no other one. -/
def Topped (s : Store) (R : Store → Store → Prop) (m : Machine) (v : Value) (sig : Option Value) : Prop :=
  ∀ t x b u, R s t → Signature.isSignedWith m v x t = .ok b u → b = decide (sig = some x)

/-- From now on a value is never found to be signed, and no wrapper that is reached from it checks a signature. -/
structure Clear (s : Store) (R : Store → Store → Prop) (m : Machine) (f : Value) : Prop where
  topped : s.Topped R m f none
  stack : ∀ t, R s t → t.Stack f []

theorem Topped.later {u : Store} (hR : s.Evolves R) (ht : R s t) (h : t.Topped R m w o) (hu : R t u) :
    u.Topped R m w o :=
  fun v x b z hv => h v x b z (hR.trans t u v ht hu hv)

theorem Clear.later {u : Store} (hR : s.Evolves R) (ht : R s t) (h : t.Clear R m f) (hu : R t u) : u.Clear R m f :=
  ⟨h.topped.later hR ht hu,fun v hv => h.stack v (hR.trans t u v ht hu hv)⟩

end Store

/-- What is made of a signature checks it. -/
theorem Signature.enforces_check {m : Machine} {f n k : Value} {s t : Store} (h : check m f n s = .ok k t) :
    t.Enforces k f := by
  rw [check,bind_eq_ok] at h
  obtain ⟨params,u,-,h⟩ := h
  rw [bind_eq_ok] at h
  obtain ⟨arguments,v,-,h⟩ := h
  obtain ⟨rfl,rfl⟩ : Value.ref v.heap.size = k ∧ _ = t := by simpa using h
  have ho := Store.get?_alloc_self v
    { cls := .builtin .signatureCheck, body := .plain
      attrs := some [("signature",f),("member",n),("_arguments",arguments)] }
  exact ⟨⟨_,_,rfl,ho,rfl,rfl⟩,(Store.attr?_of_get? ho rfl).trans rfl⟩

section topped
variable {s t : Store} {R : Store → Store → Prop} {m : Machine} {f w p k sig x : Value} {c : BuiltinClass}
  {sigs : List Value}

/-- A wrapper is signed with what its own advice checks, whatever it wraps. -/
theorem isSignedWith_wrapper (hc : c ∈ wrapperClasses) (hw : s.Wraps c w p k) (hk : s.Enforces k sig) :
    Signature.isSignedWith m w x s = .ok (decide (sig = x)) s := by
  have hwrapper : isKind m w .wrapper s = .ok true s := by
    refine isKind_builtin hw.classOf ?_
    simp only [wrapperClasses,List.mem_cons,List.not_mem_nil,or_false] at hc
    rcases hc with rfl | rfl | rfl <;> decide
  have hcheck : isKind m k .signatureCheck s = .ok true s := isKind_builtin hk.classOf (by decide)
  have hsigned : Signature.isSigned m w s = .ok true s := by
    rw [Signature.isSigned,bind_ok hwrapper]
    simp only [if_true]
    rw [bind_ok (fieldOf_own hw.classOf hw.advice),hcheck]
  rw [Signature.isSignedWith,bind_ok hsigned]
  simp only [if_true]
  rw [bind_ok (fieldOf_own hw.classOf hw.advice),bind_ok (fieldOf_own hk.classOf hk.signature)]
  rfl

theorem topped_wrapper (hR : s.Evolves R) (ht : R s t) (hc : c ∈ wrapperClasses) (hw : t.Wraps c w p k)
    (hk : t.Enforces k sig) : t.Topped R m w (some sig) := by
  intro u x b z hu hb
  have hkeeps := hR.layers t u ht hu
  rw [isSignedWith_wrapper hc (hw.keep_callables hc hkeeps.callables) (hk.keep hkeeps)] at hb
  obtain ⟨rfl,-⟩ : decide (sig = x) = b ∧ u = z := by simpa using hb
  simp

/-- Only the outermost wrapper is asked. -/
theorem Store.Signed.topped (hR : s.Evolves R) (ht : R s t) (h : t.Signed f w sigs) (hf : t.Clear R m f) :
    t.Topped R m w sigs.head? := by
  cases h with
  | unsigned => exact hf.topped
  | layer hc hw hk _ => exact topped_wrapper hR ht (mem_wrapperClasses hc) hw hk

end topped

/-- One more signature for a member, unless it is the last one that the member was signed with. -/
def pushed (sigs : List Value) : Option Value → List Value
  | none => sigs
  | some x => if sigs.head? = some x then sigs else x :: sigs

namespace Attachment

/-- No site is named twice. -/
def Once (site : Value → Option Value) (map : List (Value × Value)) : Prop :=
  map.Pairwise fun p q => ∀ i, site p.1 = some i → site q.1 ≠ some i

/-- The entries of a map that come to the same site are one. -/
theorem Once.eq {site : Value → Option Value} {map : List (Value × Value)} {p q : Value × Value} {i : Value}
    (h : Once site map) (hp : p ∈ map) (hq : q ∈ map) (hpi : site p.1 = some i)
    (hqi : site q.1 = some i) : p = q := by
  by_contra hne
  have : Std.Symm fun p q : Value × Value => ∀ i, site p.1 = some i → site q.1 ≠ some i :=
    ⟨fun p q hpq i hq hp => hpq i hp hq⟩
  exact List.Pairwise.forall h hp hq hne i hpi hqi

variable {R : Store → Store → Prop} {m : Machine} {held : Store → Value → Option Value} {cls : Bool}
  {s t u : Store} {S : Value → List Value} {i w f sig : Value}

/-- What is held for a member under its wrappers: the wrappers themselves, or a static method of them. -/
inductive Carries (cls : Bool) (s : Store) (f : Value) : Value → List Value → Prop where
  | bare {w : Value} {sigs : List Value} : s.Signed f w sigs → Carries cls s f w sigs
  | static {v w : Value} {sigs : List Value} : cls = true → s.IsStatic v w → s.Signed f w sigs →
      Carries cls s f v sigs

/-- In the store the target, which was as in `s` at first, bears these signatures at its sites. -/
structure Bears (R : Store → Store → Prop) (m : Machine) (held : Store → Value → Option Value) (cls : Bool)
    (s t : Store) (S : Value → List Value) : Prop where
  later : R s t
  carries : ∀ i w, held t i = some w → ∃ f, Carries cls t f w (S i) ∧ t.Clear R m f
  full : ∀ i, S i ≠ [] → (held t i).isSome
  first : ∀ i, S i = [] → held t i = held s i

theorem Carries.keep {sigs : List Value} (h : Carries cls s f w sigs) (ht : s.Keeps .layers t) :
    Carries cls t f w sigs := by
  cases h with
  | bare h => exact .bare (h.keep ht)
  | static hcls hstatic h => exact .static hcls (hstatic.keep ht) (h.keep ht)

section bears
variable (hR : s.Evolves R) (h : Bears R m held cls s t S)
include hR h

theorem Bears.grows (hstays : ∀ t u, R s t → t.Grows u → held u = held t) (hu : t.Grows u) :
    Bears R m held cls s u S := by
  have hlater := hR.grows t u h.later hu
  have hkeeps := hR.layers t u h.later hlater
  have hheld := hstays t u h.later hu
  refine ⟨hR.lasting t u h.later hu,fun i w hw => ?_,?_,?_⟩
  · obtain ⟨f,hc,hf⟩ := h.carries i w (by rwa [hheld] at hw)
    exact ⟨f,hc.keep hkeeps,hf.later hR h.later hlater⟩
  · rw [hheld]
    exact h.full
  · rw [hheld]
    exact h.first

/-- The member at a site is wrapped, and the others are left alone. -/
theorem Bears.signs {w f : Value} (hu : R t u) (hi : held u i = some w) (hc : Carries cls u f w (sig :: S i))
    (hf : u.Clear R m f) (hothers : ∀ j, j ≠ i → held u j = held t j) :
    Bears R m held cls s u (Function.update S i (sig :: S i)) := by
  have hkeeps := hR.layers t u h.later hu
  refine ⟨hR.trans s t u hR.start h.later hu,fun j v hv => ?_,fun j hj => ?_,fun j hj => ?_⟩
  all_goals by_cases hij : j = i
  · subst hij
    obtain rfl : w = v := by simpa [hi] using hv
    rw [Function.update_self]
    exact ⟨f,hc,hf⟩
  · rw [Function.update_of_ne hij]
    obtain ⟨g,hg,hclear⟩ := h.carries j v (by rwa [hothers j hij] at hv)
    exact ⟨g,hg.keep hkeeps,hclear.later hR h.later hu⟩
  · subst hij
    simp [hi]
  · rw [Function.update_of_ne hij] at hj
    rw [hothers j hij]
    exact h.full j hj
  · subst hij
    simp at hj
  · rw [Function.update_of_ne hij] at hj
    rw [hothers j hij,h.first j hj]

end bears

/-- A target that holds its members at sites, in stores that bear signatures there.  What is read of a member is
signed with the last signature that its site was signed with, and a wrapper that is installed signs it once more; the
steps in between leave the members alone. -/
structure Host (E R : Store → Store → Prop) (m : Machine) (target : Value) (names : Value → Prop)
    (site : Value → Option Value) (B : Store → (Value → List Value) → Prop) (s : Store) : Prop where
  evolves : s.Evolves R
  steps : Steps (R s) E
  within : ∀ t u, R s t → E t u → R t u
  later : ∀ t S, B t S → R s t
  keeps : ∀ t u S, B t S → E t u → B u S
  reads : ∀ t S n v u, B t S → names n → Signature.memberOf m target n t = .ok v u →
    ∃ i, site n = some i ∧ u.Topped R m v (S i).head?
  installs : ∀ t S n k sig, B t S → names n → t.Enforces k sig →
    (Wrapper.install m target n k).Leads (fun _ u => ∃ i, site n = some i ∧ B u (Function.update S i (sig :: S i)))
      (B · S) t

/-- Whether an entry is one that is checked when its member is called. -/
def Calls (W : Store → Prop) (m : Machine) (target : Value) (p : Value × Value) (b : Bool) : Prop :=
  ∀ t v u c z, W t → Signature.memberOf m target p.1 t = .ok v u →
    (if u.isCallable v then isSignature m p.2 else pure false) u = .ok c z → c = b

/-- The signature that a map has for the callable member at a site. -/
def signs? (site : Value → Option Value) (calls : Value × Value → Bool) (map : List (Value × Value)) (i : Value) :
    Option Value :=
  (map.find? fun p => site p.1 = some i ∧ calls p).map Prod.snd

/-- Whether the member of an entry is to be wrapped, given what is borne. -/
def due (site : Value → Option Value) (calls : Value × Value → Bool) (S : Value → List Value) (p : Value × Value) : Bool :=
  calls p && match site p.1 with
    | some i => (S i).head? ≠ some p.2
    | none => false

/-- What is borne once the members of some entries were wrapped. -/
def signAll (site : Value → Option Value) : (Value → List Value) → List (Value × Value) → Value → List Value
  | S, [] => S
  | S, p :: ps => signAll site (match site p.1 with
      | some i => Function.update S i (p.2 :: S i)
      | none => S) ps

section sites
variable {site : Value → Option Value} {calls : Value × Value → Bool} {S : Value → List Value}
  {map ps : List (Value × Value)} {p : Value × Value} {i : Value}

theorem signAll_other (h : ∀ p ∈ ps, site p.1 ≠ some i) : signAll site S ps i = S i := by
  induction ps generalizing S with
  | nil => rfl
  | cons p ps ih =>
    rw [signAll,ih fun q hq => h q (by simp [hq])]
    have hp := h p (by simp)
    cases hs : site p.1 with
    | none => rfl
    | some j =>
      have hne : i ≠ j := by
        rintro rfl
        exact hp hs
      exact Function.update_of_ne hne _ _

theorem signAll_site (honce : Once site ps) (hp : p ∈ ps) (hi : site p.1 = some i) :
    signAll site S ps i = p.2 :: S i := by
  induction ps generalizing S with
  | nil => cases hp
  | cons q ps ih =>
    obtain ⟨hq,honce⟩ := List.pairwise_cons.mp honce
    rcases List.mem_cons.mp hp with rfl | hp
    · rw [signAll,signAll_other fun r hr => hq r hr i hi,hi]
      simp
    · rw [signAll,ih honce hp]
      have hne : site q.1 ≠ some i := fun h => hq p hp i h hi
      cases hs : site q.1 with
      | none => rfl
      | some j =>
        have hij : i ≠ j := by
          rintro rfl
          exact hne hs
        exact congrArg _ (Function.update_of_ne hij _ _)

theorem signs?_eq_some (h : Once site map) {x : Value} : signs? site calls map i = some x ↔
    ∃ p ∈ map, site p.1 = some i ∧ calls p ∧ p.2 = x := by
  rw [signs?,Option.map_eq_some_iff]
  constructor
  · rintro ⟨p,hp,rfl⟩
    have hfound := List.find?_some hp
    simp only [decide_eq_true_eq] at hfound
    exact ⟨p,List.mem_of_find?_eq_some hp,hfound.1,hfound.2,rfl⟩
  · rintro ⟨p,hp,hi,hc,rfl⟩
    cases hf : map.find? fun p => site p.1 = some i ∧ calls p with
    | none =>
      have := List.find?_eq_none.mp hf p hp
      simp [hi,hc] at this
    | some q =>
      have hfound := List.find?_some hf
      simp only [decide_eq_true_eq] at hfound
      exact ⟨q,rfl,by rw [h.eq hp (List.mem_of_find?_eq_some hf) hi hfound.1]⟩

/-- Wrapping some of the members that are to be wrapped. -/
theorem signAll_some (h : Once site map) (hps : ps.Sublist (map.filter (due site calls S))) (i : Value) :
    signAll site S ps i = S i ∨ signAll site S ps i = pushed (S i) (signs? site calls map i) := by
  by_cases hex : ∃ p ∈ ps, site p.1 = some i
  · obtain ⟨p,hp,hi⟩ := hex
    right
    obtain ⟨hmem,hdue⟩ := List.mem_filter.mp (hps.subset hp)
    obtain ⟨hc,hhead⟩ : calls p = true ∧ (S i).head? ≠ some p.2 := by simpa [due,hi] using hdue
    rw [signAll_site (h.sublist (hps.trans List.filter_sublist)) hp hi,
      (signs?_eq_some h).mpr ⟨p,hmem,hi,hc,rfl⟩,pushed,if_neg hhead]
  · exact Or.inl (signAll_other fun p hp hi => hex ⟨p,hp,hi⟩)

/-- Wrapping them all. -/
theorem signAll_due (h : Once site map) (i : Value) :
    signAll site S (map.filter (due site calls S)) i = pushed (S i) (signs? site calls map i) := by
  cases hs : signs? site calls map i with
  | none =>
    refine signAll_other fun p hp hi => ?_
    obtain ⟨hmem,hdue⟩ := List.mem_filter.mp hp
    obtain ⟨hc,-⟩ : calls p = true ∧ (S i).head? ≠ some p.2 := by simpa [due,hi] using hdue
    have hp : signs? site calls map i = some p.2 := (signs?_eq_some h).mpr ⟨p,hmem,hi,hc,rfl⟩
    simp [hs] at hp
  | some x =>
    obtain ⟨p,hp,hi,hc,rfl⟩ := (signs?_eq_some h).mp hs
    by_cases hhead : (S i).head? = some p.2
    · rw [pushed,if_pos hhead]
      refine signAll_other fun q hq hqi => ?_
      obtain ⟨hmem,hdue⟩ := List.mem_filter.mp hq
      obtain rfl := h.eq hp hmem hi hqi
      simp [due,hi,hhead] at hdue
    · rw [pushed,if_neg hhead]
      refine signAll_site (h.sublist List.filter_sublist) (List.mem_filter.mpr ⟨hp,?_⟩) hi
      simp [due,hc,hi,hhead]

end sites
end Attachment
end CallContracts
