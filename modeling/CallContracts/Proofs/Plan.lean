import CallContracts.Proofs.Builders
import CallContracts.Proofs.Curried
/-! Plans of contracts.  A plan says which tests, classes and atoms a contract is built from and how these are put
together, and leaves out what it is described by.  What a program builds by a plan is in place, with all that it is
made of, for as long as the library's objects are left alone. -/
namespace CallContracts
open Act

namespace Contract

/-- How a contract is built, but for the texts. -/
inductive Plan where
  | atom (c : Contract)
  | inst (k : Value)
  | test (f : Value)
  | all (ps : List Plan)
  | any (ps : List Plan)
  | not (p : Plan)
  | maybe (p : Plan)
  | anyArray
  | array (p : Plan)
  | product (ps : List Plan)
  | record (fs : List (Value × Plan))
  | proc (ps : List Plan) (r : Plan)

/-- A single part in a row stands for itself. -/
def Plan.positional : List Plan → Plan
  | [p] => p
  | ps => .product ps

/-- Whether it is a signature that is built. -/
def Plan.isProc : Plan → Bool
  | .proc _ _ => true
  | _ => false

/-- What a signature takes and what it promises. -/
structure Promises (s : Store) (c : Contract) (cs : List Contract) (r : Contract) : Prop where
  cls : s.classOf c.value = .builtin .signature
  worded : s.Worded c
  rule : c.rule = .function
  parts : ∃ p i, s.IsSignature c.value cs p ∧ p.ret = r.value ∧ p.input = i.value ∧ s.Worded i

mutual
/-- A contract that is in place with all that it is made of, and is built like this. -/
def Plan.Fits (s : Store) : Plan → Contract → Prop
  | .atom a, c => c = a ∧ a ∈ atoms.map Prod.fst ∧ s.HasAtoms ∧ s.Made c a.rule
  | .inst k, c => s.Made c (.instanceOf k)
  | .test f, c => s.Made c (.test f)
  | .all ps, c => ∃ cs, s.Made c (.all cs) ∧ fitsAll s ps cs
  | .any ps, c => ∃ cs, s.Made c (.any cs) ∧ fitsAll s ps cs
  | .not p, c => ∃ d, s.Made c (.not d) ∧ p.Fits s d
  | .maybe p, c => ∃ d, s.Made c (.maybe d) ∧ p.Fits s d
  | .anyArray, c => s.Made c .arrayOfAny
  | .array p, c => ∃ d, s.Made c (.arrayOf d) ∧ p.Fits s d
  | .product ps, c => ∃ cs, s.Made c (.product cs) ∧ fitsAll s ps cs
  | .record fs, c => ∃ shape, s.Made c (.record shape) ∧ fitsShape s fs shape
  | .proc ps r, c => ∃ cs d, Promises s c cs d ∧ fitsAll s ps cs ∧ r.Fits s d
def fitsAll (s : Store) : List Plan → List Contract → Prop
  | [], cs => cs = []
  | p :: ps, cs => ∃ d ds, cs = d :: ds ∧ p.Fits s d ∧ fitsAll s ps ds
def fitsShape (s : Store) : List (Value × Plan) → List (Value × Contract) → Prop
  | [], shape => shape = []
  | (k, p) :: fs, shape => ∃ d es, shape = (k,d) :: es ∧ p.Fits s d ∧ fitsShape s fs es
end

/-- A computation ends well with a contract. -/
def Yields (f : Act Value) (s : Store) (c : Contract) (t : Store) : Prop :=
  f s = .ok c.value t ∧ t.contract? c.value = some c

/-- A contract that a program has built by a plan, out of user contracts that are described by any texts. -/
inductive Built : Store → Contract → Plan → Prop
  | kept {s t : Store} {c : Contract} {p : Plan} : Built s c p → s.Keeps .library t → Built t c p
  | atom {s : Store} {c : Contract} : s.HasAtoms → c ∈ atoms.map Prod.fst → s.Made c c.rule → Built s c (.atom c)
  | user {s t : Store} {c : Contract} {x : String} {f : Value} : Yields (make (.str x) (.test f) f) s c t →
      Built t c (.test f)
  | inst {m : Machine} {s t : Store} {c : Contract} {k : Value} : Yields (ofInstances m k) s c t → Built t c (.inst k)
  | all {m : Machine} {s t : Store} {c : Contract} {es : List (Contract × Plan)} : (∀ e ∈ es, Built s e.1 e.2) →
      Yields (Contract.all m (es.map (·.1.value))) s c t → Built t c (.all (es.map Prod.snd))
  | any {m : Machine} {s t : Store} {c : Contract} {es : List (Contract × Plan)} : (∀ e ∈ es, Built s e.1 e.2) →
      Yields (Contract.any m (es.map (·.1.value))) s c t → Built t c (.any (es.map Prod.snd))
  | negate {m : Machine} {s t : Store} {c d : Contract} {p : Plan} : Built s d p →
      Yields (Contract.negate m d.value) s c t → Built t c (.not p)
  | maybe {m : Machine} {s t : Store} {c d : Contract} {p : Plan} : Built s d p →
      Yields (Contract.maybe m d.value) s c t → Built t c (.maybe p)
  | array {m : Machine} {s t : Store} {c d : Contract} {p : Plan} : Built s d p → d.id ≠ anyRef →
      Yields (Contract.array m d.value) s c t → Built t c (.array p)
  | anyArray {m : Machine} {s t : Store} {c : Contract} {y : Value} : s.HasAtoms → y ∈ [.absent,anything.value] →
      Yields (Contract.array m y) s c t → Built t c .anyArray
  | product {m : Machine} {s t : Store} {c : Contract} {y : Value} {es : List (Contract × Plan)} :
      (∀ e ∈ es, Built s e.1 e.2) → (iterate m y).Gives (es.map (·.1.value)) s →
      Yields (Contract.product m y) s c t → Built t c (.product (es.map Prod.snd))
  | seq {m : Machine} {s t : Store} {c : Contract} {es : List (Contract × Plan)} : (∀ e ∈ es, Built s e.1 e.2) →
      Yields (Contract.seq m (es.map (·.1.value))) s c t → Built t c (.positional (es.map Prod.snd))
  | seqOf {m : Machine} {s t : Store} {c : Contract} {y : Value} {es : List (Contract × Plan)} :
      (∀ e ∈ es, Built s e.1 e.2) → (isArray m y).Gives true s →
      Always (s.Grows ·) (iterate m y) (es.map (·.1.value)) → Yields (Contract.seq m [y]) s c t →
      Built t c (.positional (es.map Prod.snd))
  | record {m : Machine} {s t : Store} {c : Contract} {y : Value} {fs : List (Value × Contract × Plan)} :
      (∀ f ∈ fs, Built s f.2.1 f.2.2) → (entriesOf m y).Gives (fs.map fun f => (f.1,f.2.1.value)) s →
      Yields (Contract.record m y) s c t → s.Keeps .library t → Built t c (.record (fs.map fun f => (f.1,f.2.2)))
  | proc {M : Machine} {s t : Store} {c d : Contract} {r : Plan} {es : List (Contract × Plan)} :
      (∀ e ∈ es, Built s e.1 e.2) → Built s d r →
      Yields (Contract.proc M.next (es.map (·.1.value) ++ [d.value])) s c t → Built t c (.proc (es.map Prod.snd) r)
  | signature {M : Machine} {s t : Store} {c d i : Contract} {r q : Plan} {y : Value} {es : List (Contract × Plan)} :
      (∀ e ∈ es, Built s e.1 e.2) → Built s i q → Built s d r → (iterate M.next y).Gives (es.map (·.1.value)) s →
      Yields (makeSignature M.next y i.value d.value) s c t → Built t c (.proc (es.map Prod.snd) r)

section fits
variable {s t : Store} {c d : Contract} {cs ds : List Contract} {p : Plan} {ps : List Plan}

theorem fitsAll_iff : fitsAll s ps cs ↔ List.Forall₂ (Plan.Fits s) ps cs := by
  induction ps generalizing cs with
  | nil => simp [fitsAll]
  | cons p ps ih =>
    simp only [fitsAll,List.forall₂_cons_left_iff,ih]
    exact ⟨fun ⟨d,ds,hcs,h,h'⟩ => ⟨d,ds,h,h',hcs⟩,fun ⟨d,ds,h,h',hcs⟩ => ⟨d,ds,hcs,h,h'⟩⟩

theorem fitsShape_iff {fs : List (Value × Plan)} {shape : List (Value × Contract)} : fitsShape s fs shape ↔
    List.Forall₂ (fun f e => e.1 = f.1 ∧ f.2.Fits s e.2) fs shape := by
  induction fs generalizing shape with
  | nil => simp [fitsShape]
  | cons f fs ih =>
    obtain ⟨k,p⟩ := f
    simp only [fitsShape,List.forall₂_cons_left_iff,ih]
    constructor
    · rintro ⟨d,es,rfl,h,h'⟩
      exact ⟨(k,d),es,⟨rfl,h⟩,h',rfl⟩
    · rintro ⟨⟨k',d⟩,es,⟨rfl,h⟩,h',rfl⟩
      exact ⟨d,es,rfl,h,h'⟩

theorem Promises.keep {r : Contract} (h : Promises s c cs r) (ht : s.Keeps .library t) : Promises t c cs r := by
  obtain ⟨q,i,hsig,hr,hi,hw⟩ := h.parts
  exact ⟨by rw [ht.classOf h.worded.held.holds,h.cls],h.worded.keep ht,h.rule,q,i,
    Signature.isSignature_library hsig ht,hr,hi,hw.keep ht⟩

mutual
theorem Plan.Fits.keep (ht : s.Keeps .library t) : ∀ {p : Plan} {c : Contract}, p.Fits s c → p.Fits t c
  | .atom a, c, h => by
    simp only [Plan.Fits] at h ⊢
    exact ⟨h.1,h.2.1,h.2.2.1.keep ht,h.2.2.2.keep ht⟩
  | .inst k, c, h => by
    simp only [Plan.Fits] at h ⊢
    exact h.keep ht
  | .test f, c, h => by
    simp only [Plan.Fits] at h ⊢
    exact h.keep ht
  | .anyArray, c, h => by
    simp only [Plan.Fits] at h ⊢
    exact h.keep ht
  | .all ps, c, h | .any ps, c, h | .product ps, c, h => by
    simp only [Plan.Fits] at h ⊢
    obtain ⟨cs,hc,hcs⟩ := h
    exact ⟨cs,hc.keep ht,fitsAll_keep ht hcs⟩
  | .not p, c, h | .maybe p, c, h | .array p, c, h => by
    simp only [Plan.Fits] at h ⊢
    obtain ⟨d,hc,hd⟩ := h
    exact ⟨d,hc.keep ht,hd.keep ht⟩
  | .record fs, c, h => by
    simp only [Plan.Fits] at h ⊢
    obtain ⟨shape,hc,hshape⟩ := h
    exact ⟨shape,hc.keep ht,fitsShape_keep ht hshape⟩
  | .proc ps r, c, h => by
    simp only [Plan.Fits] at h ⊢
    obtain ⟨cs,d,hc,hcs,hd⟩ := h
    exact ⟨cs,d,hc.keep ht,fitsAll_keep ht hcs,hd.keep ht⟩
theorem fitsAll_keep (ht : s.Keeps .library t) : ∀ {ps : List Plan} {cs : List Contract},
    fitsAll s ps cs → fitsAll t ps cs
  | [], cs, h => by simpa only [fitsAll] using h
  | p :: ps, cs, h => by
    simp only [fitsAll] at h ⊢
    obtain ⟨d,ds,hcs,hd,hds⟩ := h
    exact ⟨d,ds,hcs,hd.keep ht,fitsAll_keep ht hds⟩
theorem fitsShape_keep (ht : s.Keeps .library t) : ∀ {fs : List (Value × Plan)} {shape : List (Value × Contract)},
    fitsShape s fs shape → fitsShape t fs shape
  | [], shape, h => by simpa only [fitsShape] using h
  | (k,p) :: fs, shape, h => by
    simp only [fitsShape] at h ⊢
    obtain ⟨d,es,hshape,hd,hes⟩ := h
    exact ⟨d,es,hshape,hd.keep ht,fitsShape_keep ht hes⟩
end

theorem Plan.Fits.worded (h : p.Fits s c) : s.Worded c := by
  cases p with
  | proc ps r =>
    simp only [Plan.Fits] at h
    obtain ⟨cs,d,hc,hcs,hd⟩ := h
    exact hc.worded
  | atom a =>
    simp only [Plan.Fits] at h
    exact h.2.2.2.worded
  | inst | test | anyArray =>
    simp only [Plan.Fits] at h
    exact h.worded
  | _ =>
    simp only [Plan.Fits] at h
    obtain ⟨d,hc,hd⟩ := h
    exact hc.worded

section built
variable {es : List (Contract × Plan)} {f : Act Value}

theorem fitsAll_of_mem (h : ∀ e ∈ es, e.2.Fits s e.1) : fitsAll s (es.map Prod.snd) (es.map Prod.fst) := by
  rw [fitsAll_iff,List.forall₂_map_left_iff,List.forall₂_map_right_iff,List.forall₂_same]
  exact h

theorem worded_of_mem (h : ∀ e ∈ es, e.2.Fits s e.1) : ∀ c ∈ es.map Prod.fst, s.Worded c := by
  intro c hc
  obtain ⟨e,he,rfl⟩ := List.mem_map.mp hc
  exact (h e he).worded

theorem map_value : es.map (·.1.value) = (es.map Prod.fst).map value := by simp

theorem value_inj (h : c.value = d.value) (hc : t.contract? c.value = some c) (hd : t.contract? d.value = some d) :
    c = d := by
  rw [h,hd] at hc
  exact (Option.some.inj hc).symm

/-- What a builder was seen to give is the contract that it makes. -/
theorem made_of_yields {r : Rule} (h : f.Quiet (fun x u => ∃ c : Contract, x = c.value ∧ u.Made c r) s)
    (hc : Yields f s c t) : s.Grows t ∧ t.Made c r := by
  obtain ⟨hg,d,hd,hmade⟩ := h.seen hc.1
  obtain rfl := value_inj hd hc.2 hmade.held
  exact ⟨hg,hmade⟩

theorem fits_positional (h : ∀ e ∈ es, e.2.Fits s e.1)
    (hf : f.Quiet (fun x u => ∃ c : Contract, x = c.value ∧ (es.map Prod.fst = [c] ∧ u.Worded c ∨
      (es.map Prod.fst).length ≠ 1 ∧ u.Made c (.product (es.map Prod.fst)))) s)
    (hc : Yields f s c t) : (Plan.positional (es.map Prod.snd)).Fits t c := by
  obtain ⟨hg,d,hd,hcase⟩ := hf.seen hc.1
  have ht := Store.Keeps.of_grows (F := .library) hg
  rcases hcase with ⟨hes,hw⟩ | ⟨hne,hmade⟩
  · obtain rfl := value_inj hd hc.2 hw.held.held
    obtain ⟨e,rfl,rfl⟩ : ∃ e, es = [e] ∧ e.1 = c := by
      rcases es with _ | ⟨e,_ | ⟨_,_⟩⟩ <;> simp at hes
      exact ⟨e,rfl,hes⟩
    exact (h e (by simp)).keep ht
  · obtain rfl := value_inj hd hc.2 hmade.held
    have hfits : (Plan.product (es.map Prod.snd)).Fits t c := by
      simp only [Plan.Fits]
      exact ⟨_,hmade,fitsAll_keep ht (fitsAll_of_mem h)⟩
    rcases es with _ | ⟨e,_ | ⟨e',es⟩⟩
    · exact hfits
    · exact absurd rfl hne
    · exact hfits

/-- What is built out of a row of contracts holds them, and they fit as before. -/
theorem fits_row {r : Rule} (h : ∀ e ∈ es, e.2.Fits s e.1)
    (hf : f.Quiet (fun x u => ∃ c : Contract, x = c.value ∧ u.Made c r) s) (hc : Yields f s c t) :
    t.Made c r ∧ fitsAll t (es.map Prod.snd) (es.map Prod.fst) := by
  obtain ⟨hg,hmade⟩ := made_of_yields hf hc
  exact ⟨hmade,fitsAll_keep (Store.Keeps.of_grows hg) (fitsAll_of_mem h)⟩

/-- The same with a single contract. -/
theorem fits_part {r : Rule} (h : p.Fits s d)
    (hf : f.Quiet (fun x u => ∃ c : Contract, x = c.value ∧ u.Made c r) s) (hc : Yields f s c t) :
    t.Made c r ∧ p.Fits t d := by
  obtain ⟨hg,hmade⟩ := made_of_yields hf hc
  exact ⟨hmade,h.keep (Store.Keeps.of_grows hg)⟩

theorem made_user {x : String} {g : Value} (hc : Yields (make (.str x) (.test g) g) s c t) : t.Made c (.test g) := by
  obtain ⟨_,u,hu,hg,rfl,ho⟩ := quiet_alloc
    { cls := .builtin .contract, body := .contract (.mk s.heap.size (.str x) (.test g)) g none } s
  have hk := Store.contract?_of_body (Store.body?_of_get? ho)
  obtain ⟨hx,rfl⟩ : Value.ref s.heap.size = c.value ∧ u = t := by simpa [hu] using hu.symm.trans hc.1
  obtain rfl : Contract.mk s.heap.size (.str x) (.test g) = c := value_inj hx hk hc.2
  exact ⟨Store.classOf_of_get? ho,hk,⟨x,rfl⟩,rfl⟩

theorem fits_record {m : Machine} {y : Value} {fs : List (Value × Contract × Plan)}
    (h : ∀ f ∈ fs, f.2.2.Fits s f.2.1) (hy : (entriesOf m y).Gives (fs.map fun f => (f.1,f.2.1.value)) s)
    (hc : Yields (Contract.record m y) s c t) (ht : s.Keeps .library t) :
    t.Made c (.record (fs.map fun f => (f.1,f.2.1))) ∧
      fitsShape t (fs.map fun f => (f.1,f.2.2)) (fs.map fun f => (f.1,f.2.1)) := by
  have hmap : fs.map (fun f => (f.1,f.2.1.value)) = (fs.map fun f => (f.1,f.2.1)).map fun e => (e.1,e.2.value) := by
    simp
  have hworded : ∀ e ∈ fs.map (fun f => (f.1,f.2.1)), s.Worded e.2 := by
    intro e he
    obtain ⟨f,hf,rfl⟩ := List.mem_map.mp he
    exact (h f hf).worded
  obtain ⟨d,hd,hmade⟩ := made_record hworded (hmap ▸ hy) hc.1
  obtain rfl := value_inj hd hc.2 hmade.held
  refine ⟨hmade,fitsShape_keep ht ?_⟩
  rw [fitsShape_iff,List.forall₂_map_left_iff,List.forall₂_map_right_iff,List.forall₂_same]
  exact fun f hf => ⟨rfl,h f hf⟩

/-- A signature takes the contracts that it was built out of and promises the last. -/
theorem promises_proc {M : Machine} (h : ∀ e ∈ es, e.2.Fits s e.1) (hd : s.Worded d)
    (hc : Yields (Contract.proc M.next (es.map (·.1.value) ++ [d.value])) s c t) :
    s.Keeps .library t ∧ Promises t c (es.map Prod.fst) d := by
  have hstands : ∀ c ∈ es.map Prod.fst, ∃ x, c.Stands s M.next x := fun c hc => (worded_of_mem h c hc).stands
  obtain ⟨x,hx⟩ := hd.stands (M := M)
  obtain ⟨hg,hassembled⟩ := (quiet_assemble hstands hx).seen (map_value ▸ hc.1)
  have ht := Store.Keeps.of_grows (F := .library) hg
  obtain ⟨q,hsig,hq,i,hi,hinput⟩ := hassembled.parts
  obtain ⟨e,he,hw⟩ := hassembled.contract
  obtain rfl := value_inj he hc.2 hw.held.held
  have hiw : t.Worded i := by
    rcases hinput with hmem | hw
    · exact (worded_of_mem h i hmem).keep ht
    · exact hw
  obtain ⟨e,he,hw',hrule⟩ := worded_proc _ s _ t hc.1
  obtain rfl := value_inj he hw.held.held hw'.held.held
  exact ⟨ht,hsig.cls,hw,hrule,q,i,hsig,hq,hi,hiw⟩

/-- So does one that is put together by hand. -/
theorem promises_signature {M : Machine} {i : Contract} {y : Value} (hi : s.Worded i) (hd : s.Worded d)
    (hy : (iterate M.next y).Gives (es.map (·.1.value)) s)
    (hc : Yields (makeSignature M.next y i.value d.value) s c t) :
    s.Keeps .library t ∧ Promises t c (es.map Prod.fst) d := by
  obtain ⟨x,hx⟩ := hi.stands (M := M)
  obtain ⟨z,hz⟩ := hd.stands (M := M)
  obtain ⟨hg,⟨p,hsig,hret,hinput⟩,e,he,hw⟩ := (quiet_makeSignature (map_value ▸ hy) hx hz).seen hc.1
  have ht := Store.Keeps.of_grows (F := .library) hg
  obtain rfl := value_inj he hc.2 hw.held.held
  obtain ⟨e,he,hw',hrule⟩ := worded_makeSignature _ _ _ s _ t hc.1
  obtain rfl := value_inj he hw.held.held hw'.held.held
  exact ⟨ht,hsig.cls,hw,hrule,p,i,hsig,hret,hinput,hi.keep ht⟩

/-- What was built by a plan is in place, and fits the plan. -/
theorem Built.fits (h : Built s c p) : p.Fits s c := by
  induction h with
  | kept _ ht ih => exact ih.keep ht
  | atom hs hc hmade =>
    simp only [Plan.Fits,true_and]
    exact ⟨hc,hs,hmade⟩
  | user hc =>
    simp only [Plan.Fits]
    exact made_user hc
  | @inst m s t c k hc =>
    simp only [Plan.Fits]
    obtain ⟨d,hd,hmade⟩ := made_instance k s _ t hc.1
    obtain rfl := value_inj hd hc.2 hmade.held
    exact hmade
  | all _ hc ih =>
    simp only [Plan.Fits]
    exact ⟨_,fits_row ih (made_all (worded_of_mem ih)) (map_value ▸ hc)⟩
  | any _ hc ih =>
    simp only [Plan.Fits]
    exact ⟨_,fits_row ih (made_any (worded_of_mem ih)) (map_value ▸ hc)⟩
  | negate _ hc ih =>
    simp only [Plan.Fits]
    exact ⟨_,fits_part ih (made_negate ih.worded) hc⟩
  | maybe _ hc ih =>
    simp only [Plan.Fits]
    exact ⟨_,fits_part ih (made_maybe ih.worded) hc⟩
  | array _ hne hc ih =>
    simp only [Plan.Fits]
    have hfits := fits_part ih (made_array ih.worded (by simp [value])) hc
    rw [if_neg hne] at hfits
    exact ⟨_,hfits⟩
  | @anyArray m s t c y hs hy hc =>
    simp only [Plan.Fits]
    have hany : s.Worded anything := ⟨hs anything (by simp [standard]),_,rfl⟩
    have hvalue : (if y = .absent then .ref anyRef else y) = anything.value := by
      rcases List.mem_cons.mp hy with rfl | hy
      · rfl
      · obtain rfl := List.mem_singleton.mp hy
        rfl
    exact (made_of_yields (made_array hany hvalue) hc).2
  | product _ hy hc ih =>
    simp only [Plan.Fits]
    exact ⟨_,fits_row ih (made_product (worded_of_mem ih) (map_value ▸ hy)) hc⟩
  | seq _ hc ih => exact fits_positional ih (made_seq (worded_of_mem ih)) (map_value ▸ hc)
  | seqOf _ ha hy hc ih => exact fits_positional ih (made_seqOf (worded_of_mem ih) ha (map_value ▸ hy)) hc
  | record _ hy hc ht ih =>
    simp only [Plan.Fits]
    exact ⟨_,fits_record ih hy hc ht⟩
  | proc _ _ hc ih ihr =>
    simp only [Plan.Fits]
    obtain ⟨ht,hp⟩ := promises_proc ih ihr.worded hc
    exact ⟨_,_,hp,fitsAll_keep ht (fitsAll_of_mem ih),ihr.keep ht⟩
  | signature _ _ _ hy hc ih ihi ihr =>
    simp only [Plan.Fits]
    obtain ⟨ht,hp⟩ := promises_signature ihi.worded ihr.worded hy hc
    exact ⟨_,_,hp,fitsAll_keep ht (fitsAll_of_mem ih),ihr.keep ht⟩

end built
end fits

end Contract
end CallContracts
