import CallContracts.Proofs.Attachment
/-! Sparing a target.  Looking at a map of signatures and at the members that it names leaves the slots of
the target as they were, whatever comes of it, as long as no question that is asked touches them. -/
namespace CallContracts
open Act

/-- What the slots of a target hold: its attributes, its storage places and its entries. -/
def Store.slots (s : Store) (v : Value) : List (Value × Value) :=
  fieldEntries ((s.attrs? v).getD []) ++ fieldEntries (((s.obj? v).map Obj.slots).getD [])
    ++ (s.entries? v).getD []

/-- Whether a slot holds an object that was not there when the store had `size` objects. -/
def Store.Touched (s : Store) (v : Value) (size : Nat) : Prop :=
  ∃ e ∈ s.slots v, ∃ r, e.2 = .ref r ∧ size ≤ r

namespace Act
variable {α β : Type} {W : Store → Prop} {target : Value} {x : Act α} {f : α → Act β}

/-- Whether it ends well or not, the slots of the target are as they were. -/
def Spares (W : Store → Prop) (target : Value) (x : Act α) : Prop :=
  ∀ t, W t → W (after x t) ∧ (after x t).slots target = t.slots target

/-- What a computation may come to. -/
def MayGive (W : Store → Prop) (x : Act α) (a : α) : Prop := ∃ t u, W t ∧ x t = .ok a u

theorem spares_pure (a : α) : Spares W target (pure a : Act α) := fun _ ht => ⟨ht,rfl⟩

theorem spares_throw (e : Stop) : Spares W target (throw e : Act α) := fun _ ht => ⟨ht,rfl⟩

theorem spares_fail (q : Fault) : Spares W target (fail q : Act α) := spares_throw _

theorem spares_ofOption (q : Fault) (o : Option α) : Spares W target (ofOption q o) := by
  cases o with
  | none => exact spares_fail q
  | some a => exact spares_pure a

theorem Spares.bind (hx : Spares W target x) (hf : ∀ a, MayGive W x a → Spares W target (f a)) :
    Spares W target (x >>= f) := by
  intro t ht
  obtain ⟨hW,hs⟩ := hx t ht
  cases h : x t with
  | error e u =>
    rw [after_error h] at hW hs
    rw [after_error (bind_error h)]
    exact ⟨hW,hs⟩
  | ok a u =>
    rw [after_ok h] at hW hs
    have hu := hf a ⟨t,u,ht,h⟩ u hW
    have hafter : after (x >>= f) t = after (f a) u := by simp only [after,bind_ok h]
    rw [hafter]
    exact ⟨hu.1,hu.2.trans hs⟩

theorem Spares.get {f : Store → Act β} (h : ∀ t, W t → Spares W target (f t)) :
    Spares W target (MonadState.get >>= f) := by
  intro t ht
  have hafter : after (MonadState.get >>= f) t = after (f t) t := by simp only [after,get_bind_apply]
  rw [hafter]
  exact h t ht t ht

theorem Spares.ok {a : α} {t u : Store} (hx : Spares W target x) (ht : W t) (h : x t = .ok a u) :
    W u ∧ u.slots target = t.slots target := by
  have := hx t ht
  rwa [after_ok h] at this

theorem Spares.error {e : Stop} {t u : Store} (hx : Spares W target x) (ht : W t)
    (h : x t = .error e u) : W u ∧ u.slots target = t.slots target := by
  have := hx t ht
  rwa [after_error h] at this

theorem spares_each {xs : List α} {f : α → Act β} (h : ∀ x ∈ xs, Spares W target (f x)) :
    Spares W target (each f xs) := by
  induction xs with
  | nil => exact spares_pure _
  | cons x xs ih =>
    refine (h x (by simp)).bind fun y _ => ?_
    exact (ih fun z hz => h z (by simp [hz])).bind fun ys _ => spares_pure _

end Act

/-- Stores in which a target is watched: growth does not reach its slots. -/
structure Watched (W : Store → Prop) (target : Value) (size : Nat) : Prop where
  grows : ∀ t u, W t → t.Grows u → W u ∧ u.slots target = t.slots target
  size : ∀ t, W t → size ≤ t.heap.size

theorem Watched.spares {W : Store → Prop} {target : Value} {size : Nat} {α : Type} {x : Act α}
    (hW : Watched W target size) (hx : ∀ t, W t → t.Grows (after x t)) :
    Spares W target x :=
  fun t ht => hW.grows t _ ht (hx t ht)

theorem Watched.calm {W : Store → Prop} {target : Value} {size : Nat} {α : Type} {x : Act α}
    (hW : Watched W target size) (hx : AlwaysCalm W x) : Spares W target x := by
  refine hW.spares fun t ht => ?_
  obtain ⟨a,u,hu,hg⟩ := hx t ht
  rw [after_ok hu]
  exact hg

theorem Act.Always.calm {W : Store → Prop} {α : Type} {x : Act α} {a : α} (hx : Always W x a) :
    AlwaysCalm W x := fun t ht => (hx t ht).calm

/-- What always gives the same gives nothing else. -/
theorem Act.Always.eq {W : Store → Prop} {α : Type} {x : Act α} {a b : α} (hx : Always W x a)
    (hb : MayGive W x b) : b = a := by
  obtain ⟨t,u,ht,hu⟩ := hb
  obtain ⟨v,hv,-⟩ := hx t ht
  rw [hu] at hv
  cases hv
  rfl

namespace Signature
variable {W : Store → Prop} {m : Machine} {signatures target : Value} {p : Value × Value}

/-- What is recorded of an entry. -/
structure Told (W : Store → Prop) (m : Machine) (target : Value) (p : Value × Value) : Prop where
  name : Spares W target (written m p.1)
  description : Spares W target (descriptionOf m p.2)
  text : ∀ d, MayGive W (descriptionOf m p.2) d → Spares W target (written m d)

/-- Whether an entry is found to be one that is checked when its member is called. -/
inductive Called (W : Store → Prop) (m : Machine) (p : Value × Value) (v : Value) : Bool → Prop where
  | data {t : Store} : W t → t.isCallable v = false → Called W m p v false
  | asked {t : Store} {b : Bool} : W t → t.isCallable v = true → MayGive W (isSignature m p.2) b →
      Called W m p v b

/-- What is asked about a member. -/
structure Looked (W : Store → Prop) (m : Machine) (target : Value) (p : Value × Value) (v : Value) :
    Prop where
  signature : ∀ t, W t → t.isCallable v → Spares W target (isSignature m p.2)
  signed : Called W m p v true → Spares W target (isSignedWith m v p.2)
  matched : Called W m p v false → Spares W target (mismatches m p.2 v)
  short : Called W m p v false → MayGive W (mismatches m p.2 v) true → Spares W target (shortText m v)

/-- What is asked about an entry that holds a contract. -/
structure Asked (W : Store → Prop) (m : Machine) (target : Value) (p : Value × Value) : Prop where
  told : Told W m target p
  text : ∀ d, MayGive W (descriptionOf m p.2) d → Spares W target (formatted m d)
  has : Spares W target (hasMember m target p.1)
  member : MayGive W (hasMember m target p.1) true → Spares W target (memberOf m target p.1)
  looked : MayGive W (hasMember m target p.1) true → ∀ v, MayGive W (memberOf m target p.1) v →
    Looked W m target p v

/-- Nothing that is asked about an entry touches the slots of the target. -/
structure Unnoticed (W : Store → Prop) (m : Machine) (target : Value) (p : Value × Value) : Prop where
  contract : Spares W target (isContract m p.2)
  name : Spares W target (formatted m p.1)
  shown : MayGive W (isContract m p.2) false → Spares W target (shown m p.2)
  asked : MayGive W (isContract m p.2) true → Asked W m target p

section entry
variable {size : Nat} (hW : Watched W target size)
include hW

theorem spares_logAgainst (h : Told W m target p) (before between : String) :
    Spares W target (logAgainst m before between p.1 p.2) := by
  refine h.description.bind fun d hd => h.name.bind fun n _ => (h.text d hd).bind fun x _ => ?_
  exact hW.spares fun t _ => Store.Keeps.logged t (t.log ++ [before ++ n ++ between ++ x])

variable (hn : Spares W target (formatted m p.1)) (h : Asked W m target p) {v : Value}
  (hv : Looked W m target p v)
include hn h hv

theorem spares_checkMember (hcall : Called W m p v false) :
    Spares W target (checkMember m p.2 p.1 v) := by
  refine (spares_logAgainst hW h.told _ _).bind fun _ _ => (hv.matched hcall).bind fun b hb => ?_
  cases b with
  | false => exact spares_pure _
  | true =>
    refine h.told.description.bind fun d hd => Spares.bind ?_ fun b _ => spares_fail _
    refine hn.bind fun n _ => (h.text d hd).bind fun x _ => ?_
    exact (hv.short hcall hb).bind fun y _ => spares_pure _

theorem spares_judge {isCall : Bool} (hcall : Called W m p v isCall) :
    Spares W target (Attachment.judge m p v isCall) := by
  cases isCall with
  | false => exact (spares_checkMember hW hn h hv hcall).bind fun _ _ => spares_pure _
  | true =>
    refine (hv.signed hcall).bind fun b _ => ?_
    cases b with
    | false => exact spares_pure _
    | true => exact (spares_logAgainst hW h.told _ _).bind fun _ _ => spares_pure _

end entry

/-- Looking at an entry changes nothing, whatever comes of it. -/
theorem spares_examine {size : Nat} (hW : Watched W target size) (h : Unnoticed W m target p) :
    Spares W target (examine m target p.1 p.2) := by
  have found (ha : Asked W m target p) (hh : MayGive W (hasMember m target p.1) true) :
      Spares W target (do
        let member ← memberOf m target p.1
        let isCall ← if (← (get : Act Store)).isCallable member then isSignature m p.2 else pure false
        Attachment.judge m p member isCall) := by
    refine (ha.member hh).bind fun v hv => Spares.get fun t ht => ?_
    have hl := ha.looked hh v hv
    cases hc : t.isCallable v with
    | true =>
      refine (hl.signature t ht hc).bind fun b hb => ?_
      exact spares_judge hW h.name ha hl (.asked ht hc hb)
    | false => exact spares_judge hW h.name ha hl (.data ht hc)
  refine h.contract.bind fun b hb => ?_
  cases b with
  | false =>
    refine h.name.bind fun n _ => (h.shown hb).bind fun x _ => ?_
    exact (spares_fail _).bind fun _ ⟨_,_,_,he⟩ => by simp at he
  | true =>
    have ha := h.asked hb
    refine ha.has.bind fun b hh => ?_
    cases b with
    | false =>
      refine h.name.bind fun n _ => ?_
      exact (spares_fail _).bind fun _ ⟨_,_,_,he⟩ => by simp at he
    | true => exact found ha hh

/-- Going over the entries of a map goes unnoticed by the target, as does every question about them. -/
def Unheard (W : Store → Prop) (m : Machine) (target : Value) : Nat → Cursor → Prop
  | 0, _ => True
  | n + 1, c => Spares W target (c.next m) ∧ ∀ x c', MayGive W (c.next m) (some (x,c')) →
      Spares W target (fieldParts m x) ∧
      (∀ p, MayGive W (fieldParts m x) p → Unnoticed W m target p) ∧ Unheard W m target n c'

section pending
variable {size : Nat} (hW : Watched W target size)
include hW

theorem spares_pending {n : Nat} {c : Cursor} (noted : List (Value × Value))
    (hc : Unheard W m target n c) : Spares W target (pending m target noted n c) := by
  induction n generalizing c noted with
  | zero => exact spares_throw _
  | succ n ih =>
    obtain ⟨hnext,hrest⟩ := hc
    refine Spares.bind hnext fun o ho => ?_
    cases o with
    | none => exact spares_pure _
    | some o =>
      obtain ⟨x,c'⟩ := o
      obtain ⟨hparts,hentries,hc'⟩ := hrest x c' ho
      refine Spares.bind hparts fun p hp => ?_
      exact Spares.bind (spares_examine hW (hentries p hp)) fun b _ => ih _ hc'

end pending

/-- Whether the arguments of an attachment are accepted. -/
def accepts (m : Machine) (signatures target : Value) : Act Outcome := do
  Contract.attachment.outcome m (← newTuple [signatures,target])

theorem prepare_eq (m : Machine) (signatures target : Value) :
    prepare m signatures target = (accepts m signatures target >>= fun o =>
      if o = .mismatched then do
        let text ← Contract.attachment.inserted m
        fail (.misconfigured (.wrongArguments text))
      else do
        let items ← itemsOf m signatures
        pending m target [] ((← get).bound items) items) := by
  simp only [prepare,accepts,bind_assoc]
  rfl

/-- A map of signatures and an object are accepted. -/
theorem gives_accepts {t : Store} {target : Value} (hs : t.HasStandard)
    (hmap : Always (t.Grows ·) (Contract.signatureMap.outcome m signatures) .matched)
    (htarget : Always (t.Grows ·) (Contract.object.outcome m target) .matched) :
    (accepts m signatures target).Gives .matched t := by
  obtain ⟨pair,u,hu,hg,hpair⟩ := quiet_newTuple [signatures,target] t
  obtain ⟨v,hv,hg'⟩ := Contract.gives_attachment (m := m) (hs.grows hg) hpair (fun w hw => hmap w (hg.trans hw))
    fun w hw => htarget w (hg.trans hw)
  exact ⟨v,by rw [accepts,bind_ok hu,hv],hg.trans hg'⟩

/-- Nothing that comes before the first wrapper touches the slots of the target. -/
structure Prepares (W : Store → Prop) (m : Machine) (signatures target : Value) : Prop where
  arguments : Spares W target (accepts m signatures target)
  tells : MayGive W (accepts m signatures target) .mismatched →
    Spares W target (Contract.attachment.inserted m)
  items : Spares W target (itemsOf m signatures)
  entries : ∀ c n, MayGive W (itemsOf m signatures) c → Unheard W m target n c

theorem spares_prepare {size : Nat} (hW : Watched W target size) (h : Prepares W m signatures target) :
    Spares W target (prepare m signatures target) := by
  rw [prepare_eq]
  refine h.arguments.bind fun o ho => ?_
  by_cases hm : o = .mismatched
  · subst hm
    rw [if_pos rfl]
    exact (h.tells ho).bind fun d _ => spares_fail _
  · rw [if_neg hm]
    exact h.items.bind fun c hc => Spares.get fun t _ => spares_pending hW [] (h.entries c _ hc)

end Signature

namespace Store
variable {s t u : Store} {r : Ref} {o : Obj}

/-- An object that holds its slots itself: no annotations come into being, and nothing stands in for its
attributes or its entries. -/
structure HoldsOwn (s : Store) (r : Ref) (o : Obj) : Prop where
  place : s.get? r = some o
  annotated : o.body.annotated = false
  table : o.table = none
  proxy : ∀ v, o.body ≠ .proxy v

theorem HoldsOwn.grows (h : s.HoldsOwn r o) (ht : s.Grows t) :
    ∃ p, t.HoldsOwn r p ∧ t.slots (.ref r) = s.slots (.ref r) := by
  obtain ⟨p,hp,hk⟩ := ht.kept r o h.place trivial
  obtain ⟨hattrs,hslots⟩ := hk.same h.annotated rfl
  refine ⟨p,⟨hp,hk.body ▸ h.annotated,hk.table.trans h.table,hk.body ▸ h.proxy⟩,?_⟩
  have hentries (n k : Nat) : t.entriesFrom (n+1) (.ref r) = s.entriesFrom (k+1) (.ref r) := by
    simp only [entriesFrom,body?_of_get? hp,body?_of_get? h.place,hk.body]
    have hproxy := h.proxy
    cases hb : o.body <;> simp_all
  simp only [slots,entries?,hentries _ s.heap.size]
  simp [attrs?,obj?,hp,h.place,attrsOf,hk.table,h.table,hattrs,hslots]

theorem HoldsOwn.refill (h : s.HoldsOwn r o) (fs : List (Value × Value)) :
    ∃ p, (s.refill r fs).HoldsOwn r p :=
  ⟨{ o with body := .table fs },by simp [Store.refill,get?_update_self,h.place],rfl,h.table,by simp⟩

/-- Growth does not reach the slots of such an object. -/
theorem HoldsOwn.watched (h : s.HoldsOwn r o) : Watched (s.Grows ·) (.ref r) s.heap.size := by
  refine ⟨?_,fun t ht => ht.size⟩
  intro t u ht hu
  obtain ⟨p,hp,ht'⟩ := h.grows ht
  obtain ⟨q,-,hu'⟩ := hp.grows hu
  exact ⟨ht.trans hu,hu'⟩

end Store

namespace Attachment
variable {A : Answers} {M m : Machine} {W : Store → Prop} {s : Store} {d : Ref} {size : Nat}
  {es map : List (Value × Value)} {p : Value × Value}

theorem told_of_about {ks : List Value} (hW : Watched W (.ref d) size) (h : A.AboutEntry p W m ks)
    (hc : A.isContract p.2) : Signature.Told W m (.ref d) p := by
  obtain ⟨hdesc,-,hwritten⟩ := h.described hc
  refine ⟨hW.calm h.named.2,hW.calm hdesc.calm,?_⟩
  intro x hx
  rw [hdesc.eq hx]
  exact hW.calm hwritten

theorem isCall_of_called {v : Value} {b : Bool} {ks : List Value} (he : A.AboutEntry p W m ks)
    (hm : A.AboutMember p W m v) (h : Signature.Called W m p v b) : A.isCall p v = b := by
  cases h with
  | data ht hc => simp [Answers.isCall,← hm.callable _ ht,hc]
  | asked ht hc hb => simp [Answers.isCall,← hm.callable _ ht,hc,he.signature.eq hb]

/-- What is answered about an entry is asked without being noticed. -/
theorem unnoticed_of_about (hW : ∀ t u, W t → t.Grows u → W u) (hwatch : Watched W (.ref d) size)
    (hd : ∀ t, W t → t.IsTable d es) (h : A.About es p W m) :
    Signature.Unnoticed W m (.ref d) p := by
  have he := h.entry
  have hhas : Always W (Signature.hasMember m (.ref d) p.1) (A.member? es p).isSome := fun t ht =>
    gives_hasMember (fun u hu => hW t u ht hu) he (hd t ht) rfl
  have hmember (v : Value) (hv : A.member? es p = some v) :
      Always W (Signature.memberOf m (.ref d) p.1) v := fun t ht =>
    gives_memberOf (fun u hu => hW t u ht hu) he (hd t ht) rfl hv
  refine ⟨hwatch.calm he.contract.calm,hwatch.calm he.named.1,?_,?_⟩
  · intro hc
    exact hwatch.calm (he.shown (he.contract.eq hc).symm)
  · intro hc
    have hc := (he.contract.eq hc).symm
    obtain ⟨hdesc,hform,-⟩ := he.described hc
    have there (hh : MayGive W (Signature.hasMember m (.ref d) p.1) true) :
        ∃ v, A.member? es p = some v := Option.isSome_iff_exists.mp (hhas.eq hh).symm
    refine ⟨told_of_about hwatch he hc,?_,hwatch.calm hhas.calm,?_,?_⟩
    · intro x hx
      rw [hdesc.eq hx]
      exact hwatch.calm hform
    · intro hh
      obtain ⟨v,hv⟩ := there hh
      exact hwatch.calm (hmember v hv).calm
    · intro hh w hw
      obtain ⟨v,hv⟩ := there hh
      obtain rfl := (hmember v hv).eq hw
      have hm := h.member w hc hv
      refine ⟨fun t ht _ => hwatch.calm he.signature.calm,?_,?_,?_⟩
      · exact fun hcall => hwatch.calm (hm.signed (isCall_of_called he hm hcall)).calm
      · exact fun hcall => hwatch.calm (hm.matched (isCall_of_called he hm hcall)).calm
      · intro hcall hx
        have hcall := isCall_of_called he hm hcall
        exact hwatch.calm (hm.shown hcall ((hm.matched hcall).eq hx).symm)

/-- Going over a map whose entries are answered goes unnoticed. -/
theorem unheard_of_yields {c : Cursor} {n : Nat} (hW : ∀ t u, W t → t.Grows u → W u)
    (hwatch : Watched W (.ref d) size) (hd : ∀ t, W t → t.IsTable d es)
    (hmap : ∀ p ∈ map, A.About es p W m) (hc : c.Yields W m map) :
    Signature.Unheard W m (.ref d) n c := by
  induction map generalizing c n with
  | nil =>
    cases n with
    | zero => trivial
    | succ n =>
      refine ⟨hwatch.calm hc.calm,?_⟩
      intro x c' hx
      cases hc.eq hx
  | cons p ps ih =>
    cases n with
    | zero => trivial
    | succ n =>
      refine ⟨hwatch.calm fun t ht => ?_,?_⟩
      · obtain ⟨x,c',u,hu,hg,-⟩ := hc t ht
        exact ⟨_,u,hu,hg⟩
      · rintro x c' ⟨t,u,ht,hu⟩
        obtain ⟨y,c'',v,hv,-,hparts,hc'⟩ := hc t ht
        obtain ⟨⟨rfl,rfl⟩,-⟩ : (y = x ∧ c'' = c') ∧ v = u := by simpa [hv] using hu
        refine ⟨hwatch.calm hparts.calm,?_,ih (fun q hq => hmap q (by simp [hq])) hc'⟩
        intro q hq
        rw [hparts.eq hq]
        exact unnoticed_of_about hW hwatch hd (hmap p (by simp))

/-- All that comes before the first wrapper goes unnoticed by a plain table when it is answered. -/
theorem prepares_of_answerable {signatures : Value} {o : Obj} (hd : s.HoldsOwn d o)
    (h : Answerable A M s d es signatures map) :
    Signature.Prepares (s.Grows ·) M.next signatures (.ref d) := by
  have haccepts : Always (s.Grows ·) (Signature.accepts M.next signatures (.ref d)) .matched := fun t ht =>
    Signature.gives_accepts (h.standard.grows ht) (fun u hu => h.isMap u (ht.trans hu)) fun u hu =>
      gives_of_eq (Contract.object_table (h.standard.grows (ht.trans hu)) (h.table.grows (ht.trans hu)))
  refine ⟨hd.watched.calm haccepts.calm,?_,hd.watched.calm fun t ht => ?_,?_⟩
  · intro hm
    cases haccepts.eq hm
  · obtain ⟨c,u,hu,hg,-⟩ := h.lists t ht
    exact ⟨c,u,hu,hg⟩
  · rintro c n ⟨t,u,ht,hu⟩
    obtain ⟨c',v,hv,-,hyields,-⟩ := h.lists t ht
    obtain ⟨rfl,-⟩ : c' = c ∧ v = u := by simpa [hv] using hu
    exact unheard_of_yields (fun t u ht hu => ht.trans hu) hd.watched (fun t ht => h.table.grows ht)
      (fun p hp => (h.about p hp).mono fun t ht => Store.refills_of_grows h.table ht) hyields

end Attachment
end CallContracts
