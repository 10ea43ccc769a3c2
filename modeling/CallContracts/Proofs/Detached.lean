import CallContracts.Proofs.Wording
/-! Contracts and checks do not look back.  A contract that was built from a list or a table holds what it found
there, and a check of a member holds the signature that the map named; so whatever those containers hold later,
contracts run as before on all that is not made of them, and the same calls are let through. -/
namespace CallContracts
open Act

/-- What lists and tables hold. -/
def Body.fillable : Body → Bool
  | .list _ | .table _ => true
  | _ => false

namespace Store
variable {L : Ref → Prop} {D key : Value → Prop} {E : Store → Store → Prop} {s t u v : Store} {r : Ref} {o p : Obj}

/-- One of some lists and tables, which are no part of the library, is filled anew; or there is a new object. -/
inductive Fills (L : Ref → Prop) : Store → Store → Prop
  | fill {s : Store} {r : Ref} {o : Obj} (b : Body) : L r → s.get? r = some o → o.body.fillable → b.fillable →
      ¬ Frame.library.holds r o.cls → Fills L s (s.update r fun o => { o with body := b })
  | make {s : Store} (o : Obj) : Fills L s (s.alloc o).2

/-- Some lists and tables are written to, one time after the other. -/
abbrev Mutated (L : Ref → Prop) : Store → Store → Prop := Relation.ReflTransGen (Fills L)

namespace Fills

theorem size (h : Fills L s t) : s.heap.size ≤ t.heap.size := by cases h <;> simp

/-- The other objects stay as they are. -/
theorem get?_clear (h : Fills L s t) (hr : r < s.heap.size) (hL : ¬ L r) : t.get? r = s.get? r := by
  cases h with
  | fill b hq => exact get?_update_ne s _ fun h => hL (h ▸ hq)
  | make o => exact get?_alloc_of_lt s o hr

/-- So does what can hold nothing. -/
theorem get?_solid (h : Fills L s t) (ho : s.get? r = some o) (hb : o.body.fillable = false) : t.get? r = some o := by
  cases h with
  | @fill q x b _ hx hfill =>
    by_cases hq : r = q
    · subst hq
      obtain rfl := Option.some.inj (ho.symm.trans hx)
      rw [hb] at hfill
      cases hfill
    · rw [get?_update_ne s _ hq,ho]
  | make o => rw [get?_alloc_of_lt s o (lt_of_get? ho),ho]

theorem keeps (h : Fills L s t) : s.Keeps .library t := by
  cases h with
  | fill b _ ho _ _ hclass =>
    refine Keeps.update fun x hx hF => ?_
    obtain rfl := Option.some.inj (hx.symm.trans ho)
    exact absurd hF hclass
  | make o => exact Keeps.alloc s o

end Fills

namespace Mutated

theorem size (h : s.Mutated L t) : s.heap.size ≤ t.heap.size := by
  induction h with
  | refl => exact Nat.le_refl _
  | tail _ hstep ih => exact Nat.le_trans ih hstep.size

theorem get?_clear (h : s.Mutated L t) (hr : r < s.heap.size) (hL : ¬ L r) : t.get? r = s.get? r := by
  induction h with
  | refl => rfl
  | tail hrest hstep ih => rw [hstep.get?_clear (Nat.lt_of_lt_of_le hr (size hrest)) hL,ih]

theorem get?_solid (h : s.Mutated L t) (ho : s.get? r = some o) (hb : o.body.fillable = false) : t.get? r = some o := by
  induction h with
  | refl => exact ho
  | tail _ hstep ih => exact hstep.get?_solid ih hb

theorem keeps (h : s.Mutated L t) : s.Keeps .library t := by
  induction h with
  | refl => exact Keeps.refl _ s
  | tail _ hstep ih => exact ih.trans hstep.keeps

/-- A wrapper is none of those. -/
theorem wraps {c : BuiltinClass} {w f k : Value} (h : s.Mutated L t) (hw : s.Wraps c w f k) : t.Wraps c w f k := by
  obtain ⟨r,o,rfl,ho,hc,hb,htable⟩ := hw.place
  have ht : t.get? r = some o := h.get?_solid ho (by rw [hb]; rfl)
  have hattr (n : String) : t.attr? (.ref r) n = s.attr? (.ref r) n := by
    simp [attr?,attrs?,obj?,ho,ht,htable]
  exact ⟨⟨r,o,rfl,ht,hc,hb,htable⟩,by rw [hattr,hw.proceed],by rw [hattr,hw.advice]⟩

/-- Nor is a function. -/
theorem function {f : Value} {F : Function} (h : s.Mutated L t) (hf : s.IsFunction f F) : t.IsFunction f F := by
  obtain ⟨r,rfl⟩ := ref_of_body hf.body
  obtain ⟨o,ho,hb⟩ : ∃ o, s.get? r = some o ∧ o.body = .function F := by
    simpa [body?,obj?] using hf.body
  have ht : t.get? r = some o := h.get?_solid ho (by rw [hb]; rfl)
  exact ⟨by rw [classOf_of_get? ht,← classOf_of_get? ho,hf.cls],by rw [body?_of_get? ht,hb]⟩

end Mutated

/-- The methods of a list that only write do so to the list alone. -/
theorem call_list {m : Machine} {xs ys args : List Value} {n : String} (hc : s.classOf (.ref r) = .builtin .list)
    (hb : s.body? (.ref r) = some (.list xs)) (hn : n ≠ "copy")
    (hput : ∀ put, Method.changeItems m put xs n args = do put ys; return .absent) :
    ∃ t, Method.call m .list n (.ref r) args [] s = .ok .absent t ∧ s.Mutated (· = r) t ∧
      t.items? (.ref r) = some ys := by
  obtain ⟨o,ho,hbody⟩ : ∃ o, s.get? r = some o ∧ o.body = .list xs := by
    simpa [body?,obj?] using hb
  have hclass : o.cls = .builtin .list := (classOf_of_get? ho).symm.trans hc
  have htext : s.text? (.ref r) = none := text?_of_body hb (by simp)
  have hwhole : s.whole? (.ref r) = none := by
    simp [whole?,unboxed_of_body hb (by simp)]
  have hA : s.isA (.ref r) .list = true := by
    rw [isA_builtin hc]
    decide
  have hobj : s.obj? (.ref r) = some o := ho
  refine ⟨s.update r fun o => { o with body := .list ys },?_,.single (.fill (.list ys) rfl ho ?_ rfl ?_),?_⟩
  · simp only [Method.call,get_bind_apply,hA,htext,hwhole,hobj,Method.ofBody,hbody,hn,hput]
    simp [bind_apply,update]
    rfl
  · simp [hbody,Body.fillable]
  · simp [hclass,Frame.library]
  · simp [items?,body?,obj?,get?_update_self,ho]

/-- The settings are of the library. -/
theorem holds_settings (hset : s.Owns (.ref settingsRef)) (hclass : s.classOf (.ref settingsRef) = .builtin .settings) :
    s.Holds .library (.ref settingsRef) := by
  obtain ⟨q,o,hq,ho,-⟩ := hset
  rw [hq,classOf_of_get? ho] at hclass
  rw [hq]
  exact holds_ref ho (by simp [hclass,Frame.library])

/-- What lies clear of some objects. -/
def clear (s : Store) (L : Ref → Prop) (D key : Value → Prop) : Region :=
  ⟨s.heap.size,fun r => r < s.heap.size ∧ ¬ L r,D,key⟩

theorem Mutated.shares (h : s.Mutated L t) : s.Shares (s.clear L D key) t :=
  ⟨Nat.le_refl _,h.size,fun _ hr => h.get?_clear hr.1 hr.2⟩

/-- Two later stores of a program that leave its library alone.  They share a region in which data rest, and what the
program's own code goes by is the same in both; in all else they may differ. -/
structure Abreast (G : Region) (E : Store → Store → Prop) (s u v : Store) : Prop where
  shares : u.Shares G v
  rests : ∀ x, G.datum x → u.Rests G x
  left : s.Keeps .library u
  right : s.Keeps .library v
  own : E u v

theorem common_abreast (G : Region) (E : Store → Store → Prop) (s : Store) : G.Common (Abreast G E s) :=
  fun _ _ h => ⟨h.shares,h.rests⟩

/-- That data rest clear of some objects means that they do not reach them, by any items, entries or attributes. -/
theorem Mutated.abreast (h : s.Mutated L t) (hD : ∀ x, D x → s.Rests (s.clear L D key) x) (hE : E s t) :
    Abreast (s.clear L D key) E s s t :=
  ⟨h.shares,hD,Keeps.refl _ s,h.keeps,hE⟩

/-- Stores stay abreast where new objects are made on both sides. -/
theorem Abreast.alloc {G : Region} (hG : ∀ r, G.place r → r < G.size)
    (hE : ∀ u v o p, E u v → E (u.alloc o).2 (v.alloc p).2) (h : Abreast G E s u v) :
    Abreast G E s (u.alloc o).2 (v.alloc p).2 := by
  have hu : u.Shares G (u.alloc o).2 := ⟨h.shares.left,by simpa using Nat.le_succ_of_le h.shares.left,
    fun r hr => get?_alloc_of_lt u o (Nat.lt_of_lt_of_le (hG r hr) h.shares.left)⟩
  have hv : v.Shares G (v.alloc p).2 := ⟨h.shares.right,by simpa using Nat.le_succ_of_le h.shares.right,
    fun r hr => get?_alloc_of_lt v p (Nat.lt_of_lt_of_le (hG r hr) h.shares.right)⟩
  exact ⟨(hu.symm.trans h.shares).trans hv,fun x hx => hu.rests (h.rests x hx),
    h.left.trans (Keeps.alloc u o),h.right.trans (Keeps.alloc v p),hE u v o p h.own⟩

theorem Abreast.packs {G : Region} {u' v' : Store} (hG : ∀ r, G.place r → r < G.size)
    (hE : ∀ u v o p, E u v → E (u.alloc o).2 (v.alloc p).2) (h : Abreast G E s u v)
    (hu : u.Packs u') (hv : v.Packs v') : Abreast G E s u' v' := by
  obtain ⟨o,p,rfl⟩ := hu
  obtain ⟨o',p',rfl⟩ := hv
  exact (h.alloc hG hE).alloc hG hE

end Store

/-- A value that was made as a wrapper with this advice. -/
def Wrapper.Carries (k w : Value) : Prop :=
  ∃ b f, ∃ u : Store, (b = .wrapper ∨ b = .classWrapper) ∧ u.Wraps b w f k

section install
variable {m : Machine} {target name f k : Value}

theorem ends_around : (Wrapper.around m f k).Ends fun w _ => Wrapper.Carries k w := fun _ _ t h =>
  ⟨.wrapper,f,t,Or.inl rfl,Wrapper.wraps_of_make (Or.inl rfl) h⟩

theorem ends_ofClass : (Wrapper.ofClass m f k).Ends fun w _ => Wrapper.Carries k w := fun _ _ t h =>
  ⟨.classWrapper,f,t,Or.inr rfl,Wrapper.wraps_of_make (Or.inl rfl) h⟩

theorem ends_wrapMember {c : ClassId} {n : String} :
    (Wrapper.wrapMember m target c n k).Ends fun w _ => Wrapper.Carries k w := by
  have writes (w : Value) (hw : Wrapper.Carries k w) :
      (do m.write target n w; return w : Act Value).Ends fun w _ => Wrapper.Carries k w :=
    Ends.bind fun _ => ends_pure fun _ => hw
  refine Ends.bind fun s => Ends.bind fun raw => Ends.bind fun s => ?_
  split
  · refine ends_around.andThen fun w _ hw => Ends.bind fun _ => Ends.bind fun _ => ?_
    exact ends_pure fun _ => hw
  · dsimp only
    split
    · exact ends_ofClass.andThen fun w _ hw => writes w hw
    · refine Ends.bind fun b => ?_
      split
      · exact ends_ofClass.andThen fun w _ hw => writes w hw
      · refine Ends.bind fun b => ?_
        split
        · exact ends_around.andThen fun w _ hw => writes w hw
        · exact Ends.bind fun _ => ends_around.andThen fun w _ hw => writes w hw

/-- What is installed is a wrapper with the advice. -/
theorem ends_install : (Wrapper.install m target name k).Ends fun w _ => Wrapper.Carries k w := by
  refine Ends.bind fun b => ?_
  split
  · exact Ends.bind fun _ => ends_around.andThen fun w _ hw => Ends.bind fun _ => ends_pure fun _ => hw
  · refine Ends.bind fun s => Ends.bind fun b => ?_
    split
    · unfold Wrapper.aroundClassMember
      refine Ends.bind fun s => ?_
      split
      · exact ends_wrapMember
      · refine Ends.bind fun _ => ?_
        intro s w t h
        cases h
    · intro s w t h
      cases h
    · exact Ends.bind fun _ => ends_around.andThen fun w _ hw => Ends.bind fun _ => ends_pure fun _ => hw

end install

namespace Signature
open Contract
variable {R : Store → Store → Prop} {K : Realm} {m M N : Machine} {s t u v : Store} {a n a' n' w f g k : Value}
  {name : String} {i r c : Contract} {cs : List Contract} {args : List Value} {named : Fields Value} {p : Plan}
  {body : Act Value} {x y : EStateM.Result Stop Store Value}

/-- Every member that an attachment wraps gets a check of its own, made of what the map named for it. -/
theorem checks_of_wrapAll {target : Value} {noted : List (Value × Value)} (h : wrapAll m target noted s = .ok () t) :
    ∀ q ∈ noted, ∃ k y z w v, check m q.2 q.1 y = .ok k z ∧ Wrapper.install m target q.1 k z = .ok w v := by
  induction noted generalizing s with
  | nil => simp
  | cons q noted ih =>
    obtain ⟨name,entry⟩ := q
    rw [wrapAll,bind_eq_ok] at h
    obtain ⟨_,u,hwrap,hrest⟩ := h
    rw [wrapNoted,bind_eq_ok] at hwrap
    obtain ⟨k,z,hk,hwrap⟩ := hwrap
    rw [bind_eq_ok] at hwrap
    obtain ⟨w,v,hw,-⟩ := hwrap
    intro q hq
    rcases List.mem_cons.mp hq with rfl | hq
    · exact ⟨k,s,z,w,v,hk,hw⟩
    · exact ih hrest q hq

theorem checks_of_attach {signatures target result : Value} (h : attach m signatures target s = .ok result t) :
    ∃ noted u, prepare m signatures target s = .ok noted u ∧
      ∀ q ∈ noted, ∃ k y z w v, check m q.2 q.1 y = .ok k z ∧ Wrapper.install m target q.1 k z = .ok w v := by
  rw [attach_eq,bind_eq_ok] at h
  obtain ⟨noted,u,hu,h⟩ := h
  rw [bind_eq_ok] at h
  obtain ⟨_,z,hz,-⟩ := h
  exact ⟨noted,u,hu,checks_of_wrapAll hz⟩

/-- What is made of a result that is promised to meet a plain contract goes by how that runs. -/
theorem Examines.plain (h : Examines m name r g s x) (hc : s.classOf r.value = .builtin .contract) :
    match r.outcome m g s with
    | .ok .mismatched u => Refusal m (.output · "but returned") (.str name) r.description g u x
    | .ok _ u => x = .ok g u
    | .error e u => x = .error e u := by
  cases h with
  | passed _ ho hne =>
    rw [ho]
    split <;> simp_all
  | failed _ ho hrefusal => rwa [ho]
  | stopped _ ho => rw [ho]
  | idle hs | signed hs | wrapped hs | unwrapped hs | unasked hs => cases hs.symm.trans hc

/-- If it is a signature that is promised, that goes by whether the result can be called, and whether it is signed. -/
theorem Examines.promised (h : Examines m name r g s x) (hc : s.classOf r.value = .builtin .signature) :
    if s.isCallable g then match isSigned m g s with
      | .ok true u => x = .ok g u
      | .ok false _ => True
      | .error e u => x = .error e u
    else Refusal m (.output · "but returned value is no function") (.str name) r.description g s x := by
  cases h with
  | passed hs | failed hs | stopped hs => cases hs.symm.trans hc
  | idle _ hcall hrefusal => rwa [hcall]
  | signed _ hcall hsigned => rw [if_pos hcall,hsigned]
  | wrapped _ hcall hsigned => rw [if_pos hcall,hsigned]; trivial
  | unwrapped _ hcall hsigned => rw [if_pos hcall,hsigned]; trivial
  | unasked _ hcall hsigned => rw [if_pos hcall,hsigned]

/-- A call whose names are allowed goes by how the arguments look, and then by the body. -/
theorem Crosses.allowed {allow : Bool} (h : Crosses m name cs i r allow args named body a n s x)
    (hyes : named = [] ∨ allow = true) :
    match look m cs args s with
    | .error e u => x = .error e u
    | .ok false u => Refusal m .input (.str name) i.description a u x
    | .ok true u => match body u with
      | .error e z => x = .error e z
      | .ok g z => Examines m name r g z x := by
  cases h with
  | unnamed hnamed hno =>
    rcases hyes with hyes | hyes
    · exact absurd hyes hnamed
    · cases hno.symm.trans hyes
  | stopped _ hl => rw [hl]
  | refused _ hl hrefusal => rwa [hl]
  | raised _ hl hbody => simp only [hl,hbody]
  | returned _ hl hbody hexamines => simpa only [hl,hbody] using hexamines

/-- Two calls that are let through, or not, alike: both refused for their arguments before the body runs; or stopped
for one reason; or the same result comes back from both, is refused in both, or is taken in both to be wrapped, being
callable and not signed. -/
inductive Concurs (R : Store → Store → Prop) (m : Machine) (name : String) (i r : Contract) (a n a' n' : Value) :
    EStateM.Result Stop Store Value → EStateM.Result Stop Store Value → Prop
  | unnamed {s t : Store} {x y : EStateM.Result Stop Store Value} : R s t →
      Refusal m .input (.str name) i.description n s x → Refusal m .input (.str name) i.description n' t y →
      Concurs R m name i r a n a' n' x y
  | refused {s t : Store} {x y : EStateM.Result Stop Store Value} : R s t →
      Refusal m .input (.str name) i.description a s x → Refusal m .input (.str name) i.description a' t y →
      Concurs R m name i r a n a' n' x y
  | stopped {e : Stop} {s t : Store} : R s t → Concurs R m name i r a n a' n' (.error e s) (.error e t)
  | returned {g : Value} {s t : Store} : R s t → Concurs R m name i r a n a' n' (.ok g s) (.ok g t)
  | rejected {g : Value} {reason : String} {s t : Store} {x y : EStateM.Result Stop Store Value} : R s t →
      Refusal m (.output · reason) (.str name) r.description g s x →
      Refusal m (.output · reason) (.str name) r.description g t y → Concurs R m name i r a n a' n' x y
  | taken {g : Value} {s t u v : Store} {x y : EStateM.Result Stop Store Value} : R s t → s.isCallable g →
      t.isCallable g → isSigned m g s = .ok false u → isSigned m g t = .ok false v → Examines m name r g s x →
      Examines m name r g t y → Concurs R m name i r a n a' n' x y

/-- What a call runs goes alike in two worlds: the arguments and the result are of one realm, whose values answer
alike, and so does the body. -/
structure Unreading (R : Store → Store → Prop) (K : Realm) (m : Machine) (args : List Value) (body : Act Value) :
    Prop where
  args : ∀ v ∈ args, K.Val v
  body : Alike R (fun g h => g = h ∧ K.Val g) body body
  callable : ∀ g s t, K.Val g → R s t → s.isCallable g = t.isCallable g
  signed : ∀ g, K.Val g → Alike R Eq (isSigned m g) (isSigned m g)

section concur
variable (hu : Unreading R K m args body) (hR : R s t)
  (hclass : ∀ s t, R s t → s.classOf r.value = .builtin .contract ∧ t.classOf r.value = .builtin .contract ∨
    s.classOf r.value = .builtin .signature ∧ t.classOf r.value = .builtin .signature)
  (hret : ∀ g, K.Val g → Alike R Eq (r.outcome m g) (r.outcome m g))
include hu hR hclass hret

theorem concurs_of_examines (hg : K.Val g) (h : Examines m name r g s x) (h' : Examines m name r g t y) :
    Concurs R m name i r a n a' n' x y := by
  rcases hclass s t hR with ⟨hc,hc'⟩ | ⟨hc,hc'⟩
  · have hx := h.plain hc
    have hy := h'.plain hc'
    cases ho : r.outcome m g s with
    | error e u =>
      obtain ⟨v,ho',hR⟩ := (hret g hg).of_error hR ho
      rw [ho] at hx
      rw [ho'] at hy
      exact hx ▸ hy ▸ .stopped hR
    | ok o u =>
      obtain ⟨_,v,ho',rfl,hR⟩ := (hret g hg).of_ok hR ho
      rw [ho] at hx
      rw [ho'] at hy
      cases o with
      | mismatched => exact .rejected hR hx hy
      | matched | neither => exact hx ▸ hy ▸ .returned hR
  · have hx := h.promised hc
    have hy := h'.promised hc'
    rw [← hu.callable g s t hg hR] at hy
    cases hcall : s.isCallable g with
    | false =>
      rw [if_neg (by simp [hcall])] at hx hy
      exact .rejected hR hx hy
    | true =>
      rw [if_pos hcall] at hx hy
      cases hs : isSigned m g s with
      | error e u =>
        obtain ⟨v,hs',hR⟩ := (hu.signed g hg).of_error hR hs
        rw [hs] at hx
        rw [hs'] at hy
        exact hx ▸ hy ▸ .stopped hR
      | ok b u =>
        obtain ⟨_,v,hs',rfl,hRv⟩ := (hu.signed g hg).of_ok hR hs
        cases b with
        | true =>
          rw [hs] at hx
          rw [hs'] at hy
          exact hx ▸ hy ▸ .returned hRv
        | false => exact .taken hR hcall (hu.callable g s t hg hR ▸ hcall) hs hs' h h'

/-- Two calls that cross the boundary of one check from stores that go together concur. -/
theorem concurs_of_crosses {allow : Bool} (hlook : Alike R Eq (look m cs args) (look m cs args))
    (h : Crosses m name cs i r allow args named body a n s x)
    (h' : Crosses m name cs i r allow args named body a' n' t y) : Concurs R m name i r a n a' n' x y := by
  by_cases hno : named ≠ [] ∧ allow = false
  · have hrefuses {s : Store} {a n : Value} {x : EStateM.Result Stop Store Value}
        (h : Crosses m name cs i r allow args named body a n s x) :
        Refusal m .input (.str name) i.description n s x := by
      cases h with
      | unnamed _ _ hrefusal => exact hrefusal
      | stopped hyes | refused hyes | raised hyes | returned hyes =>
        rcases hyes with hyes | hyes
        · exact absurd hyes hno.1
        · cases hno.2.symm.trans hyes
    exact .unnamed hR (hrefuses h) (hrefuses h')
  have hyes : named = [] ∨ allow = true := by
    by_cases hnamed : named = []
    · exact Or.inl hnamed
    · exact Or.inr (by simpa using fun h => hno ⟨hnamed,h⟩)
  have hx := h.allowed hyes
  have hy := h'.allowed hyes
  cases hl : look m cs args s with
  | error e u =>
    obtain ⟨v,hl',hR⟩ := hlook.of_error hR hl
    rw [hl] at hx
    rw [hl'] at hy
    exact hx ▸ hy ▸ .stopped hR
  | ok b u =>
    obtain ⟨_,v,hl',rfl,hR⟩ := hlook.of_ok hR hl
    rw [hl] at hx
    rw [hl'] at hy
    cases b with
    | false => exact .refused hR hx hy
    | true =>
      simp only at hx hy
      cases hb : body u with
      | error e z =>
        obtain ⟨z',hb',hR⟩ := hu.body.of_error hR hb
        rw [hb] at hx
        rw [hb'] at hy
        exact hx ▸ hy ▸ .stopped hR
      | ok g z =>
        obtain ⟨_,z',hb',⟨rfl,hg⟩,hR⟩ := hu.body.of_ok hR hb
        rw [hb] at hx
        rw [hb'] at hy
        exact concurs_of_examines hu hR hclass hret hg hx hy

end concur

section worlds
variable {G : Region} {E : Store → Store → Prop} {O : Realm}

/-- What contracts of a plan run does not look at what is not shared: data rest in the shared region, and tests, and
whatever else decides anything, go alike in two stores that are abreast like these. -/
structure Blind (G : Region) (E : Store → Store → Prop) (s t : Store) (m : Machine) (O : Realm) (p : Plan) : Prop where
  data : ∀ x, G.datum x → s.Rests G x
  own : E s t
  completes : G.Completes m (Store.Abreast G E s) O
  within : p.Within (G.realm.join O)

theorem placed_abreast (G : Region) (E : Store → Store → Prop) (s : Store) :
    Placed (InPlaces s s) (Store.Abreast G E s) := placed_keep fun _ _ h => ⟨h.left,h.right⟩

/-- The class of a contract is the same in stores that leave the library alone. -/
theorem classes_abreast (hr : s.IsContract r) (h : Store.Abreast G E s u v) :
    u.classOf r.value = .builtin .contract ∧ v.classOf r.value = .builtin .contract ∨
      u.classOf r.value = .builtin .signature ∧ v.classOf r.value = .builtin .signature := by
  have hholds := holds_contract library_holds hr
  rw [h.left.classOf hholds,h.right.classOf hholds]
  exact hr.cls.imp (fun h => ⟨h,h⟩) fun h => ⟨h,h⟩

/-- Calls of a wrapper under one check, from two stores that are abreast, concur. -/
theorem concurs_abreast {ps : List Plan} {rp : Plan} {b : BuiltinClass} {allow : Bool} {W W' : Store → Prop}
    {sig : Value}
    (hG : ∀ r, G.place r → r < G.size) (hE : ∀ u v o q, E u v → E (u.alloc o).2 (v.alloc q).2)
    (hO : G.Completes M.next (Store.Abreast G E s) O) (hp : (Plan.proc ps rp).Within (G.realm.join O))
    (hst : Store.Abreast G E s s t) (hg : Guard s k sig name cs i r) (hcs : fitsAll s ps cs) (hr : rp.Fits s r)
    (hu : Unreading (Store.Abreast G E s) (G.realm.join O) M.next args (M.next.call f args named))
    (hw : s.Wraps b w f k) (hw' : t.Wraps b w f k) (hb : b = .wrapper ∨ b = .classWrapper)
    (hset : s.Owns (.ref settingsRef)) (hclass : s.classOf (.ref settingsRef) = .builtin .settings)
    (hallow : s.attr? (.ref settingsRef) "allow_keywords" = some (.bool allow)) (hself : named.get? "self" = none)
    (hs : Heedful W M.next s cs r (M.next.call f args named))
    (ht : Heedful W' M.next t cs r (M.next.call f args named)) :
    ∃ (a n a' n' : Value) (u v : Store), u.Packed args named a n ∧ v.Packed args named a' n' ∧
      Concurs (Store.Abreast G E s) M.next name i r a n a' n' (M.next.next.next.call w args named s)
        (M.next.next.next.call w args named t) := by
  have hkeeps := hst.right
  have hheld := Store.holds_settings hset hclass
  have hallow' : t.attr? (.ref settingsRef) "allow_keywords" = some (.bool allow) := by
    rw [hset.attr? hkeeps hheld (by decide),hallow]
  obtain ⟨a,n,u,hsu,hpacked,hcross⟩ := crosses_of_wraps (Store.Keeps.refl _ s) hg hw hb hset hallow hself
    (fun _ _ _ _ => rfl) hs
  obtain ⟨a',n',v,htv,hpacked',hcross'⟩ := crosses_of_wraps (Store.Keeps.refl _ t)
    (hg.keep library_holds rfl hkeeps) hw' hb
    (hset.keep hkeeps hheld) hallow' hself (fun _ _ _ _ => rfl) ht
  have heven := Region.even_of_common (Store.common_abreast G E s) hO
  simp only [Plan.Within] at hp
  exact ⟨a,n,a',n',u,v,hpacked,hpacked',concurs_of_crosses hu (hst.packs hG hE hsu htv)
    (fun u v h => classes_abreast hr.worded.held h)
    (fun g hgv => alike_outcome heven (placed_abreast G E s) (twins_of_fits hp.2 hr hr) hgv)
    (alike_look heven (placed_abreast G E s) (twinsAll_of_fits hp.1 hcs hcs) hu.args) hcross hcross'⟩

end worlds

/-- A function that gives back five, whatever it is given. -/
def steady : Function := ⟨"f","f",.str "m",.absent,.closure ⟨"f",[(.required "x",none)],.int 5,[]⟩⟩

def withSteady : Store :=
  { Store.initial with
    heap := Store.initial.heap.push { cls := .builtin .function, attrs := some [], body := .function steady } }

section steady
variable {f x : Value} {G : Region} {E : Store → Store → Prop} {text : String}

theorem call_steady (h : s.IsFunction f steady) (x : Value) : m.next.call f [x] [] s = .ok (.int 5) s := by
  rw [call_function h]
  rfl

theorem test_steady (h : s.IsFunction f steady) (x : Value) : (Rule.test f).holds m.next x s = .ok true s := by
  rw [Rule.holds,bind_ok (call_steady h x),truth_int]
  rfl

/-- Nothing is tampered with where such a function is the test and the body. -/
theorem heedful_steady (hf : s.IsFunction f steady) (hcs : fitsAll s [.test f] cs) (hr : (Plan.test f).Fits s r)
    (hset : s.Owns (.ref settingsRef)) (hsuffix : s.attr? (.ref settingsRef) "anonymous_suffix" = some (.str text))
    (x : Value) : Heedful (s.Grows ·) m.next s cs r (m.next.call f [x] []) := by
  obtain ⟨c,rfl,hc⟩ : ∃ c, cs = [c] ∧ (Plan.test f).Fits s c := by
    simp only [fitsAll] at hcs
    obtain ⟨c,_,rfl,hc,rfl⟩ := hcs
    exact ⟨c,rfl,hc⟩
  have hmade : ∀ d ∈ [r,c], s.Made d (.test f) := by
    simp only [Plan.Fits] at hr hc
    simpa using ⟨hr,hc⟩
  refine ⟨Store.Keeps.refl _ s,fun t u ht hu => ht.trans hu,
    fun t ht => ⟨text,Store.setting_grows hset (by decide) hsuffix ht⟩,fun d hd v t u _ hu => ?_,fun t u _ hu => ?_,
    fun h => ?_⟩
  · obtain ⟨q,y,rule⟩ := d
    have hd := hmade _ hd
    obtain rfl : rule = .test f := hd.rule
    obtain ⟨test,p,hb⟩ := Store.body_of_contract? hd.held
    have hheld : u.contract? (.ref q) = some (.mk q y (.test f)) :=
      (hu.own.contract? (Store.holds_all_of_body hb)).trans hd.held
    rwa [after_ok (Contract.outcome_of_holds (by rw [hheld]; rfl) (test_steady (hf.grows hu.own) v))]
  · rwa [after_ok (call_steady (hf.grows hu.own) x)]
  · cases (hmade r (by simp)).cls.symm.trans h

/-- It runs alike, whatever the program has written elsewhere. -/
theorem unreading_steady (hfive : G.datum (.int 5)) (hx : G.datum x)
    (hE : ∀ u v, E u v → u.IsFunction f steady ∧ v.IsFunction f steady)
    (hG : ∀ g u v, G.datum g → Store.Abreast G E s u v → u.belongs g .wrapper = false) :
    Unreading (Store.Abreast G E s) (G.realm.join (.tests (· = f))) m.next [x] (m.next.call f [x] []) where
  args v hv := by
    obtain rfl := List.mem_singleton.mp hv
    exact Or.inl hx
  body := .of_still fun u v h =>
    ⟨_,_,call_steady (hE u v h.own).1 x,call_steady (hE u v h.own).2 x,rfl,Or.inl hfive⟩
  callable g u v hg h := (h.shares.isCallable (h.rests g (hg.resolve_right id))).symm
  signed g hg := .of_still fun u v h => by
    have hg : G.datum g := hg.resolve_right id
    have hrests := h.rests g hg
    have hunsigned (z : Store) (hz : z.Native g) (hno : z.belongs g .wrapper = false) :
        isSigned m.next g z = .ok false z := by
      rw [isSigned,bind_ok (isKind_native hz .wrapper),hno]
      rfl
    have hno := hG g u v hg h
    exact ⟨_,_,hunsigned u hrests.native hno,
      hunsigned v (h.shares.native hrests) ((h.shares.belongs hrests _).trans hno),rfl⟩

end steady

/-- Out of a list of one user contract there can be made a product and a signature, a check of this and a wrapper of a
function under the check. -/
theorem exists_gathered {M : Machine} {f : Value} {F : Function} (hf : s.IsFunction f F) (name : String) :
    ∃ (a c d : Contract) (l : Ref) (k w : Value) (u v y z x : Store), Contract.product M (.ref l) u = .ok c.value v ∧
      makeSignature M.next (.ref l) a.value a.value v = .ok d.value y ∧ check M.next d.value (.str name) y = .ok k z ∧
      Built v c (.product [.test f]) ∧ Built y d (.proc [.test f] (.test f)) ∧ x.Wraps .wrapper w f k ∧
      s.Grows v ∧ v.Grows z ∧ z.Grows x ∧ l < x.heap.size ∧
      ∀ t, v.Grows t → t.classOf (.ref l) = .builtin .list ∧ t.body? (.ref l) = some (.list [a.value]) := by
  have grown {s t : Store} (h : s.Grows t) : s.Keeps .library t := Store.Keeps.of_grows h
  have hmem : BuiltinClass.list ∈ [BuiltinClass.list,.tuple] := by simp
  obtain ⟨a,b,h₀,hbuilt,hmade,-⟩ := exists_user s "a" f
  obtain ⟨_,u,-,h₁,rfl,hl⟩ := quiet_alloc { cls := .builtin .list, body := .list [a.value] } b
  have hlist {t : Store} (ht : u.Grows t) :
      t.classOf (.ref b.heap.size) = .builtin .list ∧ t.body? (.ref b.heap.size) = some (.list [a.value]) := by
    have hb := Store.body?_of_get? hl
    exact ⟨(ht.classOf (Store.holds_all_of_body hb)).trans (Store.classOf_of_get? hl),
      (ht.body? (Store.holds_all_of_body hb)).trans hb⟩
  have hiter {m : Machine} {t : Store} (ht : u.Grows t) :
      (iterate m (.ref b.heap.size)).Gives ([a].map Contract.value) t := by
    obtain ⟨hc,hb⟩ := hlist ht
    refine gives_of_eq ?_
    rw [iterate_native (native_sequence hc hmem (Or.inl hb)) (isSequence_builtin hc hmem).1]
    simp [Store.elements,hb]
  have hau : ∀ e ∈ [a], u.Worded e := by simpa using (hmade.keep (grown h₁)).worded
  have hu : ∀ e ∈ [(a,Plan.test f)], Built u e.1 e.2 := by simpa using hbuilt.kept (grown h₁)
  obtain ⟨_,v,hc,h₂,c,rfl,hcv⟩ := made_product (m := M) hau (hiter (Store.Keeps.refl _ u))
  have hav : ∀ e ∈ [a], v.Worded e := fun e he => (hau e he).keep (grown h₂)
  have hv : ∀ e ∈ [(a,Plan.test f)], Built v e.1 e.2 := fun e he => (hu e he).kept (grown h₂)
  have hone : Built v a (.test f) := hv (a,.test f) (by simp)
  obtain ⟨e,he⟩ := (hav a (by simp)).stands (M := M)
  obtain ⟨_,y,hd,h₃,⟨p,hp,-⟩,d,rfl,hdy⟩ := quiet_makeSignature (hiter h₂) he he
  have hsv := (h₀.trans h₁).trans h₂
  obtain ⟨k,z,w,x,hk,h₄,h₅,hw⟩ := exists_wrapped (M := M) (N := M.next) hp
    (fun e he => (hav e he).keep (grown h₃))
    (Wrapper.tells_function (M := M) fun t ht => (hf.grows (hsv.trans h₃)).grows ht) name
  have hsize := Nat.lt_of_lt_of_le (Store.lt_of_get? hl) (((h₂.trans h₃).trans h₄).trans h₅).size
  exact ⟨a,c,d,_,k,w,u,v,y,z,x,hc,hd,hk,
    .product hu (hiter (Store.Keeps.refl _ u)) ⟨hc,hcv.held⟩,
    .signature hv hone hone (hiter h₂) ⟨hd,hdy.held.held⟩,
    hw,hsv,h₃.trans h₄,h₅,hsize,fun t ht => hlist (h₂.trans ht)⟩

end Signature
end CallContracts
