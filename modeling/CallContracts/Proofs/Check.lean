import CallContracts.Proofs.Wrapping
/-! Signatures and their checks.  A signature that was built tells its parts, and the check that is made of
it holds the signature, the name of the member and a contract for the argument list. -/
namespace CallContracts
open Act

namespace Cursor
variable (m : Machine) (s : Store)

@[simp] theorem next_nil : Cursor.next m (.fixed []) s = .ok none s := by simp [next]
@[simp] theorem next_cons (x : Value) (xs : List Value) :
    Cursor.next m (.fixed (x :: xs)) s = .ok (some (.value x,.fixed xs)) s := by simp [next]

theorem take_fixed (n : Nat) (xs : List Value) : take m n (.fixed xs) s = .ok (xs.take n) s := by
  induction n generalizing xs with
  | zero => simp [take]
  | succ n ih =>
    cases xs with
    | nil => simp [take,bind_apply]
    | cons x xs => simp [take,bind_apply,map_apply,ih,Given.toValue]

end Cursor

section tuple
variable {m : Machine} {s : Store} {v : Value} {xs : List Value}

/-- Tuples that no class of the program makes. -/
structure Store.IsTuple (s : Store) (v : Value) (xs : List Value) : Prop where
  cls : s.classOf v = .builtin .tuple
  body : s.body? v = some (.tuple xs)

theorem Store.IsTuple.keep {F : Frame} {t : Store} (h : s.IsTuple v xs) (ht : s.Keeps F t)
    (hv : s.Holds F v) : t.IsTuple v xs :=
  ⟨by rw [ht.classOf hv,h.cls],by rw [ht.body? hv,h.body]⟩

theorem Store.ref_of_body {b : Body} (h : s.body? v = some b) : ∃ r, v = .ref r := by
  cases v with
  | ref r => exact ⟨r,rfl⟩
  | _ => cases h

theorem Store.holds_all_of_body {b : Body} (h : s.body? v = some b) : s.Holds .all v := by
  obtain ⟨r,rfl⟩ := ref_of_body h
  rintro _ ⟨⟩
  cases ho : s.get? r with
  | none => simp [body?,obj?,ho] at h
  | some o => exact ⟨o,rfl,trivial⟩

/-- An object of a class that the frame holds. -/
theorem Store.holds_of_class {F : Frame} {x : Body} {b : BuiltinClass} (hb : s.body? v = some x)
    (hc : s.classOf v = .builtin b) (hF : ∀ r, F.holds r (.builtin b)) : s.Holds F v := by
  obtain ⟨r,rfl⟩ := ref_of_body hb
  cases ho : s.get? r with
  | none => simp [body?,obj?,ho] at hb
  | some o =>
    rw [classOf_of_get? ho] at hc
    exact holds_ref ho (hc ▸ hF r)

theorem Store.IsTuple.grows {t : Store} (h : s.IsTuple v xs) (ht : s.Grows t) : t.IsTuple v xs :=
  h.keep ht (holds_all_of_body h.body)

theorem quiet_newTuple (xs : List Value) (s : Store) :
    (newTuple xs).Quiet (fun v t => t.IsTuple v xs) s := by
  refine (quiet_alloc _ s).imp ?_
  rintro _ t _ ⟨rfl,ho⟩
  exact ⟨by rw [Store.classOf_of_get? ho],by rw [Store.body?_of_get? ho]⟩

theorem cursorOf_tuple (h : s.IsTuple v xs) : cursorOf m v s = .ok (.fixed xs) s := by
  obtain ⟨r,rfl⟩ := Store.ref_of_body h.body
  have hp : s.pieces? (.ref r) = none :=
    Store.pieces?_of_body h.body (by simp) (by simp)
  simp [cursorOf,h.cls,nativeCursor,hp,h.body]

theorem iterate_tuple (h : s.IsTuple v xs) : iterate m v s = .ok xs s := by
  rw [iterate,bind_ok (cursorOf_tuple h)]
  simp only [get_bind_apply,Cursor.take_fixed]
  rw [List.take_of_length_le]
  simp [Store.bound,Store.remaining]

theorem isArray_tuple (h : s.IsTuple v xs) : isArray m v s = .ok true s := by
  have hlist : isKind m v .list s = .ok false s := isKind_builtin h.cls (by decide)
  have htuple : isKind m v .tuple s = .ok true s := isKind_builtin h.cls (by decide)
  rw [isArray,bind_ok hlist]
  exact htuple

theorem lengthOf_tuple (h : s.IsTuple v xs) : lengthOf m v s = .ok xs.length s := by
  obtain ⟨r,rfl⟩ := Store.ref_of_body h.body
  have hx : s.text? (.ref r) = none := Store.text?_of_body h.body (by simp)
  simp [lengthOf,h.cls,Store.nativeLength?,hx,h.body]

/-- A tuple meets a product item by item, if there are as many items as contracts. -/
theorem holds_tuple (h : s.IsTuple v xs) (cs : List Contract) :
    (Rule.product cs).holds m v s
      = (if xs.length = cs.length then eachPasses m cs (.fixed xs) else pure false : Act Bool) s := by
  simp only [Rule.holds]
  rw [bind_ok (isArray_tuple h)]
  simp only [Bool.not_true,Bool.false_eq_true,if_false]
  rw [bind_ok (lengthOf_tuple h)]
  by_cases hlen : xs.length = cs.length
  · simp only [hlen,ne_eq,not_true_eq_false,if_false,if_true]
    rw [bind_ok (cursorOf_tuple h)]
  · simp only [ne_eq,hlen,not_false_eq_true,if_true,if_false]

theorem eachPasses_cons (c : Contract) (cs : List Contract) (v : Value) (vs : List Value) :
    eachPasses m (c :: cs) (.fixed (v :: vs)) = (do
      if (← c.outcome m v) = .mismatched then return false else eachPasses m cs (.fixed vs)) := by
  simp only [eachPasses,Cursor.next,Given.toValue,pure_bind]

end tuple

/-- A signature as it was built: its parts and the contracts that it takes. -/
structure Store.IsSignature (s : Store) (v : Value) (cs : List Contract) (p : Parts) : Prop where
  cls : s.classOf v = .builtin .signature
  body : ∃ c test, s.body? v = some (.contract c test (some p))
  params : s.IsTuple p.params (cs.map Contract.value)

namespace Store.IsSignature
variable {s t : Store} {v : Value} {cs : List Contract} {p : Parts} {F : Frame}

theorem keep (h : s.IsSignature v cs p) (ht : s.Keeps F t) (hv : s.Holds F v)
    (hp : s.Holds F p.params) : t.IsSignature v cs p := by
  obtain ⟨c,test,hb⟩ := h.body
  exact ⟨by rw [ht.classOf hv,h.cls],⟨c,test,by rw [ht.body? hv,hb]⟩,h.params.keep ht hp⟩

theorem grows (h : s.IsSignature v cs p) (ht : s.Grows t) : t.IsSignature v cs p := by
  obtain ⟨c,test,hb⟩ := h.body
  exact h.keep ht (holds_all_of_body hb) (holds_all_of_body h.params.body)

end Store.IsSignature

section read
variable {M : Machine} {s : Store} {v : Value} {b : BuiltinClass} {n : String}

/-- Reading from an instance of a builtin class, no class and no module, goes by its members first. -/
theorem read_next_builtin (hc : s.classOf v = .builtin b) (hn : s.class? v = none)
    (hb : .module ∉ b.line) : M.next.read v n s = readOfInstance M v n s := by
  have hA : s.isA v .module = false := by simp [Store.isA_builtin hc,hb]
  simp [Machine.next,readAttribute,hc,readNative,hn,hA]

/-- An attribute that a builtin class computes. -/
theorem readOfInstance_property {c : BuiltinClass} (hc : s.classOf v = .builtin b)
    (hm : b.line.findSome? (·.ownMember? n) = some (.operation (.member c n .property))) :
    readOfInstance M v n s = computed M v c n s := by
  have hd : s.isDataMember (.operation (.member c n .property)) = true := by simp [Store.isDataMember]
  simp [readOfInstance,hc,Store.classMember?_builtin,hm,hd,bindTo,bindOperation]

theorem read_params {cs : List Contract} {p : Parts} (h : s.IsSignature v cs p) :
    M.next.read v "params" s = .ok p.params s := by
  obtain ⟨c,test,hb⟩ := h.body
  obtain ⟨r,rfl⟩ := Store.ref_of_body hb
  have hn : s.class? (.ref r) = none := Store.class?_of_body hb (by simp)
  rw [read_next_builtin h.cls hn (by decide),readOfInstance_property h.cls (c := .signature) rfl]
  have hs : s.slot? (.ref r) "_params" = some p.params := by
    cases ho : s.get? r with
    | none => simp [Store.body?,Store.obj?,ho] at hb
    | some o =>
      obtain ⟨k,body,attrs,slots,table⟩ := o
      have hbody : body = .contract c test (some p) := by simpa [Store.body?,Store.obj?,ho] using hb
      subst hbody
      simp [Store.slot?,Store.obj?,ho]
  simp [computed,slotShown,Store.contract?_of_body hb,hs]

end read

/-- Contracts that can be built with: each is taken for itself and described by a text. -/
structure Describable (W : Store → Prop) (m : Machine) (c : Contract) : Prop where
  checked : Always W (Contract.checked m c.value) c
  described : ∃ d x, Always W (c.describe m) d ∧ ∀ t, W t → t.text? d = some x

theorem Describable.mono {W W' : Store → Prop} {m : Machine} {c : Contract} (h : Describable W m c)
    (hW : ∀ t, W' t → W t) : Describable W' m c := by
  obtain ⟨d,x,hd,hx⟩ := h.described
  exact ⟨fun t ht => h.checked t (hW t ht),d,x,fun t ht => hd t (hW t ht),fun t ht => hx t (hW t ht)⟩

namespace Contract
variable {m : Machine} {s : Store} {cs : List Contract} {W : Store → Prop}

theorem calm_joined (hW : ∀ t, s.Grows t → W t) (h : ∀ c ∈ cs, Describable W m c) (word : String) :
    ∃ t, (joined m cs word).Gives (.str t) s := by
  obtain ⟨ds,hds⟩ := exists_forall₂ (R := fun c d => Always W (Contract.describe m c) d ∧
    ∃ x, ∀ t, W t → t.text? d = some x) fun c hc => by
      obtain ⟨d,x,hd,hx⟩ := (h c hc).described
      exact ⟨d,hd,x,hx⟩
  obtain ⟨xs,hxs⟩ := exists_forall₂ (R := fun d x => ∀ t, W t → t.text? d = some x)
    fun d hd => by
      obtain ⟨c,-,-,hx⟩ := exists_of_mem_right hds hd
      exact hx
  refine ⟨_,Gives.bind (gives_each (k := ds) ?_) fun t ht => Gives.bind (gives_each (k := xs) ?_)
    fun u _ => gives_pure _ u⟩
  · exact hds.imp fun _ _ hd t ht => hd.1 t (hW t ht)
  · refine hxs.imp fun d x hx u hu => gives_of_eq ?_
    simp [asText,hx u (hW u (ht.trans hu))]

theorem gives_allChecked (hW : ∀ t, s.Grows t → W t) (h : ∀ c ∈ cs, Describable W m c) :
    (allChecked m (cs.map value)).Gives cs s := by
  refine gives_each ?_
  rw [List.forall₂_map_left_iff,List.forall₂_same]
  exact fun c hc t ht => (h c hc).checked t (hW t ht)

/-- A contract made of a rule is a new object that knows its own place. -/
theorem quiet_build (d : Value) (t : Rule) (s : Store) :
    (build d t).Quiet (fun v u => ∃ r, v = .ref r ∧ s.heap.size ≤ r ∧ u.classOf v = .builtin .contract ∧
      u.contract? v = some (.mk r d t)) s := by
  refine Quiet.bind (quiet_alloc _ s) ?_
  rintro _ u hu ⟨rfl,-⟩
  obtain ⟨v,w,hw,hg,rfl,hv⟩ := quiet_alloc { cls := .builtin .contract
                                             body := .contract (.mk u.heap.size d t) (.ref s.heap.size) none } u
  refine ⟨_,w,hw,hg,_,rfl,hu.size,?_,?_⟩
  · rw [Store.classOf_of_get? hv]
  · rw [Store.contract?_of_body (Store.body?_of_get? hv)]

/-- The positional contract for describable parts. -/
theorem quiet_product {v : Value} (hW : ∀ t, s.Grows t → W t) (h : ∀ c ∈ cs, Describable W m c)
    (hv : s.IsTuple v (cs.map value)) :
    (product m v).Quiet (fun a u => ∃ r d, a = .ref r ∧ s.heap.size ≤ r ∧
      u.classOf a = .builtin .contract ∧ u.contract? a = some (.mk r (.str d) (.product cs))) s := by
  refine Gives.bindQuiet (gives_of_eq (iterate_tuple hv)) fun t ht => ?_
  refine Gives.bindQuiet (gives_allChecked (fun u hu => hW u (ht.trans hu)) h) fun u hu => ?_
  obtain ⟨d,hd⟩ := calm_joined (fun w hw => hW w ((ht.trans hu).trans hw)) h ") x ("
  refine Gives.bindQuiet hd fun w hw => (quiet_build _ _ w).imp ?_
  rintro a z hz ⟨r,rfl,hr,hc,hk⟩
  exact ⟨r,d,rfl,Nat.le_trans ((ht.trans hu).trans hw).size hr,hc,hk⟩

end Contract

/-- A check: what it holds of the signature, the name of the member and the arguments' contract. -/
structure Store.Checks (s : Store) (k signature member : Value) (cs : List Contract) : Prop where
  place : ∃ r o, k = .ref r ∧ s.get? r = some o ∧ o.cls = .builtin .signatureCheck ∧ o.body = .plain ∧
    o.table = none
  signature : s.attr? k "signature" = some signature
  member : s.attr? k "member" = some member
  arguments : ∃ r d, s.attr? k "_arguments" = some (.ref r) ∧ s.classOf (.ref r) = .builtin .contract ∧
    s.contract? (.ref r) = some (.mk r d (.product cs))

namespace Store.Checks
variable {s t : Store} {k f n : Value} {cs : List Contract} {F : Frame}

theorem classOf (h : s.Checks k f n cs) : s.classOf k = .builtin .signatureCheck := by
  obtain ⟨r,o,rfl,ho,hc,-,-⟩ := h.place
  rw [classOf_of_get? ho,hc]

theorem keep (h : s.Checks k f n cs) (ht : s.Keeps F t) (hk : s.Holds F k)
    (ha : ∀ a, s.attr? k "_arguments" = some a → s.Holds F a)
    (hF : ∀ x ∈ ["signature","member","_arguments"], ¬ F.frees x) : t.Checks k f n cs := by
  obtain ⟨r,o,rfl,ho,hc,hb,hn⟩ := h.place
  obtain ⟨o',ho',hr⟩ := hk r rfl
  obtain rfl : o = o' := by simpa [ho] using ho'
  obtain ⟨p,hp,hkeep⟩ := ht.kept r o ho hr
  have hkept (x : String) (hx : ¬ F.frees x) : t.attr? (.ref r) x = s.attr? (.ref r) x :=
    ht.attr? ho hr hn hx
  obtain ⟨q,d,harg,hcls,hq⟩ := h.arguments
  refine ⟨⟨r,p,rfl,hp,hkeep.cls.trans hc,hkeep.body.trans hb,hkeep.table.trans hn⟩,?_,?_,q,d,?_,?_,?_⟩
  · rw [hkept _ (hF _ (by simp)),h.signature]
  · rw [hkept _ (hF _ (by simp)),h.member]
  · rw [hkept _ (hF _ (by simp)),harg]
  · rw [ht.classOf (ha _ harg),hcls]
  · rw [ht.contract? (ha _ harg),hq]

theorem body? (h : s.Checks k f n cs) : s.body? k = some .plain := by
  obtain ⟨r,o,rfl,ho,-,hb,-⟩ := h.place
  rw [body?_of_get? ho,hb]

theorem body?_arguments {a : Value} (h : s.Checks k f n cs) (ha : s.attr? k "_arguments" = some a) :
    ∃ c test p, s.body? a = some (.contract c test p) := by
  obtain ⟨q,d,harg,-,hq⟩ := h.arguments
  obtain rfl : .ref q = a := by simpa [harg] using ha
  exact ⟨_,body_of_contract? hq⟩

theorem grows (h : s.Checks k f n cs) (ht : s.Grows t) : t.Checks k f n cs := by
  refine h.keep ht (holds_all_of_body h.body?) ?_ (by decide)
  intro a ha
  obtain ⟨c,test,p,hb⟩ := h.body?_arguments ha
  exact holds_all_of_body hb

end Store.Checks

/-- A signature that was built makes a new check for every name. -/
theorem Signature.quiet_check {M : Machine} {s : Store} {W : Store → Prop} {f n : Value}
    {cs : List Contract} {p : Parts} (hW : ∀ t, s.Grows t → W t) (hf : s.IsSignature f cs p)
    (hcs : ∀ c ∈ cs, Describable W M.next c) :
    (check M.next f n).Quiet (fun k t => t.Checks k f n cs ∧ ∃ r, k = .ref r ∧ s.heap.size ≤ r) s := by
  refine Gives.bindQuiet (gives_of_eq (read_params hf)) fun t ht => ?_
  refine Quiet.bind (Contract.quiet_product (fun u hu => hW u (ht.trans hu)) hcs (hf.params.grows ht)) ?_
  rintro a u hu ⟨r,d,rfl,hr,hc,hk⟩
  refine (quiet_alloc _ u).imp ?_
  rintro _ w hw ⟨rfl,ho⟩
  have hheld : u.Holds .all (.ref r) := by
    cases hb : u.body? (.ref r) with
    | none => simp [Store.contract?,hb] at hk
    | some b => exact Store.holds_all_of_body hb
  refine ⟨⟨⟨_,_,rfl,ho,rfl,rfl,rfl⟩,?_,?_,⟨r,.str d,?_,?_,?_⟩⟩,_,rfl,(ht.trans hu).size⟩
  · rw [Store.attr?_of_get? ho rfl]; rfl
  · rw [Store.attr?_of_get? ho rfl]; rfl
  · rw [Store.attr?_of_get? ho rfl]; rfl
  · rw [hw.classOf hheld,hc]
  · rw [hw.contract? hheld,hk]

end CallContracts
