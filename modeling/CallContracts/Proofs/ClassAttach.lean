import CallContracts.Proofs.Attachment
import CallContracts.Proofs.Signable
/-! Attaching one signature to a class.  The class passes for an object and its member is read as the language says;
unless that is signed with the signature already, a check for the name is installed in its place. -/
namespace CallContracts
open Act

namespace Contract
variable {m : Machine} {s : Store} {H : Ref → Prop} {D : Ref} {n : String} {b : BuiltinClass}

/-- A class is of no builtin class that is apart from those of classes. -/
theorem isKind_branch (h : s.Branch n H D) (hb : b ≠ .callable)
    (hd : ∀ d : BuiltinClass, .type ∈ d.line → ({} : Store).isSubclass (.builtin d) (.builtin b) = false) :
    isKind m (.ref D) b s = .ok false s := by
  rw [isKind,isInstance_native h.spoofs,Store.isSubclass_type h.above h.type hb hd]

theorem isType_branch (h : s.Branch n H D) : isKind m (.ref D) .type s = .ok true s := by
  rw [isKind,isInstance_native h.spoofs]
  simp [Store.isSubclass,Store.comesFrom,h.type]

theorem kindOf_branch (h : s.Branch n H D) : kindOf m (.ref D) s = .ok .object s := by
  have hbool : isKind m (.ref D) .bool s = .ok false s := isKind_branch h (by decide) fun d => by cases d <;> decide
  have hnumber : isKind m (.ref D) .number s = .ok false s :=
    isKind_branch h (by decide) fun d => by cases d <;> decide
  have htext : isKind m (.ref D) .str s = .ok false s := isKind_branch h (by decide) fun d => by cases d <;> decide
  cases hc : s.isCallable (.ref D) <;> simp [kindOf,bind_apply,hbool,hnumber,htext,hc,isType_branch h]

theorem belongsTo_date_branch (h : s.Branch n H D) :
    belongsTo m depthLimit (.ref D) (.builtinClass .date) s = .ok false s := by
  refine belongsTo_builtin (fun hd => ?_) (isKind_branch h (by decide) fun d => by cases d <;> decide)
  have htype := h.type
  cases hc : s.classOf (.ref D) with
  | defined r =>
    rw [hc] at hd
    cases hd
  | builtin c =>
    rw [hc] at hd htype
    obtain rfl : c = .date := by simpa [ClassId.value] using hd
    simp at htype
    revert htype
    decide

theorem isArray_branch (h : s.Branch n H D) : isArray m (.ref D) s = .ok false s := by
  have hlist : isKind m (.ref D) .list s = .ok false s :=
    isKind_branch h (by decide) fun d => by cases d <;> decide
  rw [isArray,bind_ok hlist]
  exact isKind_branch h (by decide) fun d => by cases d <;> decide

/-- A class is an object. -/
theorem object_branch (hs : s.HasStandard) (h : s.Branch n H D) :
    object.outcome m (.ref D) s = .ok .matched s :=
  object_outcome hs (kindOf_branch h) (isArray_branch h) (belongsTo_date_branch h)

end Contract

/-- A map of entries that no class of the program makes, without attributes of its own. -/
structure Store.IsMap (s : Store) (d : Ref) (es : List (Value × Value)) : Prop extends s.IsTable d es where
  own : ∃ o, s.get? d = some o ∧ o.table = none ∧ o.attrs = none

theorem Store.IsMap.grows {s t : Store} {d : Ref} {es : List (Value × Value)} (h : s.IsMap d es) (ht : s.Grows t) :
    t.IsMap d es := by
  obtain ⟨o,ho,htable,hattrs⟩ := h.own
  obtain ⟨p,hp,hk⟩ := ht.kept d o ho trivial
  refine ⟨h.toIsTable.grows ht,p,hp,hk.table.trans htable,?_⟩
  have hsome := hk.isSome_attrs
  rw [hattrs] at hsome
  simpa using hsome

theorem Store.IsMap.attr? {s : Store} {d : Ref} {es : List (Value × Value)} (h : s.IsMap d es) (n : String) :
    s.attr? (.ref d) n = none := by
  obtain ⟨o,ho,htable,hattrs⟩ := h.own
  rw [Store.attr?_of_get? ho htable,hattrs]
  rfl

namespace Signature
variable {M m : Machine} {s t : Store} {H : Ref → Prop} {d D : Ref} {n : String} {sig : Value} {cs : List Contract}
  {p : Parts} {b : Bool}

/-- A map of one signature, which a text describes, for a class whose member is read as a callable; that is signed
with this very signature or not. -/
structure Single (m : Machine) (s : Store) (H : Ref → Prop) (d D : Ref) (n : String) (sig : Value)
    (cs : List Contract) (p : Parts) (b : Bool) : Prop where
  standard : s.HasStandard
  map : s.IsMap d [(.str n,sig)]
  branch : s.Branch n H D
  name : n ∉ specialNames
  signature : s.IsSignature sig cs p
  described : ∃ c x, s.contract? sig = some c ∧ c.description = .str x
  member : ∀ t, s.Grows t → (m.read (.ref D) n).Quiet
    (fun v u => u.isCallable v = true ∧ (isSignedWith m v sig).Gives b u) t

theorem Single.grows (h : Single m s H d D n sig cs p b) (ht : s.Grows t) : Single m t H d D n sig cs p b := by
  obtain ⟨c,x,hc,hx⟩ := h.described
  obtain ⟨_,_,hb⟩ := h.signature.body
  exact ⟨h.standard.grows ht,h.map.grows ht,h.branch.grows h.name ht,h.name,h.signature.grows ht,
    ⟨c,x,by rw [ht.contract? (Store.holds_all_of_body hb),hc],hx⟩,fun u hu => h.member u (ht.trans hu)⟩

/-- What is logged about a signature that a text describes. -/
theorem calm_logSigned (hd : ∃ c x, s.contract? sig = some c ∧ c.description = .str x) (before between : String) :
    (logAgainst m before between (.str n) sig).Calm s := by
  obtain ⟨c,x,hc,hx⟩ := hd
  have hdesc : descriptionOf m sig s = .ok (.str x) s := by simp [descriptionOf,hc,hx]
  obtain ⟨_,t,ht,hg⟩ := calm_logMessage (before ++ n ++ between ++ x) s
  refine ⟨(),t,?_,hg⟩
  rw [logAgainst,bind_ok hdesc,bind_ok (written_str m n s),bind_ok (written_str m x s)]
  exact ht

/-- The entry is looked at: it is noted unless its member is signed already. -/
theorem gives_examine (h : Single m s H d D n sig cs p b) : (examine m (.ref D) (.str n) sig).Gives (!b) s := by
  have hcontract : isContract m sig s = .ok true s := isKind_builtin h.signature.cls (by decide)
  obtain ⟨v,t,hv,hg,-⟩ := h.member s (Store.Keeps.refl _ s)
  have hhas : hasMember m (.ref D) (.str n) s = .ok true t := by
    have hname : attributeName (.str n) s = .ok n s := rfl
    rw [hasMember,bind_ok (Wrapper.isMapping_governed h.branch.governed)]
    simp only [Bool.false_eq_true,if_false]
    rw [hasAttribute,bind_ok hname,bind_ok (optional_ok hv)]
    rfl
  obtain ⟨w,u,hw,hg',hcall,hsigned⟩ := h.member t hg
  have hmember : memberOf m (.ref D) (.str n) t = .ok w u := by
    have hname : attributeName (.str n) t = .ok n t := rfl
    rw [memberOf,bind_ok (Wrapper.isMapping_governed (h.grows hg).branch.governed)]
    simp only [Bool.false_eq_true,if_false]
    rw [getAttribute,bind_ok hname]
    exact hw
  have hu := h.grows (hg.trans hg')
  have hkind : isSignature m sig u = .ok true u := isKind_builtin hu.signature.cls (by decide)
  have hexamine : examine m (.ref D) (.str n) sig s = (do
      if ← isSignedWith m w sig then
        logAgainst m "" " already checked against " (.str n) sig
        return false
      else return true : Act Bool) u := by
    rw [Attachment.examine_member (p := (.str n,sig)) hcontract hhas hmember,hcall]
    simp only [if_true]
    rw [bind_ok hkind]
    rfl
  obtain ⟨z,hz,hg''⟩ := hsigned
  have hgz := (hg.trans hg').trans hg''
  cases b with
  | false => exact ⟨z,by rw [hexamine,bind_ok hz]; rfl,hgz⟩
  | true =>
    obtain ⟨_,y,hy,hgy⟩ := calm_logSigned (m := m) (n := n) (h.grows hgz).described "" " already checked against "
    refine ⟨y,?_,hgz.trans hgy⟩
    rw [hexamine,bind_ok hz]
    simp only [if_true]
    rw [bind_ok hy]
    rfl

/-- Before the first wrapper the map is looked through. -/
theorem gives_prepare (h : Single m s H d D n sig cs p b) :
    (prepare m (.ref d) (.ref D)).Gives (if b then [] else [(.str n,sig)]) s := by
  obtain ⟨pair,t₁,h₁,g₁,hpair⟩ := quiet_newTuple [.ref d,.ref D] s
  obtain ⟨t₂,h₂,g₂⟩ := Contract.gives_attachment (m := m) (h.grows g₁).standard hpair
    (fun t ht => gives_of_eq (Contract.signatureMap_table (h.grows (g₁.trans ht)).standard
      (h.grows (g₁.trans ht)).map.toIsTable))
    fun t ht => gives_of_eq (Contract.object_branch (h.grows (g₁.trans ht)).standard (h.grows (g₁.trans ht)).branch)
  have hlists : Lists (s.Grows ·) m (.ref d) [(.str n,sig)] :=
    lists_table (fun t ht => ⟨(h.grows ht).map.toIsTable,(h.grows ht).map.attr? "items"⟩) (by simp)
  obtain ⟨c,t₃,h₃,g₃,hyields,hbound⟩ := hlists t₂ (g₁.trans g₂)
  obtain ⟨k,hk⟩ : ∃ k, t₃.bound c = k + 2 := Nat.exists_eq_add_of_le' (Nat.succ_le_of_lt (by simpa using hbound))
  have g := (g₁.trans g₂).trans g₃
  obtain ⟨x,c',t₄,h₄,g₄,hparts,hend⟩ := hyields t₃ g
  obtain ⟨t₅,h₅,g₅⟩ := hparts t₄ (g.trans g₄)
  have g' := (g.trans g₄).trans g₅
  obtain ⟨t₆,h₆,g₆⟩ := gives_examine (h.grows g')
  obtain ⟨t₇,h₇,g₇⟩ := hend t₆ (g'.trans g₆)
  refine ⟨t₇,?_,(g'.trans g₆).trans g₇⟩
  rw [prepare,bind_ok h₁,bind_ok h₂]
  simp only [reduceCtorEq,if_false]
  rw [bind_ok h₃,get_bind_apply,hk]
  simp only [pending]
  rw [bind_ok h₄]
  simp only []
  rw [bind_ok h₅]
  simp only []
  rw [bind_ok h₆,bind_ok h₇]
  cases b <;> rfl

/-- A member that is signed with the signature already is left as it is. -/
theorem attach_signed (h : Single m s H d D n sig cs p true) : (attach m (.ref d) (.ref D)).Gives (.ref D) s := by
  obtain ⟨t,ht,hg⟩ := gives_prepare h
  exact ⟨t,by rw [attach_eq,bind_ok ht]; rfl,hg⟩

/-- Otherwise a new check for the name is installed. -/
theorem attach_checks (h : Single M.next s H d D n sig cs p false)
    (hcs : ∀ c ∈ cs, Describable (s.Grows ·) M.next c) :
    ∃ k t, s.Grows t ∧ t.Checks k sig (.str n) cs ∧ attach M.next (.ref d) (.ref D) s = (do
      let _ ← Wrapper.install M.next (.ref D) (.str n) k
      logAgainst M.next "checking calls of " " against " (.str n) sig
      return .ref D : Act Value) t := by
  obtain ⟨t,ht,hg⟩ := gives_prepare h
  obtain ⟨k,u,hu,hg',hk,-⟩ := quiet_check (fun z hz => hg.trans hz) (h.grows hg).signature (n := .str n) hcs
  refine ⟨k,u,hg.trans hg',hk,?_⟩
  rw [attach_eq,bind_ok ht]
  simp only [Bool.false_eq_true,if_false,wrapAll,wrapNoted,bind_assoc,pure_bind]
  rw [bind_ok hu]

/-- What is made of the stored member and of the new check is written to the class, and nothing else that the library
made changes. -/
theorem attach_installs {P : Value → Store → Prop} (h : Single M.next.next s H d D n sig cs p false)
    (hcs : ∀ c ∈ cs, Describable (s.Grows ·) M.next.next c)
    (hwrap : ∀ k t, s.Grows t → t.Checks k sig (.str n) cs → ∃ y w u, t.Grows u ∧ P y u ∧
      Wrapper.wrapMember M.next.next (.ref D) (.defined D) n k t
        = (M.next.next.write (.ref D) n y >>= fun _ => pure w) u)
    (hP : ∀ y t u, P y t → t.Keeps .guards u → P y u) :
    ∃ y t, attach M.next.next (.ref d) (.ref D) s = .ok (.ref D) t ∧ s.Keeps .guards t ∧ s.Keeps (.members n) t ∧
      t.Branch n H D ∧ t.attr? (.ref D) n = some y ∧ P y t := by
  obtain ⟨k,t,ht,hk,hattach⟩ := attach_checks h hcs
  have hD : t.Branch n H D := (h.grows ht).branch
  obtain ⟨y,w,u,hg,hy,hmember⟩ := hwrap k t ht hk
  obtain ⟨z,hz,hwrote,hwrote'⟩ := Wrapper.install_class hD h.name k hg hmember
  have hkept : u.Keeps .guards z := (hD.grows h.name hg).wrote_guards hwrote'
  have hguards : s.Keeps .guards z := (Store.Keeps.of_grows (ht.trans hg)).trans hkept
  have hDz : z.Branch n H D := hD.wrote h.name (Or.inl (hD.closed D (Store.lookup_self t D))) hwrote
  have hdescribed : ∃ c x, z.contract? sig = some c ∧ c.description = .str x := by
    obtain ⟨c,x,hc,hx⟩ := h.described
    obtain ⟨_,_,hbody⟩ := h.signature.body
    have hholds : s.Holds .guards sig :=
      Store.holds_of_class hbody h.signature.cls fun _ => Or.inr (by simp [Frame.library])
    exact ⟨c,x,by rw [hguards.contract? hholds,hc],hx⟩
  obtain ⟨_,v,hv,hgv⟩ := calm_logSigned (m := M.next.next) (n := n) hdescribed "checking calls of " " against "
  refine ⟨y,v,?_,hguards.trans (Store.Keeps.of_grows hgv),
    ((Store.Keeps.of_grows ht).trans hwrote.members).trans (Store.Keeps.of_grows hgv),hDz.grows h.name hgv,?_,
    hP y z v (hP y u z hy hkept) (Store.Keeps.of_grows hgv)⟩
  · rw [hattach,bind_ok hz,bind_ok hv]
    rfl
  · obtain ⟨o,ho,htable,-⟩ := hDz.own
    have hn : ¬ Frame.all.frees n := by
      simp only [Frame.frees,Frame.all,List.not_mem_nil,or_false]
      rintro rfl
      exact h.name (by decide)
    rw [hgv.attr? ho trivial htable hn,hwrote.here]

end Signature
end CallContracts
