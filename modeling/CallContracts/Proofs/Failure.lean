import CallContracts.Proofs.Landing
/-! What a failed attachment leaves behind.  The noted members are wrapped one after the other, and what
was written stays when a later one fails; so the slots of the target are as they were exactly when no
wrapper had been installed. -/
namespace CallContracts
open Act

namespace Signature
variable {W W' W₀ : Store → Prop} {stage : List (Value × Value) → Store → Prop} {m : Machine}
  {signatures target : Value} {size : Nat} {s t u : Store} {p : Value × Value} {ps : List (Value × Value)}
  {e : Stop}

/-- Makes the check of a noted entry and installs the wrapper. -/
def installNoted (m : Machine) (target : Value) (p : Value × Value) : Act Value := do
  let advice ← check m p.2 p.1
  Wrapper.install m target p.1 advice

theorem wrapNoted_eq (m : Machine) (target : Value) (p : Value × Value) :
    wrapNoted m target p.1 p.2 = (do
      let _ ← installNoted m target p
      logAgainst m "checking calls of " " against " p.1 p.2) := by
  simp only [wrapNoted,installNoted,bind_assoc]

/-- One noted entry is wrapped: the stores before its wrapper is written, and after. -/
structure Stage (W W' : Store → Prop) (m : Machine) (target : Value) (size : Nat) (p : Value × Value) :
    Prop where
  before : Watched W target size
  checks : Spares W target (check m p.2 p.1)
  installs : Wrapper.Installs W W' m target p.1 size
  after : Watched W' target size
  told : Told W' m target p

/-- The noted entries are wrapped one after the other; the stores of a stage are those in which some
entries are still to be wrapped. -/
def Stages (stage : List (Value × Value) → Store → Prop) (m : Machine) (target : Value) (size : Nat) :
    List (Value × Value) → Prop
  | [] => True
  | p :: ps => Stage (stage (p :: ps)) (stage ps) m target size p ∧ Stages stage m target size ps

theorem lands_installNoted (h : Stage W W' m target size p) :
    Wrapper.Lands W W' target size (installNoted m target p) :=
  Wrapper.lands_after h.checks fun _ _ => Wrapper.lands_install h.before h.installs

theorem touched_congr (h : u.slots target = t.slots target) (ht : t.Touched target size) :
    u.Touched target size := by
  rw [Store.Touched,h]
  exact ht

/-- Once a wrapper was installed, recording that spares the slots. -/
theorem touched_logged (h : Stage W W' m target size p) (ht : W' t) (htouched : t.Touched target size)
    {f : Unit → Act Unit}
    (ih : ∀ v, W' v → v.Touched target size → f () v = .error e u → u.Touched target size)
    (hu : (logAgainst m "checking calls of " " against " p.1 p.2 >>= f) t = .error e u) :
    u.Touched target size := by
  have hlog := spares_logAgainst h.after h.told "checking calls of " " against "
  rcases bind_eq_error.mp hu with hu | ⟨_,v,hv,hu⟩
  · exact touched_congr (hlog.error ht hu).2 htouched
  · obtain ⟨hWv,hs⟩ := hlog.ok ht hv
    exact ih v hWv (touched_congr hs htouched) hu

theorem wrapAll_cons (m : Machine) (target : Value) (p : Value × Value) (ps : List (Value × Value)) :
    wrapAll m target (p :: ps) = (do
      let _ ← installNoted m target p
      logAgainst m "checking calls of " " against " p.1 p.2
      wrapAll m target ps) := by
  rw [wrapAll,wrapNoted_eq,bind_assoc]

/-- What was written stays written, whatever fails later. -/
theorem touched_wrapAll (hps : Stages stage m target size ps) (ht : stage ps t)
    (htouched : t.Touched target size) (hu : wrapAll m target ps t = .error e u) :
    u.Touched target size := by
  induction ps generalizing t with
  | nil => cases hu
  | cons p ps ih =>
    obtain ⟨hp,hps⟩ := hps
    obtain ⟨hok,herr⟩ := lands_installNoted hp t ht
    rw [wrapAll_cons] at hu
    rcases bind_eq_error.mp hu with hu | ⟨w,v,hv,hu⟩
    · exact touched_congr (herr e u hu) htouched
    · obtain ⟨hv',hnew⟩ := hok w v hv
      exact touched_logged hp hv' hnew (fun x hx hxt hxu => ih hps hx hxt hxu) hu

/-- When wrapping fails, the slots are as they were if the first installation failed, and hold something
new otherwise. -/
theorem slots_wrapAll (hps : Stages stage m target size (p :: ps)) (ht : stage (p :: ps) t)
    (hu : wrapAll m target (p :: ps) t = .error e u) :
    (∃ w v, installNoted m target p t = .ok w v) ∧ u.Touched target size ∨
    (¬ ∃ w v, installNoted m target p t = .ok w v) ∧ u.slots target = t.slots target := by
  obtain ⟨hp,hps⟩ := hps
  obtain ⟨hok,herr⟩ := lands_installNoted hp t ht
  rw [wrapAll_cons] at hu
  rcases bind_eq_error.mp hu with hu | ⟨w,v,hv,hu⟩
  · refine Or.inr ⟨?_,herr e u hu⟩
    rintro ⟨w,v,hv⟩
    rw [hu] at hv
    cases hv
  · obtain ⟨hv',hnew⟩ := hok w v hv
    exact Or.inl ⟨⟨w,v,hv⟩,touched_logged hp hv' hnew
      (fun x hx hxt hxu => touched_wrapAll hps hx hxt hxu) hu⟩

/-- A first wrapper was installed: the map was gone over, and its first noted entry wrapped. -/
def Installed (m : Machine) (signatures target : Value) (s : Store) : Prop :=
  ∃ p ps t w u, prepare m signatures target s = .ok (p :: ps) t ∧ installNoted m target p t = .ok w u

/-- An attachment during which the target is watched: what its slots hold is older than the attachment,
and no question that is asked touches them. -/
structure Observed (W : Store → Prop) (stage : List (Value × Value) → Store → Prop) (m : Machine)
    (signatures target : Value) (s : Store) : Prop where
  start : W s
  watched : Watched W target s.heap.size
  old : ∀ e ∈ s.slots target, ∀ r, e.2 = .ref r → r < s.heap.size
  prepares : Prepares W m signatures target
  stages : ∀ noted t, prepare m signatures target s = .ok noted t → stage noted t ∧
    Stages stage m target s.heap.size noted

theorem not_touched (hold : ∀ e ∈ s.slots target, ∀ r, e.2 = .ref r → r < s.heap.size)
    (h : t.Touched target s.heap.size) : t.slots target ≠ s.slots target := by
  intro hs
  obtain ⟨e,he,r,hr,hsize⟩ := h
  rw [hs] at he
  exact absurd (hold e he r hr) (Nat.not_lt.mpr hsize)

/-- Making the check of a signature that was built touches nothing, even when a part describes itself by
no text and the making fails. -/
theorem spares_check {M : Machine} {f n : Value} {cs : List Contract} {parts : Parts}
    (hW : Watched W target size) (hf : ∀ t, W t → t.IsSignature f cs parts)
    (hcs : ∀ c ∈ cs, ∀ t, W t → t.contract? c.value = some c) :
    Spares W target (check M.next f n) := by
  have hread : Always W (M.next.read f "params") parts.params := fun t ht =>
    gives_of_eq (read_params (hf t ht))
  have hitems : Always W (iterate M.next parts.params) (cs.map Contract.value) := fun t ht =>
    gives_of_eq (iterate_tuple (hf t ht).params)
  have hchecked : Always W (Contract.allChecked M.next (cs.map Contract.value)) cs := fun t ht => by
    refine gives_each ?_
    rw [List.forall₂_map_left_iff,List.forall₂_same]
    exact fun c hc u hu => gives_of_eq (by simp [Contract.checked,hcs c hc u (hW.grows t u ht hu).1])
  have hbuild (d : Value) : Spares W target (Contract.build d (.product cs)) := by
    refine hW.calm fun t _ => ?_
    obtain ⟨a,u,hu,hg,-⟩ := Contract.quiet_build d (.product cs) t
    exact ⟨a,u,hu,hg⟩
  have hproduct : Spares W target (Contract.productOf M.next cs) := by
    refine Spares.bind ?_ fun d _ => hbuild d
    have hdescribe : Spares W target (each (Contract.describe M.next) cs) := by
      refine spares_each fun c hc => hW.calm fun t ht => (gives_of_eq (a := c.description) ?_).calm
      simp [Contract.describe,hcs c hc t ht]
    refine hdescribe.bind fun ds _ => Spares.bind ?_ fun ts _ => spares_pure _
    exact spares_each fun d _ => Spares.get fun t _ => spares_ofOption _ _
  refine (hW.calm hread.calm).bind fun v hv => ?_
  rw [hread.eq hv]
  refine Spares.bind ?_ fun a _ => hW.spares fun t _ => Store.Keeps.alloc t _
  refine (hW.calm hitems.calm).bind fun xs hxs => ?_
  rw [hitems.eq hxs]
  refine (hW.calm hchecked.calm).bind fun ds hds => ?_
  rw [hchecked.eq hds]
  exact hproduct

end Signature

namespace Attachment
variable {A : Answers} {M : Machine} {W : Store → Prop} {s t : Store} {d : Ref} {o : Obj}
  {es fs map ps : List (Value × Value)} {p q : Value × Value}

/-- The stores in which the members that some entries name are still those of a table. -/
structure Left (A : Answers) (s : Store) (d : Ref) (es ps : List (Value × Value)) (t : Store) : Prop where
  others : s.Keeps (.but d) t
  own : ∃ o, t.HoldsOwn d o
  table : ∃ fs, t.IsTable d fs ∧ fs.map Prod.fst = es.map Prod.fst ∧
    ∀ p ∈ ps, A.member? fs p = A.member? es p

theorem Left.grows {u : Store} (h : Left A s d es ps t) (hu : t.Grows u) : Left A s d es ps u := by
  obtain ⟨o,ho⟩ := h.own
  obtain ⟨fs,hfs,hk,hm⟩ := h.table
  obtain ⟨p,hp,-⟩ := ho.grows hu
  exact ⟨h.others.trans (Store.Keeps.of_grows hu),⟨p,hp⟩,fs,hfs.grows hu,hk,hm⟩

theorem Left.refills (h : Left A s d es ps t) : s.Refills d (es.map Prod.fst) t := by
  obtain ⟨fs,hfs,hk,-⟩ := h.table
  exact ⟨h.others,fs,hfs,hk⟩

theorem Left.watched : Watched (Left A s d es ps) (.ref d) s.heap.size := by
  refine ⟨fun t u ht hu => ⟨ht.grows hu,?_⟩,fun t ht => ht.others.size⟩
  obtain ⟨o,ho⟩ := ht.own
  obtain ⟨p,-,hslots⟩ := ho.grows hu
  exact hslots

/-- Writing under one key leaves what other entries name. -/
theorem member?_refilled {w : Value} (hk : fs.map Prod.fst = es.map Prod.fst)
    (hp : (A.member? fs p).isSome) (hne : ∀ i, A.place? es p = some i → A.place? es q ≠ some i) :
    A.member? (Table.refilled A.same p.1 w fs) q = A.member? fs q := by
  have hentry : (Table.found? A.same p.1 fs).isSome := by simpa [Answers.member?] using hp
  obtain ⟨i,hi⟩ : ∃ i, A.place? fs p = some i := by
    rw [Answers.member?_eq] at hp
    cases hx : A.place? fs p with
    | none => simp [hx] at hp
    | some i => exact ⟨i,rfl⟩
  have hkeys := Table.keys_refilled (w := w) hentry
  rw [Answers.member?_eq,Answers.member?_eq,place?_congr hkeys]
  cases hx : A.place? fs q with
  | none => rfl
  | some j =>
    have hj : j ≠ i := by
      rintro rfl
      exact hne j (by rw [← place?_congr hk,hi]) (by rw [← place?_congr hk,hx])
    simp [Table.getElem?_refilled (w := w) hi j,hj]

/-- One entry of a plain table is wrapped. -/
theorem stage_table {v : Value} {cs : List Contract} {parts : Parts} (hd : s.IsTable d es)
    (hp : A.About es p (s.Refills d (es.map Prod.fst)) M.next) (hc : A.isContract p.2)
    (hv : A.member? es p = some v) (hcall : A.isCall p v)
    (hsig : s.IsSignature p.2 cs parts) (hcs : ∀ c ∈ cs, s.contract? c.value = some c)
    (honce : ∀ q ∈ ps, ∀ i, A.place? es p = some i → A.place? es q ≠ some i) :
    Signature.Stage (Left A s d es (p :: ps)) (Left A s d es ps) M.next (.ref d) s.heap.size p := by
  have hp' {qs : List (Value × Value)} : A.About es p (Left A s d es qs) M.next :=
    hp.mono fun t ht => ht.refills
  refine ⟨Left.watched,?_,?_,Left.watched,told_of_about Left.watched hp'.entry hc⟩
  · refine Signature.spares_check Left.watched (fun t ht => isSignature_refills hd ht.refills hsig) ?_
    intro c hx t ht
    have hcontract := hcs c hx
    rw [ht.others.contract? ?_,hcontract]
    cases hb : s.body? c.value with
    | none => simp [Store.contract?,hb] at hcontract
    | some b =>
      refine Store.holds_but hd hb ?_
      rintro fs rfl
      simp [Store.contract?,hb] at hcontract
  · refine Wrapper.installs_table (fun t u ht hu => ht.grows hu) Left.watched hp'.entry.files ?_
      ((hp'.member v hc hv).told hcall) ?_
    · intro t ht
      obtain ⟨fs,hfs,hk,hm⟩ := ht.table
      have hx := hm p (by simp)
      rw [hv,Answers.member?,Option.map_eq_some_iff] at hx
      obtain ⟨⟨k,w⟩,he,rfl⟩ := hx
      exact ⟨fs,k,hfs,hk,he⟩
    · intro t fs r ht hfs
      obtain ⟨gs,hgs,hk,hm⟩ := ht.table
      obtain rfl : fs = gs := by simpa [hfs.body] using hgs.body
      obtain ⟨o,ho⟩ := ht.own
      have hx : (A.member? fs p).isSome := by rw [hm p (by simp),hv]; rfl
      have hentry : (Table.found? A.same p.1 fs).isSome := by simpa [Answers.member?] using hx
      obtain ⟨hkeep,htable⟩ := hfs.refill (Table.refilled A.same p.1 (.ref r) fs)
      refine ⟨ht.others.trans hkeep,ho.refill _,_,htable,?_,?_⟩
      · rw [Table.keys_refilled hentry,hk]
      · intro q hq
        rw [member?_refilled hk hx (honce q hq),hm q (by simp [hq])]

theorem stages_table (hd : s.IsTable d es)
    (hmap : ∀ p ∈ ps, (A.fate es p).isWrap ∧ A.About es p (s.Refills d (es.map Prod.fst)) M.next ∧
      ∃ cs parts, s.IsSignature p.2 cs parts ∧ ∀ c ∈ cs, s.contract? c.value = some c)
    (honce : NamedOnce A es ps) :
    Signature.Stages (Left A s d es) M.next (.ref d) s.heap.size ps := by
  induction ps with
  | nil => trivial
  | cons p ps ih =>
    obtain ⟨hwrap,hp,cs,parts,hsig,hcs⟩ := hmap p (by simp)
    obtain ⟨hc,v,hv,hcall,-⟩ := (isWrap_fate A es p).mp hwrap
    obtain ⟨hfirst,honce⟩ := List.pairwise_cons.mp honce
    exact ⟨stage_table hd hp hc hv hcall hsig hcs hfirst,ih (fun q hq => hmap q (by simp [hq])) honce⟩

/-- An attachment to a plain table can be observed, when all that is asked is answered; signatures need
not be such that their checks can be made. -/
theorem observed_table {signatures : Value} (h : Answerable A M s d es signatures map)
    (hd : s.HoldsOwn d o) (hold : ∀ e ∈ s.slots (.ref d), ∀ r, e.2 = .ref r → r < s.heap.size)
    (honce : NamedOnce A es map)
    (hsig : ∀ p ∈ map, A.isSignature p.2 → ∃ cs parts, s.IsSignature p.2 cs parts ∧
      ∀ c ∈ cs, s.contract? c.value = some c) :
    Signature.Observed (s.Grows ·) (Left A s d es) M.next signatures (.ref d) s := by
  refine ⟨Store.Keeps.refl _ s,hd.watched,hold,prepares_of_answerable hd h,?_⟩
  intro noted t ht
  rcases prepare_spec h with ⟨-,u,hu,hg⟩ | ⟨p,q,u,-,hu,-⟩
  · obtain ⟨rfl,rfl⟩ : A.wrapped es map = noted ∧ u = t := by simpa [hu] using ht
    obtain ⟨p,hp,-⟩ := hd.grows hg
    refine ⟨⟨Store.Keeps.of_grows hg,⟨p,hp⟩,es,h.table.grows hg,rfl,fun _ _ => rfl⟩,?_⟩
    refine stages_table h.table ?_ (honce.sublist List.filter_sublist)
    intro p hp
    obtain ⟨hmem,hw⟩ := List.mem_filter.mp hp
    obtain ⟨-,v,-,hcall,-⟩ := (isWrap_fate A es p).mp hw
    simp only [Answers.isCall,Bool.and_eq_true] at hcall
    exact ⟨hw,h.about p hmem,hsig p hmem hcall.2⟩
  · rw [hu] at ht
    cases ht

end Attachment

namespace Signature
variable {W : Store → Prop} {stage : List (Value × Value) → Store → Prop} {m : Machine}
  {signatures target : Value} {s t : Store} {e : Stop}

/-- An attachment that fails leaves the slots of its target as they were exactly when it failed before a
first wrapper was installed. -/
theorem slots_of_failed_attach (h : Observed W stage m signatures target s)
    (ht : attach m signatures target s = .error e t) :
    t.slots target = s.slots target ↔ ¬ Installed m signatures target s := by
  have hprepare := spares_prepare h.watched h.prepares
  rw [attach_eq] at ht
  rcases bind_eq_error.mp ht with hp | ⟨noted,u,hu,ht⟩
  · -- the map was not gone over
    refine iff_of_true (hprepare.error h.start hp).2 ?_
    rintro ⟨p,ps,v,w,z,hv,-⟩
    rw [hp] at hv
    cases hv
  · obtain ⟨hstage,hstages⟩ := h.stages noted u hu
    have hslots := (hprepare.ok h.start hu).2
    rcases bind_eq_error.mp ht with ht | ⟨_,v,-,he⟩
    · cases noted with
      | nil => cases ht
      | cons p ps =>
        rcases slots_wrapAll hstages hstage ht with ⟨⟨w,z,hz⟩,htouched⟩ | ⟨hno,hsame⟩
        · exact iff_of_false (not_touched h.old htouched) fun hn => hn ⟨p,ps,u,w,z,hu,hz⟩
        · refine iff_of_true (hsame.trans hslots) ?_
          rintro ⟨q,qs,v,w,z,hv,hz⟩
          obtain ⟨⟨rfl,rfl⟩,rfl⟩ : (p = q ∧ ps = qs) ∧ u = v := by simpa [hu] using hv
          exact hno ⟨w,z,hz⟩
    · cases he

/-- Two functions in a table; the second signature that they are given takes a contract whose description
is a number, so that its check cannot be made. -/
def halfway : Store :=
  { Attachment.sample with heap := Attachment.sample.heap ++ #[
    { cls := .builtin .contract, body := .contract (.mk 38 (.int 5) (.test (.ref 33))) (.ref 33) none },
    { cls := .builtin .tuple, body := .tuple [.ref 38] },
    { cls := .builtin .signature
      body := .contract (.mk 40 (.str "5 -> any") .function) (.operation .functionTest)
        (some ⟨.ref 39,.ref 38,.ref 1⟩) },
    { cls := .builtin .dict, body := .table [(.str "a",.ref 33),(.str "b",.ref 33)] },
    { cls := .builtin .dict, body := .table [(.str "a",.ref 35),(.str "b",.ref 40)] }] }

def halfwayAnswers : Attachment.Answers where
  same a b := decide (a = b)
  isContract _ := true
  isSignature _ := true
  isCallable _ := true
  isSigned _ _ := false
  mismatches _ _ := false
  description v := if v = .ref 35 then .str "any -> any" else .str "5 -> any"

theorem halfway_observed (M : Machine) : Observed (halfway.Grows ·)
    (Attachment.Left halfwayAnswers halfway 41 [(.str "a",.ref 33),(.str "b",.ref 33)]) M.next (.ref 42)
    (.ref 41) halfway := by
  have hd : halfway.IsTable 41 [(.str "a",.ref 33),(.str "b",.ref 33)] := ⟨rfl,rfl⟩
  have hmap : halfway.IsTable 42 [(.str "a",.ref 35),(.str "b",.ref 40)] := ⟨rfl,rfl⟩
  have hown : halfway.HoldsOwn 41
      { cls := .builtin .dict, body := .table [(.str "a",.ref 33),(.str "b",.ref 33)] } :=
    ⟨rfl,rfl,rfl,by simp⟩
  have hstandard : halfway.HasStandard := by
    simp only [Store.HasStandard]
    decide
  have hf {t : Store} (ht : halfway.Refills 41 [.str "a",.str "b"] t) :
      t.IsFunction (.ref 33) ⟨"f","f",.str "m",.absent,
        .closure ⟨"f",[(.required "x",none)],.variable "x",[]⟩⟩ := by
    obtain ⟨hc,hb⟩ := ht.kept (r := 33) rfl (by decide)
    exact ⟨hc,hb⟩
  have texts : ∀ k ∈ [Value.str "a",.str "b"], ∃ t, k = .str t := by simp
  have hanswers : Attachment.Answerable halfwayAnswers M halfway 41
      [(.str "a",.ref 33),(.str "b",.ref 33)] (.ref 42) [(.str "a",.ref 35),(.str "b",.ref 40)] := by
    refine ⟨hd,hstandard,?_,?_,?_⟩
    · exact fun t ht => gives_of_eq (Contract.signatureMap_table (hstandard.grows ht) (hmap.grows ht))
    · refine lists_table (fun t ht => ⟨hmap.grows ht,?_⟩) (by decide)
      exact (ht.attr? (o := { cls := .builtin .dict, body := .table _ }) rfl trivial rfl (by decide)).trans rfl
    · intro p hp
      simp only [List.mem_cons,List.not_mem_nil,or_false] at hp
      rcases hp with rfl | rfl
      · refine Attachment.about_function (c := .mk 35 (.str "any -> any") .function) texts (fun k => rfl)
          (fun t ht => ?_) rfl rfl rfl rfl (fun t ht => hf ht) rfl rfl rfl
        obtain ⟨hc,hb⟩ := ht.kept (r := 35) rfl (by decide)
        exact ⟨hc,Store.contract?_of_body hb⟩
      · refine Attachment.about_function (c := .mk 40 (.str "5 -> any") .function) texts (fun k => rfl)
          (fun t ht => ?_) rfl rfl rfl rfl (fun t ht => hf ht) rfl rfl rfl
        obtain ⟨hc,hb⟩ := ht.kept (r := 40) rfl (by decide)
        exact ⟨hc,Store.contract?_of_body hb⟩
  refine Attachment.observed_table hanswers hown ?_ ?_ ?_
  · intro e he r hr
    have hslots : halfway.slots (.ref 41) = [(.str "a",.ref 33),(.str "b",.ref 33)] := rfl
    rw [hslots] at he
    have he : e.2 = .ref 33 := by
      simp only [List.mem_cons,List.not_mem_nil,or_false] at he
      rcases he with rfl | rfl <;> rfl
    cases he.symm.trans hr
    decide
  · simp only [Attachment.NamedOnce]
    decide
  · intro p hp _
    simp only [List.mem_cons,List.not_mem_nil,or_false] at hp
    rcases hp with rfl | rfl
    · exact ⟨[Contract.anything],⟨.ref 34,.ref 1,.ref 1⟩,⟨rfl,⟨_,_,rfl⟩,rfl,rfl⟩,by simp; rfl⟩
    · exact ⟨[.mk 38 (.int 5) (.test (.ref 33))],⟨.ref 39,.ref 38,.ref 1⟩,⟨rfl,⟨_,_,rfl⟩,rfl,rfl⟩,by simp; rfl⟩

/-- The first function is wrapped before the second signature fails. -/
theorem slots_of_failed_attach_halfway : ∃ e t,
    Observed (halfway.Grows ·)
      (Attachment.Left halfwayAnswers halfway 41 [(.str "a",.ref 33),(.str "b",.ref 33)])
      Machine.halted.next (.ref 42) (.ref 41) halfway ∧
    attach Machine.halted.next (.ref 42) (.ref 41) halfway = .error e t ∧
    (t.slots (.ref 41) = halfway.slots (.ref 41) ↔
      ¬ Installed Machine.halted.next (.ref 42) (.ref 41) halfway) := by
  have hfails : (match attach Machine.halted.next (.ref 42) (.ref 41) halfway with
      | .error _ _ => true
      | .ok _ _ => false) = true := by decide +kernel
  cases h : attach Machine.halted.next (.ref 42) (.ref 41) halfway with
  | ok v t =>
    rw [h] at hfails
    cases hfails
  | error e t =>
    have hobserved := halfway_observed Machine.halted
    exact ⟨e,t,hobserved,rfl,slots_of_failed_attach hobserved h⟩

/-- A map of two signatures, and an instance of a class with one storage place, which holds a function. -/
def slotted : Act (Value × Value) := do
  let any := Expr.call (.library "proc") [.library "any_",.library "any_"] none [] none
  let f ← (Expr.function "f" [.required "x"] [] (.variable "x") none).eval Machine.full []
  let c ← (Expr.classDef "C" [("__slots__",.sequence .list [.str "a"]),
    ("m",.function "m" [.required "self",.required "x"] [] (.variable "x") none)] []).eval Machine.full []
  let o ← (Expr.new (.variable "C") [(.str "a",.variable "f")]).eval Machine.full [("C",c),("f",f)]
  let signatures ← (Expr.table .dict [(.str "a",any),(.str "m",any)]).eval Machine.full []
  return (signatures,o)

/-- The function in the storage place is wrapped before the method cannot be written to the instance. -/
theorem failed_attach_slotted : ∃ signatures o s e t, slotted Store.initial = .ok (signatures,o) s ∧
    attach Machine.full signatures o s = .error e t ∧ t.slots o ≠ s.slots o := by
  have h : (match slotted Store.initial with
      | .ok (signatures,o) s => match attach Machine.full signatures o s with
        | .error _ t => decide (t.slots o ≠ s.slots o)
        | .ok _ _ => false
      | .error _ _ => false) = true := by decide +kernel
  split at h
  · rename_i signatures o s hs
    split at h
    · rename_i e t ht
      exact ⟨signatures,o,s,e,t,hs,ht,of_decide_eq_true h⟩
    · cases h
  · cases h

end Signature
end CallContracts
