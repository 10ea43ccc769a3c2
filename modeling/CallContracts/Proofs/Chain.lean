import CallContracts.Proofs.Build
/-! Chains of calls through nested signatures.  What nested signatures are built out of is what the layers
check, one after the other. -/
namespace CallContracts
open Act

namespace Signature
variable {W : Store → Prop} {M m : Machine} {s t u : Store} {v w f i : Value} {r c : Contract}
  {x name suffix : String} {cs : List Contract} {rest layers : List (List Contract)}
  {as : List (List Value)}

/-- Nested signatures, each of which returns the next; the last one returns what `r` matches. -/
def procs (m : Machine) (r : Value) : List (List Value) → Act Value
  | [] => pure r
  | vs :: rest => do Contract.proc m (vs ++ [← procs m r rest])

theorem Layer.mono {W' : Store → Prop} {p : Parts} (h : Layer W M v cs p) (hW : ∀ t, W' t → W t) :
    Layer W' M v cs p := by
  obtain ⟨d,hd⟩ := h.input
  exact ⟨fun t ht => h.signature t (hW t ht),fun c hc => (h.parts c hc).mono hW,d,
    fun t ht => hd.description t (hW t ht),fun t ht => hd.written t (hW t ht)⟩

theorem Curried.mono {W' : Store → Prop} {r : Value} (h : Curried W M r v layers)
    (hW : ∀ t, W' t → W t) : Curried W' M r v layers := by
  have described {v : Value} (hv : ∃ d, Described W M.next v d) : ∃ d, Described W' M.next v d := by
    obtain ⟨d,hd⟩ := hv
    exact ⟨d,fun t ht => hd.description t (hW t ht),fun t ht => hd.written t (hW t ht)⟩
  induction layers generalizing v with
  | nil => exact ⟨h.1,fun t ht => h.2.1 t (hW t ht),described h.2.2⟩
  | cons cs rest ih =>
    obtain ⟨p,hl,hd,hrest⟩ := h
    exact ⟨p,hl.mono hW,described hd,ih hrest⟩

/-- A signature that was built out of a curried one has one layer more. -/
theorem curried_of_built (hcs : ∀ c ∈ cs, ∃ x, c.Stands s M.next x) (h : s.Built M.next v cs w)
    {r : Value} (hrest : Curried (s.Keeps .library ·) M r w rest) :
    Curried (s.Keeps .library ·) M r v (cs :: rest) := by
  obtain ⟨p,hsig,rfl,i,x,hi,hx⟩ := h.parts
  obtain ⟨c,y,rfl,hc⟩ := h.contract
  refine ⟨p,⟨fun t ht => isSignature_library hsig ht,fun c hc => ?_,.str x,hi ▸ hx.spoken⟩,⟨.str y,hc.spoken⟩,hrest⟩
  obtain ⟨x,hx⟩ := hcs c hc
  exact hx.describable

/-- Nested signatures are curried. -/
theorem quiet_procs (hlayers : ∀ cs ∈ layers, ∀ c ∈ cs, ∃ x, c.Stands s M.next x)
    (hr : r.Stands s M.next x) (hplain : Always (s.Keeps .library ·) (isSignature M.next r.value) false) :
    (procs M.next r.value (layers.map fun cs => cs.map Contract.value)).Quiet (fun v t =>
      Curried (t.Keeps .library ·) M r.value v layers ∧ ∃ c : Contract, ∃ y, v = c.value ∧ c.Stands t M.next y) s := by
  induction layers with
  | nil => exact quiet_pure ⟨⟨rfl,hplain,.str x,hr.spoken⟩,r,x,rfl,hr⟩
  | cons cs rest ih =>
    refine Quiet.bind (ih fun ds hds => hlayers ds (by simp [hds])) ?_
    rintro _ t ht ⟨hrest,c,y,rfl,hc⟩
    have hcs : ∀ c ∈ cs, ∃ x, c.Stands t M.next x := fun c hc => by
      obtain ⟨x,hx⟩ := hlayers cs (by simp) c hc
      exact ⟨x,hx.grows ht⟩
    refine (Contract.quiet_proc hcs hc).imp fun v u hu hv => ?_
    have later (z : Store) (hz : u.Keeps .library z) : t.Keeps .library z := (Store.Keeps.of_grows hu).trans hz
    refine ⟨curried_of_built (fun c hc => ?_) hv (hrest.mono later),hv.contract⟩
    obtain ⟨x,hx⟩ := hcs c hc
    exact ⟨x,hx.grows hu⟩

/-- Signing a function wraps it with the check of the signature under its own name. -/
theorem quiet_sign {sig : Value} {p : Parts} (hf : Wrapper.Tells (s.Grows ·) M.next f)
    (hshown : (shown M.next f).Calm s)
    (hname : Always (s.Grows ·) (M.next.read f "__name__") (.str name))
    (hl : Layer (s.Grows ·) M sig cs p) :
    (sign M.next sig f).Quiet (fun w t =>
      ∃ i, t.Wraps .wrapper w f i ∧ t.Checks i sig (.str name) cs) s := by
  refine Quiet.bind hshown.quiet fun text t ht _ => ?_
  refine Gives.bindQuiet (gives_optional (hname t ht)) fun u hu => ?_
  have hsu := ht.trans hu
  refine Quiet.bind (quiet_check (fun z hz => hsu.trans hz) (hl.signature u hsu) hl.parts) ?_
  rintro i z hz ⟨hi,-⟩
  refine (Wrapper.quiet_make (fun y hy => (hsu.trans hz).trans hy) hf (Or.inl rfl)).imp ?_
  rintro w y hy ⟨hw,-⟩
  exact ⟨i,hw,hi.grows hy⟩

/-- A function of one argument that returns a function of one argument, which returns the first. -/
def nested : Store :=
  let f : Obj :=
    { cls := .builtin .function
      attrs := some []
      body := .function ⟨"f","f",.str "m",.absent,.closure ⟨"f",[(.required "x",none)],
        .function "g" [.required "y"] [] (.variable "x") none,[]⟩⟩ }
  { Store.initial with heap := Store.initial.heap.push f }

/-- Any single argument fits. -/
theorem takes_anything {m : Machine} (v : Value) (ht : t.contract? (.ref anyRef) = some Contract.anything) :
    Takes m [Contract.anything] [v] true t := by
  intro a ha
  have hany : Contract.anything.outcome m v t = .ok .matched t :=
    Contract.outcome_of_holds (b := true) (by rw [ht]; rfl) (by simp [Rule.holds])
  have hlen : [v].length = [Contract.anything].length := rfl
  refine gives_of_eq ?_
  rw [holds_tuple ha,if_pos hlen,eachPasses_cons,bind_ok hany]
  rfl

theorem nested_behaves (M : Machine) (hs : nested.Keeps .library s)
    (hf : s.IsFunction (.ref 33) ⟨"f","f",.str "m",.absent,.closure ⟨"f",[(.required "x",none)],
      .function "g" [.required "y"] [] (.variable "x") none,[]⟩⟩) :
    Behaves M (.ref anyRef) [[Contract.anything],[Contract.anything]] (.ref 33) [[.int 1],[.int 2]] s := by
  have hany : nested.IsContract Contract.anything := ⟨Or.inl rfl,rfl⟩
  have any {t : Store} (ht : s.Grows t) : t.contract? (.ref anyRef) = some Contract.anything :=
    (hany.library (hs.trans (Store.Keeps.of_grows ht))).held
  refine ⟨true,fun t ht => takes_anything _ (any ht),nofun,fun _ t ht => ?_⟩
  let o : Obj :=
    { cls := .builtin .function
      attrs := some []
      body := .function ⟨"g","g",.str "m",.absent,.closure
        ⟨"g",[(.required "y",none)],.variable "x",[("x",.int 1)]⟩⟩ }
  obtain ⟨g,u,hu,htu,rfl,ho⟩ := quiet_alloc o t
  have hsu := ht.trans htu
  have hg : u.IsFunction (.ref t.heap.size) _ := ⟨Store.classOf_of_get? ho,Store.body?_of_get? ho⟩
  have hcall : M.next.call (.ref 33) [.int 1] [] t = .ok (.ref t.heap.size) u := by
    rw [call_function (hf.grows ht)]
    exact hu
  refine ⟨_,u,hcall,Store.Keeps.of_grows htu,true,fun z hz => isCallable_function (hg.grows hz),
    nofun,fun _ => ⟨fun z hz => ?_,Wrapper.tells_function fun z hz => hg.grows hz,?_⟩⟩
  · have hk : isKind M.next (.ref t.heap.size) .wrapper z = .ok false z :=
      isKind_builtin (hg.grows hz).cls (by decide)
    exact gives_of_eq (by rw [isSigned,bind_ok hk]; rfl)
  · refine ⟨true,fun z hz => takes_anything _ (any (hsu.trans hz)),nofun,fun _ z hz => ?_⟩
    refine ⟨.int 1,z,?_,Store.Keeps.refl _ z,false,fun y hy => gives_of_eq ?_,nofun⟩
    · rw [call_function (hg.grows hz)]
      rfl
    · have hc := any (hsu.trans (hz.trans hy))
      have ho : Contract.anything.outcome M.next (.int 1) y = .ok .matched y :=
        Contract.outcome_of_holds (b := true) (by rw [hc]; rfl) (by simp [Rule.holds])
      rw [mismatches,get_bind_apply,hc]
      simp only []
      rw [bind_ok ho]
      rfl

/-- A function shows its path. -/
theorem calm_shown {m : Machine} {f : Function} (h : s.IsFunction v f) : (shown m v).Calm s := by
  obtain ⟨r,rfl⟩ := Store.ref_of_body h.body
  cases ho : s.get? r with
  | none => simpa [Store.body?,Store.obj?,ho] using h.body
  | some o =>
    have hcls : o.cls = .builtin .function := by rw [← Store.classOf_of_get? ho,h.cls]
    have hbody : o.body = .function f := by simpa [Store.body?_of_get? ho] using h.body
    have htext : textAs m .quoted (.ref r) s = .ok ("<function ".toList ++ f.path.toList ++ placed r) s := by
      obtain ⟨n,hn⟩ : ∃ n, depthLimit = n + 1 := ⟨_,rfl⟩
      have hm : s.mark? o = none := by simp [Store.mark?,hbody]
      rw [textAs,hn,writeAt]
      simp only [get_bind_apply,ho,hcls,Store.override?_builtin,hm,showBody,hbody]
      rfl
    exact ⟨_,s,map_ok htext,Store.Keeps.refl _ s⟩

end Signature
end CallContracts
