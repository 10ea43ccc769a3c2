import CallContracts.Proofs.Curried
/-! Building signatures.  Contracts that stand for themselves and describe themselves by texts, whatever
the program does, are built into signatures that do so as well; nested ones make a curried signature. -/
namespace CallContracts
open Act

/-- A contract that is taken for itself and described by the same text, while the library is left alone. -/
structure Contract.Stands (s : Store) (m : Machine) (c : Contract) (x : String) : Prop where
  checked : Always (s.Keeps .library ·) (checked m c.value) c
  described : Always (s.Keeps .library ·) (c.describe m) (.str x)
  told : Always (s.Keeps .library ·) (m.read c.value "description") (.str x)
  blamed : Always (s.Keeps .library ·) (Signature.descriptionOf m c.value) (.str x)

/-- A contract of the library, which knows its own place. -/
structure Store.IsContract (s : Store) (c : Contract) : Prop where
  cls : s.classOf c.value = .builtin .contract ∨ s.classOf c.value = .builtin .signature
  held : s.contract? c.value = some c

namespace Store.IsContract
variable {s t : Store} {c : Contract} {x : String} {M : Machine}

theorem holds (h : s.IsContract c) : s.Holds .library c.value := by
  obtain ⟨test,p,hb⟩ := body_of_contract? h.held
  rcases h.cls with hc | hc
  · exact holds_of_class hb hc fun _ => by simp [Frame.library]
  · exact holds_of_class hb hc fun _ => by simp [Frame.library]

theorem library (h : s.IsContract c) (ht : s.Keeps .library t) : t.IsContract c :=
  ⟨by rw [ht.classOf h.holds]; exact h.cls,by rw [ht.contract? h.holds,h.held]⟩

theorem read_description (h : s.IsContract c) :
    M.next.read c.value "description" s = .ok c.description s := by
  obtain ⟨test,p,hb⟩ := body_of_contract? h.held
  obtain ⟨r,hr⟩ := ref_of_body hb
  have hc := h.cls
  have hk := h.held
  rw [hr] at hb hc hk ⊢
  have hn : s.class? (.ref r) = none := class?_of_body hb (by simp)
  have hs : s.slot? (.ref r) "_description" = some c.description := by
    cases ho : s.get? r with
    | none => simp [body?,obj?,ho] at hb
    | some o =>
      obtain ⟨k,body,attrs,slots,table⟩ := o
      have hbody : body = .contract c test p := by simpa [body?,obj?,ho] using hb
      subst hbody
      simp [slot?,obj?,ho]
  rcases hc with hc | hc
  · rw [read_next_builtin hc hn (by decide),readOfInstance_property hc (c := .contract) rfl]
    simp [computed,slotShown,hk,hs]
  · rw [read_next_builtin hc hn (by decide),readOfInstance_property hc (c := .contract) rfl]
    simp [computed,slotShown,hk,hs]

theorem stands (h : s.IsContract c) (hx : c.description = .str x) : c.Stands s M.next x := by
  have held {t : Store} (ht : s.Keeps .library t) : t.contract? c.value = some c := (h.library ht).held
  refine ⟨fun t ht => gives_of_eq ?_,fun t ht => gives_of_eq ?_,fun t ht => gives_of_eq ?_,
    fun t ht => gives_of_eq ?_⟩
  · simp [Contract.checked,held ht]
  · simp [Contract.describe,held ht,hx]
  · rw [(h.library ht).read_description,hx]
  · simp [Signature.descriptionOf,held ht,hx]

end Store.IsContract

/-- A contract of the library whose description is a text. -/
structure Store.Worded (s : Store) (c : Contract) : Prop where
  held : s.IsContract c
  text : ∃ x, c.description = .str x

theorem Store.Worded.keep {s t : Store} {c : Contract} (h : s.Worded c) (ht : s.Keeps .library t) : t.Worded c :=
  ⟨h.held.library ht,h.text⟩

theorem Store.Worded.stands {s : Store} {c : Contract} {M : Machine} (h : s.Worded c) :
    ∃ x, c.Stands s M.next x := by
  obtain ⟨x,hx⟩ := h.text
  exact ⟨x,h.held.stands hx⟩

/-- A signature as it was built out of its parameters and its result. -/
structure Store.Built (s : Store) (m : Machine) (v : Value) (cs : List Contract) (r : Value) : Prop where
  parts : ∃ p, s.IsSignature v cs p ∧ p.ret = r ∧
    ∃ i : Contract, ∃ x, p.input = i.value ∧ i.Stands s m x
  contract : ∃ c : Contract, ∃ x, v = c.value ∧ c.Stands s m x

/-- The same, whatever machine looks at it: the input is a parameter or a contract that was made for them all. -/
structure Store.Assembled (s : Store) (v : Value) (cs : List Contract) (r : Value) : Prop where
  parts : ∃ p, s.IsSignature v cs p ∧ p.ret = r ∧ ∃ i : Contract, p.input = i.value ∧ (i ∈ cs ∨ s.Worded i)
  contract : ∃ c : Contract, v = c.value ∧ s.Worded c

theorem Store.Assembled.built {s : Store} {v r : Value} {cs : List Contract} {M : Machine}
    (h : s.Assembled v cs r) (hcs : ∀ c ∈ cs, ∃ x, c.Stands s M.next x) : s.Built M.next v cs r := by
  obtain ⟨p,hsig,hr,i,hi,hinput⟩ := h.parts
  obtain ⟨c,hc,hworded⟩ := h.contract
  have hx : ∃ x, i.Stands s M.next x := by
    rcases hinput with hmem | hnew
    · exact hcs i hmem
    · exact hnew.stands
  obtain ⟨x,hx⟩ := hx
  obtain ⟨y,hy⟩ := hworded.stands (M := M)
  exact ⟨⟨p,hsig,hr,i,x,hi,hx⟩,c,y,hc,hy⟩

namespace Contract
variable {M m : Machine} {s t : Store} {cs : List Contract} {c r : Contract} {x : String}

theorem Stands.keep (h : c.Stands s m x) (ht : s.Keeps .library t) : c.Stands t m x :=
  ⟨fun u hu => h.checked u (ht.trans hu),fun u hu => h.described u (ht.trans hu),
    fun u hu => h.told u (ht.trans hu),fun u hu => h.blamed u (ht.trans hu)⟩

theorem Stands.grows (h : c.Stands s m x) (ht : s.Grows t) : c.Stands t m x := h.keep (Store.Keeps.of_grows ht)

theorem Stands.describable (h : c.Stands s m x) : Describable (s.Keeps .library ·) m c :=
  ⟨h.checked,.str x,x,h.described,fun _ _ => rfl⟩

theorem Stands.spoken (h : c.Stands s m x) :
    Signature.Described (s.Keeps .library ·) m c.value (.str x) :=
  ⟨h.blamed,fun t _ => ⟨x,gives_of_eq (formatted_str m x t)⟩⟩

/-- The input of a signature: its only contract, or the positional contract of them all. -/
theorem quiet_collapse (hcs : ∀ c ∈ cs, ∃ x, c.Stands s M.next x) :
    (collapse M.next (cs.map value)).Quiet
      (fun v t => ∃ c : Contract, v = c.value ∧ (c ∈ cs ∨ t.Worded c)) s := by
  have hd : ∀ c ∈ cs, Describable (s.Keeps .library ·) M.next c := fun c hc => by
    obtain ⟨x,hx⟩ := hcs c hc
    exact hx.describable
  refine Gives.bindQuiet (gives_allChecked (fun t ht => Store.Keeps.of_grows ht) hd) fun t ht => ?_
  have product : (productOf M.next cs).Quiet
      (fun v t => ∃ c : Contract, v = c.value ∧ (c ∈ cs ∨ t.Worded c)) t := by
    obtain ⟨x,hx⟩ := calm_joined (s := t) (fun u hu => Store.Keeps.of_grows (ht.trans hu)) hd ") x ("
    refine Gives.bindQuiet hx fun u hu => (quiet_build _ _ u).imp ?_
    rintro v w hw ⟨q,rfl,-,hc,hk⟩
    exact ⟨.mk q (.str x) (.product cs),rfl,Or.inr ⟨⟨Or.inl hc,hk⟩,x,rfl⟩⟩
  rcases cs with _ | ⟨c,_ | ⟨d,cs⟩⟩
  · exact product
  · exact quiet_pure ⟨c,rfl,Or.inl (by simp)⟩
  · exact product

/-- A signature made of these parameters, input and result. -/
theorem quiet_makeSignature {i : Contract} {params : Value} {y : String}
    (hparams : (iterate M.next params).Gives (cs.map value) s) (hi : i.Stands s M.next x)
    (hr : r.Stands s M.next y) :
    (makeSignature M.next params i.value r.value).Quiet (fun v t =>
      (∃ p, t.IsSignature v cs p ∧ p.ret = r.value ∧ p.input = i.value) ∧
        ∃ c : Contract, v = c.value ∧ t.Worded c) s := by
  rw [makeSignature]
  refine hparams.bindQuiet fun s hs => ?_
  replace hi := hi.grows hs
  replace hr := hr.grows hs
  obtain ⟨q,u,hu,hg,hq⟩ := quiet_newTuple (cs.map value) s
  obtain ⟨w,hw,hg'⟩ := hi.told u (Store.Keeps.of_grows hg)
  obtain ⟨z,hz,hg''⟩ := hr.told w (Store.Keeps.of_grows (hg.trans hg'))
  let c := Contract.mk z.heap.size (.str (x ++ " -> " ++ y)) .function
  let o : Obj :=
    { cls := .builtin .signature
      body := .contract c (.operation .functionTest) (some ⟨q,i.value,r.value⟩) }
  obtain ⟨_,a,ha,hga,rfl,ho⟩ := quiet_alloc o z
  have hcls : a.classOf (.ref z.heap.size) = .builtin .signature := by rw [Store.classOf_of_get? ho]
  have hbody := Store.body?_of_get? ho
  have hc : a.IsContract c := ⟨Or.inr hcls,Store.contract?_of_body hbody⟩
  have hgrown := ((hg.trans hg').trans hg'').trans hga
  refine ⟨_,a,?_,hgrown,⟨⟨q,i.value,r.value⟩,⟨hcls,⟨_,_,hbody⟩,?_⟩,rfl,rfl⟩,c,rfl,hc,_,rfl⟩
  swap
  · exact ((hq.grows hg').grows hg'').grows hga
  rw [bind_ok hu,bind_ok hw,bind_ok (formatted_str _ x w),bind_ok hz]
  exact (bind_ok (formatted_str _ y z)).trans ha

/-- A signature is built around whatever input the parameters collapse to. -/
theorem quiet_assembleAround {y : String} {P : Store → Contract → Prop} (hcs : ∀ c ∈ cs, ∃ x, c.Stands s M.next x)
    (hr : r.Stands s M.next y)
    (hinput : ∀ t, s.Grows t → (collapse M.next (cs.map value)).Quiet (fun v u => ∃ i : Contract, v = i.value ∧ P u i) t)
    (hstands : ∀ t i, s.Grows t → P t i → ∃ x, i.Stands t M.next x) (hkeep : ∀ t u i, t.Grows u → P t i → P u i) :
    (proc M.next (cs.map value ++ [r.value])).Quiet (fun v t =>
      (∃ p, t.IsSignature v cs p ∧ p.ret = r.value ∧ ∃ i : Contract, p.input = i.value ∧ P t i) ∧
        ∃ c : Contract, v = c.value ∧ t.Worded c) s := by
  have hall : ∀ c ∈ cs ++ [r], Describable (s.Keeps .library ·) M.next c := by
    intro c hc
    rcases List.mem_append.mp hc with hc | hc
    · obtain ⟨x,hx⟩ := hcs c hc
      exact hx.describable
    · obtain rfl : c = r := by simpa using hc
      exact hr.describable
  have hne : cs.map value ++ [r.value] ≠ [] := by simp
  have hmap : cs.map value ++ [r.value] = (cs ++ [r]).map value := by simp
  have hlast : ((cs ++ [r]).map value).getLastD .absent = r.value := by simp
  rw [proc,if_neg hne,hmap,hlast]
  refine Gives.bindQuiet (gives_allChecked (fun t ht => Store.Keeps.of_grows ht) hall) fun t ht => ?_
  rw [List.dropLast_concat]
  refine Quiet.bind (hinput t ht) ?_
  rintro _ u hu ⟨i,rfl,hi⟩
  obtain ⟨x,hx⟩ := hstands u i (ht.trans hu) hi
  refine Quiet.bind (quiet_newTuple _ u) fun q w hw hq => ?_
  refine (quiet_makeSignature (gives_of_eq (iterate_tuple hq)) (hx.grows hw) (((hr.grows ht).grows hu).grows hw)).imp ?_
  rintro v z hz ⟨⟨p,hsig,hret,hp⟩,hc⟩
  exact ⟨⟨p,hsig,hret,i,hp,hkeep u z i (hw.trans hz) hi⟩,hc⟩

/-- What is built out of contracts is a signature of them. -/
theorem quiet_assemble {y : String} (hcs : ∀ c ∈ cs, ∃ x, c.Stands s M.next x) (hr : r.Stands s M.next y) :
    (proc M.next (cs.map value ++ [r.value])).Quiet (fun v t => t.Assembled v cs r.value) s := by
  have grown {t : Store} (ht : s.Grows t) : ∀ c ∈ cs, ∃ x, c.Stands t M.next x := fun c hc => by
    obtain ⟨x,hx⟩ := hcs c hc
    exact ⟨x,hx.grows ht⟩
  refine (quiet_assembleAround (P := fun t i => i ∈ cs ∨ t.Worded i) hcs hr (fun t ht => quiet_collapse (grown ht))
    (fun t i ht hi => hi.elim (grown ht i) (·.stands)) fun t u i hu hi => hi.imp_right (·.keep (Store.Keeps.of_grows hu))).imp ?_
  exact fun v t _ h => ⟨h.1,h.2⟩

theorem quiet_proc {y : String} (hcs : ∀ c ∈ cs, ∃ x, c.Stands s M.next x) (hr : r.Stands s M.next y) :
    (proc M.next (cs.map value ++ [r.value])).Quiet (fun v t => t.Built M.next v cs r.value) s := by
  refine (quiet_assemble hcs hr).imp fun v t ht hv => hv.built fun c hc => ?_
  obtain ⟨x,hx⟩ := hcs c hc
  exact ⟨x,hx.grows ht⟩

end Contract
end CallContracts
