import CallContracts.Proofs.Build
/-! New contracts.  Given contracts of the library that are described by texts, each builder makes a contract of its
rule about them, and describes it by a text again; nothing that was there changes. -/
namespace CallContracts
open Act

namespace Act
variable {α β : Type} {f : α → Act β} {Q : β → Store → Prop}

/-- What is so whenever a computation ends well, wherever it started. -/
def Ends (x : Act β) (Q : β → Store → Prop) : Prop := ∀ s b t, x s = .ok b t → Q b t

/-- The last part of a computation decides. -/
theorem Ends.bind {x : Act α} (h : ∀ a, (f a).Ends Q) : (x >>= f).Ends Q := by
  intro s b t hb
  obtain ⟨a,u,-,hf⟩ := bind_eq_ok.mp hb
  exact h a u b t hf

theorem Ends.andThen {x : Act α} {P : α → Store → Prop} (hx : x.Ends P) (h : ∀ a u, P a u → (f a).Ends Q) :
    (x >>= f).Ends Q := by
  intro s b t hb
  rw [bind_eq_ok] at hb
  obtain ⟨a,u,ha,hb⟩ := hb
  exact h a u (hx s a u ha) u b t hb

theorem Ends.imp {x : Act β} {P : β → Store → Prop} (hx : x.Ends P) (h : ∀ b t, P b t → Q b t) : x.Ends Q :=
  fun s b t hb => h b t (hx s b t hb)

theorem ends_pure {b : β} (h : ∀ t, Q b t) : (pure b : Act β).Ends Q := by
  rintro s _ t ⟨⟩
  exact h s

/-- An object that knows its own place. -/
theorem ends_alloc {o : Store → Obj} : Ends (fun s => alloc (o s) s)
    fun x t => ∃ s : Store, x = .ref s.heap.size ∧ t.get? s.heap.size = some (o s) := by
  rintro s _ _ ⟨⟩
  exact ⟨s,rfl,Store.get?_alloc_self s (o s)⟩

/-- A quiet computation that is seen to end well ended quietly. -/
theorem Quiet.seen {x : Act β} {s t : Store} {b : β} (hx : x.Quiet Q s) (h : x s = .ok b t) : s.Grows t ∧ Q b t := by
  obtain ⟨a,u,hu,hg,hQ⟩ := hx
  obtain ⟨rfl,rfl⟩ : a = b ∧ u = t := by simpa [hu] using h
  exact ⟨hg,hQ⟩

end Act

/-- A contract of the library of its own class, with a rule and described by a text. -/
structure Store.Made (s : Store) (c : Contract) (t : Rule) : Prop where
  cls : s.classOf c.value = .builtin .contract
  held : s.contract? c.value = some c
  text : ∃ x, c.description = .str x
  rule : c.rule = t

theorem Store.Made.worded {s : Store} {c : Contract} {t : Rule} (h : s.Made c t) : s.Worded c :=
  ⟨⟨Or.inl h.cls,h.held⟩,h.text⟩

theorem Store.Made.keep {s t : Store} {c : Contract} {r : Rule} (h : s.Made c r) (ht : s.Keeps .library t) :
    t.Made c r :=
  ⟨by rw [ht.classOf h.worded.held.holds,h.cls],(h.worded.keep ht).held.held,h.text,h.rule⟩

namespace Contract
variable {m : Machine} {s t : Store} {c : Contract} {cs : List Contract} {x y : Value}

theorem describable_of_worded (h : s.Worded c) (m : Machine) : Describable (s.Keeps .library ·) m c := by
  obtain ⟨x,hx⟩ := h.text
  have held {t : Store} (ht : s.Keeps .library t) : t.contract? c.value = some c := (h.held.library ht).held
  exact ⟨fun t ht => gives_of_eq (by simp [checked,held ht]),.str x,x,
    fun t ht => gives_of_eq (by simp [describe,held ht,hx]),fun _ _ => rfl⟩

theorem gives_checked (h : s.Worded c) : (checked m c.value).Gives c s :=
  gives_of_eq (by simp [checked,h.held.held])

theorem gives_inserted (h : s.Worded c) : ∃ x, (c.inserted m).Gives x s := by
  obtain ⟨x,hx⟩ := h.text
  refine ⟨x,Gives.bind (a := .str x) (gives_of_eq ?_) fun t _ => gives_of_eq (formatted_str m x t)⟩
  simp [describe,h.held.held,hx]

theorem quiet_made (d : String) (t : Rule) :
    (build (.str d) t).Quiet (fun x u => ∃ c : Contract, x = c.value ∧ u.Made c t) s := by
  refine (quiet_build (.str d) t s).imp ?_
  rintro x u - ⟨r,rfl,-,hc,hk⟩
  exact ⟨.mk r (.str d) t,rfl,hc,hk,⟨d,rfl⟩,rfl⟩

theorem isArray_contract (h : s.IsContract c) : isArray m c.value s = .ok false s := by
  have hkind (b : BuiltinClass) (hb : b = .list ∨ b = .tuple) : isKind m c.value b s = .ok false s := by
    rcases h.cls with hc | hc
    · exact isKind_builtin hc (by rcases hb with rfl | rfl <;> decide)
    · exact isKind_builtin hc (by rcases hb with rfl | rfl <;> decide)
  rw [isArray,bind_ok (hkind .list (Or.inl rfl))]
  exact hkind .tuple (Or.inr rfl)

section list
variable (h : ∀ c ∈ cs, s.Worded c)
include h

theorem gives_allWorded : (allChecked m (cs.map value)).Gives cs s :=
  gives_allChecked (fun _ ht => Store.Keeps.of_grows ht) fun c hc => describable_of_worded (h c hc) m

theorem worded_grows (ht : s.Grows t) : ∀ c ∈ cs, t.Worded c := fun c hc => (h c hc).keep (Store.Keeps.of_grows ht)

/-- Contracts whose texts are put together for a rule of them all. -/
theorem made_joined (word : String) (rule : Rule) :
    (joined m cs word >>= fun d => build d rule).Quiet (fun x u => ∃ c : Contract, x = c.value ∧ u.Made c rule) s := by
  obtain ⟨x,hx⟩ := calm_joined (s := s) (fun u hu => Store.Keeps.of_grows hu)
    (fun c hc => describable_of_worded (h c hc) m) word
  exact Gives.bindQuiet hx fun u _ => quiet_made x rule

theorem made_productOf :
    (productOf m cs).Quiet (fun x u => ∃ c : Contract, x = c.value ∧ u.Made c (.product cs)) s :=
  made_joined h ") x (" (.product cs)

theorem made_all :
    (all m (cs.map value)).Quiet (fun x u => ∃ c : Contract, x = c.value ∧ u.Made c (.all cs)) s :=
  Gives.bindQuiet (gives_allWorded h) fun _ ht => made_joined (worded_grows h ht) ") & (" (.all cs)

theorem made_any :
    (any m (cs.map value)).Quiet (fun x u => ∃ c : Contract, x = c.value ∧ u.Made c (.any cs)) s :=
  Gives.bindQuiet (gives_allWorded h) fun _ ht => made_joined (worded_grows h ht) ") | (" (.any cs)

theorem made_product (hy : (iterate m y).Gives (cs.map value) s) :
    (product m y).Quiet (fun x u => ∃ c : Contract, x = c.value ∧ u.Made c (.product cs)) s := by
  refine Gives.bindQuiet hy fun t ht => ?_
  have ht' := worded_grows h ht
  exact Gives.bindQuiet (gives_allWorded ht') fun u hu => made_productOf (worded_grows ht' hu)

/-- One contract in a row stands for itself. -/
theorem made_collapse : (collapse m (cs.map value)).Quiet
    (fun x u => ∃ c : Contract, x = c.value ∧ (cs = [c] ∧ u.Worded c ∨ cs.length ≠ 1 ∧ u.Made c (.product cs))) s := by
  refine Gives.bindQuiet (gives_allWorded h) fun t ht => ?_
  have ht' := worded_grows h ht
  rcases cs with _ | ⟨c,_ | ⟨d,cs⟩⟩
  · refine (made_productOf ht').imp ?_
    rintro x u - ⟨c,rfl,hc⟩
    exact ⟨c,rfl,Or.inr ⟨by simp,hc⟩⟩
  · exact quiet_pure ⟨c,rfl,Or.inl ⟨rfl,ht' c (by simp)⟩⟩
  · refine (made_productOf ht').imp ?_
    rintro x u - ⟨c,rfl,hc⟩
    exact ⟨c,rfl,Or.inr ⟨by simp,hc⟩⟩

theorem seq_of_worded : seq m (cs.map value) s = collapse m (cs.map value) s := by
  rcases cs with _ | ⟨c,_ | ⟨d,cs⟩⟩
  · rfl
  · simp only [List.map_cons,List.map_nil,seq]
    rw [bind_ok (isArray_contract (h c (by simp)).held)]
    rfl
  · rfl

theorem made_seq : (seq m (cs.map value)).Quiet
    (fun x u => ∃ c : Contract, x = c.value ∧ (cs = [c] ∧ u.Worded c ∨ cs.length ≠ 1 ∧ u.Made c (.product cs))) s := by
  obtain ⟨x,u,hu,hg,hx⟩ := made_collapse (m := m) h
  exact ⟨x,u,(seq_of_worded h).trans hu,hg,hx⟩

/-- The contracts of an array in place of contracts in a row. -/
theorem made_seqOf (ha : (isArray m y).Gives true s) (hy : Always (s.Grows ·) (iterate m y) (cs.map value)) :
    (seq m [y]).Quiet
      (fun x u => ∃ c : Contract, x = c.value ∧
        (cs = [c] ∧ u.Worded c ∨ cs.length ≠ 1 ∧ u.Made c (.product cs))) s := by
  refine Gives.bindQuiet ha fun t ht => ?_
  simp only [if_true]
  exact Gives.bindQuiet (hy t ht) fun u hu => made_collapse (worded_grows h (ht.trans hu))

end list

section one
variable (h : s.Worded c)
include h

theorem made_negate : (negate m c.value).Quiet (fun x u => ∃ d : Contract, x = d.value ∧ u.Made d (.not c)) s := by
  refine Gives.bindQuiet (gives_checked h) fun t ht => ?_
  obtain ⟨x,hx⟩ := gives_inserted (m := m) (h.keep (Store.Keeps.of_grows ht))
  exact Gives.bindQuiet hx fun u _ => quiet_made _ _

theorem made_maybe : (maybe m c.value).Quiet (fun x u => ∃ d : Contract, x = d.value ∧ u.Made d (.maybe c)) s := by
  refine Gives.bindQuiet (gives_checked h) fun t ht => ?_
  obtain ⟨x,hx⟩ := gives_inserted (m := m) (h.keep (Store.Keeps.of_grows ht))
  exact Gives.bindQuiet hx fun u _ => quiet_made _ _

theorem made_array (hy : (if y = .absent then .ref anyRef else y) = c.value) :
    (array m y).Quiet (fun x u => ∃ d : Contract, x = d.value ∧
      u.Made d (if c.id = anyRef then .arrayOfAny else .arrayOf c)) s := by
  rw [array,hy]
  refine Gives.bindQuiet (gives_checked h) fun t ht => ?_
  obtain ⟨x,hx⟩ := gives_inserted (m := m) (h.keep (Store.Keeps.of_grows ht))
  exact Gives.bindQuiet hx fun u _ => quiet_made _ _

end one

/-- The text of a shape is a text. -/
theorem describeRecord_text (y : Value) : (describeRecord m y).Ends fun v _ => ∃ x, v = .str x := by
  refine Ends.bind fun b => ?_
  split
  · exact ends_pure fun _ => ⟨_,rfl⟩
  · exact Ends.bind fun _ => Ends.bind fun _ => Ends.bind fun _ => ends_pure fun _ => ⟨_,rfl⟩

/-- What a shape says in words may run anything. -/
theorem made_record {shape : List (Value × Contract)} (h : ∀ e ∈ shape, s.Worded e.2)
    (hentries : (entriesOf m y).Gives (shape.map fun e => (e.1,e.2.value)) s) (hx : record m y s = .ok x t) :
    ∃ c : Contract, x = c.value ∧ t.Made c (.record shape) := by
  obtain ⟨u,hu,hg⟩ := hentries
  rw [record,bind_ok hu] at hx
  obtain ⟨copy,w,hw,hg',-⟩ :=
    quiet_alloc { cls := .builtin .dict, body := .table (shape.map fun e => (e.1,e.2.value)) } u
  rw [newTable,bind_ok hw] at hx
  have hcs : ∀ c ∈ shape.map Prod.snd, w.Worded c := by
    intro c hc
    obtain ⟨e,he,rfl⟩ := List.mem_map.mp hc
    exact (h e he).keep (Store.Keeps.of_grows (hg.trans hg'))
  obtain ⟨z,hz,-⟩ := gives_allWorded (m := m) hcs
  have hvalues : (shape.map fun e => (e.1,e.2.value)).map Prod.snd = (shape.map Prod.snd).map value := by simp
  rw [hvalues,bind_ok hz] at hx
  obtain ⟨d,a,hd,hx⟩ := bind_eq_ok.mp hx
  obtain ⟨d,rfl⟩ := describeRecord_text copy z d a hd
  have hzip : (shape.map fun e => (e.1,e.2.value)).zipWith (fun e c => (e.1,c)) (shape.map Prod.snd) = shape := by
    simp [List.zipWith_map]
  rw [hzip] at hx
  exact ((quiet_made d (.record shape)).seen hx).2

theorem made_instance (k : Value) :
    (ofInstances m k).Ends fun x t => ∃ c : Contract, x = c.value ∧ t.Made c (.instanceOf k) :=
  Ends.bind fun _ => Ends.bind fun _ _ _ _ hx => ((quiet_made _ _).seen hx).2

/-- Whatever it says about calls, a signature has the rule of functions. -/
theorem worded_makeSignature (params input ret : Value) : (makeSignature m params input ret).Ends
    fun x t => ∃ c : Contract, x = c.value ∧ t.Worded c ∧ c.rule = .function := by
  refine Ends.bind fun _ => Ends.bind fun _ => Ends.bind fun _ => Ends.bind fun _ => Ends.bind fun _ =>
    Ends.bind fun _ => ends_alloc.imp ?_
  rintro x t ⟨z,rfl,ho⟩
  have hk := Store.contract?_of_body (Store.body?_of_get? ho)
  exact ⟨.mk z.heap.size _ .function,rfl,⟨⟨Or.inr (Store.classOf_of_get? ho),hk⟩,_,rfl⟩,rfl⟩

theorem worded_proc (types : List Value) :
    (proc m types).Ends fun x t => ∃ c : Contract, x = c.value ∧ t.Worded c ∧ c.rule = .function := by
  rw [proc]
  split
  · exact Ends.bind fun _ => Ends.bind fun _ => Ends.bind fun _ => Ends.bind fun _ => worded_makeSignature _ _ _
  · exact Ends.bind fun _ => Ends.bind fun _ => Ends.bind fun _ => worded_makeSignature _ _ _

end Contract
end CallContracts
