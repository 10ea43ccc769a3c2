import CallContracts.Proofs.Made
import CallContracts.Proofs.Meaning
/-! The sets of built contracts.  A contract keeps its set for as long as the library's objects are left alone, and
each builder makes a contract whose set is put together from the sets of the contracts that it is given. -/
namespace CallContracts
open Act

/-- A contract and its set, for as long as the library's objects are left alone. -/
structure Contract.Denotes (K : Vocabulary) (s : Store) (c : Contract) (D : Meaning) : Prop where
  held : s.IsContract c
  text : ∃ x, c.description = .str x
  decides : ∀ u m P v, s.Keeps .library u → u.Answers m K P → P v → c.rule.Decides m u D v

section denotes
variable {K : Vocabulary} {m : Machine} {s t u : Store} {P : Value → Prop} {c : Contract} {D : Meaning}
  {cs : List Contract} {Ds : List Meaning} {x y : Value} {ps : List (Value × Meaning)}

namespace Contract.Denotes

theorem keep (h : c.Denotes K s D) (ht : s.Keeps .library t) : c.Denotes K t D :=
  ⟨h.held.library ht,h.text,fun u m P v hu => h.decides u m P v (ht.trans hu)⟩

theorem now (h : c.Denotes K s D) (hu : s.Keeps .library u) (ha : u.Answers m K P) : c.Decides m u P D :=
  ⟨h.held.library hu,fun v hv => h.decides u m P v hu ha hv⟩

/-- Equal sets are one. -/
theorem congr {E : Meaning} (h : c.Denotes K s D) (hE : ∀ u v, D u v ↔ E u v) : c.Denotes K s E := by
  refine ⟨h.held,h.text,fun u m P v hu ha hv => ?_⟩
  obtain ⟨b,hb,hD⟩ := h.decides u m P v hu ha hv
  exact ⟨b,hb,hD.trans (hE u v)⟩

theorem worded (h : c.Denotes K s D) : s.Worded c := ⟨h.held,h.text⟩

end Contract.Denotes

theorem now_all (h : List.Forall₂ (Contract.Denotes K s) cs Ds) (hu : s.Keeps .library u) (ha : u.Answers m K P) :
    List.Forall₂ (Contract.Decides m u P) cs Ds := h.imp fun _ _ hc => hc.now hu ha

theorem worded_all (h : List.Forall₂ (Contract.Denotes K s) cs Ds) : ∀ c ∈ cs, s.Worded c := by
  intro c hc
  obtain ⟨D,-,hD⟩ := exists_of_mem_right h.flip hc
  exact hD.worded

/-- A new contract with a rule that decides. -/
theorem Store.Made.denotes {r : Rule} (hc : s.Made c r)
    (h : ∀ u m P v, s.Keeps .library u → u.Answers m K P → P v → r.Decides m u D v) : c.Denotes K s D :=
  ⟨hc.worded.held,hc.text,fun u m P v hu ha hv => hc.rule ▸ h u m P v hu ha hv⟩

theorem quiet_denotes {f : Act Value} {r : Rule}
    (hf : f.Quiet (fun x u => ∃ c : Contract, x = c.value ∧ u.Made c r) s)
    (h : ∀ u m P v, s.Keeps .library u → u.Answers m K P → P v → r.Decides m u D v) :
    f.Quiet (fun x u => ∃ c : Contract, x = c.value ∧ c.Denotes K u D) s := by
  refine hf.imp ?_
  rintro x u hu ⟨c,rfl,hc⟩
  exact ⟨c,rfl,hc.denotes fun w m P v hw => h w m P v ((Store.Keeps.of_grows hu).trans hw)⟩

end denotes

/-- The contracts that are there from the start know their own places. -/
def Store.HasAtoms (s : Store) : Prop := ∀ c ∈ Contract.standard, s.IsContract c

theorem Store.HasAtoms.keep {s t : Store} (h : s.HasAtoms) (ht : s.Keeps .library t) : t.HasAtoms :=
  fun c hc => (h c hc).library ht

namespace Contract

/-- The contracts that a program finds, and their sets. -/
def atoms : List (Contract × Meaning) :=
  [(anything,.anything), (string,.ofKind .string), (number,.ofKind .number), (boolean,.ofKind .boolean),
    (function,.ofKind .function), (undefined,.ofKind .undefined), (date,.ofClass (.builtinClass .date)),
    (regex,.ofClass (.builtinClass .pattern)), (object,.object)]

section builders
variable {K : Vocabulary} {m : Machine} {s t : Store} {c : Contract} {D : Meaning}
  {cs : List Contract} {Ds : List Meaning} {x y : Value} {ps : List (Value × Meaning)}

/-- A builtin class does not decide itself what its instances are. -/
theorem decides_builtin {P : Value → Prop} {v : Value} (b : BuiltinClass) (h : s.Answers m K P) (hv : P v) :
    (Rule.instanceOf (.builtinClass b)).Decides m s (.ofClass (.builtinClass b)) v :=
  Rule.decides_instance (h.native v hv) rfl (Store.override?_builtin ..)

theorem denotes_kind {r : Ref} {k : Kind} (h : s.IsContract (ofKind r k)) : (ofKind r k).Denotes K s (.ofKind k) :=
  ⟨h,⟨_,rfl⟩,fun _ _ _ v _ ha hv => Rule.decides_kind (ha.native v hv) k⟩

theorem denotes_class {r : Ref} {b : BuiltinClass} (h : s.IsContract (ofClass r b)) :
    (ofClass r b).Denotes K s (.ofClass (.builtinClass b)) :=
  ⟨h,⟨_,rfl⟩,fun _ _ _ _ _ ha hv => decides_builtin b ha hv⟩

theorem denotes_object (h : s.HasAtoms) : object.Denotes K s .object := by
  have hkind : objectKind.Denotes K s (.ofKind .object) := denotes_kind (h objectKind (by simp [standard]))
  have harray : anyArray.Denotes K s (.array .anything) := ⟨h anyArray (by simp [standard]),⟨_,rfl⟩,
    fun _ _ _ v _ ha hv => Rule.decides_anyArray (ha.native v hv)⟩
  have hdate : date.Denotes K s (.ofClass (.builtinClass .date)) := denotes_class (h date (by simp [standard]))
  have hnoArray : noArray.Denotes K s (Meaning.array .anything).negate := ⟨h noArray (by simp [standard]),⟨_,rfl⟩,
    fun _ _ _ _ hu ha hv => Rule.decides_not (harray.now hu ha) hv⟩
  have hnoDate : noDate.Denotes K s (Meaning.ofClass (.builtinClass .date)).negate :=
    ⟨h noDate (by simp [standard]),⟨_,rfl⟩,fun _ _ _ _ hu ha hv => Rule.decides_not (hdate.now hu ha) hv⟩
  have hall : List.Forall₂ (Denotes K s) [objectKind,noArray,noDate]
      [.ofKind .object,(Meaning.array .anything).negate,(Meaning.ofClass (.builtinClass .date)).negate] :=
    .cons hkind (.cons hnoArray (.cons hnoDate .nil))
  have hobject : object.Denotes K s (.all _) := ⟨h object (by simp [standard]),⟨_,rfl⟩,
    fun _ _ _ _ hu ha hv => Rule.decides_all (now_all hall hu ha) hv⟩
  refine hobject.congr fun u v => ?_
  have hclass : u.class? (.builtinClass .date) = some (.builtin .date) := rfl
  simp only [Meaning.all,Meaning.ofKind,Meaning.negate,Meaning.array,Meaning.anything,
    Meaning.ofClass,Meaning.object,List.forall_mem_cons,hclass]
  by_cases hv : v = .absent
  · simp [hv,Store.kind]
  · simp [hv,Store.belongs]

theorem denotes_atom (h : s.HasAtoms) (hc : (c,D) ∈ atoms) : c.Denotes K s D := by
  simp only [atoms,List.mem_cons,Prod.mk.injEq,List.not_mem_nil,or_false] at hc
  rcases hc with ⟨rfl,rfl⟩ | ⟨rfl,rfl⟩ | ⟨rfl,rfl⟩ | ⟨rfl,rfl⟩ | ⟨rfl,rfl⟩ | ⟨rfl,rfl⟩ | ⟨rfl,rfl⟩ | ⟨rfl,rfl⟩ | ⟨rfl,rfl⟩
  · exact ⟨h anything (by simp [standard]),⟨_,rfl⟩,fun _ _ _ _ _ _ _ => Rule.decides_anything⟩
  · exact denotes_kind (h string (by simp [standard]))
  · exact denotes_kind (h number (by simp [standard]))
  · exact denotes_kind (h boolean (by simp [standard]))
  · exact denotes_kind (h function (by simp [standard]))
  · exact denotes_kind (h undefined (by simp [standard]))
  · exact denotes_class (h date (by simp [standard]))
  · exact denotes_class (h regex (by simp [standard]))
  · exact denotes_object h

theorem quiet_all (h : List.Forall₂ (Denotes K s) cs Ds) :
    (all m (cs.map value)).Quiet (fun x u => ∃ c : Contract, x = c.value ∧ c.Denotes K u (.all Ds)) s :=
  quiet_denotes (made_all (worded_all h)) fun _ _ _ _ hu ha hv => Rule.decides_all (now_all h hu ha) hv

theorem quiet_any (h : List.Forall₂ (Denotes K s) cs Ds) :
    (any m (cs.map value)).Quiet (fun x u => ∃ c : Contract, x = c.value ∧ c.Denotes K u (.any Ds)) s :=
  quiet_denotes (made_any (worded_all h)) fun _ _ _ _ hu ha hv => Rule.decides_any (now_all h hu ha) hv

theorem quiet_negate (h : c.Denotes K s D) :
    (negate m c.value).Quiet (fun x u => ∃ c : Contract, x = c.value ∧ c.Denotes K u D.negate) s :=
  quiet_denotes (made_negate h.worded) fun _ _ _ _ hu ha hv => Rule.decides_not (h.now hu ha) hv

theorem quiet_maybe (h : c.Denotes K s D) :
    (maybe m c.value).Quiet (fun x u => ∃ c : Contract, x = c.value ∧ c.Denotes K u D.maybe) s :=
  quiet_denotes (made_maybe h.worded) fun _ _ _ _ hu ha hv => Rule.decides_maybe (h.now hu ha) hv

/-- The element contract that matches every value is the one at its place, and items are not looked at then. -/
theorem quiet_array (hs : s.HasAtoms) (h : c.Denotes K s D) (hy : (if y = .absent then .ref anyRef else y) = c.value) :
    (array m y).Quiet (fun x u => ∃ c : Contract, x = c.value ∧ c.Denotes K u D.array) s := by
  refine quiet_denotes (made_array h.worded hy) fun w m P v hw ha hv => ?_
  have hnow := h.now hw ha
  by_cases hc : c.id = anyRef
  · have hany : c = anything := by
      have hheld := h.held.held
      rw [value,hc] at hheld
      exact Option.some.inj (hheld.symm.trans (hs anything (by simp [standard])).held)
    rw [if_pos hc]
    obtain ⟨b,hb,hD⟩ := Rule.decides_anyArray (m := m) (ha.native v hv)
    refine ⟨b,hb,hD.trans ?_⟩
    have htrue : ∀ x, P x → D w x := by
      intro x hx
      obtain ⟨b,hb,hD⟩ := hnow.decides x hx
      have hone : b = true := by
        rw [hany] at hb
        simpa [anything,named,Rule.holds,eq_comm] using hb
      exact hD.mp hone
    simp only [Meaning.array,Meaning.anything,implies_true,and_true]
    exact ⟨fun h => ⟨h,fun x hx => htrue x (ha.elements v hv x hx)⟩,And.left⟩
  · rw [if_neg hc]
    exact Rule.decides_array (ha.native v hv) hnow (ha.elements v hv)

theorem decides_positional {w : Store} {m : Machine} {P : Value → Prop} {v : Value}
    (h : List.Forall₂ (Denotes K s) cs Ds) (hw : s.Keeps .library w) (ha : w.Answers m K P) (hv : P v) :
    (Rule.product cs).Decides m w (.product Ds) v :=
  Rule.decides_product (ha.native v hv) (now_all h hw ha) (ha.elements v hv)

theorem quiet_positional (h : List.Forall₂ (Denotes K s) cs Ds) (hy : (iterate m y).Gives (cs.map value) s) :
    (product m y).Quiet (fun x u => ∃ c : Contract, x = c.value ∧ c.Denotes K u (.product Ds)) s :=
  quiet_denotes (made_product (worded_all h) hy) fun _ _ _ _ => decides_positional h

/-- One contract in a row stands for itself. -/
theorem quiet_collapsed {f : Act Value} (h : List.Forall₂ (Denotes K s) cs Ds)
    (hf : f.Quiet (fun x u => ∃ c : Contract, x = c.value ∧
      (cs = [c] ∧ u.Worded c ∨ cs.length ≠ 1 ∧ u.Made c (.product cs))) s) :
    f.Quiet (fun x u => ∃ c : Contract, x = c.value ∧ c.Denotes K u (.positional Ds)) s := by
  refine hf.imp ?_
  rintro x u hu ⟨c,rfl,⟨rfl,-⟩ | ⟨hne,hc⟩⟩
  · cases h with
    | cons hc hcs =>
      cases hcs
      exact ⟨c,rfl,hc.keep (Store.Keeps.of_grows hu)⟩
  · refine ⟨c,rfl,?_⟩
    have hproduct : c.Denotes K u (.product Ds) :=
      hc.denotes fun w m P v hw => decides_positional h ((Store.Keeps.of_grows hu).trans hw)
    rw [h.length_eq] at hne
    rcases Ds with _ | ⟨D,_ | ⟨E,Ds⟩⟩
    · exact hproduct
    · exact absurd rfl hne
    · exact hproduct

theorem quiet_seq (h : List.Forall₂ (Denotes K s) cs Ds) :
    (seq m (cs.map value)).Quiet (fun x u => ∃ c : Contract, x = c.value ∧ c.Denotes K u (.positional Ds)) s :=
  quiet_collapsed h (made_seq (worded_all h))

/-- The contracts of an array in place of contracts in a row. -/
theorem quiet_seqOf (h : List.Forall₂ (Denotes K s) cs Ds) (ha : (isArray m y).Gives true s)
    (hy : Always (s.Grows ·) (iterate m y) (cs.map value)) :
    (seq m [y]).Quiet (fun x u => ∃ c : Contract, x = c.value ∧ c.Denotes K u (.positional Ds)) s :=
  quiet_collapsed h (made_seqOf (worded_all h) ha hy)

/-- What a builder gave is a contract with a set, if it can be seen in some run of the builder. -/
theorem denotes_of_quiet {f : Act Value} (h : f.Quiet (fun x u => ∃ c : Contract, x = c.value ∧ c.Denotes K u D) s)
    (hx : f s = .ok x t) : s.Grows t ∧ ∃ c : Contract, x = c.value ∧ c.Denotes K t D := h.seen hx

/-- What a shape says in words may run anything, as long as it leaves the library's objects alone. -/
theorem denotes_record {shape : List (Value × Contract)} {ds : List (Value × Meaning)}
    (hentries : (entriesOf m y).Gives (shape.map fun e => (e.1,e.2.value)) s)
    (hshape : List.Forall₂ (fun e d => e.1 = d.1 ∧ e.2.Denotes K s d.2) shape ds)
    (hnames : ∀ e ∈ shape, K.Name e.1) (hx : record m y s = .ok x t) (ht : s.Keeps .library t) :
    ∃ c : Contract, x = c.value ∧ c.Denotes K t (.record K ds) := by
  have hworded : ∀ e ∈ shape, s.Worded e.2 := by
    intro e he
    obtain ⟨d,-,hd⟩ := exists_of_mem_right hshape.flip he
    exact hd.2.worded
  obtain ⟨c,rfl,hc⟩ := made_record hworded hentries hx
  refine ⟨c,rfl,hc.denotes fun w m P v hw ha hv => ?_⟩
  exact Rule.decides_record (hshape.imp fun _ _ h => ⟨h.1,h.2.now (ht.trans hw) ha⟩) ha hv hnames

/-- A class whose own class does not decide membership. -/
theorem denotes_instance {cls : Value} (hcls : K.Cls cls) :
    (ofInstances m cls).Ends fun x t => ∃ c : Contract, x = c.value ∧ c.Denotes K t (.ofClass cls) := by
  refine (made_instance cls).imp ?_
  rintro x t ⟨c,rfl,hc⟩
  refine ⟨c,rfl,hc.denotes fun w m P v _ ha hv => ?_⟩
  obtain ⟨hk,hover⟩ := ha.cls cls hcls
  obtain ⟨k,hk⟩ := Option.isSome_iff_exists.mp hk
  exact Rule.decides_instance (ha.native v hv) hk hover

/-- Whatever it says about calls, a signature is a contract for functions. -/
theorem denotes_signature (types : List Value) :
    (proc m types).Ends fun x t => ∃ c : Contract, x = c.value ∧ c.Denotes K t .function := by
  refine (worded_proc types).imp ?_
  rintro x t ⟨c,rfl,hc,hrule⟩
  exact ⟨c,rfl,hc.held,hc.text,fun _ _ _ v _ ha hv => hrule ▸ Rule.decides_function (ha.native v hv)⟩

end builders
end Contract
end CallContracts
