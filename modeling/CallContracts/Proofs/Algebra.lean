import CallContracts.Proofs.Builders
/-! The algebra of contracts.  A program builds contracts out of the ones that are there from the start, one call of
a builder after the other, and runs them on values.  A run always ends in a match or in a mismatch; it is a match
just when the value is in the set that the way the contract was built makes out. -/
namespace CallContracts
open Act

namespace Contract

/-- A contract that a program has built, and its set: one of those that are there from the start, or made by a
builder out of contracts that were built before. -/
inductive Composed (K : Vocabulary) : Store → Value → Meaning → Prop where
  | kept {s t : Store} {x : Value} {D : Meaning} : Composed K s x D → s.Keeps .library t → Composed K t x D
  | atom {s : Store} {c : Contract} {D : Meaning} : s.HasAtoms → (c,D) ∈ atoms → Composed K s c.value D
  | inst {m : Machine} {s t : Store} {x cls : Value} : K.Cls cls → ofInstances m cls s = .ok x t →
      Composed K t x (.ofClass cls)
  | all {m : Machine} {s t : Store} {x : Value} {ps : List (Value × Meaning)} :
      (∀ p ∈ ps, Composed K s p.1 p.2) → Contract.all m (ps.map Prod.fst) s = .ok x t →
      Composed K t x (.all (ps.map Prod.snd))
  | any {m : Machine} {s t : Store} {x : Value} {ps : List (Value × Meaning)} :
      (∀ p ∈ ps, Composed K s p.1 p.2) → Contract.any m (ps.map Prod.fst) s = .ok x t →
      Composed K t x (.any (ps.map Prod.snd))
  | negate {m : Machine} {s t : Store} {x y : Value} {D : Meaning} : Composed K s y D →
      Contract.negate m y s = .ok x t → Composed K t x D.negate
  | maybe {m : Machine} {s t : Store} {x y : Value} {D : Meaning} : Composed K s y D →
      Contract.maybe m y s = .ok x t → Composed K t x D.maybe
  | array {m : Machine} {s t : Store} {x y : Value} {D : Meaning} : s.HasAtoms → Composed K s y D →
      Contract.array m y s = .ok x t → Composed K t x D.array
  | anyArray {m : Machine} {s t : Store} {x : Value} : s.HasAtoms → Contract.array m .absent s = .ok x t →
      Composed K t x (.array .anything)
  | product {m : Machine} {s t : Store} {x y : Value} {ps : List (Value × Meaning)} :
      (∀ p ∈ ps, Composed K s p.1 p.2) → (iterate m y).Gives (ps.map Prod.fst) s →
      Contract.product m y s = .ok x t → Composed K t x (.product (ps.map Prod.snd))
  | seq {m : Machine} {s t : Store} {x : Value} {ps : List (Value × Meaning)} :
      (∀ p ∈ ps, Composed K s p.1 p.2) → Contract.seq m (ps.map Prod.fst) s = .ok x t →
      Composed K t x (.positional (ps.map Prod.snd))
  | seqOf {m : Machine} {s t : Store} {x y : Value} {ps : List (Value × Meaning)} :
      (∀ p ∈ ps, Composed K s p.1 p.2) → (isArray m y).Gives true s →
      Always (s.Grows ·) (iterate m y) (ps.map Prod.fst) → Contract.seq m [y] s = .ok x t →
      Composed K t x (.positional (ps.map Prod.snd))
  | record {m : Machine} {s t : Store} {x y : Value} {fs : List (Value × Value × Meaning)} :
      (∀ f ∈ fs, K.Name f.1) → (∀ f ∈ fs, Composed K s f.2.1 f.2.2) →
      (entriesOf m y).Gives (fs.map fun f => (f.1,f.2.1)) s → Contract.record m y s = .ok x t →
      s.Keeps .library t → Composed K t x (.record K (fs.map fun f => (f.1,f.2.2)))
  | proc {m : Machine} {s t : Store} {x : Value} {types : List Value} : Contract.proc m types s = .ok x t →
      Composed K t x .function

variable {K : Vocabulary} {m : Machine} {s t : Store} {P : Value → Prop} {D : Meaning} {x v : Value}

/-- Values that are contracts, as contracts. -/
theorem exists_contracts {ps : List (Value × Meaning)}
    (h : ∀ p ∈ ps, ∃ c : Contract, p.1 = c.value ∧ c.Denotes K s p.2) :
    ∃ cs, ps.map Prod.fst = cs.map value ∧ List.Forall₂ (Denotes K s) cs (ps.map Prod.snd) := by
  obtain ⟨cs,hcs⟩ := exists_forall₂ h
  refine ⟨cs,?_,?_⟩
  · rw [← List.forall₂_eq_eq_eq,List.forall₂_map_left_iff,List.forall₂_map_right_iff]
    exact hcs.imp fun _ _ h => h.1
  · rw [List.forall₂_map_right_iff]
    exact (hcs.imp fun _ _ h => h.2).flip

/-- What was built has the set that the way it was built makes out. -/
theorem Composed.denotes (h : Composed K s x D) : ∃ c : Contract, x = c.value ∧ c.Denotes K s D := by
  induction h with
  | kept _ ht ih =>
    obtain ⟨c,rfl,hc⟩ := ih
    exact ⟨c,rfl,hc.keep ht⟩
  | atom hs hc => exact ⟨_,rfl,denotes_atom hs hc⟩
  | inst hcls hx => exact denotes_instance hcls _ _ _ hx
  | all _ hx ih =>
    obtain ⟨cs,hps,hcs⟩ := exists_contracts ih
    exact (denotes_of_quiet (quiet_all hcs) (hps ▸ hx)).2
  | any _ hx ih =>
    obtain ⟨cs,hps,hcs⟩ := exists_contracts ih
    exact (denotes_of_quiet (quiet_any hcs) (hps ▸ hx)).2
  | negate _ hx ih =>
    obtain ⟨c,rfl,hc⟩ := ih
    exact (denotes_of_quiet (quiet_negate hc) hx).2
  | maybe _ hx ih =>
    obtain ⟨c,rfl,hc⟩ := ih
    exact (denotes_of_quiet (quiet_maybe hc) hx).2
  | array hs _ hx ih =>
    obtain ⟨c,rfl,hc⟩ := ih
    exact (denotes_of_quiet (quiet_array hs hc (by simp [value])) hx).2
  | anyArray hs hx =>
    have hany : anything.Denotes K _ .anything := denotes_atom hs (by simp [atoms])
    exact (denotes_of_quiet (quiet_array hs hany rfl) hx).2
  | product _ hy hx ih =>
    obtain ⟨cs,hps,hcs⟩ := exists_contracts ih
    exact (denotes_of_quiet (quiet_positional hcs (hps ▸ hy)) hx).2
  | seq _ hx ih =>
    obtain ⟨cs,hps,hcs⟩ := exists_contracts ih
    exact (denotes_of_quiet (quiet_seq hcs) (hps ▸ hx)).2
  | seqOf _ ha hy hx ih =>
    obtain ⟨cs,hps,hcs⟩ := exists_contracts ih
    exact (denotes_of_quiet (quiet_seqOf hcs ha (hps ▸ hy)) hx).2
  | @record m s t x y fs hnames _ hy hx ht ih =>
    obtain ⟨shape,hshape⟩ := exists_forall₂ (R := fun (f : Value × Value × Meaning) (e : Value × Contract) =>
      e.1 = f.1 ∧ f.2.1 = e.2.value ∧ e.2.Denotes K s f.2.2) fun f hf => by
        obtain ⟨c,hc,hD⟩ := ih f hf
        exact ⟨(f.1,c),rfl,hc,hD⟩
    have hmap : fs.map (fun f => (f.1,f.2.1)) = shape.map fun e => (e.1,e.2.value) := by
      rw [← List.forall₂_eq_eq_eq,List.forall₂_map_left_iff,List.forall₂_map_right_iff]
      exact hshape.imp fun f e h => by rw [h.1,h.2.1]
    have hds : List.Forall₂ (fun (e : Value × Contract) d => e.1 = d.1 ∧ e.2.Denotes K s d.2) shape
        (fs.map fun f => (f.1,f.2.2)) := by
      rw [List.forall₂_map_right_iff]
      exact (hshape.imp fun f e h => ⟨h.1,h.2.2⟩).flip
    refine denotes_record (hmap ▸ hy) hds (fun e he => ?_) hx ht
    obtain ⟨f,hf,h⟩ := exists_of_mem_right hshape he
    exact h.1 ▸ hnames f hf
  | proc hx => exact denotes_signature _ _ _ _ hx

end Contract

/-- The result that stands for a match of a contract. -/
def Store.IsMatch (s : Store) (r contract : Value) : Prop :=
  s.obj? r = some { cls := .builtin .matched, body := .plain, attrs := some [("contract",contract)] }

/-- The result that stands for a mismatch of a value. -/
def Store.IsMismatch (s : Store) (r description v : Value) : Prop :=
  s.obj? r = some { cls := .builtin .mismatched, body := .plain
                    attrs := some [("description",description),("value",v)] }

namespace Contract
variable {K : Vocabulary} {m : Machine} {s t : Store} {P : Value → Prop} {D : Meaning} {x v : Value}

theorem call_run (m : Machine) (x v : Value) (s : Store) :
    m.next.call (.operation (.member .contract "run" .plain)) [x,v] [] s = runOn m x v s := by
  rfl

/-- A list that is its own only item. -/
def looped : Store :=
  { Store.initial with heap := Store.initial.heap ++ #[{ cls := .builtin .list, body := .list [.ref 33] }] }

theorem looped_list (ht : looped.Grows t) :
    t.classOf (.ref 33) = .builtin .list ∧ t.body? (.ref 33) = some (.list [.ref 33]) := by
  have hv : looped.Holds .all (.ref 33) :=
    Store.holds_ref (o := { cls := .builtin .list, body := .list [.ref 33] }) rfl trivial
  exact ⟨by rw [ht.classOf hv]; rfl,by rw [ht.body? hv]; rfl⟩

theorem looped_answers (ht : looped.Grows t) (m : Machine) : t.Answers m .plain (· = .ref 33) := by
  obtain ⟨hc,hb⟩ := looped_list ht
  have hlist : BuiltinClass.list ∈ [BuiltinClass.list,.tuple] := by simp
  have hn := native_sequence hc hlist (Or.inl hb)
  obtain ⟨hseq,hmapping⟩ := isSequence_builtin hc hlist
  have hf : t.fields? (.ref 33) = none := by simp [Store.fields?,hmapping,hseq]
  refine Store.answers_plain m (fun v hv => hv ▸ hn) ?_ ?_
  · rintro v rfl x hx
    simpa [Store.elements,hb] using hx
  · rintro v es rfl hes
    rw [hf] at hes
    cases hes

/-- An instance whose class says itself what it is, and raises. -/
def shy : Act Value := do
  let c ← (Expr.classDef "C" [("__class__",.property (.function "f" [.required "self"] []
    (.raise "ValueError" "no") none))] []).eval Machine.full []
  (Expr.new (.variable "C") []).eval Machine.full [("C",c)]

end Contract
end CallContracts
