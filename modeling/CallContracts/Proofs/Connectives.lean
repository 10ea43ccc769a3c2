import CallContracts.Proofs.Function
import CallContracts.Proofs.Algebra
/-! Laws of the connectives.  Negation, conjunction and disjunction obey the laws of truth values with all that a run
does on the way: the two sides of a law ask the same tests about the value in the same order, stop at the same place,
and end alike. -/
namespace CallContracts
open Act

/-- The contracts of one store are in place in another. -/
def Store.Retains (s t : Store) : Prop := ∀ r c, s.contract? (.ref r) = some c → t.contract? (.ref r) = some c

theorem Store.Made.retained {s t : Store} {c : Contract} {r : Rule} (h : s.Made c r) (ht : s.Retains t) :
    t.contract? c.value = some c := ht c.id c h.held

namespace Contract

/-- The laws, by what the contracts of both sides are built out of. -/
inductive Law where
  | notAll (xs : List Contract)
  | notAny (xs : List Contract)
  | notNot (c : Contract)
  | allAll (xs ys zs : List Contract)
  | anyAny (xs ys zs : List Contract)

namespace Law

def parts : Law → List Contract
  | notAll xs | notAny xs => xs
  | notNot c => [c]
  | allAll xs ys zs | anyAny xs ys zs => xs ++ ys ++ zs

def left (m : Machine) : Law → Act Value
  | notAll xs => do negate m (← all m (xs.map value))
  | notAny xs => do negate m (← any m (xs.map value))
  | notNot c => do negate m (← negate m c.value)
  | allAll xs ys zs => do all m (xs.map value ++ [← all m (ys.map value)] ++ zs.map value)
  | anyAny xs ys zs => do any m (xs.map value ++ [← any m (ys.map value)] ++ zs.map value)

def right (m : Machine) : Law → Act Value
  | notAll xs => do any m (← each (negate m) (xs.map value))
  | notAny xs => do all m (← each (negate m) (xs.map value))
  | notNot c => pure c.value
  | allAll xs ys zs => all m ((xs ++ ys ++ zs).map value)
  | anyAny xs ys zs => any m ((xs ++ ys ++ zs).map value)

/-- What the left side of a law is in a store where it was built. -/
def IsLeft (s : Store) : Law → Contract → Prop
  | notAll xs, a => ∃ d, s.Made d (.all xs) ∧ s.Made a (.not d)
  | notAny xs, a => ∃ d, s.Made d (.any xs) ∧ s.Made a (.not d)
  | notNot c, a => ∃ d, s.Made d (.not c) ∧ s.Made a (.not d)
  | allAll xs ys zs, a => ∃ d, s.Made d (.all ys) ∧ s.Made a (.all (xs ++ [d] ++ zs))
  | anyAny xs ys zs, a => ∃ d, s.Made d (.any ys) ∧ s.Made a (.any (xs ++ [d] ++ zs))

/-- Negations of contracts, one for each. -/
def Negations (s : Store) (xs ns : List Contract) : Prop := List.Forall₂ (fun x n => s.Made n (.not x)) xs ns

/-- What the right side is. -/
def IsRight (s : Store) : Law → Contract → Prop
  | notAll xs, b => ∃ ns, Negations s xs ns ∧ s.Made b (.any ns)
  | notAny xs, b => ∃ ns, Negations s xs ns ∧ s.Made b (.all ns)
  | notNot c, b => b = c
  | allAll xs ys zs, b => s.Made b (.all (xs ++ ys ++ zs))
  | anyAny xs ys zs, b => s.Made b (.any (xs ++ ys ++ zs))

end Law

section build
variable {m : Machine} {s t : Store} {xs ys zs ns : List Contract} {L : Law}

theorem Law.Negations.grows (h : Negations s xs ns) (ht : s.Grows t) : Negations t xs ns :=
  h.imp fun _ _ hn => hn.keep (Store.Keeps.of_grows ht)

theorem quiet_negations (h : ∀ x ∈ xs, s.Worded x) : (each (negate m) (xs.map value)).Quiet
    (fun vs t => ∃ ns : List Contract, vs = ns.map value ∧ Law.Negations t xs ns) s := by
  induction xs generalizing s with
  | nil => exact quiet_pure ⟨[],rfl,.nil⟩
  | cons x xs ih =>
    refine Quiet.bind (made_negate (h x (by simp))) ?_
    rintro _ t ht ⟨n,rfl,hn⟩
    refine Quiet.bind (ih (worded_grows (fun y hy => h y (by simp [hy])) ht)) ?_
    rintro _ u hu ⟨ns,rfl,hns⟩
    exact quiet_pure ⟨n :: ns,rfl,.cons (hn.keep (Store.Keeps.of_grows hu)) hns⟩

/-- Parts around a new contract, all of them described by texts. -/
theorem worded_around {d : Contract} {r : Rule} (h : ∀ x ∈ xs ++ ys ++ zs, s.Worded x) (ht : s.Grows t)
    (hd : t.Made d r) : ∀ x ∈ xs ++ [d] ++ zs, t.Worded x := by
  intro x hx
  simp only [List.append_assoc,List.mem_append,List.mem_singleton] at hx h
  rcases hx with hx | rfl | hx
  · exact worded_grows (fun y (hy : y ∈ xs) => h y (.inl hy)) ht x hx
  · exact hd.worded
  · exact worded_grows (fun y (hy : y ∈ zs) => h y (.inr (.inr hy))) ht x hx

/-- The left side of a law can be built. -/
theorem quiet_left (h : ∀ x ∈ L.parts, s.Worded x) :
    (L.left m).Quiet (fun v t => ∃ a : Contract, v = a.value ∧ L.IsLeft t a) s := by
  have keep {c : Contract} {r : Rule} {t u : Store} (hc : t.Made c r) (hu : t.Grows u) : u.Made c r :=
    hc.keep (Store.Keeps.of_grows hu)
  cases L with
  | notAll xs =>
    refine Quiet.bind (made_all h) ?_
    rintro _ t ht ⟨d,rfl,hd⟩
    refine (made_negate hd.worded).imp ?_
    rintro _ u hu ⟨a,rfl,ha⟩
    exact ⟨a,rfl,d,keep hd hu,ha⟩
  | notAny xs =>
    refine Quiet.bind (made_any h) ?_
    rintro _ t ht ⟨d,rfl,hd⟩
    refine (made_negate hd.worded).imp ?_
    rintro _ u hu ⟨a,rfl,ha⟩
    exact ⟨a,rfl,d,keep hd hu,ha⟩
  | notNot c =>
    refine Quiet.bind (made_negate (h c (by simp [Law.parts]))) ?_
    rintro _ t ht ⟨d,rfl,hd⟩
    refine (made_negate hd.worded).imp ?_
    rintro _ u hu ⟨a,rfl,ha⟩
    exact ⟨a,rfl,d,keep hd hu,ha⟩
  | allAll xs ys zs =>
    refine Quiet.bind (made_all fun y (hy : y ∈ ys) => h y (by simp [Law.parts,hy])) ?_
    rintro _ t ht ⟨d,rfl,hd⟩
    have hmap : xs.map value ++ [d.value] ++ zs.map value = (xs ++ [d] ++ zs).map value := by simp
    rw [hmap]
    refine (made_all (worded_around h ht hd)).imp ?_
    rintro _ u hu ⟨a,rfl,ha⟩
    exact ⟨a,rfl,d,keep hd hu,ha⟩
  | anyAny xs ys zs =>
    refine Quiet.bind (made_any fun y (hy : y ∈ ys) => h y (by simp [Law.parts,hy])) ?_
    rintro _ t ht ⟨d,rfl,hd⟩
    have hmap : xs.map value ++ [d.value] ++ zs.map value = (xs ++ [d] ++ zs).map value := by simp
    rw [hmap]
    refine (made_any (worded_around h ht hd)).imp ?_
    rintro _ u hu ⟨a,rfl,ha⟩
    exact ⟨a,rfl,d,keep hd hu,ha⟩

theorem worded_negations (h : Law.Negations s xs ns) : ∀ n ∈ ns, s.Worded n := by
  intro n hn
  obtain ⟨x,-,hx⟩ := exists_of_mem_right h hn
  exact hx.worded

/-- So can the right side. -/
theorem quiet_right (h : ∀ x ∈ L.parts, s.Worded x) :
    (L.right m).Quiet (fun v t => ∃ b : Contract, v = b.value ∧ L.IsRight t b) s := by
  cases L with
  | notAll xs =>
    refine Quiet.bind (quiet_negations h) ?_
    rintro _ t ht ⟨ns,rfl,hns⟩
    refine (made_any (worded_negations hns)).imp ?_
    rintro _ u hu ⟨b,rfl,hb⟩
    exact ⟨b,rfl,ns,hns.grows hu,hb⟩
  | notAny xs =>
    refine Quiet.bind (quiet_negations h) ?_
    rintro _ t ht ⟨ns,rfl,hns⟩
    refine (made_all (worded_negations hns)).imp ?_
    rintro _ u hu ⟨b,rfl,hb⟩
    exact ⟨b,rfl,ns,hns.grows hu,hb⟩
  | notNot c => exact quiet_pure ⟨c,rfl,rfl⟩
  | allAll xs ys zs => exact made_all h
  | anyAny xs ys zs => exact made_any h

end build

section run
variable {n : Machine} {v : Value} {s t w : Store} {c x : Contract} {xs ys zs ns : List Contract} {L : Law}

/-- A contract that is in place runs by its rule. -/
theorem outcome_of_held (h : w.contract? c.value = some c) : c.outcome n v w =
    (c.rule.holds n v >>= fun b => pure (if b then .matched else .mismatched) : Act Outcome) w := by
  obtain ⟨r,d,t⟩ := c
  simp only [Contract.outcome,get_bind_apply]
  rw [if_pos (by rw [show Value.ref r = value (.mk r d t) from rfl,h]; rfl)]
  refine bind_congr_of fun b u _ => ?_
  cases b <;> rfl

/-- Such a run is not without an answer. -/
theorem decided_of_held (h : w.contract? c.value = some c) {o : Outcome} {u : Store}
    (ho : c.outcome n v w = .ok o u) : o = .matched ∨ o = .mismatched := by
  rw [outcome_of_held h] at ho
  obtain ⟨b,z,-,hz⟩ := bind_eq_ok.mp ho
  obtain ⟨rfl,-⟩ : (if b then Outcome.matched else .mismatched) = o ∧ z = u := by simpa using hz
  cases b <;> simp

theorem outcome_negation (h : w.contract? c.value = some c) (hc : c.rule = .not x) : c.outcome n v w =
    (x.outcome n v >>= fun o => pure (if o = .mismatched then .matched else .mismatched) : Act Outcome) w := by
  rw [outcome_of_held h,hc]
  simp only [Rule.holds,bind_assoc,pure_bind,decide_eq_true_eq]

theorem outcome_conjunction (h : w.contract? c.value = some c) (hc : c.rule = .all xs) : c.outcome n v w =
    (noneFails n xs v >>= fun b => pure (if b then .matched else .mismatched) : Act Outcome) w := by
  rw [outcome_of_held h,hc]
  simp only [Rule.holds]

theorem outcome_disjunction (h : w.contract? c.value = some c) (hc : c.rule = .any xs) : c.outcome n v w =
    (someMatches n xs v >>= fun b => pure (if b then .matched else .mismatched) : Act Outcome) w := by
  rw [outcome_of_held h,hc]
  simp only [Rule.holds]

theorem noneFails_append (xs ys : List Contract) :
    noneFails n (xs ++ ys) v = (noneFails n xs v >>= fun b => if b then noneFails n ys v else pure false) := by
  induction xs with
  | nil => simp
  | cons x xs ih =>
    rw [List.cons_append,noneFails_cons,noneFails_cons,bind_assoc,ih]
    congr 1
    funext o
    split <;> simp

theorem someMatches_append (xs ys : List Contract) :
    someMatches n (xs ++ ys) v = (someMatches n xs v >>= fun b => if b then pure true else someMatches n ys v) := by
  induction xs with
  | nil => simp
  | cons x xs ih =>
    rw [List.cons_append,someMatches_cons,someMatches_cons,bind_assoc,ih]
    congr 1
    funext o
    split <;> simp

/-- Running contracts on a value leaves a property of stores as it was. -/
def Spare (W : Store → Prop) (n : Machine) (v : Value) (xs : List Contract) : Prop :=
  ∀ x ∈ xs, ∀ w, W w → W (after (x.outcome n v) w)

section spare
variable {W : Store → Prop}

theorem Spare.mono (h : Spare W n v xs) (hys : ∀ y ∈ ys, y ∈ xs) : Spare W n v ys := fun y hy => h y (hys y hy)

theorem Spare.step (h : Spare W n v (x :: xs)) (hw : W w) {o : Outcome} {u : Store} (ho : x.outcome n v w = .ok o u) :
    W u := by
  simpa only [after_ok ho] using h x (by simp) w hw

theorem Spare.noneFails (h : Spare W n v xs) (hw : W w) {b : Bool} {u : Store} (hb : noneFails n xs v w = .ok b u) :
    W u := by
  induction xs generalizing w with
  | nil =>
    obtain ⟨-,rfl⟩ : true = b ∧ w = u := by simpa using hb
    exact hw
  | cons x xs ih =>
    rw [noneFails_cons] at hb
    obtain ⟨o,z,ho,hz⟩ := bind_eq_ok.mp hb
    have hsz := h.step hw ho
    split at hz
    · obtain ⟨-,rfl⟩ : false = b ∧ z = u := by simpa using hz
      exact hsz
    · exact ih (h.mono (by simp +contextual)) hsz hz

theorem Spare.someMatches (h : Spare W n v xs) (hw : W w) {b : Bool} {u : Store}
    (hb : someMatches n xs v w = .ok b u) : W u := by
  induction xs generalizing w with
  | nil =>
    obtain ⟨-,rfl⟩ : false = b ∧ w = u := by simpa using hb
    exact hw
  | cons x xs ih =>
    rw [someMatches_cons] at hb
    obtain ⟨o,z,ho,hz⟩ := bind_eq_ok.mp hb
    have hsz := h.step hw ho
    split at hz
    · obtain ⟨-,rfl⟩ : true = b ∧ z = u := by simpa using hz
      exact hsz
    · exact ih (h.mono (by simp +contextual)) hsz hz

variable (hW : ∀ w, W w → s.Retains w)
include hW

/-- A negation matches at the first mismatch of what it negates. -/
theorem someMatches_negations (hns : Law.Negations s xs ns) (h : Spare W n v xs) (hw : W w) :
    someMatches n ns v w = (noneFails n xs v >>= fun b => pure !b) w := by
  induction hns generalizing w with
  | nil => simp
  | @cons x c xs ns hc _ ih =>
    rw [someMatches_cons,noneFails_cons,bind_congr_left (outcome_negation (hc.retained (hW w hw)) hc.rule),bind_assoc,bind_assoc]
    refine bind_congr_of fun o u ho => ?_
    rw [pure_bind_apply]
    by_cases hm : o = .mismatched
    · simp [hm]
    · simpa [hm] using ih (h.mono (by simp +contextual)) (h.step hw ho)

/-- It fails at the first match, for there is no third answer. -/
theorem noneFails_negations (hns : Law.Negations s xs ns) (hxs : ∀ x ∈ xs, s.contract? x.value = some x)
    (h : Spare W n v xs) (hw : W w) :
    noneFails n ns v w = (someMatches n xs v >>= fun b => pure !b) w := by
  induction hns generalizing w with
  | nil => simp
  | @cons x c xs ns hc _ ih =>
    rw [noneFails_cons,someMatches_cons,bind_congr_left (outcome_negation (hc.retained (hW w hw)) hc.rule),bind_assoc,bind_assoc]
    refine bind_congr_of fun o u ho => ?_
    rw [pure_bind_apply]
    rcases decided_of_held (hW w hw _ _ (hxs x (by simp))) ho with rfl | rfl
    · simp
    · simpa using ih (fun y hy => hxs y (by simp [hy])) (h.mono (by simp +contextual)) (h.step hw ho)

/-- A conjunction among the parts of a conjunction runs as its own parts in its place. -/
theorem noneFails_nested {d : Contract} (hd : s.Made d (.all ys)) (h : Spare W n v xs) (hw : W w) :
    noneFails n (xs ++ [d] ++ zs) v w = noneFails n (xs ++ ys ++ zs) v w := by
  rw [List.append_assoc,List.append_assoc,noneFails_append,noneFails_append xs]
  refine bind_congr_of fun b u hb => ?_
  cases b with
  | false => rfl
  | true =>
    have hheld := hd.retained (hW u (h.noneFails hw hb))
    simp only [if_true,List.singleton_append]
    rw [noneFails_cons,noneFails_append,bind_congr_left (outcome_conjunction hheld hd.rule),bind_assoc]
    refine bind_congr_of fun b z _ => ?_
    cases b <;> simp

/-- So does a disjunction in a disjunction. -/
theorem someMatches_nested {d : Contract} (hd : s.Made d (.any ys)) (h : Spare W n v xs) (hw : W w) :
    someMatches n (xs ++ [d] ++ zs) v w = someMatches n (xs ++ ys ++ zs) v w := by
  rw [List.append_assoc,List.append_assoc,someMatches_append,someMatches_append xs]
  refine bind_congr_of fun b u hb => ?_
  cases b with
  | true => rfl
  | false =>
    have hheld := hd.retained (hW u (h.someMatches hw hb))
    simp only [Bool.false_eq_true,if_false,List.singleton_append]
    rw [someMatches_cons,someMatches_append,bind_congr_left (outcome_disjunction hheld hd.rule),bind_assoc]
    refine bind_congr_of fun b z _ => ?_
    cases b <;> simp

/-- Both sides of a law hold by one computation. -/
theorem Law.holds_eq {a b : Contract} (ha : L.IsLeft s a) (hb : L.IsRight s b)
    (hparts : ∀ c ∈ L.parts, s.contract? c.value = some c) (h : Spare W n v L.parts) (hw : W w) :
    a.rule.holds n v w = b.rule.holds n v w := by
  cases L with
  | notAll xs =>
    obtain ⟨d,hd,ha⟩ := ha
    obtain ⟨ns,hns,hb⟩ := hb
    rw [ha.rule,hb.rule]
    simp only [Rule.holds]
    rw [someMatches_negations hW hns h hw,bind_congr_left (outcome_conjunction (hd.retained (hW w hw)) hd.rule),bind_assoc]
    refine bind_congr_of fun b u _ => ?_
    cases b <;> rfl
  | notAny xs =>
    obtain ⟨d,hd,ha⟩ := ha
    obtain ⟨ns,hns,hb⟩ := hb
    rw [ha.rule,hb.rule]
    simp only [Rule.holds]
    rw [noneFails_negations hW hns hparts h hw,bind_congr_left (outcome_disjunction (hd.retained (hW w hw)) hd.rule),bind_assoc]
    refine bind_congr_of fun b u _ => ?_
    cases b <;> rfl
  | notNot c =>
    obtain ⟨d,hd,ha⟩ := ha
    obtain rfl := hb
    have hc := hW w hw _ _ (hparts b (by simp [Law.parts]))
    rw [ha.rule]
    simp only [Rule.holds]
    rw [bind_congr_left (outcome_negation (hd.retained (hW w hw)) hd.rule),bind_congr_left (bind_congr_left (outcome_of_held hc))]
    simp only [bind_assoc,pure_bind]
    rw [bind_apply]
    cases b.rule.holds n v w with
    | ok x u => cases x <;> rfl
    | error e u => rfl
  | allAll xs ys zs =>
    obtain ⟨d,hd,ha⟩ := ha
    rw [ha.rule,Store.Made.rule hb]
    simp only [Rule.holds]
    exact noneFails_nested hW hd (h.mono (by simp +contextual [Law.parts])) hw
  | anyAny xs ys zs =>
    obtain ⟨d,hd,ha⟩ := ha
    rw [ha.rule,Store.Made.rule hb]
    simp only [Rule.holds]
    exact someMatches_nested hW hd (h.mono (by simp +contextual [Law.parts])) hw

end spare
end run

/-- Runs of two contracts on a value that end alike, after they have left one store behind: in a match with the one and
with the other, in a mismatch with the description of the one and of the other, or both stopped for one reason. -/
inductive SameRun (a b : Contract) (v : Value) :
    EStateM.Result Stop Store Value → EStateM.Result Stop Store Value → Prop
  | matched (z : Store) : SameRun a b v (newMatch a.value z) (newMatch b.value z)
  | mismatched (z : Store) : SameRun a b v (newMismatch a.description v z) (newMismatch b.description v z)
  | stopped (e : Stop) (z : Store) : SameRun a b v (.error e z) (.error e z)

theorem sameRun_of_holds {n : Machine} {a b : Contract} {v : Value} {w : Store} (ha : w.contract? a.value = some a)
    (hb : w.contract? b.value = some b) (h : a.rule.holds n v w = b.rule.holds n v w) :
    SameRun a b v (runOn n a.value v w) (runOn n b.value v w) := by
  rw [runOn,runOn,get_bind_apply,get_bind_apply,ha,hb]
  simp only [run]
  rw [bind_apply,bind_apply,← h]
  cases a.rule.holds n v w with
  | ok x u =>
    cases x with
    | true => exact .matched u
    | false => exact .mismatched u
  | error e u => exact .stopped e u

theorem Law.IsLeft.held {L : Law} {s : Store} {a : Contract} (h : L.IsLeft s a) : s.contract? a.value = some a := by
  cases L <;> exact h.choose_spec.2.held

theorem Law.IsRight.held {L : Law} {s : Store} {b : Contract} (h : L.IsRight s b)
    (hparts : ∀ c ∈ L.parts, s.contract? c.value = some c) : s.contract? b.value = some b := by
  cases L with
  | notNot c =>
    obtain rfl := h
    exact hparts b (by simp [Law.parts])
  | notAll | notAny => exact h.choose_spec.2.held
  | allAll | anyAny => exact Store.Made.held h

theorem Law.IsLeft.grows {L : Law} {s t : Store} {a : Contract} (h : L.IsLeft s a) (ht : s.Grows t) : L.IsLeft t a := by
  have hk := Store.Keeps.of_grows (F := .library) ht
  cases L <;> exact ⟨h.choose,h.choose_spec.1.keep hk,h.choose_spec.2.keep hk⟩

/-- Both sides of a law can be built out of contracts, and whatever tests these have, a run of the one and a run of the
other end alike and leave the same behind, as long as no test takes a contract apart.  So they make the same calls in
the same order, for the machine may as well be one that writes its calls down. -/
theorem run_of_law (L : Law) {s : Store} (h : ∀ c ∈ L.parts, s.Worded c) (m : Machine) :
    ∃ (a b : Contract) (t u : Store), L.left m s = .ok a.value t ∧ L.right m t = .ok b.value u ∧ s.Grows u ∧
      ∀ W : Store → Prop, (∀ w, W w → u.Retains w) → ∀ n v, Spare W n v L.parts → ∀ w, W w →
        SameRun a b v (n.next.call (.operation (.member .contract "run" .plain)) [a.value,v] [] w)
          (n.next.call (.operation (.member .contract "run" .plain)) [b.value,v] [] w) := by
  obtain ⟨_,t,ht,hst,a,rfl,ha⟩ := quiet_left (m := m) h
  obtain ⟨_,u,hu,htu,b,rfl,hb⟩ := quiet_right (m := m) (worded_grows h hst)
  have hsu := hst.trans htu
  have hparts : ∀ c ∈ L.parts, u.contract? c.value = some c := fun c hc => (worded_grows h hsu c hc).held.held
  have ha := ha.grows htu
  refine ⟨a,b,t,u,ht,hu,hsu,fun W hW n v hspare w hw => ?_⟩
  rw [call_run,call_run]
  exact sameRun_of_holds (hW w hw _ _ ha.held) (hW w hw _ _ (hb.held hparts))
    (Law.holds_eq hW ha hb hparts hspare hw)

/-- A function that writes a number down and gives back its argument. -/
def noting : Function :=
  ⟨"f","f",.str "m",.absent,.closure ⟨"f",[(.required "x",none)],.steps [.log (.int 1),.variable "x"],[]⟩⟩

/-- A contract that this function decides. -/
def noted : Contract := .mk 34 (.str "noted") (.test (.ref 33))

def notingStore : Store :=
  { Store.initial with heap := Store.initial.heap ++
      #[{ cls := .builtin .function, body := .function noting, attrs := some [] },
        { cls := .builtin .contract, body := .contract noted (.ref 33) none }] }

/-- One run of it writes one number down. -/
theorem outcome_noted {w : Store} (hf : w.IsFunction (.ref 33) noting) (hc : w.contract? noted.value = some noted) :
    noted.outcome Machine.halted.next (.int 5) w
      = .ok .matched { w with trace := w.trace ++ [.int 1] } := by
  have hcall : Machine.halted.next.call (.ref 33) [.int 5] [] w
      = .ok (.int 5) { w with trace := w.trace ++ [.int 1] } := by
    rw [call_function hf]
    rfl
  refine outcome_of_holds (b := true) (by rw [show Value.ref 34 = noted.value from rfl,hc]; rfl) ?_
  simp only [Rule.holds]
  rw [bind_ok hcall]
  rfl

/-- Two contracts whose test writes a number down. -/
theorem run_of_law_noted : ∃ (a b : Contract) (t u : Store),
    (Law.notAll [noted,noted]).left Machine.halted notingStore = .ok a.value t ∧
    (Law.notAll [noted,noted]).right Machine.halted t = .ok b.value u ∧
    SameRun a b (.int 5)
      (Machine.halted.next.next.call (.operation (.member .contract "run" .plain)) [a.value,.int 5] [] u)
      (Machine.halted.next.next.call (.operation (.member .contract "run" .plain)) [b.value,.int 5] [] u) := by
  have hworded : ∀ c ∈ (Law.notAll [noted,noted]).parts, notingStore.Worded c := by
    intro c hc
    obtain rfl : c = noted := by simpa [Law.parts] using hc
    exact ⟨⟨Or.inl rfl,rfl⟩,_,rfl⟩
  obtain ⟨a,b,t,u,ht,hu,hg,hrun⟩ := run_of_law (.notAll [noted,noted]) hworded Machine.halted
  have hf : u.IsFunction (.ref 33) noting := Store.IsFunction.grows (s := notingStore) ⟨rfl,rfl⟩ hg
  have hc : u.contract? noted.value = some noted :=
    ((hworded noted (by simp [Law.parts])).keep (Store.Keeps.of_grows hg)).held.held
  refine ⟨a,b,t,u,ht,hu,hrun (fun w => u.Retains w ∧ w.IsFunction (.ref 33) noting) (fun _ h => h.1)
    Machine.halted.next (.int 5) ?_ u ⟨fun _ _ h => h,hf⟩⟩
  rintro x hx w ⟨hr,hf⟩
  obtain rfl : x = noted := by simpa [Law.parts] using hx
  rw [after_ok (outcome_noted hf (hr _ _ hc))]
  exact ⟨hr,hf.cls,hf.body⟩

end Contract
end CallContracts
