import CallContracts.Proofs.Showing
/-! Records.  A record contract goes over the fields that a value shows and asks for each of them the contract of its
name.  When a value shows the same fields each time, and the contracts decide the same each time, a match means that
every field is allowed; so a conjunction of records is a record of conjunctions, fewer fields and wider shapes match as
well, and neither the order of the fields nor what carries them makes a difference. -/
namespace CallContracts
open Act

namespace Contract

/-- The contract decides about the value, and the same each time. -/
def Says (R : Store → Store → Prop) (n : Machine) (w : Store) (c : Contract) (x : Value) (b : Bool) : Prop :=
  Repeats R w (c.outcome n x) (if b then .matched else .mismatched)

/-- Whether a field is allowed, where `G` tells what the contract of a name says about a value. -/
def allows (G : String → Value → Bool) (e : Option String × Value) : Bool :=
  decide (e.2 ≠ .undefined) && e.1.any (G · e.2)

/-- The names of a shape, as keys. -/
def keyed (xs : Fields Contract) : List (Value × Contract) := xs.map fun e => (.str e.1,e.2)

/-- What `G` tells about a field is what the shape says, if it has a contract of that name. -/
def Sorts (R : Store → Store → Prop) (n : Machine) (w : Store) (xs : Fields Contract) (G : String → Value → Bool)
    (e : Option String × Value) : Prop :=
  ∀ k, e.1 = some k → match Fields.get? xs k with
    | none => G k e.2 = false
    | some c => c.Says R n w e.2 (G k e.2)

section leeway
variable {R : Store → Store → Prop} (hR : Leeway R) {n : Machine} {w z : Store} {xs : Fields Contract}
  {G : String → Value → Bool} {c d e : Contract} {k : Cursor} {name x v : Value} {t : Option String}
  {f : Option String × Value} {es : List (Option String × Value)} {whole a b : Bool} {N : Nat} {p : Display}
include hR

theorem Sorts.later (h : Sorts R n w xs G f) (hz : R w z) : Sorts R n z xs G f := by
  intro k hk
  have hc := h k hk
  split at hc
  · exact hc
  · exact Surely.later hR hc hz

/-- The names of the shape are compared in turn with that of the field. -/
theorem repeats_field {k : String} (hname : Spells R n w name (some k)) (hG : Sorts R n w xs G (some k,x)) :
    Repeats R w (fieldPasses n (keyed xs) name x) (allows G (some k,x)) := by
  induction xs with
  | nil =>
    rw [show allows G (some k,x) = false by simp [allows,show G k x = false from hG k rfl]]
    exact repeats_of_eq hR fun y _ => by simp [keyed,fieldPasses]
  | cons e xs ih =>
    obtain ⟨k',c⟩ := e
    simp only [keyed,List.map_cons,fieldPasses]
    refine (hname k').bind hR ?_
    by_cases hk : k' = k
    · subst hk
      have hc : c.Says R n w x (G k' x) := by simpa [Fields.get?] using hG k' rfl
      by_cases hx : x = .undefined
      · simpa [hx,allows] using repeats_pure hR (w := w) false
      · simp only [decide_true,if_true,hx,if_false]
        refine Repeats.bind hR hc ?_
        cases hs : G k' x <;> simpa [allows,hs,hx] using repeats_pure hR (w := w) _
    · simp only [hk,decide_false,Bool.false_eq_true,if_false]
      exact ih fun i hi => by
        obtain rfl : k = i := by simpa using hi
        simpa [Fields.get?,hk] using hG k rfl

/-- A field whose name is no text is not allowed. -/
theorem settles_field (hname : Spells R n w name t) (hG : Sorts R n w xs G (t,x)) :
    Settles R w (fieldPasses n (keyed xs) name x) (allows G (t,x)) := by
  cases t with
  | some k => exact (repeats_field hR hname hG).settles
  | none =>
    rw [show allows G (none,x) = false by simp [allows]]
    clear hG
    induction xs with
    | nil => exact (repeats_of_eq hR fun y _ => by simp [keyed,fieldPasses]).settles
    | cons e xs ih =>
      simp only [keyed,List.map_cons,fieldPasses]
      rcases hname e.1 with hno | hstop
      · exact Repeats.bindSettles hR hno ih
      · exact (Stops.bind hstop).settles

omit hR in
theorem every_field (N : Nat) (k : Cursor) (shape : List (Value × Contract)) :
    k.every n (Rule.givenPasses n shape) (N+1) = (do
      match ← k.field n with
      | none => return true
      | some (name,x,c) => if ← fieldPasses n shape name x then c.every n (Rule.givenPasses n shape) N else return false) := by
  simp only [Cursor.every,Cursor.field,bind_assoc]
  congr 1
  funext o
  cases o with
  | none => simp
  | some p => simp [Rule.givenPasses]

/-- A record goes over the fields up to one that is not allowed, if it is not stopped and does not come to the bound. -/
theorem settles_every (hk : k.Displays R n es whole w) (hG : ∀ f ∈ es, Sorts R n w xs G f) :
    Settles R w (k.every n (Rule.givenPasses n (keyed xs)) N)
      (whole && decide (es.length < N) && es.all (allows G)) := by
  induction es generalizing k w N with
  | nil =>
    cases N with
    | zero =>
      have hstop : Stops R w (k.every n (Rule.givenPasses n (keyed xs)) 0) := fun y _ => ⟨_,_,rfl⟩
      simpa using hstop.settles
    | succ N =>
      rw [every_field]
      cases whole with
      | true => simpa using (Repeats.bind hR hk (repeats_pure hR true)).settles
      | false => simpa using (Stops.bind hk).settles
  | cons f es ih =>
    obtain ⟨t,x⟩ := f
    cases N with
    | zero =>
      have hstop : Stops R w (k.every n (Rule.givenPasses n (keyed xs)) 0) := fun y _ => ⟨_,_,rfl⟩
      simpa using hstop.settles
    | succ N =>
      rw [every_field]
      refine Surely.settles hR hk ?_
      rintro _ z hz ⟨name,k',rfl,hname,hk'⟩
      have hfirst := settles_field hR hname ((hG (t,x) (by simp)).later hR hz)
      have hrest := ih (N := N) hk' fun f hf => (hG f (by simp [hf])).later hR hz
      have hboth := hfirst.and hR hrest
      rw [Bool.and_left_comm] at hboth
      simpa using hboth

/-- Over the texts and values of an iteration that takes the same steps each time, it always decides the same. -/
theorem repeats_every {fs : Fields Value} (hk : k.Steps (R w ·) n ((fieldEntries fs).map (partOf .items))) (hz : R w z)
    (hG : ∀ f ∈ fs, Sorts R n w xs G (some f.1,f.2)) (hN : fs.length < N) :
    Repeats R z (k.every n (Rule.givenPasses n (keyed xs)) N) (fs.all fun f => allows G (some f.1,f.2)) := by
  induction fs generalizing k z N with
  | nil =>
    obtain ⟨N,rfl⟩ := Nat.exists_eq_add_one_of_ne_zero (Nat.ne_of_gt hN)
    refine repeats_of_eq hR fun y hy => ?_
    rw [Cursor.every,bind_ok (hk y (hR.trans hz hy))]
    rfl
  | cons f fs ih =>
    obtain ⟨N,rfl⟩ := Nat.exists_eq_add_one_of_ne_zero (Nat.ne_of_gt (Nat.zero_lt_of_lt hN))
    obtain ⟨k',hnext,hk'⟩ := hk
    have hstep : Repeats R z (k.next n) (some (.entry (.str f.1) f.2,k')) :=
      repeats_of_eq hR fun y hy => hnext y (hR.trans hz hy)
    have hkey : Repeats R z (checkKey n (.str f.1)) () := repeats_of_eq hR fun y _ => checkKey_str n f.1 y
    have hname : Spells R n z (.str f.1) (some f.1) := fun i => repeats_of_eq hR fun y _ => sameKey_str n i y f.1
    have hfield := repeats_field hR hname ((hG f (by simp)).later hR hz)
    have hgiven : Repeats R z (Rule.givenPasses n (keyed xs) (.entry (.str f.1) f.2)) (allows G (some f.1,f.2)) := by
      simpa [Rule.givenPasses,fieldParts] using Repeats.bind hR hkey hfield
    rw [Cursor.every]
    refine hstep.bind hR (hgiven.bind hR ?_)
    cases ha : allows G (some f.1,f.2) with
    | false => simpa [ha] using repeats_pure hR (w := z) false
    | true => simpa [ha] using ih hk' hz (fun f hf => hG f (by simp [hf])) (by simpa using hN)

omit hR in
theorem holds_record (shape : List (Value × Contract)) : (Rule.record shape).holds n v = (do
    match ← ownFields n v with
    | none => return false
    | some c => c.every n (Rule.givenPasses n shape) ((← get).bound c)) := by
  rw [Rule.holds]
  rfl

/-- Whether a record matches what is shown. -/
def meets (G : String → Value → Bool) : Display → Bool
  | .other => false
  | .fields es whole => whole && es.all (allows G)

/-- The fields that are shown decide whether a record matches. -/
theorem settles_record (hv : Displays R n w v p) (hG : ∀ f ∈ p.shown, Sorts R n w xs G f) :
    Settles R w ((Rule.record (keyed xs)).holds n v) (meets G p) := by
  rw [holds_record]
  cases hv with
  | other h => exact Repeats.bindSettles hR h (repeats_pure hR false).settles
  | refused h => exact (Stops.bind h).settles
  | @fields es whole h =>
    refine Surely.settles hR h ?_
    rintro _ z hz ⟨c,rfl,hc,hbound⟩
    refine settles_get hR fun y hy => ?_
    have hevery := settles_every hR (N := y.bound c) hc fun f hf => (hG f hf).later hR hz
    simpa [meets,hbound y hy] using hevery.later hR hy
  | @endless es whole h =>
    refine Surely.settles hR h ?_
    rintro _ z hz ⟨c,rfl,hc,hbound⟩
    refine settles_get hR fun y hy => ?_
    have hevery := settles_every hR (N := y.bound c) hc fun f hf => (hG f hf).later hR hz
    simpa [meets,Nat.not_lt.mpr (hbound y hy)] using hevery.later hR hy

/-- When the language answers for the fields, the record always decides the same. -/
theorem repeats_record {fs : Fields Value} (hv : Unrolls (R w ·) n v fs)
    (hG : ∀ f ∈ fs, Sorts R n w xs G (some f.1,f.2)) :
    Repeats R w ((Rule.record (keyed xs)).holds n v) (fs.all fun f => allows G (some f.1,f.2)) := by
  obtain ⟨c,hown,hc,hbound⟩ := hv
  rw [holds_record]
  refine (repeats_of_eq hR hown).bind hR (repeats_get hR fun y hy => ?_)
  exact repeats_every hR hc hy hG (hbound y hy)

/-- A part of a conjunction that always decides the same. -/
theorem Says.next {y : Act Bool} (hc : c.Says R n w x a) (hy : Repeats R w y b) :
    Repeats R w (c.outcome n x >>= fun o => if o = .mismatched then pure false else y) (a && b) := by
  refine Repeats.bind (f := fun o => if o = Outcome.mismatched then pure false else y) hR hc ?_
  cases a with
  | false => exact repeats_pure hR false
  | true => simpa using hy

/-- The conjunction of two contracts that always decide the same does so as well. -/
theorem Says.both (hc : c.Says R n w x a) (hd : d.Says R n w x b) (he : ∀ y, R w y → y.contract? e.value = some e)
    (hr : e.rule = .all [c,d]) : e.Says R n w x (a && b) := by
  have hall : Repeats R w (noneFails n [c,d] x) (a && (b && true)) := by
    simp only [noneFails_cons,noneFails_nil]
    exact hc.next hR (hd.next hR (repeats_pure hR true))
  rw [Bool.and_true] at hall
  intro y hy
  rw [outcome_conjunction (he y hy) hr]
  exact hall.bind (f := fun o => pure (if o then Outcome.matched else .mismatched)) hR (repeats_pure hR _) y hy

/-- A part of a conjunction that is in place, by its rule. -/
theorem settles_next {y : Act Bool} (hc : ∀ y, R w y → y.contract? c.value = some c)
    (ha : Settles R w (c.rule.holds n v) a) (hy : Settles R w y b) :
    Settles R w (c.outcome n v >>= fun o => if o = .mismatched then pure false else y) (a && b) := by
  refine Settles.congr (fun y hy => ?_) (ha.and hR hy)
  rw [bind_congr_left (outcome_of_held (hc y hy)),bind_assoc]
  refine bind_congr_of fun o u _ => ?_
  cases o <;> simp

/-- A conjunction of two contracts matches where both do. -/
theorem settles_both (hc : ∀ y, R w y → y.contract? c.value = some c) (hd : ∀ y, R w y → y.contract? d.value = some d)
    (ha : Settles R w (c.rule.holds n v) a) (hb : Settles R w (d.rule.holds n v) b) (hr : e.rule = .all [c,d]) :
    Settles R w (e.rule.holds n v) (a && b) := by
  have hall := settles_next hR hc ha (settles_next hR hd hb (repeats_pure hR (w := w) true).settles)
  rw [Bool.and_true] at hall
  rw [hr,Rule.holds]
  simpa only [noneFails_cons,noneFails_nil] using hall

end leeway

/-- A run of the contract's method ends in a match. -/
def Matches (n : Machine) (c : Contract) (v : Value) (w : Store) : Prop :=
  ∃ r u, running n c v w = .ok r u ∧ u.IsMatch r c.value

/-- It ends in a mismatch. -/
def Mismatches (n : Machine) (c : Contract) (v : Value) (w : Store) : Prop :=
  ∃ r u, running n c v w = .ok r u ∧ u.IsMismatch r c.description v

section run
variable {n : Machine} {c : Contract} {v : Value} {w z : Store} (hc : w.contract? c.value = some c)
include hc

theorem matches_of_holds (h : c.rule.holds n v w = .ok true z) : Matches n c v w :=
  ⟨_,_,(running_eq n c v w).trans (run_of_matched hc h),Store.get?_alloc_self z _⟩

theorem mismatches_of_holds (h : c.rule.holds n v w = .ok false z) : Mismatches n c v w :=
  ⟨_,_,(running_eq n c v w).trans (run_of_mismatched hc h),Store.get?_alloc_self z _⟩

theorem holds_of_matches (h : Matches n c v w) : ∃ z, c.rule.holds n v w = .ok true z := by
  obtain ⟨r,u,hrun,hmatch⟩ := h
  rw [running_eq] at hrun
  cases hh : c.rule.holds n v w with
  | error e z =>
    rw [run_of_stopped hc hh] at hrun
    cases hrun
  | ok b z =>
    cases b with
    | true => exact ⟨z,rfl⟩
    | false =>
      -- a mismatch is not of the class of matches
      rw [run_of_mismatched hc hh] at hrun
      obtain ⟨rfl,rfl⟩ : Value.ref z.heap.size = r ∧ _ = u := by simpa [newMismatch] using hrun
      have hself := (Store.get?_alloc_self z _).symm.trans hmatch
      simp at hself

end run

/-- Where it is settled whether the rule holds, it is settled whether there is a match. -/
theorem matches_iff {R : Store → Store → Prop} {n : Machine} {c : Contract} {v : Value} {w y : Store} {b : Bool}
    (hc : ∀ y, R w y → y.contract? c.value = some c) (h : Settles R w (c.rule.holds n v) b) (hy : R w y) :
    Matches n c v y ↔ b = true := by
  constructor
  · intro hm
    obtain ⟨z,hz⟩ := holds_of_matches (hc y hy) hm
    cases b with
    | true => rfl
    | false => exact absurd hz (h y hy z)
  · rintro rfl
    obtain ⟨_,z,hz,-,rfl⟩ := h y hy
    exact matches_of_holds (hc y hy) hz

/-- The contracts of a shape as values. -/
def valued (xs : Fields Contract) : Fields Value := xs.map fun e => (e.1,e.2.value)

/-- Contracts of both shapes, by the names that both have. -/
def common (xs ys : Fields Contract) : Fields (Contract × Contract) :=
  xs.filterMap fun e => (Fields.get? ys e.1).map fun d => (e.1,e.2,d)

/-- A record contract for the names that both shapes have, with the conjunction of both contracts under each. -/
def recordOfBoth (m : Machine) (xs ys : Fields Contract) : Act Value := do
  let fs ← each (fun e => do return (e.1,← all m [e.2.1.value,e.2.2.value])) (common xs ys)
  record m (← newNamed fs)

section build
variable {m : Machine} {s t : Store} {xs ys zs : Fields Contract} {d : Ref}

theorem recordParts_runs {c : Cursor} {N : Nat} (acc : List String) (h : ∀ e ∈ xs, s.Worded e.2)
    (hc : c.Runs m.next s ((fieldEntries (valued xs)).map (partOf .items))) (hN : xs.length < N) :
    ∃ parts, recordParts m.next acc N c s = .ok parts s := by
  induction xs generalizing c N acc with
  | nil =>
    obtain ⟨N,rfl⟩ := Nat.exists_eq_add_one_of_ne_zero (Nat.ne_of_gt hN)
    exact ⟨acc,by rw [recordParts,bind_ok hc]; rfl⟩
  | cons e xs ih =>
    obtain ⟨N,rfl⟩ := Nat.exists_eq_add_one_of_ne_zero (Nat.ne_of_gt (Nat.zero_lt_of_lt hN))
    obtain ⟨c',hnext,hc'⟩ := hc
    obtain ⟨x,hx⟩ := (h e (by simp)).text
    have hread := (h e (by simp)).held.read_description (M := m)
    obtain ⟨parts,hparts⟩ := ih (acc ++ [e.1 ++ ": " ++ x]) (fun e he => h e (by simp [he])) hc' (by simpa using hN)
    refine ⟨parts,?_⟩
    rw [recordParts,bind_ok hnext]
    simp only [partOf,fieldParts,pure_bind]
    rw [bind_ok (formatted_str _ e.1 s),bind_ok hread,hx,bind_ok (formatted_str _ x s)]
    exact hparts

/-- A shape is described by a text, at once. -/
theorem describeRecord_map (hd : s.IsDict .dict (.ref d) (valued xs)) (h : ∀ e ∈ xs, s.Worded e.2)
    (hn : (Fields.keys xs).Nodup) :
    ∃ x, describeRecord m.next (.ref d) s = .ok (.str x) s := by
  have hkeys : (Fields.keys (valued xs)).Nodup := by simpa [valued,Fields.keys,Function.comp_def] using hn
  rw [describeRecord,bind_ok (truth_table ⟨hd.cls,hd.body⟩)]
  cases hb : decide (fieldEntries (valued xs) ≠ []) with
  | false => exact ⟨_,rfl⟩
  | true =>
    obtain ⟨c,hc,hruns,hbound⟩ := itemsOf_native (m := m.next) (hd.maps hkeys)
    obtain ⟨parts,hparts⟩ := recordParts_runs [] h hruns (by simpa [fieldEntries,valued] using hbound)
    simp only [Bool.not_true,Bool.false_eq_true,if_false]
    rw [bind_ok hc,get_bind_apply,bind_ok hparts]
    exact ⟨_,rfl⟩

/-- A new table of a shape. -/
theorem isDict_new {r : Ref} {fs : Fields Value}
    (hr : s.get? r = some { cls := .builtin .dict, body := .table (fieldEntries fs) }) (ht : s.Grows t) :
    t.IsDict .dict (.ref r) fs := by
  have htable : s.IsTable r (fieldEntries fs) := ⟨Store.classOf_of_get? hr,Store.body?_of_get? hr⟩
  have hbare : t.attr? (.ref r) "items" = s.attr? (.ref r) "items" := ht.attr? hr trivial rfl (by decide)
  exact ⟨(htable.grows ht).cls,(htable.grows ht).body,hbare.trans ((Store.attr?_of_get? hr rfl).trans rfl)⟩

/-- A plain table is copied as it is. -/
theorem entriesOf_map {v : Value} {fs : Fields Value} (h : s.IsDict .dict v fs) :
    entriesOf m v s = .ok (fieldEntries fs) s := by
  have hA : s.isA v .dict = true := by
    rw [Store.isA_builtin h.cls]
    decide
  simp [entriesOf,h.body,Store.copiesEntries,hA,h.cls,h.entries]

/-- A record contract can be made for every shape whose contracts are described by texts. -/
theorem quiet_record {v : Value} (h : ∀ e ∈ xs, s.Worded e.2) (hn : (Fields.keys xs).Nodup)
    (hv : (entriesOf m.next v).Gives (fieldEntries (valued xs)) s) :
    (record m.next v).Quiet (fun v t => ∃ c : Contract, v = c.value ∧ t.Made c (.record (keyed xs))) s := by
  refine Gives.bindQuiet hv fun t hst => Quiet.bind (quiet_alloc _ t) ?_
  rintro _ u htu ⟨rfl,hu⟩
  have hworded : ∀ e ∈ xs, u.Worded e.2 := fun e he => (h e he).keep (Store.Keeps.of_grows (hst.trans htu))
  have hcs : ∀ c ∈ xs.map Prod.snd, u.Worded c := by
    intro c hc
    obtain ⟨e,he,rfl⟩ := List.mem_map.mp hc
    exact hworded e he
  have hvalues : (fieldEntries (valued xs)).map Prod.snd = (xs.map Prod.snd).map value := by simp [fieldEntries,valued]
  have hshape : (fieldEntries (valued xs)).zipWith (fun e c => (e.1,c)) (xs.map Prod.snd) = keyed xs := by
    simp [fieldEntries,valued,keyed,List.zipWith_map]
  rw [hvalues]
  refine Gives.bindQuiet (gives_allWorded hcs) fun z huz => ?_
  have hdict : z.IsDict .dict _ (valued xs) := isDict_new hu huz
  obtain ⟨x,hx⟩ := describeRecord_map (m := m) hdict
    (fun e he => (hworded e he).keep (Store.Keeps.of_grows huz)) hn
  rw [hshape]
  exact Gives.bindQuiet (gives_of_eq hx) fun a _ => quiet_made x (.record (keyed xs))

/-- Conjunctions of pairs of contracts, under the same names. -/
def Both (s : Store) (es : Fields (Contract × Contract)) (zs : Fields Contract) : Prop :=
  List.Forall₂ (fun e z => z.1 = e.1 ∧ s.Made z.2 (.all [e.2.1,e.2.2])) es zs

theorem Both.grows {es : Fields (Contract × Contract)} (h : Both s es zs) (ht : s.Grows t) : Both t es zs :=
  h.imp fun _ _ hz => ⟨hz.1,hz.2.keep (Store.Keeps.of_grows ht)⟩

theorem quiet_conjunctions {es : Fields (Contract × Contract)} (h : ∀ e ∈ es, s.Worded e.2.1 ∧ s.Worded e.2.2) :
    (each (fun e => do return (e.1,← all m [e.2.1.value,e.2.2.value])) es).Quiet
      (fun fs t => ∃ zs : Fields Contract, fs = valued zs ∧ Both t es zs) s := by
  induction es generalizing s with
  | nil => exact quiet_pure ⟨[],rfl,.nil⟩
  | cons e es ih =>
    have hpair : ∀ c ∈ [e.2.1,e.2.2], s.Worded c := by simpa using h e (by simp)
    rw [each,bind_assoc]
    refine Quiet.bind (made_all hpair) ?_
    rintro _ t ht ⟨z,rfl,hz⟩
    rw [pure_bind]
    refine Quiet.bind (ih fun e' he' => ?_) ?_
    · obtain ⟨h₁,h₂⟩ := h e' (by simp [he'])
      exact ⟨h₁.keep (Store.Keeps.of_grows ht),h₂.keep (Store.Keeps.of_grows ht)⟩
    · rintro _ u hu ⟨zs,rfl,hzs⟩
      exact quiet_pure ⟨(e.1,z) :: zs,rfl,.cons ⟨rfl,hz.keep (Store.Keeps.of_grows hu)⟩ hzs⟩

theorem Both.get? {es : Fields (Contract × Contract)} (h : Both s es zs) (k : String) :
    match Fields.get? es k with
    | none => Fields.get? zs k = none
    | some e => ∃ z, Fields.get? zs k = some z ∧ s.Made z (.all [e.1,e.2]) := by
  induction h with
  | nil => rfl
  | @cons e z es zs hz _ ih =>
    obtain ⟨k',c,d⟩ := e
    obtain ⟨k'',z⟩ := z
    obtain ⟨rfl,hz⟩ := hz
    by_cases hk : k'' = k
    · simpa [Fields.get?,hk] using hz
    · simpa [Fields.get?,hk] using ih

theorem Both.keys {es : Fields (Contract × Contract)} (h : Both s es zs) : Fields.keys zs = Fields.keys es := by
  induction h with
  | nil => rfl
  | cons hz _ ih => simpa [Fields.keys,hz.1] using ih

theorem get?_common (xs ys : Fields Contract) (k : String) : Fields.get? (common xs ys) k =
    (Fields.get? xs k).bind fun c => (Fields.get? ys k).map fun d => (c,d) := by
  induction xs with
  | nil => rfl
  | cons e xs ih =>
    obtain ⟨k',c⟩ := e
    rw [common] at ih ⊢
    cases hy : Fields.get? ys k' with
    | none =>
      by_cases hk : k' = k
      · subst hk
        simp [hy,ih,Fields.get?]
      · simp [hy,ih,Fields.get?,hk]
    | some d =>
      by_cases hk : k' = k
      · subst hk
        simp [hy,Fields.get?]
      · simp [hy,ih,Fields.get?,hk]

theorem mem_common {e : String × Contract × Contract} (h : e ∈ common xs ys) :
    (e.1,e.2.1) ∈ xs ∧ (e.1,e.2.2) ∈ ys := by
  obtain ⟨x,hx,he⟩ := List.mem_filterMap.mp h
  obtain ⟨d,hd,rfl⟩ := Option.map_eq_some_iff.mp he
  exact ⟨hx,Fields.mem_of_get? hd⟩

theorem keys_common (xs ys : Fields Contract) : (Fields.keys (common xs ys)).Sublist (Fields.keys xs) := by
  induction xs with
  | nil => exact List.Sublist.refl _
  | cons e xs ih =>
    rw [common] at ih ⊢
    cases hy : Fields.get? ys e.1 with
    | none => simpa [hy,Fields.keys] using ih.cons e.1
    | some d => simpa [hy,Fields.keys] using ih

/-- The record of conjunctions can be made. -/
theorem quiet_recordOfBoth (hxs : ∀ e ∈ xs, s.Worded e.2) (hys : ∀ e ∈ ys, s.Worded e.2)
    (hn : (Fields.keys xs).Nodup) : (recordOfBoth m.next xs ys).Quiet (fun v t => ∃ (b : Contract) (zs : Fields Contract),
      v = b.value ∧ t.Made b (.record (keyed zs)) ∧ Both t (common xs ys) zs) s := by
  have hpairs : ∀ e ∈ common xs ys, s.Worded e.2.1 ∧ s.Worded e.2.2 := fun e he =>
    ⟨hxs _ (mem_common he).1,hys _ (mem_common he).2⟩
  refine Quiet.bind (quiet_conjunctions hpairs) ?_
  rintro _ t ht ⟨zs,rfl,hzs⟩
  have hworded : ∀ e ∈ zs, t.Worded e.2 := by
    intro e he
    obtain ⟨_,-,-,hmade⟩ := exists_of_mem_right hzs he
    exact hmade.worded
  have hkeys : (Fields.keys zs).Nodup := by
    rw [hzs.keys]
    exact hn.sublist (keys_common xs ys)
  refine Quiet.bind (quiet_alloc _ t) ?_
  rintro _ u hu ⟨rfl,ho⟩
  have hdict : u.IsDict .dict _ (valued zs) := isDict_new ho (Store.Keeps.refl _ u)
  refine (quiet_record (fun e he => (hworded e he).keep (Store.Keeps.of_grows hu)) hkeys
    (gives_of_eq (entriesOf_map hdict))).imp ?_
  rintro _ w hw ⟨b,rfl,hb⟩
  exact ⟨b,zs,rfl,hb,hzs.grows (hu.trans hw)⟩

/-- The records of two shapes, their conjunction, and the record of conjunctions. -/
def fourOf (m : Machine) (p q : Value) (xs ys : Fields Contract) : Act (List Value) := do
  let x ← record m p
  let y ← record m q
  let a ← all m [x,y]
  let b ← recordOfBoth m xs ys
  return [x,y,a,b]

/-- What these four are. -/
structure Four (s : Store) (xs ys : Fields Contract) (x y a b : Contract) : Prop where
  left : s.Made x (.record (keyed xs))
  right : s.Made y (.record (keyed ys))
  conjunction : s.Made a (.all [x,y])
  both : ∃ zs, s.Made b (.record (keyed zs)) ∧ Both s (common xs ys) zs

theorem quiet_fourOf (hxs : ∀ e ∈ xs, s.Worded e.2) (hys : ∀ e ∈ ys, s.Worded e.2) (hnx : (Fields.keys xs).Nodup)
    (hny : (Fields.keys ys).Nodup) {p q : Value} (hp : Always (s.Grows ·) (entriesOf m.next p) (fieldEntries (valued xs)))
    (hq : Always (s.Grows ·) (entriesOf m.next q) (fieldEntries (valued ys))) : (fourOf m.next p q xs ys).Quiet
      (fun vs t => ∃ x y a b : Contract, vs = [x,y,a,b].map value ∧ Four t xs ys x y a b) s := by
  have grown {fs : Fields Contract} {t : Store} (h : ∀ e ∈ fs, s.Worded e.2) (ht : s.Grows t) : ∀ e ∈ fs, t.Worded e.2 :=
    fun e he => (h e he).keep (Store.Keeps.of_grows ht)
  refine Quiet.bind (quiet_record hxs hnx (hp s (Store.Keeps.refl _ s))) ?_
  rintro _ t ht ⟨x,rfl,hx⟩
  refine Quiet.bind (quiet_record (grown hys ht) hny (hq t ht)) ?_
  rintro _ u hu ⟨y,rfl,hy⟩
  replace hx := hx.keep (Store.Keeps.of_grows hu)
  have hpair : ∀ c ∈ [x,y], u.Worded c := by simp [hx.worded,hy.worded]
  refine Quiet.bind (made_all hpair) ?_
  rintro _ w hw ⟨a,rfl,ha⟩
  have hsw := (ht.trans hu).trans hw
  refine Quiet.bind (quiet_recordOfBoth (grown hxs hsw) (grown hys hsw) hnx) ?_
  rintro _ z hz ⟨b,zs,rfl,hb,hzs⟩
  have hk := Store.Keeps.of_grows (F := .library) hz
  have hk' := Store.Keeps.of_grows (F := .library) (hw.trans hz)
  exact quiet_pure ⟨x,y,a,b,rfl,hx.keep hk',hy.keep hk',ha.keep hk,zs,hb,hzs⟩

end build

/-- The contract always decides the same about the value. -/
def Constant (R : Store → Store → Prop) (n : Machine) (w : Store) (c : Contract) (x : Value) : Prop :=
  ∃ b, c.Says R n w x b

/-- What runs of the records `x` and `y` of two shapes, of their conjunction `a` and of the record `b` of conjunctions
have in common from a store on, about values that show the same fields each time, where the contracts always decide the
same about the values of the fields.  The conjunction matches just what the record of conjunctions does.  A record that
matches matches fewer fields as well, and so does a record of a wider shape.  What carries the fields, and in which
order, does not count. -/
structure Accord (R : Store → Store → Prop) (n : Machine) (w : Store) (xs ys : Fields Contract) (x y a b : Contract) :
    Prop where
  conjunction : ∀ v p, Displays R n w v p → (∀ e ∈ p.shown, ∀ f ∈ xs ++ ys, f.2.Constant R n w e.2) →
    ∀ w₁ w₂, R w w₁ → R w w₂ → (Matches n a v w₁ ↔ Matches n b v w₂)
  fewer : ∀ v v' es es' whole, Displays R n w v (.fields es whole) → Displays R n w v' (.fields es' true) → es' ⊆ es →
    (∀ e ∈ es, ∀ f ∈ xs, f.2.Constant R n w e.2) → ∀ w₁ w₂, R w w₁ → R w w₂ → Matches n x v w₁ → Matches n x v' w₂
  wider : (∀ k c, Fields.get? xs k = some c → Fields.get? ys k = some c) →
    ∀ v p, Displays R n w v p → (∀ e ∈ p.shown, ∀ f ∈ xs, f.2.Constant R n w e.2) →
    ∀ w₁ w₂, R w w₁ → R w w₂ → Matches n x v w₁ → Matches n y v w₂
  carriers : ∀ v v' fs fs', Bears (R w ·) fs v → Bears (R w ·) fs' v' → fs.Perm fs' → (Fields.keys fs).Nodup →
    (∀ e ∈ fs, ∀ f ∈ xs, f.2.Constant R n w e.2) → ∀ w₁ w₂, R w w₁ → R w w₂ →
    Matches n x v w₁ ∧ Matches n x v' w₂ ∨ Mismatches n x v w₁ ∧ Mismatches n x v' w₂

/-- What a shape says by name, when `J` tells what its contracts say. -/
def tells (J : Contract → Value → Bool) (xs : Fields Contract) (k : String) (x : Value) : Bool :=
  (Fields.get? xs k).any (J · x)

section agree
variable {R : Store → Store → Prop} (hR : Leeway R) {n : Machine} {u w : Store} {xs ys zs : Fields Contract}
  {x y a b : Contract} {J : Contract → Value → Bool} {G H : String → Value → Bool} {e : Option String × Value}
  {p : Display}

theorem exists_judge (R : Store → Store → Prop) (n : Machine) (w : Store) :
    ∃ J : Contract → Value → Bool, ∀ (c : Contract) x, c.Constant R n w x → c.Says R n w x (J c x) := by
  have h : ∀ (c : Contract) (x : Value), ∃ b, c.Constant R n w x → c.Says R n w x b := fun c x => by
    by_cases hc : c.Constant R n w x
    · obtain ⟨b,hb⟩ := hc
      exact ⟨b,fun _ => hb⟩
    · exact ⟨true,fun h => absurd h hc⟩
  choose J hJ using h
  exact ⟨J,hJ⟩

theorem sorts_tells (hJ : ∀ (c : Contract) x, c.Constant R n w x → c.Says R n w x (J c x))
    (h : ∀ f ∈ xs, f.2.Constant R n w e.2) : Sorts R n w xs (tells J xs) e := by
  intro k _
  cases hk : Fields.get? xs k with
  | none => simp [tells,hk]
  | some c => simpa [tells,hk] using hJ c e.2 (h _ (Fields.mem_of_get? hk))

theorem allows_and (e : Option String × Value) :
    allows (fun k x => G k x && H k x) e = (allows G e && allows H e) := by
  obtain ⟨_ | k,x⟩ := e
  · simp [allows]
  · cases decide (x ≠ .undefined) <;> cases hG : G k x <;> simp_all [allows]

theorem meets_and (p : Display) : meets (fun k x => G k x && H k x) p = (meets G p && meets H p) := by
  cases p with
  | other => rfl
  | fields es whole =>
    have hall : es.all (allows fun k x => G k x && H k x) = (es.all (allows G) && es.all (allows H)) := by
      induction es with
      | nil => rfl
      | cons e es ih =>
        simp only [List.all_cons,ih,allows_and]
        cases allows G e <;> cases allows H e <;> simp
    simp only [meets,hall]
    cases whole <;> simp

include hR

theorem held_later {c : Contract} {t : Rule} (hc : u.Made c t) (hw : u.Retains w) :
    ∀ y, R w y → y.contract? c.value = some c := fun _ hy =>
  hR.retains hy _ _ (hw _ _ hc.held)

/-- The record of conjunctions says of a field what both shapes say. -/
theorem Both.sorts (h : Both u (common xs ys) zs) (hw : u.Retains w) (hG : Sorts R n w xs G e)
    (hH : Sorts R n w ys H e) : Sorts R n w zs (fun k x => G k x && H k x) e := by
  intro k hk
  have hz := h.get? k
  rw [get?_common] at hz
  replace hG := hG k hk
  replace hH := hH k hk
  cases hx : Fields.get? xs k with
  | none =>
    rw [hx] at hz hG
    simp only at hG
    simp only [Option.bind_none] at hz
    simp [hz,hG]
  | some c =>
    cases hy : Fields.get? ys k with
    | none =>
      rw [hx,hy] at hz
      rw [hy] at hH
      simp only at hH
      simp only [Option.bind_some,Option.map_none] at hz
      simp [hz,hH]
    | some d =>
      rw [hx,hy] at hz
      rw [hx] at hG
      rw [hy] at hH
      obtain ⟨z,hz,hmade⟩ := hz
      rw [hz]
      exact hG.both hR hH (held_later hR hmade hw) hmade.rule

/-- A record that is in place matches just when the fields that are shown are allowed. -/
theorem matches_record (hx : u.Made x (.record (keyed xs))) (hw : u.Retains w) {v : Value}
    (hv : Displays R n w v p) (hG : ∀ e ∈ p.shown, Sorts R n w xs G e) {y : Store} (hy : R w y) :
    Matches n x v y ↔ meets G p = true :=
  matches_iff (held_later hR hx hw) (hx.rule ▸ settles_record hR hv hG) hy

theorem Four.accord (h : Four u xs ys x y a b) (hw : u.Retains w) : Accord R n w xs ys x y a b := by
  obtain ⟨J,hJ⟩ := exists_judge R n w
  refine ⟨fun v p hv hp w₁ w₂ h₁ h₂ => ?_,fun v v' es es' whole hv hv' hes hp w₁ w₂ h₁ h₂ hm => ?_,
    fun hwider v p hv hp w₁ w₂ h₁ h₂ hm => ?_,fun v v' fs fs' hv hv' hperm hn hp w₁ w₂ h₁ h₂ => ?_⟩
  · have hG : ∀ e ∈ p.shown, Sorts R n w xs (tells J xs) e := fun e he =>
      sorts_tells hJ fun f hf => hp e he f (by simp [hf])
    have hH : ∀ e ∈ p.shown, Sorts R n w ys (tells J ys) e := fun e he =>
      sorts_tells hJ fun f hf => hp e he f (by simp [hf])
    obtain ⟨zs,hb,hzs⟩ := h.both
    have hsettles := settles_both hR (held_later hR h.left hw) (held_later hR h.right hw)
      (h.left.rule ▸ settles_record hR hv hG) (h.right.rule ▸ settles_record hR hv hH) h.conjunction.rule
    rw [matches_iff (held_later hR h.conjunction hw) hsettles h₁,
      matches_record hR hb hw hv (fun e he => hzs.sorts hR hw (hG e he) (hH e he)) h₂,meets_and]
  · have hG : ∀ e ∈ es, Sorts R n w xs (tells J xs) e := fun e he => sorts_tells hJ (hp e he)
    rw [matches_record hR h.left hw hv hG h₁] at hm
    rw [matches_record hR h.left hw hv' (fun e he => hG e (hes he)) h₂]
    simp only [meets,Bool.and_eq_true,List.all_eq_true] at hm ⊢
    exact ⟨trivial,fun e he => hm.2 e (hes he)⟩
  · have hG : ∀ e ∈ p.shown, Sorts R n w xs (tells J xs) e := fun e he => sorts_tells hJ (hp e he)
    rw [matches_record hR h.left hw hv hG h₁] at hm
    refine (matches_record hR h.right hw hv (fun e he => ?_) h₂).mpr hm
    -- a field that is allowed has a contract, and the wider shape has the same one
    intro k hk
    have hallowed : allows (tells J xs) e = true := by
      cases p with
      | other => cases he
      | fields es whole =>
        simp only [meets,Bool.and_eq_true,List.all_eq_true] at hm
        exact hm.2 e he
    have hsays := hG e he k hk
    cases hx : Fields.get? xs k with
    | none => simp [allows,hk,tells,hx] at hallowed
    | some c =>
      rw [hx] at hsays
      rw [hwider k c hx]
      exact hsays
  · have hn' : (Fields.keys fs').Nodup := (hperm.map Prod.fst).nodup_iff.mp hn
    have hG : ∀ f ∈ fs, Sorts R n w xs (tells J xs) (some f.1,f.2) := fun f hf => sorts_tells hJ (hp f hf)
    obtain ⟨ok,z,hz,-,hok⟩ := repeats_record hR (hv.unrolls hn n) hG w₁ h₁
    obtain ⟨ok',z',hz',-,hok'⟩ := repeats_record hR (hv'.unrolls hn' n) (fun f hf => hG f (hperm.mem_iff.mpr hf)) w₂ h₂
    obtain rfl : ok = ok' := by rw [hok,hok',hperm.all_eq]
    have hheld := held_later hR h.left hw
    rw [← h.left.rule] at hz hz'
    cases ok with
    | true => exact .inl ⟨matches_of_holds (hheld w₁ h₁) hz,matches_of_holds (hheld w₂ h₂) hz'⟩
    | false => exact .inr ⟨mismatches_of_holds (hheld w₁ h₁) hz,mismatches_of_holds (hheld w₂ h₂) hz'⟩

end agree

/-- For shapes of contracts that are described by texts, the records, their conjunction and the record of conjunctions
can be made, and from then on they agree. -/
theorem run_of_shapes {s : Store} {xs ys : Fields Contract} {p q : Value} {m : Machine} (hxs : ∀ e ∈ xs, s.Worded e.2)
    (hys : ∀ e ∈ ys, s.Worded e.2) (hnx : (Fields.keys xs).Nodup) (hny : (Fields.keys ys).Nodup)
    (hp : Always (s.Grows ·) (entriesOf m.next p) (fieldEntries (valued xs)))
    (hq : Always (s.Grows ·) (entriesOf m.next q) (fieldEntries (valued ys))) :
    ∃ (x y a b : Contract) (u : Store), fourOf m.next p q xs ys s = .ok ([x,y,a,b].map value) u ∧ s.Grows u ∧
      ∀ R, Leeway R → ∀ n w, u.Retains w → Accord R n w xs ys x y a b := by
  obtain ⟨_,u,hu,hg,x,y,a,b,rfl,hfour⟩ := quiet_fourOf hxs hys hnx hny hp hq
  exact ⟨x,y,a,b,u,hu,hg,fun R hR n w hw => hfour.accord hR hw⟩

/-- Growth leaves contracts in place. -/
theorem leeway_grows : Leeway Store.Grows := by
  refine ⟨Store.Keeps.refl _,fun h h' => h.trans h',fun h r c hc => ?_⟩
  obtain ⟨test,p,hb⟩ := Store.body_of_contract? hc
  rw [h.contract? (Store.holds_all_of_body hb),hc]

/-- Two shapes, a table of one field, a namespace of the same field, and an empty table. -/
def shapeStore : Store :=
  { Store.initial with heap := Store.initial.heap ++
      #[{ cls := .builtin .dict, body := .table (fieldEntries (valued [("a",number)])) },
        { cls := .builtin .dict, body := .table (fieldEntries (valued [("a",number),("b",number)])) },
        { cls := .builtin .dict, body := .table (fieldEntries [("a",.int 5)]) },
        { cls := .builtin .attributeBag, body := .plain, attrs := some [("a",.int 5)] },
        { cls := .builtin .dict, body := .table (fieldEntries []) }] }

theorem namespace_grows {s t : Store} {r : Ref} {fs : Fields Value} (ht : s.Grows t)
    (hr : s.get? r = some { cls := .builtin .attributeBag, body := .plain, attrs := some fs }) :
    t.classOf (.ref r) = .builtin .attributeBag ∧ t.body? (.ref r) = some .plain ∧ t.attrs? (.ref r) = some fs := by
  obtain ⟨o,ho,hk⟩ := ht.kept r _ hr trivial
  have hattrs : o.attrs = some fs := (hk.same rfl rfl).1
  refine ⟨(Store.classOf_of_get? ho).trans hk.cls,(Store.body?_of_get? ho).trans (by rw [hk.body]),?_⟩
  simp [Store.attrs?,Store.obj?,ho,Store.attrsOf,hk.table,hattrs]

theorem outcome_number {n : Machine} {s : Store} (h : s.contract? number.value = some number) (i : Int) :
    number.outcome n (.int i) s = .ok .matched s := by
  have hclass : s.classOf (.int i) = .builtin .int := rfl
  have hkind : kindOf n (.int i) s = .ok .number s := by
    have hbool : isKind n (.int i) .bool s = .ok false s := isKind_builtin hclass (by decide)
    have hnumber : isKind n (.int i) .number s = .ok true s := isKind_builtin hclass (by decide)
    simp [kindOf,bind_apply,hbool,hnumber]
  refine outcome_of_holds (b := true) (by rw [show Value.ref 3 = number.value from rfl,h]; rfl) ?_
  simp only [Rule.holds,reduceCtorEq,if_false]
  rw [bind_ok hkind]
  rfl

theorem run_of_shapes_numbers : ∃ (x y a b : Contract) (u : Store),
    fourOf Machine.halted.next (.ref 33) (.ref 34) [("a",number)] [("a",number),("b",number)] shapeStore
      = .ok ([x,y,a,b].map value) u ∧
    (Matches Machine.halted a (.ref 35) u ↔ Matches Machine.halted b (.ref 35) u) ∧
    (Matches Machine.halted x (.ref 35) u → Matches Machine.halted x (.ref 37) u ∧ Matches Machine.halted y (.ref 35) u) ∧
    (Matches Machine.halted x (.ref 35) u ∧ Matches Machine.halted x (.ref 36) u ∨
      Mismatches Machine.halted x (.ref 35) u ∧ Mismatches Machine.halted x (.ref 36) u) := by
  have hnumber : shapeStore.Worded number := ⟨⟨Or.inl rfl,rfl⟩,_,rfl⟩
  obtain ⟨x,y,a,b,u,hu,hg,hagree⟩ := run_of_shapes (s := shapeStore) (p := .ref 33) (q := .ref 34)
    (m := Machine.halted) (show ∀ e ∈ [("a",number)], shapeStore.Worded e.2 by simpa using hnumber)
    (show ∀ e ∈ [("a",number),("b",number)], shapeStore.Worded e.2 by simpa using hnumber) (by decide) (by decide)
    (fun t ht => gives_of_eq (entriesOf_map (isDict_new rfl ht)))
    (fun t ht => gives_of_eq (entriesOf_map (isDict_new rfl ht)))
  have hself := Store.Keeps.refl .all u
  obtain ⟨hconjunction,hfewer,hwider,hcarriers⟩ := hagree Store.Grows leeway_grows Machine.halted u
    (leeway_grows.retains hself)
  have htable : Bears (u.Grows ·) [("a",.int 5)] (.ref 35) := .dict fun t ht => isDict_new (s := shapeStore) rfl (hg.trans ht)
  have hempty : Bears (u.Grows ·) [] (.ref 37) := .dict fun t ht => isDict_new (s := shapeStore) rfl (hg.trans ht)
  have hbag : Bears (u.Grows ·) [("a",.int 5)] (.ref 36) :=
    .simpleNamespace fun t ht => namespace_grows (s := shapeStore) (hg.trans ht) rfl
  have hsays : number.Constant Store.Grows Machine.halted u (.int 5) := by
    refine ⟨true,repeats_of_eq leeway_grows fun t ht => outcome_number ?_ 5⟩
    exact (hnumber.keep (Store.Keeps.of_grows (hg.trans ht))).held.held
  have hdisplay := (htable.unrolls (by decide) Machine.halted).displays leeway_grows
  have hdisplay' := (hempty.unrolls (by decide) Machine.halted).displays leeway_grows
  refine ⟨x,y,a,b,u,hu,hconjunction _ _ hdisplay ?_ u u hself hself,fun hm => ⟨hfewer _ _ _ _ _ hdisplay hdisplay'
    (by simp) ?_ u u hself hself hm,hwider ?_ _ _ hdisplay ?_ u u hself hself hm⟩,
    hcarriers _ _ _ _ htable hbag (List.Perm.refl _) (by decide) ?_ u u hself hself⟩
  · simpa [Display.shown] using hsays
  · simpa using hsays
  · intro k c hk
    obtain ⟨rfl,rfl⟩ : "a" = k ∧ number = c := by simpa [Fields.get?] using hk
    rfl
  · simpa [Display.shown] using hsays
  · simpa using hsays

/-- A table whose class says that it has no items, and then that it has one. -/
def fickle : Act Value := do
  let c ← (Expr.classDef "M" [("items",.function "items" [.required "self"] []
    (.ifThenElse (.operator .hasAttribute [.variable "self",.str "seen"])
      (.sequence .list [.sequence .list [.str "x",.int 1]])
      (.steps [.setAttribute (.variable "self") "seen" (.bool true),.sequence .list []])) none)]
    [.builtinClass "dict"]).eval Machine.full []
  (Expr.call (.variable "M") [] none [] none).eval Machine.full [("M",c)]

/-- The four contracts for empty shapes, and whether one of them matches it. -/
def meetsFickle (i : Nat) : Act Bool := do
  let v ← fickle
  let p ← newTable []
  let cs ← fourOf Machine.full p p [] []
  let r ← runOn Machine.full (cs.getD i .absent) v
  isKind Machine.full r .matched

/-- The conjunction of two empty records asks it twice, the record of no conjunctions asks it once. -/
theorem runs_fickle : returned (meetsFickle 2) Store.initial = some false ∧
    returned (meetsFickle 3) Store.initial = some true := by decide +kernel

end Contract
end CallContracts
