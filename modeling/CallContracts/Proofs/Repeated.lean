import CallContracts.Proofs.Connectives
/-! Arrays against products.  A contract for arrays goes over the items of a list or tuple, a product over contracts
and items side by side.  With one contract repeated as often as there are items, both ask the same tests in the same
order and end alike; of what is no list and no tuple neither asks any test. -/
namespace CallContracts
open Act

/-- A list or tuple of these items, whose class leaves it to the language how many there are and which. -/
structure Store.Row (s : Store) (v : Value) (xs : List Value) : Prop where
  leaves : s.overrides (s.classOf v) ["__iter__","__len__"] = false
  body : s.body? v = some (.list xs) ∨ s.body? v = some (.tuple xs)

section row
variable {m : Machine} {s : Store} {v : Value} {xs : List Value} {W : Store → Prop}

theorem Store.Row.lengthOf (h : s.Row v xs) : lengthOf m v s = .ok xs.length s := by
  have hlen := override?_of_overrides h.leaves (n := "__len__") (by simp)
  obtain ⟨r,rfl⟩ : ∃ r, v = .ref r := by rcases h.body with hb | hb <;> exact Store.ref_of_body hb
  rcases h.body with hb | hb
  all_goals
    have ht : s.text? (.ref r) = none := Store.text?_of_body hb (by simp)
    simp [CallContracts.lengthOf,hlen,Store.nativeLength?,ht,hb]

/-- As long as it stays the same row, its items are gone over one by one, within the bound. -/
theorem Store.Row.cursorOf (hW : ∀ w, W w → w.Row v xs) (hs : W s) :
    ∃ c, cursorOf m v s = .ok c s ∧ c.Steps W m (xs.map .value) ∧ xs.length < s.bound c := by
  obtain ⟨hleaves,hbody⟩ := hW s hs
  have hiter := override?_of_overrides hleaves (n := "__iter__") (by simp)
  obtain ⟨r,rfl⟩ : ∃ r, v = .ref r := by rcases hbody with hb | hb <;> exact Store.ref_of_body hb
  have hitems : ∀ w, W w → w.items? (.ref r) = some xs := fun w hw => by
    rcases (hW w hw).body with hb | hb <;> simp [Store.items?,hb]
  rcases hbody with hb | hb
  · have hp : s.pieces? (.ref r) = none := Store.pieces?_of_body hb (by simp) (by simp)
    refine ⟨.list r 0,by simp [CallContracts.cursorOf,hiter,nativeCursor,hp,hb],by simpa using Cursor.steps_list hitems 0,?_⟩
    simp [Store.bound,Store.remaining,hitems s hs,stepLimit]
  · have hp : s.pieces? (.ref r) = none := Store.pieces?_of_body hb (by simp) (by simp)
    refine ⟨.fixed xs,by simp [CallContracts.cursorOf,hiter,nativeCursor,hp,hb],Cursor.steps_fixed xs,?_⟩
    simp [Store.bound,Store.remaining,stepLimit]

end row

namespace Contract
section scan
variable {m : Machine} {s w : Store} {v : Value} {xs : List Value} {W : Store → Prop} {c : Contract} {k : Cursor} {n : Nat}

/-- Going over the items with one contract is going over them with as many copies of it. -/
theorem every_repeated (hk : k.Steps W m (xs.map .value)) (h : ∀ x ∈ xs, Spare W m x [c]) (hw : W w) (hn : xs.length < n) :
    k.every m (fun x => do return (← c.outcome m (← x.toValue)) ≠ .mismatched) n w
      = eachPasses m (List.replicate xs.length c) k w := by
  induction xs generalizing k n w with
  | nil =>
    obtain ⟨n,rfl⟩ := Nat.exists_eq_add_one_of_ne_zero (Nat.ne_of_gt hn)
    rw [Cursor.every,bind_ok (hk w hw)]
    simp [eachPasses]
  | cons x xs ih =>
    obtain ⟨n,rfl⟩ := Nat.exists_eq_add_one_of_ne_zero (Nat.ne_of_gt (Nat.zero_lt_of_lt hn))
    obtain ⟨k',hnext,hk'⟩ := hk
    rw [List.length_cons,List.replicate_succ,Cursor.every,eachPasses,bind_ok (hnext w hw),bind_ok (hnext w hw)]
    simp only [show (Given.value x).toValue = pure x from rfl,pure_bind,bind_assoc]
    refine bind_congr_of fun o u ho => ?_
    by_cases hm : o = .mismatched
    · simp [hm]
    · simpa [hm] using ih hk' (fun y hy => h y (by simp [hy])) ((h x (by simp)).step hw ho) (by simpa using hn)

/-- The contract that matches everything may as well not be asked. -/
theorem eachPasses_anything (hk : k.Steps W m (xs.map .value))
    (hany : ∀ w, W w → w.contract? anything.value = some anything) (hw : W w) :
    eachPasses m (List.replicate xs.length anything) k w = .ok true w := by
  induction xs generalizing k with
  | nil => simp [eachPasses]
  | cons x xs ih =>
    obtain ⟨k',hnext,hk'⟩ := hk
    have hx : anything.outcome m x w = .ok .matched w :=
      outcome_of_holds (b := true) (by rw [show Value.ref anyRef = anything.value from rfl,hany w hw]; rfl)
        (by simp [Rule.holds])
    rw [List.length_cons,List.replicate_succ,eachPasses,bind_ok (hnext w hw)]
    simp only [show (Given.value x).toValue = pure x from rfl,pure_bind]
    rw [bind_ok hx]
    simpa using ih hk'

end scan

/-- The rule of an array contract. -/
def ofItems (c : Contract) : Rule := if c.id = anyRef then .arrayOfAny else .arrayOf c

section rules
variable {n : Machine} {v : Value} {w z : Store} {c : Contract} {ps : List Contract}

theorem ofItems_eq : ofItems c = .arrayOfAny ∨ ofItems c = .arrayOf c := by
  unfold ofItems
  split <;> simp

/-- Both rules ask first whether the value is a list or tuple, and are done if that stops them. -/
theorem holds_stopped (c : Contract) (ps : List Contract) {e : Stop} (h : isArray n v w = .error e z) :
    (ofItems c).holds n v w = .error e z ∧ (Rule.product ps).holds n v w = .error e z := by
  refine ⟨?_,by rw [Rule.holds]; exact bind_error h⟩
  rcases ofItems_eq (c := c) with hc | hc
  · rwa [hc,Rule.holds]
  · rw [hc,Rule.holds]
    exact bind_error h

/-- They are done as well if it is not one. -/
theorem holds_other (c : Contract) (ps : List Contract) (h : isArray n v w = .ok false z) :
    (ofItems c).holds n v w = .ok false z ∧ (Rule.product ps).holds n v w = .ok false z := by
  refine ⟨?_,by rw [Rule.holds,bind_ok h]; rfl⟩
  rcases ofItems_eq (c := c) with hc | hc
  · rwa [hc,Rule.holds]
  · rw [hc,Rule.holds,bind_ok h]
    rfl

/-- If it is one, they go over its items in the same way. -/
theorem holds_row {W : Store → Prop} {xs : List Value} (h : isArray n v w = .ok true z) (hz : W z)
    (hrow : ∀ w, W w → w.Row v xs) (hany : ∀ w, W w → w.contract? anything.value = some anything)
    (hc : c.id = anyRef → c = anything) (hspare : ∀ x ∈ xs, Spare W n x [c]) :
    (ofItems c).holds n v w = (Rule.product (List.replicate xs.length c)).holds n v w := by
  obtain ⟨k,hk,hpasses,hbound⟩ := Store.Row.cursorOf (m := n) hrow hz
  have hproduct : (Rule.product (List.replicate xs.length c)).holds n v w
      = eachPasses n (List.replicate xs.length c) k z := by
    rw [Rule.holds,bind_ok h]
    simp only [Bool.not_true,Bool.false_eq_true,if_false]
    rw [bind_ok (hrow z hz).lengthOf]
    simp only [List.length_replicate,ne_eq,not_true_eq_false,if_false]
    exact bind_ok hk
  rw [hproduct]
  by_cases hid : c.id = anyRef
  · rw [ofItems,if_pos hid,hc hid,Rule.holds,eachPasses_anything hpasses hany hz,h]
  · rw [ofItems,if_neg hid,Rule.holds,bind_ok h,if_pos rfl,bind_ok hk,get_bind_apply]
    exact every_repeated hpasses hspare hz hbound

end rules

section run
variable {n : Machine} {c : Contract} {v : Value} {w z : Store} (hc : w.contract? c.value = some c)
include hc

theorem run_of_matched (h : c.rule.holds n v w = .ok true z) : runOn n c.value v w = newMatch c.value z := by
  rw [runOn,get_bind_apply,hc]
  simp only [run]
  rw [bind_ok h]
  rfl

theorem run_of_mismatched (h : c.rule.holds n v w = .ok false z) :
    runOn n c.value v w = newMismatch c.description v z := by
  rw [runOn,get_bind_apply,hc]
  simp only [run]
  rw [bind_ok h]
  rfl

theorem run_of_stopped {e : Stop} (h : c.rule.holds n v w = .error e z) : runOn n c.value v w = .error e z := by
  rw [runOn,get_bind_apply,hc]
  exact bind_error h

end run

/-- A contract's method `run` under a value. -/
def running (n : Machine) (c : Contract) (v : Value) : Act Value :=
  n.next.call (.operation (.member .contract "run" .plain)) [c.value,v] []

theorem running_eq (n : Machine) (c : Contract) (v : Value) (w : Store) : running n c v w = runOn n c.value v w :=
  call_run n c.value v w

/-- What runs of an array contract `a` and of a product `b` of `ps` on one value have in common, where `c` is for the
items of arrays.  The question whether the value is a list or tuple stops both runs, or ends both in a mismatch before
any test is asked.  Or else the runs end alike and leave the same behind, when the product repeats `c` as often as there
are items, whatever its tests do to anything but contracts and items. -/
structure Parallel (u : Store) (n : Machine) (c a b : Contract) (ps : List Contract) (v : Value) (w : Store) : Prop where
  stopped : ∀ e z, isArray n v w = .error e z → running n a v w = .error e z ∧ running n b v w = .error e z
  other : ∀ z, isArray n v w = .ok false z →
    running n a v w = newMismatch a.description v z ∧ running n b v w = newMismatch b.description v z
  row : ∀ z xs, isArray n v w = .ok true z → ps = List.replicate xs.length c → ∀ W : Store → Prop, W z →
    (∀ w, W w → u.Retains w ∧ w.Row v xs) → (∀ x ∈ xs, Spare W n x [c]) →
    SameRun a b v (running n a v w) (running n b v w)

section parallel
variable {n : Machine} {v : Value} {s u w : Store} {a b c : Contract} {ps : List Contract}

theorem parallel_of_made (ha : u.Made a (ofItems c)) (hb : u.Made b (.product ps))
    (hany : u.contract? anything.value = some anything) (hc : u.contract? c.value = some c) (hw : u.Retains w) :
    Parallel u n c a b ps v w := by
  have hheld := ha.retained hw
  have hheld' := hb.retained hw
  have hrule := ha.rule
  have hrule' := hb.rule
  refine ⟨fun e z h => ?_,fun z h => ?_,fun z xs h hps W hz hW hspare => ?_⟩
  · obtain ⟨h₁,h₂⟩ := holds_stopped c ps h
    rw [running_eq,running_eq]
    exact ⟨run_of_stopped hheld (hrule ▸ h₁),run_of_stopped hheld' (hrule' ▸ h₂)⟩
  · obtain ⟨h₁,h₂⟩ := holds_other c ps h
    rw [running_eq,running_eq]
    exact ⟨run_of_mismatched hheld (hrule ▸ h₁),run_of_mismatched hheld' (hrule' ▸ h₂)⟩
  · rw [running_eq,running_eq]
    refine sameRun_of_holds hheld hheld' ?_
    rw [hrule,hrule',hps]
    refine holds_row h hz (fun w hw => (hW w hw).2) (fun w hw => (hW w hw).1 _ _ hany) (fun hid => ?_) hspare
    have hvalue : c.value = anything.value := by rw [value,hid]; rfl
    rw [hvalue,hany] at hc
    exact (Option.some.inj hc).symm

/-- An array contract can be built for every contract, and with it any product agrees in this way. -/
theorem run_of_repeated {y : Value} (hany : s.Worded anything) (hc : s.Worded c) (m : Machine)
    (hy : (if y = .absent then .ref anyRef else y) = c.value) :
    ∃ a t, array m y s = .ok a.value t ∧ s.Grows t ∧
      ∀ z u ps, t.Grows u → (∀ p ∈ ps, u.Worded p) → (iterate m z).Gives (ps.map value) u →
        ∃ b u', product m z u = .ok b.value u' ∧ u.Grows u' ∧
          ∀ n v w, u'.Retains w → Parallel u' n c a b ps v w := by
  obtain ⟨_,t,ht,hst,a,rfl,ha⟩ := made_array hc (m := m) hy
  refine ⟨a,t,ht,hst,fun z u ps htu hps hz => ?_⟩
  obtain ⟨_,u',hu',huu',b,rfl,hb⟩ := made_product hps hz
  have hgrows := hst.trans (htu.trans huu')
  refine ⟨b,u',hu',huu',fun n v w hw => ?_⟩
  exact parallel_of_made (ha.keep (Store.Keeps.of_grows (htu.trans huu'))) hb
    (hany.keep (Store.Keeps.of_grows hgrows)).held.held (hc.keep (Store.Keeps.of_grows hgrows)).held.held hw

end parallel

/-- The function that writes a number down, its contract, two numbers in a list and the contract twice. -/
def rowStore : Store :=
  { notingStore with heap := notingStore.heap ++
      #[{ cls := .builtin .list, body := .list [.int 5,.int 5] },
        { cls := .builtin .list, body := .list [noted.value,noted.value] }] }

theorem list_grows {t : Store} {r : Ref} {xs : List Value}
    (h : rowStore.get? r = some { cls := .builtin .list, body := .list xs }) (ht : rowStore.Grows t) :
    t.classOf (.ref r) = .builtin .list ∧ t.body? (.ref r) = some (.list xs) := by
  have hv : rowStore.Holds .all (.ref r) := Store.holds_ref h trivial
  exact ⟨(ht.classOf hv).trans (Store.classOf_of_get? h),(ht.body? hv).trans (Store.body?_of_get? h)⟩

theorem run_of_repeated_noted : ∃ (a b : Contract) (t u : Store),
    array Machine.halted noted.value rowStore = .ok a.value t ∧ product Machine.halted (.ref 36) t = .ok b.value u ∧
    SameRun a b (.ref 35) (running Machine.halted.next a (.ref 35) u) (running Machine.halted.next b (.ref 35) u) := by
  have hany : rowStore.Worded anything := ⟨⟨Or.inl rfl,rfl⟩,_,rfl⟩
  have hnoted : rowStore.Worded noted := ⟨⟨Or.inl rfl,rfl⟩,_,rfl⟩
  have hf : rowStore.IsFunction (.ref 33) noting := ⟨rfl,rfl⟩
  obtain ⟨a,t,ha,hst,hproduct⟩ := run_of_repeated (y := noted.value) hany hnoted Machine.halted rfl
  have hcontracts : (iterate Machine.halted (.ref 36)).Gives ([noted,noted].map value) t := by
    obtain ⟨hclass,hbody⟩ := list_grows (r := 36) rfl hst
    have hlist : BuiltinClass.list ∈ [BuiltinClass.list,.tuple] := by simp
    have hitems := iterate_native (m := Machine.halted) (native_sequence hclass hlist (Or.inl hbody))
      (isSequence_builtin hclass hlist).1
    rw [Store.elements,hbody] at hitems
    exact gives_of_eq hitems
  obtain ⟨b,u,hb,htu,hparallel⟩ := hproduct (.ref 36) t [noted,noted] (Store.Keeps.refl _ t)
    (by simpa using hnoted.keep (Store.Keeps.of_grows hst)) hcontracts
  have hsu := hst.trans htu
  obtain ⟨hclass,hbody⟩ := list_grows (r := 35) rfl hsu
  have harray : isArray Machine.halted.next (.ref 35) u = .ok true u := by
    rw [isArray,bind_ok (isKind_builtin hclass (by decide) : isKind _ _ .list u = .ok true u)]
    rfl
  have hheld : u.contract? noted.value = some noted := (hnoted.keep (Store.Keeps.of_grows hsu)).held.held
  refine ⟨a,b,t,u,ha,hb,(hparallel Machine.halted.next (.ref 35) u fun _ _ h => h).row u [.int 5,.int 5] harray rfl
    (fun w => u.Retains w ∧ w.IsFunction (.ref 33) noting ∧ w.classOf (.ref 35) = .builtin .list ∧
      w.body? (.ref 35) = some (.list [.int 5,.int 5]))
    ⟨fun _ _ h => h,hf.grows hsu,hclass,hbody⟩ ?_ ?_⟩
  · rintro w ⟨hr,-,hc,hb⟩
    exact ⟨hr,by rw [hc,Store.overrides_builtin],Or.inl hb⟩
  · rintro x hx c hc w ⟨hr,hf,hc',hb⟩
    obtain rfl : x = .int 5 := by simpa using hx
    obtain rfl : c = noted := by simpa using hc
    rw [after_ok (outcome_noted hf (hr _ _ hheld))]
    exact ⟨hr,⟨hf.cls,hf.body⟩,hc',hb⟩

/-- An empty list whose class does not let it be gone over. -/
def grudging : Act Value := do
  let c ← (Expr.classDef "L" [("__iter__",.function "f" [.required "self"] [] (.raise "ValueError" "no") none)]
    [.builtinClass "list"]).eval Machine.full []
  (Expr.call (.variable "L") [] none [] none).eval Machine.full [("L",c)]

/-- An array contract for anything does not go over it, and matches; the empty product does, and fails. -/
theorem runs_grudging :
    returned (grudging >>= lengthOf Machine.full) Store.initial = some 0 ∧
    returned (do
      let v ← grudging
      let a ← array Machine.full anything.value
      let r ← runOn Machine.full a v
      isKind Machine.full r .matched) Store.initial = some true ∧
    raises (do
      let v ← grudging
      let p ← product Machine.full (← newTuple [])
      runOn Machine.full p v) Store.initial = true := by decide +kernel

end Contract
end CallContracts
