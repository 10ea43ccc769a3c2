import CallContracts.Contract.Run
import CallContracts.Proofs.Act
/-! Two runs side by side.  Two contracts are twins when they differ in their descriptions and places alone.  Whatever
two stores have in common, if all that is asked of a value and its parts is answered alike in both, then twins run
alike on it: they ask the same tests about the same values in the same order, and come to the same outcome or stop for
the same reason. -/
namespace CallContracts
open Act

namespace Act
variable {α β γ δ : Type} {R : Store → Store → Prop} {Q : α → β → Prop} {P : γ → δ → Prop}

/-- Ends that go together: both well with answers that go together, or both for the same reason. -/
inductive Agree (R : Store → Store → Prop) (Q : α → β → Prop) :
    EStateM.Result Stop Store α → EStateM.Result Stop Store β → Prop
  | ok {a : α} {b : β} {s t : Store} : Q a b → R s t → Agree R Q (.ok a s) (.ok b t)
  | error {e : Stop} {s t : Store} : R s t → Agree R Q (.error e s) (.error e t)

/-- Two computations that end alike wherever they start alike. -/
def Alike (R : Store → Store → Prop) (Q : α → β → Prop) (x : Act α) (y : Act β) : Prop :=
  ∀ s t, R s t → Agree R Q (x s) (y t)

namespace Alike
variable {x : Act α} {y : Act β} {f : α → Act γ} {g : β → Act δ} {a : α} {b : β}

theorem pure (h : Q a b) : Alike R Q (pure a) (pure b) := fun _ _ hR => .ok h hR

theorem fail (q : Fault) : Alike R Q (fail q) (fail q) := fun _ _ hR => .error hR

theorem throw (e : Stop) : Alike R Q (throw e) (throw e) := fun _ _ hR => .error hR

theorem of_ok {s t u : Store} (h : Alike R Q x y) (hR : R s t) (hx : x s = .ok a u) :
    ∃ b v, y t = .ok b v ∧ Q a b ∧ R u v := by
  have hends := h s t hR
  rw [hx] at hends
  generalize y t = q at hends ⊢
  cases hends with
  | ok hab hR => exact ⟨_,_,rfl,hab,hR⟩

theorem of_error {s t u : Store} {e : Stop} (h : Alike R Q x y) (hR : R s t) (hx : x s = .error e u) :
    ∃ v, y t = .error e v ∧ R u v := by
  have hends := h s t hR
  rw [hx] at hends
  generalize y t = q at hends ⊢
  cases hends with
  | error hR => exact ⟨_,rfl,hR⟩

/-- One part after the other. -/
theorem bind (hx : Alike R Q x y) (hf : ∀ a b, Q a b → Alike R P (f a) (g b)) : Alike R P (x >>= f) (y >>= g) := by
  intro s t hR
  have hends := hx s t hR
  rw [bind_apply,bind_apply]
  generalize x s = p at hends ⊢
  generalize y t = q at hends ⊢
  cases hends with
  | ok ha hR => exact hf _ _ ha _ _ hR
  | error hR => exact .error hR

/-- What was answered in both is one thing. -/
theorem bindEq {x y : Act α} {f : α → Act γ} {g : α → Act δ} (hx : Alike R Eq x y)
    (hf : ∀ a, Alike R P (f a) (g a)) : Alike R P (x >>= f) (y >>= g) :=
  hx.bind fun a _ h => h ▸ hf a

/-- What is read off the stores is asked where they go together. -/
theorem get {f g : Store → Act γ} {P : γ → γ → Prop} (h : ∀ s t, R s t → Alike R P (f s) (g t)) :
    Alike R P (MonadState.get >>= f) (MonadState.get >>= g) := by
  intro s t hR
  rw [get_bind_apply,get_bind_apply]
  exact h s t hR s t hR

/-- Answers that leave both stores as they are. -/
theorem of_still (h : ∀ s t, R s t → ∃ a b, x s = .ok a s ∧ y t = .ok b t ∧ Q a b) : Alike R Q x y := by
  intro s t hR
  obtain ⟨a,b,hx,hy,hab⟩ := h s t hR
  rw [hx,hy]
  exact .ok hab hR

/-- Two computations that are alike from one store are the same there. -/
theorem eq_of_one {W : Store → Prop} {x y : Act α} {s : Store} (h : Alike (fun s t => s = t ∧ W s) Eq x y)
    (hs : W s) : x s = y s ∧ W (after x s) := by
  have hends := h s s ⟨rfl,hs⟩
  unfold after
  generalize x s = p at hends ⊢
  generalize y s = q at hends ⊢
  cases hends with
  | ok ha hR =>
    obtain ⟨rfl,hs⟩ := hR
    exact ⟨by rw [ha],hs⟩
  | error hR =>
    obtain ⟨rfl,hs⟩ := hR
    exact ⟨rfl,hs⟩

end Alike
end Act

/-- The items of a value that is an array. -/
def arrayItems (m : Machine) (v : Value) : Act (Option Cursor) := do
  if ← isArray m v then return some (← cursorOf m v) else return none

/-- The items of an array that has so many. -/
def sizedItems (m : Machine) (n : Nat) (v : Value) : Act (Option Cursor) := do
  if !(← isArray m v) then return none
  if (← lengthOf m v) ≠ n then return none
  return some (← cursorOf m v)

section holds
variable (m : Machine) (v : Value)

theorem holds_arrayOf (c : Contract) : (Rule.arrayOf c).holds m v = (do
    match ← arrayItems m v with
    | none => return false
    | some xs =>
      xs.every m (fun x => do return (← c.outcome m (← x.toValue)) ≠ .mismatched) ((← get).bound xs)) := by
  simp only [Rule.holds,arrayItems,bind_assoc]
  refine bind_congr fun b => ?_
  cases b <;> simp

theorem holds_product (cs : List Contract) : (Rule.product cs).holds m v = (do
    match ← sizedItems m cs.length v with
    | none => return false
    | some xs => eachPasses m cs xs) := by
  simp only [Rule.holds,sizedItems,bind_assoc]
  refine bind_congr fun b => ?_
  cases b with
  | false => simp
  | true =>
    simp only [Bool.not_true,Bool.false_eq_true,if_false,bind_assoc]
    refine bind_congr fun n => ?_
    split <;> simp

end holds

/-- What a contract is run on, and what it is made of: values, iterations over items and over fields with what they
give, and the names, classes and tests of contracts. -/
structure Realm where
  Val : Value → Prop
  Item : Given → Prop
  Items : Cursor → Prop
  Key : Value → Prop
  Field : Given → Prop
  Fields : Cursor → Prop
  Name : Value → Prop
  Cls : Value → Prop
  Test : Value → Prop

/-- An iteration that goes alike, and gives what is of one sort. -/
structure Paced (m : Machine) (R : Store → Store → Prop) (I : Given → Prop) (C : Cursor → Prop) (c : Cursor) :
    Prop where
  bound : ∀ s t, R s t → s.bound c = t.bound c
  next : Alike R (fun p q => p = q ∧ ∀ i ∈ p, I i.1 ∧ C i.2) (c.next m) (c.next m)

namespace Realm
variable (K : Realm) (m : Machine) (R : Store → Store → Prop)

/-- Asked what it is and what it is made of, a value answers alike, and with what is of the realm. -/
structure Asked (v : Value) : Prop where
  kind : Alike R Eq (kindOf m v) (kindOf m v)
  array : Alike R Eq (isArray m v) (isArray m v)
  items : Alike R (fun c d => c = d ∧ ∀ x ∈ c, K.Items x) (arrayItems m v) (arrayItems m v)
  sized : ∀ n, Alike R (fun c d => c = d ∧ ∀ x ∈ c, K.Items x) (sizedItems m n v) (sizedItems m n v)
  fields : Alike R (fun c d => c = d ∧ ∀ x ∈ c, K.Fields x) (ownFields m v) (ownFields m v)

/-- All that contracts of the realm ask about the values of another one is answered alike, and with what is of the
realm. -/
structure Answers (O : Realm) : Prop where
  asked : ∀ v, O.Val v → K.Asked m R v
  items : ∀ c, O.Items c → Paced m R K.Item K.Items c
  value : ∀ i, O.Item i → Alike R (fun v w => v = w ∧ K.Val v) i.toValue i.toValue
  fields : ∀ c, O.Fields c → Paced m R K.Field K.Fields c
  parts : ∀ i, O.Field i → Alike R (fun p q => p = q ∧ K.Key p.1 ∧ K.Val p.2) (fieldParts m i) (fieldParts m i)
  belongs : ∀ v c, O.Val v → K.Cls c → Alike R Eq (belongsTo m depthLimit v c) (belongsTo m depthLimit v c)
  key : ∀ n, O.Key n → Alike R Eq (checkKey m n) (checkKey m n)
  same : ∀ k n, K.Name k → O.Key n → Alike R Eq (sameKey m k n) (sameKey m k n)
  test : ∀ f v, K.Test f → O.Val v →
    Alike R Eq (do truth m (← m.call f [v] [])) (do truth m (← m.call f [v] []))

/-- All that contracts of a realm ask about its values. -/
abbrev Even : Prop := K.Answers m R K

/-- What is of the one or of the other. -/
def join (O : Realm) : Realm where
  Val v := K.Val v ∨ O.Val v
  Item i := K.Item i ∨ O.Item i
  Items c := K.Items c ∨ O.Items c
  Key n := K.Key n ∨ O.Key n
  Field i := K.Field i ∨ O.Field i
  Fields c := K.Fields c ∨ O.Fields c
  Name k := K.Name k ∨ O.Name k
  Cls c := K.Cls c ∨ O.Cls c
  Test f := K.Test f ∨ O.Test f

variable {K m R} in
theorem Answers.join {O P : Realm} (hO : K.Answers m R O) (hP : K.Answers m R P) : K.Answers m R (O.join P) where
  asked v hv := hv.elim (hO.asked v) (hP.asked v)
  items c hc := hc.elim (hO.items c) (hP.items c)
  value i hi := hi.elim (hO.value i) (hP.value i)
  fields c hc := hc.elim (hO.fields c) (hP.fields c)
  parts i hi := hi.elim (hO.parts i) (hP.parts i)
  belongs v c hv hc := hv.elim (hO.belongs v c · hc) (hP.belongs v c · hc)
  key n hn := hn.elim (hO.key n) (hP.key n)
  same k n hk hn := hn.elim (hO.same k n hk) (hP.same k n hk)
  test f v hf hv := hv.elim (hO.test f v hf) (hP.test f v hf)

/-- Tests, and nothing that they are run on. -/
def tests (T : Value → Prop) : Realm where
  Val _ := False
  Item _ := False
  Items _ := False
  Key _ := False
  Field _ := False
  Fields _ := False
  Name _ := False
  Cls _ := False
  Test := T

theorem answers_tests (T : Value → Prop) : K.Answers m R (tests T) where
  asked _ h := h.elim
  items _ h := h.elim
  value _ h := h.elim
  fields _ h := h.elim
  parts _ h := h.elim
  belongs _ _ h := h.elim
  key _ h := h.elim
  same _ _ _ h := h.elim
  test _ _ _ h := h.elim

end Realm

mutual
/-- The same contract but for the description, in a place that goes with the place of the other. -/
def Contract.Twins (K : Realm) (P : Ref → Ref → Prop) : Contract → Contract → Prop
  | .mk r _ t, d => P r d.id ∧ t.Twins K P d.rule
/-- The same rule, about contracts that are the same but for their descriptions and places. -/
def Rule.Twins (K : Realm) (P : Ref → Ref → Prop) : Rule → Rule → Prop
  | .anything, u => u = .anything
  | .kind k, u => u = .kind k
  | .instanceOf c, u => u = .instanceOf c ∧ K.Cls c
  | .all cs, u => ∃ ds, u = .all ds ∧ twinsAll K P cs ds
  | .any cs, u => ∃ ds, u = .any ds ∧ twinsAll K P cs ds
  | .not c, u => ∃ d, u = .not d ∧ c.Twins K P d
  | .maybe c, u => ∃ d, u = .maybe d ∧ c.Twins K P d
  | .arrayOfAny, u => u = .arrayOfAny
  | .arrayOf c, u => ∃ d, u = .arrayOf d ∧ c.Twins K P d
  | .product cs, u => ∃ ds, u = .product ds ∧ twinsAll K P cs ds
  | .record shape, u => ∃ shape', u = .record shape' ∧ twinsShape K P shape shape'
  | .function, u => u = .function
  | .test f, u => u = .test f ∧ K.Test f
  | .own, _ => False
def twinsAll (K : Realm) (P : Ref → Ref → Prop) : List Contract → List Contract → Prop
  | [], ds => ds = []
  | c :: cs, ds => ∃ d es, ds = d :: es ∧ c.Twins K P d ∧ twinsAll K P cs es
def twinsShape (K : Realm) (P : Ref → Ref → Prop) : List (Value × Contract) → List (Value × Contract) → Prop
  | [], shape => shape = []
  | (k, c) :: es, shape => K.Name k ∧ ∃ d fs, shape = (k,d) :: fs ∧ c.Twins K P d ∧ twinsShape K P es fs
end

/-- In both stores there are contracts in places that go together. -/
def Placed (P : Ref → Ref → Prop) (R : Store → Store → Prop) : Prop :=
  ∀ r q s t, P r q → R s t → (s.contract? (.ref r)).isSome ∧ (t.contract? (.ref q)).isSome

theorem length_twinsAll {K : Realm} {P : Ref → Ref → Prop} {cs ds : List Contract} (h : twinsAll K P cs ds) :
    cs.length = ds.length := by
  induction cs generalizing ds with
  | nil =>
    obtain rfl : ds = [] := by simpa only [twinsAll] using h
    rfl
  | cons c cs ih =>
    simp only [twinsAll] at h
    obtain ⟨d,es,rfl,-,hes⟩ := h
    simp [ih hes]

section run
variable {K : Realm} {P : Ref → Ref → Prop} {m : Machine} {R : Store → Store → Prop}

section loop
variable {I : Given → Prop} {C : Cursor → Prop} {f g : Given → Act Bool}

/-- Two loops over the same items, whose steps are alike. -/
theorem alike_everyItem (hC : ∀ c, C c → Paced m R I C c) (hf : ∀ i, I i → Alike R Eq (f i) (g i)) (n : Nat)
    {c : Cursor} (hc : C c) :
    Alike R Eq (c.every m f n) (c.every m g n) := by
  induction n generalizing c with
  | zero =>
    simp only [Cursor.every]
    exact .throw _
  | succ n ih =>
    simp only [Cursor.every]
    refine (hC c hc).next.bind ?_
    rintro p _ ⟨rfl,hp⟩
    cases p with
    | none => exact .pure rfl
    | some i =>
      obtain ⟨hi,hrest⟩ := hp i rfl
      refine (hf i.1 hi).bindEq fun b => ?_
      cases b with
      | true => exact ih hrest
      | false => exact .pure rfl

/-- All items of an iteration are gone over, as far as there may be any. -/
theorem alike_everyBound (hC : ∀ c, C c → Paced m R I C c) (hf : ∀ i, I i → Alike R Eq (f i) (g i)) {c : Cursor}
    (hc : C c) :
    Alike R Eq (do c.every m f ((← get).bound c)) (do c.every m g ((← get).bound c)) := by
  refine Alike.get fun s t hR => ?_
  rw [(hC c hc).bound s t hR]
  exact alike_everyItem hC hf _ hc

end loop

mutual
/-- Twins run alike on every value of the realm. -/
theorem alike_outcome (hK : K.Even m R) (hP : Placed P R) : ∀ {c d : Contract}, c.Twins K P d →
    ∀ {v : Value}, K.Val v → Alike R Eq (c.outcome m v) (d.outcome m v)
  | .mk r x t, .mk q y u, h, v, hv => by
    simp only [Contract.Twins,Contract.rule_mk,Contract.id_mk] at h
    simp only [Contract.outcome]
    refine Alike.get fun s s' hR => ?_
    obtain ⟨hs,hs'⟩ := hP r q s s' h.1 hR
    rw [if_pos hs,if_pos hs']
    refine (alike_holds hK hP h.2 hv).bindEq fun b => ?_
    cases b <;> exact .pure rfl
/-- Rules that are twins hold of the same values. -/
theorem alike_holds (hK : K.Even m R) (hP : Placed P R) : ∀ {t u : Rule}, t.Twins K P u →
    ∀ {v : Value}, K.Val v → Alike R Eq (t.holds m v) (u.holds m v)
  | .anything, u, h, v, hv => by
    obtain rfl : u = .anything := by simpa only [Rule.Twins] using h
    simp only [Rule.holds]
    exact .pure rfl
  | .kind k, u, h, v, hv => by
    obtain rfl : u = .kind k := by simpa only [Rule.Twins] using h
    simp only [Rule.holds]
    split
    · exact .pure rfl
    · exact (hK.asked v hv).kind.bindEq fun _ => .pure rfl
  | .instanceOf c, u, h, v, hv => by
    obtain ⟨rfl,hc⟩ : u = .instanceOf c ∧ K.Cls c := by simpa only [Rule.Twins] using h
    simpa only [Rule.holds] using hK.belongs v c hv hc
  | .all cs, u, h, v, hv => by
    obtain ⟨ds,rfl,hds⟩ : ∃ ds, u = .all ds ∧ twinsAll K P cs ds := by simpa only [Rule.Twins] using h
    simpa only [Rule.holds] using alike_noneFails hK hP hds hv
  | .any cs, u, h, v, hv => by
    obtain ⟨ds,rfl,hds⟩ : ∃ ds, u = .any ds ∧ twinsAll K P cs ds := by simpa only [Rule.Twins] using h
    simpa only [Rule.holds] using alike_someMatches hK hP hds hv
  | .not c, u, h, v, hv => by
    obtain ⟨d,rfl,hd⟩ : ∃ d, u = .not d ∧ c.Twins K P d := by simpa only [Rule.Twins] using h
    simp only [Rule.holds]
    exact (alike_outcome hK hP hd hv).bindEq fun _ => .pure rfl
  | .maybe c, u, h, v, hv => by
    obtain ⟨d,rfl,hd⟩ : ∃ d, u = .maybe d ∧ c.Twins K P d := by simpa only [Rule.Twins] using h
    simp only [Rule.holds]
    split
    · exact .pure rfl
    · exact (alike_outcome hK hP hd hv).bindEq fun _ => .pure rfl
  | .arrayOfAny, u, h, v, hv => by
    obtain rfl : u = .arrayOfAny := by simpa only [Rule.Twins] using h
    simpa only [Rule.holds] using (hK.asked v hv).array
  | .arrayOf c, u, h, v, hv => by
    obtain ⟨d,rfl,hd⟩ : ∃ d, u = .arrayOf d ∧ c.Twins K P d := by simpa only [Rule.Twins] using h
    rw [holds_arrayOf,holds_arrayOf]
    refine (hK.asked v hv).items.bind ?_
    rintro xs _ ⟨rfl,hxs⟩
    cases xs with
    | none => exact .pure rfl
    | some xs =>
      refine alike_everyBound hK.items (fun i hi => ?_) (hxs xs rfl)
      refine (hK.value i hi).bind ?_
      rintro x _ ⟨rfl,hx⟩
      exact (alike_outcome hK hP hd hx).bindEq fun _ => .pure rfl
  | .product cs, u, h, v, hv => by
    obtain ⟨ds,rfl,hds⟩ : ∃ ds, u = .product ds ∧ twinsAll K P cs ds := by simpa only [Rule.Twins] using h
    rw [holds_product,holds_product,length_twinsAll hds]
    refine ((hK.asked v hv).sized _).bind ?_
    rintro xs _ ⟨rfl,hxs⟩
    cases xs with
    | none => exact .pure rfl
    | some xs => exact alike_eachPasses hK hP hds (hxs xs rfl)
  | .record shape, u, h, v, hv => by
    obtain ⟨shape',rfl,hshape⟩ : ∃ shape', u = .record shape' ∧ twinsShape K P shape shape' := by
      simpa only [Rule.Twins] using h
    simp only [Rule.holds]
    refine (hK.asked v hv).fields.bind ?_
    rintro fs _ ⟨rfl,hfs⟩
    cases fs with
    | none => exact .pure rfl
    | some fs =>
      refine alike_everyBound hK.fields (fun i hi => ?_) (hfs fs rfl)
      refine (hK.parts i hi).bind ?_
      rintro ⟨n,x⟩ _ ⟨rfl,hn,hx⟩
      exact (hK.key n hn).bindEq fun _ => alike_fieldPasses hK hP hshape hn hx
  | .function, u, h, v, hv => by
    obtain rfl : u = .function := by simpa only [Rule.Twins] using h
    simp only [Rule.holds]
    exact (hK.asked v hv).kind.bindEq fun _ => .pure rfl
  | .test f, u, h, v, hv => by
    obtain ⟨rfl,hf⟩ : u = .test f ∧ K.Test f := by simpa only [Rule.Twins] using h
    simpa only [Rule.holds] using hK.test f v hf hv
  | .own, u, h, v, hv => by simp only [Rule.Twins] at h
theorem alike_noneFails (hK : K.Even m R) (hP : Placed P R) : ∀ {cs ds : List Contract}, twinsAll K P cs ds →
    ∀ {v : Value}, K.Val v → Alike R Eq (noneFails m cs v) (noneFails m ds v)
  | [], ds, h, v, hv => by
    obtain rfl : ds = [] := by simpa only [twinsAll] using h
    simp only [noneFails]
    exact .pure rfl
  | c :: cs, ds, h, v, hv => by
    obtain ⟨d,es,rfl,hd,hes⟩ : ∃ d es, ds = d :: es ∧ c.Twins K P d ∧ twinsAll K P cs es := by
      simpa only [twinsAll] using h
    simp only [noneFails]
    refine (alike_outcome hK hP hd hv).bindEq fun o => ?_
    split
    · exact .pure rfl
    · exact alike_noneFails hK hP hes hv
theorem alike_someMatches (hK : K.Even m R) (hP : Placed P R) : ∀ {cs ds : List Contract}, twinsAll K P cs ds →
    ∀ {v : Value}, K.Val v → Alike R Eq (someMatches m cs v) (someMatches m ds v)
  | [], ds, h, v, hv => by
    obtain rfl : ds = [] := by simpa only [twinsAll] using h
    simp only [someMatches]
    exact .pure rfl
  | c :: cs, ds, h, v, hv => by
    obtain ⟨d,es,rfl,hd,hes⟩ : ∃ d es, ds = d :: es ∧ c.Twins K P d ∧ twinsAll K P cs es := by
      simpa only [twinsAll] using h
    simp only [someMatches]
    refine (alike_outcome hK hP hd hv).bindEq fun o => ?_
    split
    · exact .pure rfl
    · exact alike_someMatches hK hP hes hv
theorem alike_eachPasses (hK : K.Even m R) (hP : Placed P R) : ∀ {cs ds : List Contract}, twinsAll K P cs ds →
    ∀ {xs : Cursor}, K.Items xs → Alike R Eq (eachPasses m cs xs) (eachPasses m ds xs)
  | [], ds, h, xs, hxs => by
    obtain rfl : ds = [] := by simpa only [twinsAll] using h
    simp only [eachPasses]
    exact .pure rfl
  | c :: cs, ds, h, xs, hxs => by
    obtain ⟨d,es,rfl,hd,hes⟩ : ∃ d es, ds = d :: es ∧ c.Twins K P d ∧ twinsAll K P cs es := by
      simpa only [twinsAll] using h
    simp only [eachPasses]
    refine (hK.items xs hxs).next.bind ?_
    rintro p _ ⟨rfl,hp⟩
    cases p with
    | none => exact .pure rfl
    | some i =>
      obtain ⟨hi,hrest⟩ := hp i rfl
      refine (hK.value i.1 hi).bind ?_
      rintro x _ ⟨rfl,hx⟩
      refine (alike_outcome hK hP hd hx).bindEq fun o => ?_
      split
      · exact .pure rfl
      · exact alike_eachPasses hK hP hes hrest
theorem alike_fieldPasses (hK : K.Even m R) (hP : Placed P R) : ∀ {shape shape' : List (Value × Contract)},
    twinsShape K P shape shape' → ∀ {n x : Value}, K.Key n → K.Val x →
    Alike R Eq (fieldPasses m shape n x) (fieldPasses m shape' n x)
  | [], shape', h, n, x, hn, hx => by
    obtain rfl : shape' = [] := by simpa only [twinsShape] using h
    simp only [fieldPasses]
    exact .pure rfl
  | (k,c) :: es, shape', h, n, x, hn, hx => by
    simp only [twinsShape] at h
    obtain ⟨hk,d,fs,rfl,hd,hfs⟩ := h
    simp only [fieldPasses]
    refine (hK.same k n hk hn).bindEq fun b => ?_
    cases b with
    | false => exact alike_fieldPasses hK hP hfs hn hx
    | true =>
      rw [if_pos rfl,if_pos rfl]
      split
      · exact .pure rfl
      · exact (alike_outcome hK hP hd hx).bindEq fun _ => .pure rfl
end

end run
end CallContracts
