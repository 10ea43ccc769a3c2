import CallContracts.Proofs.Repeated
import CallContracts.Proofs.Stacking
/-! One call boundary, in full.  The tests of contracts may do anything, and so may the body; arguments may have
names. What is refused is shown, and where that fails the call ends in what the showing ends in.  All that is asked
is that contracts, signatures and checks are left alone, and what a call makes for itself before the program runs.
-/
namespace CallContracts
open Act

/-- What may not be tampered with while a call is under way that began in one store and has come to another:
contracts, signatures and checks, tuples and bound methods, and whatever the call made for itself. -/
def Frame.during (s t : Store) : Frame where
  holds r c := (s.heap.size ≤ r ∧ r < t.heap.size) ∨
    c ∈ [BuiltinClass.contract,.signature,.signatureCheck,.tuple,.method].map ClassId.builtin
  silent := false

/-- A later store of a call that began in `s` and had come to `t`, where what the program relies on holds. -/
structure Store.Minds (W : Store → Prop) (s t u : Store) : Prop where
  kept : t.Keeps (.during s t) u
  own : W u

/-- A computation tampers with nothing of that. -/
def Act.Heeds {α : Type} (W : Store → Prop) (s : Store) (x : Act α) : Prop :=
  ∀ t u, s.Grows t → s.Minds W t u → s.Minds W t (after x u)

namespace Store
variable {s t u : Store} {v w k sig n a : Value} {c r : Contract} {cs : List Contract} {es : List (Value × Value)}
  {args : List Value} {named : Fields Value} {name : String} {d : Ref} {b : BuiltinClass} {body : Body}

/-- What a call made is kept. -/
theorem holds_made {o : Obj} (hs : s.heap.size ≤ d) (ho : t.get? d = some o) : t.Holds (.during s t) (.ref d) :=
  holds_ref ho (Or.inl ⟨hs,lt_of_get? ho⟩)

/-- So are the objects of the library. -/
theorem holds_pledged (hb : t.body? v = some body) (hc : t.classOf v = .builtin b)
    (h : b ∈ [BuiltinClass.contract,.signature,.signatureCheck,.tuple,.method]) : t.Holds (.during s t) v :=
  holds_of_class hb hc fun _ => Or.inr (List.mem_map.mpr ⟨b,h,rfl⟩)

/-- What a call made is kept by one that began before it. -/
theorem Holds.during {s₀ : Store} (h : t.Holds (.during s t) v) (hs : s₀.Grows s) : t.Holds (.during s₀ t) v := by
  intro r hr
  obtain ⟨o,ho,hF⟩ := h r hr
  exact ⟨o,ho,hF.imp_left fun h => ⟨Nat.le_trans hs.size h.1,h.2⟩⟩

/-- A tuple of these items whose class leaves it to the language what it is, how many items it has and which. -/
structure Arguments (s : Store) (v : Value) (args : List Value) : Prop where
  honest : s.spoofs (s.classOf v) = false
  belongs : s.belongs v .tuple = true
  leaves : s.overrides (s.classOf v) ["__iter__","__len__"] = false
  body : s.body? v = some (.tuple args)

theorem IsTuple.arguments (h : s.IsTuple v args) : s.Arguments v args := by
  refine ⟨by rw [h.cls,spoofs_builtin],?_,by rw [h.cls,overrides_builtin],h.body⟩
  rw [belongs,h.cls,isSubclass_builtin s {}]
  decide

theorem Arguments.isArray {m : Machine} (h : s.Arguments v args) : isArray m v s = .ok true s := by
  have hlist : isKind m v .list s = .ok (s.belongs v .list) s := isInstance_native h.honest
  have htuple : isKind m v .tuple s = .ok (s.belongs v .tuple) s := isInstance_native h.honest
  rw [CallContracts.isArray,bind_ok hlist]
  split
  · rfl
  · rw [htuple,h.belongs]

/-- What a call hands to an advice: the arguments as a tuple, the named ones as a table. -/
structure Packed (s : Store) (args : List Value) (named : Fields Value) (a n : Value) : Prop where
  args : s.IsTuple a args
  named : ∃ d, n = .ref d ∧ s.IsTable d (named.map fun f => (.str f.1,f.2))

theorem Packed.grows (h : s.Packed args named a n) (ht : s.Grows t) : t.Packed args named a n := by
  obtain ⟨d,hd,htable⟩ := h.named
  exact ⟨h.args.grows ht,d,hd,htable.grows ht⟩

theorem Owns.grows (h : s.Owns v) (ht : s.Grows t) : t.Owns v := by
  have ⟨_,_,hv,ho,_⟩ := h
  exact h.keep ht (hv ▸ holds_ref ho trivial)

/-- The settings of a call that is under way. -/
theorem setting_grows {p : String} {x : Value} (hset : s.Owns (.ref settingsRef)) (hp : p ≠ "__annotations__")
    (h : s.attr? (.ref settingsRef) p = some x) (ht : s.Grows t) : t.attr? (.ref settingsRef) p = some x := by
  have ⟨r,o,hr,ho,_⟩ := hset
  rw [hset.attr? ht (hr ▸ holds_ref ho trivial) (by simpa [Frame.frees,Frame.all] using hp),h]

end Store

/-- Two new objects, and nothing else. -/
def Store.Packs (s t : Store) : Prop := ∃ o p, t = ((s.alloc o).2.alloc p).2

theorem Store.Packs.grows {s t : Store} (h : s.Packs t) : s.Grows t := by
  obtain ⟨o,p,rfl⟩ := h
  exact (Store.Keeps.alloc s o).trans (Store.Keeps.alloc _ p)

open Store in
/-- Packing makes a tuple and a table that were not there. -/
theorem quiet_packed (args : List Value) (named : Fields Value) (s : Store) : ∃ a t n u, newTuple args s = .ok a t ∧
    newNamed named t = .ok n u ∧ s.Packs u ∧ u.Packed args named a n ∧
    ∀ x, u.Grows x → x.Holds (.during s x) a ∧ x.Holds (.during s x) n := by
  obtain ⟨_,t,ht,hg,rfl,ha⟩ := quiet_alloc { cls := .builtin .tuple, body := .tuple args } s
  obtain ⟨_,u,hu,hg',rfl,hn⟩ := quiet_alloc
    { cls := .builtin .dict, body := .table (named.map fun f => (.str f.1,f.2)) } t
  have htuple : t.IsTuple (.ref s.heap.size) args := ⟨classOf_of_get? ha,body?_of_get? ha⟩
  have hpacks : s.Packs u := by
    obtain rfl : (s.alloc _).2 = t := by simpa using ht
    obtain rfl : (Store.alloc _ _).2 = u := by simpa using hu
    exact ⟨_,_,rfl⟩
  refine ⟨_,t,_,u,ht,hu,hpacks,⟨htuple.grows hg',_,rfl,classOf_of_get? hn,body?_of_get? hn⟩,fun x hx => ⟨?_,?_⟩⟩
  · obtain ⟨o,ho,-⟩ := (hg'.trans hx).kept _ _ ha trivial
    exact holds_made (Nat.le_refl _) ho
  · obtain ⟨o,ho,-⟩ := hx.kept _ _ hn trivial
    exact holds_made hg.size ho

theorem named_fields {s : Store} (named : Fields Value) :
    Act.named (named.map fun f => (.str f.1,f.2)) s = .ok named s := by
  induction named with
  | nil => rfl
  | cons f r ih =>
    have hone : (do return (← asName (.str f.1),f.2) : Act (String × Value)) s = .ok f s := rfl
    rw [Act.named] at ih ⊢
    rw [List.map_cons,each,bind_ok hone,bind_ok ih]
    rfl

namespace Signature
variable {m M : Machine} {s t u x : Store} {k sig g v a n : Value} {name : String} {i r : Contract}
  {cs : List Contract} {args : List Value} {named : Fields Value}

/-- Whether arguments meet contracts position by position; there have to be as many. -/
def look (m : Machine) (cs : List Contract) (args : List Value) : Act Bool :=
  if args.length = cs.length then eachPasses m cs (.fixed args) else pure false

/-- A product looks at the items of a tuple, if there are as many as contracts. -/
theorem holds_arguments (ha : t.Arguments a args) : (Rule.product cs).holds m a t = look m cs args t := by
  obtain ⟨r,rfl⟩ := Store.ref_of_body ha.body
  have hp : t.pieces? (.ref r) = none := Store.pieces?_of_body ha.body (by simp) (by simp)
  have hiter := override?_of_overrides ha.leaves (n := "__iter__") (by simp)
  have hcursor : cursorOf m (.ref r) t = .ok (.fixed args) t := by simp [cursorOf,hiter,nativeCursor,hp,ha.body]
  simp only [Rule.holds,look]
  rw [bind_ok ha.isArray]
  simp only [Bool.not_true,Bool.false_eq_true,if_false]
  rw [bind_ok (Store.Row.lengthOf ⟨ha.leaves,Or.inr ha.body⟩)]
  by_cases h : args.length = cs.length
  · simp only [h,ne_eq,not_true_eq_false,if_false,if_true]
    rw [bind_ok hcursor]
  · simp only [ne_eq,h,not_false_eq_true,if_true,if_false]

theorem holds_product (ha : t.IsTuple a args) : (Rule.product cs).holds m a t = look m cs args t :=
  holds_arguments ha.arguments

end Signature

namespace Act
variable {α β : Type} {W : Store → Prop} {s : Store} {x : Act α} {f : α → Act β}

theorem Heeds.of_ok (h : x.Heeds W s) {t u v : Store} {y : α} (hs : s.Grows t) (ht : s.Minds W t u)
    (hv : x u = .ok y v) : s.Minds W t v := by
  simpa only [after_ok hv] using h t u hs ht

theorem heeds_pure (y : α) : (pure y : Act α).Heeds W s := fun _ _ _ h => h

theorem Heeds.bind (hx : x.Heeds W s) (hf : ∀ y, (f y).Heeds W s) : (x >>= f).Heeds W s := by
  intro t u hs ht
  have hu := hx t u hs ht
  cases hy : x u with
  | ok y v =>
    rw [after_ok hy] at hu
    have hv := hf y t v hs hu
    unfold after at hv ⊢
    rwa [bind_ok hy]
  | error e v =>
    rw [after_error hy] at hu
    rwa [after_error (bind_error hy)]

end Act

namespace Signature
variable {W : Store → Prop} {m M N : Machine} {s t u x z : Store} {k w sig f g v a n : Value}
  {name text : String} {i r : Contract} {cs : List Contract} {args : List Value} {named : Fields Value}

theorem heeds_eachPasses (h : ∀ c ∈ cs, ∀ v, (c.outcome m v).Heeds W s) (args : List Value) :
    (eachPasses m cs (.fixed args)).Heeds W s := by
  induction cs generalizing args with
  | nil =>
    simp only [eachPasses]
    exact heeds_pure true
  | cons c cs ih =>
    cases args with
    | nil =>
      intro t u hs ht
      simp only [eachPasses]
      rwa [after,bind_ok (Cursor.next_nil m u)]
    | cons v args =>
      rw [eachPasses_cons]
      refine (h c (by simp) v).bind fun o => ?_
      split
      · exact heeds_pure false
      · exact ih (fun d hd => h d (by simp [hd])) args

theorem heeds_look (h : ∀ c ∈ cs, ∀ v, (c.outcome m v).Heeds W s) (args : List Value) :
    (look m cs args).Heeds W s := by
  rw [look]
  split
  · exact heeds_eachPasses h args
  · exact heeds_pure false

/-- A contract that can be promised: one of the library, and if it is a signature, one of such contracts. -/
structure Pledged (s : Store) (r : Contract) : Prop where
  worded : s.Worded r
  parts : s.classOf r.value = .builtin .signature → ∃ ds q, s.IsSignature r.value ds q ∧ ∀ d ∈ ds, s.Worded d

/-- A check of a signature for a member, as they are when a call comes to it. -/
structure Guard (s : Store) (k sig : Value) (name : String) (cs : List Contract) (i r : Contract) : Prop where
  checks : s.Checks k sig (.str name) cs
  cls : s.classOf sig = .builtin .signature
  body : ∃ c test p, s.body? sig = some (.contract c test (some p)) ∧ p.input = i.value ∧ p.ret = r.value
  input : s.Worded i
  ret : Pledged s r

section keep
variable {F : Frame}
  (hF : ∀ q, ∀ b ∈ [BuiltinClass.contract,.signature,.signatureCheck,.tuple], F.holds q (.builtin b))
include hF

theorem holds_contract (hr : s.IsContract r) : s.Holds F r.value := by
  obtain ⟨test,p,hb⟩ := Store.body_of_contract? hr.held
  rcases hr.cls with hc | hc
  · exact Store.holds_of_class hb hc fun q => hF q _ (by simp)
  · exact Store.holds_of_class hb hc fun q => hF q _ (by simp)

variable (hfree : F.free = []) (h : s.Keeps F t)
include h

theorem worded_keep (hr : s.Worded r) : t.Worded r := by
  have hv := holds_contract hF hr.held
  exact ⟨⟨by rw [h.classOf hv]; exact hr.held.cls,by rw [h.contract? hv,hr.held.held]⟩,hr.text⟩

theorem Pledged.keep (hr : Pledged s r) : Pledged t r := by
  refine ⟨worded_keep hF h hr.worded,fun hc => ?_⟩
  have hv := holds_contract hF hr.worded.held
  rw [h.classOf hv] at hc
  obtain ⟨ds,q,hsig,hds⟩ := hr.parts hc
  refine ⟨ds,q,hsig.keep h hv ?_,fun d hd => worded_keep hF h (hds d hd)⟩
  exact Store.holds_of_class hsig.params.body hsig.params.cls fun q => hF q _ (by simp)

include hfree in
theorem Guard.keep (hg : Guard s k sig name cs i r) : Guard t k sig name cs i r := by
  have hnames : ∀ n ∈ ["signature","member","_arguments"], ¬ F.frees n := by
    intro n hn
    simp only [List.mem_cons,List.not_mem_nil,or_false] at hn
    rcases hn with rfl | rfl | rfl <;> simp [Frame.frees,hfree]
  obtain ⟨c,test,p,hb,hi,hr⟩ := hg.body
  have hsig := Store.holds_of_class hb hg.cls fun q => hF q _ (by simp)
  have hk := Store.holds_of_class hg.checks.body? hg.checks.classOf fun q => hF q _ (by simp)
  refine ⟨hg.checks.keep h hk (fun a ha => ?_) hnames,by rw [h.classOf hsig,hg.cls],
    ⟨c,test,p,by rw [h.body? hsig,hb],hi,hr⟩,worded_keep hF h hg.input,hg.ret.keep hF h⟩
  obtain ⟨q,d,harg,hcls,hq⟩ := hg.checks.arguments
  obtain rfl : .ref q = a := by simpa [harg] using ha
  obtain ⟨test,p,hb⟩ := Store.body_of_contract? hq
  exact Store.holds_of_class hb hcls fun q => hF q _ (by simp)

end keep

theorem Guard.grows (hg : Guard s k sig name cs i r) (h : s.Grows t) : Guard t k sig name cs i r :=
  hg.keep (F := .all) (fun _ _ _ => trivial) rfl h

theorem Pledged.grows (hr : Pledged s r) (h : s.Grows t) : Pledged t r :=
  hr.keep (F := .all) (fun _ _ _ => trivial) h

theorem during_holds (s t : Store) (q : Ref) :
    ∀ b ∈ [BuiltinClass.contract,.signature,.signatureCheck,.tuple], (Frame.during s t).holds q (.builtin b) := by
  intro b hb
  simp only [List.mem_cons,List.not_mem_nil,or_false] at hb
  rcases hb with rfl | rfl | rfl | rfl <;> simp [Frame.during]

theorem Guard.minds (hg : Guard t k sig name cs i r) (h : s.Minds W t u) : Guard u k sig name cs i r :=
  hg.keep (during_holds s t) rfl h.kept

theorem Guard.classOf_ret (hg : Guard t k sig name cs i r) (h : s.Minds W t u) :
    u.classOf r.value = t.classOf r.value :=
  h.kept.classOf (holds_contract (during_holds s t) hg.ret.worded.held)

/-- How a refusal ends: with a fault that names the member, what was expected and the value, if the value can be
shown; otherwise with what showing it ends in. -/
inductive Refusal (m : Machine) (fault : Blame → Fault) (member expected v : Value) (s : Store) :
    EStateM.Result Stop Store Value → Prop
  | told {b : Blame} {t u : Store} : s.Grows t → shortText m v t = .ok b.shown u → b.Tells member expected v →
      Refusal m fault member expected v s (.error (.raised (fault b)) u)
  | mute {e : Stop} {t u : Store} : s.Grows t → shortText m v t = .error e u →
      Refusal m fault member expected v s (.error e u)

/-- Ends in the fault that tells a value, as far as it can be shown. -/
def tell (m : Machine) (fault : Blame → Fault) (name text : String) (v : Value) : Act Value := do
  fail (fault ⟨.str name,.str text,v,name,text,← shortText m v⟩)

theorem refusal_of_tell (fault : Blame → Fault) (name text : String) (v : Value) (hs : s.Grows t) :
    Refusal m fault (.str name) (.str text) v s (tell m fault name text v t) := by
  cases h : shortText m v t with
  | ok x u =>
    rw [tell,bind_ok h]
    exact .told hs h ⟨rfl,rfl,rfl⟩
  | error e u =>
    rw [tell,bind_error h]
    exact .mute hs h

theorem fail_blame (fault : Blame → Fault) (name text : String) (v : Value) (s : Store) :
    (do fail (fault (← blame m (.str name) (.str text) v)) : Act Value) s = tell m fault name text v s := by
  have hblame : blame m (.str name) (.str text) v s
      = (do return ⟨.str name,.str text,v,name,text,← shortText m v⟩ : Act Blame) s := by
    rw [blame,bind_ok (formatted_str m name s),bind_ok (formatted_str m text s)]
  rw [tell,bind_congr_left hblame,bind_assoc]
  rfl

section reject
variable (hk : s.Checks k sig (.str name) cs)
include hk

theorem rejectInput_eq {message : String} (text : String) (v : Value) (ht : logMessage (message ++ name) s = .ok () t)
    (hg : s.Grows t) : rejectInput m message k (.str text) v s = tell m .input name text v t := by
  rw [rejectInput,bind_ok (fieldOf_member hk),bind_ok (written_str m name s),bind_ok ht,
    bind_ok (fieldOf_member (hk.grows hg)),fail_blame]

theorem rejectOutput_eq {before between : String} (reason : String) (v : Value) (hr : s.Worded r)
    (hd : r.description = .str text) (ht : logMessage (before ++ name ++ between) s = .ok () t) (hg : s.Grows t) :
    rejectOutput m before between reason k r.value v s = tell m (.output · reason) name text v t := by
  have hdescription : descriptionOf m r.value t = .ok (.str text) t := by
    simp [descriptionOf,(hr.keep (Store.Keeps.of_grows hg)).held.held,hd]
  rw [rejectOutput,bind_ok (fieldOf_member hk),bind_ok (written_str m name s),bind_ok ht,
    bind_ok (fieldOf_member (hk.grows hg)),bind_ok hdescription,fail_blame (.output · reason)]

theorem rejectInput_refuses {d : Value} (hd : ∃ x, d = .str x) (message : String) (v : Value) :
    Refusal m .input (.str name) d v s (rejectInput m message k d v s) := by
  obtain ⟨text,rfl⟩ := hd
  obtain ⟨_,t,ht,hg⟩ := calm_logMessage (message ++ name) s
  rw [rejectInput_eq hk text v ht hg]
  exact refusal_of_tell .input name text v hg

theorem rejectOutput_refuses (hr : s.Worded r) (before between reason : String) (v : Value) :
    Refusal m (.output · reason) (.str name) r.description v s
      (rejectOutput m before between reason k r.value v s) := by
  obtain ⟨_,t,ht,hg⟩ := calm_logMessage (before ++ name ++ between) s
  obtain ⟨text,htext⟩ := hr.text
  rw [rejectOutput_eq hk reason v hr htext ht hg,htext]
  exact refusal_of_tell (.output · reason) name text v hg

end reject

/-- What becomes of a result.  A plain contract runs on it, and it is handed on itself unless that is a mismatch.  A
signature needs something callable; what is signed already is handed on itself, and anything else in a new wrapper,
unless its attributes cannot be taken over. -/
inductive Examines (m : Machine) (name : String) (r : Contract) (g : Value) (s : Store) :
    EStateM.Result Stop Store Value → Prop
  | passed {o : Outcome} {u : Store} : s.classOf r.value = .builtin .contract → r.outcome m g s = .ok o u →
      o ≠ .mismatched → Examines m name r g s (.ok g u)
  | failed {u : Store} {y : EStateM.Result Stop Store Value} : s.classOf r.value = .builtin .contract →
      r.outcome m g s = .ok .mismatched u →
      Refusal m (.output · "but returned") (.str name) r.description g u y → Examines m name r g s y
  | stopped {e : Stop} {u : Store} : s.classOf r.value = .builtin .contract → r.outcome m g s = .error e u →
      Examines m name r g s (.error e u)
  | idle {y : EStateM.Result Stop Store Value} : s.classOf r.value = .builtin .signature → s.isCallable g = false →
      Refusal m (.output · "but returned value is no function") (.str name) r.description g s y →
      Examines m name r g s y
  | signed {u : Store} : s.classOf r.value = .builtin .signature → s.isCallable g → isSigned m g s = .ok true u →
      Examines m name r g s (.ok g u)
  | wrapped {suffix : String} {ds : List Contract} {k w : Value} {u t v z : Store} {o : Obj} :
      s.classOf r.value = .builtin .signature → s.isCallable g → isSigned m g s = .ok false u →
      u.attr? (.ref settingsRef) "anonymous_suffix" = some (.str suffix) → u.Grows t →
      t.Checks k r.value (.str (name ++ suffix)) ds → Wrapper.around m g k t = .ok w z →
      z.Wraps .wrapper w g k → w = .ref v.heap.size → z = (v.alloc o).2 → Examines m name r g s (.ok w z)
  | unwrapped {k : Value} {e : Stop} {u t z : Store} : s.classOf r.value = .builtin .signature → s.isCallable g →
      isSigned m g s = .ok false u → u.Grows t → Wrapper.around m g k t = .error e z →
      Examines m name r g s (.error e z)
  | unasked {e : Stop} {u : Store} : s.classOf r.value = .builtin .signature → s.isCallable g →
      isSigned m g s = .error e u → Examines m name r g s (.error e u)

/-- How a call ends that comes to a check with these arguments, packed; `body` is what it guards.  Named arguments are
refused at once where they are not allowed; then each argument meets its contract, and the body runs only if all do.
What the body raises is raised. -/
inductive Crosses (m : Machine) (name : String) (cs : List Contract) (i r : Contract) (allow : Bool)
    (args : List Value) (named : Fields Value) (body : Act Value) (a n : Value) (s : Store) :
    EStateM.Result Stop Store Value → Prop
  | unnamed {y : EStateM.Result Stop Store Value} : named ≠ [] → allow = false →
      Refusal m .input (.str name) i.description n s y → Crosses m name cs i r allow args named body a n s y
  | stopped {e : Stop} {u : Store} : (named = [] ∨ allow = true) → look m cs args s = .error e u →
      Crosses m name cs i r allow args named body a n s (.error e u)
  | refused {u : Store} {y : EStateM.Result Stop Store Value} : (named = [] ∨ allow = true) →
      look m cs args s = .ok false u → Refusal m .input (.str name) i.description a u y →
      Crosses m name cs i r allow args named body a n s y
  | raised {e : Stop} {u z : Store} : (named = [] ∨ allow = true) → look m cs args s = .ok true u →
      body u = .error e z → Crosses m name cs i r allow args named body a n s (.error e z)
  | returned {g : Value} {u z : Store} {y : EStateM.Result Stop Store Value} : (named = [] ∨ allow = true) →
      look m cs args s = .ok true u → body u = .ok g z → Examines m name r g z y →
      Crosses m name cs i r allow args named body a n s y

theorem mismatches_held (h : s.contract? v = some r) :
    mismatches m v g s = (do return (← r.outcome m g) = .mismatched : Act Bool) s := by
  rw [mismatches,get_bind_apply,h]

/-- What a wrapper is made of is taken over first; the wrapper comes last. -/
theorem fresh_of_make {c : BuiltinClass} {e : Fields Value} {w : Value} (h : Wrapper.make m c g k e s = .ok w t) :
    ∃ v o, w = .ref (v : Store).heap.size ∧ t = (v.alloc o).2 := by
  rw [Wrapper.make,bind_eq_ok] at h
  obtain ⟨_,u,-,h⟩ := h
  rw [bind_eq_ok] at h
  obtain ⟨_,v,-,h⟩ := h
  obtain ⟨rfl,rfl⟩ : Value.ref v.heap.size = w ∧ _ = t := by simpa using h
  exact ⟨v,_,rfl,rfl⟩

theorem isSignature_contract (hr : s.IsContract r) :
    isSignature m r.value s = .ok (decide (s.classOf r.value = .builtin .signature)) s := by
  rcases hr.cls with hc | hc
  · rw [hc]
    exact isKind_builtin hc (by decide)
  · rw [hc]
    exact isKind_builtin hc (by decide)

/-- A plain contract decides by its outcome. -/
theorem checkResult_held (hr : s.IsContract r) (hc : s.classOf r.value = .builtin .contract) (g : Value) :
    checkResult m k r.value g s = (do
      if (← r.outcome m g) = .mismatched then
        rejectOutput m "output type mismatch in " "" "but returned" k r.value g
      else return g : Act Value) s := by
  have hno : isSignature m r.value s = .ok false s := by
    rw [isSignature_contract hr,hc]
    rfl
  rw [checkResult_contract hno,bind_congr_left (mismatches_held hr.held),bind_assoc]
  exact bind_congr_of fun o u _ => by simp only [pure_bind,decide_eq_true_eq]

theorem isSignature_promised (hr : s.IsContract r) (hc : s.classOf r.value = .builtin .signature) :
    isSignature m r.value s = .ok true s := by
  rw [isSignature_contract hr,hc]
  rfl

/-- Nothing that the program runs in a call tampers with the library, or with what the program itself relies on, and
the suffix for nested members is a text. -/
structure Heedful (W : Store → Prop) (m : Machine) (s : Store) (cs : List Contract) (r : Contract)
    (body : Act Value) : Prop where
  start : W s
  grows : ∀ t u, W t → t.Grows u → W u
  suffix : ∀ t, W t → ∃ x, t.attr? (.ref settingsRef) "anonymous_suffix" = some (.str x)
  tests : ∀ c ∈ r :: cs, ∀ v, (c.outcome m v).Heeds W s
  guarded : body.Heeds W s
  signed : s.classOf r.value = .builtin .signature →
    ∀ t g u, W t → body t = .ok g u → (isSigned m g).Heeds W s

/-- A promised signature can be checked in turn. -/
theorem exists_nested (name : String) (hr : Pledged s r) (hc : s.classOf r.value = .builtin .signature) :
    ∃ k t ds, check M.next r.value (.str name) s = .ok k t ∧ s.Grows t ∧ t.Checks k r.value (.str name) ds := by
  obtain ⟨ds,p,hsig,hds⟩ := hr.parts hc
  obtain ⟨k,t,hk,hg,hchecks,-⟩ := quiet_check (M := M) (n := .str name) (fun _ h => h) hsig fun d hd =>
    (Contract.describable_of_worded (hds d hd) M.next).mono fun _ h => Store.Keeps.of_grows h
  exact ⟨k,t,ds,hk,hg,hchecks⟩

/-- It is nested under the longer name. -/
theorem nest_pledged {suffix : String} (hk : s.Checks k sig (.str name) cs) (hr : Pledged s r)
    (hc : s.classOf r.value = .builtin .signature)
    (hsuffix : s.attr? (.ref settingsRef) "anonymous_suffix" = some (.str suffix)) (g : Value) :
    ∃ c t ds, nest M.next k r.value g s = Wrapper.around M.next g c t ∧ s.Grows t ∧
      t.Checks c r.value (.str (name ++ suffix)) ds := by
  obtain ⟨c,t,ds,hcheck,hg,hchecks⟩ := exists_nested (M := M) (name ++ suffix) hr hc
  exact ⟨c,t,ds,nest_eq hk hsuffix hcheck,hg,hchecks⟩

section crossing
variable (hs : s.Grows t) (hg : Guard t k sig name cs i r)
include hs hg

/-- What a check makes of a result that a plain contract looks at. -/
theorem examines_plain (hu : s.Minds W t u) (hplain : u.classOf r.value = .builtin .contract)
    (hret : (r.outcome M.next g).Heeds W s) :
    Examines M.next name r g u (checkResult M.next k r.value g u) := by
  rw [checkResult_held (hg.minds hu).ret.worded.held hplain]
  cases ho : r.outcome M.next g u with
  | error e z =>
    rw [bind_error ho]
    exact .stopped hplain ho
  | ok o z =>
    rw [bind_ok ho]
    by_cases hm : o = .mismatched
    · subst hm
      have hgz := hg.minds (hret.of_ok hs hu ho)
      exact .failed hplain ho (rejectOutput_refuses hgz.checks hgz.ret.worded _ _ _ g)
    · rw [if_neg hm]
      exact .passed hplain ho hm

/-- What a check makes of a result where a signature is promised. -/
theorem examines_promised
    (hsuffix : ∀ u, W u → ∃ x, u.attr? (.ref settingsRef) "anonymous_suffix" = some (.str x))
    (hu : s.Minds W t u) (hsig : u.classOf r.value = .builtin .signature) (hsigned : (isSigned M.next g).Heeds W s) :
    Examines M.next name r g u (checkResult M.next k r.value g u) := by
  have hgu := hg.minds hu
  rw [checkResult_signature (isSignature_promised hgu.ret.worded.held hsig)]
  cases hcall : u.isCallable g with
  | false => exact .idle hsig hcall (rejectOutput_refuses hgu.checks hgu.ret.worded _ _ _ g)
  | true =>
    simp only [Bool.not_true,Bool.false_eq_true,if_false]
    cases hb : isSigned M.next g u with
    | error e z =>
      rw [bind_error hb]
      exact .unasked hsig hcall hb
    | ok b z =>
      rw [bind_ok hb]
      cases b with
      | true => exact .signed hsig hcall hb
      | false =>
        have hz := hsigned.of_ok hs hu hb
        have hgz := hg.minds hz
        obtain ⟨suffix,hsuffix⟩ := hsuffix z hz.own
        have hsigz : z.classOf r.value = .builtin .signature := by rw [hg.classOf_ret hz,← hg.classOf_ret hu,hsig]
        obtain ⟨c,t',ds,hnest,hgt,hchecks⟩ := nest_pledged (M := M) hgz.checks hgz.ret hsigz hsuffix g
        simp only [Bool.false_eq_true,if_false]
        rw [hnest]
        cases hw : Wrapper.around M.next g c t' with
        | error e y => exact .unwrapped hsig hcall hb hgt hw
        | ok w y =>
          obtain ⟨v,o,hv,hy⟩ := fresh_of_make hw
          exact .wrapped hsig hcall hb hsuffix hgt hchecks hw (Wrapper.wraps_of_make (Or.inl rfl) hw) hv hy

/-- What a check makes of a result. -/
theorem checkResult_examines
    (hsuffix : ∀ u, W u → ∃ x, u.attr? (.ref settingsRef) "anonymous_suffix" = some (.str x))
    (hu : s.Minds W t u) (hret : (r.outcome M.next g).Heeds W s)
    (hsigned : t.classOf r.value = .builtin .signature → (isSigned M.next g).Heeds W s) :
    Examines M.next name r g u (checkResult M.next k r.value g u) := by
  rcases (hg.minds hu).ret.worded.held.cls with hplain | hsig
  · exact examines_plain hs hg hu hplain hret
  · exact examines_promised hs hg hsuffix hu hsig (hsigned ((hg.classOf_ret hu).symm.trans hsig))

omit hs in
theorem part_of_guard (p : String) :
    part m sig p t = .ok (if p = "input" then i.value else r.value) t := by
  obtain ⟨c,test,q,hb,hi,hr⟩ := hg.body
  simp [part,Store.contract?_of_body hb,Store.parts?_of_body hb,hi,hr]

omit hs in
theorem mismatches_packed {a : Value} (ha : t.IsTuple a args) : ∃ x, t.attr? k "_arguments" = some x ∧
    mismatches m x a t = (do return !(← look m cs args) : Act Bool) t := by
  obtain ⟨q,d,harg,-,hq⟩ := hg.checks.arguments
  refine ⟨_,harg,?_⟩
  have ho : (Contract.mk q d (.product cs)).outcome m a t
      = (look m cs args >>= fun b => pure (if b then .matched else .mismatched) : Act Outcome) t := by
    rw [Contract.outcome_of_held hq]
    exact bind_congr_left (holds_product ha)
  rw [mismatches_held hq,bind_congr_left ho,bind_assoc]
  refine bind_congr_of fun b u _ => ?_
  cases b <;> rfl

end crossing

/-- Names are refused where there are any and they are not allowed. -/
theorem refusesNamed_table {allow : Bool} {d : Ref} (hd : t.IsTable d (named.map fun f => (.str f.1,f.2)))
    (hallow : t.attr? (.ref settingsRef) "allow_keywords" = some (.bool allow)) :
    refusesNamed m (.ref d) t = .ok (decide (named ≠ []) && !allow) t := by
  have hset : setting "allow_keywords" t = .ok (.bool allow) t := by simp [setting,ownAttr,hallow]
  have htruth : truth m (.bool allow) t = .ok allow t := by
    simp [truth,Store.nativeTruth?,Store.unboxed,Store.body?,Store.obj?,
      show t.classOf (.bool allow) = .builtin .bool from rfl]
  rw [refusesNamed,bind_ok (truth_table hd)]
  by_cases hnone : named = []
  · simp [hnone]
  · simp only [ne_eq,List.map_eq_nil_iff,hnone,not_false_eq_true,decide_true,if_true,Bool.true_and]
    rw [bind_ok hset,bind_ok htruth]
    rfl

/-- What a check does with a result. -/
def conclude (m : Machine) (k result : Value) : Act Value := do
  checkResult m k (← part m (← fieldOf m k "signature") "ret") result

theorem conclude_guarded (hg : Guard t k sig name cs i r) (g : Value) :
    conclude m k g t = checkResult m k r.value g t := by
  rw [conclude,bind_ok (fieldOf_own hg.checks.classOf hg.checks.signature),bind_ok (part_of_guard hg "ret")]
  rfl

/-- What a check does once the arguments have passed. -/
def pass (m : Machine) (k g a n : Value) : Act Value := do
  conclude m k (← m.call g (← iterate m a) (← namedOf m n))

/-- What a check does with packed arguments. -/
theorem enforce_packed {b : Bool} (hg : Guard t k sig name cs i r) (ha : t.IsTuple a args)
    (hnamed : refusesNamed m n t = .ok b t) :
    enforce m k g a n t = (if b then rejectInput m "keyword arguments rejected in " k i.description n
      else do
        if ← look m cs args then pass m k g a n
        else rejectInput m "input type mismatch in " k i.description a : Act Value) t := by
  have hd : descriptionOf m i.value t = .ok i.description t := by simp [descriptionOf,hg.input.held.held]
  obtain ⟨x,hx,hlook⟩ := mismatches_packed hg (m := m) ha
  rw [enforce,bind_ok (fieldOf_own hg.checks.classOf hg.checks.signature),bind_ok (part_of_guard hg "input")]
  simp only [if_true]
  rw [bind_ok hd,bind_ok hnamed]
  cases b with
  | true => rfl
  | false =>
    simp only [Bool.false_eq_true,if_false]
    rw [bind_ok (fieldOf_own hg.checks.classOf hx),bind_congr_left hlook,bind_assoc]
    refine bind_congr_of fun b u _ => ?_
    cases b <;> rfl

/-- What was packed is handed on as it was given. -/
theorem pass_packed (hp : t.Packed args named a n) (ha : t.Holds (.during s t) a) (hn : t.Holds (.during s t) n)
    (hu : t.Keeps (.during s t) u) : pass m k g a n u = (m.call g args named >>= conclude m k) u := by
  obtain ⟨d,rfl,htable⟩ := hp.named
  have htable' : u.IsTable d (named.map fun f => (.str f.1,f.2)) :=
    ⟨by rw [hu.classOf hn,htable.cls],by rw [hu.body? hn,htable.body]⟩
  have hnamed : namedOf m (.ref d) u = .ok named u := by rw [namedOf_table htable',named_fields]
  rw [pass,bind_ok (iterate_tuple (hp.args.keep hu ha)),bind_ok hnamed]

/-- A check lets a call cross the boundary. -/
theorem enforce_crosses {allow : Bool} {body : Act Value} (hs : s.Grows t) (hg : Guard s k sig name cs i r)
    (hp : t.Packed args named a n)
    (ha : t.Holds (.during s t) a) (hn : t.Holds (.during s t) n)
    (hallow : t.attr? (.ref settingsRef) "allow_keywords" = some (.bool allow))
    (hcall : ∀ u, s.Minds W t u → M.next.call g args named u = body u) (hb : Heedful W M.next s cs r body) :
    Crosses M.next name cs i r allow args named body a n t (enforce M.next k g a n t) := by
  obtain ⟨d,rfl,htable⟩ := hp.named
  have hclass : t.classOf r.value = s.classOf r.value :=
    hs.classOf (holds_contract (fun _ _ _ => trivial) hg.ret.worded.held)
  replace hg := hg.grows hs
  have hstart : s.Minds W t t := ⟨Store.Keeps.refl _ t,hb.grows s t hb.start hs⟩
  rw [enforce_packed hg hp.args (refusesNamed_table htable hallow)]
  by_cases hno : named ≠ [] ∧ allow = false
  · -- names that are not allowed
    obtain ⟨hnamed,rfl⟩ := hno
    simp only [ne_eq,hnamed,not_false_eq_true,decide_true,Bool.not_false,Bool.and_true,if_true]
    exact .unnamed hnamed rfl (rejectInput_refuses hg.checks hg.input.text _ _)
  have hyes : named = [] ∨ allow = true := by
    by_cases hnamed : named = []
    · exact Or.inl hnamed
    · exact Or.inr (by simpa using fun h => hno ⟨hnamed,h⟩)
  have hgoes : (decide (named ≠ []) && !allow) = false := by rcases hyes with h | h <;> simp [h]
  simp only [hgoes,Bool.false_eq_true,if_false]
  cases hl : look M.next cs args t with
  | error e u =>
    rw [bind_error hl]
    exact .stopped hyes hl
  | ok b u =>
    have hu := (heeds_look (fun c hc => hb.tests c (by simp [hc])) args).of_ok hs hstart hl
    have hgu := hg.minds hu
    rw [bind_ok hl]
    cases b with
    | false => exact .refused hyes hl (rejectInput_refuses hgu.checks hg.input.text _ _)
    | true =>
      simp only [if_true]
      rw [pass_packed hp ha hn hu.kept,bind_congr_left (hcall u hu)]
      cases hz : body u with
      | error e z =>
        rw [bind_error hz]
        exact .raised hyes hl hz
      | ok x z =>
        have hmz := hb.guarded.of_ok hs hu hz
        rw [bind_ok hz,conclude_guarded (hg.minds hmz)]
        exact .returned hyes hl hz (checkResult_examines hs hg hb.suffix hmz (hb.tests r (by simp) x)
          fun hc => hb.signed (hclass ▸ hc) u x z hu.own hz)

theorem library_holds (q : Ref) :
    ∀ b ∈ [BuiltinClass.contract,.signature,.signatureCheck,.tuple], Frame.library.holds q (.builtin b) := by
  intro b hb
  simp only [List.mem_cons,List.not_mem_nil,or_false] at hb
  rcases hb with rfl | rfl | rfl | rfl <;> simp [Frame.library]

/-- A check that was made of a signature is in place for as long as the library is left alone. -/
theorem guard_of_signature {p : Parts} (hp : u.IsSignature sig cs p) (hret : p.ret = r.value) (hi : p.input = i.value)
    (hcs : ∀ c ∈ cs, u.Worded c) (hw : u.Worded i) (hr : Pledged u r) (hk : check N.next sig (.str name) u = .ok k z)
    (hzx : z.Keeps .library x) : u.Keeps .library x ∧ Guard x k sig name cs i r := by
  obtain ⟨k',z',hk',hg,hchecks,-⟩ := quiet_check (M := N) (n := .str name) (fun _ h => h) hp fun c hc =>
    (Contract.describable_of_worded (hcs c hc) N.next).mono fun _ h => Store.Keeps.of_grows h
  obtain ⟨rfl,rfl⟩ : k' = k ∧ z' = z := by simpa [hk'] using hk
  have hux : u.Keeps .library x := (Store.Keeps.of_grows hg).trans hzx
  have hpx := isSignature_library hp hux
  obtain ⟨c,test,hb⟩ := hpx.body
  exact ⟨hux,checks_library hchecks hzx,hpx.cls,⟨c,test,p,hb,hi,hret⟩,hw.keep hux,hr.keep library_holds hux⟩

/-- So is one of a signature that was built. -/
theorem guard_of_check (hcs : ∀ c ∈ cs, s.Worded c) (hr : Pledged s r)
    (hsig : Contract.proc m.next (cs.map Contract.value ++ [r.value]) s = .ok sig t) (htu : t.Keeps .library u)
    (hk : check N.next sig (.str name) u = .ok k z) (hzx : z.Keeps .library x) : ∃ i, Guard x k sig name cs i r := by
  obtain ⟨d,hd⟩ := hr.worded.stands (M := m)
  obtain ⟨hst,hassembled⟩ := (Contract.quiet_assemble (fun c hc => (hcs c hc).stands) hd).seen hsig
  have hsu : s.Keeps .library u := (Store.Keeps.of_grows hst).trans htu
  obtain ⟨p,hp,hret,i,hi,hinput⟩ := hassembled.parts
  have hw : t.Worded i := hinput.elim (fun h => (hcs i h).keep (Store.Keeps.of_grows hst)) id
  exact ⟨i,(guard_of_signature (isSignature_library hp htu) hret hi (fun c hc => (hcs c hc).keep hsu) (hw.keep htu)
    (hr.keep library_holds hsu) hk hzx).2⟩

/-- A wrapper whose advice is a check lets calls cross the boundary, unless they name the wrapper itself. -/
theorem crosses_of_wraps {b : BuiltinClass} {allow : Bool} {body : Act Value} (hs : s.Grows t)
    (hg : Guard s k sig name cs i r) (hw : t.Wraps b w f k) (hc : b = .wrapper ∨ b = .classWrapper)
    (hset : t.Owns (.ref settingsRef))
    (hallow : t.attr? (.ref settingsRef) "allow_keywords" = some (.bool allow)) (hself : named.get? "self" = none)
    (hcall : ∀ u x, t.Grows u → s.Minds W u x → M.next.call f args named x = body x)
    (hb : Heedful W M.next s cs r body) :
    ∃ a n u, t.Packs u ∧ u.Packed args named a n ∧
      Crosses M.next name cs i r allow args named body a n u (M.next.next.next.call w args named t) := by
  obtain ⟨a,u,n,x,hu,hx,hpacks,hp,hholds⟩ := quiet_packed args named t
  have htx := hpacks.grows
  obtain ⟨ha,hn⟩ := hholds x (Store.Keeps.refl _ x)
  refine ⟨a,n,x,hpacks,hp,?_⟩
  have hsx := hs.trans htx
  rw [call_wrapper_hands args named hw hc,hself]
  simp only [Option.isSome_none,Bool.false_eq_true,if_false]
  rw [bind_ok hu,bind_ok hx,call_check (hg.grows hsx).checks]
  exact enforce_crosses hsx hg hp (ha.during hs) (hn.during hs) (Store.setting_grows hset (by decide) hallow htx)
    (fun y hy => hcall x y htx hy) hb

/-- Take a signature that was built out of contracts, a check that was made of it for a member, and a wrapper of any
callable with that check as its advice.  A call of the wrapper, with any arguments and any named ones that do not name
the wrapper itself, packs the arguments and then crosses the boundary. -/
theorem calls_of_checked {allow : Bool} (hcs : ∀ c ∈ cs, s.Worded c) (hr : Pledged s r)
    (hsig : Contract.proc m.next (cs.map Contract.value ++ [r.value]) s = .ok sig t) (htu : t.Keeps .library u)
    (hk : check N.next sig (.str name) u = .ok k z) (hzx : z.Keeps .library x) (hw : x.Wraps .wrapper w f k)
    (hset : x.Owns (.ref settingsRef)) (hallow : x.attr? (.ref settingsRef) "allow_keywords" = some (.bool allow))
    (hself : named.get? "self" = none)
    (hb : Heedful W M.next x cs r (M.next.call f args named)) :
    ∃ i a n y, Guard x k sig name cs i r ∧ x.Grows y ∧ y.Packed args named a n ∧
      Crosses M.next name cs i r allow args named (M.next.call f args named) a n y
        (M.next.next.next.call w args named x) := by
  obtain ⟨i,hg⟩ := guard_of_check hcs hr hsig htu hk hzx
  obtain ⟨a,n,y,hxy,hp,hc⟩ := crosses_of_wraps (Store.Keeps.refl _ x) hg hw (Or.inl rfl) hset hallow hself
    (fun _ _ _ _ => rfl) hb
  exact ⟨i,a,n,y,hg,hxy.grows,hp,hc⟩

/-- A signature can be checked, and whatever tells its titles can be wrapped under the check. -/
theorem exists_wrapped {p : Parts} (hp : s.IsSignature sig cs p) (hcs : ∀ c ∈ cs, s.Worded c)
    (hf : Wrapper.Tells (s.Grows ·) N f) (name : String) :
    ∃ k t w x, check M.next sig (.str name) s = .ok k t ∧ s.Grows t ∧ t.Grows x ∧ x.Wraps .wrapper w f k := by
  obtain ⟨k,t,hk,hst,-,-⟩ := quiet_check (M := M) (n := .str name) (fun _ h => h) hp fun c hc =>
    (Contract.describable_of_worded (hcs c hc) _).mono fun _ h => Store.Keeps.of_grows h
  obtain ⟨w,x,-,htx,hw,-⟩ := Wrapper.quiet_make (c := .wrapper) (a := k) (e := []) (fun y hy => hst.trans hy) hf
    (Or.inl rfl)
  exact ⟨k,t,w,x,hk,hst,htx,hw⟩

/-- Out of contracts that can be promised there can be made a signature, a check of it and a wrapper of whatever tells
its titles. -/
theorem exists_checked (hcs : ∀ c ∈ cs, s.Worded c) (hr : Pledged s r) (hf : Wrapper.Tells (s.Grows ·) N f)
    (name : String) : ∃ sig t k z w x, Contract.proc m.next (cs.map Contract.value ++ [r.value]) s = .ok sig t ∧
      check M.next sig (.str name) t = .ok k z ∧ s.Grows t ∧ t.Grows z ∧ z.Grows x ∧ x.Wraps .wrapper w f k := by
  obtain ⟨y,hy⟩ := hr.worded.stands (M := m)
  obtain ⟨sig,t,hsig,hst,hassembled⟩ := Contract.quiet_assemble (fun c hc => (hcs c hc).stands) hy
  obtain ⟨p,hp,-⟩ := hassembled.parts
  obtain ⟨k,z,w,x,hk,htz,hzx,hw⟩ := exists_wrapped (M := M) hp
    (fun c hc => (hcs c hc).keep (Store.Keeps.of_grows hst)) (hf.mono fun _ h => hst.trans h) name
  exact ⟨sig,t,k,z,w,x,hsig,hk,hst,htz,hzx,hw⟩

/-- Nothing is tampered with where anything passes and the body only gives something back. -/
theorem heedful_anything {body : Act Value} (hcs : ∀ c ∈ cs, c = Contract.anything)
    (hany : s.contract? Contract.anything.value = some Contract.anything)
    (hclass : s.classOf Contract.anything.value = .builtin .contract) (hset : s.Owns (.ref settingsRef))
    (hsuffix : s.attr? (.ref settingsRef) "anonymous_suffix" = some (.str text))
    (hbody : ∀ t, s.Grows t → ∃ g, body t = .ok g t) : Heedful (s.Grows ·) m s cs Contract.anything body := by
  obtain ⟨test,p,hb⟩ := Store.body_of_contract? hany
  refine ⟨Store.Keeps.refl _ s,fun t u ht hu => ht.trans hu,
    fun t ht => ⟨text,Store.setting_grows hset (by decide) hsuffix ht⟩,fun c hc v t u _ hu => ?_,fun t u _ hu => ?_,
    fun h => ?_⟩
  · obtain rfl : c = Contract.anything := (List.mem_cons.mp hc).elim id (hcs c)
    have hheld : u.contract? (.ref anyRef) = some Contract.anything := by
      rw [show Value.ref anyRef = Contract.anything.value from rfl,hu.own.contract? (Store.holds_all_of_body hb),hany]
    have ho : Contract.anything.outcome m v u = .ok .matched u :=
      Contract.outcome_of_holds (b := true) (by rw [hheld]; rfl) (by simp [Rule.holds])
    rwa [after_ok ho]
  · obtain ⟨g,hg⟩ := hbody u hu.own
    rwa [after_ok hg]
  · cases hclass.symm.trans h

/-- A function that only gives something back can be wrapped with a check that lets anything pass. -/
theorem exists_unresisting {F : Function} {allow : Bool} (hany : s.Worded Contract.anything)
    (hclass : s.classOf Contract.anything.value = .builtin .contract) (hf : s.IsFunction f F)
    (hset : s.Owns (.ref settingsRef)) (hsuffix : s.attr? (.ref settingsRef) "anonymous_suffix" = some (.str text))
    (hallow : s.attr? (.ref settingsRef) "allow_keywords" = some (.bool allow))
    (hcall : ∀ t, ∃ g, F.code.call M args named t = .ok g t) (name : String) :
    Pledged s Contract.anything ∧ ∃ sig t k z w x,
      Contract.proc M.next ([Contract.anything].map Contract.value ++ [Contract.anything.value]) s = .ok sig t ∧
      check M.next sig (.str name) t = .ok k z ∧ z.Keeps .library x ∧ x.Wraps .wrapper w f k ∧
      x.Owns (.ref settingsRef) ∧ x.attr? (.ref settingsRef) "allow_keywords" = some (.bool allow) ∧
      Heedful (x.Grows ·) M.next x [Contract.anything] Contract.anything (M.next.call f args named) := by
  have hcs : ∀ c ∈ [Contract.anything], s.Worded c := by simpa using hany
  have hpledged : Pledged s Contract.anything := ⟨hany,fun h => by cases hclass.symm.trans h⟩
  obtain ⟨sig,t,k,z,w,x,hsig,hk,hst,htz,hzx,hw⟩ := exists_checked (m := M) (M := M) hcs hpledged
    (Wrapper.tells_function (M := M) fun t ht => hf.grows ht) name
  have hsx := (hst.trans htz).trans hzx
  have hanyx := hany.keep (Store.Keeps.of_grows hsx)
  obtain ⟨test,p,hb⟩ := Store.body_of_contract? hany.held.held
  have hbody (t : Store) (ht : x.Grows t) : ∃ g, M.next.call f args named t = .ok g t := by
    rw [call_function (hf.grows (hsx.trans ht))]
    exact hcall t
  exact ⟨hpledged,sig,t,k,z,w,x,hsig,hk,Store.Keeps.of_grows hzx,hw,hset.grows hsx,
    Store.setting_grows hset (by decide) hallow hsx,heedful_anything (fun c hc => List.mem_singleton.mp hc)
      hanyx.held.held ((hsx.classOf (Store.holds_all_of_body hb)).trans hclass) (hset.grows hsx)
      (Store.setting_grows hset (by decide) hsuffix hsx) hbody⟩

/-- An identity behind a check that lets anything pass. -/
theorem calls_of_checked_identity : ∃ i w k a n x y, x.Wraps .wrapper w (.ref 33) k ∧
    Crosses Machine.halted.next "f" [Contract.anything] i Contract.anything false [.int 1] []
      (Machine.halted.next.call (.ref 33) [.int 1] []) a n y (Machine.halted.next.next.next.call w [.int 1] [] x) := by
  have hany : withIdentity.Worded Contract.anything := ⟨⟨Or.inl rfl,rfl⟩,_,rfl⟩
  have hcall (t : Store) : ∃ g, identity.code.call Machine.halted [.int 1] [] t = .ok g t := ⟨_,rfl⟩
  obtain ⟨hpledged,sig,t,k,z,w,x,hsig,hk,hzx,hw,hset,hallow,hb⟩ := exists_unresisting (f := .ref 33) hany rfl ⟨rfl,rfl⟩
    ⟨_,_,rfl,rfl,rfl⟩ rfl rfl hcall "f"
  obtain ⟨i,a,n,y,-,-,-,h⟩ := calls_of_checked (by simpa using hany) hpledged hsig (Store.Keeps.refl _ t) hk hzx hw hset
    hallow rfl hb
  exact ⟨i,w,k,a,n,x,y,hw,h⟩

/-- A function that takes one number, and an instance of a class that bears the name of a builtin one. -/
def unshown : Act (Value × Value) := do
  let c ← (Expr.classDef "list" [] []).eval Machine.full []
  let x ← Machine.full.call c [] []
  let f ← (Expr.function "f" [.required "x"] [] (.variable "x") none).eval Machine.full []
  let sig ← Contract.proc Machine.full [Contract.number.value,Contract.number.value]
  return (← sign Machine.full sig f,x)

/-- The argument is no number either way; where it cannot be shown, the call ends in no input error. -/
theorem fails_unshown :
    faultClass (unshown >>= fun p => Machine.full.call p.1 [.str "a"] []) Store.initial = some .inputTypeError ∧
    faultClass (unshown >>= fun p => Machine.full.call p.1 [p.2] []) Store.initial = some .typeError := by
  decide +kernel

end Signature
end CallContracts
