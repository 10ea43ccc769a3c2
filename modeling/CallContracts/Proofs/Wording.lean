import CallContracts.Proofs.Alike
import CallContracts.Proofs.Boundary
import CallContracts.Proofs.Plan
import CallContracts.Proofs.Shared
/-! What contracts are described by does not decide anything.  Contracts that are built by one plan, with whatever
texts, run alike; and a callable that is checked by the one or by the other of two such signatures takes the same
calls, runs the same body and gives the same, except for the texts of what was expected. -/
namespace CallContracts
open Act

/-- One store, of which something is so. -/
def Store.One (W : Store → Prop) (s t : Store) : Prop := s = t ∧ W s

namespace Contract
variable {K : Realm} {P : Ref → Ref → Prop} {R : Store → Store → Prop} {m n : Machine} {s t u v : Store}
  {c d : Contract} {cs ds : List Contract} {p : Plan} {ps : List Plan}

mutual
/-- The tests, classes and names of a plan are of the realm. -/
def Plan.Within (K : Realm) : Plan → Prop
  | .atom _ => ∀ k ∈ [BuiltinClass.date,.pattern], K.Cls (.builtinClass k)
  | .inst k => K.Cls k
  | .test f => K.Test f
  | .all ps | .any ps | .product ps => withinAll K ps
  | .not p | .maybe p | .array p => p.Within K
  | .anyArray => True
  | .record fs => withinShape K fs
  | .proc ps r => withinAll K ps ∧ r.Within K
def withinAll (K : Realm) : List Plan → Prop
  | [] => True
  | p :: ps => p.Within K ∧ withinAll K ps
def withinShape (K : Realm) : List (Value × Plan) → Prop
  | [] => True
  | (k, p) :: fs => K.Name k ∧ p.Within K ∧ withinShape K fs
end

/-- There are contracts in both of these places. -/
def InPlaces (s t : Store) (r q : Ref) : Prop := (∃ c, s.IsContract c ∧ c.id = r) ∧ ∃ c, t.IsContract c ∧ c.id = q

/-- Contracts stay in their places. -/
theorem placed_keep (hR : ∀ u v, R u v → s.Keeps .library u ∧ t.Keeps .library v) : Placed (InPlaces s t) R := by
  rintro r q u v ⟨⟨c,hc,rfl⟩,d,hd,rfl⟩ huv
  obtain ⟨hu,hv⟩ := hR u v huv
  have hc := (hc.library hu).held
  have hd := (hd.library hv).held
  exact ⟨Option.isSome_iff_exists.mpr ⟨c,hc⟩,Option.isSome_iff_exists.mpr ⟨d,hd⟩⟩

theorem twins_atom (hc : c ∈ atoms.map Prod.fst) (hs : ∀ d ∈ standard, P d.id d.id)
    (hK : ∀ k ∈ [BuiltinClass.date,.pattern], K.Cls (.builtinClass k)) : c.rule.Twins K P c.rule := by
  have hdate : K.Cls (.builtinClass .date) := hK _ (by simp)
  have hpattern : K.Cls (.builtinClass .pattern) := hK _ (by simp)
  have hP (d : Contract) (hd : d ∈ standard) : P d.id d.id := hs d hd
  simp only [standard,List.mem_cons,List.not_mem_nil,or_false] at hP
  simp only [atoms,List.map_cons,List.map_nil,List.mem_cons,List.not_mem_nil,or_false] at hc
  rcases hc with rfl | rfl | rfl | rfl | rfl | rfl | rfl | rfl | rfl
  case inr.inr.inr.inr.inr.inr.inr.inr =>
    -- the only atom that has parts
    have hkind := hP objectKind (by simp)
    have harray := hP noArray (by simp)
    have hday := hP noDate (by simp)
    have hnone := hP anyArray (by simp)
    have hthat := hP date (by simp)
    simp_all [object,objectKind,noArray,noDate,anyArray,date,ofKind,ofClass,named,Rule.Twins,Contract.Twins,twinsAll]
  all_goals simp_all [anything,string,number,boolean,function,undefined,date,regex,ofKind,ofClass,named,Rule.Twins]

theorem twins_of_rule (hP : P c.id d.id) (h : c.rule.Twins K P d.rule) : c.Twins K P d := by
  obtain ⟨r,x,t⟩ := c
  simp only [Contract.Twins]
  exact ⟨hP,h⟩

theorem inPlaces_of_worded (hc : s.Worded c) (hd : t.Worded d) : InPlaces s t c.id d.id :=
  ⟨⟨c,hc.held,rfl⟩,d,hd.held,rfl⟩

mutual
/-- Contracts that fit one plan have rules that are twins. -/
theorem twinRules_of_fits : ∀ {p : Plan} {c d : Contract}, p.Within K → p.Fits s c → p.Fits t d →
    c.rule.Twins K (InPlaces s t) d.rule
  | .atom a, c, d, hp, hc, hd => by
    simp only [Plan.Fits,Plan.Within] at hp hc hd
    obtain ⟨rfl,ha,hs,hmade⟩ := hc
    obtain ⟨rfl,-,ht,hmade'⟩ := hd
    exact twins_atom ha (fun d hd => ⟨⟨d,hs d hd,rfl⟩,d,ht d hd,rfl⟩) hp
  | .inst k, c, d, hp, hc, hd | .test f, c, d, hp, hc, hd => by
    simp only [Plan.Fits,Plan.Within] at hp hc hd
    rw [hc.rule,hd.rule]
    simpa only [Rule.Twins,true_and] using hp
  | .anyArray, c, d, hp, hc, hd => by
    simp only [Plan.Fits] at hc hd
    rw [hc.rule,hd.rule]
    simp only [Rule.Twins]
  | .all ps, c, d, hp, hc, hd | .any ps, c, d, hp, hc, hd | .product ps, c, d, hp, hc, hd => by
    simp only [Plan.Fits,Plan.Within] at hp hc hd
    obtain ⟨cs,hc,hcs⟩ := hc
    obtain ⟨ds,hd,hds⟩ := hd
    rw [hc.rule,hd.rule]
    simp only [Rule.Twins]
    exact ⟨ds,rfl,twinsAll_of_fits hp hcs hds⟩
  | .not p, c, d, hp, hc, hd | .maybe p, c, d, hp, hc, hd | .array p, c, d, hp, hc, hd => by
    simp only [Plan.Fits,Plan.Within] at hp hc hd
    obtain ⟨e,hc,he⟩ := hc
    obtain ⟨e',hd,he'⟩ := hd
    rw [hc.rule,hd.rule]
    simp only [Rule.Twins]
    exact ⟨e',rfl,twins_of_rule (inPlaces_of_worded he.worded he'.worded) (twinRules_of_fits hp he he')⟩
  | .record fs, c, d, hp, hc, hd => by
    simp only [Plan.Fits,Plan.Within] at hp hc hd
    obtain ⟨es,hc,hes⟩ := hc
    obtain ⟨es',hd,hes'⟩ := hd
    rw [hc.rule,hd.rule]
    simp only [Rule.Twins]
    exact ⟨es',rfl,twinsShape_of_fits hp hes hes'⟩
  | .proc ps r, c, d, hp, hc, hd => by
    simp only [Plan.Fits] at hc hd
    obtain ⟨cs,e,hc,-,-⟩ := hc
    obtain ⟨ds,e',hd,-,-⟩ := hd
    rw [hc.rule,hd.rule]
    simp only [Rule.Twins]
theorem twinsAll_of_fits : ∀ {ps : List Plan} {cs ds : List Contract}, withinAll K ps → fitsAll s ps cs →
    fitsAll t ps ds → twinsAll K (InPlaces s t) cs ds
  | [], cs, ds, _, hc, hd => by
    simp only [fitsAll] at hc hd
    simp [hc,hd,twinsAll]
  | p :: ps, cs, ds, hp, hc, hd => by
    simp only [withinAll,fitsAll] at hp hc hd
    obtain ⟨c,cs,rfl,hc,hcs⟩ := hc
    obtain ⟨d,ds,rfl,hd,hds⟩ := hd
    simp only [twinsAll]
    exact ⟨d,ds,rfl,twins_of_rule (inPlaces_of_worded hc.worded hd.worded) (twinRules_of_fits hp.1 hc hd),
      twinsAll_of_fits hp.2 hcs hds⟩
theorem twinsShape_of_fits : ∀ {fs : List (Value × Plan)} {es es' : List (Value × Contract)}, withinShape K fs →
    fitsShape s fs es → fitsShape t fs es' → twinsShape K (InPlaces s t) es es'
  | [], es, es', _, hc, hd => by
    simp only [fitsShape] at hc hd
    simp [hc,hd,twinsShape]
  | (k,p) :: fs, es, es', hp, hc, hd => by
    simp only [withinShape,fitsShape] at hp hc hd
    obtain ⟨c,es,rfl,hc,hes⟩ := hc
    obtain ⟨d,es',rfl,hd,hes'⟩ := hd
    simp only [twinsShape]
    exact ⟨hp.1,d,es',rfl,twins_of_rule (inPlaces_of_worded hc.worded hd.worded) (twinRules_of_fits hp.2.1 hc hd),
      twinsShape_of_fits hp.2.2 hes hes'⟩
end

/-- Contracts that fit one plan are twins. -/
theorem twins_of_fits (hp : p.Within K) (hc : p.Fits s c) (hd : p.Fits t d) : c.Twins K (InPlaces s t) d :=
  twins_of_rule (inPlaces_of_worded hc.worded hd.worded) (twinRules_of_fits hp hc hd)

theorem worded_of_fitsAll (h : fitsAll s ps cs) : ∀ c ∈ cs, s.Worded c := by
  rw [fitsAll_iff] at h
  induction h with
  | nil => simp
  | cons hc _ ih => exact fun c hmem => (List.mem_cons.mp hmem).elim (fun h => h ▸ hc.worded) (ih c)

/-- Signatures are of a class of their own. -/
theorem cls_of_fits (h : p.Fits s c) :
    s.classOf c.value = .builtin (if p.isProc then .signature else .contract) := by
  cases p with
  | proc ps r =>
    simp only [Plan.Fits] at h
    obtain ⟨cs,d,hc,-,-⟩ := h
    exact hc.cls
  | atom a =>
    simp only [Plan.Fits] at h
    exact h.2.2.2.cls
  | inst | test | anyArray =>
    simp only [Plan.Fits] at h
    exact h.cls
  | _ =>
    simp only [Plan.Fits] at h
    obtain ⟨d,hc,-⟩ := h
    exact hc.cls

/-- Two runs of contracts on a value that end alike: in a match with the one and with the other, in a mismatch with
the description of the one and of the other, or both stopped for one reason. -/
inductive EvenRun (R : Store → Store → Prop) (a b : Contract) (v : Value) :
    EStateM.Result Stop Store Value → EStateM.Result Stop Store Value → Prop
  | matched {u w : Store} : R u w → EvenRun R a b v (newMatch a.value u) (newMatch b.value w)
  | mismatched {u w : Store} : R u w →
      EvenRun R a b v (newMismatch a.description v u) (newMismatch b.description v w)
  | stopped {e : Stop} {u w : Store} : R u w → EvenRun R a b v (.error e u) (.error e w)

/-- Contracts that are in place and fit one plan run alike, wherever all that they ask is answered alike. -/
theorem evenRun_of_fits (hK : K.Even n R) (hR : ∀ u v, R u v → s.Keeps .library u ∧ t.Keeps .library v)
    (hp : p.Within K) (hc : p.Fits s c) (hd : p.Fits t d) {x : Value} (hx : K.Val x) (huv : R u v) :
    EvenRun R c d x (runOn n c.value x u) (runOn n d.value x v) := by
  obtain ⟨hu,hv⟩ := hR u v huv
  have hcu := ((hc.keep hu).worded).held.held
  have hdv := ((hd.keep hv).worded).held.held
  have hends := alike_holds hK (placed_keep hR) (twinRules_of_fits hp hc hd) hx u v huv
  rw [runOn,runOn,get_bind_apply,get_bind_apply,hcu,hdv]
  simp only [run]
  rw [bind_apply,bind_apply]
  generalize c.rule.holds n x u = y at hends ⊢
  generalize d.rule.holds n x v = z at hends ⊢
  cases hends with
  | @ok b _ _ _ hb hR =>
    subst hb
    cases b with
    | true => exact .matched hR
    | false => exact .mismatched hR
  | error hR => exact .stopped hR

end Contract

namespace Wrapper
variable {m : Machine} {R : Store → Store → Prop} {g k : Value}

/-- What a wrapper of a value takes over from it. -/
def takenOver (m : Machine) (f : Value) : Act (Fields Value) := do
  let copied ← copiedTitles m f titles
  return copied.putAll (← takenTable m f)

theorem around_eq (m : Machine) (f a : Value) : around m f a = (do
    let taken ← takenOver m f
    alloc { cls := .builtin .wrapper, body := .plain, attrs := some ((ownFields taken f a).putAll []) }) := by
  simp [around,make,takenOver,bind_assoc]

end Wrapper

/-- The same but for what was expected. -/
structure Blame.Same (b c : Blame) : Prop where
  member : b.member = c.member
  value : b.value = c.value
  memberText : b.memberText = c.memberText
  shown : b.shown = c.shown

namespace Signature
open Contract
variable {W : Store → Prop} {K : Realm} {M N : Machine} {s t u x z : Store} {k k' sig sig' w w' f g a n : Value}
  {name : String} {i j r q : Contract} {cs ds : List Contract} {args : List Value} {named : Fields Value}
  {p : Plan} {ps : List Plan} {c d : Contract} {body : Act Value}

/-- What a call of a checked callable relies on, whatever is expected of it.  Nothing tampers with the library or
with what the call made for itself; arguments and results are of one realm; and what is taken over from a result
does not hang on what was made meanwhile. -/
structure Impartial (W : Store → Prop) (K : Realm) (m : Machine) (s : Store) (args : List Value) (body : Act Value) :
    Prop where
  start : W s
  grows : ∀ t u, W t → t.Grows u → W u
  settings : ∀ t, W t → ∃ b x, t.attr? (.ref settingsRef) "allow_keywords" = some (.bool b) ∧
    t.attr? (.ref settingsRef) "anonymous_suffix" = some (.str x)
  asked : ∀ t, s.Grows t → K.Even m (Store.One (s.Minds W t))
  args : ∀ v ∈ args, K.Val v
  guarded : body.Heeds W s
  result : ∀ t g u, W t → body t = .ok g u → K.Val g
  signed : ∀ g t, K.Val g → W t → t.isCallable g → (isSigned m g).Heeds W s
  taken : ∀ g t, K.Val g → W t → t.isCallable g → ∀ u v w, W u → u.Grows v → u.Grows w →
    Agree (fun v' w' => v.Keeps .library v' ∧ w.Keeps .library w') Eq (Wrapper.takenOver m g v)
      (Wrapper.takenOver m g w)

/-- Two calls that end alike: with the same object or the same error, or with an error that tells the same of
everything but of what was expected; or each with a new wrapper of the same result, under a check of what was
promised. -/
inductive Reworded (name : String) (i j r q : Contract) :
    EStateM.Result Stop Store Value → EStateM.Result Stop Store Value → Prop
  | input {b c : Blame} {t : Store} : b.Same c → b.expected = i.description → c.expected = j.description →
      Reworded name i j r q (.error (.raised (.input b)) t) (.error (.raised (.input c)) t)
  | output {b c : Blame} {reason : String} {t : Store} : b.Same c → b.expected = r.description →
      c.expected = q.description →
      Reworded name i j r q (.error (.raised (.output b reason)) t) (.error (.raised (.output c reason)) t)
  | stopped {e : Stop} {t : Store} : Reworded name i j r q (.error e t) (.error e t)
  | returned {g : Value} {t : Store} : Reworded name i j r q (.ok g t) (.ok g t)
  | wrapped {g w w' k k' : Value} {suffix : String} {ds es : List Contract} {t u v : Store} : t.Keeps .library u →
      t.Keeps .library v → u.Wraps .wrapper w g k → v.Wraps .wrapper w' g k' →
      u.Checks k r.value (.str (name ++ suffix)) ds → v.Checks k' q.value (.str (name ++ suffix)) es →
      Reworded name i j r q (.ok w u) (.ok w' v)
  | untaken {e : Stop} {t u v : Store} : t.Keeps .library u → t.Keeps .library v →
      Reworded name i j r q (.error e u) (.error e v)

theorem reworded_input (hi : ∃ x, i.description = .str x) (hj : ∃ x, j.description = .str x)
    (hk : s.Checks k sig (.str name) cs) (hk' : s.Checks k' sig' (.str name) ds) (message : String) (v : Value) :
    Reworded name i j r q (rejectInput M message k i.description v s) (rejectInput M message k' j.description v s) := by
  obtain ⟨y,hy⟩ := hi
  obtain ⟨y',hy'⟩ := hj
  obtain ⟨_,t,ht,hg⟩ := calm_logMessage (message ++ name) s
  rw [hy,hy',rejectInput_eq hk y v ht hg,rejectInput_eq hk' y' v ht hg,tell,tell]
  cases hx : shortText M v t with
  | ok x u =>
    rw [bind_ok hx,bind_ok hx]
    exact .input ⟨rfl,rfl,rfl,rfl⟩ hy.symm hy'.symm
  | error e u =>
    rw [bind_error hx,bind_error hx]
    exact .stopped

theorem reworded_output (hr : s.Worded r) (hq : s.Worded q) (hk : s.Checks k sig (.str name) cs)
    (hk' : s.Checks k' sig' (.str name) ds) (before between reason : String) (v : Value) :
    Reworded name i j r q (rejectOutput M before between reason k r.value v s)
      (rejectOutput M before between reason k' q.value v s) := by
  obtain ⟨y,hy⟩ := hr.text
  obtain ⟨y',hy'⟩ := hq.text
  obtain ⟨_,t,ht,hg⟩ := calm_logMessage (before ++ name ++ between) s
  rw [rejectOutput_eq hk reason v hr hy ht hg,rejectOutput_eq hk' reason v hq hy' ht hg,tell,tell]
  cases hx : shortText M v t with
  | ok x u =>
    rw [bind_ok hx,bind_ok hx]
    exact .output ⟨rfl,rfl,rfl,rfl⟩ hy.symm hy'.symm
  | error e u =>
    rw [bind_error hx,bind_error hx]
    exact .stopped

/-- Contracts stay in their places while a call is under way. -/
theorem placed_minds (hs : s.Grows t) : Placed (InPlaces s s) (Store.One (s.Minds W t)) := by
  rintro r q u _ ⟨⟨c,hc,rfl⟩,d,hd,rfl⟩ ⟨rfl,hu⟩
  have stays {c : Contract} (hc : s.IsContract c) : (u.contract? (.ref c.id)).isSome := by
    have ht : t.IsContract c := hc.library (Store.Keeps.of_grows hs)
    rw [show Value.ref c.id = c.value from rfl,hu.kept.contract? (holds_contract (during_holds s t) ht),ht.held]
    rfl
  exact ⟨stays hc,stays hd⟩

section look
variable {P : Ref → Ref → Prop} {R : Store → Store → Prop} (hK : K.Even M R) (hP : Placed P R)
include hK hP

theorem alike_eachPasses_fixed (h : twinsAll K P cs ds) (hargs : ∀ v ∈ args, K.Val v) :
    Alike R Eq (eachPasses M cs (.fixed args)) (eachPasses M ds (.fixed args)) := by
  induction cs generalizing ds args with
  | nil =>
    obtain rfl : ds = [] := by simpa only [twinsAll] using h
    simp only [eachPasses]
    exact .pure rfl
  | cons c cs ih =>
    obtain ⟨d,es,rfl,hd,hes⟩ : ∃ d es, ds = d :: es ∧ c.Twins K P d ∧ twinsAll K P cs es := by
      simpa only [twinsAll] using h
    cases args with
    | nil =>
      simp only [eachPasses,Cursor.next,pure_bind]
      exact .pure rfl
    | cons v args =>
      rw [eachPasses_cons,eachPasses_cons]
      refine (alike_outcome hK hP hd (hargs v (by simp))).bindEq fun o => ?_
      split
      · exact .pure rfl
      · exact ih hes fun v hv => hargs v (by simp [hv])

/-- Lists of twins look alike at arguments. -/
theorem alike_look (h : twinsAll K P cs ds) (hargs : ∀ v ∈ args, K.Val v) :
    Alike R Eq (look M cs args) (look M ds args) := by
  rw [look,look,length_twinsAll h]
  split
  · exact alike_eachPasses_fixed hK hP h hargs
  · exact .pure rfl

end look

/-- A wrapper of a value is made out of what it takes over. -/
theorem around_of_taken {fs : Fields Value} (h : Wrapper.takenOver M g s = .ok fs t) :
    ∃ u, Wrapper.around M g k s = .ok (.ref t.heap.size) u ∧ t.Grows u := by
  obtain ⟨_,u,hu,hg,rfl,-⟩ := quiet_alloc
    { cls := .builtin .wrapper, body := .plain, attrs := some ((Wrapper.ownFields fs g k).putAll []) } t
  exact ⟨u,by rw [Wrapper.around_eq,bind_ok h,hu],hg⟩

/-- Wrapping a result ends alike if the same is taken over, whatever the check expects. -/
theorem reworded_around {suffix : String} {es fs : List Contract} {u v : Store}
    (h : Agree (fun u' v' => u.Keeps .library u' ∧ v.Keeps .library v') Eq (Wrapper.takenOver M g u)
      (Wrapper.takenOver M g v)) (hu : z.Grows u) (hv : z.Grows v)
    (hk : u.Checks k r.value (.str (name ++ suffix)) es) (hk' : v.Checks k' q.value (.str (name ++ suffix)) fs) :
    Reworded name i j r q (Wrapper.around M g k u) (Wrapper.around M g k' v) := by
  have hu := Store.Keeps.of_grows (F := .library) hu
  have hv := Store.Keeps.of_grows (F := .library) hv
  cases hx : Wrapper.takenOver M g u with
  | error e x =>
    rw [hx] at h
    cases hy : Wrapper.takenOver M g v with
    | ok b y =>
      rw [hy] at h
      cases h
    | error e' y =>
      rw [hy] at h
      cases h with
      | error hR =>
        rw [Wrapper.around_eq,Wrapper.around_eq,bind_error hx,bind_error hy]
        exact .untaken (hu.trans hR.1) (hv.trans hR.2)
  | ok a x =>
    rw [hx] at h
    cases hy : Wrapper.takenOver M g v with
    | error e y =>
      rw [hy] at h
      cases h
    | ok b y =>
      rw [hy] at h
      cases h with
      | ok _ hR =>
        obtain ⟨x',hw,hgx⟩ := around_of_taken (k := k) hx
        obtain ⟨y',hw',hgy⟩ := around_of_taken (k := k') hy
        have hux := hR.1.trans (Store.Keeps.of_grows hgx)
        have hvy := hR.2.trans (Store.Keeps.of_grows hgy)
        rw [hw,hw']
        exact .wrapped (hu.trans hux) (hv.trans hvy) (Wrapper.wraps_of_make (Or.inl rfl) hw)
          (Wrapper.wraps_of_make (Or.inl rfl) hw') (checks_library hk hux) (checks_library hk' hvy)

section call
variable (hs : s.Grows t) (hg : Guard t k sig name cs i r) (hg' : Guard t k' sig' name ds j q)
  (hrq : r.Twins K (InPlaces s s) q) (hclass : t.classOf r.value = t.classOf q.value)
  (himp : Impartial W K M.next s args (M.next.call f args named))
include hs hg hg' hrq hclass himp

omit hclass in
/-- Plain contracts take a result alike. -/
theorem reworded_plain (hu : s.Minds W t u) (hval : K.Val g) (hplain : u.classOf r.value = .builtin .contract)
    (hplain' : u.classOf q.value = .builtin .contract) :
    Reworded name i j r q (checkResult M.next k r.value g u) (checkResult M.next k' q.value g u) := by
  obtain ⟨ho,hafter⟩ := (alike_outcome (himp.asked t hs) (placed_minds hs) hrq hval).eq_of_one hu
  rw [checkResult_held (hg.minds hu).ret.worded.held hplain,checkResult_held (hg'.minds hu).ret.worded.held hplain',
    ← bind_congr_left ho]
  cases hx : r.outcome M.next g u with
  | error e z =>
    rw [bind_error hx,bind_error hx]
    exact .stopped
  | ok o z =>
    rw [after_ok hx] at hafter
    rw [bind_ok hx,bind_ok hx]
    by_cases hm : o = .mismatched
    · have hgz := hg.minds hafter
      have hgz' := hg'.minds hafter
      rw [if_pos hm,if_pos hm]
      exact reworded_output hgz.ret.worded hgz'.ret.worded hgz.checks hgz'.checks _ _ _ g
    · rw [if_neg hm,if_neg hm]
      exact .returned

omit hrq in
/-- So do promised signatures. -/
theorem reworded_promised (hu : s.Minds W t u) (hval : K.Val g) (hsig : u.classOf r.value = .builtin .signature) :
    Reworded name i j r q (checkResult M.next k r.value g u) (checkResult M.next k' q.value g u) := by
  have hgu := hg.minds hu
  have hgu' := hg'.minds hu
  have promised {v : Store} (hv : s.Minds W t v) :
      v.classOf r.value = .builtin .signature ∧ v.classOf q.value = .builtin .signature := by
    have hr : v.classOf r.value = .builtin .signature := by rw [hg.classOf_ret hv,← hg.classOf_ret hu,hsig]
    exact ⟨hr,by rw [hg'.classOf_ret hv,← hclass,← hg.classOf_ret hv,hr]⟩
  rw [checkResult_signature (isSignature_promised hgu.ret.worded.held hsig),
    checkResult_signature (isSignature_promised hgu'.ret.worded.held (promised hu).2)]
  cases hcall : u.isCallable g with
  | false => exact reworded_output hgu.ret.worded hgu'.ret.worded hgu.checks hgu'.checks _ _ _ g
  | true =>
    simp only [Bool.not_true,Bool.false_eq_true,if_false]
    cases hb : isSigned M.next g u with
    | error e z =>
      rw [bind_error hb,bind_error hb]
      exact .stopped
    | ok b z =>
      rw [bind_ok hb,bind_ok hb]
      cases b with
      | true => exact .returned
      | false =>
        have hz := (himp.signed g u hval hu.own hcall).of_ok hs hu hb
        have hgz := hg.minds hz
        have hgz' := hg'.minds hz
        obtain ⟨-,suffix,-,hsuffix⟩ := himp.settings z hz.own
        obtain ⟨c,y,es,hnest,hgy,hchecks⟩ := nest_pledged (M := M) hgz.checks hgz.ret (promised hz).1 hsuffix g
        obtain ⟨c',y',fs,hnest',hgy',hchecks'⟩ := nest_pledged (M := M) hgz'.checks hgz'.ret (promised hz).2 hsuffix g
        simp only [Bool.false_eq_true,if_false]
        rw [hnest,hnest']
        exact reworded_around (himp.taken g u hval hu.own hcall z y y' hz.own hgy hgy') hgy hgy' hchecks hchecks'

/-- A result is taken alike. -/
theorem reworded_checkResult (hu : s.Minds W t u) (hval : K.Val g) :
    Reworded name i j r q (checkResult M.next k r.value g u) (checkResult M.next k' q.value g u) := by
  have hsame : u.classOf q.value = u.classOf r.value := by rw [hg'.classOf_ret hu,← hclass,hg.classOf_ret hu]
  rcases (hg.minds hu).ret.worded.held.cls with hplain | hsig
  · exact reworded_plain hs hg hg' hrq himp hu hval hplain (hsame.trans hplain)
  · exact reworded_promised hs hg hg' hclass himp hu hval hsig

/-- A call that comes to the one check or to the other ends alike. -/
theorem reworded_enforce (hcd : twinsAll K (InPlaces s s) cs ds) (hp : t.Packed args named a n)
    (ha : t.Holds (.during s t) a) (hn : t.Holds (.during s t) n) :
    Reworded name i j r q (enforce M.next k f a n t) (enforce M.next k' f a n t) := by
  have hstart : s.Minds W t t := ⟨Store.Keeps.refl _ t,himp.grows s t himp.start hs⟩
  obtain ⟨d,rfl,htable⟩ := hp.named
  obtain ⟨allow,-,hallow,-⟩ := himp.settings t hstart.own
  obtain ⟨heq,hafter⟩ := (alike_look (himp.asked t hs) (placed_minds hs) hcd himp.args).eq_of_one hstart
  have hnamed := refusesNamed_table (m := M.next) htable hallow
  rw [enforce_packed hg hp.args hnamed,enforce_packed hg' hp.args hnamed]
  cases decide (named ≠ []) && !allow with
  | true => exact reworded_input hg.input.text hg'.input.text hg.checks hg'.checks _ _
  | false =>
    simp only [Bool.false_eq_true,if_false]
    rw [← bind_congr_left heq]
    cases hl : look M.next cs args t with
    | error e v =>
      rw [bind_error hl,bind_error hl]
      exact .stopped
    | ok b v =>
      rw [after_ok hl] at hafter
      have hgv := hg.minds hafter
      have hgv' := hg'.minds hafter
      rw [bind_ok hl,bind_ok hl]
      cases b with
      | false => exact reworded_input hg.input.text hg'.input.text hgv.checks hgv'.checks _ a
      | true =>
        -- the body runs, once, and on the same
        simp only [if_true]
        rw [pass_packed hp ha hn hafter.kept,pass_packed hp ha hn hafter.kept]
        cases hz : M.next.call f args named v with
        | error e z =>
          rw [bind_error hz,bind_error hz]
          exact .stopped
        | ok g z =>
          have hmz := himp.guarded.of_ok hs hafter hz
          rw [bind_ok hz,bind_ok hz,conclude_guarded (hg.minds hmz),conclude_guarded (hg'.minds hmz)]
          exact reworded_checkResult hs hg hg' hrq hclass himp hmz (himp.result v g z hafter.own hz)

end call

/-- What fits a plan can be promised. -/
theorem pledged_of_fits (h : p.Fits s c) : Pledged s c := by
  refine ⟨h.worded,fun hc => ?_⟩
  cases p with
  | proc ps r =>
    simp only [Plan.Fits] at h
    obtain ⟨cs,d,hd,hcs,-⟩ := h
    obtain ⟨q,i,hsig,-⟩ := hd.parts
    exact ⟨cs,q,hsig,worded_of_fitsAll hcs⟩
  | _ => cases (cls_of_fits h).symm.trans hc

theorem guard_of_fits {rp : Plan} (h : (Plan.proc ps rp).Fits s c)
    (hk : check N.next c.value (.str name) s = .ok k z) (hzx : z.Keeps .library x) :
    ∃ cs i r, Guard x k c.value name cs i r ∧ fitsAll x ps cs ∧ rp.Fits x r := by
  simp only [Plan.Fits] at h
  obtain ⟨cs,r,hc,hcs,hr⟩ := h
  obtain ⟨q,i,hsig,hret,hi,hw⟩ := hc.parts
  obtain ⟨hsx,hg⟩ := guard_of_signature hsig hret hi (worded_of_fitsAll hcs) hw (pledged_of_fits hr) hk hzx
  exact ⟨cs,i,r,hg,fitsAll_keep hsx hcs,hr.keep hsx⟩

/-- A call of a callable in a wrapper ends alike under either check. -/
theorem reworded_call (hg : Guard s k sig name cs i r) (hg' : Guard s k' sig' name ds j q)
    (hrq : r.Twins K (InPlaces s s) q) (hclass : s.classOf r.value = s.classOf q.value)
    (hcd : twinsAll K (InPlaces s s) cs ds) (hw : s.Wraps .wrapper w f k) (hw' : s.Wraps .wrapper w' f k')
    (himp : Impartial W K M.next s args (M.next.call f args named)) :
    Reworded name i j r q (M.next.next.next.call w args named s) (M.next.next.next.call w' args named s) := by
  rw [call_wrapper_hands args named hw (Or.inl rfl),call_wrapper_hands args named hw' (Or.inl rfl)]
  cases hself : named.get? "self" with
  | some x => exact .stopped
  | none =>
    obtain ⟨a,t,n,x,ht,hx,hpacks,hp,hholds⟩ := quiet_packed args named s
    have hg'' := hpacks.grows
    obtain ⟨ha,hn⟩ := hholds x (Store.Keeps.refl _ x)
    have hgx := hg.grows hg''
    have hgx' := hg'.grows hg''
    have hstay {r : Contract} (hr : s.IsContract r) : x.classOf r.value = s.classOf r.value :=
      hg''.classOf (holds_contract (fun _ _ _ => trivial) hr)
    have hclass : x.classOf r.value = x.classOf q.value := by
      rw [hstay hg.ret.worded.held,hclass,hstay hg'.ret.worded.held]
    simp only [Option.isSome_none,Bool.false_eq_true,if_false]
    rw [bind_ok ht,bind_ok ht,bind_ok hx,bind_ok hx,call_check hgx.checks,call_check hgx'.checks]
    exact reworded_enforce hg'' hgx hgx' hrq hclass himp hcd hp ha hn

/-- Take two contracts that are built by one plan, each out of user contracts with texts of its own.  On any value
they run alike, in any two worlds that answer alike what the plan asks; in one world they leave the same store behind,
so that all is the same that tests write down.  And take two checks, of two signatures that are built so, for one
member, and a wrapper of a callable under either check: every call of the one and of the other ends alike. -/
theorem run_and_call_of_plan (hp : p.Within K) (hc : Built s c p) (hd : Built t d p) :
    (∀ n R, K.Even n R → (∀ u v, R u v → s.Keeps .library u ∧ t.Keeps .library v) → ∀ x u v, K.Val x → R u v →
      EvenRun R c d x (n.next.call (.operation (.member .contract "run" .plain)) [c.value,x] [] u)
        (n.next.call (.operation (.member .contract "run" .plain)) [d.value,x] [] v)) ∧
    ∀ ps rp, p = .proc ps rp → ∀ (N : Machine) (y y' z z' : Store) (k k' : Value) (name : String),
      s.Keeps .library y → t.Keeps .library y' →
      check N.next c.value (.str name) y = .ok k z → check N.next d.value (.str name) y' = .ok k' z' →
      ∀ x f w w', z.Keeps .library x → z'.Keeps .library x → x.Wraps .wrapper w f k → x.Wraps .wrapper w' f k' →
      ∃ cs ds i j r q, Guard x k c.value name cs i r ∧ Guard x k' d.value name ds j q ∧ rp.Fits x r ∧ rp.Fits x q ∧
        ∀ W (M : Machine) args named, Impartial W K M.next x args (M.next.call f args named) →
          Reworded name i j r q (M.next.next.next.call w args named x) (M.next.next.next.call w' args named x) := by
  refine ⟨fun n R hK hR x u v hx huv => ?_,?_⟩
  · rw [call_run,call_run]
    exact evenRun_of_fits hK hR hp hc.fits hd.fits hx huv
  · rintro ps rp rfl N y y' z z' k k' name hsy hty' hk hk' x f w w' hzx hzx' hw hw'
    obtain ⟨cs,i,r,hg,hcs,hr⟩ := guard_of_fits (hc.fits.keep hsy) hk hzx
    obtain ⟨ds,j,q,hg',hds,hq⟩ := guard_of_fits (hd.fits.keep hty') hk' hzx'
    simp only [Plan.Within] at hp
    refine ⟨cs,ds,i,j,r,q,hg,hg',hr,hq,fun W M args named himp => ?_⟩
    exact reworded_call hg hg' (twins_of_fits hp.2 hr hq) (by rw [cls_of_fits hr,cls_of_fits hq])
      (twinsAll_of_fits hp.1 hcs hds) hw hw' himp

/-- There can be a user contract that is described by any text. -/
theorem exists_user (s : Store) (text : String) (f : Value) :
    ∃ (a : Contract) (t : Store), s.Grows t ∧ Built t a (.test f) ∧ t.Made a (.test f) ∧ a.description = .str text := by
  obtain ⟨_,t,ht,hst,rfl,ho⟩ := quiet_alloc
    { cls := .builtin .contract, body := .contract (.mk s.heap.size (.str text) (.test f)) f none } s
  let a : Contract := .mk s.heap.size (.str text) (.test f)
  have ha : t.contract? a.value = some a := Store.contract?_of_body (Store.body?_of_get? ho)
  exact ⟨a,t,hst,.user (s := s) ⟨ht,ha⟩,⟨Store.classOf_of_get? ho,ha,⟨text,rfl⟩,rfl⟩,rfl⟩

/-- A user contract that is described by this text, a signature that takes and promises what it says, a check of the
signature and a wrapper of its test under the check. -/
theorem exists_worded {m : Machine} {F : Function} (hf : s.IsFunction f F) (text name : String) :
    ∃ (a c : Contract) (b y z x : Store) (k w : Value), a.description = .str text ∧
      Contract.proc m.next [a.value,a.value] b = .ok c.value y ∧ Built y c (.proc [.test f] (.test f)) ∧
      check m.next c.value (.str name) y = .ok k z ∧ s.Grows y ∧ y.Grows z ∧ z.Grows x ∧ x.Wraps .wrapper w f k := by
  obtain ⟨a,b,hsb,hbuilt,hmade,htext⟩ := exists_user s text f
  have hworded := hmade.worded
  have hall : ∀ c ∈ [a], b.Worded c := by simpa using hworded
  have hes : ∀ e ∈ [(a,Plan.test f)], Built b e.1 e.2 := by simpa using hbuilt
  obtain ⟨sig,y,k,z,w,x,hsig,hk,hby,hyz,hzx,hw⟩ := exists_checked (m := m) (M := m) (N := m.next) hall
    ⟨hworded,fun h => by cases hmade.cls.symm.trans h⟩
    (Wrapper.tells_function (M := m) fun t ht => (hf.grows hsb).grows ht) name
  obtain ⟨t,ht⟩ := hworded.stands (M := m)
  obtain ⟨-,hassembled⟩ := (Contract.quiet_assemble (fun c hc => (hall c hc).stands) ht).seen hsig
  obtain ⟨c,rfl,hc⟩ := hassembled.contract
  exact ⟨a,c,b,y,z,x,k,w,htext,hsig,.proc hes hbuilt ⟨hsig,hc.held.held⟩,hk,hsb.trans hby,hyz,hzx,hw⟩

/-- The number five is all there is. -/
def five : Region := ⟨0,fun _ => False,fun v => v = .int 5,fun _ => False⟩

theorem call_identity {m : Machine} {f : Value} (h : s.IsFunction f identity) :
    m.next.call f [.int 5] [] s = .ok (.int 5) s := by
  rw [call_function h]
  rfl

/-- All that is asked of a number is answered by itself. -/
theorem even_five {m : Machine} {f : Value} (hW : ∀ s, W s → s.IsFunction f identity) :
    (five.realm.join (.tests (· = f))).Even m.next (Store.One W) := by
  refine Region.even_of_common ?_
    ⟨Realm.answers_tests _ _ _ _,?_,fun _ _ _ h => h.elim,fun _ h => h.elim,fun _ _ h => h.elim⟩
  · rintro s _ ⟨rfl,-⟩
    refine ⟨⟨Nat.zero_le _,Nat.zero_le _,nofun⟩,?_⟩
    rintro _ rfl
    exact Store.rests_int 5
  · intro g v hg hv
    obtain rfl : g = f := hg
    obtain rfl : v = .int 5 := hv
    refine .of_still ?_
    rintro s _ ⟨rfl,hs⟩
    have hx : (do truth m.next (← m.next.call g [.int 5] [])) s = .ok true s := by
      rw [bind_ok (call_identity (hW s hs)),truth_int]
      rfl
    exact ⟨_,_,hx,hx,rfl⟩

/-- One number, one function that tests it and lets it pass, and two texts for what it says. -/
theorem run_and_call_of_plan_identity : ∃ (a b c d i j r q : Contract) (w w' : Value) (u v x : Store),
    a.description = .str "a" ∧ b.description = .str "b" ∧
    Contract.proc Machine.halted.next [a.value,a.value] u = .ok c.value v ∧
    EvenRun (Store.One (x.Grows ·)) c d (.int 5)
      (Machine.halted.next.next.call (.operation (.member .contract "run" .plain)) [c.value,.int 5] [] x)
      (Machine.halted.next.next.call (.operation (.member .contract "run" .plain)) [d.value,.int 5] [] x) ∧
    Reworded "f" i j r q (Machine.halted.next.next.next.call w [.int 5] [] x)
      (Machine.halted.next.next.next.call w' [.int 5] [] x) := by
  have hf : withIdentity.IsFunction (.ref 33) identity := ⟨rfl,rfl⟩
  obtain ⟨a,c,u,v,z,x,k,w,hta,hsig,hc,hk,hsv,hvz,hzx,hw⟩ := exists_worded (m := Machine.halted) hf "a" "f"
  have hsx := (hsv.trans hvz).trans hzx
  obtain ⟨b,d,u',v',z',y,k',w',htb,-,hd,hk',hxv,hvz',hzy,hw'⟩ :=
    exists_worded (m := Machine.halted) (hf.grows hsx) "b" "f"
  have hxy := (hxv.trans hvz').trans hzy
  have hsy := hsx.trans hxy
  have hset : withIdentity.Owns (.ref settingsRef) := ⟨_,_,rfl,rfl,rfl⟩
  have hfunction (t : Store) (ht : y.Grows t) : t.IsFunction (.ref 33) identity := hf.grows (hsy.trans ht)
  have hcall (t : Store) (ht : y.Grows t) := call_identity (m := Machine.halted) (hfunction t ht)
  have hkeep {s t : Store} (h : s.Grows t) : s.Keeps .library t := Store.Keeps.of_grows h
  have hp : (Plan.proc [.test (.ref 33)] (.test (.ref 33))).Within (five.realm.join (.tests (· = .ref 33))) := by
    simp [Plan.Within,withinAll,Realm.join,Realm.tests]
  obtain ⟨hrun,hcalls⟩ := run_and_call_of_plan hp hc hd
  obtain ⟨cs,ds,i,j,r,q,-,-,-,-,hends⟩ := hcalls _ _ rfl Machine.halted v v' z z' k k' "f" (Store.Keeps.refl _ v)
    (Store.Keeps.refl _ v') hk hk' y (.ref 33) w w' (hkeep (hzx.trans hxy)) (hkeep hzy) (hw.grows hxy) hw'
  have hnotCallable (t : Store) : t.isCallable (.int 5) = false := by
    rw [Store.isCallable_builtin (b := .int) rfl]
    decide
  have himp : Impartial (y.Grows ·) (five.realm.join (.tests (· = .ref 33))) Machine.halted.next y [.int 5]
      (Machine.halted.next.call (.ref 33) [.int 5] []) :=
    { start := Store.Keeps.refl _ y
      grows := fun t u ht hu => ht.trans hu
      settings := fun t ht => ⟨false,_,Store.setting_grows hset (by decide) rfl (hsy.trans ht),
        Store.setting_grows hset (by decide) rfl (hsy.trans ht)⟩
      asked := fun t _ => even_five fun u hu => hfunction u hu.own
      args := fun v hv => Or.inl (List.mem_singleton.mp hv)
      guarded := fun t u _ hu => by rwa [after_ok (hcall u hu.own)]
      result := fun t g u ht hg => by
        rw [hcall t ht] at hg
        cases hg
        exact Or.inl rfl
      signed := fun g t hg _ hcallable => by
        obtain rfl : g = .int 5 := hg.resolve_right id
        rw [hnotCallable t] at hcallable
        cases hcallable
      taken := fun g t hg _ hcallable => by
        obtain rfl : g = .int 5 := hg.resolve_right id
        rw [hnotCallable t] at hcallable
        cases hcallable }
  refine ⟨a,b,c,d,i,j,r,q,w,w',u,v,y,hta,htb,hsig,?_,hends _ _ _ _ himp⟩
  refine hrun _ _ (even_five fun t ht => hfunction t ht) ?_ _ _ _ (Or.inl rfl) ⟨rfl,Store.Keeps.refl _ y⟩
  rintro t _ ⟨rfl,ht⟩
  exact ⟨hkeep (((hvz.trans hzx).trans hxy).trans ht),hkeep ((hvz'.trans hzy).trans ht)⟩

end Signature
end CallContracts
