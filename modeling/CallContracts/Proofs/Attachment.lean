import CallContracts.Proofs.Function
import CallContracts.Proofs.Listing
import CallContracts.Proofs.Standard
/-! Attaching signatures to the entries of a plain table.  What is asked about an entry and its member is
answered alike whenever it is asked; the answers tell what becomes of the entry.  The first entry that
fails ends the attachment before anything was written; when none fails, every member that is to be
wrapped is, and nothing else is touched. -/
namespace CallContracts
open Act

namespace Signature

/-- All of an attachment that comes before the first wrapper. -/
def prepare (m : Machine) (signatures target : Value) : Act (List (Value × Value)) := do
  let pair ← newTuple [signatures,target]
  if (← Contract.attachment.outcome m pair) = .mismatched then
    fail (.misconfigured (.wrongArguments (← Contract.attachment.inserted m)))
  let items ← itemsOf m signatures
  pending m target [] ((← get).bound items) items

theorem attach_eq (m : Machine) (signatures target : Value) : attach m signatures target = (do
    wrapAll m target (← prepare m signatures target)
    return target) := by
  simp only [attach,prepare,bind_assoc]
  congr 1
  funext pair
  congr 1
  funext o
  by_cases ho : o = .mismatched
  · simp [ho]
  · simp [ho]

end Signature

namespace Attachment

/-- What is answered about keys, entries and members. -/
structure Answers where
  same : Value → Value → Bool
  isContract : Value → Bool
  isSignature : Value → Bool
  isCallable : Value → Bool
  isSigned : Value → Value → Bool
  mismatches : Value → Value → Bool
  description : Value → Value

/-- What becomes of an entry. -/
inductive Fate where
  | notContract
  | missing
  | wrong (member : Value)
  | fits (member : Value)
  | signed (member : Value)
  | wraps (member : Value)
  deriving DecidableEq

def Fate.fails : Fate → Bool
  | notContract | missing | wrong _ => true
  | _ => false

def Fate.isWrap : Fate → Bool
  | wraps _ => true
  | _ => false

namespace Answers
variable (A : Answers) (es : List (Value × Value)) (p : Value × Value)

def member? : Option Value := (Table.found? A.same p.1 es).map Prod.snd

/-- Whether the entry is one that is checked when its member is called. -/
def isCall (member : Value) : Bool := A.isCallable member && A.isSignature p.2

def fate : Fate :=
  if !A.isContract p.2 then .notContract
  else match A.member? es p with
    | none => .missing
    | some v =>
      if A.isCall p v then if A.isSigned v p.2 then .signed v else .wraps v
      else if A.mismatches p.2 v then .wrong v else .fits v

/-- What is answered about an entry of the map. -/
structure AboutEntry (W : Store → Prop) (m : Machine) (ks : List Value) : Prop where
  files : Table.Files W m A.same ks p.1
  contract : Always W (CallContracts.isContract m p.2) (A.isContract p.2)
  signature : Always W (CallContracts.isSignature m p.2) (A.isSignature p.2)
  named : AlwaysCalm W (formatted m p.1) ∧ AlwaysCalm W (written m p.1)
  shown : A.isContract p.2 = false → AlwaysCalm W (CallContracts.shown m p.2)
  described : A.isContract p.2 → Always W (Signature.descriptionOf m p.2) (A.description p.2) ∧
    AlwaysCalm W (formatted m (A.description p.2)) ∧ AlwaysCalm W (written m (A.description p.2))

/-- What is answered about the member that an entry names. -/
structure AboutMember (W : Store → Prop) (m : Machine) (v : Value) : Prop where
  callable : ∀ t, W t → t.isCallable v = A.isCallable v
  signed : A.isCall p v → Always W (Signature.isSignedWith m v p.2) (A.isSigned v p.2)
  matched : A.isCall p v = false → Always W (Signature.mismatches m p.2 v) (A.mismatches p.2 v)
  shown : A.isCall p v = false → A.mismatches p.2 v → AlwaysCalm W (shortText m v)
  told : A.isCall p v → Wrapper.Tells W m v

/-- What is answered about it before it is shown or taken over. -/
structure AskedMember (W : Store → Prop) (m : Machine) (v : Value) : Prop where
  callable : ∀ t, W t → t.isCallable v = A.isCallable v
  signed : A.isCall p v → Always W (Signature.isSignedWith m v p.2) (A.isSigned v p.2)
  matched : A.isCall p v = false → Always W (Signature.mismatches m p.2 v) (A.mismatches p.2 v)

theorem AboutMember.asked {A : Answers} {p : Value × Value} {W : Store → Prop} {m : Machine} {v : Value}
    (h : A.AboutMember p W m v) : A.AskedMember p W m v := ⟨h.callable,h.signed,h.matched⟩

/-- The fault that an entry fails with. -/
def Reports (W : Store → Prop) (m : Machine) : Fate → Fault → Prop
  | .notContract, q => ∃ n x, q = .misconfigured (.entryNotContract n x) ∧
      (∃ t u, W t ∧ formatted m p.1 t = .ok n u) ∧ ∃ t u, W t ∧ CallContracts.shown m p.2 t = .ok x u
  | .missing, q => ∃ n, q = .misconfigured (.memberMissing n) ∧ ∃ t u, W t ∧ formatted m p.1 t = .ok n u
  | .wrong v, q => ∃ b, q = .member b ∧ b.member = p.1 ∧ b.expected = A.description p.2 ∧ b.value = v
  | _, _ => False

end Answers
end Attachment

namespace Attachment
variable {A : Answers} {m : Machine} {W : Store → Prop} {s t : Store} {d : Ref}
  {es : List (Value × Value)} {ks : List Value} {p : Value × Value}

theorem isMapping_table (h : s.IsTable d es) : isMapping m (.ref d) s = .ok true s :=
  isKind_builtin h.cls (by decide)

/-- What is left of looking at an entry once it is known whether its member is called. -/
def judge (m : Machine) (p : Value × Value) (v : Value) (isCall : Bool) : Act Bool := do
  if !isCall then
    Signature.checkMember m p.2 p.1 v
    return false
  else if ← Signature.isSignedWith m v p.2 then
    Signature.logAgainst m "" " already checked against " p.1 p.2
    return false
  else return true

section stages
variable {target : Value} {u w : Store}

/-- An entry that holds no contract. -/
theorem examine_noContract (hc : isContract m p.2 s = .ok false t) :
    Signature.examine m target p.1 p.2 s = (do
      let n ← formatted m p.1
      fail (.misconfigured (.entryNotContract n (← shown m p.2))) : Act Bool) t := by
  rw [Signature.examine,bind_ok hc]
  simp only [Bool.not_false,if_true]
  refine bind_congr_of fun n u _ => ?_
  refine bind_congr_of fun x w _ => ?_
  rfl

variable (hc : isContract m p.2 s = .ok true t)
include hc

/-- An entry that names no member. -/
theorem examine_noMember (hm : Signature.hasMember m target p.1 t = .ok false u) :
    Signature.examine m target p.1 p.2 s = (do
      fail (.misconfigured (.memberMissing (← formatted m p.1))) : Act Bool) u := by
  rw [Signature.examine,bind_ok hc]
  simp only [Bool.not_true,Bool.false_eq_true,if_false,pure_bind]
  rw [bind_ok hm]
  simp only [Bool.not_false,if_true]
  refine bind_congr_of fun n w _ => ?_
  rfl

/-- An entry that holds a contract for a member that is there. -/
theorem examine_member {v : Value} (hm : Signature.hasMember m target p.1 t = .ok true u)
    (hv : Signature.memberOf m target p.1 u = .ok v w) :
    Signature.examine m target p.1 p.2 s
      = ((if w.isCallable v then isSignature m p.2 else pure false) >>= judge m p v) w := by
  rw [Signature.examine,bind_ok hc]
  simp only [Bool.not_true,Bool.false_eq_true,if_false,pure_bind]
  rw [bind_ok hm]
  simp only [Bool.not_true,Bool.false_eq_true,if_false]
  rw [bind_ok hv,get_bind_apply]
  cases w.isCallable v <;> rfl

end stages

section entry
variable (hW : ∀ u, t.Grows u → W u) (hp : A.AboutEntry p W m ks) (hd : t.IsTable d es)
  (hk : es.map Prod.fst = ks)
include hW hp hd hk

theorem gives_hasMember : (Signature.hasMember m (.ref d) p.1).Gives (A.member? es p).isSome t := by
  obtain ⟨u,hu,hg⟩ := Table.gives_contains hW hp.files hd hk
  refine ⟨u,?_,hg⟩
  rw [Signature.hasMember,bind_ok (isMapping_table hd)]
  simpa [Answers.member?] using hu

theorem gives_memberOf {v : Value} (hv : A.member? es p = some v) :
    (Signature.memberOf m (.ref d) p.1).Gives v t := by
  simp only [Answers.member?,Option.map_eq_some_iff] at hv
  obtain ⟨⟨k,v⟩,he,rfl⟩ := hv
  obtain ⟨u,hu,hg⟩ := Table.gives_item hW hp.files hd hk he
  refine ⟨u,?_,hg⟩
  rw [Signature.memberOf,bind_ok (isMapping_table hd)]
  simpa using hu

omit hd hk in
theorem calm_logAgainst (before between : String) (hc : A.isContract p.2) :
    (Signature.logAgainst m before between p.1 p.2).Calm t := by
  obtain ⟨hdesc,-,hwritten⟩ := hp.described hc
  refine Gives.bindCalm (hdesc t (hW t (Store.Keeps.refl _ t))) fun u hu => ?_
  refine Calm.bind (hp.named.2 u (hW u hu)) fun n w hw => ?_
  refine Calm.bind (hwritten w (hW w (hu.trans hw))) fun x z _ => ?_
  exact calm_logMessage _ z

/-- An entry that holds a contract for a member that is there, before its member is looked at. -/
theorem examine_present {v : Value} (hc : A.isContract p.2) (hv : A.member? es p = some v)
    (ha : ∀ t, W t → t.isCallable v = A.isCallable v) :
    ∃ u, t.Grows u ∧ Signature.examine m (.ref d) p.1 p.2 t = judge m p v (A.isCall p v) u := by
  obtain ⟨u,hu,hg⟩ := hp.contract t (hW t (Store.Keeps.refl _ t))
  rw [hc] at hu
  obtain ⟨w,hw,hg'⟩ := gives_hasMember (fun z hz => hW z (hg.trans hz)) hp (hd.grows hg) hk
  rw [hv] at hw
  obtain ⟨z,hz,hg''⟩ := gives_memberOf (fun y hy => hW y ((hg.trans hg').trans hy)) hp
    (hd.grows (hg.trans hg')) hk hv
  have hz' : t.Grows z := (hg.trans hg').trans hg''
  have hcall := ha z (hW z hz')
  obtain ⟨y,hy,hgy⟩ := hp.signature z (hW z hz')
  rw [examine_member hu hw hz,hcall]
  cases hA : A.isCallable v with
  | true =>
    refine ⟨y,hz'.trans hgy,?_⟩
    simp only [if_true]
    rw [bind_ok hy,Answers.isCall,hA,Bool.true_and]
  | false =>
    refine ⟨z,hz',?_⟩
    rw [Answers.isCall,hA,Bool.false_and]
    rfl

omit hd hk

/-- A member that is called is noted, unless it is signed already. -/
theorem judge_call {v : Value} (hc : A.isContract p.2)
    (hv : Always W (Signature.isSignedWith m v p.2) (A.isSigned v p.2)) :
    (judge m p v true).Gives (!A.isSigned v p.2) t := by
  simp only [judge,Bool.not_true,Bool.false_eq_true,if_false]
  refine Gives.bind (hv t (hW t (Store.Keeps.refl _ t))) fun z hz => ?_
  cases hs : A.isSigned v p.2 with
  | false => exact gives_pure _ z
  | true =>
    obtain ⟨_,y,hy,hgy⟩ := calm_logAgainst (fun y hy => hW y (hz.trans hy)) hp
      "" " already checked against " hc
    exact Gives.bind (s := z) ⟨y,hy,hgy⟩ fun y _ => gives_pure _ y

/-- A member that fits its contract is passed over. -/
theorem judge_fits {v : Value} (hc : A.isContract p.2)
    (hv : Always W (Signature.mismatches m p.2 v) (A.mismatches p.2 v)) (hfit : A.mismatches p.2 v = false) :
    (judge m p v false).Gives false t := by
  obtain ⟨_,w,hw,hg⟩ := calm_logAgainst hW hp "checking " " against " hc
  obtain ⟨z,hz,hg'⟩ := hv w (hW w hg)
  refine ⟨z,?_,hg.trans hg'⟩
  simp only [judge,Bool.not_false,if_true]
  rw [Signature.checkMember,bind_apply,bind_ok hw,bind_ok hz,hfit]
  rfl

/-- A member that does not is blamed. -/
theorem judge_wrong {v : Value} (hc : A.isContract p.2) (hv : A.AboutMember p W m v)
    (hcall : A.isCall p v = false) (hwrong : A.mismatches p.2 v) :
    ∃ b u, judge m p v false t = .error (.raised (.member b)) u ∧ t.Grows u ∧ b.member = p.1 ∧
      b.expected = A.description p.2 ∧ b.value = v := by
  obtain ⟨_,w,hw,hg⟩ := calm_logAgainst hW hp "checking " " against " hc
  obtain ⟨z,hz,hg'⟩ := hv.matched hcall w (hW w hg)
  obtain ⟨hdesc,hform,-⟩ := hp.described hc
  obtain ⟨y,hy,hgy⟩ := hdesc z (hW z (hg.trans hg'))
  have hy' : t.Grows y := (hg.trans hg').trans hgy
  obtain ⟨n,x,hx,hgx⟩ := hp.named.1 y (hW y hy')
  obtain ⟨d,a,ha,hga⟩ := hform x (hW x (hy'.trans hgx))
  obtain ⟨sh,c,hsh,hgc⟩ := hv.shown hcall hwrong a (hW a ((hy'.trans hgx).trans hga))
  have hblame : Signature.blame m p.1 (A.description p.2) v y
      = .ok ⟨p.1,A.description p.2,v,n,d,sh⟩ c := by
    rw [Signature.blame,bind_ok hx,bind_ok ha,bind_ok hsh]
    rfl
  refine ⟨⟨p.1,A.description p.2,v,n,d,sh⟩,c,?_,((hy'.trans hgx).trans hga).trans hgc,rfl,rfl,rfl⟩
  simp only [judge,Bool.not_false,if_true]
  rw [Signature.checkMember,bind_apply,bind_ok hw,bind_ok hz,hwrong]
  simp only [if_true]
  rw [bind_ok hy,bind_ok hblame]
  rfl

end entry

/-- All that is answered about an entry, and about its member if the target has it. -/
structure Answers.About (A : Answers) (es : List (Value × Value)) (p : Value × Value)
    (W : Store → Prop) (m : Machine) : Prop where
  entry : A.AboutEntry p W m (es.map Prod.fst)
  member : ∀ v, A.isContract p.2 → A.member? es p = some v → A.AboutMember p W m v

section examine
variable (hW : ∀ u, t.Grows u → W u) (hd : t.IsTable d es)
include hW hd

/-- An entry that does not fail is looked at quietly; the answer is whether its member is wrapped. -/
theorem examine_passes (hp : A.AboutEntry p W m (es.map Prod.fst))
    (hmember : ∀ v, A.member? es p = some v → A.AskedMember p W m v) (hf : (A.fate es p).fails = false) :
    (Signature.examine m (.ref d) p.1 p.2).Gives (A.fate es p).isWrap t := by
  cases hc : A.isContract p.2 with
  | false => simp [Answers.fate,hc,Fate.fails] at hf
  | true =>
    cases hm : A.member? es p with
    | none => simp [Answers.fate,hc,hm,Fate.fails] at hf
    | some v =>
      have hv := hmember v hm
      obtain ⟨u,hu,he⟩ := examine_present hW hp hd rfl hc hm hv.callable
      have hW' : ∀ w, u.Grows w → W w := fun w hw => hW w (hu.trans hw)
      have hj : (judge m p v (A.isCall p v)).Gives (A.fate es p).isWrap u := by
        cases hcall : A.isCall p v with
        | true =>
          have hg := judge_call hW' hp hc (hv.signed hcall)
          cases hs : A.isSigned v p.2 <;> simpa [Answers.fate,hc,hm,hcall,hs,Fate.isWrap] using hg
        | false =>
          have hfit : A.mismatches p.2 v = false := by
            cases hx : A.mismatches p.2 v with
            | false => rfl
            | true => simp [Answers.fate,hc,hm,hcall,hx,Fate.fails] at hf
          simpa [Answers.fate,hc,hm,hcall,hfit,Fate.isWrap] using judge_fits hW' hp hc (hv.matched hcall) hfit
      obtain ⟨w,hw,hg⟩ := hj
      exact ⟨w,he.trans hw,hu.trans hg⟩

omit hW hd in
/-- A member that is there fails only if it does not fit what it is not called with. -/
theorem Answers.wrong_of_fails {v : Value} (hc : A.isContract p.2 = true) (hm : A.member? es p = some v)
    (hf : (A.fate es p).fails) : A.isCall p v = false ∧ A.mismatches p.2 v = true := by
  cases hcall : A.isCall p v with
  | true => cases hs : A.isSigned v p.2 <;> simp [Answers.fate,hc,hm,hcall,hs,Fate.fails] at hf
  | false =>
    cases hx : A.mismatches p.2 v with
    | true => exact ⟨rfl,rfl⟩
    | false => simp [Answers.fate,hc,hm,hcall,hx,Fate.fails] at hf

/-- An entry that fails ends the attachment with its own fault. -/
theorem examine_fails (hp : A.About es p W m) (hf : (A.fate es p).fails) :
    ∃ q u, Signature.examine m (.ref d) p.1 p.2 t = .error (.raised q) u ∧ t.Grows u ∧
      A.Reports p W m (A.fate es p) q := by
  obtain ⟨u,hu,hg⟩ := hp.entry.contract t (hW t (Store.Keeps.refl _ t))
  cases hc : A.isContract p.2 with
  | false =>
    obtain ⟨n,w,hw,hg'⟩ := hp.entry.named.1 u (hW u hg)
    obtain ⟨x,z,hz,hg''⟩ := hp.entry.shown hc w (hW w (hg.trans hg'))
    have hfate : A.fate es p = .notContract := by simp [Answers.fate,hc]
    refine ⟨.misconfigured (.entryNotContract n x),z,?_,(hg.trans hg').trans hg'',?_⟩
    · rw [examine_noContract (hc ▸ hu),bind_ok hw,bind_ok hz]
      rfl
    · rw [hfate]
      exact ⟨n,x,rfl,⟨u,w,hW u hg,hw⟩,⟨w,z,hW w (hg.trans hg'),hz⟩⟩
  | true =>
    cases hm : A.member? es p with
    | none =>
      obtain ⟨w,hw,hg'⟩ := gives_hasMember (fun z hz => hW z (hg.trans hz)) hp.entry (hd.grows hg) rfl
      obtain ⟨n,z,hz,hg''⟩ := hp.entry.named.1 w (hW w (hg.trans hg'))
      have hfate : A.fate es p = .missing := by simp [Answers.fate,hc,hm]
      rw [hm] at hw
      refine ⟨.misconfigured (.memberMissing n),z,?_,(hg.trans hg').trans hg'',?_⟩
      · rw [examine_noMember (hc ▸ hu) hw,bind_ok hz]
        rfl
      · rw [hfate]
        exact ⟨n,rfl,w,z,hW w (hg.trans hg'),hz⟩
    | some v =>
      have hv := hp.member v hc hm
      obtain ⟨hcall,hwrong⟩ := Answers.wrong_of_fails hc hm hf
      have hfate : A.fate es p = .wrong v := by simp [Answers.fate,hc,hm,hcall,hwrong]
      obtain ⟨w,hw,he⟩ := examine_present hW hp.entry hd rfl hc hm hv.callable
      obtain ⟨b,z,hz,hg',hb⟩ := judge_wrong (fun y hy => hW y (hw.trans hy)) hp.entry hc hv hcall hwrong
      refine ⟨.member b,z,by rw [he,hcall,hz],hw.trans hg',?_⟩
      rw [hfate]
      exact ⟨b,rfl,hb⟩

end examine
end Attachment

namespace Attachment
variable {A : Answers} {m : Machine} {W : Store → Prop} {s t : Store} {d : Ref}
  {es map : List (Value × Value)} {p : Value × Value}

/-- The first entry of the map that fails. -/
def FirstFailure (A : Answers) (es map : List (Value × Value)) (p : Value × Value) : Prop :=
  ∃ done rest, map = done ++ p :: rest ∧ (∀ q ∈ done, (A.fate es q).fails = false) ∧ (A.fate es p).fails

theorem firstFailure_cons {q : Value × Value} (hq : (A.fate es q).fails = false)
    (h : FirstFailure A es map p) : FirstFailure A es (q :: map) p := by
  obtain ⟨done,rest,rfl,hdone,hp⟩ := h
  refine ⟨q :: done,rest,rfl,?_,hp⟩
  intro x hx
  rcases List.mem_cons.mp hx with rfl | hx
  · exact hq
  · exact hdone x hx

/-- The entries whose members are to be wrapped. -/
def Answers.wrapped (A : Answers) (es map : List (Value × Value)) : List (Value × Value) :=
  map.filter fun p => (A.fate es p).isWrap

/-- How looking at an entry ends: quietly, with the answer whether its member is wrapped, or in a complaint. -/
structure Answers.Settles (A : Answers) (es : List (Value × Value)) (W : Store → Prop) (m : Machine) (d : Ref)
    (R : Stop → Prop) (p : Value × Value) : Prop where
  passes : (A.fate es p).fails = false →
    Always W (Signature.examine m (.ref d) p.1 p.2) (A.fate es p).isWrap
  fails : (A.fate es p).fails → ∀ t, W t → ∃ e u, Signature.examine m (.ref d) p.1 p.2 t = .error e u ∧ t.Grows u ∧ R e

theorem Answers.About.settles (hp : A.About es p W m) (hW : ∀ t u, W t → t.Grows u → W u)
    (hd : ∀ t, W t → t.IsTable d es) :
    A.Settles es W m d (fun e => ∃ q, e = .raised q ∧ A.Reports p W m (A.fate es p) q) p := by
  refine ⟨fun hf t ht => ?_,fun hf t ht => ?_⟩
  · by_cases hc : A.isContract p.2
    · exact examine_passes (fun u hu => hW t u ht hu) (hd t ht) hp.entry (fun v hv => (hp.member v hc hv).asked) hf
    · simp [Answers.fate,hc,Fate.fails] at hf
  · obtain ⟨q,u,hu,hg,hr⟩ := examine_fails (fun u hu => hW t u ht hu) (hd t ht) hp hf
    exact ⟨.raised q,u,hu,hg,q,rfl,hr⟩

/-- Every entry is looked at in turn, up to the first one that fails. -/
theorem pending_spec {R : Value × Value → Stop → Prop} {c : Cursor} {n : Nat} {l : List (Value × Value)}
    (hW : ∀ t u, W t → t.Grows u → W u) (hmap : ∀ p ∈ map, A.Settles es W m d (R p) p) (hc : c.Yields W m map)
    (hn : map.length < n) (ht : W t) :
    ((∀ p ∈ map, (A.fate es p).fails = false) ∧
      (Signature.pending m (.ref d) l n c).Gives (l ++ A.wrapped es map) t) ∨
    ∃ p e u, FirstFailure A es map p ∧ Signature.pending m (.ref d) l n c t = .error e u ∧
      t.Grows u ∧ R p e := by
  induction map generalizing c n l t with
  | nil =>
    obtain ⟨n,rfl⟩ := Nat.exists_eq_add_one_of_ne_zero (Nat.pos_iff_ne_zero.mp hn)
    refine Or.inl ⟨by simp,?_⟩
    simp only [Signature.pending]
    refine Gives.bind (hc t ht) fun u _ => ?_
    simpa [Answers.wrapped] using gives_pure l u
  | cons p ps ih =>
    obtain ⟨n,rfl⟩ := Nat.exists_eq_add_one_of_ne_zero (Nat.ne_of_gt (Nat.lt_of_le_of_lt (Nat.zero_le _) hn))
    obtain ⟨x,c',u,hu,hg,hparts,hc'⟩ := hc t ht
    obtain ⟨w,hw,hg'⟩ := hparts u (hW t u ht hg)
    have hWw : W w := hW u w (hW t u ht hg) hg'
    have hstep : Signature.pending m (.ref d) l (n+1) c t = (do
        let wraps ← Signature.examine m (.ref d) p.1 p.2
        Signature.pending m (.ref d) (if wraps then l ++ [(p.1,p.2)] else l) n c' : Act _) w := by
      simp only [Signature.pending]
      rw [bind_ok hu]
      simp only []
      rw [bind_ok hw]
    cases hf : (A.fate es p).fails with
    | true =>
      obtain ⟨e,z,hz,hgz,hr⟩ := (hmap p (by simp)).fails hf w hWw
      refine Or.inr ⟨p,e,z,⟨[],ps,rfl,by simp,hf⟩,?_,(hg.trans hg').trans hgz,hr⟩
      rw [hstep,bind_error hz]
    | false =>
      obtain ⟨z,hz,hgz⟩ := (hmap p (by simp)).passes hf w hWw
      have hgrown := (hg.trans hg').trans hgz
      have hlen : ps.length < n := by simpa using hn
      rcases ih (l := if (A.fate es p).isWrap then l ++ [(p.1,p.2)] else l)
          (fun q hq => hmap q (by simp [hq])) hc' hlen (hW w z hWw hgz) with ⟨hall,y,hy,hgy⟩ | hfail
      · refine Or.inl ⟨?_,y,?_,hgrown.trans hgy⟩
        · intro q hq
          rcases List.mem_cons.mp hq with rfl | hq
          · exact hf
          · exact hall q hq
        · rw [hstep,bind_ok hz,hy]
          cases hwr : (A.fate es p).isWrap <;> simp [Answers.wrapped,hwr]
      · obtain ⟨q,e,y,hfirst,hy,hgy,hr⟩ := hfail
        refine Or.inr ⟨q,e,y,firstFailure_cons hf hfirst,?_,hgrown.trans hgy,hr⟩
        rw [hstep,bind_ok hz,hy]

end Attachment

/-- A wrapper made later than a store of `size` objects, whose advice checks an entry's signature under
its name. -/
def Store.Signs (s : Store) (size : Nat) (w member : Value) (p : Value × Value) : Prop :=
  ∃ k cs, s.Wraps .wrapper w member k ∧ s.Checks k p.2 p.1 cs ∧ ∃ r, w = .ref r ∧ size ≤ r

namespace Store.Signs
variable {s t : Store} {size : Nat} {w v : Value} {p : Value × Value} {d : Ref}
  {es : List (Value × Value)}

theorem grows (h : s.Signs size w v p) (ht : s.Grows t) : t.Signs size w v p := by
  obtain ⟨k,cs,hw,hk,hr⟩ := h
  exact ⟨k,cs,hw.grows ht,hk.grows ht,hr⟩

/-- Refilling a table leaves wrappers and checks alone. -/
theorem refill (h : s.Signs size w v p) (hd : s.IsTable d es) (ht : s.Keeps (.but d) t) :
    t.Signs size w v p := by
  obtain ⟨k,cs,hw,hk,hr⟩ := h
  refine ⟨k,cs,?_,?_,hr⟩
  · exact hw.keep ht (holds_but hd hw.body? (by simp)) (by simp) (by simp)
  · refine hk.keep ht (holds_but hd hk.body? (by simp)) ?_ ?_
    · intro a ha
      obtain ⟨c,test,p,hb⟩ := hk.body?_arguments ha
      exact holds_but hd hb (by simp)
    · simp

end Store.Signs

namespace Attachment
variable {A : Answers} {M : Machine} {W : Store → Prop} {s t : Store} {d : Ref}
  {es fs map : List (Value × Value)} {p : Value × Value} {size : Nat}

def Answers.place? (A : Answers) (es : List (Value × Value)) (p : Value × Value) : Option Nat :=
  Table.place? A.same p.1 (es.map Prod.fst)

theorem Answers.member?_eq (A : Answers) (es : List (Value × Value)) (p : Value × Value) :
    A.member? es p = (A.place? es p).bind fun i => es[i]?.map Prod.snd := by
  rw [Answers.member?,Table.found?_eq,Answers.place?]
  cases Table.place? A.same p.1 (es.map Prod.fst) <;> simp

/-- One member is wrapped; the rest of the table stays. -/
theorem wrap_spec {v : Value} {cs : List Contract} {parts : Parts}
    (hW : ∀ u, t.Grows u → W u)
    (hp : A.AboutEntry p W M.next (fs.map Prod.fst)) (hc : A.isContract p.2)
    (hm : A.member? fs p = some v) (hd : t.IsTable d fs) (htold : Wrapper.Tells W M.next v)
    (hsig : t.IsSignature p.2 cs parts) (hcs : ∀ c ∈ cs, Describable W M.next c)
    (hW' : ∀ u w, t.Keeps (.but d) u → u.IsTable d (Table.refilled A.same p.1 w fs) → W u)
    (hsize : size ≤ t.heap.size) :
    ∃ w u, Signature.wrapNoted M.next (.ref d) p.1 p.2 t = .ok () u ∧ t.Keeps (.but d) u ∧
      u.IsTable d (Table.refilled A.same p.1 w fs) ∧ u.Signs size w v p := by
  obtain ⟨k,t₁,h₁,g₁,hk,-⟩ := Signature.quiet_check hW hsig hcs
  have hd₁ := hd.grows g₁
  obtain ⟨t₂,h₂,g₂⟩ := gives_memberOf (fun u hu => hW u (g₁.trans hu)) hp hd₁ rfl hm
  have hd₂ := hd₁.grows g₂
  obtain ⟨w,t₃,h₃,g₃,hw,⟨r,hr,hsz⟩,-⟩ := Wrapper.quiet_make (m := M.next) (c := .wrapper) (a := k)
    (e := []) (fun u hu => hW u ((g₁.trans g₂).trans hu)) htold (Or.inl rfl)
  have hd₃ := hd₂.grows g₃
  have g : t.Grows t₃ := (g₁.trans g₂).trans g₃
  obtain ⟨t₄,h₄,hkeep,hd₄⟩ := Table.put_table (w := w) (fun u hu => hW u (g.trans hu)) hp.files hd₃ rfl
  have hsigns : t₃.Signs size w v p :=
    ⟨k,cs,hw,(hk.grows g₂).grows g₃,r,hr,Nat.le_trans (Nat.le_trans hsize (g₁.trans g₂).size) hsz⟩
  have hkeep' : t.Keeps (.but d) t₄ := (Store.Keeps.of_grows g).trans hkeep
  obtain ⟨_,t₅,h₅,g₅⟩ := calm_logAgainst (m := M.next) (t := t₄) (W := W)
    (fun u hu => hW' u w (hkeep'.trans (Store.Keeps.of_grows hu)) (hd₄.grows hu)) hp
    "checking calls of " " against " hc
  refine ⟨w,t₅,?_,hkeep'.trans (Store.Keeps.of_grows g₅),hd₄.grows g₅,
    (hsigns.refill hd₃ hkeep).grows g₅⟩
  have hinstall : Wrapper.install M.next (.ref d) p.1 k t₁ = .ok w t₄ := by
    rw [Wrapper.install,bind_ok (isMapping_table hd₁)]
    simp only [if_true]
    rw [Signature.memberOf,bind_ok (isMapping_table hd₁)] at h₂
    simp only [if_true] at h₂
    rw [bind_ok h₂,Wrapper.around,bind_ok h₃,bind_ok h₄]
    rfl
  rw [Signature.wrapNoted,bind_ok h₁,bind_ok hinstall,h₅]

/-- A table whose members are wrapped for some entries, and which is otherwise as it was. -/
def Attached (A : Answers) (size : Nat) (es done : List (Value × Value)) (d : Ref) (t : Store) : Prop :=
  ∃ fs, t.IsTable d fs ∧ fs.map Prod.fst = es.map Prod.fst ∧
    ∀ i k v, es[i]? = some (k,v) → ∃ v', fs[i]? = some (k,v') ∧
      (∀ p ∈ done, A.place? es p = some i → t.Signs size v' v p) ∧
      ((∀ p ∈ done, A.place? es p ≠ some i) → v' = v)

/-- No key of the table is named twice. -/
def NamedOnce (A : Answers) (es map : List (Value × Value)) : Prop :=
  map.Pairwise fun p q => ∀ i, A.place? es p = some i → A.place? es q ≠ some i

/-- An entry with a signature that was built, so that it can be checked. -/
def Built (W : Store → Prop) (M : Machine) (s : Store) (f : Value) : Prop :=
  ∃ cs parts, s.IsSignature f cs parts ∧ ∀ c ∈ cs, Describable W M.next c

theorem isSignature_refills {ks : List Value} {f : Value} {cs : List Contract} {parts : Parts}
    (hd : s.IsTable d es) (ht : s.Refills d ks t) (h : s.IsSignature f cs parts) :
    t.IsSignature f cs parts := by
  obtain ⟨c,test,hb⟩ := h.body
  exact h.keep ht.others (Store.holds_but hd hb (by simp)) (Store.holds_but hd h.params.body (by simp))

theorem place?_congr (hk : fs.map Prod.fst = es.map Prod.fst) (p : Value × Value) :
    A.place? fs p = A.place? es p := by
  rw [Answers.place?,Answers.place?,hk]

/-- What is wrapped is a callable member with a signature, not yet signed with it. -/
theorem isWrap_fate (A : Answers) (es : List (Value × Value)) (p : Value × Value) :
    (A.fate es p).isWrap ↔ A.isContract p.2 ∧
      ∃ v, A.member? es p = some v ∧ A.isCall p v ∧ A.isSigned v p.2 = false := by
  cases hc : A.isContract p.2 with
  | false => simp [Answers.fate,hc,Fate.isWrap]
  | true =>
    cases hm : A.member? es p with
    | none => simp [Answers.fate,hc,hm,Fate.isWrap]
    | some v =>
      cases hcall : A.isCall p v with
      | false => cases hx : A.mismatches p.2 v <;> simp [Answers.fate,hc,hm,hcall,hx,Fate.isWrap]
      | true => cases hs : A.isSigned v p.2 <;> simp [Answers.fate,hc,hm,hcall,hs,Fate.isWrap]

theorem member?_of_place {i : Nat} {k v : Value} (hi : A.place? es p = some i) (hv : es[i]? = some (k,v)) :
    A.member? es p = some v := by
  rw [Answers.member?_eq,hi]
  simp [hv]

theorem place_of_member? {v : Value} (h : A.member? es p = some v) :
    ∃ i k, A.place? es p = some i ∧ es[i]? = some (k,v) := by
  rw [Answers.member?_eq,Option.bind_eq_some_iff] at h
  obtain ⟨i,hi,h⟩ := h
  rw [Option.map_eq_some_iff] at h
  obtain ⟨⟨k,v⟩,hkv,rfl⟩ := h
  exact ⟨i,k,hi,hkv⟩

/-- A member that no entry before has named is wrapped next. -/
theorem attached_refilled {done fs : List (Value × Value)} {i : Nat} {k v w : Value} (hfs : t.IsTable d fs)
    (hkeys : fs.map Prod.fst = es.map Prod.fst)
    (hslots : ∀ i k v, es[i]? = some (k,v) → ∃ v', fs[i]? = some (k,v') ∧
      (∀ p ∈ done, A.place? es p = some i → t.Signs size v' v p) ∧
      ((∀ p ∈ done, A.place? es p ≠ some i) → v' = v))
    (hi : A.place? es p = some i) (hkv : es[i]? = some (k,v)) (hfree : ∀ q ∈ done, A.place? es q ≠ some i)
    (hkeep : t.Keeps (.but d) u) (hu : u.IsTable d (Table.refilled A.same p.1 w fs))
    (hkeys' : (Table.refilled A.same p.1 w fs).map Prod.fst = es.map Prod.fst) (hsigns : u.Signs size w v p) :
    Attached A size es (done ++ [p]) d u := by
  have hplace : Table.place? A.same p.1 (fs.map Prod.fst) = some i := by
    rw [hkeys]
    exact hi
  refine ⟨_,hu,hkeys',?_⟩
  intro j k' x hx
  obtain ⟨x',hx',hnew,hsame⟩ := hslots j k' x hx
  rw [Table.getElem?_refilled hplace j]
  by_cases hj : j = i
  · -- its own place, which it has to itself
    subst hj
    obtain ⟨rfl,rfl⟩ : k' = k ∧ x = v := by simpa [hkv,eq_comm] using hx
    refine ⟨w,by simp [hx'],?_,fun hnone => absurd hi (hnone p (by simp))⟩
    intro q hq hqj
    rcases List.mem_append.mp hq with hq | hq
    · exact absurd hqj (hfree q hq)
    · obtain rfl : q = p := by simpa using hq
      exact hsigns
  · -- any other place stays as it was
    refine ⟨x',by simp [hj,hx'],?_,fun hnone => hsame fun q hq => hnone q (by simp [hq])⟩
    intro q hq hqj
    rcases List.mem_append.mp hq with hq | hq
    · exact (hnew q hq hqj).refill hfs hkeep
    · obtain rfl : q = p := by simpa using hq
      exact absurd (by simpa [hi] using hqj.symm) hj

/-- The noted members are wrapped one after the other; those that are done stay done. -/
theorem wrapAll_refills {done rest : List (Value × Value)} (hs : s.IsTable d es)
    (hrest : ∀ p ∈ rest, (A.fate es p).isWrap ∧ A.About es p (s.Refills d (es.map Prod.fst)) M.next ∧
      Built (s.Refills d (es.map Prod.fst)) M s p.2)
    (honce : NamedOnce A es (done ++ rest)) (ht : s.Refills d (es.map Prod.fst) t)
    (hsize : size ≤ s.heap.size) (hdone : Attached A size es done d t) :
    ∃ u, Signature.wrapAll M.next (.ref d) rest t = .ok () u ∧ Attached A size es (done ++ rest) d u ∧
      s.Refills d (es.map Prod.fst) u := by
  induction rest generalizing done t with
  | nil => exact ⟨t,rfl,by simpa using hdone,ht⟩
  | cons p ps ih =>
    obtain ⟨hwrap,hp,cs,parts,hsig,hcs⟩ := hrest p (by simp)
    obtain ⟨hc,v,hm,hcall,-⟩ := (isWrap_fate A es p).mp hwrap
    obtain ⟨fs,hfs,hk,hslots⟩ := hdone
    -- the member is still the old one, for no entry before names it
    obtain ⟨i,k,hi,hkv⟩ := place_of_member? hm
    have hfree : ∀ q ∈ done, A.place? es q ≠ some i := fun q hq hqi =>
      (List.pairwise_append.mp honce).2.2 q hq p (by simp) i hqi hi
    have hm' : A.member? fs p = some v := by
      obtain ⟨v',hv',-,hold⟩ := hslots i k v hkv
      obtain rfl := hold hfree
      exact member?_of_place ((place?_congr hk p).trans hi) hv'
    have hentry : (Table.found? A.same p.1 fs).isSome := by
      simp only [Answers.member?,Option.map_eq_some_iff] at hm'
      obtain ⟨e,he,-⟩ := hm'
      simp [he]
    have hkeys (w : Value) : (Table.refilled A.same p.1 w fs).map Prod.fst = es.map Prod.fst := by
      rw [Table.keys_refilled hentry,hk]
    obtain ⟨w,u,hu,hkeep,hfs',hsigns⟩ := wrap_spec (fun u hu => ht.grows hu)
      (hk ▸ hp.entry) hc hm' hfs ((hp.member v hc hm).told hcall)
      (isSignature_refills hs ht hsig) hcs
      (fun u w hkeep hu => ⟨ht.others.trans hkeep,_,hu,hkeys w⟩)
      (Nat.le_trans hsize ht.others.size)
    have hdone' := attached_refilled hfs hk hslots hi hkv hfree hkeep hfs' (hkeys w) hsigns
    obtain ⟨z,hz,hall,hrefills⟩ := ih (fun q hq => hrest q (by simp [hq])) (by simpa using honce)
      ⟨ht.others.trans hkeep,_,hfs',hkeys w⟩ hdone'
    refine ⟨z,?_,by simpa using hall,hrefills⟩
    rw [Signature.wrapAll,bind_ok hu,hz]

theorem wrapAll_spec {done rest : List (Value × Value)} (hs : s.IsTable d es)
    (hrest : ∀ p ∈ rest, (A.fate es p).isWrap ∧ A.About es p (s.Refills d (es.map Prod.fst)) M.next ∧
      Built (s.Refills d (es.map Prod.fst)) M s p.2)
    (honce : NamedOnce A es (done ++ rest)) (ht : s.Refills d (es.map Prod.fst) t)
    (hsize : size ≤ s.heap.size) (hdone : Attached A size es done d t) :
    ∃ u, Signature.wrapAll M.next (.ref d) rest t = .ok () u ∧ Attached A size es (done ++ rest) d u := by
  obtain ⟨u,hu,hall,-⟩ := wrapAll_refills hs hrest honce ht hsize hdone
  exact ⟨u,hu,hall⟩

/-- A map of signatures for a plain table: the map is one by the library's own check and lists its
entries, and all that is asked is answered. -/
structure Answerable (A : Answers) (M : Machine) (s : Store) (d : Ref) (es : List (Value × Value))
    (signatures : Value) (map : List (Value × Value)) : Prop where
  table : s.IsTable d es
  standard : s.HasStandard
  isMap : Always (s.Grows ·) (Contract.signatureMap.outcome M.next signatures) .matched
  lists : Lists (s.Grows ·) M.next signatures map
  about : ∀ p ∈ map, A.About es p (s.Refills d (es.map Prod.fst)) M.next

/-- Moreover no key is named twice, and signatures were built. -/
structure Attachable (A : Answers) (M : Machine) (s : Store) (d : Ref) (es : List (Value × Value))
    (signatures : Value) (map : List (Value × Value)) : Prop
    extends Answerable A M s d es signatures map where
  once : NamedOnce A es map
  built : ∀ p ∈ map, A.isSignature p.2 → Built (s.Refills d (es.map Prod.fst)) M s p.2

theorem Answers.About.mono {W W' : Store → Prop} {m : Machine} (h : A.About es p W m)
    (hW : ∀ t, W' t → W t) : A.About es p W' m := by
  have always {α : Type} {x : Act α} {a : α} (hx : Always W x a) : Always W' x a :=
    fun t ht => hx t (hW t ht)
  have calm {α : Type} {x : Act α} (hx : AlwaysCalm W x) : AlwaysCalm W' x := fun t ht => hx t (hW t ht)
  obtain ⟨he,hm⟩ := h
  refine ⟨⟨⟨always he.files.key,fun k hk => always (he.files.same k hk)⟩,always he.contract,
    always he.signature,⟨calm he.named.1,calm he.named.2⟩,fun hc => calm (he.shown hc),fun hc => ?_⟩,fun v hc hv => ?_⟩
  · obtain ⟨h₁,h₂,h₃⟩ := he.described hc
    exact ⟨always h₁,calm h₂,calm h₃⟩
  · have h := hm v hc hv
    exact ⟨fun t ht => h.callable t (hW t ht),fun hcall => always (h.signed hcall),
      fun hcall => always (h.matched hcall),fun hcall hx => calm (h.shown hcall hx),fun hcall => (h.told hcall).mono hW⟩

theorem Attached.start (hd : s.IsTable d es) (ht : s.Grows t) : Attached A size es [] d t := by
  refine ⟨es,hd.grows ht,rfl,?_⟩
  intro i k v hv
  exact ⟨v,hv,by simp,by simp⟩

/-- Before the first wrapper every entry is looked at: the first that fails ends the attachment, and
when none fails, those whose members are to be wrapped are noted. -/
theorem prepare_settles {R : Value × Value → Stop → Prop} {signatures : Value} (htable : s.IsTable d es)
    (hstandard : s.HasStandard)
    (hmap : Always (s.Grows ·) (Contract.signatureMap.outcome M.next signatures) .matched)
    (hlists : Lists (s.Grows ·) M.next signatures map)
    (hsettles : ∀ p ∈ map, A.Settles es (s.Grows ·) M.next d (R p) p) :
    ((∀ p ∈ map, (A.fate es p).fails = false) ∧
      (Signature.prepare M.next signatures (.ref d)).Gives (A.wrapped es map) s) ∨
    ∃ p e t, FirstFailure A es map p ∧
      Signature.prepare M.next signatures (.ref d) s = .error e t ∧ s.Grows t ∧ R p e := by
  -- the map and the target pass the library's own check
  obtain ⟨pair,t₁,h₁,g₁,hpair⟩ := quiet_newTuple [signatures,.ref d] s
  obtain ⟨t₂,h₂,g₂⟩ := Contract.gives_attachment (m := M.next) (hstandard.grows g₁) hpair
    (fun t ht => hmap t (g₁.trans ht)) fun t ht =>
      gives_of_eq (Contract.object_table (hstandard.grows (g₁.trans ht)) (htable.grows (g₁.trans ht)))
  obtain ⟨c,t₃,h₃,g₃,hyields,hbound⟩ := hlists t₂ (g₁.trans g₂)
  have g : s.Grows t₃ := (g₁.trans g₂).trans g₃
  have hprepare : Signature.prepare M.next signatures (.ref d) s
      = Signature.pending M.next (.ref d) [] (t₃.bound c) c t₃ := by
    rw [Signature.prepare,bind_ok h₁,bind_ok h₂]
    simp only [reduceCtorEq,if_false]
    rw [bind_ok h₃,get_bind_apply]
  rcases pending_spec (W := (s.Grows ·)) (l := []) (fun t u ht hu => ht.trans hu) hsettles hyields hbound g with
    ⟨hall,t₄,h₄,g₄⟩ | ⟨p,e,t₄,hfirst,h₄,g₄,hr⟩
  · exact Or.inl ⟨hall,t₄,hprepare.trans h₄,g.trans g₄⟩
  · exact Or.inr ⟨p,e,t₄,hfirst,hprepare.trans h₄,g.trans g₄,hr⟩

theorem prepare_spec {signatures : Value} (h : Answerable A M s d es signatures map) :
    ((∀ p ∈ map, (A.fate es p).fails = false) ∧
      (Signature.prepare M.next signatures (.ref d)).Gives (A.wrapped es map) s) ∨
    ∃ p q t, FirstFailure A es map p ∧
      Signature.prepare M.next signatures (.ref d) s = .error (.raised q) t ∧ s.Grows t ∧
      A.Reports p (s.Grows ·) M.next (A.fate es p) q := by
  have hsettles (p : Value × Value) (hp : p ∈ map) :=
    ((h.about p hp).mono fun t ht => Store.refills_of_grows h.table ht).settles (d := d)
      (fun t u ht hu => ht.trans hu) fun t ht => h.table.grows ht
  rcases prepare_settles (R := fun p e => ∃ q, e = .raised q ∧ A.Reports p (s.Grows ·) M.next (A.fate es p) q) h.table
      h.standard h.isMap h.lists hsettles with hok | ⟨p,_,t,hfirst,ht,hg,q,rfl,hr⟩
  · exact Or.inl hok
  · exact Or.inr ⟨p,q,t,hfirst,ht,hg,hr⟩

/-- An entry that does not fail is a contract that its member fits, unless the member is called. -/
theorem fits_of_fate (hf : (A.fate es p).fails = false) :
    A.isContract p.2 ∧ ∃ v, A.member? es p = some v ∧ (A.isCall p v ∨ A.mismatches p.2 v = false) := by
  cases hc : A.isContract p.2 with
  | false => simp [Answers.fate,hc,Fate.fails] at hf
  | true =>
    cases hm : A.member? es p with
    | none => simp [Answers.fate,hc,hm,Fate.fails] at hf
    | some v =>
      refine ⟨rfl,v,rfl,?_⟩
      cases hcall : A.isCall p v with
      | true => exact Or.inl rfl
      | false =>
        right
        cases hx : A.mismatches p.2 v with
        | false => rfl
        | true => simp [Answers.fate,hc,hm,hcall,hx,Fate.fails] at hf

/-- What is asked about an entry under a text, in a table whose keys are texts, when its contract is of
no class of the program. -/
theorem aboutEntry_text {ks : List Value} {m : Machine} {n x : String} {v : Value} {b : BuiltinClass}
    {c : Contract} (hks : ∀ k ∈ ks, ∃ t, k = .str t) (hsame : ∀ k, A.same k (.str n) = decide (k = .str n))
    (hv : ∀ t, W t → t.classOf v = .builtin b ∧ t.contract? v = some c) (hx : c.description = .str x)
    (hb : b = .contract ∨ b = .signature) (hc : A.isContract v) (hd : A.description v = .str x)
    (hsig : A.isSignature v = decide (b = .signature)) : A.AboutEntry (.str n,v) W m ks := by
  have hdesc : Always W (Signature.descriptionOf m v) (.str x) := fun t ht =>
    gives_of_eq (by simp [Signature.descriptionOf,(hv t ht).2,hx])
  have text {y : String} : AlwaysCalm W (formatted m (.str y)) ∧ AlwaysCalm W (written m (.str y)) :=
    ⟨fun t _ => ⟨y,gives_of_eq (formatted_str m y t)⟩,fun t _ => ⟨y,gives_of_eq (written_str m y t)⟩⟩
  refine ⟨⟨fun t _ => gives_of_eq (checkKey_str m n t),?_⟩,?_,?_,text,?_,?_⟩
  · intro k hk t _
    obtain ⟨y,rfl⟩ := hks k hk
    refine gives_of_eq ((sameKey_str m y t n).trans ?_)
    simp [hsame]
  · intro t ht
    refine gives_of_eq (isKind_builtin (hv t ht).1 ?_)
    rcases hb with rfl | rfl <;> simpa [hc] using by decide
  · intro t ht
    refine gives_of_eq (isKind_builtin (hv t ht).1 ?_)
    rw [hsig]
    rcases hb with rfl | rfl <;> decide
  · simp [hc]
  · intro _
    rw [hd]
    exact ⟨hdesc,text⟩

/-- What is asked about such an entry with a signature, for a function that is not signed with it. -/
theorem about_function {n x : String} {v w : Value} {c : Contract} {f : Function}
    (hks : ∀ k ∈ es.map Prod.fst, ∃ t, k = .str t) (hsame : ∀ k, A.same k (.str n) = decide (k = .str n))
    (hv : ∀ t, W t → t.classOf v = .builtin .signature ∧ t.contract? v = some c)
    (hx : c.description = .str x) (hc : A.isContract v) (hd : A.description v = .str x)
    (hsig : A.isSignature v) (hw : ∀ t, W t → t.IsFunction w f)
    (hm : A.member? es (.str n,v) = some w) (hcall : A.isCallable w) (hsigned : A.isSigned w v = false) :
    A.About es (.str n,v) W M.next := by
  have hisCall : A.isCall (.str n,v) w := by simp [Answers.isCall,hcall,hsig]
  refine ⟨aboutEntry_text hks hsame hv hx (Or.inr rfl) hc hd (by simp [hsig]),?_⟩
  intro w' _ hw'
  obtain rfl : w = w' := by simpa [hm] using hw'
  refine ⟨fun t ht => ?_,fun _ t ht => gives_of_eq ?_,fun h => by simp [hisCall] at h,
    fun h => by simp [hisCall] at h,fun _ => Wrapper.tells_function hw⟩
  · rw [Store.isCallable_builtin (hw t ht).cls,hcall]
    decide
  · have hk : isKind M.next w .wrapper t = .ok false t := isKind_builtin (hw t ht).cls (by decide)
    rw [Signature.isSignedWith,Signature.isSigned,bind_apply,bind_ok hk,hsigned]
    rfl

/-- A function, a signature for it, a table that holds the function and a number, and a map. -/
def sample : Store :=
  { Store.initial with heap := Store.initial.heap ++ #[
    { cls := .builtin .function, attrs := some []
      body := .function ⟨"f","f",.str "m",.absent,
        .closure ⟨"f",[(.required "x",none)],.variable "x",[]⟩⟩ },
    { cls := .builtin .tuple, body := .tuple [.ref 1] },
    { cls := .builtin .signature
      body := .contract (.mk 35 (.str "any -> any") .function) (.operation .functionTest)
        (some ⟨.ref 34,.ref 1,.ref 1⟩) },
    { cls := .builtin .dict, body := .table [(.str "a",.ref 33),(.str "b",.int 5)] },
    { cls := .builtin .dict, body := .table [(.str "a",.ref 35),(.str "b",.ref 3)] }] }

def sampleAnswers : Answers where
  same a b := decide (a = b)
  isContract _ := true
  isSignature v := decide (v = .ref 35)
  isCallable v := decide (v = .ref 33)
  isSigned _ _ := false
  mismatches _ _ := false
  description v := if v = .ref 35 then .str "any -> any" else .str "type number"

theorem sample_attachable (M : Machine) : Attachable sampleAnswers M sample 36
    [(.str "a",.ref 33),(.str "b",.int 5)] (.ref 37) [(.str "a",.ref 35),(.str "b",.ref 3)] := by
  have hd : sample.IsTable 36 [(.str "a",.ref 33),(.str "b",.int 5)] := ⟨rfl,rfl⟩
  have hmap : sample.IsTable 37 [(.str "a",.ref 35),(.str "b",.ref 3)] := ⟨rfl,rfl⟩
  have hstandard : sample.HasStandard := by
    simp only [Store.HasStandard]
    decide
  have hany {t : Store} (ht : sample.Refills 36 [.str "a",.str "b"] t) :
      t.contract? (.ref 1) = some Contract.anything :=
    Store.contract?_of_body (ht.kept (r := 1) rfl (by decide)).2
  have hnumber {t : Store} (ht : sample.Refills 36 [.str "a",.str "b"] t) :
      t.classOf (.ref 3) = .builtin .contract ∧ t.contract? (.ref 3) = some Contract.number := by
    obtain ⟨hc,hb⟩ := ht.kept (r := 3) rfl (by decide)
    exact ⟨hc,Store.contract?_of_body hb⟩
  have hsig {t : Store} (ht : sample.Refills 36 [.str "a",.str "b"] t) :
      t.classOf (.ref 35) = .builtin .signature ∧
        t.contract? (.ref 35) = some (.mk 35 (.str "any -> any") .function) := by
    obtain ⟨hc,hb⟩ := ht.kept (r := 35) rfl (by decide)
    exact ⟨hc,Store.contract?_of_body hb⟩
  have hf {t : Store} (ht : sample.Refills 36 [.str "a",.str "b"] t) :
      t.IsFunction (.ref 33) ⟨"f","f",.str "m",.absent,
        .closure ⟨"f",[(.required "x",none)],.variable "x",[]⟩⟩ := by
    obtain ⟨hc,hb⟩ := ht.kept (r := 33) rfl (by decide)
    exact ⟨hc,hb⟩
  have texts : ∀ k ∈ [Value.str "a",.str "b"], ∃ t, k = .str t := by simp
  refine ⟨⟨hd,hstandard,?_,?_,?_⟩,?_,?_⟩
  · exact fun t ht => gives_of_eq (Contract.signatureMap_table (hstandard.grows ht) (hmap.grows ht))
  · refine lists_table (fun t ht => ⟨hmap.grows ht,?_⟩) (by decide)
    exact (ht.attr? (o := { cls := .builtin .dict, body := .table _ }) rfl trivial rfl (by decide)).trans rfl
  · intro p hp
    simp only [List.mem_cons,List.not_mem_nil,or_false] at hp
    rcases hp with rfl | rfl
    · exact about_function texts (fun k => rfl) (fun t ht => hsig ht) rfl rfl rfl rfl
        (fun t ht => hf ht) rfl rfl rfl
    · refine ⟨aboutEntry_text texts (fun k => rfl) (fun t ht => hnumber ht) rfl (Or.inl rfl) rfl rfl rfl,?_⟩
      intro v _ hv
      obtain rfl : v = .int 5 := by simpa [Answers.member?,Table.found?,sampleAnswers,eq_comm] using hv
      refine ⟨fun t _ => (Store.isCallable_builtin (v := .int 5) (b := .int) rfl).trans (by decide),
        fun h => absurd h (by decide),fun _ t ht => ?_,fun _ h => absurd h (by decide),
        fun h => absurd h (by decide)⟩
      have hk : kindOf M.next (.int 5) t = .ok .number t := by
        have hb : isKind M.next (.int 5) .bool t = .ok false t :=
          isKind_builtin (b := .int) rfl (by decide)
        have hn : isKind M.next (.int 5) .number t = .ok true t :=
          isKind_builtin (b := .int) rfl (by decide)
        simp [kindOf,bind_apply,hb,hn]
      have ho : Contract.number.outcome M.next (.int 5) t = .ok .matched t := by
        refine Contract.outcome_of_holds (b := true) (by rw [(hnumber ht).2]; rfl) ?_
        simp only [Rule.holds,reduceCtorEq,if_false]
        rw [bind_ok hk]
        rfl
      refine gives_of_eq ?_
      rw [Signature.mismatches,get_bind_apply,(hnumber ht).2]
      simp only []
      rw [bind_ok ho]
      rfl
  · simp only [NamedOnce]
    decide
  · intro p hp hs
    simp only [List.mem_cons,List.not_mem_nil,or_false] at hp
    rcases hp with rfl | rfl
    · refine ⟨[Contract.anything],⟨.ref 34,.ref 1,.ref 1⟩,⟨rfl,⟨_,_,rfl⟩,rfl,rfl⟩,?_⟩
      intro c hc
      obtain rfl : c = Contract.anything := by simpa using hc
      exact describable_of_contract (fun t ht => hany ht) rfl
    · cases hs

end Attachment
end CallContracts
