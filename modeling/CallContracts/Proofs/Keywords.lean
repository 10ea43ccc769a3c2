import CallContracts.Proofs.Boundary
import CallContracts.Proofs.Signable
/-! Arguments by name.  A signed function is called through a wrapper in hand, or one that is read from a class or
an instance.  What carries a call has parameters of its own: a name that is one of them is taken for it, or refused,
and all other names get through. -/
namespace CallContracts
open Act

/-- What a wrapper that waits takes out of a call: the instance, by its place or by its name. -/
def instanceOf : List Value → Fields Value → Option (Value × List Value × Fields Value)
  | i :: args, named => if (named.get? "instance").isSome then none else some (i,args,named)
  | [], named => (named.get? "instance").map fun i => (i,[],named.erase "instance")

/-- Where a signed function is called: a wrapper in hand, of what the function gets first, or a member that is read.
-/
inductive Site where
  | itself (lead : List Value)
  | member (c : Receives) (a : Access)

namespace Site

/-- What the function gets first, what the check sees and which names it sees, if a call comes to the check at all. -/
def takes (args : List Value) (named : Fields Value) : Site → Option (List Value × List Value × Fields Value)
  | itself lead => if (named.get? "self").isSome then none else some (lead,args,named)
  | member c (.ofInstance o) => if (named.get? "self").isSome then none else some (c.lead o,args,named)
  | member c .ofClass => if (named.get? "self").isSome then none
    else (instanceOf args named).map fun p => (c.lead p.1,p.2)

/-- The names that wrappers keep for themselves. -/
def names : Site → List String
  | member _ .ofClass => ["self","instance"]
  | _ => ["self"]

/-- What the function gets first, if the instance is given by its place. -/
def lead (args : List Value) : Site → List Value
  | itself lead => lead
  | member c (.ofInstance o) => c.lead o
  | member c .ofClass => c.lead (args.headD .absent)

/-- What the check sees of the arguments, if the instance is given by its place. -/
def seen (args : List Value) : Site → List Value
  | member _ .ofClass => args.tail
  | _ => args

/-- A call with an instance in its place comes to the check with all of its names, unless one of them is kept. -/
theorem takes_eq {site : Site} {args : List Value} {named : Fields Value}
    (hargs : args = [] → "instance" ∉ site.names) :
    site.takes args named = if ∀ n ∈ site.names, named.get? n = none
      then some (site.lead args,site.seen args,named) else none := by
  rcases site with lead | ⟨c,_ | o⟩
  · cases hself : named.get? "self" <;> simp [takes,names,Site.lead,seen,hself]
  · rcases args with _ | ⟨i,args⟩
    · simp [names] at hargs
    · cases hself : named.get? "self" <;> cases hi : named.get? "instance" <;>
        simp [takes,names,Site.lead,seen,instanceOf,hself,hi]
  · cases hself : named.get? "self" <;> simp [takes,names,Site.lead,seen,hself]

end Site

/-- What the function gets first one call down, it gets on the machine below. -/
def Machine.reached (M : Machine) : List Value → Machine
  | [] => M.next
  | _ => M

namespace Store
variable {s t : Store} {f k q : Value} {lead : List Value}

/-- A signed function at one of its sites, and how the wrapper is come by there. -/
inductive Reaches (s : Store) (f k : Value) : Site → (Machine → Act Value) → Prop where
  | itself {w u : Value} {lead : List Value} : s.Wraps .wrapper w u k → s.Stacked f lead u [] →
      Reaches s f k (.itself lead) fun _ => pure w
  | member {w u v : Value} {c : Receives} {a : Access} {n : String} : s.Wraps .wrapper w u k → s.Plain f c u →
      s.Found n w a v → n ∉ specialNames → Reaches s f k (.member c a) fun m => m.read v n

end Store

namespace Signature
variable {W : Store → Prop} {m M N : Machine} {s t x y z : Store} {k w sig f g u v q i owner : Value} {name : String}
  {j r : Contract} {cs : List Contract} {args lead : List Value} {named : Fields Value} {allow : Bool} {c : Receives}
  {site : Site}

/-- A function is called with what it gets first before the arguments. -/
theorem call_reached (h : t.Stacked f lead q []) (hx : s.Minds W t x) :
    M.next.call q args named x = (M.reached lead).call f (lead ++ args) named x := by
  cases h with
  | original => rfl
  | bound hm =>
    have hq : t.Holds (.during s t) q := Store.holds_pledged hm.body hm.cls (by simp)
    exact call_method ⟨by rw [hx.kept.classOf hq,hm.cls],by rw [hx.kept.body? hq,hm.body]⟩ args

theorem arguments_waits (args : List Value) (named : Fields Value) :
    (Member.params .unboundWrapper "__call__").arguments args named
      = (instanceOf args named).map fun p => [.one p.1,.rest p.2.1,.keywords p.2.2] := by
  cases args with
  | nil => cases hi : named.get? "instance" <;>
      simp [Member.params,Params.arguments,Params.place,instanceOf,hi]
  | cons i args => cases hi : named.get? "instance" <;>
      simp [Member.params,Params.arguments,Params.place,instanceOf,hi]

/-- A wrapper that waits takes every call that names neither the wrapper itself nor the instance twice. -/
theorem call_waits (h : s.Wraps .unboundWrapper w g k) (args : List Value) (named : Fields Value) :
    M.next.call w args named s = (if (named.get? "self").isSome then refuse .typeError
      else match instanceOf args named with
        | none => refuse .typeError
        | some (i,args,named) => Wrapper.callUnbound M w i args named) s := by
  obtain ⟨r,o,rfl,-⟩ := h.place
  rw [call_member h.classOf h.body? (c := .unboundWrapper) rfl named]
  unfold Member.call
  cases hself : named.get? "self" with
  | some x =>
    simp only [Member.selfAnd,hself]
    rfl
  | none =>
    simp only [Member.selfAnd,hself]
    rw [bind_ok (ofOption_some _ _ s)]
    simp only [arguments_waits]
    cases instanceOf args named <;> rfl

/-- How a call ends of which so much comes to a check, if anything: it is refused before, or crosses the boundary with
what the function gets first and with these names. -/
def Arrives (M : Machine) (name : String) (cs : List Contract) (j r : Contract) (allow : Bool) (f : Value) (s : Store)
    (y : EStateM.Result Stop Store Value) : Option (List Value × List Value × Fields Value) → Prop
  | none => ∃ t, y = .error (.raised (.refused .typeError)) t ∧ s.Grows t
  | some (lead,seen,named) => ∃ a n t, s.Grows t ∧ t.Packed seen named a n ∧
      Crosses M.next name cs j r allow seen named ((M.reached lead).call f (lead ++ seen) named) a n t y

theorem Arrives.after {y : EStateM.Result Stop Store Value} {p : Option (List Value × List Value × Fields Value)}
    (hs : s.Grows t) (h : Arrives M name cs j r allow f t y p) : Arrives M name cs j r allow f s y p := by
  rcases p with _ | ⟨lead,seen,named⟩
  · obtain ⟨u,hy,hg⟩ := h
    exact ⟨u,hy,hs.trans hg⟩
  · obtain ⟨a,n,u,hg,hp,hc⟩ := h
    exact ⟨a,n,u,hs.trans hg,hp,hc⟩

section arrives
variable (hg : Guard s k sig name cs j r) (hs : s.Grows t) (hset : t.Owns (.ref settingsRef))
  (hallow : t.attr? (.ref settingsRef) "allow_keywords" = some (.bool allow))
include hg hs hset hallow

/-- A wrapper in hand. -/
theorem arrives_wrapper (hw : t.Wraps .wrapper w q k) (hq : t.Stacked f lead q [])
    (hb : named.get? "self" = none → Heedful W M.next s cs r ((M.reached lead).call f (lead ++ args) named)) :
    Arrives M name cs j r allow f t (M.next.next.next.call w args named t) ((Site.itself lead).takes args named) := by
  cases hself : named.get? "self" with
  | some x =>
    simp only [Site.takes,hself,Option.isSome_some,if_true]
    refine ⟨t,?_,Store.Keeps.refl _ t⟩
    rw [call_wrapper_hands args named hw (Or.inl rfl),hself]
    rfl
  | none =>
    simp only [Site.takes,hself,Option.isSome_none,Bool.false_eq_true,if_false]
    obtain ⟨a,n,u,hpacks,hcrosses⟩ := crosses_of_wraps hs hg hw (Or.inl rfl) hset hallow hself
      (fun u x hu hx => call_reached (hq.grows hu) hx) (hb hself)
    exact ⟨a,n,u,hpacks.grows,hcrosses⟩

/-- A wrapper that waits binds what it is given. -/
theorem arrives_unbound (hw : t.Wraps .unboundWrapper w u k) (howner : t.attr? w "owner" = some owner)
    (ho : owner ≠ .absent) (hu : t.Plain f c u)
    (hb : Heedful W M.next s cs r ((M.reached (c.lead i)).call f (c.lead i ++ args) named)) :
    Arrives M name cs j r allow f t (Wrapper.callUnbound M.next.next w i args named t)
      (some (c.lead i,args,named)) := by
  obtain ⟨a,z,n,x,hz,hx,hpacks,hp,hholds⟩ := quiet_packed args named t
  have htx := hpacks.grows
  have hwx := hw.grows htx
  have hownerx : x.attr? w "owner" = some owner := by
    obtain ⟨r,o,rfl,hget,-,-,htable⟩ := hw.place
    rw [htx.attr? hget trivial htable (by decide),howner]
  obtain ⟨q,y,hq,hxy,hstack,-⟩ := Wrapper.quiet_bindPlain (M := M) (hu.grows htx) ho i
  have hty := htx.trans hxy
  have hsy := hs.trans hty
  have hwy := hwx.grows hxy
  obtain ⟨ha,hn⟩ := hholds y hxy
  refine ⟨a,n,y,hty,hp.grows hxy,?_⟩
  rw [Wrapper.callUnbound,bind_ok hz,bind_ok hx,bind_ok (fieldOf_own hwx.classOf hwx.proceed),
    bind_ok (Wrapper.bindsProceed_plain (hu.grows htx))]
  simp only [Bool.not_true,Bool.false_eq_true,if_false]
  rw [bind_ok (fieldOf_own hwx.classOf hownerx),bind_ok hq,bind_ok (fieldOf_own hwy.classOf hwy.advice),
    call_check (hg.grows hsy).checks]
  exact enforce_crosses hsy hg (hp.grows hxy) (ha.during hs) (hn.during hs)
    (Store.setting_grows hset (by decide) hallow hty) (fun z hz => call_reached hstack hz) hb

theorem arrives_waits (hw : t.Wraps .unboundWrapper w u k) (howner : t.attr? w "owner" = some owner)
    (ho : owner ≠ .absent) (hu : t.Plain f c u)
    (hb : ∀ lead seen rest, (Site.member c .ofClass).takes args named = some (lead,seen,rest) →
      Heedful W M.next s cs r ((M.reached lead).call f (lead ++ seen) rest)) :
    Arrives M name cs j r allow f t (M.next.next.next.call w args named t)
      ((Site.member c .ofClass).takes args named) := by
  rw [call_waits hw]
  cases hself : named.get? "self" with
  | some x =>
    simp only [Site.takes,hself,Option.isSome_some,if_true]
    exact ⟨t,rfl,Store.Keeps.refl _ t⟩
  | none =>
    cases hi : instanceOf args named with
    | none =>
      simp only [Site.takes,hself,hi,Option.isSome_none,Bool.false_eq_true,if_false,Option.map_none]
      exact ⟨t,rfl,Store.Keeps.refl _ t⟩
    | some p =>
      obtain ⟨i,seen,rest⟩ := p
      have htakes : (Site.member c .ofClass).takes args named = some (c.lead i,seen,rest) := by
        simp [Site.takes,hself,hi]
      rw [htakes]
      simp only [Option.isSome_none,Bool.false_eq_true,if_false]
      exact arrives_unbound hg hs hset hallow hw howner ho hu (hb _ _ _ htakes)

end arrives

/-- A signed function that is reached is called as its site says. -/
theorem arrives_reached {get : Machine → Act Value} (hg : Guard s k sig name cs j r)
    (hset : s.Owns (.ref settingsRef)) (hallow : s.attr? (.ref settingsRef) "allow_keywords" = some (.bool allow))
    (hx : s.Reaches f k site get)
    (hb : ∀ lead seen rest, site.takes args named = some (lead,seen,rest) →
      Heedful W M.next s cs r ((M.reached lead).call f (lead ++ seen) rest)) :
    Arrives M name cs j r allow f s
      ((do M.next.next.next.call (← get M.next.next.next) args named) s) (site.takes args named) := by
  cases hx with
  | itself hw hu =>
    exact arrives_wrapper hg (Store.Keeps.refl _ s) hset hallow hw hu fun hself =>
      hb _ _ _ (by simp [Site.takes,hself])
  | @member w u v c a n hw hu hx hn =>
    have hdata : s.isDataMember w = false := by
      obtain ⟨r,o,rfl,-⟩ := hw.place
      exact Store.isDataMember_builtin hw.classOf (by decide)
    obtain ⟨i,ha,⟨D,howner⟩,hread⟩ := hx.read hn hdata
    have ho : s.ownerOf v a ≠ .absent := by simp [howner]
    rcases ha with ⟨rfl,rfl⟩ | ⟨rfl,hi⟩
    · obtain ⟨x,t,hx,hst,hwait,howner⟩ := Wrapper.quiet_of_or (Wrapper.quiet_waitPlain hw hu ho) (hread _)
      rw [bind_ok hx]
      exact (arrives_waits hg hst (hset.grows hst) (Store.setting_grows hset (by decide) hallow hst) hwait howner ho
        (hu.grows hst) hb).after hst
    · obtain ⟨x,t,hx,hst,q,hw',hq⟩ := Wrapper.quiet_of_or (Wrapper.quiet_bindWrapper hw hu hi ho) (hread _)
      rw [bind_ok hx]
      exact Arrives.after hst (arrives_wrapper hg hst (hset.grows hst)
        (Store.setting_grows hset (by decide) hallow hst) hw' hq fun hself => hb _ _ _ (by simp [Site.takes,hself]))

/-- Take a signature that was built out of contracts, a check that was made of it for a member, and a function that is
called under this check: through a wrapper in hand, or as a method that is read from a class or an instance.  Whatever
the arguments and the names of a call, it is refused before anything runs, or crosses the boundary with what its site
lets through. -/
theorem calls_of_named {get : Machine → Act Value} (hcs : ∀ c ∈ cs, s.Worded c) (hr : Pledged s r)
    (hsig : Contract.proc m.next (cs.map Contract.value ++ [r.value]) s = .ok sig t) (hty : t.Keeps .library y)
    (hk : check N.next sig (.str name) y = .ok k z) (hzx : z.Keeps .library x) (hx : x.Reaches f k site get)
    (hset : x.Owns (.ref settingsRef)) (hallow : x.attr? (.ref settingsRef) "allow_keywords" = some (.bool allow))
    (hb : ∀ lead seen rest, site.takes args named = some (lead,seen,rest) →
      Heedful W M.next x cs r ((M.reached lead).call f (lead ++ seen) rest)) :
    ∃ j, Guard x k sig name cs j r ∧ Arrives M name cs j r allow f x
      ((do M.next.next.next.call (← get M.next.next.next) args named) x) (site.takes args named) := by
  obtain ⟨j,hg⟩ := guard_of_check hcs hr hsig hty hk hzx
  exact ⟨j,hg,arrives_reached hg hset hallow hx hb⟩

/-- A function that gives back what it gets by a name. -/
def naming : Function := ⟨"f","f",.str "m",.absent,.closure
  ⟨"f",[(.required "x",none),(.required "instance",none)],.variable "instance",[]⟩⟩

/-- Settings that allow names, and this function. -/
def namingStore : Store where
  heap := (Settings.object { keywords := true } :: Contract.standard.map Contract.standardObject ++
    Contract.standard.map Contract.standardPredicate ++
    ([{ cls := .builtin .function, attrs := some [], body := .function naming }] : List Obj)).toArray

/-- A name that only wrappers which wait keep for themselves gets through a wrapper in hand. -/
theorem calls_of_named_instance : ∃ j w k x, x.Wraps .wrapper w (.ref 33) k ∧
    Arrives Machine.halted "f" [Contract.anything] j Contract.anything true (.ref 33) x
      (Machine.halted.next.next.next.call w [.int 1] [("instance",.int 2)] x)
      (some ([],[.int 1],[("instance",.int 2)])) := by
  have hany : namingStore.Worded Contract.anything := ⟨⟨Or.inl rfl,rfl⟩,_,rfl⟩
  have hcall (t : Store) : ∃ g, naming.code.call Machine.halted [.int 1] [("instance",.int 2)] t = .ok g t := ⟨_,rfl⟩
  obtain ⟨hpledged,sig,t,k,z,w,x,hsig,hk,hzx,hw,hset,hallow,hb⟩ := exists_unresisting (f := .ref 33) hany rfl ⟨rfl,rfl⟩
    ⟨_,_,rfl,rfl,rfl⟩ rfl rfl hcall "f"
  have htakes : (Site.itself []).takes [.int 1] [("instance",.int 2)] = some ([],[.int 1],[("instance",.int 2)]) := rfl
  have hheeds (lead seen : List Value) (rest : Fields Value)
      (h : (Site.itself []).takes [.int 1] [("instance",.int 2)] = some (lead,seen,rest)) :
      Heedful (x.Grows ·) Machine.halted.next x [Contract.anything] Contract.anything
        ((Machine.halted.reached lead).call (.ref 33) (lead ++ seen) rest) := by
    cases htakes.symm.trans h
    exact hb
  obtain ⟨j,-,h⟩ := calls_of_named (by simpa using hany) hpledged hsig (Store.Keeps.refl _ t) hk hzx
    (.itself hw .original) hset hallow hheeds
  exact ⟨j,w,k,x,hw,h⟩

/-- A function that takes an argument by the name of the wrapper itself, and the same function when it is signed. -/
def selfNamed : Act (Value × Value) := do
  putOwn (.ref settingsRef) "allow_keywords" (.bool true)
  let f ← (Expr.function "f" [.required "x",.required "self"] [] (.variable "self") none).eval Machine.full []
  let sig ← Contract.proc Machine.full [Contract.anything.value,Contract.anything.value]
  return (f,← sign Machine.full sig f)

/-- Signed, it cannot be called as it could before. -/
theorem fails_selfNamed :
    returned (selfNamed >>= fun p => Machine.full.call p.1 [.int 1] [("self",.int 2)]) Store.initial = some (.int 2) ∧
    faultClass (selfNamed >>= fun p => Machine.full.call p.2 [.int 1] [("self",.int 2)]) Store.initial
      = some .typeError := by decide +kernel

end Signature
end CallContracts
