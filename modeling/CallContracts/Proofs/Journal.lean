import CallContracts.Proofs.Attachment
/-! What is written down while signatures are attached.  Attaching asks much of the rest of the program, of contracts
and of members among others, and all that may make records of its own.  Between the questions it makes records itself:
one for each entry that is settled at once, in the order of the map, and then one for each member that is wrapped. -/
namespace CallContracts
open Act

/-- The store with one more record. -/
def Store.logging (s : Store) (r : String) : Store := { s with log := s.log ++ [r] }

namespace Store
variable {s : Store} {d : Ref} {es : List (Value × Value)}

def isTable (s : Store) (d : Ref) (es : List (Value × Value)) : Bool :=
  s.classOf (.ref d) = .builtin .dict && match s.body? (.ref d) with
    | some (.table fs) => fs = es
    | _ => false

theorem isTable_iff : s.isTable d es = true ↔ s.IsTable d es := by
  rw [isTable,Bool.and_eq_true,decide_eq_true_eq]
  constructor
  · rintro ⟨hcls,hbody⟩
    split at hbody
    · rename_i fs hfs
      obtain rfl : fs = es := of_decide_eq_true hbody
      exact ⟨hcls,hfs⟩
    · cases hbody
  · rintro ⟨hcls,hbody⟩
    exact ⟨hcls,by simp [hbody]⟩

instance : Decidable (s.IsTable d es) := decidable_of_iff _ isTable_iff

end Store

namespace Journal

/-- What attaching and checking ask of the rest of the program. -/
inductive Question (m : Machine) : {α : Type} → Act α → Prop where
  | tuple (xs : List Value) : Question m (newTuple xs)
  | outcome (c : Contract) (v : Value) : Question m (c.outcome m v)
  | items (v : Value) : Question m (itemsOf m v)
  | next (c : Cursor) : Question m (c.next m)
  | parts (x : Given) : Question m (fieldParts m x)
  | contract (v : Value) : Question m (isContract m v)
  | signature (v : Value) : Question m (isSignature m v)
  | has (target name : Value) : Question m (Signature.hasMember m target name)
  | member (target name : Value) : Question m (Signature.memberOf m target name)
  | signed (v : Value) : Question m (Signature.isSigned m v)
  | signedWith (v sig : Value) : Question m (Signature.isSignedWith m v sig)
  | mismatches (c v : Value) : Question m (Signature.mismatches m c v)
  | description (c : Value) : Question m (Signature.descriptionOf m c)
  | part (sig : Value) (n : String) : Question m (Signature.part m sig n)
  | written (v : Value) : Question m (written m v)
  | formatted (v : Value) : Question m (formatted m v)
  | short (v : Value) : Question m (shortText m v)
  | shown (v : Value) : Question m (shown m v)
  | inserted (c : Contract) : Question m (c.inserted m)
  | check (sig name : Value) : Question m (Signature.check m sig name)
  | install (target name advice : Value) : Question m (Wrapper.install m target name advice)
  | around (f advice : Value) : Question m (Wrapper.around m f advice)
  | field (v : Value) (n : String) : Question m (fieldOf m v n)
  | setting (n : String) : Question m (setting n)
  | plus (v w : Value) : Question m (Arithmetic.plus m v w)
  | refuses (named : Value) : Question m (Signature.refusesNamed m named)
  | named (v : Value) : Question m (namedOf m v)
  | iterate (v : Value) : Question m (iterate m v)
  | call (f : Value) (args : List Value) (named : Fields Value) : Question m (m.call f args named)

/-- One thing that a computation does: it asks something, which leads from one store to another, or makes a record. -/
inductive Event where
  | asked (s t : Store)
  | noted (r : String)

def Event.note? : Event → Option String
  | .asked .. => none
  | .noted r => some r

def notes (es : List Event) : List String := es.filterMap Event.note?

/-- From one store to another by such events, each where the one before has led. -/
inductive Trail (P : Store → Store → Prop) : Store → List Event → Store → Prop where
  | nil (s : Store) : Trail P s [] s
  | asked {s t u : Store} {es : List Event} : P s t → Trail P t es u → Trail P s (.asked s t :: es) u
  | noted {s u : Store} {r : String} {es : List Event} : Trail P (s.logging r) es u → Trail P s (.noted r :: es) u

/-- What is asked here is asked of the rest of the program. -/
def Asks (m : Machine) (s t : Store) : Prop := ∃ (α : Type) (x : Act α), Question m x ∧ after x s = t

/-- In the course of these events something was asked and gave this. -/
def Asked {α : Type} (es : List Event) (x : Act α) (a : α) : Prop := ∃ u v, x u = .ok a v ∧ .asked u v ∈ es

/-- All that is asked leads from one store to another in this way. -/
def Throughout (R : Store → Store → Prop) (es : List Event) : Prop := ∀ s t, .asked s t ∈ es → R s t

/-- What is asked makes no records of its own. -/
def Silent (es : List Event) : Prop := Throughout (fun s t => t.log = s.log) es

variable {α β : Type} {m : Machine} {s t u : Store} {es fs : List Event} {x : Act α} {a : α} {b : β} {r : String}

@[simp] theorem notes_nil : notes [] = [] := rfl
@[simp] theorem notes_asked : notes (.asked s t :: es) = notes es := rfl
@[simp] theorem notes_noted : notes (.noted r :: es) = r :: notes es := rfl
@[simp] theorem notes_append : notes (es ++ fs) = notes es ++ notes fs := List.filterMap_append

theorem Asked.mono (h : Asked es x a) (hes : es ⊆ fs) : Asked fs x a := by
  obtain ⟨u,v,hx,he⟩ := h
  exact ⟨u,v,hx,hes he⟩

def Event.leads (R : Store → Store → Prop) [DecidableRel R] : Event → Bool
  | .asked s t => R s t
  | .noted _ => true

theorem all_leads {R : Store → Store → Prop} [DecidableRel R] : es.all (Event.leads R) = true ↔ Throughout R es := by
  rw [List.all_eq_true]
  constructor
  · exact fun h s t he => of_decide_eq_true (h _ he)
  · rintro h (⟨s,t⟩ | r) he
    · exact decide_eq_true (h s t he)
    · rfl

instance {R : Store → Store → Prop} [DecidableRel R] : Decidable (Throughout R es) := decidable_of_iff _ all_leads

instance : Decidable (Silent es) := inferInstanceAs (Decidable (Throughout _ es))

namespace Trail
variable {P : Store → Store → Prop}

theorem append (hes : Trail P s es t) (hfs : Trail P t fs u) : Trail P s (es ++ fs) u := by
  induction hes with
  | nil => exact hfs
  | asked hst _ ih => exact .asked hst (ih hfs)
  | noted _ ih => exact .noted (ih hfs)

/-- Records are added to the log one after the other, where nothing else adds any. -/
theorem log_eq (h : Trail P s es t) (hsilent : Silent es) : t.log = s.log ++ notes es := by
  induction h with
  | nil => simp
  | asked _ _ ih =>
    rw [ih fun s t he => hsilent s t (List.mem_cons_of_mem _ he),hsilent _ _ List.mem_cons_self,notes_asked]
  | noted _ ih =>
    rw [ih fun s t he => hsilent s t (List.mem_cons_of_mem _ he)]
    simp [Store.logging]

end Trail

theorem logMessage_eq (r : String) (s : Store) : logMessage r s = .ok () (s.logging r) := rfl

/-- A computation taken apart into what it asks of the rest of the program and what it records. -/
structure Account (m : Machine) (α : Type) where
  run : Act α
  events : Store → List Event
  trail : ∀ s, Trail (Asks m) s (events s) (after run s)

namespace Account

def ask (x : Act α) (hq : Question m x) : Account m α where
  run := x
  events s := [.asked s (after x s)]
  trail _ := .asked ⟨α,x,hq,rfl⟩ (.nil _)

def note (r : String) : Account m Unit where
  run := logMessage r
  events _ := [.noted r]
  trail _ := .noted (.nil _)

/-- What neither asks nor records anything. -/
def still (x : Act α) (h : ∀ s, after x s = s) : Account m α where
  run := x
  events _ := []
  trail s := by
    rw [h]
    exact .nil s

def store : Account m Store := still get fun _ => rfl
def fail (q : Fault) : Account m α := still (Act.fail q) fun _ => rfl
def exhausted : Account m α := still (throw .exhausted) fun _ => rfl

instance : Monad (Account m) where
  pure a := still (pure a) fun _ => rfl
  bind A f :=
    { run := A.run >>= fun a => (f a).run
      events := fun s => match A.run s with
        | .ok a t => A.events s ++ (f a).events t
        | .error _ _ => A.events s
      trail := fun s => by
        have htrail := A.trail s
        cases h : A.run s with
        | ok a t =>
          rw [after_ok h] at htrail
          have hafter : after (A.run >>= fun a => (f a).run) s = after (f a).run t := by simp only [after,bind_ok h]
          rw [hafter]
          exact htrail.append ((f a).trail t)
        | error e t =>
          rw [after_error h] at htrail
          rw [after_error (bind_error h)]
          exact htrail }

variable {A : Account m α} {f : α → Account m β} {hq : Question m x}

theorem events_bind_ok (h : A.run s = .ok a t) : (A >>= f).events s = A.events s ++ (f a).events t := by
  simp only [bind,h]

theorem events_bind_error {e : Stop} (h : A.run s = .error e t) : (A >>= f).events s = A.events s := by
  simp only [bind,h]

theorem events_ask_bind (h : x s = .ok a t) : (ask x hq >>= f).events s = .asked s t :: (f a).events t := by
  rw [events_bind_ok h,← after_ok h]
  rfl

theorem events_bind_fail (A : Account m α) (q : α → Fault) (s : Store) :
    (A >>= fun a => (fail (q a) : Account m β)).events s = A.events s := by
  cases h : A.run s with
  | ok a t => exact (events_bind_ok h).trans (List.append_nil _)
  | error e t => exact events_bind_error h

@[simp] theorem run_ask : (ask x hq).run = x := rfl
@[simp] theorem run_note : (note r : Account m Unit).run = logMessage r := rfl
@[simp] theorem run_store : (store : Account m Store).run = get := rfl
@[simp] theorem run_fail (q : Fault) : (fail q : Account m α).run = Act.fail q := rfl
@[simp] theorem run_exhausted : (exhausted : Account m α).run = throw .exhausted := rfl
@[simp] theorem run_pure (a : α) : (pure a : Account m α).run = pure a := rfl
@[simp] theorem run_bind : (A >>= f).run = A.run >>= fun a => (f a).run := rfl
@[simp] theorem run_ite (c : Prop) [Decidable c] (A B : Account m α) :
    (if c then A else B).run = if c then A.run else B.run := apply_ite Account.run c A B

/-- It ends well with this, after these events. -/
structure Goes (A : Account m α) (s : Store) (es : List Event) (a : α) (t : Store) : Prop where
  run : A.run s = .ok a t
  events : A.events s = es

theorem goes_events (h : A.run s = .ok a t) : A.Goes s (A.events s) a t := ⟨h,rfl⟩

theorem Goes.trail (h : A.Goes s es a t) : Trail (Asks m) s es t := by
  have htrail := A.trail s
  rwa [h.events,after_ok h.run] at htrail

theorem goes_bind : (A >>= f).Goes s es b t ↔
    ∃ a u ds cs, es = ds ++ cs ∧ A.Goes s ds a u ∧ (f a).Goes u cs b t := by
  constructor
  · rintro ⟨hrun,hevents⟩
    obtain ⟨a,u,ha,hb⟩ := bind_eq_ok.mp hrun
    exact ⟨a,u,_,_,by rw [← hevents,events_bind_ok ha],goes_events ha,goes_events hb⟩
  · rintro ⟨a,u,ds,cs,rfl,ha,hb⟩
    exact ⟨(bind_ok ha.run).trans hb.run,by rw [events_bind_ok ha.run,ha.events,hb.events]⟩

theorem goes_ask : (ask x hq).Goes s es a t ↔ x s = .ok a t ∧ es = [.asked s t] := by
  constructor
  · rintro ⟨hrun,rfl⟩
    exact ⟨hrun,by rw [← after_ok hrun]; rfl⟩
  · rintro ⟨hrun,rfl⟩
    exact ⟨hrun,by rw [← after_ok hrun]; rfl⟩

theorem goes_ask_bind : (ask x hq >>= f).Goes s es b t ↔
    ∃ a u cs, es = .asked s u :: cs ∧ x s = .ok a u ∧ (f a).Goes u cs b t := by
  rw [goes_bind]
  constructor
  · rintro ⟨a,u,ds,cs,rfl,ha,hb⟩
    obtain ⟨hx,rfl⟩ := goes_ask.mp ha
    exact ⟨a,u,cs,rfl,hx,hb⟩
  · rintro ⟨a,u,cs,rfl,ha,hb⟩
    exact ⟨a,u,_,cs,rfl,goes_ask.mpr ⟨ha,rfl⟩,hb⟩

@[simp] theorem goes_note {c : Unit} :
    (note r : Account m Unit).Goes s es c t ↔ s.logging r = t ∧ es = [.noted r] := by
  constructor
  · rintro ⟨hrun,rfl⟩
    obtain rfl : s.logging r = t := by simpa [logMessage_eq] using hrun
    exact ⟨rfl,rfl⟩
  · rintro ⟨rfl,rfl⟩
    exact ⟨rfl,rfl⟩

@[simp] theorem goes_pure {c : α} : (pure a : Account m α).Goes s es c t ↔ a = c ∧ s = t ∧ es = [] := by
  constructor
  · rintro ⟨hrun,rfl⟩
    obtain ⟨rfl,rfl⟩ : a = c ∧ s = t := by simpa using hrun
    exact ⟨rfl,rfl,rfl⟩
  · rintro ⟨rfl,rfl,rfl⟩
    exact ⟨rfl,rfl⟩

@[simp] theorem goes_store_bind {f : Store → Account m β} :
    ((store : Account m Store) >>= f).Goes s es b t ↔ (f s).Goes s es b t := by
  rw [goes_bind]
  constructor
  · rintro ⟨_,_,_,_,rfl,⟨hrun,rfl⟩,hf⟩
    cases hrun
    exact hf
  · exact fun hf => ⟨s,s,[],es,rfl,⟨rfl,rfl⟩,hf⟩

@[simp] theorem not_goes_fail {q : Fault} : ¬(fail q : Account m α).Goes s es a t := fun h => nomatch h.run

@[simp] theorem not_goes_exhausted : ¬(exhausted : Account m α).Goes s es a t := fun h => nomatch h.run

end Account

namespace Account
variable (m) (target name entry : Value)

def logAgainst (before between : String) : Account m Unit := do
  let description ← ask (Signature.descriptionOf m entry) (.description entry)
  let n ← ask (written m name) (.written name)
  let d ← ask (written m description) (.written description)
  note (before ++ n ++ between ++ d)

def blame (member expected v : Value) : Account m Blame := do
  let x ← ask (formatted m member) (.formatted member)
  let y ← ask (formatted m expected) (.formatted expected)
  let z ← ask (shortText m v) (.short v)
  return ⟨member,expected,v,x,y,z⟩

def checkMember (member : Value) : Account m Unit := do
  logAgainst m name entry "checking " " against "
  if ← ask (Signature.mismatches m entry member) (.mismatches entry member) then
    let description ← ask (Signature.descriptionOf m entry) (.description entry)
    fail (.member (← blame m name description member))

def judge (member : Value) (isCall : Bool) : Account m Bool := do
  if !isCall then
    checkMember m name entry member
    return false
  else if ← ask (Signature.isSignedWith m member entry) (.signedWith member entry) then
    logAgainst m name entry "" " already checked against "
    return false
  else return true

def examine : Account m Bool := do
  if !(← ask (isContract m entry) (.contract entry)) then
    let n ← ask (formatted m name) (.formatted name)
    fail (.misconfigured (.entryNotContract n (← ask (shown m entry) (.shown entry))))
  if !(← ask (Signature.hasMember m target name) (.has target name)) then
    fail (.misconfigured (.memberMissing (← ask (formatted m name) (.formatted name))))
  let member ← ask (Signature.memberOf m target name) (.member target name)
  if (← store).isCallable member then
    judge m name entry member (← ask (isSignature m entry) (.signature entry))
  else judge m name entry member false

def pending (noted : List (Value × Value)) : Nat → Cursor → Account m (List (Value × Value))
  | 0, _ => exhausted
  | n + 1, c => do
    match ← ask (c.next m) (.next c) with
    | none => return noted
    | some (x,c) =>
      let (name,entry) ← ask (fieldParts m x) (.parts x)
      let wraps ← examine m target name entry
      pending (if wraps then noted ++ [(name,entry)] else noted) n c

def wrapNoted : Account m Unit := do
  let advice ← ask (Signature.check m entry name) (.check entry name)
  let _ ← ask (Wrapper.install m target name advice) (.install target name advice)
  logAgainst m name entry "checking calls of " " against "

def wrapAll : List (Value × Value) → Account m Unit
  | [] => pure ()
  | (name,entry) :: es => do
    wrapNoted m target name entry
    wrapAll es

def attach (signatures target : Value) : Account m Value := do
  let pair ← ask (newTuple [signatures,target]) (.tuple _)
  if (← ask (Contract.attachment.outcome m pair) (.outcome _ pair)) = .mismatched then
    fail (.misconfigured (.wrongArguments (← ask (Contract.attachment.inserted m) (.inserted _))))
  let items ← ask (itemsOf m signatures) (.items signatures)
  let noted ← pending m target [] ((← store).bound items) items
  wrapAll m target noted
  return target

theorem run_logAgainst (before between : String) :
    (logAgainst m name entry before between).run = Signature.logAgainst m before between name entry := rfl

theorem run_blame (member expected v : Value) :
    (blame m member expected v).run = Signature.blame m member expected v := rfl

theorem run_checkMember (member : Value) :
    (checkMember m name entry member).run = Signature.checkMember m entry name member := by
  simp [checkMember,Signature.checkMember,run_logAgainst,run_blame]

theorem run_judge (member : Value) (isCall : Bool) :
    (judge m name entry member isCall).run = Attachment.judge m (name,entry) member isCall := by
  simp [judge,Attachment.judge,run_checkMember,run_logAgainst]

theorem run_examine : (examine m target name entry).run = Signature.examine m target name entry := by
  simp [examine,Signature.examine,run_judge,Attachment.judge]

theorem run_pending (noted : List (Value × Value)) (n : Nat) (c : Cursor) :
    (pending m target noted n c).run = Signature.pending m target noted n c := by
  induction n generalizing noted c with
  | zero => rfl
  | succ n ih =>
    simp only [pending,Signature.pending,run_bind,run_ask]
    congr 1
    funext next
    cases next with
    | none => rfl
    | some xc => simp [run_examine,ih]

theorem run_wrapNoted : (wrapNoted m target name entry).run = Signature.wrapNoted m target name entry := rfl

theorem run_wrapAll (es : List (Value × Value)) : (wrapAll m target es).run = Signature.wrapAll m target es := by
  induction es with
  | nil => rfl
  | cons e es ih => simp [wrapAll,Signature.wrapAll,run_wrapNoted,ih]

theorem run_attach (signatures target : Value) :
    (attach m signatures target).run = Signature.attach m signatures target := by
  simp [attach,Signature.attach,run_pending,run_wrapAll]

end Account

/-- What is done about an entry: its member is checked at once, or is signed with it already, or is wrapped. -/
inductive Treatment where
  | checked | signed | wrapped
  deriving DecidableEq

/-- An entry of a map, what is done about it, and the record that is made of that. -/
structure Entry where
  name : Value
  entry : Value
  treatment : Treatment
  text : String

namespace Entry

def pair (e : Entry) : Value × Value := (e.name,e.entry)

def isWrapped (e : Entry) : Bool := e.treatment = .wrapped

/-- What was asked about it was answered as the treatment requires. -/
def Treated (m : Machine) (target : Value) (es : List Event) (e : Entry) : Prop :=
  match e.treatment with
  | .checked => ∃ v, Asked es (Signature.memberOf m target e.name) v ∧ Asked es (Signature.mismatches m e.entry v) false
  | .signed => ∃ v, Asked es (Signature.memberOf m target e.name) v ∧ Asked es (Signature.isSignedWith m v e.entry) true
  | .wrapped => ∃ k w, Asked es (Signature.check m e.entry e.name) k ∧
      Asked es (Wrapper.install m target e.name k) w

/-- The record tells the name and the description. -/
def Told (m : Machine) (es : List Event) (e : Entry) : Prop :=
  ∃ n c d, Asked es (written m e.name) n ∧ Asked es (Signature.descriptionOf m e.entry) c ∧ Asked es (written m c) d ∧
    e.text = match e.treatment with
      | .checked => "checking " ++ n ++ " against " ++ d
      | .signed => n ++ " already checked against " ++ d
      | .wrapped => "checking calls of " ++ n ++ " against " ++ d

theorem Treated.mono {target : Value} {e : Entry} (h : e.Treated m target es) (hes : es ⊆ fs) :
    e.Treated m target fs := by
  rw [Treated] at h ⊢
  cases ht : e.treatment with
  | checked =>
    rw [ht] at h
    obtain ⟨v,hv,hw⟩ := h
    exact ⟨v,hv.mono hes,hw.mono hes⟩
  | signed =>
    rw [ht] at h
    obtain ⟨v,hv,hw⟩ := h
    exact ⟨v,hv.mono hes,hw.mono hes⟩
  | wrapped =>
    rw [ht] at h
    obtain ⟨k,w,hk,hw⟩ := h
    exact ⟨k,w,hk.mono hes,hw.mono hes⟩

theorem Told.mono {e : Entry} (h : e.Told m es) (hes : es ⊆ fs) : e.Told m fs := by
  obtain ⟨n,c,d,hn,hc,hd,ht⟩ := h
  exact ⟨n,c,d,hn.mono hes,hc.mono hes,hd.mono hes,ht⟩

end Entry

/-- The pairs of names and entries that going over a map gave. -/
inductive Visits (m : Machine) (es : List Event) : Cursor → List (Value × Value) → Prop where
  | done {c : Cursor} : Asked es (c.next m) none → Visits m es c []
  | step {c c' : Cursor} {x : Given} {p : Value × Value} {ps : List (Value × Value)} :
      Asked es (c.next m) (some (x,c')) → Asked es (fieldParts m x) p → Visits m es c' ps → Visits m es c (p :: ps)

theorem Visits.mono {c : Cursor} {ps : List (Value × Value)} (h : Visits m es c ps) (hes : es ⊆ fs) :
    Visits m fs c ps := by
  induction h with
  | done h => exact .done (h.mono hes)
  | step hx hp _ ih => exact .step (hx.mono hes) (hp.mono hes) ih

/-- A map that lists the same wherever it is asked gave just that. -/
theorem Visits.eq_of_steps {W : Store → Prop} {c : Cursor} {ps map : List (Value × Value)} (h : Visits m es c ps)
    (hW : Throughout (fun s _ => W s) es) (hc : c.Steps W m (map.map (partOf .items))) : ps = map := by
  induction map generalizing c ps with
  | nil =>
    cases h with
    | done _ => rfl
    | step hx _ _ =>
      obtain ⟨u,v,hx,he⟩ := hx
      cases hx.symm.trans (hc u (hW u v he))
  | cons p map ih =>
    obtain ⟨c',hnext,hrest⟩ := hc
    cases h with
    | done hx =>
      obtain ⟨u,v,hx,he⟩ := hx
      cases hx.symm.trans (hnext u (hW u v he))
    | step hx hp hps =>
      obtain ⟨u,v,hx,he⟩ := hx
      cases hx.symm.trans (hnext u (hW u v he))
      obtain ⟨u,v,hp,-⟩ := hp
      cases hp
      rw [ih hps hrest]

section attach
variable {target name entry member : Value} {before between : String}

theorem goes_logAgainst {c : Unit} (h : (Account.logAgainst m name entry before between).Goes s es c t) :
    ∃ n d e, notes es = [before ++ n ++ between ++ d] ∧ Asked es (Signature.descriptionOf m entry) e ∧
      Asked es (written m name) n ∧ Asked es (written m e) d := by
  obtain ⟨e,u,_,rfl,he,h⟩ := Account.goes_ask_bind.mp h
  obtain ⟨n,v,_,rfl,hn,h⟩ := Account.goes_ask_bind.mp h
  obtain ⟨d,w,_,rfl,hd,h⟩ := Account.goes_ask_bind.mp h
  obtain ⟨-,rfl⟩ := Account.goes_note.mp h
  exact ⟨n,d,e,by simp,⟨s,u,he,by simp⟩,⟨u,v,hn,by simp⟩,⟨v,w,hd,by simp⟩⟩

theorem goes_checkMember {c : Unit} (h : (Account.checkMember m name entry member).Goes s es c t) :
    ∃ n d e, notes es = ["checking " ++ n ++ " against " ++ d] ∧ Asked es (Signature.descriptionOf m entry) e ∧
      Asked es (written m name) n ∧ Asked es (written m e) d ∧
      Asked es (Signature.mismatches m entry member) false := by
  obtain ⟨_,u,ds,_,rfl,hlog,h⟩ := Account.goes_bind.mp h
  obtain ⟨n,d,e,hnotes,he,hn,hd⟩ := goes_logAgainst hlog
  obtain ⟨wrong,v,_,rfl,hwrong,h⟩ := Account.goes_ask_bind.mp h
  cases wrong with
  | true => simp [Account.goes_bind] at h
  | false =>
    obtain ⟨-,rfl,rfl⟩ : () = c ∧ v = t ∧ _ = [] := by simpa using h
    exact ⟨n,d,e,by simp [hnotes],he.mono (by simp),hn.mono (by simp),hd.mono (by simp),u,v,hwrong,by simp⟩

/-- Once it is known whether the member is called, an entry is settled with one record, or it waits, with none yet. -/
theorem goes_judge {wraps isCall : Bool} (h : (Account.judge m name entry member isCall).Goes s es wraps t) :
    if wraps then notes es = [] else ∃ e : Entry, e.pair = (name,entry) ∧ e.isWrapped = false ∧ notes es = [e.text] ∧
      e.Told m es ∧
      ∀ target fs, es ⊆ fs → Asked fs (Signature.memberOf m target name) member → e.Treated m target fs := by
  cases isCall with
  | false =>
    obtain ⟨_,u,ds,_,rfl,hchecked,h⟩ := Account.goes_bind.mp h
    obtain ⟨rfl,rfl,rfl⟩ : false = wraps ∧ u = t ∧ _ = [] := Account.goes_pure.mp h
    obtain ⟨n,d,e,hnotes,he,hn,hd,hfits⟩ := goes_checkMember hchecked
    rw [if_neg Bool.false_ne_true,List.append_nil]
    exact ⟨⟨name,entry,.checked,_⟩,rfl,rfl,hnotes,⟨n,e,d,hn,he,hd,rfl⟩,
      fun _ _ hes hmember => ⟨member,hmember,hfits.mono hes⟩⟩
  | true =>
    obtain ⟨signed,u,_,rfl,hsigned,h⟩ := Account.goes_ask_bind.mp h
    cases signed with
    | false =>
      obtain ⟨rfl,rfl,rfl⟩ : true = wraps ∧ u = t ∧ _ = [] := Account.goes_pure.mp h
      rfl
    | true =>
      obtain ⟨_,v,ds,_,rfl,hlog,h⟩ := Account.goes_bind.mp h
      obtain ⟨rfl,rfl,rfl⟩ : false = wraps ∧ v = t ∧ _ = [] := Account.goes_pure.mp h
      obtain ⟨n,d,e,hnotes,he,hn,hd⟩ := goes_logAgainst hlog
      rw [if_neg Bool.false_ne_true,List.append_nil]
      exact ⟨⟨name,entry,.signed,_⟩,rfl,rfl,hnotes,
        ⟨n,e,d,hn.mono (by simp),he.mono (by simp),hd.mono (by simp),by simp⟩,
        fun _ _ hes hmember => ⟨member,hmember,s,u,hsigned,hes (by simp)⟩⟩

/-- Up to that an entry is looked at without a record. -/
theorem goes_examine {wraps : Bool} (h : (Account.examine m target name entry).Goes s es wraps t) :
    if wraps then notes es = [] else ∃ e : Entry, e.pair = (name,entry) ∧ e.isWrapped = false ∧ notes es = [e.text] ∧
      e.Treated m target es ∧ e.Told m es := by
  obtain ⟨holds,u,_,rfl,-,h⟩ := Account.goes_ask_bind.mp h
  cases holds with
  | false => simp [Account.goes_bind] at h
  | true =>
  simp only [Bool.not_true,Bool.false_eq_true,if_false] at h
  obtain ⟨has,v,_,rfl,-,h⟩ := Account.goes_ask_bind.mp h
  cases has with
  | false => simp [Account.goes_bind] at h
  | true =>
  simp only [Bool.not_true,Bool.false_eq_true,if_false] at h
  obtain ⟨member,w,cs,rfl,hmember,h⟩ := Account.goes_ask_bind.mp h
  rw [Account.goes_store_bind] at h
  -- whether the entry is a signature is asked only where the member can be called
  obtain ⟨ds,fs,isCall,x,rfl,hnotes,hjudge⟩ : ∃ ds fs isCall x, cs = ds ++ fs ∧ notes ds = [] ∧
      (Account.judge m name entry member isCall).Goes x fs wraps t := by
    split at h
    · obtain ⟨isCall,x,fs,rfl,-,h⟩ := Account.goes_ask_bind.mp h
      exact ⟨[.asked w x],fs,isCall,x,rfl,rfl,h⟩
    · exact ⟨[],cs,false,w,rfl,rfl,h⟩
  have hjudged := goes_judge hjudge
  cases wraps with
  | true => simpa [hnotes] using hjudged
  | false =>
    simp only [Bool.false_eq_true,if_false] at hjudged ⊢
    obtain ⟨e,hpair,hwrapped,hnotes',htold,htreated⟩ := hjudged
    have hsub : fs ⊆ .asked s u :: .asked u v :: .asked v w :: (ds ++ fs) := fun _ h => by simp [h]
    exact ⟨e,hpair,hwrapped,by simp [hnotes,hnotes'],htreated target _ hsub ⟨v,w,hmember,by simp⟩,htold.mono hsub⟩

/-- Going over the map settles some entries and leaves the others waiting, each in its place. -/
theorem goes_pending {n : Nat} {c : Cursor} {done waits : List (Value × Value)}
    (h : (Account.pending m target done n c).Goes s es waits t) : ∃ seen : List (Entry ⊕ Value × Value),
      Visits m es c (seen.map (Sum.elim Entry.pair id)) ∧ waits = done ++ seen.filterMap Sum.getRight? ∧
      notes es = (seen.filterMap Sum.getLeft?).map Entry.text ∧
      ∀ e, .inl e ∈ seen → e.isWrapped = false ∧ e.Treated m target es ∧ e.Told m es := by
  induction n generalizing s es c done with
  | zero => exact absurd h Account.not_goes_exhausted
  | succ n ih =>
    obtain ⟨next,u,_,rfl,hnext,h⟩ := Account.goes_ask_bind.mp h
    cases next with
    | none =>
      obtain ⟨rfl,rfl,rfl⟩ : done = waits ∧ u = t ∧ _ = [] := Account.goes_pure.mp h
      exact ⟨[],.done ⟨s,u,hnext,by simp⟩,by simp,rfl,by simp⟩
    | some xc =>
      obtain ⟨x,c'⟩ := xc
      obtain ⟨p,v,_,rfl,hp,h⟩ := Account.goes_ask_bind.mp h
      obtain ⟨wraps,w,ds,cs,rfl,hexamine,h⟩ := Account.goes_bind.mp h
      have hexamined := goes_examine hexamine
      obtain ⟨seen,hvisits,hwaits,hnotes,hseen⟩ := ih h
      have hsub : cs ⊆ .asked s u :: .asked u v :: (ds ++ cs) := fun _ h => by simp [h]
      have hstep {q : Entry ⊕ Value × Value} (hq : Sum.elim Entry.pair id q = p) :
          Visits m (.asked s u :: .asked u v :: (ds ++ cs)) c ((q :: seen).map (Sum.elim Entry.pair id)) := by
        subst hq
        exact .step ⟨s,u,hnext,by simp⟩ ⟨u,v,hp,by simp⟩ (hvisits.mono hsub)
      have hrest (e : Entry) (he : .inl e ∈ seen) :
          e.isWrapped = false ∧ e.Treated m target (.asked s u :: .asked u v :: (ds ++ cs)) ∧
            e.Told m (.asked s u :: .asked u v :: (ds ++ cs)) :=
        ⟨(hseen e he).1,(hseen e he).2.1.mono hsub,(hseen e he).2.2.mono hsub⟩
      cases wraps with
      | true =>
        refine ⟨.inr p :: seen,hstep rfl,?_,?_,?_⟩
        · simpa using hwaits
        · have hnotes' : notes ds = [] := hexamined
          simpa [hnotes',List.filterMap_cons] using hnotes
        · simpa using hrest
      | false =>
        simp only [Bool.false_eq_true,if_false] at hexamined
        obtain ⟨e,hpair,hwrapped,hnotes',htreated,htold⟩ := hexamined
        have hsub' : ds ⊆ .asked s u :: .asked u v :: (ds ++ cs) := fun _ h => by simp [h]
        refine ⟨.inl e :: seen,hstep hpair,?_,?_,?_⟩
        · simpa [List.filterMap_cons] using hwaits
        · simp [hnotes',hnotes]
        · simpa using ⟨⟨hwrapped,htreated.mono hsub',htold.mono hsub'⟩,hrest⟩

/-- The members that waited are wrapped one after the other, each with one record. -/
theorem goes_wrapAll {c : Unit} {waits : List (Value × Value)} (h : (Account.wrapAll m target waits).Goes s es c t) :
    ∃ entries : List Entry, entries.map Entry.pair = waits ∧ notes es = entries.map Entry.text ∧
      ∀ e ∈ entries, e.isWrapped ∧ e.Treated m target es ∧ e.Told m es := by
  induction waits generalizing s es with
  | nil =>
    obtain ⟨-,-,rfl⟩ := Account.goes_pure.mp h
    exact ⟨[],rfl,rfl,by simp⟩
  | cons p waits ih =>
    obtain ⟨_,u,_,cs,rfl,hwrap,hrest⟩ := Account.goes_bind.mp h
    obtain ⟨k,v,_,rfl,hk,hwrap⟩ := Account.goes_ask_bind.mp hwrap
    obtain ⟨f,w,ds,rfl,hf,hlog⟩ := Account.goes_ask_bind.mp hwrap
    obtain ⟨n,d,e,hnotes,he,hn,hd⟩ := goes_logAgainst hlog
    obtain ⟨entries,hentries,hnotes',hall⟩ := ih hrest
    have hsub : cs ⊆ .asked s v :: .asked v w :: ds ++ cs := fun _ h => by simp [h]
    have hsub' : ds ⊆ .asked s v :: .asked v w :: ds ++ cs := fun _ h => by simp [h]
    refine ⟨⟨p.1,p.2,.wrapped,"checking calls of " ++ n ++ " against " ++ d⟩ :: entries,
      by simp [Entry.pair,hentries],by simp [hnotes,hnotes'],?_⟩
    intro x hx
    rcases List.mem_cons.mp hx with rfl | hx
    · exact ⟨rfl,⟨k,f,⟨s,v,hk,by simp⟩,v,w,hf,by simp⟩,n,e,d,hn.mono hsub',he.mono hsub',hd.mono hsub',rfl⟩
    · exact ⟨(hall x hx).1,(hall x hx).2.1.mono hsub,(hall x hx).2.2.mono hsub⟩

/-- Those that were settled and those that were wrapped are together the entries of the map. -/
theorem exists_entries {seen : List (Entry ⊕ Value × Value)} {wrapped : List Entry}
    (hsettled : ∀ e, .inl e ∈ seen → e.isWrapped = false) (hwrapped : ∀ e ∈ wrapped, e.isWrapped)
    (h : wrapped.map Entry.pair = seen.filterMap Sum.getRight?) : ∃ entries : List Entry,
      entries.map Entry.pair = seen.map (Sum.elim Entry.pair id) ∧ entries.filter Entry.isWrapped = wrapped ∧
      entries.filter (!·.isWrapped) = seen.filterMap Sum.getLeft? := by
  induction seen generalizing wrapped with
  | nil =>
    obtain rfl : wrapped = [] := by simpa using h
    exact ⟨[],rfl,rfl,rfl⟩
  | cons x seen ih =>
    cases x with
    | inl e =>
      have he := hsettled e (by simp)
      obtain ⟨entries,hpairs,hw,hl⟩ := ih (fun e he => hsettled e (by simp [he])) hwrapped h
      exact ⟨e :: entries,by simp [hpairs],by simp [he,hw],by simp [he,hl]⟩
    | inr p =>
      cases wrapped with
      | nil => simp at h
      | cons e wrapped =>
        obtain ⟨rfl,hrest⟩ : e.pair = p ∧ wrapped.map Entry.pair = seen.filterMap Sum.getRight? := by simpa using h
        have he := hwrapped e (by simp)
        obtain ⟨entries,hpairs,hw,hl⟩ := ih (fun e he => hsettled e (by simp [he]))
          (fun f hf => hwrapped f (List.mem_cons_of_mem e hf)) hrest
        exact ⟨e :: entries,by simp [hpairs],by simp [he,hw],by simp [he,hl,List.filterMap_cons]⟩

/-- How attaching a map goes that ends well: it makes one record for each entry, in the order of the map for those that
are settled at once, and then in the order of the map for those that are wrapped. -/
structure Attaches (m : Machine) (signatures target : Value) (es : List Event) (entries : List Entry) : Prop where
  visits : ∃ c, Asked es (itemsOf m signatures) c ∧ Visits m es c (entries.map Entry.pair)
  notes : notes es = (entries.filter (!·.isWrapped) ++ entries.filter Entry.isWrapped).map Entry.text
  treated : ∀ e ∈ entries, e.Treated m target es
  told : ∀ e ∈ entries, e.Told m es

theorem exists_attaches {signatures v : Value} (h : (Account.attach m signatures target).Goes s es v t) :
    ∃ entries, Attaches m signatures target es entries := by
  obtain ⟨pair,u,_,rfl,-,h⟩ := Account.goes_ask_bind.mp h
  obtain ⟨o,w,_,rfl,-,h⟩ := Account.goes_ask_bind.mp h
  by_cases ho : o = .mismatched
  · simp [ho,Account.goes_bind] at h
  · simp only [ho,if_false] at h
    obtain ⟨c,x,_,rfl,hc,h⟩ := Account.goes_ask_bind.mp h
    rw [Account.goes_store_bind] at h
    obtain ⟨waits,y,ds,_,rfl,hpending,h⟩ := Account.goes_bind.mp h
    obtain ⟨_,z,fs,_,rfl,hwrap,h⟩ := Account.goes_bind.mp h
    obtain ⟨-,-,rfl⟩ := Account.goes_pure.mp h
    obtain ⟨seen,hvisits,rfl,hnotes,hseen⟩ := goes_pending hpending
    obtain ⟨wrapped,hpairs,hnotes',hwrapped⟩ := goes_wrapAll hwrap
    obtain ⟨entries,hentries,hw,hl⟩ := exists_entries (fun e he => (hseen e he).1) (fun e he => (hwrapped e he).1)
      (by simpa using hpairs)
    have hds : ds ⊆ .asked s u :: .asked u w :: .asked w x :: (ds ++ (fs ++ [])) := fun _ h => by simp [h]
    have hfs : fs ⊆ .asked s u :: .asked u w :: .asked w x :: (ds ++ (fs ++ [])) := fun _ h => by simp [h]
    have hall : ∀ e ∈ entries,
        e.Treated m target (.asked s u :: .asked u w :: .asked w x :: (ds ++ (fs ++ []))) ∧
          e.Told m (.asked s u :: .asked u w :: .asked w x :: (ds ++ (fs ++ []))) := by
      intro e he
      cases hew : e.isWrapped with
      | true =>
        have hmem : e ∈ wrapped := by simp [← hw,he,hew]
        exact ⟨(hwrapped e hmem).2.1.mono hfs,(hwrapped e hmem).2.2.mono hfs⟩
      | false =>
        have hmem : e ∈ seen.filterMap Sum.getLeft? := by simp [← hl,he,hew]
        obtain ⟨x,hx,hxe⟩ := List.mem_filterMap.mp hmem
        obtain rfl := Sum.getLeft?_eq_some_iff.mp hxe
        exact ⟨(hseen e hx).2.1.mono hds,(hseen e hx).2.2.mono hds⟩
    exact ⟨entries,⟨c,⟨w,x,hc,by simp⟩,hentries ▸ hvisits.mono hds⟩,by simp [hnotes,hnotes',hw,hl],
      fun e he => (hall e he).1,fun e he => (hall e he).2⟩

/-- The entries are those of the map, if it is a plain table that stays as it is. -/
theorem Attaches.pairs {d : Ref} {map : List (Value × Value)} {entries : List Entry}
    (h : Attaches m (.ref d) target es entries) (hn : (map.map Prod.fst).Nodup)
    (hmap : Throughout (fun u _ => u.IsTable d map ∧ u.attr? (.ref d) "items" = none) es) :
    entries.map Entry.pair = map := by
  obtain ⟨c,⟨u,v,hc,he⟩,hvisits⟩ := h.visits
  obtain ⟨htable,hitems⟩ := hmap u v he
  rw [itemsOf_table htable hitems] at hc
  cases hc
  exact hvisits.eq_of_steps hmap
    (Cursor.steps_entries .items (fun w hw => entriesAt_table hw.1) hn [] map rfl)

end attach
end Journal
end CallContracts
