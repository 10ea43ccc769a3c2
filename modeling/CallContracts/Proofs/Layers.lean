import CallContracts.Proofs.Journal
import CallContracts.Proofs.Listed
/-! What is written down while calls are checked.  A layer asks much of the rest of the program, and behind it other
layers may be called, which make records of their own.  It makes none itself when it returns or when it passes on what
something asked ended in, and one, before it tells what is wrong, when it complains. -/
namespace CallContracts
open Act

/-- The store once the arguments of a call are packed, as a tuple and a table. -/
def Store.packed (s : Store) (args : List Value) (named : Fields Value) : Store :=
  let t := (s.alloc { cls := .builtin .tuple, body := .tuple args }).2
  (t.alloc { cls := .builtin .dict, body := .table (named.map fun f => (.str f.1,f.2)) }).2

/-- A call of a wrapper whose advice is a check is a call of that layer, once the arguments are packed. -/
theorem call_layer {m : Machine} {s : Store} {c : BuiltinClass} {w p k f name : Value} {cs : List Contract}
    {args : List Value} {named : Fields Value} (hw : s.Wraps c w p k) (hc : c = .wrapper ∨ c = .classWrapper)
    (hk : s.Checks k f name cs) (hself : named.get? "self" = none) : m.next.next.call w args named s
      = Signature.enforce m k p (.ref s.heap.size) (.ref (s.heap.size+1)) (s.packed args named) := by
  let t := (s.alloc { cls := .builtin .tuple, body := .tuple args }).2
  have ha : newTuple args s = .ok (.ref s.heap.size) t := alloc_apply _ s
  have hn : newNamed named t = .ok (.ref (s.heap.size+1)) (s.packed args named) := by
    rw [← show t.heap.size = s.heap.size+1 from s.size_alloc _]
    exact alloc_apply _ t
  have hg : s.Grows (s.packed args named) := (Store.Keeps.alloc s _).trans (Store.Keeps.alloc t _)
  rw [call_wrapper_hands args named hw hc,hself]
  simp only [Option.isSome_none,Bool.false_eq_true,if_false]
  rw [bind_ok ha,bind_ok hn,call_check (hk.grows hg)]

namespace Journal

namespace Account
variable (m : Machine)

/-- What is wrong, told of the member. -/
def told (k : Value) (tell : Value → Account m Blame) : Account m Blame := do
  let member ← ask (fieldOf m k "member") (.field k "member")
  tell member

/-- Recording the name of the member, and then telling what is wrong. -/
def complain (k : Value) (text : String → String) (fault : Blame → Fault) (tell : Value → Account m Blame) :
    Account m Value := do
  let member ← ask (fieldOf m k "member") (.field k "member")
  let name ← ask (written m member) (.written member)
  note (text name)
  let b ← told m k tell
  fail (fault b)

def rejectInput (message : String) (k expected v : Value) : Account m Value :=
  complain m k (message ++ ·) .input fun member => blame m member expected v

def rejectOutput (before between reason : String) (k ret v : Value) : Account m Value :=
  complain m k (before ++ · ++ between) (.output · reason) fun member => do
    blame m member (← ask (Signature.descriptionOf m ret) (.description ret)) v

def checkResult (k ret v : Value) : Account m Value := do
  if ← ask (isSignature m ret) (.signature ret) then
    if !(← store).isCallable v then
      rejectOutput m "output of " " is not callable" "but returned value is no function" k ret v
    else if ← ask (Signature.isSigned m v) (.signed v) then return v
    else
      let member ← ask (fieldOf m k "member") (.field k "member")
      let suffix ← ask (setting "anonymous_suffix") (.setting "anonymous_suffix")
      let name ← ask (Arithmetic.plus m member suffix) (.plus member suffix)
      let advice ← ask (Signature.check m ret name) (.check ret name)
      ask (Wrapper.around m v advice) (.around v advice)
  else if ← ask (Signature.mismatches m ret v) (.mismatches ret v) then
    rejectOutput m "output type mismatch in " "" "but returned" k ret v
  else return v

def enforce (k g a n : Value) : Account m Value := do
  let signature ← ask (fieldOf m k "signature") (.field k "signature")
  let input ← ask (Signature.part m signature "input") (.part signature "input")
  let expected ← ask (Signature.descriptionOf m input) (.description input)
  if ← ask (Signature.refusesNamed m n) (.refuses n) then
    rejectInput m "keyword arguments rejected in " k expected n
  else
    let arguments ← ask (fieldOf m k "_arguments") (.field k "_arguments")
    if ← ask (Signature.mismatches m arguments a) (.mismatches arguments a) then
      rejectInput m "input type mismatch in " k expected a
    else
      let args ← ask (iterate m a) (.iterate a)
      let named ← ask (namedOf m n) (.named n)
      let result ← ask (m.call g args named) (.call g args named)
      let signature ← ask (fieldOf m k "signature") (.field k "signature")
      let ret ← ask (Signature.part m signature "ret") (.part signature "ret")
      checkResult m k ret result

variable {m}

theorem run_rejectInput (message : String) (k expected v : Value) :
    (rejectInput m message k expected v).run = Signature.rejectInput m message k expected v := by
  simp [rejectInput,Signature.rejectInput,complain,told,run_blame]

theorem run_rejectOutput (before between reason : String) (k ret v : Value) :
    (rejectOutput m before between reason k ret v).run
      = Signature.rejectOutput m before between reason k ret v := by
  simp [rejectOutput,Signature.rejectOutput,complain,told,run_blame]

theorem run_checkResult (k ret v : Value) : (checkResult m k ret v).run = Signature.checkResult m k ret v := by
  simp [checkResult,Signature.checkResult,run_rejectOutput]

theorem run_enforce (k g a n : Value) : (enforce m k g a n).run = Signature.enforce m k g a n := by
  simp [enforce,Signature.enforce,run_rejectInput,run_checkResult]

end Account

variable {α β : Type} {m : Machine} {s t u : Store} {k g a n v : Value} {ds es : List Event} {x : Act α}
  {A : Account m α} {f : α → Account m β} {b : α} {r : String} {o : Option String}

/-- The last of these events asked something that ended in this stop. -/
def EndsIn (m : Machine) (es : List Event) (e : Stop) (t : Store) : Prop :=
  ∃ (ds : List Event) (α : Type) (x : Act α) (u : Store), Question m x ∧ x u = .error e t ∧ es = ds ++ [.asked u t]

theorem EndsIn.append {e : Stop} (h : EndsIn m es e t) (ds : List Event) : EndsIn m (ds ++ es) e t := by
  obtain ⟨cs,γ,y,u,hy,hu,rfl⟩ := h
  exact ⟨ds ++ cs,γ,y,u,hy,hu,by simp⟩

/-- It asks and makes no record; it stops only where something that it asked did. -/
structure OnlyAsks (A : Account m α) (s : Store) : Prop where
  notes : notes (A.events s) = []
  stops : ∀ e t, A.run s = .error e t → EndsIn m (A.events s) e t

namespace OnlyAsks

theorem pure (b : α) (s : Store) : OnlyAsks (pure b : Account m α) s := ⟨rfl,fun _ _ he => nomatch he⟩

theorem ask (hq : Question m x) (s : Store) : OnlyAsks (.ask x hq) s where
  notes := rfl
  stops e t he := ⟨[],α,x,s,hq,he,by rw [← after_error he]; rfl⟩

theorem bind (hA : OnlyAsks A s) (hf : ∀ b t, A.run s = .ok b t → OnlyAsks (f b) t) : OnlyAsks (A >>= f) s := by
  cases hrun : A.run s with
  | ok b t =>
    have hevents := Account.events_bind_ok (f := f) hrun
    have hb := hf b t hrun
    refine ⟨by rw [hevents,notes_append,hA.notes,hb.notes]; rfl,fun e u he => ?_⟩
    rw [hevents]
    exact (hb.stops e u ((bind_ok hrun).symm.trans he)).append _
  | error e t =>
    have hevents := Account.events_bind_error (f := f) hrun
    refine ⟨by rw [hevents,hA.notes],fun e' t' he => ?_⟩
    rw [hevents]
    cases (bind_error hrun).symm.trans he
    exact hA.stops e t hrun

end OnlyAsks

theorem onlyAsks_blame (member expected v : Value) (s : Store) : OnlyAsks (Account.blame m member expected v) s :=
  (OnlyAsks.ask _ s).bind fun _ t _ => (OnlyAsks.ask _ t).bind fun _ u _ => (OnlyAsks.ask _ u).bind fun _ w _ =>
    OnlyAsks.pure _ w

theorem member_blame {member expected : Value} {b : Blame}
    (h : (Account.blame m member expected v).run s = .ok b t) : b.member = member := by
  obtain ⟨x,u,-,h⟩ := bind_eq_ok.mp h
  obtain ⟨y,w,-,h⟩ := bind_eq_ok.mp h
  obtain ⟨z,z',-,h⟩ := bind_eq_ok.mp h
  obtain ⟨rfl,-⟩ : ⟨member,expected,v,x,y,z⟩ = b ∧ z' = t := by simpa using h
  rfl

/-- The ways of complaining: what is recorded of a member, and what is raised. -/
inductive Wording : (String → String) → (Blame → Fault) → Prop where
  | named : Wording ("keyword arguments rejected in " ++ ·) .input
  | arguments : Wording ("input type mismatch in " ++ ·) .input
  | noFunction : Wording ("output of " ++ · ++ " is not callable") (.output · "but returned value is no function")
  | result : Wording ("output type mismatch in " ++ · ++ "") (.output · "but returned")

/-- Events with one record, which is made once the member is read and written, and tells it. -/
structure Records (m : Machine) (k : Value) (es before : List Event) (r : String) (told : List Event)
    (text : String → String) : Prop where
  split : es = before ++ .noted r :: told
  first : notes before = []
  last : notes told = []
  names : ∃ member name, Asked before (fieldOf m k "member") member ∧ Asked before (written m member) name ∧
    r = text name

theorem Records.append {before told : List Event} {text : String → String} (h : Records m k es before r told text)
    (hds : notes ds = []) : Records m k (ds ++ es) (ds ++ before) r told text where
  split := by rw [h.split,List.append_assoc]
  first := by rw [notes_append,hds,h.first]; rfl
  last := h.last
  names := by
    obtain ⟨member,name,hmember,hname,hr⟩ := h.names
    exact ⟨member,name,hmember.mono (List.subset_append_right ds before),
      hname.mono (List.subset_append_right ds before),hr⟩

/-- How a call of a layer goes, and the record that it makes itself. -/
inductive Course (A : Account m Value) (k : Value) (s : Store) : Option String → Prop where
  /-- It returns, or passes on what something that it asked ended in. -/
  | passes : OnlyAsks A s → Course A k s none
  /-- It complains: it records the name of its member, and then raises the fault. -/
  | raises {before told : List Event} {r : String} {text : String → String} {fault : Blame → Fault} {b : Blame}
      {t : Store} : A.run s = .error (.raised (fault b)) t → Wording text fault →
      Records m k (A.events s) before r told text → Asked told (fieldOf m k "member") b.member → Course A k s (some r)
  /-- It means to complain, but what it asks in order to tell what is wrong ends otherwise. -/
  | breaks {before told : List Event} {r : String} {text : String → String} {fault : Blame → Fault} {e : Stop}
      {t : Store} : A.run s = .error e t → Wording text fault → Records m k (A.events s) before r told text →
      EndsIn m told e t → Course A k s (some r)

/-- What a layer asks is asked before its record or after it. -/
theorem Course.split {A : Account m Value} (h : Course A k s o) : ∃ before told,
    A.events s = before ++ o.toList.map .noted ++ told ∧ notes before = [] ∧ notes told = [] := by
  cases h with
  | passes hA => exact ⟨A.events s,[],by simp,hA.notes,rfl⟩
  | raises _ _ hrecords | breaks _ _ hrecords =>
    exact ⟨_,_,by simpa using hrecords.split,hrecords.first,hrecords.last⟩

/-- A layer makes no record or one. -/
theorem Course.notes_eq {A : Account m Value} (h : Course A k s o) : notes (A.events s) = o.toList := by
  obtain ⟨before,told,hevents,hbefore,htold⟩ := h.split
  rw [hevents]
  cases o <;> simp [hbefore,htold]

theorem exists_course_pure (k v : Value) : ∃ o, Course (pure v : Account m Value) k s o :=
  ⟨none,.passes (OnlyAsks.pure v s)⟩

theorem exists_course_bind {f : α → Account m Value} (hA : OnlyAsks A s)
    (hf : ∀ b t, A.run s = .ok b t → ∃ o, Course (f b) k t o) : ∃ o, Course (A >>= f) k s o := by
  cases hrun : A.run s with
  | error e t =>
    exact ⟨none,.passes (hA.bind fun b t h => nomatch hrun.symm.trans h)⟩
  | ok b t =>
    have hevents := Account.events_bind_ok (f := f) hrun
    obtain ⟨o,ho⟩ := hf b t hrun
    refine ⟨o,?_⟩
    cases ho with
    | passes hb =>
      refine .passes (hA.bind fun c u h => ?_)
      cases hrun.symm.trans h
      exact hb
    | raises hc hw hrecords hmember =>
      exact .raises ((bind_ok hrun).trans hc) hw (hevents ▸ hrecords.append hA.notes) hmember
    | breaks hc hw hrecords hends =>
      exact .breaks ((bind_ok hrun).trans hc) hw (hevents ▸ hrecords.append hA.notes) hends

theorem exists_course_ask {f : α → Account m Value} {hq : Question m x} (hf : ∀ b t, ∃ o, Course (f b) k t o) :
    ∃ o, Course (.ask x hq >>= f) k s o := exists_course_bind (.ask hq s) fun b t _ => hf b t

theorem exists_course_store {f : Store → Account m Value} (hf : ∀ t, ∃ o, Course (f t) k s o) :
    ∃ o, Course (.store >>= f) k s o :=
  exists_course_bind ⟨rfl,fun _ _ he => nomatch he⟩ fun t u h => by
    cases h
    exact hf s

/-- A layer that complains makes its record before it tells what is wrong. -/
theorem exists_course_complain {text : String → String} {fault : Blame → Fault} {tell : Value → Account m Blame}
    (hw : Wording text fault) (hasks : ∀ v t, OnlyAsks (tell v) t)
    (hmember : ∀ v t b u, (tell v).run t = .ok b u → b.member = v) :
    ∃ o, Course (.complain m k text fault tell) k s o := by
  cases hv : fieldOf m k "member" s with
  | error e t => exact ⟨none,.passes ((OnlyAsks.ask _ s).bind fun v t h => nomatch hv.symm.trans h)⟩
  | ok v t =>
  cases hname : written m v t with
  | error e u =>
    refine ⟨none,.passes ((OnlyAsks.ask _ s).bind fun v' t' h => ?_)⟩
    cases hv.symm.trans h
    exact (OnlyAsks.ask _ t).bind fun name u h => nomatch hname.symm.trans h
  | ok name u =>
  -- from here on the record is made, whatever telling comes to
  have htold : OnlyAsks (.told m k tell) (u.logging (text name)) := (OnlyAsks.ask _ _).bind fun v t _ => hasks v t
  have hrun : (Account.complain m k text fault tell).run s
      = (.told m k tell >>= fun b => .fail (fault b) : Account m Value).run (u.logging (text name)) :=
    (bind_ok hv).trans ((bind_ok hname).trans (bind_ok (logMessage_eq (text name) u)))
  have hrecords : Records m k ((Account.complain m k text fault tell).events s) [.asked s t,.asked t u] (text name)
      ((Account.told m k tell).events (u.logging (text name))) text := by
    refine ⟨?_,rfl,htold.notes,v,name,⟨s,t,hv,by simp⟩,⟨t,u,hname,by simp⟩,rfl⟩
    rw [Account.complain,Account.events_ask_bind hv,Account.events_ask_bind hname,
      Account.events_bind_ok (logMessage_eq (text name) u),Account.events_bind_fail]
    rfl
  refine ⟨some (text name),?_⟩
  cases hb : (Account.told m k tell).run (u.logging (text name)) with
  | error e w => exact .breaks (hrun.trans (bind_error hb)) hw hrecords (htold.stops e w hb)
  | ok b w =>
    obtain ⟨v',w',_,hes,hv',hb'⟩ := Account.goes_ask_bind.mp (Account.goes_events hb)
    obtain rfl := hmember v' w' b w hb'.run
    refine .raises (hrun.trans (bind_ok hb)) hw hrecords ⟨_,w',hv',?_⟩
    rw [Account.told,hes]
    exact List.mem_cons_self

theorem exists_course_rejectInput {message : String} (hw : Wording (message ++ ·) .input) (k expected v : Value) :
    ∃ o, Course (.rejectInput m message k expected v) k s o :=
  exists_course_complain hw (fun member => onlyAsks_blame member expected v) fun _ _ _ _ => member_blame

theorem exists_course_rejectOutput {before between reason : String}
    (hw : Wording (before ++ · ++ between) (.output · reason)) (k ret v : Value) :
    ∃ o, Course (.rejectOutput m before between reason k ret v) k s o := by
  refine exists_course_complain hw (fun member t => ?_) fun member t b u h => ?_
  · exact (OnlyAsks.ask _ t).bind fun d u _ => onlyAsks_blame member d v u
  · obtain ⟨d,w,-,h⟩ := bind_eq_ok.mp h
    exact member_blame h

/-- What was returned is passed on, wrapped or complained of. -/
theorem exists_course_checkResult (k ret v : Value) (s : Store) : ∃ o, Course (.checkResult m k ret v) k s o := by
  refine exists_course_ask fun promised t => ?_
  cases promised with
  | false =>
    refine exists_course_ask fun wrong u => ?_
    cases wrong with
    | true => exact exists_course_rejectOutput .result k ret v
    | false => exact exists_course_pure k v
  | true =>
    refine exists_course_store fun t' => ?_
    cases t'.isCallable v with
    | false => exact exists_course_rejectOutput .noFunction k ret v
    | true =>
      refine exists_course_ask fun already u => ?_
      cases already with
      | true => exact exists_course_pure k v
      | false =>
        refine exists_course_ask fun member w => ?_
        refine exists_course_ask fun suffix z => ?_
        refine exists_course_ask fun name z' => ?_
        refine exists_course_ask fun k' z'' => ?_
        exact ⟨none,.passes (.ask _ z'')⟩

/-- Every call of a layer goes in one of these ways. -/
theorem exists_course_enforce (m : Machine) (k g a n : Value) (s : Store) :
    ∃ o, Course (.enforce m k g a n) k s o := by
  refine exists_course_ask fun signature t => ?_
  refine exists_course_ask fun input u => ?_
  refine exists_course_ask fun expected w => ?_
  refine exists_course_ask fun refuses z => ?_
  cases refuses with
  | true => exact exists_course_rejectInput .named k expected n
  | false =>
    refine exists_course_ask fun arguments t => ?_
    refine exists_course_ask fun wrong u => ?_
    cases wrong with
    | true => exact exists_course_rejectInput .arguments k expected a
    | false =>
      refine exists_course_ask fun args w => ?_
      refine exists_course_ask fun named z => ?_
      refine exists_course_ask fun result t => ?_
      refine exists_course_ask fun signature u => ?_
      refine exists_course_ask fun ret w => ?_
      exact exists_course_checkResult k ret result w

/-- A call of a layer: its check, and the record that it made itself. -/
structure Passage where
  check : Value
  record : Option String

/-- The layers that are passed in the course of these events.  What is asked makes no record, or it is a course of
events again, or it is a call of a layer, which makes its own record, if any, between what it asks; nothing else makes
records. -/
inductive Passes : List Event → List Passage → Prop where
  | nil : Passes [] []
  | quiet {s t : Store} {es : List Event} {ps : List Passage} : t.log = s.log → Passes es ps →
      Passes (.asked s t :: es) ps
  | inside {s t : Store} {ds es : List Event} {ps qs : List Passage} : Trail (fun _ _ => True) s ds t → Passes ds qs →
      Passes es ps → Passes (.asked s t :: es) (qs ++ ps)
  | layer {m : Machine} {k g a n : Value} {s : Store} {before told es : List Event} {o : Option String}
      {ps qs qs' : List Passage} :
      Course (.enforce m k g a n) k s o →
      (Account.enforce m k g a n).events s = before ++ o.toList.map .noted ++ told →
      Passes before qs → Passes told qs' → Passes es ps →
      Passes (.asked s (after (Signature.enforce m k g a n) s) :: es) (qs ++ ⟨k,o⟩ :: qs' ++ ps)

/-- A run that passes these layers. -/
def Run (s : Store) (ps : List Passage) (t : Store) : Prop := Passes [.asked s t] ps

theorem Trail.of_append {P : Store → Store → Prop} (h : Trail P s (ds ++ es) t) :
    ∃ u, Trail P s ds u ∧ Trail P u es t := by
  induction ds generalizing s with
  | nil => exact ⟨s,.nil s,h⟩
  | cons d ds ih =>
    cases h with
    | asked hst h =>
      obtain ⟨u,hds,hes⟩ := ih h
      exact ⟨u,.asked hst hds,hes⟩
    | noted h =>
      obtain ⟨u,hds,hes⟩ := ih h
      exact ⟨u,.noted hds,hes⟩

theorem Trail.log_noted {P : Store → Store → Prop} (h : Trail P s (o.toList.map .noted) t) :
    t.log = s.log ++ o.toList :=
  (h.log_eq fun u v he => by simp at he).trans (by cases o <;> rfl)

theorem trail_enforce (m : Machine) (k g a n : Value) (s : Store) : Trail (Asks m) s
    ((Account.enforce m k g a n).events s) (after (Signature.enforce m k g a n) s) :=
  Account.run_enforce k g a n ▸ (Account.enforce m k g a n).trail s

/-- In the course of events the log grows by the records of the layers that are passed. -/
theorem Passes.log_eq {P : Store → Store → Prop} {ps : List Passage} (h : Passes es ps) (hes : Trail P s es t) :
    t.log = s.log ++ ps.filterMap Passage.record := by
  induction h generalizing P s t with
  | nil =>
    cases hes
    simp
  | quiet hlog _ ih =>
    cases hes with
    | asked _ hes => rw [ih hes,hlog]
  | inside hds _ _ ihds ihes =>
    cases hes with
    | asked _ hes => simp [ihes hes,ihds hds]
  | @layer m k g a n s' before told es o ps qs qs' _ hevents _ _ _ ihbefore ihtold ihes =>
    have htrail := trail_enforce m k g a n s'
    rw [hevents] at htrail
    cases hes with
    | asked _ hes =>
      obtain ⟨v,hrecorded,htold⟩ := htrail.of_append
      obtain ⟨u,hbefore,hnoted⟩ := hrecorded.of_append
      rw [ihes hes,ihtold htold,hnoted.log_noted,ihbefore hbefore]
      cases o <;> simp

theorem exists_passes (hnotes : notes es = []) (hes : Throughout (fun u v => ∃ ps, Run u ps v) es) :
    ∃ ps, Passes es ps := by
  induction es with
  | nil => exact ⟨[],.nil⟩
  | cons e es ih =>
    cases e with
    | noted r => simp at hnotes
    | asked u v =>
      obtain ⟨qs,hqs⟩ := hes u v (by simp)
      obtain ⟨ps,hps⟩ := ih hnotes fun u v he => hes u v (by simp [he])
      exact ⟨qs ++ ps,.inside (.asked trivial (.nil v)) hqs hps⟩

/-- A call of a layer passes that layer, and those that are passed by what it asks. -/
theorem Course.run (h : Course (.enforce m k g a n) k s o)
    (hes : Throughout (fun u v => ∃ ps, Run u ps v) ((Account.enforce m k g a n).events s)) :
    ∃ qs qs', Run s (qs ++ ⟨k,o⟩ :: qs') (after (Signature.enforce m k g a n) s) := by
  obtain ⟨before,told,hevents,hbefore,htold⟩ := h.split
  rw [hevents] at hes
  obtain ⟨qs,hqs⟩ := exists_passes hbefore fun u v he => hes u v (by simp [he])
  obtain ⟨qs',hqs'⟩ := exists_passes htold fun u v he => hes u v (by simp [he])
  exact ⟨qs,qs',by simpa [Run] using Passes.layer h hevents hqs hqs' .nil⟩

theorem Run.after_quiet {ps : List Passage} (hlog : u.log = s.log) (h : Run u ps t) : Run s ps t := by
  have hpasses : Passes [.asked s t] (ps ++ []) :=
    .inside (.asked trivial (.asked trivial (.nil t))) (.quiet hlog h) .nil
  simpa [Run] using hpasses

theorem Silent.runs (h : Silent es) : Throughout (fun u v => ∃ ps, Run u ps v) es :=
  fun u v he => ⟨[],.quiet (h u v he) .nil⟩

/-- Every attachment that ends well makes one record for each entry of its map: first those of the entries that are
settled at once, in the order of the map, and then those of the wrapped members, in the order of the map.  Every call of
a layer makes one record that names its member if the layer complains, before it raises, and none if it returns or
passes something on; so whatever layers a run passes, its log grows by the records of those that complain. -/
theorem log_complete (m : Machine) (s : Store) :
    (∀ signatures target, (Account.attach m signatures target).run = Signature.attach m signatures target ∧
      ∀ v t, Signature.attach m signatures target s = .ok v t → ∃ entries,
        Attaches m signatures target ((Account.attach m signatures target).events s) entries ∧
        (Silent ((Account.attach m signatures target).events s) →
          t.log = s.log ++ notes ((Account.attach m signatures target).events s)) ∧
        ∀ d map, signatures = .ref d → (map.map Prod.fst).Nodup →
          Throughout (fun u _ => u.IsTable d map ∧ u.attr? signatures "items" = none)
            ((Account.attach m signatures target).events s) → entries.map Entry.pair = map) ∧
    (∀ k g a n, (Account.enforce m k g a n).run = Signature.enforce m k g a n ∧
      ∃ o, Course (.enforce m k g a n) k s o ∧ (Silent ((Account.enforce m k g a n).events s) →
        (after (Signature.enforce m k g a n) s).log = s.log ++ o.toList)) ∧
    (∀ c w p k f name cs args named, s.Wraps c w p k → c = .wrapper ∨ c = .classWrapper → s.Checks k f name cs →
      named.get? "self" = none →
        m.next.next.call w args named s
          = Signature.enforce m k p (.ref s.heap.size) (.ref (s.heap.size+1)) (s.packed args named) ∧
        ∀ ps t, Run (s.packed args named) ps t → Run s ps t) ∧
    (∀ k g a n o, Course (.enforce m k g a n) k s o →
      Throughout (fun u v => ∃ ps, Run u ps v) ((Account.enforce m k g a n).events s) →
      ∃ qs qs', Run s (qs ++ ⟨k,o⟩ :: qs') (after (Signature.enforce m k g a n) s)) ∧
    (∀ ps t, Run s ps t → t.log = s.log ++ ps.filterMap Passage.record) := by
  refine ⟨fun signatures target => ⟨Account.run_attach m signatures target,fun v t h => ?_⟩,
    fun k g a n => ⟨Account.run_enforce k g a n,?_⟩,?_,fun k g a n o h hes => h.run hes,fun ps t h => ?_⟩
  · have hgoes := Account.goes_events ((congrFun (Account.run_attach m signatures target) s).trans h)
    obtain ⟨entries,hentries⟩ := exists_attaches hgoes
    refine ⟨entries,hentries,hgoes.trail.log_eq,?_⟩
    rintro d map rfl hn hmap
    exact hentries.pairs hn hmap
  · obtain ⟨o,h⟩ := exists_course_enforce m k g a n s
    exact ⟨o,h,fun hsilent => h.notes_eq ▸ (trail_enforce m k g a n s).log_eq hsilent⟩
  · intro c w p k f name cs args named hw hc hk hself
    exact ⟨call_layer hw hc hk hself,fun ps t => Run.after_quiet rfl⟩
  · exact Passes.log_eq h (P := fun _ _ => True) (.asked trivial (.nil t))

/-- What the inner of two layers complains of, the outer one passes on, with no record of its own. -/
example : (after (do
    let f ← (Expr.function "f" [.required "x"] [] (.variable "x") none).eval Machine.full []
    let narrow ← Contract.proc Machine.full [Contract.anything.value,Contract.number.value]
    let wide ← Contract.proc Machine.full [Contract.anything.value,Contract.anything.value]
    let inner ← Signature.sign Machine.full narrow f
    let outer ← Signature.sign Machine.full wide inner
    Machine.full.call outer [.str "x"] []) Store.initial).log = ["output type mismatch in f"] := by
  decide +kernel

theorem exists_ok_of_returned (h : returned x s = some b) : ∃ t, x s = .ok b t := by
  cases hx : x s with
  | ok c t =>
    obtain rfl : c = b := by simpa [returned,hx] using h
    exact ⟨t,rfl⟩
  | error e t => simp [returned,hx] at h

/-- A function that takes anything, and a wrapper with a check that wants one argument. -/
def guarded : Store :=
  { Attachment.sample with heap := Attachment.sample.heap ++ #[
    { cls := .builtin .contract
      body := .contract (.mk 38 (.str "(any)") (.product [.anything])) (.operation .functionTest) none },
    { cls := .builtin .signatureCheck, body := .plain
      attrs := some [("signature",.ref 35),("member",.str "f"),("_arguments",.ref 38)] },
    { cls := .builtin .wrapper, body := .plain, attrs := some [("proceed",.ref 33),("advice",.ref 39)] }] }

/-- A table with a function and a number takes its signatures, and a call without arguments of a function that takes one
is recorded once. -/
theorem log_complete_guarded :
    (∃ t entries, Signature.attach Machine.halted.next (.ref 37) (.ref 36) Attachment.sample = .ok (.ref 36) t ∧
      Attaches Machine.halted.next (.ref 37) (.ref 36)
        ((Account.attach Machine.halted.next (.ref 37) (.ref 36)).events Attachment.sample) entries ∧
      entries.map Entry.pair = [(.str "a",.ref 35),(.str "b",.ref 3)] ∧
      t.log = ["checking b against type number","checking calls of a against any -> any"]) ∧
    ∃ ps t, after (Machine.halted.next.next.call (.ref 40) [] []) guarded = t ∧ Run guarded ps t ∧
      ⟨.ref 39,some "input type mismatch in f"⟩ ∈ ps ∧ t.log = guarded.log ++ ps.filterMap Passage.record ∧
      t.log = ["input type mismatch in f"] := by
  have hreturned : returned (Signature.attach Machine.halted.next (.ref 37) (.ref 36)) Attachment.sample
      = some (.ref 36) := by decide +kernel
  obtain ⟨t,ht⟩ := exists_ok_of_returned hreturned
  obtain ⟨hattach,-⟩ := log_complete Machine.halted.next Attachment.sample
  obtain ⟨entries,hentries,hlog,hmap⟩ := (hattach (.ref 37) (.ref 36)).2 _ t ht
  refine ⟨⟨t,entries,ht,hentries,hmap 37 _ rfl (by decide) (by decide +kernel),?_⟩,?_⟩
  · rw [hlog (by decide +kernel)]
    decide +kernel
  obtain ⟨-,-,hcall,-,hlog⟩ := log_complete Machine.halted guarded
  obtain ⟨-,henforce,-,hrun,-⟩ := log_complete Machine.halted (guarded.packed [] [])
  have hw : guarded.Wraps .wrapper (.ref 40) (.ref 33) (.ref 39) := ⟨⟨40,_,rfl,rfl,rfl,rfl,rfl⟩,rfl,rfl⟩
  have hk : guarded.Checks (.ref 39) (.ref 35) (.str "f") [.anything] :=
    ⟨⟨39,_,rfl,rfl,rfl,rfl,rfl⟩,rfl,rfl,38,_,rfl,rfl,rfl⟩
  obtain ⟨hpacked,hpack⟩ := hcall .wrapper _ _ _ _ _ _ [] [] hw (Or.inl rfl) hk rfl
  obtain ⟨-,o,hcourse,-⟩ := henforce (.ref 39) (.ref 33) (.ref 41) (.ref 42)
  have hsilent : Silent ((Account.enforce Machine.halted (.ref 39) (.ref 33) (.ref 41) (.ref 42)).events
      (guarded.packed [] [])) := by decide +kernel
  obtain rfl : o = some "input type mismatch in f" := by
    have hnotes : notes ((Account.enforce Machine.halted (.ref 39) (.ref 33) (.ref 41) (.ref 42)).events
        (guarded.packed [] [])) = ["input type mismatch in f"] := by decide +kernel
    cases o <;> simpa [hnotes] using hcourse.notes_eq.symm
  obtain ⟨qs,qs',h⟩ := hrun _ _ _ _ _ hcourse hsilent.runs
  have hafter : after (Machine.halted.next.next.call (.ref 40) [] []) guarded
      = after (Signature.enforce Machine.halted (.ref 39) (.ref 33) (.ref 41) (.ref 42)) (guarded.packed [] []) := by
    simp only [after]
    rw [hpacked]
    rfl
  have h' := hpack _ _ h
  rw [← hafter] at h'
  exact ⟨_,_,rfl,h',by simp,hlog _ _ h',by decide +kernel⟩

end Journal
end CallContracts
