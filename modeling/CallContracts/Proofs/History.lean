import Mathlib.Data.List.Destutter
import CallContracts.Proofs.ClassTarget
import CallContracts.Proofs.Survey
import CallContracts.Proofs.TableTarget
/-! Histories of attachments.  Whether a member is signed already is decided by its outermost wrapper alone.  So
what the wrappers of a member check in the end is the history of the signatures that were attached to it, but for
immediate repeats. -/
namespace CallContracts
open Act

/-- A signature comes back after another one. -/
def Returns (history : List Value) : Prop := ∃ x y, x ≠ y ∧ [x,y,x].Sublist history

/-- What remains of a history when nothing is attached twice in a row, the last first. -/
def lasting (history : List Value) : List Value := (history.destutter (· ≠ ·)).reverse

theorem destutter'_concat (history : List Value) (a x : Value) :
    (history ++ [x]).destutter' (· ≠ ·) a = if (history.destutter' (· ≠ ·) a).getLast? = some x
      then history.destutter' (· ≠ ·) a else history.destutter' (· ≠ ·) a ++ [x] := by
  induction history generalizing a with
  | nil =>
    by_cases h : a = x <;> simp [h]
  | cons b l ih =>
    rw [List.cons_append]
    by_cases hab : a ≠ b
    · rw [List.destutter'_cons_pos _ hab,List.destutter'_cons_pos _ hab,ih b]
      have hlast : (a :: l.destutter' (· ≠ ·) b).getLast? = (l.destutter' (· ≠ ·) b).getLast? := by
        cases h : l.destutter' (· ≠ ·) b with
        | nil => simp [List.destutter'_ne_nil] at h
        | cons c r => simp
      rw [hlast]
      split <;> simp
    · rw [List.destutter'_cons_neg _ hab,List.destutter'_cons_neg _ hab,ih a]

/-- What is attached next is pushed. -/
theorem lasting_concat (history : List Value) (x : Option Value) :
    lasting (history ++ x.toList) = pushed (lasting history) x := by
  cases x with
  | none => simp [pushed]
  | some x =>
    cases history with
    | nil => simp [lasting,pushed]
    | cons a l =>
      have h := destutter'_concat l a x
      simp only [lasting,pushed,Option.toList_some,List.cons_append,List.destutter_cons',h,List.head?_reverse]
      split <;> simp

/-- What does not repeat immediately and comes from a history comes from it without its repeats. -/
theorem sublist_destutter' {l history : List Value} {a : Value} (hl : l.IsChain (· ≠ ·))
    (h : l.Sublist (a :: history)) : l.Sublist (history.destutter' (· ≠ ·) a) := by
  induction history generalizing a l with
  | nil => simpa using h
  | cons b history ih =>
    by_cases hab : a ≠ b
    · rw [List.destutter'_cons_pos _ hab]
      cases h with
      | cons _ h => exact (ih hl h).cons a
      | cons_cons _ h => exact (ih hl.tail h).cons_cons a
    · obtain rfl := not_not.mp hab
      rw [List.destutter'_cons_neg _ hab]
      refine ih hl ?_
      cases h with
      | cons _ h => exact h
      | cons_cons _ h =>
        cases h with
        | cons _ h => exact h.cons_cons a
        | cons_cons _ h => exact absurd rfl (List.isChain_cons_cons.mp hl).1

theorem returns_of_not_nodup {l : List Value} (hl : l.IsChain (· ≠ ·)) (h : ¬ l.Nodup) : Returns l := by
  induction l with
  | nil => simp at h
  | cons a l ih =>
    by_cases hn : l.Nodup
    · have ha : a ∈ l := by simpa [hn] using h
      cases l with
      | nil => cases ha
      | cons b l =>
        have hab : a ≠ b := (List.isChain_cons_cons.mp hl).1
        have ha : a ∈ l := by simpa [hab] using ha
        exact ⟨a,b,hab,((List.singleton_sublist.mpr ha).cons_cons b).cons_cons a⟩
    · obtain ⟨x,y,hxy,hs⟩ := ih hl.tail hn
      exact ⟨x,y,hxy,hs.cons a⟩

theorem nodup_lasting {history : List Value} : (lasting history).Nodup ↔ ¬ Returns history := by
  cases history with
  | nil => simp [lasting,Returns]
  | cons a l =>
    rw [lasting,List.nodup_reverse,List.destutter_cons']
    constructor
    · rintro hn ⟨x,y,hxy,hs⟩
      have hs := sublist_destutter' (by simp [hxy,hxy.symm]) hs
      have := hs.nodup hn
      simp at this
    · intro h
      by_contra hn
      obtain ⟨x,y,hxy,hs⟩ := returns_of_not_nodup (List.isChain_destutter' _ _ _) hn
      exact h ⟨x,y,hxy,hs.trans (List.destutter'_sublist _ _ _)⟩
/-- What the wrappers of a member check has come from a history of attachments. -/
def Traces (sigs history : List Value) : Prop := sigs.IsChain (· ≠ ·) ∧ sigs.reverse.Sublist history

/-- One more attachment, which may not have come to the member. -/
theorem Traces.next {sigs sigs' history : List Value} {x : Option Value} (h : Traces sigs history)
    (hx : sigs' = sigs ∨ sigs' = pushed sigs x) : Traces sigs' (history ++ x.toList) := by
  obtain ⟨hchain,hsub⟩ := h
  rcases hx with rfl | rfl
  · exact ⟨hchain,hsub.trans (List.sublist_append_left _ _)⟩
  · cases x with
    | none => exact ⟨hchain,by simpa [pushed] using hsub⟩
    | some x =>
      by_cases hx : sigs.head? = some x
      · rw [pushed,if_pos hx]
        exact ⟨hchain,hsub.trans (List.sublist_append_left _ _)⟩
      · rw [pushed,if_neg hx]
        refine ⟨hchain.cons fun y hy hxy => hx (hxy ▸ hy),?_⟩
        rw [List.reverse_cons]
        exact hsub.append (List.Sublist.refl _)

/-- No signature is there twice, if none came back after another one. -/
theorem Traces.nodup {sigs history : List Value} (h : Traces sigs history) (hn : ¬ Returns history) :
    sigs.Nodup := by
  by_contra hdup
  obtain ⟨hchain,hsub⟩ := h
  obtain ⟨x,y,hxy,hs⟩ := returns_of_not_nodup hchain hdup
  exact hn ⟨x,y,hxy,(List.reverse_sublist.mpr hs).trans hsub⟩

namespace Attachment
variable {W : Store → Prop} {R : Store → Store → Prop} {m : Machine} {target signatures : Value}
  {names : Value → Prop} {site : Value → Option Value} {held : Store → Value → Option Value} {cls : Bool}
  {calls : Value × Value → Bool} {S : Value → List Value} {s t u : Store} {map ps : List (Value × Value)}
  {p : Value × Value} {maps : List (Value × List (Value × Value))}

/-- A map of signatures for a target: it lists its entries, which name no site twice; whether a member is called
does not change, and nothing that is asked changes what was there. -/
structure Attends (W : Store → Prop) (m : Machine) (target : Value) (names : Value → Prop)
    (site : Value → Option Value) (calls : Value × Value → Bool) (signatures : Value) (map : List (Value × Value)) :
    Prop where
  accepts : Leaves W (Signature.accepts m signatures target)
  inserted : MayGive W (Signature.accepts m signatures target) .mismatched →
    Leaves W (Contract.attachment.inserted m)
  lists : Lists W m signatures map
  once : Once site map
  named : ∀ p ∈ map, names p.1
  harmless : ∀ p ∈ map, Signature.Harmless W m target p
  called : ∀ p ∈ map, Calls W m target p (calls p)

/-- The signatures that maps have, one after the other, for the callable member at a site. -/
def history (site : Value → Option Value) (calls : Value × Value → Bool)
    (maps : List (Value × List (Value × Value))) (i : Value) : List Value :=
  maps.flatMap fun p => (signs? site calls p.2 i).toList

/-- One attachment after the other, whether they end well or not.  Each map comes with its entries. -/
def attachAll (m : Machine) (target : Value) : Store → List (Value × List (Value × Value)) → Store
  | s, [] => s
  | s, p :: maps => attachAll m target (after (Signature.attach m p.1 target) s) maps

/-- Whether all attachments end well. -/
def endWell (m : Machine) (target : Value) : Store → List (Value × List (Value × Value)) → Bool
  | _, [] => true
  | s, p :: maps => match Signature.attach m p.1 target s with
    | .ok _ t => endWell m target t maps
    | .error _ _ => false

/-- Going over such a map makes steps of growth. -/
theorem Attends.surveys (h : Attends W m target names site calls signatures map) :
    Surveys Store.Grows W m target names calls signatures map where
  accepts := h.accepts
  inserted := h.inserted
  lists := h.lists
  named := h.named
  regarded p hp := (h.harmless p hp).regarded
  called := h.called

section host
variable (hhost : Host Store.Grows R m target names site (Bears R m held cls s) s)
include hhost

/-- One more attachment.  If it ends well, each site is signed once more, unless it was signed so last; if it fails,
some sites may be. -/
theorem attach_signs (h : Attends (R s) m target names site calls signatures map)
    (hB : Bears R m held cls s t S) :
    (Signature.attach m signatures target).Leads
      (fun _ u => Bears R m held cls s u fun i => pushed (S i) (signs? site calls map i))
      (fun u => ∃ S', Bears R m held cls s u S' ∧ ∀ i, S' i = S i ∨ S' i = pushed (S i) (signs? site calls map i))
      t := by
  rw [Signature.attach_eq]
  have hprepare := (prepare_due hhost h.surveys hB).impError fun u hu =>
    (⟨S,hhost.keeps t u S hB hu,fun i => Or.inl rfl⟩ : ∃ S', Bears R m held cls s u S' ∧
      ∀ i, S' i = S i ∨ S' i = pushed (S i) (signs? site calls map i))
  refine hprepare.bind ?_
  rintro _ z ⟨hz,rfl⟩
  have hsub : (map.filter (due site calls S)).Sublist map := List.filter_sublist
  have hps : ∀ p ∈ map.filter (due site calls S), names p.1 ∧ Signature.Regarded Store.Grows (R s) m target p :=
    fun p hp => ⟨h.named p (hsub.subset hp),(h.harmless p (hsub.subset hp)).regarded⟩
  refine ((wrapAll_signs hhost hps (hhost.keeps t z S hB hz)).impError ?_).bind fun _ u hu => leads_pure ?_
  · rintro u ⟨done,hdone,hu⟩
    exact ⟨_,hu,signAll_some h.once hdone⟩
  · have heq : signAll site S (map.filter (due site calls S)) = fun i => pushed (S i) (signs? site calls map i) :=
      funext fun i => signAll_due h.once i
    rwa [heq] at hu

/-- What the wrappers check after many attachments comes from the history of the attached signatures; it is what
remains of it but for repeats, if all attachments end well. -/
theorem attachAll_signs {H : Value → List Value}
    (hmaps : ∀ p ∈ maps, Attends (R s) m target names site calls p.1 p.2) (hB : Bears R m held cls s t S)
    (hS : ∀ i, Traces (S i) (H i)) :
    ∃ S', Bears R m held cls s (attachAll m target t maps) S' ∧
      (∀ i, Traces (S' i) (H i ++ history site calls maps i)) ∧
      (endWell m target t maps → (∀ i, S i = lasting (H i)) →
        ∀ i, S' i = lasting (H i ++ history site calls maps i)) := by
  induction maps generalizing t S H with
  | nil => exact ⟨S,hB,by simpa [history] using hS,fun _ hl => by simpa [history] using hl⟩
  | cons p maps ih =>
    have hattach := attach_signs hhost (hmaps p (by simp)) hB
    have hrest := fun q hq => hmaps q (List.mem_cons_of_mem p hq)
    have hlist (i : Value) : H i ++ history site calls (p :: maps) i
        = (H i ++ (signs? site calls p.2 i).toList) ++ history site calls maps i := by
      rw [history,List.flatMap_cons,List.append_assoc,history]
    simp only [hlist]
    cases hp : Signature.attach m p.1 target t with
    | ok v u =>
      have hnext : attachAll m target t (p :: maps) = attachAll m target u maps := by
        rw [attachAll,after_ok hp]
      obtain ⟨S',hS',htraces,hlasting⟩ := ih hrest (hattach.1 v u hp) fun i => (hS i).next (Or.inr rfl)
      rw [hnext]
      refine ⟨S',hS',htraces,fun hwell hl => hlasting ?_ fun i => by rw [lasting_concat,← hl i]⟩
      rwa [endWell,hp] at hwell
    | error e u =>
      have hnext : attachAll m target t (p :: maps) = attachAll m target u maps := by
        rw [attachAll,after_error hp]
      obtain ⟨S₁,hS₁,hstep⟩ := hattach.2 e u hp
      obtain ⟨S',hS',htraces,-⟩ := ih hrest hS₁ fun i => (hS i).next (hstep i)
      rw [hnext]
      refine ⟨S',hS',htraces,fun hwell _ => ?_⟩
      rw [endWell,hp] at hwell
      cases hwell

end host

/-- A target that signatures can be attached to: a mapping, a module or an instance that holds what is written to
it, or a class; none of its members is signed. -/
inductive Bearer (R : Store → Store → Prop) (s : Store) : Machine → Value → (Value → Prop) → (Value → Option Value) →
    (Store → Value → Option Value) → Bool → Prop where
  | direct {m : Machine} {target : Value} {isMap : Bool} {names : Value → Prop} {site : Value → Option Value}
      {held : Store → Value → Option Value} : Direct R m target isMap names site held s →
      Unsigned R m target isMap names site held s → Bearer R s m target names site held false
  | ofClass {M : Machine} {r : Ref} {H : Ref → Prop} {N : List String} : OfClass R M r H N s →
      Unsigned R M.next.next (.ref r) false (memberNames N) (memberSite N) (ownMember r N) s →
      Bearer R s M.next.next (.ref r) (memberNames N) (memberSite N) (ownMember r N) true

theorem Bearer.host (h : Bearer R s m target names site held cls) :
    Host Store.Grows R m target names site (Bears R m held cls s) s ∧ Bears R m held cls s s fun _ => [] := by
  cases h with
  | direct h hs => exact ⟨h.host hs,hs.bears h.evolves.start false⟩
  | ofClass h hs => exact ⟨h.host hs,hs.bears h.evolves.start true⟩

/-- Start with a target none of whose members is signed, and attach any maps of signatures to it, one after the
other; attachments may fail.  Every member that it holds then is, or is a static method of, a value whose wrappers
check what was attached to the member, with the first attached signatures below; no signature is checked twice
unless it was attached again after another one.  If all attachments end well, the wrappers check the whole history
but for immediate repeats, so that a signature is checked twice exactly when it came back after another one. -/
theorem stack_of_attachAll {i w : Value} (h : Bearer R s m target names site held cls)
    (hmaps : ∀ p ∈ maps, Attends (R s) m target names site calls p.1 p.2)
    (hw : held (attachAll m target s maps) i = some w) :
    ∃ v sigs, (v = w ∨ cls = true ∧ (attachAll m target s maps).IsStatic w v) ∧
      (attachAll m target s maps).Stack v sigs ∧ sigs.reverse.Sublist (history site calls maps i) ∧
      (¬ Returns (history site calls maps i) → sigs.Nodup) ∧
      (endWell m target s maps → sigs = lasting (history site calls maps i) ∧
        (sigs.Nodup ↔ ¬ Returns (history site calls maps i))) := by
  obtain ⟨hhost,hstart⟩ := h.host
  obtain ⟨S,hB,htraces,hlasting⟩ := attachAll_signs (H := fun _ => []) hhost hmaps hstart fun _ => ⟨by simp,by simp⟩
  obtain ⟨f,hc,hf⟩ := hB.carries i w hw
  have hself := hhost.evolves.grows _ _ hB.later (Store.Keeps.refl _ (attachAll m target s maps))
  have hstack {v : Value} (hv : (attachAll m target s maps).Signed f v (S i)) :
      (attachAll m target s maps).Stack v (S i) := hv.stack (hf.stack _ hself)
  have htrace : Traces (S i) (history site calls maps i) := by simpa using htraces i
  have hwell (hwell : endWell m target s maps) : S i = lasting (history site calls maps i) ∧
      ((S i).Nodup ↔ ¬ Returns (history site calls maps i)) := by
    have heq : S i = lasting (history site calls maps i) := by simpa using hlasting hwell (fun _ => rfl) i
    exact ⟨heq,by rw [heq]; exact nodup_lasting⟩
  cases hc with
  | bare hsigned => exact ⟨w,S i,Or.inl rfl,hstack hsigned,htrace.2,htrace.nodup,hwell⟩
  | static hcls hstatic hsigned =>
    exact ⟨_,S i,Or.inr ⟨hcls,hstatic⟩,hstack hsigned,htrace.2,htrace.nodup,hwell⟩

/-- A plain table of signatures can be attached to a plain table of callables. -/
theorem attends_table {M : Machine} {A : Answers} {d r : Ref} {o : Obj} {es : List (Value × Value)}
    (h : Tabled M.next.next A.same d es names s) (hs : s.HasStandard) (hr : r ≠ d) (ho : s.get? r = some o)
    (hcls : o.cls = .builtin .dict) (hbody : o.body = .table map) (hplain : o.table = none)
    (hitems : s.attr? (.ref r) "items" = none) (hkeys : (map.map Prod.fst).Nodup)
    (honce : Once (tableSite A.same es) map) (hnames : ∀ p ∈ map, names p.1)
    (hentries : ∀ p ∈ map, SignatureEntry A M s d es p) :
    Attends (s.Rewritten d es s) M.next.next (.ref d) names (tableSite A.same es) (fun _ => true) (.ref r) map := by
  have hstandard (t : Store) (ht : s.Rewritten d es s t) : t.HasStandard := hs.but h.table ht.others
  have hmap (t : Store) (ht : s.Rewritten d es s t) : t.IsTable r map := by
    obtain ⟨hc,hb⟩ := ht.after.refills.kept ho hr
    exact ⟨hc.trans hcls,hb.trans (congrArg some hbody)⟩
  have haccepts : Always (s.Rewritten d es s) (Signature.accepts M.next.next (.ref r) (.ref d)) .matched := by
    intro t ht
    obtain ⟨fs,hfs,-⟩ := ht.after.table
    refine Signature.gives_accepts (hstandard t ht) (fun u hu => gives_of_eq ?_) fun u hu => gives_of_eq ?_
    · exact Contract.signatureMap_table ((hstandard t ht).grows hu) ((hmap t ht).grows hu)
    · exact Contract.object_table ((hstandard t ht).grows hu) (hfs.grows hu)
  refine ⟨haccepts.leaves,fun hm => ?_,?_,honce,hnames,fun p hp => harmless_tabled h (hentries p hp) (hnames p hp),
    fun p hp => calls_tabled h (hentries p hp) (hnames p hp)⟩
  · cases haccepts.eq hm
  · refine lists_table (fun t ht => ⟨hmap t ht,?_⟩) hkeys
    rw [ht.others.attr? ho hr hplain (by simp),hitems]

/-- A function, a table that holds it, and two signatures, each in a map. -/
def alternating : Store :=
  { sample with heap := sample.heap ++ #[
    { cls := .builtin .signature
      body := .contract (.mk 38 (.str "any -> any") .function) (.operation .functionTest)
        (some ⟨.ref 34,.ref 1,.ref 1⟩) },
    { cls := .builtin .dict, body := .table [(.str "m",.ref 33)] },
    { cls := .builtin .dict, body := .table [(.str "m",.ref 35)] },
    { cls := .builtin .dict, body := .table [(.str "m",.ref 38)] }] }

/-- The maps are attached in turn, the first one once more in the end. -/
def alternatingMaps : List (Value × List (Value × Value)) :=
  [(.ref 40,[(.str "m",.ref 35)]),(.ref 41,[(.str "m",.ref 38)]),(.ref 40,[(.str "m",.ref 35)])]

def alternatingAnswers : Answers where
  same a b := decide (a = b)
  isContract _ := true
  isSignature _ := true
  isCallable _ := true
  isSigned _ _ := false
  mismatches _ _ := false
  description _ := .str "any -> any"

theorem alternating_tabled (M : Machine) : Tabled M.next.next alternatingAnswers.same 39 [(.str "m",.ref 33)]
    (· = .str "m") alternating := by
  have hd : alternating.IsTable 39 [(.str "m",.ref 33)] := ⟨rfl,rfl⟩
  have hf {t : Store} (ht : alternating.Rewraps 39 [(.str "m",.ref 33)] t) :
      t.IsFunction (.ref 33) ⟨"f","f",.str "m",.absent,
        .closure ⟨"f",[(.required "x",none)],.variable "x",[]⟩⟩ := by
    obtain ⟨hc,hb⟩ := ht.refills.kept (r := 33) rfl (by decide)
    exact ⟨hc,hb⟩
  refine ⟨hd,?_,?_,?_⟩
  · rintro _ rfl
    refine ⟨fun t _ => gives_of_eq (checkKey_str M.next.next "m" t),fun k hk t _ => gives_of_eq ?_⟩
    obtain rfl : k = .str "m" := by simpa using hk
    exact sameKey_str M.next.next "m" t "m"
  · intro e he
    obtain rfl : e = (.str "m",.ref 33) := by simpa using he
    exact (Wrapper.tells_function fun t ht => hf ht).yielding fun t u ht hg => ht.grows hg
  · intro e he
    obtain rfl : e = (.str "m",.ref 33) := by simpa using he
    exact clear_function fun t ht => hf ht.after

theorem alternating_standard : alternating.HasStandard := by
  simp only [Store.HasStandard]
  decide

theorem alternating_entry (M : Machine) {r : Ref} (hr : r = 35 ∨ r = 38) :
    SignatureEntry alternatingAnswers M alternating 39 [(.str "m",.ref 33)] (.str "m",.ref r) := by
  have kept {t : Store} (ht : alternating.Rewraps 39 [(.str "m",.ref 33)] t) {r : Ref} {o : Obj}
      (ho : alternating.get? r = some o) (hr : r ≠ 39) := ht.refills.kept ho hr
  have hany {t : Store} (ht : alternating.Rewraps 39 [(.str "m",.ref 33)] t) :
      t.contract? (.ref 1) = some Contract.anything := Store.contract?_of_body (kept ht (r := 1) rfl (by decide)).2
  have hf {t : Store} (ht : alternating.Rewraps 39 [(.str "m",.ref 33)] t) :
      t.IsFunction (.ref 33) ⟨"f","f",.str "m",.absent,
        .closure ⟨"f",[(.required "x",none)],.variable "x",[]⟩⟩ := by
    obtain ⟨hc,hb⟩ := kept ht (r := 33) rfl (by decide)
    exact ⟨hc,hb⟩
  have hbody : alternating.get? r = some
      { cls := .builtin .signature
        body := .contract (.mk r (.str "any -> any") .function) (.operation .functionTest)
          (some ⟨.ref 34,.ref 1,.ref 1⟩) } := by
    rcases hr with rfl | rfl <;> rfl
  have hne : r ≠ 39 := by rcases hr with rfl | rfl <;> decide
  refine ⟨aboutEntry_text (b := .signature) (c := .mk r (.str "any -> any") .function) (by simp) (fun _ => rfl)
    (fun t ht => ?_) rfl (Or.inr rfl) rfl rfl rfl,rfl,rfl,?_,fun e he t ht => ?_,fun e he t ht => ?_⟩
  · obtain ⟨hc,hb⟩ := kept ht hbody hne
    exact ⟨hc,Store.contract?_of_body hb⟩
  · refine ⟨[Contract.anything],⟨.ref 34,.ref 1,.ref 1⟩,?_,fun c hc => ?_⟩
    · exact ⟨Store.classOf_of_get? hbody,⟨_,_,Store.body?_of_get? hbody⟩,rfl,rfl⟩
    · obtain rfl : c = Contract.anything := by simpa using hc
      exact describable_of_contract (fun t ht => hany ht) rfl
  · obtain rfl : e = (.str "m",.ref 33) := by simpa using he
    exact (Store.isCallable_builtin (hf ht).cls).trans (by decide)
  · obtain rfl : e = (.str "m",.ref 33) := by simpa using he
    rw [after_ok (isSignedWith_function (hf ht) _)]
    exact Store.Keeps.refl _ t

theorem alternating_attends (M : Machine) : ∀ p ∈ alternatingMaps,
    Attends (alternating.Rewritten 39 [(.str "m",.ref 33)] alternating) M.next.next (.ref 39) (· = .str "m")
      (tableSite alternatingAnswers.same [(.str "m",.ref 33)]) (fun _ => true) p.1 p.2 := by
  have h := alternating_tabled M
  have attends (q r : Ref) (hr : r = 35 ∨ r = 38) (hq : q ≠ 39) (ho : alternating.get? q = some
      { cls := .builtin .dict, body := .table [(.str "m",.ref r)] }) :
      Attends (alternating.Rewritten 39 [(.str "m",.ref 33)] alternating) M.next.next (.ref 39) (· = .str "m")
        (tableSite alternatingAnswers.same [(.str "m",.ref 33)]) (fun _ => true) (.ref q) [(.str "m",.ref r)] := by
    refine attends_table h alternating_standard hq ho rfl rfl rfl (Store.attr?_of_get? ho rfl) (by simp) ?_ (by simp) ?_
    · simp [Once]
    · simpa using alternating_entry M hr
  intro p hp
  simp only [alternatingMaps,List.mem_cons,List.not_mem_nil,or_false] at hp
  rcases hp with rfl | rfl | rfl
  · exact attends 40 35 (Or.inl rfl) (by decide) rfl
  · exact attends 41 38 (Or.inr rfl) (by decide) rfl
  · exact attends 40 35 (Or.inl rfl) (by decide) rfl

/-- The function was not signed, and in the end it is under three checks. -/
theorem stack_of_attachAll_alternating :
    Bearer (alternating.Rewritten 39 [(.str "m",.ref 33)]) alternating Machine.full (.ref 39) (· = .str "m")
      (tableSite alternatingAnswers.same [(.str "m",.ref 33)]) (tableHeld 39) false ∧
    ∃ w sigs, tableHeld 39 (attachAll Machine.full (.ref 39) alternating alternatingMaps) (.int 0) = some w ∧
      (attachAll Machine.full (.ref 39) alternating alternatingMaps).Stack w sigs ∧
      sigs = [.ref 35,.ref 38,.ref 35] := by
  have h := alternating_tabled (Machine.ofLevel 1998)
  have hbearer : Bearer _ _ Machine.full _ _ _ _ _ := .direct h.direct h.unsigned
  have hheld : (tableHeld 39 (attachAll Machine.full (.ref 39) alternating alternatingMaps) (.int 0)).isSome := by
    decide +kernel
  obtain ⟨w,hw⟩ := Option.isSome_iff_exists.mp hheld
  obtain ⟨v,sigs,hv,hstack,-,-,hwell⟩ := stack_of_attachAll hbearer (alternating_attends (Machine.ofLevel 1998)) hw
  obtain rfl : v = w := by simpa using hv
  obtain ⟨hsigs,-⟩ := hwell (show endWell Machine.full (.ref 39) alternating alternatingMaps = true by decide +kernel)
  exact ⟨hbearer,v,sigs,hw,hstack,hsigs.trans (by decide +kernel)⟩

/-- The function is not signed; once the maps were attached in turn, a signature is checked twice. -/
theorem signed_twice : alternating.Stack (.ref 33) [] ∧
    ∃ w sigs, tableHeld 39 (attachAll Machine.full (.ref 39) alternating alternatingMaps) (.int 0) = some w ∧
      (attachAll Machine.full (.ref 39) alternating alternatingMaps).Stack w sigs ∧ ¬ sigs.Nodup := by
  have h := alternating_tabled (Machine.ofLevel 1998)
  have hclear := h.clear (.str "m",.ref 33) (by simp)
  refine ⟨hclear.stack _ h.table.evolves.start,?_⟩
  obtain ⟨S,hB,-,hlasting⟩ := attachAll_signs (H := fun _ => []) (h.direct.host h.unsigned)
    (alternating_attends (Machine.ofLevel 1998)) (h.unsigned.bears h.table.evolves.start false)
    fun _ => ⟨by simp,by simp⟩
  have hwell : endWell Machine.full (.ref 39) alternating alternatingMaps = true := by decide +kernel
  have hsigs : S (.int 0) = [.ref 35,.ref 38,.ref 35] := (hlasting hwell (fun _ => rfl) _).trans (by decide +kernel)
  obtain ⟨w,hw⟩ := Option.isSome_iff_exists.mp (hB.full (.int 0) (by simp [hsigs]))
  obtain ⟨f,hc,hf⟩ := hB.carries _ w hw
  cases hc with
  | static hcls _ _ => cases hcls
  | bare hsigned =>
    have hself := h.table.evolves.grows _ _ hB.later (Store.Keeps.refl _ _)
    exact ⟨w,_,hw,hsigned.stack (hf.stack _ hself),by simp [hsigs]⟩

end Attachment
end CallContracts
