import CallContracts.Proofs.Boundary
import CallContracts.Proofs.Clipped
/-! What a refusal shows of arguments.  They are shown as one tuple: the first six are shown on their own and then
joined.  The limit holds for the texts among them and not for the whole, so how long that is depends on how many
arguments there are, and on all of their texts. -/
namespace CallContracts
open Act

theorem Text.length_commaJoin (ts : List Chars) :
    (commaJoin ts).length = (ts.map List.length).sum + 2*(ts.length-1) := by
  induction ts with
  | nil => rfl
  | cons x ts ih =>
    cases ts with
    | nil => simp [commaJoin]
    | cons y ts =>
      have hstep : commaJoin (x :: y :: ts) = x ++ [',',' '] ++ commaJoin (y :: ts) := by simp [commaJoin]
      rw [hstep,List.length_append,ih]
      simp only [List.length_append,List.length_cons,List.length_nil,List.map_cons,List.sum_cons]
      omega

/-- What is known of each result, whatever the store it was made in. -/
theorem Act.forall₂_each {α β : Type} {f : α → Act β} {P : α → β → Prop} {l : List α} {ys : List β} {s t : Store}
    (h : ∀ a s b t, f a s = .ok b t → P a b) (hl : each f l s = .ok ys t) : List.Forall₂ P l ys := by
  induction l generalizing ys s with
  | nil =>
    obtain ⟨rfl,-⟩ : [] = ys ∧ s = t := by simpa [each] using hl
    exact .nil
  | cons a l ih =>
    obtain ⟨b,u,hb,hl⟩ := bind_eq_ok.mp hl
    obtain ⟨bs,v,hbs,hl⟩ := bind_eq_ok.mp hl
    obtain ⟨rfl,rfl⟩ : b :: bs = ys ∧ v = t := by simpa using hl
    exact .cons (h a s b u hb) (ih hbs)

namespace Rendering
variable {m : Machine} {s t u : Store} {a : Value} {args : List Value} {ts : List Chars} {n L : Nat} {limit : TextLimit}

/-- The text of a tuple of so many items, the first of which have these texts. -/
def listing (n : Nat) (ts : List Chars) : Chars :=
  '(' :: Text.commaJoin (if limits.items < n then ts ++ [Text.dots] else ts) ++ (if n = 1 then [','] else []) ++ [')']

/-- How many characters of it are not the items'. -/
def surplus (n : Nat) : Nat :=
  2*(min n limits.items-1) + if n = 1 then 3 else if limits.items < n then 7 else 2

theorem length_listing (h : ts.length = min n limits.items) :
    (listing n ts).length = (ts.map List.length).sum + surplus n := by
  have hitems : limits.items = 6 := rfl
  rw [hitems] at h
  simp only [listing,surplus,hitems,List.length_append,List.length_cons,List.length_nil,Text.length_commaJoin]
  by_cases hmore : 6 < n
  · have hone : n ≠ 1 := by omega
    simp [hmore,hone,Text.dots,h]
    omega
  · by_cases hone : n = 1
    · simp [hone,h]
    · simp [hmore,hone,h]
      omega

theorem shortAt_tuple (ha : s.IsTuple a args) (n : Nat) : shortAt m limit (n+1) a s
    = (listing args.length <$> each (shortAt m limit n) (args.take limits.items)) s := by
  have htold : toldAs (s.typeName a) = .tuple := Store.toldAs_builtin (Store.holds_all_of_body ha.body) ha.cls
    (by decide) s (Store.Keeps.refl _ s)
  have hseq : s.Sequence a args := .tuple ha
  have hitems : shortAt m limit (n+1) a s
      = shortItems m (n+1) (shortAt m limit n) limits.items "(" ")" "," a s := by
    rw [shortAt]
    unfold shortWith
    rw [get_bind_apply,htold]
  rw [hitems,shortItems,bind_ok (lengthOf_sequence hseq)]
  dsimp only
  rw [if_neg (by simp),bind_ok (firstItems_sequence hseq limits.items),map_apply]
  cases hts : each (shortAt m limit n) (args.take limits.items) s with
  | error e t => rw [bind_error hts]
  | ok ts t =>
    rw [bind_ok hts,pure_bind_apply,pure_apply]
    simp [listing]

/-- What is told of arguments: how each of the first was shown decides over the length, and a string that had to be
cut leaves no room for anything. -/
structure Enumerates (L : Nat) (args : List Value) (ts : List Chars) (x : String) : Prop where
  parts : List.Forall₂ (fun v y => ∀ t, v = .str t → y = shortString L t.toList) (args.take limits.items) ts
  text : x = String.ofList (listing args.length ts)
  size : x.length = (ts.map List.length).sum + surplus args.length
  exceeds : ∀ t, .str t ∈ args.take limits.items → L < (Text.quote t.toList).length + 3 → L < x.length

theorem enumerates_shown (h8 : 8 ≤ L) (hts : each (shortAt m (.exactly L) n) (args.take limits.items) s = .ok ts t) :
    Enumerates L args ts (String.ofList (listing args.length ts)) := by
  have hparts := forall₂_each (P := fun v y => ∀ t, v = .str t → y = shortString L t.toList) (fun v s y u hy t ht => by
    rw [ht,shortAt_str] at hy
    simp only [EStateM.Result.ok.injEq] at hy
    exact hy.1.symm) hts
  have hlength : ts.length = min args.length limits.items := by
    rw [← hparts.length_eq,List.length_take,Nat.min_comm]
  have hsize : (String.ofList (listing args.length ts)).length = (ts.map List.length).sum + surplus args.length := by
    rw [String.length_ofList,length_listing hlength]
  refine ⟨hparts,rfl,hsize,fun x hx hlong => ?_⟩
  obtain ⟨i,hi,hx⟩ := List.mem_iff_getElem.mp hx
  have hi' : i < ts.length := hparts.length_eq ▸ hi
  have hy : ts[i].length = min L (Text.quote x.toList).length := by
    rw [show ts[i] = _ from hparts.get hi hi' x hx,Text.length_shortString h8]
  have hle : ts[i].length ≤ (ts.map List.length).sum := by
    rw [← List.length_flatten]
    exact (List.sublist_flatten_of_mem (List.getElem_mem hi')).length_le
  have hmore : 3 ≤ surplus args.length := by
    have hitems : limits.items = 6 := rfl
    rw [List.length_take] at hi
    simp only [surplus,hitems]
    repeat' split
    all_goals omega
  omega

end Rendering

namespace Signature
open Rendering
variable {W : Store → Prop} {m M N : Machine} {s t u x z : Store} {k w sig f a n : Value} {name text : String}
  {i r : Contract} {cs : List Contract} {args : List Value} {named : Fields Value} {L : Nat}
  {y : EStateM.Result Stop Store Value}

/-- How a call ends that refuses its arguments: in an input error that lists them, or in what showing one of the
first ends in. -/
inductive Objects (m : Machine) (L : Nat) (member expected a : Value) (args : List Value) (s : Store) :
    EStateM.Result Stop Store Value → Prop
  | listed {b : Blame} {ts : List Chars} {t u : Store} : s.Grows t →
      each (shortAt m (.exactly L) 5) (args.take limits.items) t = .ok ts u → b.Tells member expected a →
      Enumerates L args ts b.shown → Objects m L member expected a args s (.error (.raised (.input b)) u)
  | mute {e : Stop} {t u : Store} : s.Grows t →
      each (shortAt m (.exactly L) 5) (args.take limits.items) t = .error e u →
      Objects m L member expected a args s (.error e u)

theorem objects_of_refusal {expected : Value} (h : Refusal m .input (.str name) expected a s y) (h8 : 8 ≤ L)
    (ha : s.IsTuple a args)
    (hlimit : ∀ t, s.Grows t → ∃ l, t.attr? (.ref settingsRef) "repr_limit" = some l ∧ t.textLimit l = .exactly L) :
    Objects m L (.str name) expected a args s y := by
  have hshown {t : Store} (ht : s.Grows t) : shortText m a t
      = (String.ofList <$> (listing args.length <$> each (shortAt m (.exactly L) 5) (args.take limits.items))) t := by
    obtain ⟨l,hl,hL⟩ := hlimit t ht
    rw [shortText_apply hl,hL,show limits.depth = 5+1 from rfl,map_apply,map_apply,shortAt_tuple (ha.grows ht)]
  cases h with
  | @told b t u ht hx hb =>
    cases hts : each (shortAt m (.exactly L) 5) (args.take limits.items) t with
    | error e v => cases hx.symm.trans ((hshown ht).trans (map_error (map_error hts)))
    | ok ts v =>
      have hx := hx.symm.trans ((hshown ht).trans (map_ok (map_ok hts)))
      simp only [EStateM.Result.ok.injEq] at hx
      obtain ⟨hx,rfl⟩ := hx
      exact .listed ht hts hb (hx ▸ enumerates_shown h8 hts)
  | @mute e t u ht hx =>
    cases hts : each (shortAt m (.exactly L) 5) (args.take limits.items) t with
    | ok ts v => cases hx.symm.trans ((hshown ht).trans (map_ok (map_ok hts)))
    | error e v =>
      have hx := hx.symm.trans ((hshown ht).trans (map_error (map_error hts)))
      simp only [EStateM.Result.error.injEq] at hx
      obtain ⟨rfl,rfl⟩ := hx
      exact .mute ht hts

/-- Strings never stand in the way of showing arguments. -/
theorem Objects.strings {xs : List String} {expected : Value} (h : Objects m L (.str name) expected a args s y)
    (h8 : 8 ≤ L) (hargs : args = xs.map .str) : ∃ b z, y = .error (.raised (.input b)) z ∧
      b.shown.length = ((xs.take limits.items).map fun t => min L (Text.quote t.toList).length).sum + surplus args.length := by
  have hitems : args.take limits.items = (xs.take limits.items).map .str := by rw [hargs,List.map_take]
  have hts (t : Store) : each (shortAt m (.exactly L) 5) (args.take limits.items) t
      = .ok ((xs.take limits.items).map fun t => shortString L t.toList) t := by
    rw [hitems]
    generalize xs.take limits.items = xs
    induction xs with
    | nil => rfl
    | cons x xs ih =>
      rw [List.map_cons,each,bind_ok (shortAt_str 5 x t),bind_ok ih]
      rfl
  cases h with
  | @listed b ts t u ht hl hb hlist =>
    obtain ⟨rfl,rfl⟩ : _ = ts ∧ t = u := by simpa only [EStateM.Result.ok.injEq] using (hts t).symm.trans hl
    refine ⟨b,_,rfl,?_⟩
    rw [hlist.size,List.map_map]
    simp only [Function.comp_def,Text.length_shortString h8]
  | @mute e t u ht hl => cases (hts t).symm.trans hl

/-- Take a signature that was built out of contracts, a check that was made of it for a member, a wrapper of any
callable with that check as its advice, and a limit of at least eight that holds for as long as the program runs.  A
call whose arguments do not meet their contracts shows the first six of them, each on its own, and the input error
shows these texts joined.  So it shows no more than the limit exactly when their lengths add up to no more, with two
more for each comma between them, two or three for the parentheses, and five where some are left out.  In particular
it shows more if one of them is a string whose quoted text has less than three characters to spare. -/
theorem objects_of_checked {b : BuiltinClass} {allow : Bool} (hcs : ∀ c ∈ cs, s.Worded c) (hr : Pledged s r)
    (hsig : Contract.proc m.next (cs.map Contract.value ++ [r.value]) s = .ok sig t) (htu : t.Keeps .library u)
    (hk : check N.next sig (.str name) u = .ok k z) (hzx : z.Keeps .library x) (hw : x.Wraps b w f k)
    (hc : b = .wrapper ∨ b = .classWrapper) (hset : x.Owns (.ref settingsRef))
    (hallow : x.attr? (.ref settingsRef) "allow_keywords" = some (.bool allow))
    (hb : Heedful W M.next x cs r (M.next.call f args []))
    (hlimit : ∀ t, W t → ∃ l, t.attr? (.ref settingsRef) "repr_limit" = some l ∧ t.textLimit l = .exactly L)
    (h8 : 8 ≤ L) :
    ∃ i a y, Guard x k sig name cs i r ∧ x.Grows y ∧ y.IsTuple a args ∧ ∀ u, look M.next cs args y = .ok false u →
      Objects M.next L (.str name) i.description a args u (M.next.next.next.call w args [] x) ∧
      ∀ xs : List String, args = xs.map .str →
        ∃ b z, M.next.next.next.call w args [] x = .error (.raised (.input b)) z ∧ b.shown.length
          = ((xs.take limits.items).map fun t => min L (Text.quote t.toList).length).sum + surplus args.length := by
  obtain ⟨i,hg⟩ := guard_of_check hcs hr hsig htu hk hzx
  obtain ⟨a,n,y,hxy,hp,hcross⟩ := crosses_of_wraps (Store.Keeps.refl _ x) hg hw hc hset hallow rfl
    (fun _ _ _ _ => rfl) hb
  refine ⟨i,a,y,hg,hxy.grows,hp.args,fun u hlook => ?_⟩
  have hstart : x.Minds W y y := ⟨Store.Keeps.refl _ y,hb.grows x y hb.start hxy.grows⟩
  have hu := (heeds_look (fun c hc => hb.tests c (by simp [hc])) args).of_ok hxy.grows hstart hlook
  have ha := hp.args.keep hu.kept (Store.holds_pledged hp.args.body hp.args.cls (by simp))
  have hobjects : Objects M.next L (.str name) i.description a args u (M.next.next.next.call w args [] x) := by
    generalize M.next.next.next.call w args [] x = out at hcross
    -- only a refusal of the arguments looks at them and finds that they do not pass
    cases hcross with
    | unnamed hnamed _ _ => exact absurd rfl hnamed
    | stopped _ hl => cases hlook.symm.trans hl
    | raised _ hl _ => cases hlook.symm.trans hl
    | returned _ hl _ _ => cases hlook.symm.trans hl
    | refused _ hl href =>
      obtain ⟨-,rfl⟩ : true ∧ u = _ := by simpa using hlook.symm.trans hl
      exact objects_of_refusal href h8 ha fun t ht => hlimit t (hb.grows u t hu.own ht)
  exact ⟨hobjects,fun xs hxs => hobjects.strings h8 hxs⟩

/-- A string that is too long for a check of no arguments: with its limit used up there are three more to come. -/
theorem objects_of_checked_identity : ∃ w k x b z, x.Wraps .wrapper w (.ref 33) k ∧
    Machine.halted.next.next.next.call w [.str (String.ofList (List.replicate 80 'a'))] [] x
      = .error (.raised (.input b)) z ∧ b.shown.length = 83 := by
  have hany : withIdentity.Worded Contract.anything := ⟨⟨Or.inl rfl,rfl⟩,_,rfl⟩
  have hpledged : Pledged withIdentity Contract.anything := ⟨hany,nofun⟩
  have hf : withIdentity.IsFunction (.ref 33) identity := ⟨rfl,rfl⟩
  have hset : withIdentity.Owns (.ref settingsRef) := ⟨_,_,rfl,rfl,rfl⟩
  have hcs : ∀ c ∈ ([] : List Contract), withIdentity.Worded c := by simp
  have hnone : ∀ c ∈ ([] : List Contract), c = Contract.anything := by simp
  obtain ⟨sig,t,k,z,w,x,hsig,hk,hst,htz,hzx,hw⟩ := exists_checked (m := Machine.halted) (M := Machine.halted)
    (N := Machine.halted.next) hcs hpledged
    (Wrapper.tells_function (M := Machine.halted) fun t ht => hf.grows ht) "f"
  have hsx := (hst.trans htz).trans hzx
  have hanyx := hany.keep (Store.Keeps.of_grows hsx)
  obtain ⟨test,p,hheld⟩ := Store.body_of_contract? hany.held.held
  have hbody (t : Store) (ht : x.Grows t) : ∃ g, Machine.halted.next.call (.ref 33)
      [.str (String.ofList (List.replicate 80 'a'))] [] t = .ok g t := by
    rw [call_function (hf.grows (hsx.trans ht))]
    exact ⟨_,rfl⟩
  have hb := heedful_anything (m := Machine.halted.next) hnone hanyx.held.held
    ((hsx.classOf (Store.holds_all_of_body hheld)).trans rfl) (hset.grows hsx)
    (Store.setting_grows hset (by decide) (x := .str "->anonym") rfl hsx) hbody
  obtain ⟨i,a,y,-,hxy,ha,h⟩ := objects_of_checked (L := 80) hcs hpledged hsig (Store.Keeps.refl _ t) hk
    (Store.Keeps.of_grows hzx) hw (Or.inl rfl) (hset.grows hsx)
    (Store.setting_grows hset (by decide) (x := .bool false) rfl hsx) hb
    (fun t ht => ⟨.int 80,Store.setting_grows hset (by decide) rfl (hsx.trans ht),rfl⟩) (by decide)
  obtain ⟨b,z,hz,hsize⟩ := (h y rfl).2 [String.ofList (List.replicate 80 'a')] rfl
  exact ⟨w,k,x,b,z,hw,hz,hsize.trans (by decide +kernel)⟩

/-- The text of the fault that a computation ends in. -/
def told (x : Act Value) (s : Store) : Option String :=
  match x s with
  | .error (.raised q) _ => q.message?
  | _ => none

/-- A function that takes a number. -/
def numeric : Act Value := do
  let f ← (Expr.function "f" [.required "x"] [] (.variable "x") none).eval Machine.full []
  let sig ← Contract.proc Machine.full [Contract.number.value,Contract.number.value]
  sign Machine.full sig f

/-- Under a limit of eighty, a single argument is shown with eighty-three characters. -/
theorem fails_long_argument :
    let shown := '(' :: '\'' :: List.replicate 37 'a' ++ Text.dots ++ List.replicate 38 'a' ++ ['\'',',',')']
    Store.initial.attr? (.ref settingsRef) "repr_limit" = some (.int 80) ∧ shown.length = 83 ∧
    told (numeric >>= fun f => Machine.full.call f [.str (String.ofList (List.replicate 90 'a'))] []) Store.initial
      = some ("input type mismatch in f: type number\nbut called with: " ++ String.ofList shown) := by
  decide +kernel

end Signature
end CallContracts
