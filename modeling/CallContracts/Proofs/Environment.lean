import Mathlib.Data.Nat.Digits.Defs
import Mathlib.Tactic.IntervalCases
import CallContracts.Proofs.Table
/-! Settings from an environment.  Three keys are asked for and nothing else, so what comes of it depends on the
entries under these keys alone; where they are the texts of a number, a truth value and a suffix, these are the settings
that come of it. No settings have a limit below the least one. -/
namespace CallContracts
open Act

namespace Text

theorem trimBy_eq_self {blank : Char → Bool} {s : List Char} (h : ∀ c ∈ s, blank c = false) :
    trimBy blank s = s := by
  have hdrop (r : List Char) (hr : ∀ c ∈ r, blank c = false) : r.dropWhile blank = r := by
    cases r with
    | nil => rfl
    | cons c r => simp [List.dropWhile,hr c (by simp)]
  rw [trimBy,hdrop s h,hdrop s.reverse fun c hc => h c (List.mem_reverse.mp hc),List.reverse_reverse]

theorem isBlank_eq_false {c : Char} (h : c.isDigit = true ∨ c = '-') : isBlank c = false := by
  rcases h with h | rfl
  · simp only [Char.isDigit,Bool.and_eq_true,decide_eq_true_eq] at h
    have hl : 48 ≤ c.toNat := h.1
    have hu : c.toNat ≤ 57 := h.2
    simp [isBlank]
    omega
  · decide

end Text

/-- A number of at most so many digits is below the power of ten. -/
theorem Numeral.lt_tenTo_iff {n k : Nat} (hk : 0 < k) : n < tenTo k ↔ (Nat.toDigits 10 n).length ≤ k :=
  (Nat.length_toDigits_le_iff (by decide) hk).symm

section written
open Numeral
variable {i : Int} (m : Machine) (s : Store)

/-- A whole number of not too many digits is written down. -/
theorem written_int (h : i.natAbs < tenTo mostDigits) : written m (.int i) s = .ok (toString i) s := by
  simp [written,textAs,depthLimit,writeAt,wholeText,Nat.not_le.mpr h,map_apply]

theorem written_bool (b : Bool) : written m (.bool b) s = .ok (if b then "True" else "False") s := by
  cases b <;> simp [written,textAs,depthLimit,writeAt,map_apply]

end written

/-- Where there is nothing to look into, no key is found either. -/
theorem contains_absent (m : Machine) (x : Value) (s : Store) :
    contains m .absent x s = .error (.raised (.refused .typeError)) s := by
  have hc : s.classOf .absent = .builtin .absent := rfl
  have hb : s.body? .absent = none := rfl
  have ht : s.text? .absent = none := rfl
  have hp : s.pieces? .absent = none := rfl
  have hset : s.isA .absent .settings = false := (Store.isA_builtin hc).trans (by decide)
  have hcursor : cursorOf m .absent s = .error (.raised (.refused .typeError)) s := by
    simp [cursorOf,hc,nativeCursor,hp,hb,hset]
  simp [contains,hb,containsDirect,hc,nativeContains,ht,bind_error hcursor]

/-- An object with these settings. -/
structure Store.Configures (s : Store) (v : Value) (x : Settings.Values) : Prop where
  cls : s.classOf v = .builtin .settings
  limit : s.attr? v "repr_limit" = some (.int x.limit)
  keywords : s.attr? v "allow_keywords" = some (.bool x.keywords)
  suffix : s.attr? v "anonymous_suffix" = some (.str (String.ofList x.suffix))

/-- A table whose class leaves it to the language what is in it. -/
structure Store.Lists (s : Store) (v : Value) (es : List (Value × Value)) : Prop where
  body : s.body? v = some (.table es)
  contains : s.override? (s.classOf v) "__contains__" = none
  item : s.override? (s.classOf v) "__getitem__" = none
  base : s.builtinBase (s.classOf v) ≠ .mapping

/-- Such a table, or what lets it be read only. -/
inductive Store.LooksUp (s : Store) : Value → List (Value × Value) → Prop where
  | table {v : Value} {es : List (Value × Value)} : s.Lists v es → LooksUp s v es
  | proxy {v of : Value} {es : List (Value × Value)} : s.body? v = some (.proxy of) → s.Lists of es → LooksUp s v es

namespace Table
variable {m : Machine} {s : Store} {v x : Value} {es : List (Value × Value)} {n : String}

/-- What stands under a key itself. -/
def under (es : List (Value × Value)) (n : String) : Option Value :=
  (es.find? fun p => p.1 = .str n).map Prod.snd

theorem find_under (h : ∀ p ∈ es, sameKey m p.1 (.str n) s = .ok (decide (p.1 = .str n)) s) :
    find m (.str n) es s = .ok (under es n) s := by
  rw [find,bind_ok (checkKey_str m n s)]
  induction es with
  | nil => rfl
  | cons p es ih =>
    have hp : keyEqual m (same m) p.1 (.str n) s = .ok (decide (p.1 = .str n)) s := h p (by simp)
    rw [entryUnder,bind_ok hp]
    by_cases hpn : p.1 = .str n
    · simp [under,hpn]
    · simpa [under,hpn] using ih fun q hq => h q (by simp [hq])

variable (h : ∀ p ∈ es, sameKey m p.1 (.str n) s = .ok (decide (p.1 = .str n)) s)
include h

theorem contains_lists (hv : s.Lists v es) : containsDirect m v (.str n) s = .ok (under es n).isSome s := by
  obtain ⟨r,rfl⟩ := Store.ref_of_body hv.body
  have ht : s.text? (.ref r) = none := Store.text?_of_body hv.body (by simp)
  simp only [containsDirect,get_bind_apply,hv.contains,if_neg hv.base,nativeContains,ht,hv.body]
  exact bind_ok (find_under h)

theorem item_lists (hv : s.Lists v es) (hx : under es n = some x) : Item.direct m v (.str n) s = .ok x s := by
  obtain ⟨r,rfl⟩ := Store.ref_of_body hv.body
  have hp : s.pieces? (.ref r) = none := Store.pieces?_of_body hv.body (by simp) (by simp)
  simp only [Item.direct,get_bind_apply,hv.item,Item.native,hp,hv.body,Item.ofTable]
  rw [bind_ok (find_under h),hx]
  rfl

theorem contains_looksUp (hv : s.LooksUp v es) : contains m v (.str n) s = .ok (under es n).isSome s := by
  cases hv with
  | table hv => simp only [contains,get_bind_apply,hv.body,contains_lists h hv]
  | proxy hb hv =>
    obtain ⟨r,rfl⟩ := Store.ref_of_body hv.body
    have hclass := Store.class?_of_body hv.body (by simp)
    simp only [contains,get_bind_apply,hb,hclass,contains_lists h hv]

theorem item_looksUp (hv : s.LooksUp v es) (hx : under es n = some x) : Item.get m v (.str n) s = .ok x s := by
  cases hv with
  | table hv => simp only [Item.get,get_bind_apply,hv.body,item_lists h hv hx]
  | proxy hb hv =>
    obtain ⟨r,rfl⟩ := Store.ref_of_body hv.body
    have hclass := Store.class?_of_body hv.body (by simp)
    simp only [Item.get,get_bind_apply,hb,hclass,item_lists h hv hx]

end Table

namespace Settings
open Numeral
variable {m : Machine} {e : Value} {s t : Store} {es : List (Value × Value)} {n : String}

/-- The digits of a number start with no zero, unless they are the zero. -/
theorem head?_toDigits {n : Nat} (h : 0 < n) : (Nat.toDigits 10 n).head? ≠ some '0' := by
  induction n using Nat.strong_induction_on with
  | _ n ih =>
    by_cases hn : n < 10
    · rw [Nat.toDigits_of_lt_base hn]
      interval_cases n <;> decide
    · rw [Nat.toDigits_of_base_le (by decide) (Nat.not_lt.mp hn),List.head?_append_of_ne_nil _ Nat.toDigits_ne_nil]
      exact ih (n / 10) (by omega) (by omega)

/-- The text of a whole number is its digits, after a minus if it is negative. -/
theorem toList_toString (i : Int) :
    (toString i).toList = if i < 0 then '-' :: Nat.toDigits 10 i.natAbs else Nat.toDigits 10 i.natAbs := by
  cases i with
  | ofNat n => exact Nat.toList_repr
  | negSucc n =>
    have h : toString (Int.negSucc n) = "-" ++ Nat.repr (n + 1) := rfl
    rw [h,String.toList_append,Nat.toList_repr,if_pos (Int.negSucc_lt_zero n)]
    rfl

theorem isDigit_toDigits {n : Nat} {c : Char} : c ∈ Nat.toDigits 10 n → c.isDigit = true :=
  Nat.isDigit_of_mem_toDigits (by decide) (by decide)

theorem plainInt?_toDigits (n : Nat) :
    plainInt? (Nat.toDigits 10 n) = some ((n : Int),(Nat.toDigits 10 n).length) ∧
      plainInt? ('-' :: Nat.toDigits 10 n) = some (-(n : Int),(Nat.toDigits 10 n).length) := by
  have hne : Nat.toDigits 10 n ≠ [] := Nat.toDigits_ne_nil
  have hall : (Nat.toDigits 10 n).all Char.isDigit = true := List.all_eq_true.mpr fun _ => isDigit_toDigits
  have hzero : ¬ ((Nat.toDigits 10 n).head? = some '0' ∧ Nat.toDigits 10 n ≠ ['0']) := by
    rintro ⟨hhead,hds⟩
    rcases Nat.eq_zero_or_pos n with rfl | h
    · exact hds rfl
    · exact head?_toDigits h hhead
  -- Digits are not taken for a sign.
  have hminus : ∀ r, Nat.toDigits 10 n ≠ '-' :: r := fun r hr =>
    absurd (isDigit_toDigits (n := n) (c := '-') (by simp [hr])) (by decide)
  constructor <;> simp [plainInt?,hne,hall,hzero,signed]

/-- The text of a whole number is read as that number, if it has not too many digits. -/
theorem readInt_toString {i : Int} (h : i.natAbs < tenTo mostDigits) : readInt (toString i).toList = .int i := by
  have htrim : Text.trim (toString i).toList = (toString i).toList := by
    refine Text.trimBy_eq_self fun c hc => Text.isBlank_eq_false ?_
    rw [toList_toString] at hc
    split at hc
    · exact (List.mem_cons.mp hc).symm.imp_left isDigit_toDigits
    · exact .inl (isDigit_toDigits hc)
  have hplain : plainInt? (toString i).toList = some (i,(Nat.toDigits 10 i.natAbs).length) := by
    rw [toList_toString]
    split
    · rw [(plainInt?_toDigits _).2]
      congr 2
      omega
    · rw [(plainInt?_toDigits _).1]
      congr 2
      omega
  have hlength : ¬ mostDigits < (Nat.toDigits 10 i.natAbs).length := by
    exact Nat.not_lt.mpr ((lt_tenTo_iff (by decide)).mp h)
  simp only [readInt,htrim,hplain,if_neg hlength]

theorem readBool_text (b : Bool) : readBool (if b then "True" else "False").toList = some b := by
  cases b <;> decide

theorem leastLimit_le_of_bounded {i j : Int} (h : bounded i = .ok j) : leastLimit ≤ j := by
  unfold bounded at h
  split at h
  · cases h
    assumption
  · cases h

theorem leastLimit_le_of_readLimit {x : Input} {i : Int} (h : readLimit x = .ok i) : leastLimit ≤ i := by
  -- However the number is found, its bound is looked at last.
  unfold readLimit at h
  extract_lets whole at h
  cases hw : whole with
  | ok j => exact leastLimit_le_of_bounded (by simpa only [hw] using h)
  | error f => simp only [hw,reduceCtorEq] at h

/-- The text of a limit, of a truth value and any text are read as what they are. -/
theorem read_texts {i : Int} (h : leastLimit ≤ i) (hi : i.natAbs < tenTo mostDigits) (b : Bool) (x : List Char) :
    read (some (.text (toString i).toList)) (some (.text (if b then "True" else "False").toList)) (some (.text x))
      = .ok ⟨i,b,x⟩ := by
  have hl : readLimit (.text (toString i).toList) = .ok i := by
    simp only [readLimit,wholeOfText,readInt_toString hi,bounded,if_pos h]
  have hk : readKeywords (.text (if b then "True" else "False").toList) = .ok b := by
    simp only [readKeywords,keywordsOfText,readBool_text]
  simp only [read,given,hl,hk,readSuffix]

theorem leastLimit_le_of_read {l k x : Option Input} {v : Values} (h : read l k x = .ok v) : leastLimit ≤ v.limit := by
  rw [read] at h
  split at h
  · rename_i i _ _ hl _ _
    obtain rfl : _ = v := Except.ok.inj h
    cases l with
    | none =>
      obtain rfl : (80 : Int) = i := Except.ok.inj hl
      exact of_decide_eq_true rfl
    | some y => exact leastLimit_le_of_readLimit hl
  · cases h

/-- What an environment has under a key: nothing, unless it says that the key is in it. -/
def entryOf (m : Machine) (environment : Value) (key : String) : Act (Option Value) := do
  if ← contains m environment (.str key) then return some (← Item.get m environment (.str key)) else return none

/-- The entries that settings are read from, asked for one after the other. -/
def consult (m : Machine) (environment : Value) : Act (List (Option Value)) :=
  each (entryOf m environment) (settingKeys.map Prod.fst)

/-- What an entry is read as. -/
def inputFor (m : Machine) : Option Value → Act (Option Input)
  | some v => some <$> inputOf m v
  | none => pure none

/-- What the entries of an environment are read as. -/
def told (m : Machine) (environment : Value) : Act (List (Option Input)) :=
  consult m environment >>= each (inputFor m)

/-- What comes of the three entries, once they are read. -/
def verdict : List (Option Input) → Except (List FieldFault) Values
  | [l,k,x] => read l k x
  | _ => .error []

/-- New settings, or the faults that are told. -/
def settle : Except (List FieldFault) Values → Act Value
  | .ok x => alloc (object x)
  | .error fs => fail (.invalidSettings fs)

/-- How reading settings ends: with new ones, or with faults of the fields. -/
inductive Ends : EStateM.Result Stop Store Value → Except (List FieldFault) Values → Prop where
  | settings {v : Value} {t : Store} {x : Values} : t.Configures v x → Ends (.ok v t) (.ok x)
  | faults {fs : List FieldFault} {t : Store} : Ends (.error (.raised (.invalidSettings fs)) t) (.error fs)

theorem configures_object (x : Values) (s : Store) : (s.alloc (object x)).2.Configures (.ref s.heap.size) x := by
  have ho := Store.get?_alloc_self s (object x)
  exact ⟨Store.classOf_of_get? ho,Store.attr?_of_get? ho rfl,Store.attr?_of_get? ho rfl,Store.attr?_of_get? ho rfl⟩

theorem ends_settle (r : Except (List FieldFault) Values) (s : Store) : Ends (settle r s) r := by
  cases r with
  | ok x => exact .settings (configures_object x s)
  | error fs => exact .faults

theorem leastLimit_le_of_settle {is : List (Option Input)} {v : Value} (h : settle (verdict is) s = .ok v t) :
    ∃ x, t.Configures v x ∧ leastLimit ≤ x.limit := by
  cases hx : verdict is with
  | error fs => simp [hx,settle] at h
  | ok x =>
    obtain ⟨rfl,rfl⟩ : Value.ref s.heap.size = v ∧ (s.alloc (object x)).2 = t := by simpa [hx,settle] using h
    refine ⟨x,configures_object x s,?_⟩
    unfold verdict at hx
    split at hx
    · exact leastLimit_le_of_read hx
    · cases hx

theorem inputUnder_eq (m : Machine) (named : Fields Value) (n : String) :
    inputUnder m named n = inputFor m (named.get? n) := by
  rw [inputUnder]
  cases named.get? n <;> rfl

/-- The entries that are there, under the names of their settings. -/
def present : List (String × String) → List (Option Value) → Fields Value
  | k :: ks, some v :: es => (k.2,v) :: present ks es
  | _ :: ks, none :: es => present ks es
  | _, _ => []

/-- Going over the keys asks for one entry after the other. -/
theorem gather_eq (m : Machine) (e : Value) (ks : List (String × String)) :
    gather m e ks = present ks <$> each (entryOf m e) (ks.map Prod.fst) := by
  induction ks with
  | nil => rfl
  | cons k ks ih =>
    simp only [gather,ih,List.map_cons,each,entryOf,map_bind,bind_assoc]
    refine bind_congr fun b => ?_
    cases b <;> simp [present]

/-- New settings are what comes of the values that they are built from. -/
theorem build_eq (m : Machine) (named : Fields Value) :
    build m named = each (inputFor m) (settingKeys.map fun k => named.get? k.2) >>= fun is => settle (verdict is) := by
  simp only [build,inputUnder_eq,settingKeys,List.map_cons,List.map_nil,each,bind_assoc,pure_bind,verdict]
  refine bind_congr fun l => bind_congr fun k => bind_congr fun x => ?_
  cases read l k x <;> rfl

theorem get?_present (a b c : Option Value) :
    (settingKeys.map fun k => (present settingKeys [a,b,c]).get? k.2) = [a,b,c] := by
  cases a <;> cases b <;> cases c <;> rfl

/-- Settings from an environment are what comes of its three entries. -/
theorem fromEnvironment_eq (h : e ≠ .absent) :
    fromEnvironment m e = told m e >>= fun is => settle (verdict is) := by
  have hgather : gather m e settingKeys >>= build m = consult m e >>= fun es => build m (present settingKeys es) := by
    rw [gather_eq,consult]
    exact bind_map_left _ _ _
  rw [fromEnvironment,if_neg h,hgather,told,bind_assoc,consult]
  simp only [settingKeys,List.map_cons,List.map_nil,each,bind_assoc,pure_bind]
  refine bind_congr fun a => bind_congr fun b => bind_congr fun c => ?_
  rw [← settingKeys,build_eq,get?_present]
  simp only [each,bind_assoc,pure_bind]

/-- What has no entries is no environment. -/
theorem ne_absent_of_consult {is : List (Option Value)} (h : consult m e s = .ok is t) : e ≠ .absent := by
  rintro rfl
  obtain ⟨_,_,hentry,-⟩ := bind_eq_ok.mp (show (entryOf m .absent _ >>= _) s = .ok is t from h)
  rw [entryOf,bind_error (contains_absent _ _ s)] at hentry
  cases hentry

theorem call_fromEnvironment (m : Machine) (e : Value) (s : Store) :
    m.next.call (.operation .fromEnvironment) [e] [] s = fromEnvironment m e s := rfl

theorem entryOf_looksUp (hv : s.LooksUp e es)
    (h : ∀ p ∈ es, sameKey m p.1 (.str n) s = .ok (decide (p.1 = .str n)) s) :
    entryOf m e n s = .ok (Table.under es n) s := by
  rw [entryOf,bind_ok (Table.contains_looksUp h hv)]
  cases hx : Table.under es n with
  | none => rfl
  | some x =>
    simp only [Option.isSome_some,if_true]
    rw [bind_ok (Table.item_looksUp h hv hx)]
    rfl

/-- A table answers with its entries under the three keys. -/
theorem consult_looksUp (hv : s.LooksUp e es)
    (h : ∀ k ∈ settingKeys, ∀ p ∈ es, sameKey m p.1 (.str k.1) s = .ok (decide (p.1 = .str k.1)) s) :
    consult m e s = .ok (settingKeys.map fun k => Table.under es k.1) s := by
  have hall (ks : List (String × String)) (hks : ∀ k ∈ ks, k ∈ settingKeys) :
      each (entryOf m e) (ks.map Prod.fst) s = .ok (ks.map fun k => Table.under es k.1) s := by
    induction ks with
    | nil => rfl
    | cons k ks ih =>
      rw [List.map_cons,each,bind_ok (entryOf_looksUp hv (h k (hks k (by simp)))),
        bind_ok (ih fun j hj => hks j (by simp [hj]))]
      rfl
  exact hall settingKeys fun _ => id

/-- Texts are taken as they are. -/
theorem told_texts {es : List (Option String)} (h : consult m e s = .ok (es.map (Option.map .str)) t) :
    told m e s = .ok (es.map (Option.map fun a => .text a.toList)) t := by
  rw [told,bind_ok h]
  clear h
  induction es with
  | nil => rfl
  | cons a es ih =>
    have ha : inputFor m (a.map .str) t = .ok (a.map fun a => .text a.toList) t := by cases a <;> rfl
    rw [List.map_cons,each,bind_ok ha,bind_ok ih]
    rfl

section outcome
variable (m e s)

theorem ends_of_told {is : List (Option Input)} (he : e ≠ .absent) (h : told m e s = .ok is t) :
    Ends (fromEnvironment m e s) (verdict is) := by
  rw [fromEnvironment_eq he,bind_ok h]
  exact ends_settle _ t

theorem fails_of_told {q : Stop} (he : e ≠ .absent) (h : told m e s = .error q t) :
    fromEnvironment m e s = .error q t := by
  rw [fromEnvironment_eq he,bind_error h]

theorem ends_of_texts (es : List (Option String)) (h : consult m e s = .ok (es.map (Option.map .str)) t) :
    Ends (fromEnvironment m e s) (verdict (es.map (Option.map fun a => .text a.toList))) :=
  ends_of_told m e s (ne_absent_of_consult h) (told_texts h)

/-- Whatever settings are read from, they come out of three inputs in the end. -/
theorem leastLimit_le_of_fromEnvironment {v : Value} (h : fromEnvironment m e s = .ok v t) :
    ∃ x, t.Configures v x ∧ leastLimit ≤ x.limit := by
  by_cases he : e = .absent
  · rw [fromEnvironment,if_pos he,build_eq] at h
    obtain ⟨is,u,-,hsettle⟩ := bind_eq_ok.mp h
    exact leastLimit_le_of_settle hsettle
  · rw [fromEnvironment_eq he] at h
    obtain ⟨is,u,-,hsettle⟩ := bind_eq_ok.mp h
    exact leastLimit_le_of_settle hsettle

end outcome

/-- An environment whose entries under the three keys are the texts of a limit, of a truth value and of a suffix gives
the settings with these.  Whatever the environment, what comes of it is told by these three entries, and no settings
have a limit below eight.  What a table has under the keys does not depend on its other entries. -/
theorem settings_of_environment :
    (∀ (n : Int) (b : Bool) (x : String), 8 ≤ n → (Nat.toDigits 10 n.natAbs).length ≤ 4300 → ∃ l k,
      (∀ m s, written m (.int n) s = .ok l s) ∧ (∀ m s, written m (.bool b) s = .ok k s) ∧
      ∀ m e s t, consult m e s = .ok [some (.str l),some (.str k),some (.str x)] t →
        Ends (m.next.call (.operation .fromEnvironment) [e] [] s) (.ok ⟨n,b,x.toList⟩)) ∧
    (∀ m e s t (es : List (Option String)), consult m e s = .ok (es.map (Option.map .str)) t →
      Ends (m.next.call (.operation .fromEnvironment) [e] [] s)
        (verdict (es.map (Option.map fun a => .text a.toList)))) ∧
    (∀ m e s, e ≠ .absent →
      (∀ is t, told m e s = .ok is t →
        Ends (m.next.call (.operation .fromEnvironment) [e] [] s) (verdict is)) ∧
      (∀ q t, told m e s = .error q t → m.next.call (.operation .fromEnvironment) [e] [] s = .error q t)) ∧
    (∀ (m : Machine) e s v t, m.next.call (.operation .fromEnvironment) [e] [] s = .ok v t →
      ∃ x, t.Configures v x ∧ 8 ≤ x.limit) ∧
    (∀ m e s es, s.LooksUp e es →
      (∀ k ∈ settingKeys, ∀ p ∈ es, sameKey m p.1 (.str k.1) s = .ok (decide (p.1 = .str k.1)) s) →
      consult m e s = .ok (settingKeys.map fun k => Table.under es k.1) s) := by
  refine ⟨fun n b x hn hdigits => ?_,fun m e s t es h => ?_,fun m e s he => ⟨fun is t h => ?_,fun q t h => ?_⟩,
    fun m e s v t h => ?_,fun m e s es hv h => consult_looksUp hv h⟩
  · have hmost : n.natAbs < tenTo mostDigits := (lt_tenTo_iff (by decide)).mpr hdigits
    refine ⟨toString n,if b then "True" else "False",fun m s => written_int m s hmost,fun m s => written_bool m s b,
      fun m e s t h => ?_⟩
    have hends := ends_of_texts m e s [some (toString n),some (if b then "True" else "False"),some x] h
    simpa only [call_fromEnvironment,verdict,List.map_cons,List.map_nil,Option.map_some,read_texts hn hmost] using hends
  · exact ends_of_texts m e s es h
  · exact ends_of_told m e s he h
  · exact fails_of_told m e s he h
  · exact leastLimit_le_of_fromEnvironment m e s h

/-- A store with two tables, in which another text stands beside those that are asked for. -/
def deployment : Store where
  heap := #[
    { cls := .builtin .dict, body := .table [(.str "PATH",.str "/bin"),(.str "PACTA_ANONYMOUS_SUFFIX",.str "()"),
      (.str "PACTA_REPR_LIMIT",.str "120"),(.str "PACTA_ALLOW_KEYWORDS",.str "True")] },
    { cls := .builtin .dict, body := .table [(.str "PACTA_REPR_LIMIT",.str "7"),(.str "HOME",.str "/root")] }]

theorem settings_of_environment_deployment :
    Ends (Machine.full.call (.operation .fromEnvironment) [.ref 0] [] deployment) (.ok ⟨120,true,"()".toList⟩) ∧
    Ends (Machine.full.call (.operation .fromEnvironment) [.ref 1] [] deployment)
      (.error [⟨"repr_limit","greater_than_equal","Input should be greater than or equal to 8"⟩]) := by
  obtain ⟨hround,htexts,-,-,htables⟩ := settings_of_environment
  obtain ⟨l,k,hl,hk,hends⟩ := hround 120 true "()" (by decide) (by decide)
  have hkeys {es : List (Value × Value)} (h : ∀ p ∈ es, ∃ a, p.1 = .str a) : ∀ j ∈ settingKeys, ∀ p ∈ es,
      sameKey (Machine.ofLevel 1999) p.1 (.str j.1) deployment = .ok (decide (p.1 = .str j.1)) deployment := by
    intro j _ p hp
    obtain ⟨a,ha⟩ := h p hp
    rw [ha,sameKey_str]
    simp
  have hfull : Machine.full = (Machine.ofLevel 1999).next := Machine.ofLevel_succ 1999
  rw [hfull]
  constructor
  · have hmost : Int.natAbs 120 < tenTo mostDigits := (lt_tenTo_iff (by decide)).mpr (by decide)
    obtain rfl : l = "120" :=
      (EStateM.Result.ok.inj ((hl .halted {}).symm.trans (written_int .halted {} hmost))).1
    obtain rfl : k = "True" :=
      (EStateM.Result.ok.inj ((hk .halted {}).symm.trans (written_bool .halted {} true))).1
    have hv : deployment.LooksUp (.ref 0) _ := .table ⟨rfl,rfl,rfl,by decide⟩
    exact hends _ _ _ _ (htables _ _ _ _ hv (hkeys (by simp)))
  · have hv : deployment.LooksUp (.ref 1) _ := .table ⟨rfl,rfl,rfl,by decide⟩
    have hc := htables _ _ _ _ hv (hkeys (by simp))
    exact htexts _ _ _ _ [some "7",none,none] hc

end Settings
end CallContracts
