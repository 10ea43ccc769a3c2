import CallContracts.Proofs.Check
/-! Plain tables.  When the keys of a table answer whether they are the key that is looked for, reading
gives what stands under the first that is, and writing replaces it in its place. -/
namespace CallContracts
open Act

/-- All objects but one are kept. -/
def Frame.but (d : Ref) : Frame where
  holds r _ := r ≠ d

@[simp] theorem Frame.frees_but (d : Ref) (n : String) :
    (Frame.but d).frees n ↔ n = "__annotations__" := by simp [Frame.frees,Frame.but]

namespace Store

/-- A table that no class of the program makes. -/
structure IsTable (s : Store) (d : Ref) (es : List (Value × Value)) : Prop where
  cls : s.classOf (.ref d) = .builtin .dict
  body : s.body? (.ref d) = some (.table es)

/-- Later stores in which a table may hold other values, under the keys that it had. -/
structure Refills (d : Ref) (ks : List Value) (s t : Store) : Prop where
  others : s.Keeps (.but d) t
  table : ∃ es, t.IsTable d es ∧ es.map Prod.fst = ks

variable {s t u : Store} {d r : Ref} {es : List (Value × Value)} {ks : List Value} {b : Body} {v : Value}

theorem IsTable.grows (h : s.IsTable d es) (ht : s.Grows t) : t.IsTable d es := by
  have hd := holds_all_of_body h.body
  exact ⟨by rw [ht.classOf hd,h.cls],by rw [ht.body? hd,h.body]⟩

theorem Refills.refl (h : s.IsTable d es) : s.Refills d (es.map Prod.fst) s :=
  ⟨Keeps.refl _ s,es,h,rfl⟩

theorem Refills.grows (h : s.Refills d ks t) (ht : t.Grows u) : s.Refills d ks u := by
  obtain ⟨es,hes,hk⟩ := h.table
  exact ⟨h.others.trans (Keeps.of_grows ht),es,hes.grows ht,hk⟩

theorem refills_of_grows (h : s.IsTable d es) (ht : s.Grows t) : s.Refills d (es.map Prod.fst) t :=
  (Refills.refl h).grows ht

/-- Other objects than the table keep their class and body. -/
theorem Refills.kept {o : Obj} (h : s.Refills d ks t) (ho : s.get? r = some o) (hr : r ≠ d) :
    t.classOf (.ref r) = o.cls ∧ t.body? (.ref r) = some o.body := by
  have hv : s.Holds (.but d) (.ref r) := holds_ref ho hr
  exact ⟨by rw [h.others.classOf hv,classOf_of_get? ho],by rw [h.others.body? hv,body?_of_get? ho]⟩

/-- What is no table is not the one that is refilled. -/
theorem holds_but (hd : s.IsTable d es) (hv : s.body? v = some b) (hb : ∀ fs, b ≠ .table fs) :
    s.Holds (.but d) v := by
  obtain ⟨r,rfl⟩ := ref_of_body hv
  rintro _ ⟨⟩
  cases ho : s.get? r with
  | none => simp [body?,obj?,ho] at hv
  | some o =>
    refine ⟨o,rfl,?_⟩
    rintro rfl
    rw [hd.body] at hv
    exact hb es (by simpa using hv.symm)

/-- Other entries in place of those of a table. -/
def refill (s : Store) (d : Ref) (fs : List (Value × Value)) : Store :=
  s.update d fun o => { o with body := .table fs }

theorem IsTable.refill (h : s.IsTable d es) (fs : List (Value × Value)) :
    s.Keeps (.but d) (s.refill d fs) ∧ (s.refill d fs).IsTable d fs := by
  refine ⟨Keeps.update fun o _ hF => absurd rfl hF,?_,?_⟩
  · have hc := h.cls
    cases ho : s.get? d <;> simp_all [classOf,Store.refill,get?_update_self]
  · have hb := h.body
    cases ho : s.get? d <;> simp_all [body?,obj?,Store.refill,get?_update_self]

end Store

namespace Table
variable {m : Machine} {s : Store} {same : Value → Value → Bool} {n w : Value}
  {es : List (Value × Value)} {d : Ref}

/-- The entry of the first key that is the one looked for. -/
def found? (same : Value → Value → Bool) (n : Value) (es : List (Value × Value)) :
    Option (Value × Value) := es.find? fun e => same e.1 n

/-- Entries with another value under a key. -/
def refilled (same : Value → Value → Bool) (n w : Value) : List (Value × Value) → List (Value × Value)
  | [] => [(n,w)]
  | e :: es => if same e.1 n then (e.1,w) :: es else e :: refilled same n w es

/-- In every later store the key can be looked for among the keys. -/
structure Files (W : Store → Prop) (m : Machine) (same : Value → Value → Bool) (ks : List Value)
    (n : Value) : Prop where
  key : Always W (checkKey m n) ()
  same : ∀ k ∈ ks, Always W (sameKey m k n) (same k n)

theorem gives_entryUnder (h : ∀ e ∈ es, ∀ t, s.Grows t → (sameKey m e.1 n).Gives (same e.1 n) t) :
    (entryUnder m (CallContracts.same m) n es).Gives ((found? same n es).map Prod.snd) s := by
  induction es generalizing s with
  | nil => exact gives_pure _ s
  | cons e es ih =>
    refine Gives.bind (h e (by simp) s (Store.Keeps.refl _ s)) fun t ht => ?_
    cases he : same e.1 n with
    | true => simpa [found?,he] using gives_pure (some e.2) t
    | false =>
      have hrest := ih fun k hk u hu => h k (by simp [hk]) u (ht.trans hu)
      simpa [found?,he] using hrest

theorem gives_putAfter (h : ∀ e ∈ es, ∀ t, s.Grows t → (sameKey m e.1 n).Gives (same e.1 n) t) :
    (putAfter m n w es).Gives (refilled same n w es) s := by
  induction es generalizing s with
  | nil => exact gives_pure _ s
  | cons e es ih =>
    refine Gives.bind (h e (by simp) s (Store.Keeps.refl _ s)) fun t ht => ?_
    cases he : same e.1 n with
    | true => simpa [refilled,he] using gives_pure ((e.1,w) :: es) t
    | false =>
      have hrest := ih fun k hk u hu => h k (by simp [hk]) u (ht.trans hu)
      simpa [refilled,he] using Gives.map (List.cons e) hrest

theorem keys_refilled (h : (found? same n es).isSome) :
    (refilled same n w es).map Prod.fst = es.map Prod.fst := by
  induction es with
  | nil => simp [found?] at h
  | cons e es ih =>
    cases he : same e.1 n with
    | true => simp [refilled,he]
    | false => simpa [refilled,he] using ih (by simpa [found?,he] using h)

theorem mem_refilled (same : Value → Value → Bool) (n w : Value) (es : List (Value × Value)) :
    ∃ k, (k,w) ∈ refilled same n w es := by
  induction es with
  | nil => exact ⟨n,by simp [refilled]⟩
  | cons e es ih =>
    cases he : same e.1 n with
    | true => exact ⟨e.1,by simp [refilled,he]⟩
    | false =>
      obtain ⟨k,hk⟩ := ih
      exact ⟨k,by simp [refilled,he,hk]⟩

/-- The position of the first key that is the one looked for. -/
def place? (same : Value → Value → Bool) (n : Value) (ks : List Value) : Option Nat :=
  ks.findIdx? (same · n)

theorem found?_eq (same : Value → Value → Bool) (n : Value) (es : List (Value × Value)) :
    found? same n es = (place? same n (es.map Prod.fst)).bind (es[·]?) := by
  induction es with
  | nil => rfl
  | cons e es ih =>
    cases he : same e.1 n with
    | true => simp [found?,place?,List.findIdx?_cons,he]
    | false =>
      have h := ih
      simp only [found?,place?] at h
      simp only [found?,place?,List.map_cons,List.findIdx?_cons,List.find?_cons,he,h]
      cases List.findIdx? (fun x => same x n) (List.map Prod.fst es) <;> simp

theorem getElem?_refilled {i : Nat} (h : place? same n (es.map Prod.fst) = some i) (j : Nat) :
    (refilled same n w es)[j]? = if j = i then es[j]?.map fun e => (e.1,w) else es[j]? := by
  induction es generalizing i j with
  | nil => cases h
  | cons e es ih =>
    cases he : same e.1 n with
    | true =>
      obtain rfl : i = 0 := by simpa [place?,List.findIdx?_cons,he] using h.symm
      cases j <;> simp [refilled,he]
    | false =>
      simp only [place?,List.map_cons,List.findIdx?_cons,he,Bool.false_eq_true,if_false,
        Option.map_eq_some_iff] at h
      obtain ⟨i,hi,rfl⟩ := h
      cases j with
      | zero => simp [refilled,he]
      | succ j => simpa [refilled,he] using ih hi j

section target
variable {W : Store → Prop} {ks : List Value} (hW : ∀ t, s.Grows t → W t)
  (hf : Files W m same ks n) (hd : s.IsTable d es) (hk : es.map Prod.fst = ks)
include hW hf hk

theorem gives_find : (find m n es).Gives ((found? same n es).map Prod.snd) s := by
  refine Gives.bind (hf.key s (hW s (Store.Keeps.refl _ s))) fun t ht => gives_entryUnder ?_
  intro e he u hu
  exact hf.same e.1 (hk ▸ List.mem_map_of_mem he) u (hW u (ht.trans hu))

include hd

/-- Whether a plain table has a key. -/
theorem gives_contains : (contains m (.ref d) n).Gives ((found? same n es).isSome) s := by
  have ht : s.text? (.ref d) = none := Store.text?_of_body hd.body (by simp)
  have hc : contains m (.ref d) n s
      = (do return (← find m n es).isSome : Act Bool) s := by
    simp [contains,hd.body,containsDirect,hd.cls,nativeContains,ht]
  obtain ⟨t,hfind,hg⟩ := gives_find hW hf hk
  refine ⟨t,?_,hg⟩
  rw [hc,bind_ok hfind]
  simp

theorem gives_item {k v : Value} (he : found? same n es = some (k,v)) :
    (Item.get m (.ref d) n).Gives v s := by
  have hp : s.pieces? (.ref d) = none := Store.pieces?_of_body hd.body (by simp) (by simp)
  have hc : Item.get m (.ref d) n s = Item.ofTable m (.ref d) es n s := by
    simp only [Item.get,get_bind_apply,hd.body,Item.direct,hd.cls,Store.override?_builtin,Item.native,hp]
  obtain ⟨t,hfind,hg⟩ := gives_find hW hf hk
  refine ⟨t,?_,hg⟩
  rw [hc,Item.ofTable,bind_ok hfind,he]
  rfl

/-- Nothing is found under a key that a plain table does not have. -/
theorem item_missing (he : found? same n es = none) :
    ∃ t, s.Grows t ∧ Item.get m (.ref d) n s = .error (.raised (.refused .keyError)) t := by
  have hp : s.pieces? (.ref d) = none := Store.pieces?_of_body hd.body (by simp) (by simp)
  have hc : Item.get m (.ref d) n s = Item.ofTable m (.ref d) es n s := by
    simp only [Item.get,get_bind_apply,hd.body,Item.direct,hd.cls,Store.override?_builtin,Item.native,hp]
  obtain ⟨t,hfind,hg⟩ := gives_find hW hf hk
  refine ⟨t,hg,?_⟩
  rw [hc,Item.ofTable,bind_ok hfind,he]
  simp only [Option.map_none,get_bind_apply,(hd.grows hg).cls,Store.override?_builtin]
  rfl

/-- Writing changes the entries of a plain table and nothing else. -/
theorem put_eq_refill : ∃ u, s.Grows u ∧
    Item.put m (.ref d) n w s = .ok () (u.refill d (refilled same n w es)) := by
  obtain ⟨t,ht,hg⟩ := hf.key s (hW s (Store.Keeps.refl _ s))
  obtain ⟨u,hu,hg'⟩ := gives_putAfter (w := w) (s := t) fun e he u hu =>
    hf.same e.1 (hk ▸ List.mem_map_of_mem he) u (hW u (hg.trans hu))
  refine ⟨u,hg.trans hg',?_⟩
  have hput : put m n w es s = .ok (refilled same n w es) u := by rw [put,bind_ok ht,hu]
  have hc : Item.put m (.ref d) n w s = (do
      let es ← put m n w es
      update d fun o => { o with body := .table es } : Act Unit) s := by
    simp only [Item.put,get_bind_apply,hd.body,hd.cls,Store.override?_builtin,Item.putNative]
  rw [hc,bind_ok hput]
  rfl

theorem put_table : ∃ t, Item.put m (.ref d) n w s = .ok () t ∧ s.Keeps (.but d) t ∧
    t.IsTable d (refilled same n w es) := by
  obtain ⟨u,hu,hput⟩ := put_eq_refill (w := w) hW hf hd hk
  obtain ⟨hkeeps,htable⟩ := (hd.grows hu).refill (refilled same n w es)
  exact ⟨_,hput,(Store.Keeps.of_grows hu).trans hkeeps,htable⟩

end target
end Table
end CallContracts
