import CallContracts.Proofs.Table
/-! Going over the entries of a map.  What a map lists is what a quiet iteration over its items gives; a
plain table lists its entries in their order. -/
namespace CallContracts
open Act

/-- An iteration that quietly gives these pairs and then ends. -/
def Cursor.Yields (W : Store → Prop) (m : Machine) : List (Value × Value) → Cursor → Prop
  | [], c => Always W (c.next m) none
  | p :: ps, c => ∀ t, W t → ∃ x c' u, c.next m t = .ok (some (x,c')) u ∧ t.Grows u ∧
      Always W (fieldParts m x) p ∧ c'.Yields W m ps

/-- The entries of a map, and that going over them stays within its bound. -/
def Lists (W : Store → Prop) (m : Machine) (signatures : Value) (map : List (Value × Value)) : Prop :=
  ∀ t, W t → (itemsOf m signatures).Quiet
    (fun c u => c.Yields W m map ∧ map.length < u.bound c) t

theorem Cursor.Yields.mono {W W' : Store → Prop} {m : Machine} {ps : List (Value × Value)} {c : Cursor}
    (h : c.Yields W m ps) (hW : ∀ t, W' t → W t) : c.Yields W' m ps := by
  induction ps generalizing c with
  | nil => exact fun t ht => h t (hW t ht)
  | cons p ps ih =>
    intro t ht
    obtain ⟨x,c',u,hu,hg,hp,hrest⟩ := h t (hW t ht)
    exact ⟨x,c',u,hu,hg,fun w hw => hp w (hW w hw),ih hrest⟩

theorem Lists.mono {W W' : Store → Prop} {m : Machine} {signatures : Value} {map : List (Value × Value)}
    (h : Lists W m signatures map) (hW : ∀ t, W' t → W t) : Lists W' m signatures map := by
  intro t ht
  obtain ⟨c,u,hu,hg,hc,hb⟩ := h t (hW t ht)
  exact ⟨c,u,hu,hg,hc.mono hW,hb⟩

theorem dropGiven_nil (es : List (Value × Value)) : dropGiven [] es = es := by
  cases es <;> simp [dropGiven]

/-- The entries that were given already are the first ones. -/
theorem dropGiven_append (es fs : List (Value × Value)) (hn : ((es ++ fs).map Prod.fst).Nodup) :
    dropGiven (es.map Prod.fst) (es ++ fs) = fs := by
  induction es with
  | nil => exact dropGiven_nil fs
  | cons e es ih =>
    simp only [List.cons_append,List.map_cons,List.nodup_cons] at hn
    simp [dropGiven,ih hn.2]

theorem entriesAt_table {s : Store} {r : Ref} {es : List (Value × Value)} (h : s.IsTable r es) :
    s.entriesAt (.entries (.ref r)) = es := by
  simp [Store.entriesAt,Store.entries?_of_table h.body]

/-- An iteration that gives these items and then ends in all stores of a kind, whichever of them it comes to between two
steps, looking at nothing but the store. -/
def Cursor.Steps (W : Store → Prop) (m : Machine) : List Given → Cursor → Prop
  | [], c => ∀ w, W w → c.next m w = .ok none w
  | x :: xs, c => ∃ c', (∀ w, W w → c.next m w = .ok (some (x,c')) w) ∧ c'.Steps W m xs

/-- Entries are given in their order, while none is added or taken away. -/
theorem Cursor.steps_entries {W : Store → Prop} {m : Machine} {source : Source} {es : List (Value × Value)} (part : Part)
    (hs : ∀ w, W w → w.entriesAt source = es) (hn : (es.map Prod.fst).Nodup) (done rest : List (Value × Value))
    (he : es = done ++ rest) :
    (Cursor.entries part source es.length (done.map Prod.fst) rest.length).Steps W m (rest.map (partOf part)) := by
  induction rest generalizing done with
  | nil =>
    have hd := dropGiven_append done [] (by rw [← he]; exact hn)
    rw [List.append_nil] at hd he
    subst he
    exact fun w hw => by simp [Cursor.next,Cursor.nextEntry,hs w hw,hd]
  | cons e rest ih =>
    have hd := dropGiven_append done (e :: rest) (by rw [← he]; exact hn)
    rw [← he] at hd
    refine ⟨.entries part source es.length ((done ++ [e]).map Prod.fst) rest.length,fun w hw => ?_,
      ih (done ++ [e]) (by simp [he])⟩
    simp [Cursor.next,Cursor.nextEntry,hs w hw,hd]

/-- What gives items in this way lists the pairs that they are. -/
theorem Cursor.Steps.yields {W : Store → Prop} {m : Machine} {es : List (Value × Value)} {c : Cursor}
    (h : c.Steps W m (es.map (partOf .items))) : c.Yields W m es := by
  induction es generalizing c with
  | nil => exact fun t ht => gives_of_eq (h t ht)
  | cons e es ih =>
    obtain ⟨c',hnext,hrest⟩ := h
    exact fun t ht => ⟨_,c',t,hnext t ht,Store.Keeps.refl _ t,fun u _ => gives_of_eq rfl,ih hrest⟩

/-- A plain table gives its entries one after the other. -/
theorem itemsOf_table {m : Machine} {t : Store} {r : Ref} {es : List (Value × Value)} (h : t.IsTable r es)
    (ha : t.attr? (.ref r) "items" = none) :
    itemsOf m (.ref r) t = .ok (.entries .items (.entries (.ref r)) es.length [] es.length) t := by
  have hb : t.behind (.ref r) = .ref r := by simp [Store.behind,h.body]
  have hA : t.isA (.ref r) .orderedDict = false := by
    rw [Store.isA_builtin h.cls]
    decide
  simp [itemsOf,Store.entries?_of_table h.body,Store.isNative,hb,h.cls,ha,Store.overEntries,hA]

/-- A plain table lists its entries. -/
theorem lists_table {m : Machine} {W : Store → Prop} {r : Ref} {es : List (Value × Value)}
    (hW : ∀ t, W t → t.IsTable r es ∧ t.attr? (.ref r) "items" = none) (hn : (es.map Prod.fst).Nodup) :
    Lists W m (.ref r) es := by
  intro t ht
  obtain ⟨h,ha⟩ := hW t ht
  refine ⟨_,t,itemsOf_table h ha,Store.Keeps.refl _ t,?_,?_⟩
  · exact (Cursor.steps_entries .items (fun u hu => entriesAt_table (hW u hu).1) hn [] es rfl).yields
  · simp [Store.bound,Store.remaining,stepLimit]

end CallContracts
