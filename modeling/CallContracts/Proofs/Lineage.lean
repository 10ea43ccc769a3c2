import CallContracts.Proofs.Kind
/-! Lines of classes.  A line that ends at a builtin class is complete: it stays the same while classes keep
their bases, and what is looked up along it changes only where a class of the line is written to. -/
namespace CallContracts

/-- Every object is kept, but for attributes of one name. -/
def Frame.members (n : String) : Frame where
  holds _ _ := True
  free := [n]

namespace Store
variable {s t : Store} {c : ClassId} {r : Ref} {b : BuiltinClass} {n : String} {k : Nat} {F : Frame}

/-- The line of a class ends at a builtin one. -/
def Lined (s : Store) (c : ClassId) : Prop := ∃ b, .builtin b ∈ s.line c

theorem lineFrom_builtin (s : Store) (k : Nat) (b : BuiltinClass) :
    s.lineFrom k (.builtin b) = b.line.map .builtin := by cases k <;> rfl

theorem info_of_line (hb : .builtin b ∈ s.lineFrom k c) (hr : .defined r ∈ s.lineFrom k c) :
    ∃ info, s.classInfo? r = some info := by
  induction k generalizing c with
  | zero =>
    cases c with
    | builtin d => simp [lineFrom_builtin] at hr
    | defined q => simp [lineFrom] at hb
  | succ k ih =>
    cases c with
    | builtin d => simp [lineFrom_builtin] at hr
    | defined q =>
      simp only [lineFrom,List.mem_cons,reduceCtorEq,false_or,ClassId.defined.injEq] at hb hr
      cases hq : s.classInfo? q with
      | none => simp [hq] at hb
      | some info =>
        rw [hq] at hb hr
        rcases hr with rfl | hr
        · exact ⟨info,hq⟩
        · exact ih hb hr

/-- More fuel and other objects do not matter to a complete line. -/
theorem lineFrom_eq {j : Nat} (hb : .builtin b ∈ s.lineFrom k c) (hkj : k ≤ j)
    (hinfo : ∀ r, .defined r ∈ s.lineFrom k c → t.classInfo? r = s.classInfo? r) :
    t.lineFrom j c = s.lineFrom k c := by
  induction k generalizing c j with
  | zero =>
    cases c with
    | builtin d => simp [lineFrom_builtin]
    | defined q => simp [lineFrom] at hb
  | succ k ih =>
    cases c with
    | builtin d => simp [lineFrom_builtin]
    | defined q =>
      obtain ⟨j,rfl⟩ := Nat.exists_eq_add_of_le' (Nat.le_trans (Nat.succ_le_succ (Nat.zero_le k)) hkj)
      have hq : t.classInfo? q = s.classInfo? q := hinfo q (by simp [lineFrom])
      simp only [lineFrom,hq]
      cases hi : s.classInfo? q with
      | none => rfl
      | some info =>
        have hb' : .builtin b ∈ s.lineFrom k info.base := by simpa [lineFrom,hi] using hb
        have hrest := ih hb' (Nat.le_of_succ_le_succ hkj) fun r hr => hinfo r (by simp [lineFrom,hi,hr])
        simp only [hrest]

namespace Lined

theorem classInfo? (h : s.Lined c) (hr : .defined r ∈ s.line c) : ∃ info, s.classInfo? r = some info :=
  h.elim fun _ hb => info_of_line hb hr

theorem get? (h : s.Lined c) (hr : .defined r ∈ s.line c) : ∃ o, s.get? r = some o := by
  obtain ⟨info,hi⟩ := h.classInfo? hr
  cases ho : s.get? r with
  | none => simp [Store.classInfo?,ho] at hi
  | some o => exact ⟨o,rfl⟩

theorem line_eq (h : s.Lined c) (ht : s.Keeps F t) (hF : ∀ r c, F.holds r c) : t.line c = s.line c := by
  obtain ⟨b,hb⟩ := id h
  refine lineFrom_eq hb ht.size fun r hr => ht.classInfo? ?_
  obtain ⟨o,ho⟩ := h.get? hr
  exact holds_ref ho (hF r o.cls)

theorem keep (h : s.Lined c) (ht : s.Keeps F t) (hF : ∀ r c, F.holds r c) : t.Lined c := by
  obtain ⟨b,hb⟩ := id h
  exact ⟨b,by rwa [h.line_eq ht hF]⟩

end Lined

theorem findSome?_congr {α β : Type} {f g : α → Option β} {l : List α} (h : ∀ x ∈ l, f x = g x) :
    l.findSome? f = l.findSome? g := by
  induction l with
  | nil => rfl
  | cons x l ih =>
    rw [List.findSome?_cons,List.findSome?_cons,h x (by simp),ih fun y hy => h y (by simp [hy])]

/-- What classes say otherwise, when none of the line is written to. -/
theorem override?_congr (hline : t.line c = s.line c)
    (hattrs : ∀ r, .defined r ∈ s.line c → (t.classAttrs r).get? n = (s.classAttrs r).get? n) :
    t.override? c n = s.override? c n := by
  cases c with
  | builtin d => rfl
  | defined q =>
    simp only [override?,hline]
    refine findSome?_congr fun x hx => ?_
    cases x with
    | builtin d => rfl
    | defined r => exact hattrs r hx

/-- What classes hold, when nothing of that name is written to the line. -/
theorem Lined.classMember?_keep (h : s.Lined c) (ht : s.Keeps F t) (hF : ∀ r c, F.holds r c) (hn : ¬ F.frees n) :
    t.classMember? c n = s.classMember? c n := by
  rw [classMember?,classMember?,h.line_eq ht hF]
  refine findSome?_congr fun x hx => ?_
  cases x with
  | builtin d => rfl
  | defined r =>
    obtain ⟨o,ho⟩ := h.get? hx
    exact ht.classAttrs (holds_ref ho (hF r o.cls)) hn

theorem Lined.classMember?_grows (h : s.Lined c) (ht : s.Grows t) (hn : n ≠ "__annotations__") :
    t.classMember? c n = s.classMember? c n :=
  h.classMember?_keep ht (fun _ _ => trivial) (by simpa [Frame.frees,Frame.all] using hn)

theorem mem_builtinLine : b ∈ s.builtinLine c ↔ .builtin b ∈ s.line c := by
  simp only [builtinLine,List.mem_filterMap]
  constructor
  · rintro ⟨d,hd,h⟩
    cases d with
    | builtin d =>
      obtain rfl : d = b := by simpa using h
      exact hd
    | defined q => cases h
  · exact fun h => ⟨.builtin b,h,rfl⟩

/-- A complete line ends with the line of a builtin class. -/
theorem line_ends {k : Nat} {c : ClassId} (hb : .builtin b ∈ s.lineFrom k c) :
    ∃ above : List Ref, ∃ d : BuiltinClass, s.lineFrom k c = above.map .defined ++ d.line.map .builtin := by
  induction k generalizing c with
  | zero =>
    cases c with
    | builtin d => exact ⟨[],d,by simp [lineFrom_builtin]⟩
    | defined q => simp [lineFrom] at hb
  | succ k ih =>
    cases c with
    | builtin d => exact ⟨[],d,by simp [lineFrom_builtin]⟩
    | defined q =>
      cases hi : s.classInfo? q with
      | none => simp [lineFrom,hi] at hb
      | some info =>
        have hb' : .builtin b ∈ s.lineFrom k info.base := by simpa [lineFrom,hi] using hb
        obtain ⟨above,d,hd⟩ := ih hb'
        exact ⟨q :: above,d,by simp [lineFrom,hi,hd]⟩

theorem exists_builtinLine (h : s.Lined c) : ∃ b : BuiltinClass, s.builtinLine c = b.line := by
  obtain ⟨b,hb⟩ := h
  obtain ⟨above,d,hd⟩ := line_ends hb
  refine ⟨d,?_⟩
  have hline : s.line c = above.map .defined ++ d.line.map .builtin := hd
  simp [builtinLine,hline,List.filterMap_append,List.filterMap_map]

/-- Membership in a builtin class is settled by the builtin classes of a line. -/
theorem isSubclass_congr {d : BuiltinClass} (hd : s.builtinLine c = d.line) (hb : b ≠ .callable) :
    s.isSubclass c (.builtin b) = ({} : Store).isSubclass (.builtin d) (.builtin b) := by
  have hmem : s.comesFrom c (.builtin b) = ({} : Store).comesFrom (.builtin d) (.builtin b) := by
    rw [comesFrom_builtin,← hd]
    simp [comesFrom,mem_builtinLine]
  cases b <;> first | exact absurd rfl hb | simp only [isSubclass,hmem,hd,builtinLine_builtin]

/-- Classes are of no builtin class that is apart from those of classes. -/
theorem isSubclass_type (h : s.Lined c) (ht : .builtin .type ∈ s.line c) (hb : b ≠ .callable)
    (hd : ∀ d : BuiltinClass, .type ∈ d.line → ({} : Store).isSubclass (.builtin d) (.builtin b) = false) :
    s.isSubclass c (.builtin b) = false := by
  obtain ⟨d,hline⟩ := exists_builtinLine h
  rw [isSubclass_congr hline hb]
  exact hd d (hline ▸ mem_builtinLine.mpr ht)

/-- Classes are no mappings. -/
theorem isSubclass_mapping (h : s.Lined c) (ht : .builtin .type ∈ s.line c) :
    s.isSubclass c (.builtin .mapping) = false :=
  isSubclass_type h ht (by decide) fun d => by cases d <;> decide

end Store
end CallContracts
