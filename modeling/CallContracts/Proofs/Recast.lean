import CallContracts.Proofs.Tame
/-! Attributes of one object that are written.  Classes and instances are rewritten member by member; all else stays as
it is, and what is written is of one kind. -/
namespace CallContracts

/-- Every object is kept, but for attributes of some names. -/
def Frame.naming (N : List String) : Frame where
  holds _ _ := True
  free := N

namespace Store
variable {P : Store → Value → Prop} {r : Ref} {N : List String} {n : String} {s t : Store} {x : Value}

/-- Only attributes of `r` of these names were written, with such values. -/
structure Recast (P : Store → Value → Prop) (r : Ref) (N : List String) (s t : Store) : Prop where
  apart : s.Apart r t
  names : s.Keeps (.naming N) t
  written : ∀ n ∈ N, t.attr? (.ref r) n = s.attr? (.ref r) n ∨ ∃ x, t.attr? (.ref r) n = some x ∧ P t x

theorem evolves_recast (hP : Stable r P) (hr : ∃ o, s.get? r = some o ∧ o.table = none)
    (hN : "__annotations__" ∉ N) : s.Evolves (Recast P r N) where
  start := ⟨.refl r s,Keeps.refl _ s,fun _ _ => Or.inl rfl⟩
  grows t u ht hu := by
    refine ⟨.of_grows hu,Keeps.of_grows hu,fun n hn => Or.inl ?_⟩
    obtain ⟨o,ho,htable⟩ := hr
    obtain ⟨p,hp,hk⟩ := ht.names.kept r o ho trivial
    refine hu.attr? hp trivial (hk.table.trans htable) ?_
    rintro (rfl | hk)
    · exact hN hn
    · cases hk
  trans t u v _ hu hv := by
    refine ⟨hu.apart.trans hv.apart,hu.names.trans hv.names,fun n hn => ?_⟩
    rcases hv.written n hn with hsame | hwritten
    · rw [hsame]
      refine (hu.written n hn).imp_right ?_
      rintro ⟨x,hx,hPx⟩
      exact ⟨x,hx,hP u v x hPx hv.apart⟩
    · exact Or.inr hwritten
  layers t u _ hu := hu.apart.layers

/-- Writing such a value to an attribute of such a name. -/
theorem Wrote.recast (h : s.Wrote r n x t) (hlayers : s.Keeps .layers t)
    (hr : ∃ o, s.get? r = some o ∧ o.table = none) (hN : "__annotations__" ∉ N) (hn : n ∈ N) (hx : P t x) :
    s.Recast P r N t := by
  refine ⟨⟨h.others,hlayers⟩,?_,fun k hk => ?_⟩
  · refine h.members.mono (fun _ _ _ => trivial) (fun k hk => ?_) fun _ => rfl
    obtain rfl : k = n := by simpa [Frame.members] using hk
    exact hn
  · by_cases hkn : k = n
    · subst hkn
      exact Or.inr ⟨x,h.here,hx⟩
    · left
      obtain ⟨o,ho,htable⟩ := hr
      refine h.members.attr? ho trivial htable ?_
      rintro (rfl | hfree)
      · exact hN hk
      · exact hkn (by simpa [Frame.members] using hfree)

end Store

namespace Attachment
variable {r : Ref} {n : String} {t u : Store} {w x : Value}

/-- What a class or an instance holds itself. -/
def ownHeld (r : Ref) (s : Store) : Value → Option Value
  | .str n => if n = "__annotations__" then none else s.attr? (.ref r) n
  | _ => none

theorem ownHeld_eq_some (h : ownHeld r t (.str n) = some w) : t.attr? (.ref r) n = some w := by
  by_cases hn : n = "__annotations__"
  · simp [ownHeld,hn] at h
  · simpa [ownHeld,hn] using h

theorem ownHeld_congr (h : ∀ n, n ≠ "__annotations__" → x = .str n →
    u.attr? (.ref r) n = t.attr? (.ref r) n) : ownHeld r u x = ownHeld r t x := by
  cases x with
  | str n =>
    by_cases hn : n = "__annotations__"
    · simp [ownHeld,hn]
    · simp [ownHeld,hn,h n hn rfl]
  | _ => rfl

theorem ownHeld_grows {o : Obj} (ho : t.get? r = some o) (htable : o.table = none) (hg : t.Grows u) :
    ownHeld r u = ownHeld r t := by
  funext x
  refine ownHeld_congr fun n hn _ => hg.attr? ho trivial htable ?_
  rintro (hk | hk)
  · exact hn hk
  · cases hk

end Attachment
end CallContracts
