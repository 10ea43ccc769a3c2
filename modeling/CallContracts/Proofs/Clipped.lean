import CallContracts.Proofs.Rendering
/-! Strings shown under a limit.  A string whose quoted text fits is shown by that text.  Any other is sliced, its
head and its tail are quoted together, and the quoted text is sliced once more; an escape takes several characters, and
a short string that is all escapes has a tail that is longer than itself. -/
namespace CallContracts
open Act

namespace Text
variable {α : Type} {L n : Nat} {s t : List Char}

theorem before_natCast (n : Nat) (s : List α) : before (n : Int) s = s.take n := by
  have hn : ¬ (n : Int) < 0 := by omega
  rw [before,position,if_neg hn,Int.toNat_natCast,← List.take_length (l := s),List.take_take]
  simp

theorem after_natCast (h : n ≤ s.length) : after (s.length - n : Int) s = s.drop (s.length - n) := by
  have hn : ¬ (s.length - n : Int) < 0 := by omega
  have hsize : (s.length - n : Int).toNat = s.length - n := by omega
  rw [after,position,if_neg hn,hsize,Nat.min_eq_left (Nat.sub_le _ _)]

theorem after_suffix (i : Int) (s : List α) : after i s <:+ s := List.drop_suffix _ _

theorem headSize_natCast (h : 3 ≤ L) : headSize L = ((L-3)/2 : Nat) := by
  have hdiv : ((L : Int)-3).fdiv 2 = ((L : Int)-3)/2 := Int.fdiv_eq_ediv_of_nonneg _ (by omega)
  rw [headSize,hdiv]
  omega

theorem tailSize_natCast (h : 3 ≤ L) : tailSize L = (L-3-(L-3)/2 : Nat) := by
  rw [tailSize,headSize_natCast h]
  omega

/-- A text that is no shorter than its tail should be is cut into a head of it, dots and a tail of it. -/
theorem cut_natCast (h3 : 3 ≤ L) (h : L-3-(L-3)/2 ≤ s.length) :
    cut L s = s.take ((L-3)/2) ++ dots ++ s.drop (s.length-(L-3-(L-3)/2)) := by
  rw [cut,headSize_natCast h3,tailSize_natCast h3,before_natCast,after_natCast h]

theorem length_le_escaped (d : Char) (s : List Char) : s.length ≤ (s.flatMap (escapeChar d)).length := by
  induction s with
  | nil => simp
  | cons c s ih =>
    have hc : 0 < (escapeChar d c).length := List.length_pos_iff.mpr (escapeChar_ne_nil d c)
    simp only [List.flatMap_cons,List.length_append,List.length_cons]
    omega

/-- Two marks stand around the characters of a string, and none of these is lost. -/
theorem length_le_quote (s : List Char) : s.length+2 ≤ (quote s).length := by
  have h := length_le_escaped (delimiter s) s
  rw [length_quote]
  omega

theorem delimiter_mem (s : List Char) : delimiter s ∈ ['\'','"'] := by
  unfold delimiter
  split <;> simp

theorem delimiter_append (h : t <:+ s) : delimiter (s ++ t) = delimiter s := by
  have hmem (c : Char) : c ∈ s ++ t ↔ c ∈ s := by
    rw [List.mem_append]
    exact ⟨fun hc => hc.elim id (h.subset ·),Or.inl⟩
  simp only [delimiter,hmem]

/-- With a tail of it repeated, a string takes no fewer characters. -/
theorem length_quote_append (h : t <:+ s) : (quote s).length ≤ (quote (s ++ t)).length := by
  rw [length_quote,length_quote,delimiter_append h,List.flatMap_append,List.length_append]
  omega

theorem head?_quote (s : List Char) : (quote s).head? = some (delimiter s) := rfl

theorem getLast?_quote (s : List Char) : (quote s).getLast? = some (delimiter s) := by
  rw [quote]
  exact List.getLast?_concat

/-- What is kept of a string that has to be cut before it is quoted. -/
def ends (L : Nat) (s : List Char) : List Char :=
  before (headSize L) s ++ after (s.length-tailSize L) s

theorem shortString_eq (L : Nat) (s : List Char) :
    shortString L s = if L < (quote (s.take L)).length then cut L (quote (ends L s)) else quote (s.take L) := by
  rw [shortString,before_natCast]
  simp only [Int.ofNat_lt]
  rfl

theorem shortString_of_le (h : (quote s).length ≤ L) : shortString L s = quote s := by
  have hsize := length_le_quote s
  rw [shortString_eq,List.take_of_length_le (by omega),if_neg (by omega)]

/-- A string whose quoted text is too long keeps enough of it: either the tail has its full size, or the string
is so short that nothing of it was left out, and part of it stands twice. -/
theorem tailSize_le_quote_ends (h8 : 8 ≤ L) (h : L < (quote s).length) : L-3-(L-3)/2 ≤ (quote (ends L s)).length := by
  rw [ends,headSize_natCast (by omega),tailSize_natCast (by omega),before_natCast]
  by_cases hs : L-3-(L-3)/2 ≤ s.length
  · rw [after_natCast hs]
    have hsize := length_le_quote (s.take ((L-3)/2) ++ s.drop (s.length-(L-3-(L-3)/2)))
    rw [List.length_append,List.length_drop] at hsize
    omega
  · rw [List.take_of_length_le (by omega)]
    have hmore := length_quote_append (after_suffix (s.length-(L-3-(L-3)/2 : Nat) : Int) s)
    omega

theorem shortString_of_lt (h : L < (quote s).length) : shortString L s = cut L (quote (ends L s)) := by
  rw [shortString_eq,if_pos]
  by_cases hs : s.length ≤ L
  · rwa [List.take_of_length_le hs]
  · have hsize := length_le_quote (s.take L)
    rw [List.length_take] at hsize
    omega

theorem length_cut (h3 : 3 ≤ L) (h : L-3-(L-3)/2 ≤ s.length) : (cut L s).length = L := by
  rw [cut_natCast h3 h]
  simp only [List.length_append,List.length_take,List.length_drop,dots,List.length_cons,List.length_nil]
  omega

/-- A string never takes more than the limit. -/
theorem length_shortString (h8 : 8 ≤ L) (s : List Char) : (shortString L s).length = min L (quote s).length := by
  by_cases h : (quote s).length ≤ L
  · rw [shortString_of_le h,Nat.min_eq_right h]
  · have hlt : L < (quote s).length := by omega
    rw [shortString_of_lt hlt,length_cut (by omega) (tailSize_le_quote_ends h8 hlt),Nat.min_eq_left (by omega)]

end Text

namespace Rendering
variable {m : Machine} {s : Store} {l : Value} {L : Nat} {x : Chars}

/-- A front and a back of a text with dots in between; it starts and ends with the mark of a quoted string. -/
structure CutDown (L : Nat) (full x : Chars) : Prop where
  size : x.length = L
  halves : ∃ front back, x = front ++ Text.dots ++ back ∧ front <+: full ∧ back <:+ full ∧
    front.length = (L-3)/2 ∧ back.length = L-3-(L-3)/2
  marks : ∃ d ∈ ['\'','"'], x.head? = some d ∧ x.getLast? = some d

theorem cutDown_cut (h8 : 8 ≤ L) (h : L-3-(L-3)/2 ≤ (Text.quote x).length) :
    CutDown L (Text.quote x) (Text.cut L (Text.quote x)) := by
  have hcut := Text.cut_natCast (by omega) h
  refine ⟨Text.length_cut (by omega) h,⟨_,_,hcut,List.take_prefix _ _,List.drop_suffix _ _,?_,?_⟩,
    Text.delimiter x,Text.delimiter_mem x,?_,?_⟩
  · rw [List.length_take]
    omega
  · rw [List.length_drop]
    omega
  · rw [hcut,List.append_assoc,List.head?_append,List.head?_take,if_neg (by omega),Text.head?_quote]
    rfl
  · rw [hcut,List.getLast?_append,List.getLast?_drop,if_neg (by omega),Text.getLast?_quote]
    rfl

theorem shown_str (m : Machine) (x : String) (s : Store) : shown m (.str x) s = .ok (Text.quoted x) s := by
  simp [shown,textAs,depthLimit,writeAt,map_apply,Text.quoted]

/-- Short text is asked for under the limit in force. -/
theorem shortText_apply (hl : s.attr? (.ref settingsRef) "repr_limit" = some l) (v : Value) :
    shortText m v s = (String.ofList <$> shortAt m (s.textLimit l) limits.depth v) s := by
  have hset : setting "repr_limit" s = .ok l s := by simp [setting,ownAttr,hl]
  rw [shortText,bind_ok hset,short,get_bind_apply]

/-- At every level a string is shown alike. -/
theorem shortAt_str (n : Nat) (t : String) (s : Store) :
    shortAt m (.exactly L) n (.str t) s = .ok (shortString L t.toList) s := by
  have htold : toldAs (s.typeName (.str t)) = .str := show toldAs "str" = .str by decide
  cases n with
  | zero | succ n =>
    rw [shortAt,shortWith,get_bind_apply,htold]
    rfl

section string
variable (hl : s.attr? (.ref settingsRef) "repr_limit" = some l) (hL : s.textLimit l = .exactly L)
include hl hL

theorem shortText_str (t : String) :
    shortText m (.str t) s = .ok (String.ofList (shortString L t.toList)) s := by
  rw [shortText_apply hl,hL,map_ok (shortAt_str limits.depth t s)]

/-- Take any text, and any whole limit of at least eight.  Shown in short a string is what it is when written in
full, if that has no more characters than the limit.  Otherwise it has exactly as many: half of those that the dots
leave stand before them and the rest after them, they are taken from the ends of the string's own ends, quoted
together, and the first and the last are the marks of a quoted string. -/
theorem shortText_cases (h8 : 8 ≤ L) (t : String) :
    ∃ q x, shown m (.str t) s = .ok q s ∧ shortText m (.str t) s = .ok x s ∧ (q.length ≤ L → x = q) ∧
      (L < q.length → CutDown L (Text.quote (Text.ends L t.toList)) x.toList) := by
  refine ⟨_,_,shown_str m t s,shortText_str hl hL t,fun h => ?_,fun h => ?_⟩
  · rw [Text.quoted,String.length_ofList] at h
    rw [Text.shortString_of_le h]
    rfl
  · rw [Text.quoted,String.length_ofList] at h
    rw [String.toList_ofList,Text.shortString_of_lt h]
    exact cutDown_cut h8 (Text.tailSize_le_quote_ends h8 h)

end string

/-- Under the usual limit, a string of fewer characters than its tail should have: each takes four when written. -/
theorem shortText_cases_bells :
    let bells := List.replicate 25 (Char.ofNat 7)
    ∃ x, shortText Machine.halted (.str (String.ofList bells)) Store.initial = .ok x Store.initial ∧
      CutDown 80 (Text.quote (Text.ends 80 bells)) x.toList := by
  intro bells
  obtain ⟨q,x,hq,hx,-,hlong⟩ := shortText_cases (m := Machine.halted) (s := Store.initial) (l := .int 80) (L := 80)
    rfl rfl (by decide) (String.ofList bells)
  obtain rfl : Text.quoted (String.ofList bells) = q := by simpa using (shown_str _ _ _).symm.trans hq
  have hlong := hlong (by decide +kernel)
  have hbells : (String.ofList bells).toList = bells := String.toList_ofList
  simp only [hbells] at hlong
  exact ⟨x,hx,hlong⟩

end Rendering
end CallContracts
