import CallContracts.Proofs.Host
import CallContracts.Proofs.Layering
/-! Targets that bear signatures.  Mappings, modules and instances give back what was stored for a member; classes
bind what they store, so the wrapper that is read is another one, with the same advice. -/
namespace CallContracts
open Act

namespace Attachment
variable {R : Store → Store → Prop} {m : Machine} {target n k sig v w : Value} {isMap : Bool}
  {names : Value → Prop} {site : Value → Option Value} {held : Store → Value → Option Value} {S : Value → List Value}
  {s t u : Store}

/-- Reads a member of a mapping or of another object. -/
def readAs (isMap : Bool) (m : Machine) (target name : Value) : Act Value :=
  if isMap then Item.get m target name else getAttribute m target name

/-- Writes a member of a mapping or of another object. -/
def writeAs (isMap : Bool) (m : Machine) (target name x : Value) : Act Unit :=
  if isMap then Item.put m target name x else setAttribute m target name x

theorem memberOf_eq (m : Machine) (target name : Value) :
    Signature.memberOf m target name = isMapping m target >>= fun b => readAs b m target name := rfl

/-- A mapping, or an object that is no class, that holds what is written to it.  It gives back the wrappers that it
holds; other members may be found elsewhere, or be made when they are asked for. -/
structure Direct (R : Store → Store → Prop) (m : Machine) (target : Value) (isMap : Bool) (names : Value → Prop)
    (site : Value → Option Value) (held : Store → Value → Option Value) (s : Store) : Prop where
  evolves : s.Evolves R
  stays : ∀ t u, R s t → t.Grows u → held u = held t
  mapping : Always (R s) (isMapping m target) isMap
  noClass : isMap = false → Always (R s) (isKind m target .type) false
  reads : ∀ n, names n → Leaves (R s) (readAs isMap m target n)
  finds : ∀ t n v u, R s t → names n → readAs isMap m target n t = .ok v u → ∃ i, site n = some i
  gives : ∀ t n i w v u, R s t → names n → site n = some i → held t i = some w →
    (∃ c ∈ wrapperClasses, t.classOf w = .builtin c) → readAs isMap m target n t = .ok v u → v = w
  told : ∀ t n v u, R s t → names n → readAs isMap m target n t = .ok v u → Wrapper.Yielding (u.Grows ·) m v
  takes : ∀ t n i w p k sig, R s t → names n → site n = some i → t.Wraps .wrapper w p k → t.Enforces k sig →
    (writeAs isMap m target n w).Leads (fun _ u => R t u ∧ held u i = some w ∧ ∀ j, j ≠ i → held u j = held t j)
      (t.Grows ·) t

/-- At first no member is signed, neither as it is held nor as it is read. -/
structure Unsigned (R : Store → Store → Prop) (m : Machine) (target : Value) (isMap : Bool) (names : Value → Prop)
    (site : Value → Option Value) (held : Store → Value → Option Value) (s : Store) : Prop where
  holds : ∀ i w, held s i = some w → s.Clear R m w
  read : ∀ t n i v u, R s t → names n → site n = some i → held t i = held s i →
    readAs isMap m target n t = .ok v u → u.Clear R m v

theorem Unsigned.bears (h : Unsigned R m target isMap names site held s) (hs : R s s) (cls : Bool) :
    Bears R m held cls s s fun _ => [] :=
  ⟨hs,fun i w hw => ⟨w,.bare .unsigned,h.holds i w hw⟩,fun _ hi => absurd rfl hi,fun _ _ => rfl⟩

section direct
variable (h : Direct R m target isMap names site held s)
include h

/-- Installing reads, wraps and writes. -/
theorem install_eq (ht : R s t) (k : Value) : ∃ z, t.Grows z ∧ Wrapper.install m target n k t = (do
    let v ← readAs isMap m target n
    let w ← Wrapper.around m v k
    writeAs isMap m target n w
    return w) z := by
  obtain ⟨z,hz,hg⟩ := h.mapping t ht
  cases isMap with
  | true =>
    refine ⟨z,hg,?_⟩
    rw [Wrapper.install,bind_ok hz]
    rfl
  | false =>
    obtain ⟨y,hy,hg'⟩ := h.noClass rfl z (h.evolves.lasting t z ht hg)
    refine ⟨y,hg.trans hg',?_⟩
    rw [Wrapper.install,bind_ok hz]
    simp only [Bool.false_eq_true,if_false,get_bind_apply]
    rw [bind_ok hy]
    cases z.class? target <;> rfl

/-- A check is installed in a wrapper of what is read, which is then held for the member; until it is, nothing
changes. -/
theorem Direct.installed (ht : R s t) (hn : names n) (hk : t.Enforces k sig) :
    (Wrapper.install m target n k).Leads
      (fun _ u => ∃ i v w z a b, site n = some i ∧ t.Grows z ∧ readAs isMap m target n z = .ok v a ∧ t.Grows b ∧
        a.Grows b ∧ b.Wraps .wrapper w v k ∧ b.Enforces k sig ∧ R b u ∧ held u i = some w ∧
        ∀ j, j ≠ i → held u j = held b j) (t.Grows ·) t := by
  have hlast := h.evolves.lasting
  obtain ⟨z,hz,heq⟩ := install_eq (n := n) h ht k
  have hRz := hlast t z ht hz
  refine leads_congr heq ((((h.reads n hn).leads hRz).impError fun u hg => hz.trans hg).bind ?_)
  rintro v a ⟨hv,hga⟩
  obtain ⟨i,hi⟩ := h.finds z n v a hRz hn hv
  have hyields := h.told z n v a hRz hn hv
  have hmake := (Wrapper.leaves_make (c := .wrapper) (a := k) (fun _ _ ht hu => ht.trans hu) hyields []).leads
    (Store.Keeps.refl _ a)
  refine (hmake.impError fun u hg => (hz.trans hga).trans hg).bind ?_
  rintro w b ⟨hw,hgb⟩
  have hb := (hz.trans hga).trans hgb
  have hwraps := Wrapper.wraps_of_make (Or.inl rfl) hw
  have hkb : b.Enforces k sig := hk.keep (Store.Keeps.of_grows hb)
  have htakes := h.takes b n i w v k sig (hlast t b ht hb) hn hi hwraps hkb
  refine (htakes.impError fun u hg => hb.trans hg).bind ?_
  rintro - u ⟨hu,hheld,hothers⟩
  exact leads_pure ⟨i,v,w,z,a,b,hi,hz,hv,hb,hgb,hwraps,hkb,hu,hheld,hothers⟩

variable (hB : Bears R m held false s t S) (hn : names n)
include hB

theorem Direct.grows (hg : t.Grows u) : Bears R m held false s u S := hB.grows h.evolves h.stays hg

include hn

/-- What is read is what the site was signed with, on top of what was there at first. -/
theorem read_signed (hs : Unsigned R m target isMap names site held s)
    (hv : readAs isMap m target n t = .ok v u) :
    ∃ i f, site n = some i ∧ u.Signed f v (S i) ∧ u.Clear R m f := by
  obtain ⟨i,hi⟩ := h.finds t n v u hB.later hn hv
  have hg : t.Grows u := (h.reads n hn).ok hB.later hv
  cases hS : S i with
  | nil => exact ⟨i,v,hi,by rw [hS]; exact .unsigned,hs.read t n i v u hB.later hn hi (hB.first i hS) hv⟩
  | cons x xs =>
    obtain ⟨w,hw⟩ := Option.isSome_iff_exists.mp (hB.full i (by simp [hS]))
    obtain ⟨f,hc,hf⟩ := hB.carries i w hw
    cases hc with
    | static hfalse _ _ => cases hfalse
    | bare hsigned =>
      obtain ⟨c,p,k,hc,hwraps⟩ := hsigned.wraps (by simp [hS])
      have hclass : ∃ c ∈ wrapperClasses, t.classOf w = .builtin c := ⟨c,mem_wrapperClasses hc,hwraps.classOf⟩
      obtain rfl := h.gives t n i w v u hB.later hn hi hw hclass hv
      have hlater := h.evolves.grows t u hB.later hg
      exact ⟨i,f,hi,hsigned.keep (Store.Keeps.of_grows hg),hf.later h.evolves hB.later hlater⟩

/-- Installing a check signs the member with it. -/
theorem install_direct (hs : Unsigned R m target isMap names site held s) (hk : t.Enforces k sig) :
    (Wrapper.install m target n k).Leads
      (fun _ u => ∃ i, site n = some i ∧ Bears R m held false s u (Function.update S i (sig :: S i)))
      (fun u => Bears R m held false s u S) t := by
  refine (h.installed hB.later hn hk).imp ?_ fun u hg => h.grows hB hg
  rintro - u ⟨i,v,w,z,a,b,hi,hz,hv,hb,hab,hw,hkb,hu,hheld,hothers⟩
  obtain ⟨j,f,hj,hsigned,hf⟩ := read_signed h (h.grows hB hz) hn hs hv
  obtain rfl : j = i := Option.some.inj (hj.symm.trans hi)
  have hBb := h.grows hB hb
  have hRa := h.evolves.lasting z a (h.grows hB hz).later ((h.reads n hn).ok (h.grows hB hz).later hv)
  have hkeeps := h.evolves.layers b u hBb.later hu
  have hab' := h.evolves.grows a b hRa hab
  have hlayer : u.Signed f w (sig :: S j) :=
    .layer (Or.inl rfl) (hw.keep_callables (by decide) hkeeps.callables) (hkb.keep hkeeps)
      ((hsigned.keep (Store.Keeps.of_grows hab)).keep hkeeps)
  have hclear : u.Clear R m f := (hf.later h.evolves hRa hab').later h.evolves hBb.later hu
  exact ⟨j,hj,hBb.signs h.evolves hu hheld (.bare hlayer) hclear hothers⟩

end direct

/-- Mappings, modules and instances bear signatures. -/
theorem Direct.host (h : Direct R m target isMap names site held s)
    (hs : Unsigned R m target isMap names site held s) :
    Host Store.Grows R m target names site (Bears R m held false s) s := by
  refine ⟨h.evolves,h.evolves.lasting.steps,h.evolves.grows,fun t S hB => hB.later,fun t u S hB hg => h.grows hB hg,
    fun t S n v u hB hn hv => ?_,fun t S n k sig hB hn hk => install_direct h hB hn hs hk⟩
  obtain ⟨z,hz,hg⟩ := h.mapping t hB.later
  rw [memberOf_eq,bind_ok hz] at hv
  have hBz := h.grows hB hg
  obtain ⟨i,f,hi,hsigned,hf⟩ := read_signed h hBz hn hs hv
  exact ⟨i,hi,hsigned.topped h.evolves (h.grows hBz ((h.reads n hn).ok hBz.later hv)).later hf⟩

end Attachment
end CallContracts
