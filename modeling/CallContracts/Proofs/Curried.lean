import CallContracts.Proofs.Enforce
/-! Curried signatures.  Each layer is checked when it is called, and what it returns is wrapped with a
check of the next layer; so the bodies run one by one, up to the first layer whose arguments or result do
not fit, and a complaint names the member with one suffix for every layer before. -/
namespace CallContracts
open Act

/-- What the program may not tamper with while a chain of calls is checked. -/
def Frame.library : Frame where
  holds _ c := c ∈ [BuiltinClass.contract,.signature,.signatureCheck,.settings,.tuple].map ClassId.builtin
  silent := false

namespace Signature
variable {W : Store → Prop} {M : Machine} {s t u : Store} {r v w i f g : Value} {name suffix : String}
  {cs : List Contract} {layers rest : List (List Contract)} {a : List Value} {as : List (List Value)}

/-- Applies a value to one argument list after the other. -/
def applyAll (m : Machine) : Value → List (List Value) → Act Value
  | v, [] => pure v
  | v, a :: as => do applyAll m (← m.call v a []) as

/-- The layers of a curried signature, down to the plain contract `r`. -/
def Curried (W : Store → Prop) (M : Machine) (r : Value) : Value → List (List Contract) → Prop
  | v, [] => v = r ∧ Always W (isSignature M.next r) false ∧ ∃ d, Described W M.next r d
  | v, cs :: rest => ∃ p, Layer W M v cs p ∧ (∃ d, Described W M.next v d) ∧ Curried W M r p.ret rest

/-- What a body returned, which is to be checked by the layers that are left. -/
def Returns (M : Machine) (r g : Value) (s : Store) (next : Prop) : List (List Contract) → Prop
  | [] => ∃ b, Always (s.Grows ·) (mismatches M.next r g) b ∧
      (b → AlwaysCalm (s.Grows ·) (shortText M.next g))
  | _ :: _ => ∃ b, (∀ t, s.Grows t → t.isCallable g = b) ∧
      (b = false → AlwaysCalm (s.Grows ·) (shortText M.next g)) ∧
      (b → Always (s.Grows ·) (isSigned M.next g) false ∧ Wrapper.Tells (s.Grows ·) M.next g ∧ next)

/-- A callable whose bodies return normally when their arguments fit, and leave the library alone, and
whose returned callables are not signed.  Contracts are pure and values can be shown. -/
def Behaves (M : Machine) (r : Value) :
    List (List Contract) → Value → List (List Value) → Store → Prop
  | cs :: rest, f, a :: as, s => ∃ b, (∀ t, s.Grows t → Takes M.next cs a b t) ∧
      (b = false → ∀ t v, s.Grows t → t.IsTuple v a → (shortText M.next v).Calm t) ∧
      (b → ∀ t, s.Grows t → ∃ g u, M.next.call f a [] t = .ok g u ∧ t.Keeps .library u ∧
        Returns M r g u (Behaves M r rest g as u) rest)
  | _, _, _, _ => True

/-- The bodies that are run by a chain of calls: each takes its arguments, every one but the last returns
a callable, and between them the library only looks at things. -/
inductive Applies (M : Machine) :
    List (List Contract) → Value → List (List Value) → Store → Value → Store → Prop where
  | none {f : Value} {s t : Store} : s.Grows t → Applies M [] f [] s f t
  | call {cs : List Contract} {rest : List (List Contract)} {f g h : Value} {a : List Value}
      {as : List (List Value)} {s t u v : Store} : s.Grows t →
      (∀ u, t.Grows u → Takes M.next cs a true u) → M.next.call f a [] t = .ok g u →
      (as ≠ [] → u.isCallable g) → Applies M rest g as u h v →
      Applies M (cs :: rest) f (a :: as) s h v

/-- A text so many times. -/
def copies (suffix : String) : Nat → String
  | 0 => ""
  | n + 1 => suffix ++ copies suffix n

/-- How a chain of calls ends after `k` bodies, the last of which returned `g`. -/
inductive Ends (M : Machine) (r : Value) (name suffix : String) (layers : List (List Contract))
    (as : List (List Value)) (k : Nat) (g : Value) (t : Store) : EStateM.Result Stop Store Value → Prop where
  /-- The next arguments do not fit. -/
  | refused {cs : List Contract} {a : List Value} {b : Blame} {u : Store} : layers[k]? = some cs →
      as[k]? = some a → (∀ u, t.Grows u → Takes M.next cs a false u) → t.Grows u →
      b.member = .str (name ++ copies suffix k) → u.IsTuple b.value a →
      Ends M r name suffix layers as k g t (.error (.raised (.input b)) u)
  /-- A layer that promises a function returned something else. -/
  | notCallable {j : Nat} {b : Blame} {reason : String} {u : Store} : k = j + 1 → k < layers.length →
      t.isCallable g = false → t.Grows u → b.member = .str (name ++ copies suffix j) → b.value = g →
      Ends M r name suffix layers as k g t (.error (.raised (.output b reason)) u)
  /-- The last result does not fit. -/
  | wrongResult {j : Nat} {b : Blame} {reason : String} {u : Store} : k = j + 1 → k = layers.length →
      Always (t.Grows ·) (mismatches M.next r g) true → t.Grows u →
      b.member = .str (name ++ copies suffix j) → b.value = g →
      Ends M r name suffix layers as k g t (.error (.raised (.output b reason)) u)
  /-- All layers were applied, and the result is the object that the last body returned. -/
  | result {u : Store} : k = layers.length → k = as.length →
      Always (t.Grows ·) (mismatches M.next r g) false → t.Grows u →
      Ends M r name suffix layers as k g t (.ok g u)
  /-- The next layer waits for its arguments. -/
  | waiting {cs : List Contract} {w i sig : Value} {u : Store} : k = as.length →
      layers[k]? = some cs → t.Grows u → u.Wraps .wrapper w g i →
      u.Checks i sig (.str (name ++ copies suffix k)) cs →
      Ends M r name suffix layers as k g t (.ok w u)

/-- A chain of calls after the first one counts on. -/
theorem Ends.later {k : Nat} {x : EStateM.Result Stop Store Value}
    (h : Ends M r (name ++ suffix) suffix rest as k g t x) :
    Ends M r name suffix (cs :: rest) (a :: as) (k+1) g t x := by
  have named (j : Nat) : name ++ suffix ++ copies suffix j = name ++ copies suffix (j+1) := by
    rw [copies,String.append_assoc]
  cases h with
  | refused hcs ha hb hu hm hv => exact .refused hcs ha hb hu (by rw [hm,named]) hv
  | notCallable hk hl hg hu hm hv =>
    exact .notCallable (by rw [hk]) (by simpa using hl) hg hu (by rw [hm,named]) hv
  | wrongResult hk hl hg hu hm hv =>
    exact .wrongResult (by rw [hk]) (by simpa using hl) hg hu (by rw [hm,named]) hv
  | result hk hl hg hu => exact .result (by simpa using hk) (by simpa using hl) hg hu
  | waiting hk hcs hu hw hi => exact .waiting (by simpa using hk) hcs hu hw (named k ▸ hi)

theorem Behaves.grows (h : Behaves M r layers f as s) (ht : s.Grows t) : Behaves M r layers f as t := by
  cases layers with
  | nil => trivial
  | cons cs rest =>
    cases as with
    | nil => trivial
    | cons a as =>
      obtain ⟨b,hb,hrejects,hcall⟩ := h
      exact ⟨b,fun u hu => hb u (ht.trans hu),fun hf u v hu => hrejects hf u v (ht.trans hu),
        fun hc u hu => hcall hc u (ht.trans hu)⟩

theorem Applies.after (hs : s.Grows t) (h : Applies M layers f as t g u) : Applies M layers f as s g u := by
  cases h with
  | none ht => exact .none (hs.trans ht)
  | call ht htakes hcall hcallable hrest => exact .call (hs.trans ht) htakes hcall hcallable hrest

theorem checks_library {n : Value} (h : s.Checks i v n cs) (ht : s.Keeps .library t) : t.Checks i v n cs := by
  refine h.keep ht (Store.holds_of_class h.body? h.classOf fun _ => by simp [Frame.library]) ?_ (by decide)
  intro a ha
  obtain ⟨q,d,harg,hc,hq⟩ := h.arguments
  obtain rfl : .ref q = a := by simpa [harg] using ha
  obtain ⟨test,p,hb⟩ := Store.body_of_contract? hq
  exact Store.holds_of_class hb hc fun _ => by simp [Frame.library]

/-- A signature keeps its parts while the library is left alone. -/
theorem isSignature_library {p : Parts} (h : s.IsSignature v cs p) (ht : s.Keeps .library t) : t.IsSignature v cs p := by
  obtain ⟨c,test,hb⟩ := h.body
  exact h.keep ht (Store.holds_of_class hb h.cls fun _ => by simp [Frame.library])
    (Store.holds_of_class h.params.body h.params.cls fun _ => by simp [Frame.library])

section returned
variable {sig v : Value} (hW : ∀ u, t.Grows u → W u) (hi : t.Checks i sig (.str name) cs)
include hW hi

/-- The last result meets the plain contract, or is complained about. -/
theorem ends_last {next : Prop} (hr : Curried W M r v []) (hg : Returns M r g t next []) :
    Ends M r name suffix [cs] [a] 1 g t (checkResult M.next i v g t) := by
  obtain ⟨rfl,hplain,d,hd⟩ := hr
  obtain ⟨b,hb,hshow⟩ := hg
  obtain ⟨z,hz,h⟩ := checkResult_plain hW hi hplain hd hb hshow
  rcases h with ⟨rfl,hok⟩ | ⟨rfl,e,reason,herr,he⟩
  · rw [hok]
    exact .result rfl rfl hb hz
  · rw [herr]
    exact .wrongResult (j := 0) rfl rfl hb hz (by simp [he.member,copies]) he.value

/-- Where a function is promised, what is none is complained about. -/
theorem ends_notCallable {ds : List Contract} {q : Parts} {d : Value} (hl : Layer W M v ds q)
    (hd : Described W M.next v d) (hg : ∀ u, t.Grows u → u.isCallable g = false)
    (hshow : AlwaysCalm (t.Grows ·) (shortText M.next g)) :
    ∃ e u, checkResult M.next i v g t = .error e u ∧
      Ends M r name suffix (cs :: ds :: rest) (a :: as) 1 g t (.error e u) := by
  have hpromised : Always W (isSignature M.next v) true := fun z hz =>
    gives_of_eq (isKind_builtin (hl.signature z hz).cls (by decide))
  obtain ⟨e,reason,z,hz,hgz,he⟩ := checkResult_notCallable hW hi hpromised hd hg hshow
  exact ⟨_,z,hz,.notCallable (j := 0) rfl (by simp) (hg t (Store.Keeps.refl _ t)) hgz (by simp [he.member,copies]) he.value⟩

end returned

/-- A chain of calls through a curried signature runs the bodies of the layers before the first that does
not fit, each once and with its own arguments, and ends as that layer says. -/
theorem applyAll_curried {sig : Value} (hW : ∀ t u, W t → t.Keeps .library u → W u)
    (hsuffix : ∀ t, W t → t.attr? (.ref settingsRef) "anonymous_suffix" = some (.str suffix))
    (hsig : Curried W M r sig (cs :: rest)) (hs : W s) (hw : s.Wraps .wrapper w f i)
    (hi : s.Checks i sig (.str name) cs) (hlen : as.length ≤ rest.length + 1)
    (hf : Behaves M r (cs :: rest) f as s) :
    ∃ k g t, k ≤ as.length ∧ Applies M ((cs :: rest).take k) f (as.take k) s g t ∧
      Ends M r name suffix (cs :: rest) as k g t (applyAll M.next.next.next w as s) := by
  have grown {t u : Store} (ht : W t) (hu : t.Grows u) : W u := hW t u ht (Store.Keeps.of_grows hu)
  induction as generalizing sig cs rest w i f name s with
  | nil =>
    refine ⟨0,f,s,Nat.le_refl _,.none (Store.Keeps.refl _ s),?_⟩
    exact .waiting rfl rfl (Store.Keeps.refl _ s) hw (by simpa [copies] using hi)
  | cons a as ih =>
    obtain ⟨p,hl,-,hret⟩ := hsig
    obtain ⟨b,hb,hrejects,hcalls⟩ := hf
    -- the wrapper hands its call to the check
    obtain ⟨x,n,t,ht,hh,hcall⟩ := call_wrapper (M := M.next.next) a hw (Or.inl rfl)
    rw [call_check (hi.grows ht)] at hcall
    have hWt {u : Store} (hu : t.Grows u) : W u := grown hs (ht.trans hu)
    cases b with
    | false =>
      obtain ⟨d,hd⟩ := hl.input
      obtain ⟨e,u,hu,hg,he⟩ := enforce_refuses (g := f) (fun u hu => hWt hu) hl (hi.grows ht) hh hd
        (fun u hu => hb u (ht.trans hu)) fun u hu => hrejects rfl u x (ht.trans hu) (hh.args.grows hu)
      refine ⟨0,f,t,Nat.zero_le _,.none ht,?_⟩
      rw [applyAll,bind_error (hcall.trans hu)]
      refine .refused rfl rfl (fun u hu => hb u (ht.trans hu)) hg ?_ (he.value ▸ hh.args.grows hg)
      simp [he.member,copies]
    | true =>
      obtain ⟨u,hu,henforce⟩ := enforce_calls (g := f) (fun u hu => hWt hu) hl (hi.grows ht) hh
        fun u hu => hb u (ht.trans hu)
      obtain ⟨g,v,hbody,hkeep,hreturns⟩ := hcalls rfl u (ht.trans hu)
      have hWv : W v := hW u v (hWt hu) hkeep
      have hiv : v.Checks i sig (.str name) cs := checks_library ((hi.grows ht).grows hu) hkeep
      have hresult : M.next.next.next.call w a [] s = checkResult M.next i p.ret g v := by
        rw [hcall,henforce,bind_ok hbody]
        exact checkResult_layer (fun z hz => grown hWv hz) hiv hl
      have first {k : Nat} {h : Value} {z : Store} (hcallable : as.take k ≠ [] → v.isCallable g)
          (hz : Applies M (rest.take k) g (as.take k) v h z) :
          Applies M ((cs :: rest).take (k+1)) f ((a :: as).take (k+1)) s h z :=
        .call (ht.trans hu) (fun z hz => hb z ((ht.trans hu).trans hz)) hbody hcallable hz
      have alone : Applies M ((cs :: rest).take 1) f ((a :: as).take 1) s g v :=
        first (k := 0) (fun h => absurd rfl h) (.none (Store.Keeps.refl _ v))
      rw [applyAll]
      cases rest with
      | nil =>
        obtain rfl : as = [] := by simpa using hlen
        refine ⟨1,g,v,Nat.le_refl _,alone,?_⟩
        have hdone : (M.next.next.next.call w a [] >>= fun x => applyAll M.next.next.next x [])
            = M.next.next.next.call w a [] := bind_pure _
        rw [hdone,hresult]
        exact ends_last (fun z hz => grown hWv hz) hiv hret hreturns
      | cons ds rest =>
        obtain ⟨q,hlq,⟨d,hd⟩,hrest⟩ := hret
        obtain ⟨c,hcallable,hshow,hnext⟩ := hreturns
        cases c with
        | false =>
          obtain ⟨e,z,hz,hends⟩ := ends_notCallable (fun z hz => grown hWv hz) hiv hlq hd hcallable (hshow rfl)
          refine ⟨1,g,v,by simp,alone,?_⟩
          rw [bind_error (hresult.trans hz)]
          exact hends
        | true =>
          obtain ⟨hsigned,htold,hbehaves⟩ := hnext rfl
          obtain ⟨w₂,i₂,z,hz,hg,hw₂,hi₂⟩ := checkResult_wraps (fun z hz => grown hWv hz) hiv hsuffix hlq
            hcallable hsigned htold
          obtain ⟨k,h,y,hk,happlies,hends⟩ := ih ⟨q,hlq,⟨d,hd⟩,hrest⟩ (grown hWv hg) hw₂ hi₂
            (by simpa using hlen) (hbehaves.grows hg)
          refine ⟨k+1,h,y,by simpa using hk,?_,?_⟩
          · exact first (fun _ => hcallable v (Store.Keeps.refl _ v)) (happlies.after hg)
          · rw [bind_ok (hresult.trans hz)]
            exact hends.later

end Signature
end CallContracts
