import Mathlib.Data.List.Basic

/-!
# Guarded machines and their runs

A machine is a partial step function on labelled steps: `none` says that the
label is not enabled. A run is a list of labels, all of them enabled in turn.
Interleavings of any number of parties are label lists, so a law over every
interleaving is a law over every run. The rules below carry an invariant, an
invariant under a side condition on the steps, or a relation between the labels
seen so far and the state, from one step to a whole run.
-/

namespace Outreach.Library

set_option autoImplicit false

structure Machine (σ ε : Type*) where
  step : σ → ε → Option σ

namespace Machine

variable {σ ε : Type*} (m : Machine σ ε)

def run : σ → List ε → Option σ
  | s, [] => some s
  | s, e :: es => (m.step s e).bind fun u => run u es

@[simp] theorem run_nil (s : σ) : m.run s [] = some s := rfl

theorem run_cons (s : σ) (e : ε) (es : List ε) :
    m.run s (e :: es) = (m.step s e).bind fun u => m.run u es := rfl

theorem run_cons_some {s t : σ} {e : ε} {es : List ε} :
    m.run s (e :: es) = some t ↔ ∃ u, m.step s e = some u ∧ m.run u es = some t := by
  rw [run_cons, Option.bind_eq_some_iff]

theorem run_append_some {s t : σ} {es fs : List ε} :
    m.run s (es ++ fs) = some t ↔ ∃ u, m.run s es = some u ∧ m.run u fs = some t := by
  induction es generalizing s with
  | nil => simp
  | cons e es ih =>
    rw [List.cons_append, run_cons_some]
    constructor
    · intro h
      obtain ⟨u, hu, hr⟩ := h
      obtain ⟨v, hv, hw⟩ := ih.mp hr
      exact ⟨v, m.run_cons_some.mpr ⟨u, hu, hv⟩, hw⟩
    · intro h
      obtain ⟨v, hv, hw⟩ := h
      obtain ⟨u, hu, hr⟩ := m.run_cons_some.mp hv
      exact ⟨u, hu, ih.mpr ⟨v, hr, hw⟩⟩

theorem run_singleton {s t : σ} {e : ε} : m.run s [e] = some t ↔ m.step s e = some t := by
  rw [run_cons_some]
  simp

/-- Every step of the run from `s` meets the side condition `ok`. -/
def Along (ok : σ → ε → Prop) : σ → List ε → Prop
  | _, [] => True
  | s, e :: es => ok s e ∧ ∀ u, m.step s e = some u → Along ok u es

theorem along_of_forall {ok : σ → ε → Prop} {s : σ} {es : List ε}
    (h : ∀ u, ∀ e ∈ es, ok u e) : m.Along ok s es := by
  induction es generalizing s with
  | nil => trivial
  | cons e es ih =>
    exact ⟨h s e List.mem_cons_self,
      fun _ _ => ih fun w f hf => h w f (List.mem_cons_of_mem e hf)⟩

/-- The side condition, read at each step that is reached. -/
theorem along_iff {ok : σ → ε → Prop} {s : σ} {es : List ε} :
    m.Along ok s es ↔
      ∀ pre e post u, es = pre ++ e :: post → m.run s pre = some u → ok u e := by
  induction es generalizing s with
  | nil =>
    refine iff_of_true trivial fun pre e post u hsplit _ => ?_
    exact absurd hsplit.symm (List.append_ne_nil_of_right_ne_nil pre (List.cons_ne_nil e post))
  | cons e es ih =>
    constructor
    · intro h pre f post u hsplit hu
      cases pre with
      | nil =>
        obtain ⟨rfl, rfl⟩ := List.cons_eq_cons.mp hsplit
        rw [run_nil] at hu
        exact Option.some.inj hu ▸ h.1
      | cons e' pre =>
        obtain ⟨rfl, htail⟩ := List.cons_eq_cons.mp hsplit
        obtain ⟨v, hv, hu⟩ := m.run_cons_some.mp hu
        exact ih.mp (h.2 v hv) pre f post u htail hu
    · intro h
      refine ⟨h [] e es s rfl rfl, fun v hv => ih.mpr fun pre f post u hsplit hu => ?_⟩
      exact h (e :: pre) f post u (congrArg (e :: ·) hsplit) (m.run_cons_some.mpr ⟨v, hv, hu⟩)

/-- The run rule under a side condition: what every admissible step preserves,
an admissible run preserves. -/
theorem run_preserves_along {ok : σ → ε → Prop} {P : σ → Prop}
    (hstep : ∀ s e t, P s → ok s e → m.step s e = some t → P t)
    {s t : σ} {es : List ε} (hs : P s) (ha : m.Along ok s es) (hr : m.run s es = some t) : P t := by
  induction es generalizing s with
  | nil =>
    rw [run_nil] at hr
    exact Option.some.inj hr ▸ hs
  | cons e es ih =>
    obtain ⟨u, hu, hr⟩ := m.run_cons_some.mp hr
    exact ih (hstep s e u hs ha.1 hu) (ha.2 u hu) hr

theorem run_preserves {P : σ → Prop} (hstep : ∀ s e t, P s → m.step s e = some t → P t)
    {s t : σ} {es : List ε} (hs : P s) (hr : m.run s es = some t) : P t := by
  have ha : m.Along (fun _ _ => True) s es := m.along_of_forall fun _ _ _ => trivial
  exact m.run_preserves_along (fun s e t hp _ => hstep s e t hp) hs ha hr

/-- The exact side condition: where a step keeps `P` precisely when it meets `ok`, a run
stays in `P` precisely when all its steps meet `ok`. -/
theorem run_always_iff {ok : σ → ε → Prop} {P : σ → Prop}
    (hstep : ∀ s e t, P s → m.step s e = some t → (P t ↔ ok s e))
    {s t : σ} {es : List ε} (hs : P s) (hr : m.run s es = some t) :
    (∀ pre post u, es = pre ++ post → m.run s pre = some u → P u) ↔ m.Along ok s es := by
  induction es generalizing s with
  | nil =>
    refine iff_of_true (fun pre post u hsplit hu => ?_) trivial
    obtain ⟨rfl, -⟩ := List.append_eq_nil_iff.mp hsplit.symm
    rw [run_nil] at hu
    exact Option.some.inj hu ▸ hs
  | cons e es ih =>
    obtain ⟨v, hv, hr⟩ := m.run_cons_some.mp hr
    constructor
    · intro h
      have hpv : P v := h [e] es v rfl (m.run_singleton.mpr hv)
      refine ⟨(hstep s e v hs hv).mp hpv, fun v' hv' => ?_⟩
      obtain rfl : v = v' := Option.some.inj (hv.symm.trans hv')
      refine (ih hpv hr).mp fun pre post u hsplit hu => ?_
      exact h (e :: pre) post u (congrArg (e :: ·) hsplit) (m.run_cons_some.mpr ⟨v, hv, hu⟩)
    · intro h pre post u hsplit hu
      cases pre with
      | nil =>
        rw [run_nil] at hu
        exact Option.some.inj hu ▸ hs
      | cons e' pre =>
        obtain ⟨rfl, htail⟩ := List.cons_eq_cons.mp hsplit
        obtain ⟨v', hv', hu⟩ := m.run_cons_some.mp hu
        obtain rfl : v = v' := Option.some.inj (hv.symm.trans hv')
        exact (ih ((hstep s e v hs hv).mpr h.1) hr).mpr (h.2 v hv) pre post u htail hu

/-- The history rule: `Q` relates the labels seen so far to the state. -/
theorem run_history {ok : σ → ε → Prop} {Q : List ε → σ → Prop}
    (hstep : ∀ seen s e t, Q seen s → ok s e → m.step s e = some t → Q (seen ++ [e]) t)
    {seen : List ε} {s t : σ} {es : List ε} (hs : Q seen s) (ha : m.Along ok s es)
    (hr : m.run s es = some t) : Q (seen ++ es) t := by
  induction es generalizing seen s with
  | nil =>
    rw [run_nil] at hr
    rw [List.append_nil]
    exact Option.some.inj hr ▸ hs
  | cons e es ih =>
    obtain ⟨u, hu, hr⟩ := m.run_cons_some.mp hr
    have h := ih (hstep seen s e u hs ha.1 hu) (ha.2 u hu) hr
    rwa [List.append_assoc, List.singleton_append] at h

/-- The erasure rule: hidden steps keep the relation to a run that leaves them out. -/
theorem run_erase {R : σ → σ → Prop} {hidden : ε → Bool}
    (hhidden : ∀ s e t u, R s u → hidden e = true → m.step s e = some t → R t u)
    (hshown : ∀ s e t u, R s u → hidden e = false → m.step s e = some t →
      ∃ v, m.step u e = some v ∧ R t v)
    {s t u : σ} {es : List ε} (hs : R s u) (hr : m.run s es = some t) :
    ∃ v, m.run u (es.filter fun e => !hidden e) = some v ∧ R t v := by
  induction es generalizing s u with
  | nil =>
    rw [run_nil] at hr
    exact ⟨u, rfl, Option.some.inj hr ▸ hs⟩
  | cons e es ih =>
    obtain ⟨s', hs', hr⟩ := m.run_cons_some.mp hr
    cases he : hidden e with
    | true =>
      rw [List.filter_cons_of_neg (by simp [he])]
      exact ih (hhidden s e s' u hs he hs') hr
    | false =>
      obtain ⟨u', hu', hR⟩ := hshown s e s' u hs he hs'
      obtain ⟨v, hv, hRv⟩ := ih hR hr
      rw [List.filter_cons_of_pos (by simp [he])]
      exact ⟨v, m.run_cons_some.mpr ⟨u', hu', hv⟩, hRv⟩

section Observe

variable {ω : Type*} (o : σ → ε → Option ω)

/-- What the steps of a run show, in order. -/
def observe : σ → List ε → List ω
  | _, [] => []
  | s, e :: es =>
      match m.step s e with
      | none => []
      | some u => (o s e).toList ++ observe u es

/-- The observation rule: `Q` relates what was seen so far to the state. -/
theorem run_observe {ok : σ → ε → Prop} {Q : List ω → σ → Prop}
    (hstep : ∀ seen s e t, Q seen s → ok s e → m.step s e = some t →
      Q (seen ++ (o s e).toList) t)
    {seen : List ω} {s t : σ} {es : List ε} (hs : Q seen s) (ha : m.Along ok s es)
    (hr : m.run s es = some t) : Q (seen ++ m.observe o s es) t := by
  induction es generalizing seen s with
  | nil =>
    rw [run_nil] at hr
    rw [observe, List.append_nil]
    exact Option.some.inj hr ▸ hs
  | cons e es ih =>
    obtain ⟨u, hu, hr⟩ := m.run_cons_some.mp hr
    have h := ih (hstep seen s e u hs ha.1 hu) (ha.2 u hu) hr
    rw [List.append_assoc] at h
    rwa [observe, hu]

end Observe

end Machine

end Outreach.Library
