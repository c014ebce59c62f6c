import Outreach.Library.Processes

/-!
# Processes that can only write what is settled beforehand

When what a process writes depends only on what it reads, and each object has one
value that anybody would write to it, it does not matter how many processes are
at work on the same objects, in which order they move, or where some of them
stop: no object ever has another value than its own, and none that is there is
lost. A process that stops for good is one that is not scheduled again.
-/

namespace Outreach.Library

set_option autoImplicit false

variable {ι κ ν σ : Type*} [DecidableEq ι] [DecidableEq κ]

/-- A process in a fine phase writes the values of `canon`, and stays fine when it reads
none but these. -/
structure Predetermined (act : ι → σ → Option (StoreAction κ ν σ)) (canon : κ → ν → Prop)
    (Fine : σ → Prop) : Prop where
  read : ∀ i phase k go seen, Fine phase → act i phase = some (.read k go) →
    (∀ v, seen = some v → canon k v) → Fine (go seen)
  write : ∀ i phase k v go, Fine phase → act i phase = some (.write k v go) →
    canon k v ∧ Fine go

/-- Every object has a value of `canon`, and every process is in a fine phase. -/
structure Consistent (canon : κ → ν → Prop) (Fine : σ → Prop) (s : Shared ι κ ν σ) : Prop where
  store : ∀ k v, s.store k = some v → canon k v
  phase : ∀ i, Fine (s.phase i)

namespace Predetermined

variable {act : ι → σ → Option (StoreAction κ ν σ)} {canon : κ → ν → Prop} {Fine : σ → Prop}
  (d : Predetermined act canon Fine)

include d

theorem step {s t : Shared ι κ ν σ} {i : ι} (hs : Consistent canon Fine s)
    (hstep : (interleaving act).step s i = some t) : Consistent canon Fine t := by
  obtain ⟨a, ha, rfl⟩ := (interleaving_step act).mp hstep
  have hphase : Fine (a.next (s.store a.key)) ∧
      ∀ k v, (s.perform i a).store k = some v → canon k v := by
    cases a with
    | read k go => exact ⟨d.read i _ k go _ (hs.phase i) ha (hs.store k), hs.store⟩
    | write k v go =>
      obtain ⟨hv, hgo⟩ := d.write i _ k v go (hs.phase i) ha
      refine ⟨hgo, fun k' v' hk' => ?_⟩
      by_cases hk : k' = k
      · rw [hk] at hk' ⊢
        have hself : (s.perform i (.write k v go)).store k = some v := Function.update_self ..
        rw [← Option.some.inj (hself.symm.trans hk')]
        exact hv
      · rw [s.perform_store_ne hk] at hk'
        exact hs.store k' v' hk'
  refine ⟨hphase.2, fun j => ?_⟩
  by_cases hj : j = i
  · rw [hj, s.perform_phase_self]
    exact hphase.1
  · rw [s.perform_phase_ne a hj]
    exact hs.phase j

theorem run {s t : Shared ι κ ν σ} {es : List ι} (hs : Consistent canon Fine s)
    (hr : (interleaving act).run s es = some t) : Consistent canon Fine t :=
  (interleaving act).run_preserves (fun _ _ _ hu hstep => d.step hu hstep) hs hr

/-- Where an object has but one value, a later write leaves it as it is. -/
theorem step_keeps (hone : ∀ k v v', canon k v → canon k v' → v = v') {s t : Shared ι κ ν σ}
    {i : ι} (hs : Consistent canon Fine s) (hstep : (interleaving act).step s i = some t)
    {k : κ} {v : ν} (hk : s.store k = some v) : t.store k = some v := by
  obtain ⟨a, ha, rfl⟩ := (interleaving_step act).mp hstep
  cases a with
  | read l go => exact hk
  | write l u go =>
    by_cases hl : k = l
    · have hu := (d.write i _ l u go (hs.phase i) ha).1
      have hself : (s.perform i (.write l u go)).store l = some u := Function.update_self ..
      rw [hl, hself]
      exact congrArg some (hone l u v hu (hl ▸ hs.store k v hk))
    · rw [s.perform_store_ne hl]
      exact hk

theorem run_keeps (hone : ∀ k v v', canon k v → canon k v' → v = v') {s t : Shared ι κ ν σ}
    {es : List ι} (hs : Consistent canon Fine s) (hr : (interleaving act).run s es = some t)
    {k : κ} {v : ν} (hk : s.store k = some v) : t.store k = some v := by
  have hstep : ∀ u i w, (Consistent canon Fine u ∧ u.store k = some v) →
      (interleaving act).step u i = some w → Consistent canon Fine w ∧ w.store k = some v :=
    fun u i w hu hstep => ⟨d.step hu.1 hstep, d.step_keeps hone hu.1 hstep hu.2⟩
  exact ((interleaving act).run_preserves hstep ⟨hs, hk⟩ hr).2

end Predetermined

end Outreach.Library
