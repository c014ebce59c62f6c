/-!
# Computations over a script

A computation with a state returns or raises; either way the state stays as far
as it got. Where what it returns depends on a position in the state only, its
returns are a relation between two positions and a value, and the relation of a
sequence is the composition of the relations of its parts. What it adds to a log
is put together the same way.
-/

namespace Outreach.Library

set_option autoImplicit false

section Script

variable {ε σ ι α β : Type}

/-- The computation returns `a` and leaves the state `t`. -/
def Yields (x : ExceptT ε (StateM σ) α) (s : σ) (a : α) (t : σ) : Prop := x.run s = (.ok a, t)

theorem Yields.unique {x : ExceptT ε (StateM σ) α} {s t t' : σ} {a a' : α} (h : Yields x s a t)
    (h' : Yields x s a' t') : a = a' ∧ t = t' := by
  have he : ((Except.ok a, t) : Except ε α × σ) = (.ok a', t') := h.symm.trans h'
  injection he with ha ht
  injection ha with ha
  exact ⟨ha, ht⟩

theorem yields_pure {s t : σ} {a b : α} :
    Yields (pure b : ExceptT ε (StateM σ) α) s a t ↔ b = a ∧ s = t := by
  constructor
  · intro h
    exact Yields.unique (x := (pure b : ExceptT ε (StateM σ) α)) rfl h
  · intro h
    obtain ⟨rfl, rfl⟩ := h
    rfl

theorem not_yields_throw {s t : σ} {a : α} {e : ε} :
    ¬ Yields (throw e : ExceptT ε (StateM σ) α) s a t := by
  intro h
  have he : ((Except.error e, s) : Except ε α × σ) = (.ok a, t) := h
  injection he with ha
  exact nomatch ha

theorem run_bind (x : ExceptT ε (StateM σ) α) (f : α → ExceptT ε (StateM σ) β) (s : σ) :
    (x >>= f).run s = (match x.run s with
      | (.ok a, t) => (f a).run t
      | (.error e, t) => (.error e, t)) := by
  show ExceptT.bindCont f (x.run s).1 (x.run s).2 = _
  cases x.run s with
  | mk r t => cases r <;> rfl

theorem yields_bind {x : ExceptT ε (StateM σ) α} {f : α → ExceptT ε (StateM σ) β} {s u : σ} {b : β} :
    Yields (x >>= f) s b u ↔ ∃ a t, Yields x s a t ∧ Yields (f a) t b u := by
  unfold Yields
  rw [run_bind]
  constructor
  · intro h
    cases hx : x.run s with
    | mk r t =>
      rw [hx] at h
      cases r with
      | ok a => exact ⟨a, t, rfl, h⟩
      | error e =>
        injection h with he
        exact nomatch he
  · intro h
    obtain ⟨a, t, ha, hb⟩ := h
    rw [ha]
    exact hb

/-- The returns of the computation are `S`, between the positions before and after. -/
def Follows (pos : σ → ι) (x : ExceptT ε (StateM σ) α) (S : ι → ι → α → Prop) : Prop :=
  ∀ s a j, (∃ t, Yields x s a t ∧ pos t = j) ↔ S (pos s) j a

namespace Follows

variable {pos : σ → ι} {x : ExceptT ε (StateM σ) α} {S S' : ι → ι → α → Prop}

theorem congr (h : Follows pos x S) (he : ∀ i j a, S i j a ↔ S' i j a) : Follows pos x S' :=
  fun s a j => (h s a j).trans (he (pos s) j a)

/-- The rule for a primitive: from each state it returns at most one thing. -/
theorem of_run (h : ∀ s, match x.run s with
    | (.ok b, t) => ∀ a j, S (pos s) j a ↔ b = a ∧ pos t = j
    | (.error _, _) => ∀ a j, ¬ S (pos s) j a) : Follows pos x S := by
  intro s a j
  have hs := h s
  unfold Yields
  cases hx : x.run s with
  | mk r t =>
    rw [hx] at hs
    cases r with
    | error e =>
      refine iff_of_false (fun h => ?_) (hs a j)
      obtain ⟨u, hu, -⟩ := h
      injection hu with hu
      exact nomatch hu
    | ok b =>
      rw [hs a j]
      constructor
      · intro h
        obtain ⟨u, hu, rfl⟩ := h
        injection hu with hb ht
        exact ⟨Except.ok.inj hb, congrArg pos ht⟩
      · intro h
        obtain ⟨rfl, rfl⟩ := h
        exact ⟨t, rfl, rfl⟩

theorem pure (b : α) :
    Follows pos (Pure.pure b : ExceptT ε (StateM σ) α) fun i j a => i = j ∧ a = b := by
  intro s a j
  constructor
  · intro h
    obtain ⟨t, ht, rfl⟩ := h
    obtain ⟨rfl, rfl⟩ := yields_pure.mp ht
    exact ⟨rfl, rfl⟩
  · intro h
    obtain ⟨rfl, rfl⟩ := h
    exact ⟨s, yields_pure.mpr ⟨rfl, rfl⟩, rfl⟩

theorem throw (e : ε) :
    Follows pos (MonadExcept.throw e : ExceptT ε (StateM σ) α) fun _ _ _ => False := by
  intro s a j
  refine iff_of_false (fun h => ?_) id
  obtain ⟨t, ht, -⟩ := h
  exact not_yields_throw ht

theorem bind {f : α → ExceptT ε (StateM σ) β} {T : α → ι → ι → β → Prop} (hx : Follows pos x S)
    (hf : ∀ a, Follows pos (f a) (T a)) :
    Follows pos (x >>= f) fun i j b => ∃ a k, S i k a ∧ T a k j b := by
  intro s b j
  constructor
  · intro h
    obtain ⟨u, hu, rfl⟩ := h
    obtain ⟨a, t, ht, hb⟩ := yields_bind.mp hu
    exact ⟨a, pos t, (hx s a (pos t)).mp ⟨t, ht, rfl⟩, (hf a t b (pos u)).mp ⟨u, hb, rfl⟩⟩
  · intro h
    obtain ⟨a, k, ha, hb⟩ := h
    obtain ⟨t, ht, rfl⟩ := (hx s a k).mpr ha
    obtain ⟨u, hu, rfl⟩ := (hf a t b j).mpr hb
    exact ⟨u, yields_bind.mpr ⟨a, t, ht, hu⟩, rfl⟩

/-- Nothing but the position decides. -/
theorem unique (h : Follows pos x S) (s : σ) {a a' : α} {j j' : ι} (ha : S (pos s) j a)
    (ha' : S (pos s) j' a') : a = a' ∧ j = j' := by
  obtain ⟨t, ht, rfl⟩ := (h s a j).mpr ha
  obtain ⟨t', ht', rfl⟩ := (h s a' j').mpr ha'
  obtain ⟨rfl, rfl⟩ := ht.unique ht'
  exact ⟨rfl, rfl⟩

end Follows

/-- What a return adds to the log of the state. -/
def Traces {τ : Type} (log : σ → List τ) (x : ExceptT ε (StateM σ) α) (Q : α → List τ → Prop) :
    Prop :=
  ∀ s a t, Yields x s a t → ∃ l, log t = log s ++ l ∧ Q a l

namespace Traces

variable {τ : Type} {log : σ → List τ} {x : ExceptT ε (StateM σ) α} {Q Q' : α → List τ → Prop}

theorem mono (h : Traces log x Q) (hi : ∀ a l, Q a l → Q' a l) : Traces log x Q' := by
  intro s a t hyields
  obtain ⟨l, hlog, hq⟩ := h s a t hyields
  exact ⟨l, hlog, hi a l hq⟩

theorem pure (b : α) :
    Traces log (Pure.pure b : ExceptT ε (StateM σ) α) fun a l => a = b ∧ l = [] := by
  intro s a t h
  obtain ⟨rfl, rfl⟩ := yields_pure.mp h
  exact ⟨[], (List.append_nil _).symm, rfl, rfl⟩

theorem throw (e : ε) :
    Traces log (MonadExcept.throw e : ExceptT ε (StateM σ) α) fun _ _ => False :=
  fun _ _ _ h => absurd h not_yields_throw

theorem bind {f : α → ExceptT ε (StateM σ) β} {R : α → β → List τ → Prop} (hx : Traces log x Q)
    (hf : ∀ a, Traces log (f a) (R a)) :
    Traces log (x >>= f) fun b l => ∃ a l₁ l₂, Q a l₁ ∧ R a b l₂ ∧ l = l₁ ++ l₂ := by
  intro s b u h
  obtain ⟨a, t, ha, hb⟩ := yields_bind.mp h
  obtain ⟨l₁, h₁, hq⟩ := hx s a t ha
  obtain ⟨l₂, h₂, hr⟩ := hf a t b u hb
  exact ⟨l₁ ++ l₂, by rw [h₂, h₁, List.append_assoc], a, l₁, l₂, hq, hr, rfl⟩

end Traces

end Script

end Outreach.Library
