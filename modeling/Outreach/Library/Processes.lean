import Outreach.Library.Machine
import Mathlib.Logic.Function.Basic

/-!
# Processes over a shared store

A process reads or writes one object at a time and goes on with what it saw; an
interleaving of any number of them is a run of the machine whose labels say who
moves. Where every process keeps to its footprint and nobody touches what another
one writes, no interleaving can be told from the process running alone.
-/

namespace Outreach.Library

set_option autoImplicit false

/-- The next access of a process, and where it goes from there. -/
inductive StoreAction (κ ν σ : Type*) where
  | read (key : κ) (go : Option ν → σ)
  | write (key : κ) (value : ν) (go : σ)

namespace StoreAction

variable {κ ν σ : Type*}

def key : StoreAction κ ν σ → κ
  | .read k _ => k
  | .write k _ _ => k

def writes : StoreAction κ ν σ → Bool
  | .read _ _ => false
  | .write _ _ _ => true

/-- Where the process goes; `seen` is the object it accessed. -/
def next (seen : Option ν) : StoreAction κ ν σ → σ
  | .read _ go => go seen
  | .write _ _ go => go

end StoreAction

/-- Who accessed which object, and whether it was written. -/
structure Access (ι κ : Type*) where
  party : ι
  key : κ
  isWrite : Bool

/-- Nobody reads or overwrites an object that another party wrote before. -/
def Undisturbed {ι κ : Type*} (accesses : List (Access ι κ)) : Prop :=
  accesses.Pairwise fun w a => w.isWrite = true → w.key = a.key → w.party = a.party

structure Shared (ι κ ν σ : Type*) where
  phase : ι → σ
  store : κ → Option ν

section Interleaving

variable {ι κ ν σ : Type*} [DecidableEq ι] [DecidableEq κ]

namespace Shared

variable (s : Shared ι κ ν σ)

def perform (i : ι) (a : StoreAction κ ν σ) : Shared ι κ ν σ where
  phase := Function.update s.phase i (a.next (s.store a.key))
  store :=
    match a with
    | .read _ _ => s.store
    | .write k v _ => Function.update s.store k (some v)

theorem perform_phase_self (i : ι) (a : StoreAction κ ν σ) :
    (s.perform i a).phase i = a.next (s.store a.key) := Function.update_self _ _ _

theorem perform_phase_ne {i j : ι} (a : StoreAction κ ν σ) (h : j ≠ i) :
    (s.perform i a).phase j = s.phase j := Function.update_of_ne h _ _

theorem perform_store_of_read {i : ι} {a : StoreAction κ ν σ} (h : a.writes = false) :
    (s.perform i a).store = s.store := by
  cases a with
  | read k go => rfl
  | write k v go => exact nomatch h

theorem perform_store_ne {i : ι} {a : StoreAction κ ν σ} {k : κ} (h : k ≠ a.key) :
    (s.perform i a).store k = s.store k := by
  cases a with
  | read l go => rfl
  | write l v go => exact Function.update_of_ne h _ _

/-- The same access in two states that agree on its object does the same. -/
theorem perform_congr {s u : Shared ι κ ν σ} {i : ι} (a : StoreAction κ ν σ)
    (hkey : s.store a.key = u.store a.key) :
    (s.perform i a).phase i = (u.perform i a).phase i ∧
      ∀ k, s.store k = u.store k → (s.perform i a).store k = (u.perform i a).store k := by
  constructor
  · rw [perform_phase_self, perform_phase_self, hkey]
  · intro k hk
    cases a with
    | read l go => exact hk
    | write l v go =>
      show Function.update s.store l (some v) k = Function.update u.store l (some v) k
      by_cases hkl : k = l
      · rw [hkl, Function.update_self, Function.update_self]
      · rw [Function.update_of_ne hkl, Function.update_of_ne hkl, hk]

end Shared

variable (act : ι → σ → Option (StoreAction κ ν σ))

/-- All interleavings: a label names the party that makes its next access. -/
def interleaving : Machine (Shared ι κ ν σ) ι where
  step s i := (act i (s.phase i)).map (s.perform i)

theorem interleaving_step {s t : Shared ι κ ν σ} {i : ι} :
    (interleaving act).step s i = some t ↔
      ∃ a, act i (s.phase i) = some a ∧ s.perform i a = t := Option.map_eq_some_iff

def access (s : Shared ι κ ν σ) (i : ι) : Option (Access ι κ) :=
  (act i (s.phase i)).map fun a => ⟨i, a.key, a.writes⟩

/-- The accesses of a run, in order. -/
def accesses (s : Shared ι κ ν σ) (es : List ι) : List (Access ι κ) :=
  (interleaving act).observe (access act) s es

theorem accesses_cons {s t : Shared ι κ ν σ} {i : ι} {a : StoreAction κ ν σ} (es : List ι)
    (ha : act i (s.phase i) = some a) (ht : s.perform i a = t) :
    accesses act s (i :: es) = ⟨i, a.key, a.writes⟩ :: accesses act t es := by
  have hstep : (interleaving act).step s i = some t := (interleaving_step act).mpr ⟨a, ha, ht⟩
  rw [accesses, Machine.observe, hstep, access, ha]
  rfl

/-- Party `i` ends where its own steps alone take it, and so do the objects it accessed. -/
def EndsAlone (s : Shared ι κ ν σ) (es : List ι) (t : Shared ι κ ν σ) (i : ι) : Prop :=
  ∃ u, (interleaving act).run s (es.filter fun j => decide (j = i)) = some u ∧
    t.phase i = u.phase i ∧
      ∀ a ∈ accesses act s es, a.party = i → t.store a.key = u.store a.key

/-- Whatever the interleaving, the parties from `s` do not disturb each other. -/
def Isolated (s : Shared ι κ ν σ) : Prop :=
  ∀ es t, (interleaving act).run s es = some t →
    Undisturbed (accesses act s es) ∧ ∀ i, EndsAlone act s es t i

/-- Party `i` is in the same phase in both states, and they agree on the objects of `F`. -/
def AgreesOn (F : κ → Prop) (i : ι) (s u : Shared ι κ ν σ) : Prop :=
  s.phase i = u.phase i ∧ ∀ k, F k → s.store k = u.store k

/-- The parties keep to footprints that keep them apart, as long as `Good` holds. -/
structure Confined (Good : Shared ι κ ν σ → Prop) (Touches Writes : ι → κ → Prop) : Prop where
  step : ∀ s i t, Good s → (interleaving act).step s i = some t → Good t
  touches : ∀ s i a, Good s → act i (s.phase i) = some a → Touches i a.key
  writes : ∀ s i a, Good s → act i (s.phase i) = some a → a.writes = true → Writes i a.key
  apart : ∀ i j k, Writes i k → Touches j k → i = j

namespace Confined

variable {act} {Good : Shared ι κ ν σ → Prop} {Touches Writes : ι → κ → Prop}
  (c : Confined act Good Touches Writes)

include c

/-- Every access of a run lies in the footprint of its party. -/
theorem accesses_within {s t : Shared ι κ ν σ} {es : List ι} (hs : Good s)
    (hr : (interleaving act).run s es = some t) :
    ∀ a ∈ accesses act s es,
      Touches a.party a.key ∧ (a.isWrite = true → Writes a.party a.key) := by
  have hstep : ∀ (seen : List (Access ι κ)) s i t,
      (Good s ∧ ∀ a ∈ seen, Touches a.party a.key ∧ (a.isWrite = true → Writes a.party a.key)) →
      True → (interleaving act).step s i = some t →
      Good t ∧ ∀ a ∈ seen ++ (access act s i).toList,
        Touches a.party a.key ∧ (a.isWrite = true → Writes a.party a.key) := by
    intro seen s i t hq _ hstep
    obtain ⟨a, ha, -⟩ := (interleaving_step act).mp hstep
    refine ⟨c.step s i t hq.1 hstep, fun b hb => ?_⟩
    rw [access, ha, Option.map_some, Option.toList_some, List.mem_append] at hb
    rcases hb with hb | hb
    · exact hq.2 b hb
    · obtain rfl := List.mem_singleton.mp hb
      exact ⟨c.touches s i a hq.1 ha, c.writes s i a hq.1 ha⟩
  have hall : (interleaving act).Along (fun _ _ => True) s es :=
    (interleaving act).along_of_forall fun _ _ _ => trivial
  have hstart : Good s ∧ ∀ a ∈ ([] : List (Access ι κ)),
      Touches a.party a.key ∧ (a.isWrite = true → Writes a.party a.key) :=
    ⟨hs, fun a ha => nomatch ha⟩
  exact ((interleaving act).run_observe (access act) hstep hstart hall hr).2

theorem undisturbed {s t : Shared ι κ ν σ} {es : List ι} (hs : Good s)
    (hr : (interleaving act).run s es = some t) : Undisturbed (accesses act s es) := by
  have hwithin := c.accesses_within hs hr
  refine List.pairwise_of_forall_mem_list fun w hw a ha hwrite hkey => ?_
  apply c.apart w.party a.party w.key
  · exact (hwithin w hw).2 hwrite
  · rw [hkey]
    exact (hwithin a ha).1

/-- A step of another party writes nothing that `i` touches. -/
theorem step_other {s t u : Shared ι κ ν σ} {i j : ι} (hs : Good s)
    (h : AgreesOn (Touches i) i s u) (hne : j ≠ i)
    (hstep : (interleaving act).step s j = some t) : AgreesOn (Touches i) i t u := by
  obtain ⟨a, ha, rfl⟩ := (interleaving_step act).mp hstep
  constructor
  · rw [s.perform_phase_ne a hne.symm]
    exact h.1
  · intro k hk
    rw [← h.2 k hk]
    cases hw : a.writes with
    | false => rw [s.perform_store_of_read hw]
    | true =>
      apply s.perform_store_ne
      intro he
      exact hne (c.apart j i k (he ▸ c.writes s j a hs ha hw) hk)

/-- A step of `i` itself is the same step where the others are left out. -/
theorem step_own {s t u : Shared ι κ ν σ} {i : ι} (hs : Good s)
    (h : AgreesOn (Touches i) i s u) (hstep : (interleaving act).step s i = some t) :
    ∃ v, (interleaving act).step u i = some v ∧ AgreesOn (Touches i) i t v := by
  obtain ⟨a, ha, rfl⟩ := (interleaving_step act).mp hstep
  have hsame := Shared.perform_congr (i := i) a (h.2 a.key (c.touches s i a hs ha))
  have hu : act i (u.phase i) = some a := h.1 ▸ ha
  refine ⟨u.perform i a, (interleaving_step act).mpr ⟨a, hu, rfl⟩, hsame.1, fun k hk => ?_⟩
  exact hsame.2 k (h.2 k hk)

/-- The steps of the others can be left out: party `i` sees the same on its footprint. -/
theorem run_alone {s t : Shared ι κ ν σ} {es : List ι} (hs : Good s)
    (hr : (interleaving act).run s es = some t) (i : ι) :
    ∃ u, (interleaving act).run s (es.filter fun j => decide (j = i)) = some u ∧
      AgreesOn (Touches i) i t u := by
  have hfilter : (es.filter fun j => decide (j = i)) = es.filter fun j => !decide (j ≠ i) := by
    apply List.filter_congr
    intro j _
    simp
  have hother : ∀ s j t u, (Good s ∧ AgreesOn (Touches i) i s u) → decide (j ≠ i) = true →
      (interleaving act).step s j = some t → Good t ∧ AgreesOn (Touches i) i t u := by
    intro s j t u hR hj hstep
    exact ⟨c.step s j t hR.1 hstep, c.step_other hR.1 hR.2 (of_decide_eq_true hj) hstep⟩
  have hown : ∀ s j t u, (Good s ∧ AgreesOn (Touches i) i s u) → decide (j ≠ i) = false →
      (interleaving act).step s j = some t →
      ∃ v, (interleaving act).step u j = some v ∧ (Good t ∧ AgreesOn (Touches i) i t v) := by
    intro s j t u hR hj hstep
    obtain rfl : j = i := not_not.mp (of_decide_eq_false hj)
    obtain ⟨v, hv, hagree⟩ := c.step_own hR.1 hR.2 hstep
    exact ⟨v, hv, c.step s j t hR.1 hstep, hagree⟩
  rw [hfilter]
  obtain ⟨u, hu, -, hagree⟩ :=
    (interleaving act).run_erase hother hown ⟨hs, rfl, fun _ _ => rfl⟩ hr
  exact ⟨u, hu, hagree⟩

/-- Footprints that are apart isolate the parties from each other. -/
theorem isolated {s : Shared ι κ ν σ} (hs : Good s) : Isolated act s := by
  intro es t hr
  refine ⟨c.undisturbed hs hr, fun i => ?_⟩
  obtain ⟨u, hu, hagree⟩ := c.run_alone hs hr i
  refine ⟨u, hu, hagree.1, fun a ha hi => ?_⟩
  apply hagree.2
  rw [← hi]
  exact (c.accesses_within hs hr a ha).1

end Confined

end Interleaving

end Outreach.Library
