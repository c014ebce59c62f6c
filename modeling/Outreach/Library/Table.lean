import Mathlib.Data.List.Basic
import Mathlib.Data.List.Nodup
import Mathlib.Data.List.Induction

/-!
# Tables with serial row ids

Rows carry a numeric id; a new row gets the next number. No two rows share an
id and every id is below the counter: both proofs are fields. Rows are changed
in place by functions that keep the id, and never deleted.
-/

namespace Outreach.Library

set_option autoImplicit false

structure Table (α : Type*) (id : α → Nat) where
  rows : List α
  next : Nat
  nodup : (rows.map id).Nodup
  below : ∀ x ∈ rows, id x < next

namespace Table

variable {α : Type*} {id : α → Nat}

def empty : Table α id := ⟨[], 0, List.nodup_nil, fun _ h => absurd h List.not_mem_nil⟩

/-- `mk` builds the row from its id. -/
def append (t : Table α id) (mk : Nat → α) (hmk : ∀ n, id (mk n) = n) : Table α id where
  rows := t.rows ++ [mk t.next]
  next := t.next + 1
  nodup := by
    rw [List.map_append, List.map_singleton, hmk]
    refine t.nodup.append (List.nodup_singleton _) (List.disjoint_singleton.mpr fun h => ?_)
    obtain ⟨x, hx, he⟩ := List.mem_map.mp h
    have hlt := t.below x hx
    omega
  below x hx := by
    rcases List.mem_append.mp hx with hx | hx
    · have hlt := t.below x hx
      omega
    · rw [List.mem_singleton.mp hx, hmk]
      omega

def modify (t : Table α id) (f : α → α) (hf : ∀ x, id (f x) = id x) : Table α id where
  rows := t.rows.map f
  next := t.next
  nodup := by
    have hid : (t.rows.map f).map id = t.rows.map id := by
      rw [List.map_map]
      exact List.map_congr_left fun x _ => hf x
    rw [hid]
    exact t.nodup
  below x hx := by
    obtain ⟨y, hy, rfl⟩ := List.mem_map.mp hx
    rw [hf]
    exact t.below y hy

theorem eq_of_id_eq (t : Table α id) {x y : α} (hx : x ∈ t.rows) (hy : y ∈ t.rows)
    (h : id x = id y) : x = y := List.inj_on_of_nodup_map t.nodup hx hy h

end Table

/-- The first in an order, the earlier of two that are level: `ORDER BY .. LIMIT 1`. -/
def limitOne {α : Type*} (before : α → α → Bool) (l : List α) : Option α :=
  l.foldl (fun best x =>
    match best with
    | none => some x
    | some b => if before x b then some x else some b) none

theorem limitOne_mem {α : Type*} {before : α → α → Bool} {l : List α} {a : α}
    (h : limitOne before l = some a) : a ∈ l := by
  induction l using List.reverseRecOn with
  | nil => exact nomatch h
  | append_singleton l x ih =>
    rw [limitOne, List.foldl_append] at h
    change (match limitOne before l with
      | none => some x
      | some b => if before x b then some x else some b) = some a at h
    cases hb : limitOne before l with
    | none =>
      rw [hb] at h
      cases h
      exact List.mem_append_right l (List.mem_singleton_self _)
    | some b =>
      rw [hb] at h
      simp only at h
      split at h
      · cases h
        exact List.mem_append_right l (List.mem_singleton_self _)
      · cases h
        exact List.mem_append_left _ (ih hb)

theorem limitOne_isSome {α : Type*} {before : α → α → Bool} {l : List α} :
    (limitOne before l).isSome = true ↔ ∃ a, a ∈ l := by
  induction l using List.reverseRecOn with
  | nil => exact iff_of_false Bool.false_ne_true fun h => nomatch h.choose_spec
  | append_singleton l x ih =>
    apply iff_of_true _ ⟨x, List.mem_append_right l (List.mem_singleton_self x)⟩
    rw [limitOne, List.foldl_append]
    show (match limitOne before l with
      | none => some x
      | some b => if before x b then some x else some b).isSome = true
    cases limitOne before l with
    | none => rfl
    | some b =>
      simp only
      split <;> rfl

end Outreach.Library
