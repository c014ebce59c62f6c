import Mathlib.Data.List.Sort
import Mathlib.Data.List.Lex
import Mathlib.Data.Char

/-!
# Paged listings and instants

A listing returns the keys after a token, in order, a page at a time; the next
token is the last key of the page. A key after the token is in the page or after
the next token (`mem_page_or_after`), so a key that is present throughout is
never skipped. An instant is a local clock reading with an offset.
-/

namespace Outreach.Library

set_option autoImplicit false

section Listing

variable {κ : Type*} [LinearOrder κ]

def after (token : Option κ) (k : κ) : Bool :=
  match token with
  | none => true
  | some t => decide (t < k)

def keysAfter (token : Option κ) (keys : List κ) : List κ :=
  (keys.filter (after token)).insertionSort (· ≤ ·)

/-- The first `n` keys after the token. -/
def pageAfter (token : Option κ) (n : Nat) (keys : List κ) : List κ := (keysAfter token keys).take n

/-- `IsTruncated` -/
def isTruncated (token : Option κ) (n : Nat) (keys : List κ) : Bool :=
  decide (n < (keysAfter token keys).length)

/-- The last key of the page; an empty page leaves the token. -/
def nextToken (token : Option κ) (n : Nat) (keys : List κ) : Option κ :=
  (pageAfter token n keys).getLast?.or token

theorem mem_keysAfter {token : Option κ} {keys : List κ} {k : κ} :
    k ∈ keysAfter token keys ↔ k ∈ keys ∧ after token k = true := by
  rw [keysAfter, List.mem_insertionSort, List.mem_filter]

theorem keysAfter_sorted (token : Option κ) {keys : List κ} (hn : keys.Nodup) :
    (keysAfter token keys).Pairwise (· < ·) := by
  have hle : (keysAfter token keys).Pairwise (· ≤ ·) :=
    List.pairwise_insertionSort (· ≤ ·) _
  have hne : (keysAfter token keys).Pairwise (· ≠ ·) :=
    (List.perm_insertionSort (· ≤ ·) _).nodup_iff.mpr (hn.filter _)
  exact (hle.and hne).imp fun h => lt_of_le_of_ne h.1 h.2

/-- No key is skipped between two pages. -/
theorem mem_page_or_after {token : Option κ} {n : Nat} {keys : List κ} {k : κ}
    (hn : keys.Nodup) (hk : k ∈ keys) (ha : after token k = true) :
    k ∈ pageAfter token n keys ∨
      (isTruncated token n keys = true ∧ after (nextToken token n keys) k = true) := by
  have hmem : k ∈ keysAfter token keys := mem_keysAfter.mpr ⟨hk, ha⟩
  have hsorted := keysAfter_sorted token hn
  rw [← List.take_append_drop n (keysAfter token keys)] at hmem hsorted
  rcases List.mem_append.mp hmem with htake | hdrop
  · exact Or.inl htake
  · right
    constructor
    · have hlen := List.length_pos_of_mem hdrop
      rw [List.length_drop] at hlen
      exact decide_eq_true (by omega)
    · unfold nextToken pageAfter
      cases hl : ((keysAfter token keys).take n).getLast? with
      | none => exact ha
      | some t =>
        have ht : t ∈ (keysAfter token keys).take n := List.mem_of_getLast? hl
        exact decide_eq_true ((List.pairwise_append.mp hsorted).2.2 t ht k hdrop)

end Listing

/-- A `datetime`: the wall clock in microseconds, with the offset when it is aware. -/
structure DateTime where
  clock : Int
  offset : Option Int
  deriving DecidableEq, Repr

/-- An aware `datetime`; comparisons and differences go by its instant. -/
structure Aware where
  clock : Int
  offset : Int
  deriving DecidableEq, Repr

namespace DateTime

def aware (d : DateTime) : Option Aware := d.offset.map fun o => ⟨d.clock, o⟩

end DateTime

def Aware.instant (a : Aware) : Int := a.clock - a.offset

/-- `a - b`; `none` is the `TypeError` for an aware and a naive operand. -/
def DateTime.sub (a b : DateTime) : Option Int :=
  match a.offset, b.offset with
  | some o, some p => some ((a.clock - o) - (b.clock - p))
  | none, none => some (a.clock - b.clock)
  | _, _ => none

end Outreach.Library
