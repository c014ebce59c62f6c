import Outreach.Library.Unicode

/-!
# `str.splitlines`

A text is cut at every boundary that Python knows, which are more than `'\n'`.
Lines that have none of them come back from a text in which a newline ends each.
-/

namespace Outreach.Library

set_option autoImplicit false

/-- The line boundaries of `str.splitlines`. -/
def isLineBoundary (c : Char) : Bool :=
  let n := c.toNat
  (10 ≤ n && n ≤ 13) || (28 ≤ n && n ≤ 30) || n = 0x85 || n = 0x2028 || n = 0x2029

/-- The lines from the place where `line` has been read; the last one counts unless it is
empty. -/
def splitlinesFrom (line : Text) : Text → List Text
  | [] => if line = [] then [] else [line]
  | '\r' :: '\n' :: rest => line :: splitlinesFrom [] rest
  | c :: rest =>
      if isLineBoundary c then line :: splitlinesFrom [] rest else splitlinesFrom (line ++ [c]) rest

def splitlines (text : Text) : List Text := splitlinesFrom [] text

/-- Each line with a newline after it. -/
def unlines (lines : List Text) : Text := lines.flatMap fun line => line ++ ['\n']

section Lines

variable {line rest : Text}

theorem splitlinesFrom_plain {c : Char} (h : isLineBoundary c = false) :
    splitlinesFrom line (c :: rest) = splitlinesFrom (line ++ [c]) rest := by
  have hreturn : c ≠ '\r' := by
    intro hc
    rw [hc] at h
    exact absurd h (by decide)
  rw [splitlinesFrom, if_neg (Bool.eq_false_iff.mp h)]
  intro _ hc
  exact absurd hc hreturn

theorem splitlinesFrom_newline : splitlinesFrom line ('\n' :: rest) = line :: splitlines rest := by
  rw [splitlinesFrom]
  · rfl
  · intro _ hc
    exact absurd hc (by decide)

theorem splitlinesFrom_append {text : Text} (h : ∀ c ∈ text, isLineBoundary c = false) :
    splitlinesFrom line (text ++ '\n' :: rest) = (line ++ text) :: splitlines rest := by
  induction text generalizing line with
  | nil => rw [List.nil_append, splitlinesFrom_newline, List.append_nil]
  | cons c text ih =>
    obtain ⟨hc, htext⟩ := List.forall_mem_cons.mp h
    rw [List.cons_append, splitlinesFrom_plain hc, ih htext, List.append_assoc]
    rfl

/-- Lines without a boundary are split where they were joined. -/
theorem splitlines_unlines {lines : List Text}
    (h : ∀ line ∈ lines, ∀ c ∈ line, isLineBoundary c = false) :
    splitlines (unlines lines) = lines := by
  induction lines with
  | nil => rfl
  | cons line lines ih =>
    obtain ⟨hline, hlines⟩ := List.forall_mem_cons.mp h
    have hjoin : unlines (line :: lines) = line ++ '\n' :: unlines lines := by
      rw [unlines, List.flatMap_cons, List.append_assoc]
      rfl
    rw [hjoin, splitlines, splitlinesFrom_append hline, List.nil_append, ih hlines]

end Lines

end Outreach.Library
