import Mathlib.Data.List.Basic

/-!
# Text, compatibility normalization, case and UTF-16

The character tables are data (`UnicodeData`); the algorithms over them are the
standard ones. `nfkc` decomposes, orders the combining marks and composes;
`casefold` maps each character; `lower` maps each character except for a capital
sigma, whose lower case depends on its neighbours. Nothing is said here about
the contents of the tables beyond what a lemma names.
-/

namespace Outreach.Library

set_option autoImplicit false

/-- A text is the list of its Unicode scalar values. -/
abbrev Text := List Char

/-- The per-character tables, read beyond ASCII only: ASCII itself is computed. -/
structure UnicodeData where
  /-- full compatibility decomposition -/
  decompTable : Char → Text
  /-- canonical combining class; 0 for a starter -/
  cccTable : Char → Nat
  /-- primary composite of a starter and a following character -/
  composeTable : Char → Char → Option Char
  foldCaseTable : Char → Text
  lowerCaseTable : Char → Text
  cased : Char → Bool
  caseIgnorable : Char → Bool
  /-- `str.isalnum` -/
  alnumTable : Char → Bool
  /-- `Character.isLetterOrDigit` -/
  letterOrDigitTable : Char → Bool
  /-- `str.isdecimal` -/
  decimalTable : Char → Bool

def isAscii (c : Char) : Bool := c.toNat < 128

namespace UnicodeData

variable (U : UnicodeData)

def decomp (c : Char) : Text := if isAscii c then [c] else U.decompTable c

def ccc (c : Char) : Nat := if isAscii c then 0 else U.cccTable c

/-- No composite has an ASCII character in second place. -/
def compose (a b : Char) : Option Char := if isAscii b then none else U.composeTable a b

def foldCase (c : Char) : Text := if isAscii c then [c.toLower] else U.foldCaseTable c

def lowerCase (c : Char) : Text := if isAscii c then [c.toLower] else U.lowerCaseTable c

def alnum (c : Char) : Bool := if isAscii c then c.isAlphanum else U.alnumTable c

def letterOrDigit (c : Char) : Bool := if isAscii c then c.isAlphanum else U.letterOrDigitTable c

def decimal (c : Char) : Bool := if isAscii c then c.isDigit else U.decimalTable c

def insertMark (c : Char) : Text → Text
  | [] => [c]
  | m :: ms => if U.ccc c < U.ccc m then c :: m :: ms else m :: insertMark c ms

/-- Canonical ordering: each maximal run of marks is sorted stably by class. -/
def reorder : Text → Text → Text
  | marks, [] => marks
  | marks, c :: cs =>
      if U.ccc c = 0 then marks ++ c :: reorder [] cs else reorder (U.insertMark c marks) cs

/-- A mark is blocked from its starter by a kept mark of the same or a higher class. -/
def blocked (marks : Text) (c : Char) : Bool :=
  match marks.getLast? with
  | none => false
  | some m => decide (U.ccc c ≤ U.ccc m)

def composeFrom : Char → Text → Text → Text
  | s, marks, [] => s :: marks
  | s, marks, c :: cs =>
      match (if U.blocked marks c then none else U.compose s c) with
      | some d => composeFrom d marks cs
      | none =>
          if U.ccc c = 0 then s :: (marks ++ composeFrom c [] cs)
          else composeFrom s (marks ++ [c]) cs

def composeAll : Text → Text
  | [] => []
  | c :: cs => if U.ccc c = 0 then U.composeFrom c [] cs else c :: composeAll cs

def nfkc (s : Text) : Text := U.composeAll (U.reorder [] (s.flatMap U.decomp))

def casefold (s : Text) : Text := s.flatMap U.foldCase

/-- A capital sigma ends a word: a cased letter before it, none after it. -/
def finalSigma (before after : Text) : Bool :=
  ((before.dropWhile U.caseIgnorable).head?.map U.cased).getD false &&
    !((after.dropWhile U.caseIgnorable).head?.map U.cased).getD false

def lowerFrom : Text → Text → Text
  | _, [] => []
  | before, c :: cs =>
      (if c = 'Σ' then [if U.finalSigma before cs then 'ς' else 'σ'] else U.lowerCase c) ++
        lowerFrom (c :: before) cs

def lower (s : Text) : Text := U.lowerFrom [] s

/-- Normalization is one character to one on text whose decompositions are
single starters among which nothing composes. -/
theorem composeFrom_inert (cs marks : Text) (s : Char) (hm : marks = [])
    (hccc : ∀ c ∈ cs, U.ccc c = 0) (hs : ∀ a ∈ s :: cs, ∀ b ∈ cs, U.compose a b = none) :
    U.composeFrom s marks cs = s :: cs := by
  subst hm
  induction cs generalizing s with
  | nil => rfl
  | cons c cs ih =>
    have hc : U.compose s c = none := hs s List.mem_cons_self c List.mem_cons_self
    have hrest := ih c (fun d hd => hccc d (List.mem_cons_of_mem c hd))
      (fun a ha b hb => hs a (List.mem_cons_of_mem s ha) b (List.mem_cons_of_mem c hb))
    have hb : U.blocked [] c = false := rfl
    rw [composeFrom, hb, if_neg Bool.false_ne_true, hc]
    simp only [hccc c List.mem_cons_self, if_true, List.nil_append, hrest]

theorem reorder_starters (cs : Text) (hccc : ∀ c ∈ cs, U.ccc c = 0) : U.reorder [] cs = cs := by
  induction cs with
  | nil => rfl
  | cons c cs ih =>
    rw [reorder, if_pos (hccc c List.mem_cons_self), List.nil_append,
      ih fun d hd => hccc d (List.mem_cons_of_mem c hd)]

theorem composeAll_inert (cs : Text) (hccc : ∀ c ∈ cs, U.ccc c = 0)
    (hs : ∀ a ∈ cs, ∀ b ∈ cs, U.compose a b = none) : U.composeAll cs = cs := by
  cases cs with
  | nil => rfl
  | cons c cs =>
    rw [composeAll, if_pos (hccc c List.mem_cons_self)]
    exact U.composeFrom_inert cs [] c rfl (fun d hd => hccc d (List.mem_cons_of_mem c hd))
      fun a ha b hb => hs a ha b (List.mem_cons_of_mem c hb)

theorem nfkc_of_inert (f : Char → Char) (s : Text) (hd : ∀ c ∈ s, U.decomp c = [f c])
    (hccc : ∀ c ∈ s, U.ccc (f c) = 0) (hs : ∀ a ∈ s, ∀ b ∈ s, U.compose (f a) (f b) = none) :
    U.nfkc s = s.map f := by
  have hflat : s.flatMap U.decomp = s.map f := by
    rw [← List.flatMap_singleton' (l := s.map f), List.flatMap_map]
    exact List.flatMap_congr fun c hc => hd c hc
  have hz : ∀ c ∈ s.map f, U.ccc c = 0 := by
    intro c hc
    obtain ⟨a, ha, rfl⟩ := List.mem_map.mp hc
    exact hccc a ha
  rw [nfkc, hflat, U.reorder_starters _ hz, U.composeAll_inert _ hz]
  intro x hx y hy
  obtain ⟨a, ha, rfl⟩ := List.mem_map.mp hx
  obtain ⟨b, hb, rfl⟩ := List.mem_map.mp hy
  exact hs a ha b hb

/-- ASCII text is its own normal form, whatever the tables. -/
theorem nfkc_ascii (s : Text) (hs : ∀ c ∈ s, isAscii c = true) : U.nfkc s = s := by
  have h := U.nfkc_of_inert id s (fun c hc => if_pos (hs c hc)) (fun c hc => if_pos (hs c hc))
    fun a _ b hb => if_pos (hs b hb)
  rwa [List.map_id] at h

/-- Each character of the lower-cased text comes from the tables, or is a sigma. -/
theorem lowerFrom_of_no_sigma (before s : Text) (hs : 'Σ' ∉ s) :
    U.lowerFrom before s = s.flatMap U.lowerCase := by
  induction s generalizing before with
  | nil => rfl
  | cons c cs ih =>
    rw [List.mem_cons, not_or] at hs
    rw [lowerFrom, if_neg (Ne.symm hs.1), ih _ hs.2, List.flatMap_cons]

theorem lower_ascii (s : Text) (hs : ∀ c ∈ s, isAscii c = true) : U.lower s = s.map Char.toLower := by
  have hsigma : 'Σ' ∉ s := fun h => absurd (hs _ h) (by decide)
  rw [lower, lowerFrom_of_no_sigma U [] s hsigma, ← List.flatMap_singleton' (s.map Char.toLower),
    List.flatMap_map]
  exact List.flatMap_congr fun c hc => if_pos (hs c hc)

/-- Tables under which every character beyond ASCII stands for itself. -/
def plain : UnicodeData where
  decompTable c := [c]
  cccTable _ := 0
  composeTable _ _ := none
  foldCaseTable c := [c]
  lowerCaseTable c := [c]
  cased _ := false
  caseIgnorable _ := false
  alnumTable _ := false
  letterOrDigitTable _ := false
  decimalTable _ := false

end UnicodeData

/-- The characters that `str.isspace` and `str.strip` treat as white space. -/
def isSpace (c : Char) : Bool :=
  let n := c.toNat
  (9 ≤ n && n ≤ 13) || (28 ≤ n && n ≤ 32) || n = 0x85 || n = 0xA0 || n = 0x1680 ||
    (0x2000 ≤ n && n ≤ 0x200A) || n = 0x2028 || n = 0x2029 || n = 0x202F || n = 0x205F || n = 0x3000

/-- Drop the leading and trailing symbols that satisfy `p`. -/
def stripBy {α : Type*} (p : α → Bool) (s : List α) : List α :=
  ((s.dropWhile p).reverse.dropWhile p).reverse

theorem stripBy_of_none {α : Type*} {p : α → Bool} {s : List α} (h : ∀ c ∈ s, p c = false) :
    stripBy p s = s := by
  have hdrop : ∀ t : List α, (∀ c ∈ t, p c = false) → t.dropWhile p = t := by
    intro t ht
    cases t with
    | nil => rfl
    | cons c cs => rw [List.dropWhile_cons, ht c List.mem_cons_self, if_neg Bool.false_ne_true]
  rw [stripBy, hdrop s h, hdrop s.reverse fun c hc => h c (List.mem_reverse.mp hc),
    List.reverse_reverse]

/-- The UTF-16 code units of a character. -/
def utf16 (c : Char) : List Nat :=
  let n := c.toNat
  if n < 0x10000 then [n] else [0xD800 + (n - 0x10000) / 0x400, 0xDC00 + (n - 0x10000) % 0x400]

def utf16s (s : Text) : List Nat := s.flatMap utf16

theorem utf16s_ascii (s : Text) (h : ∀ c ∈ s, c.toNat < 0x10000) : utf16s s = s.map Char.toNat := by
  induction s with
  | nil => rfl
  | cons c cs ih =>
    have hc : utf16 c = [c.toNat] := if_pos (h c List.mem_cons_self)
    rw [utf16s, List.flatMap_cons, hc, List.map_cons, List.singleton_append]
    exact congrArg _ (ih fun d hd => h d (List.mem_cons_of_mem c hd))

end Outreach.Library
