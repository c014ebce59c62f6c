import Mathlib.Data.List.Basic

/-!
# Backtracking patterns

The fragment of regular expressions with single symbols, sequence, ordered
alternation, greedy option and word boundaries. `matches` lists the ways a
pattern can match at a cursor, in the order in which a backtracking matcher
tries them; `find` takes the first way at the leftmost cursor. Two texts over
different alphabets whose symbols a pattern cannot tell apart are matched alike.
-/

namespace Outreach.Library

set_option autoImplicit false

inductive Pattern (α : Type*) where
  | eps
  | sat (p : α → Bool)
  | seq (a b : Pattern α)
  | alt (a b : Pattern α)
  | opt (a : Pattern α)
  | boundary

namespace Pattern

variable {α β : Type*}

/-- The symbol before the cursor, and the rest of the text. -/
abbrev Cursor (α : Type*) := Option α × List α

def isWordAt (word : α → Bool) (c : Option α) : Bool := (c.map word).getD false

def ways (word : α → Bool) : Pattern α → Cursor α → List (List α × Cursor α)
  | .eps, cur => [([], cur)]
  | .sat p, (_, c :: cs) => if p c then [([c], (some c, cs))] else []
  | .sat _, (_, []) => []
  | .seq a b, cur => (ways word a cur).flatMap fun r =>
      (ways word b r.2).map fun t => (r.1 ++ t.1, t.2)
  | .alt a b, cur => ways word a cur ++ ways word b cur
  | .opt a, cur => ways word a cur ++ [([], cur)]
  | .boundary, cur =>
      if isWordAt word cur.1 != isWordAt word cur.2.head? then [([], cur)] else []

def matchAt (word : α → Bool) (p : Pattern α) (cur : Cursor α) : Option (List α) :=
  (ways word p cur).head?.map Prod.fst

def findFrom (word : α → Bool) (p : Pattern α) : Option α → List α → Option (List α)
  | before, s => match matchAt word p (before, s) with
    | some t => some t
    | none => match s with
      | [] => none
      | c :: cs => findFrom word p (some c) cs

/-- The leftmost match in the text. -/
def find (word : α → Bool) (p : Pattern α) (s : List α) : Option (List α) :=
  findFrom word p none s

/-- Anchored at the start of the text. -/
def matchStart (word : α → Bool) (p : Pattern α) (s : List α) : Option (List α) :=
  matchAt word p (none, s)

def literal [DecidableEq α] : List α → Pattern α
  | [] => .eps
  | c :: cs => .seq (.sat fun x => decide (x = c)) (literal cs)

def oneOf [DecidableEq α] : List (List α) → Pattern α
  | [] => .sat fun _ => false
  | w :: ws => .alt (literal w) (oneOf ws)

-- The equations of the matcher are stated here, once, for the proofs that share them.
section Equations

attribute [local simp] ways matchAt findFrom literal oneOf

end Equations

/-- `p` over `α` and `q` over `β` agree on the symbols of `S` as renamed by `f`. -/
inductive Agree (f : α → β) (S : α → Prop) : Pattern α → Pattern β → Prop
  | eps : Agree f S .eps .eps
  | sat {p : α → Bool} {q : β → Bool} (h : ∀ c, S c → q (f c) = p c) : Agree f S (.sat p) (.sat q)
  | seq {a b : Pattern α} {a' b' : Pattern β} :
      Agree f S a a' → Agree f S b b' → Agree f S (.seq a b) (.seq a' b')
  | alt {a b : Pattern α} {a' b' : Pattern β} :
      Agree f S a a' → Agree f S b b' → Agree f S (.alt a b) (.alt a' b')
  | opt {a : Pattern α} {a' : Pattern β} : Agree f S a a' → Agree f S (.opt a) (.opt a')
  | boundary : Agree f S .boundary .boundary

def Cursor.map (f : α → β) (cur : Cursor α) : Cursor β := (cur.1.map f, cur.2.map f)

/-- Every symbol in reach of the cursor lies in `S`. -/
def Within (S : α → Prop) (cur : Cursor α) : Prop := (∀ c ∈ cur.1, S c) ∧ ∀ c ∈ cur.2, S c

section Agreement

variable {f : α → β} {S : α → Prop} {word : α → Bool} {word' : β → Bool}

theorem isWordAt_map (hw : ∀ c, S c → word' (f c) = word c) {c : Option α} (hc : ∀ a ∈ c, S a) :
    isWordAt word' (c.map f) = isWordAt word c := by
  cases c with
  | none => rfl
  | some a => exact hw a (hc a rfl)

/-- Matching never leaves the text it was given. -/
theorem within_ways {p : Pattern α} {cur : Cursor α} (hcur : Within S cur) :
    ∀ r ∈ ways word p cur, Within S r.2 := by
  induction p generalizing cur with
  | eps =>
    intro r hr
    rw [List.mem_singleton.mp hr]
    exact hcur
  | sat p =>
    obtain ⟨before, s⟩ := cur
    cases s with
    | nil => simp [ways]
    | cons c cs =>
      intro r hr
      by_cases hp : p c
      · simp only [ways, hp, if_true, List.mem_singleton] at hr
        subst hr
        refine ⟨fun a ha => ?_, fun a ha => hcur.2 a (List.mem_cons_of_mem c ha)⟩
        cases ha
        exact hcur.2 c List.mem_cons_self
      · simp [ways, hp] at hr
  | seq a b iha ihb =>
    intro r hr
    obtain ⟨r₁, h₁, hr⟩ := List.mem_flatMap.mp hr
    obtain ⟨r₂, h₂, rfl⟩ := List.mem_map.mp hr
    exact ihb (iha hcur r₁ h₁) r₂ h₂
  | alt a b iha ihb =>
    intro r hr
    rcases List.mem_append.mp hr with h | h
    · exact iha hcur r h
    · exact ihb hcur r h
  | opt a iha =>
    intro r hr
    rcases List.mem_append.mp hr with h | h
    · exact iha hcur r h
    · rw [List.mem_singleton.mp h]
      exact hcur
  | boundary =>
    intro r hr
    unfold ways at hr
    split at hr
    · rw [List.mem_singleton.mp hr]
      exact hcur
    · simp at hr

theorem ways_map (hw : ∀ c, S c → word' (f c) = word c) {p : Pattern α} {q : Pattern β}
    (h : Agree f S p q) {cur : Cursor α} (hcur : Within S cur) :
    ways word' q (cur.map f) =
      (ways word p cur).map fun r => (r.1.map f, Cursor.map f r.2) := by
  induction h generalizing cur with
  | eps => rfl
  | sat h =>
    rename_i p q
    obtain ⟨before, s⟩ := cur
    cases s with
    | nil => rfl
    | cons c cs =>
      have hc := h c (hcur.2 c List.mem_cons_self)
      simp only [Cursor.map, List.map_cons, ways, hc]
      cases p c <;> rfl
  | seq ha hb iha ihb =>
    rename_i a b a' b'
    simp only [ways]
    rw [iha hcur, List.flatMap_map, List.map_flatMap]
    refine List.flatMap_congr fun r hr => ?_
    rw [ihb (within_ways hcur r hr), List.map_map, List.map_map]
    exact List.map_congr_left fun t _ => by simp [List.map_append]
  | alt ha hb iha ihb => simp only [ways, iha hcur, ihb hcur, List.map_append]
  | opt ha iha => simp only [ways, iha hcur, List.map_append, List.map_cons, List.map_nil]
  | boundary =>
    have h₁ := isWordAt_map hw hcur.1
    have h₂ : isWordAt word' (cur.2.map f).head? = isWordAt word cur.2.head? := by
      rw [List.head?_map]
      exact isWordAt_map hw fun a ha => hcur.2 a (List.mem_of_mem_head? ha)
    simp only [ways, Cursor.map, h₁, h₂]
    split <;> rfl

theorem matchAt_map (hw : ∀ c, S c → word' (f c) = word c) {p : Pattern α} {q : Pattern β}
    (h : Agree f S p q) {cur : Cursor α} (hcur : Within S cur) :
    matchAt word' q (cur.map f) = (matchAt word p cur).map (List.map f) := by
  rw [matchAt, matchAt, ways_map hw h hcur, List.head?_map, Option.map_map, Option.map_map]
  rfl

theorem matchStart_map (hw : ∀ c, S c → word' (f c) = word c) {p : Pattern α} {q : Pattern β}
    (h : Agree f S p q) {s : List α} (hs : ∀ c ∈ s, S c) :
    matchStart word' q (s.map f) = (matchStart word p s).map (List.map f) :=
  @matchAt_map _ _ f S word word' hw p q h (none, s) ⟨by simp, hs⟩

theorem findFrom_map (hw : ∀ c, S c → word' (f c) = word c) {p : Pattern α} {q : Pattern β}
    (h : Agree f S p q) {before : Option α} {s : List α} (hcur : Within S (before, s)) :
    findFrom word' q (before.map f) (s.map f) = (findFrom word p before s).map (List.map f) := by
  induction s generalizing before with
  | nil =>
    have hm := matchAt_map hw h hcur
    simp only [Cursor.map, List.map_nil] at hm
    simp only [List.map_nil, findFrom, hm]
    cases matchAt word p (before, []) <;> rfl
  | cons c cs ih =>
    have hm := matchAt_map hw h hcur
    simp only [Cursor.map, List.map_cons] at hm
    have hrest : Within S (some c, cs) :=
      ⟨fun a ha => by cases ha; exact hcur.2 c List.mem_cons_self,
        fun a ha => hcur.2 a (List.mem_cons_of_mem c ha)⟩
    have hih := ih hrest
    simp only [Option.map_some] at hih
    simp only [List.map_cons]
    rw [findFrom, hm, findFrom]
    cases matchAt word p (before, c :: cs) with
    | none => exact hih
    | some t => rfl

/-- Leftmost matching does not see a renaming of symbols the pattern treats alike. -/
theorem find_map (hw : ∀ c, S c → word' (f c) = word c) {p : Pattern α} {q : Pattern β}
    (h : Agree f S p q) {s : List α} (hs : ∀ c ∈ s, S c) :
    find word' q (s.map f) = (find word p s).map (List.map f) :=
  @findFrom_map _ _ f S word word' hw p q h none s ⟨by simp, hs⟩

theorem Agree.literal [DecidableEq α] [DecidableEq β] (hf : Function.Injective f) (cs : List α) :
    Agree f S (Pattern.literal cs) (Pattern.literal (cs.map f)) := by
  induction cs with
  | nil => exact .eps
  | cons c cs ih =>
    refine .seq (.sat fun x _ => ?_) ih
    simp [hf.eq_iff]

theorem Agree.oneOf [DecidableEq α] [DecidableEq β] (hf : Function.Injective f)
    (ws : List (List α)) :
    Agree f S (Pattern.oneOf ws) (Pattern.oneOf (ws.map (List.map f))) := by
  induction ws with
  | nil => exact .sat fun _ _ => rfl
  | cons w ws ih => exact .alt (.literal hf w) ih

end Agreement

section Ways

variable {word : α → Bool} {cur : Cursor α} {r : List α × Cursor α}

/-- The cursor after a word is read. -/
def Cursor.after (cur : Cursor α) (w rest : List α) : Cursor α := (w.getLast?.or cur.1, rest)

theorem mem_ways_seq {a b : Pattern α} :
    r ∈ ways word (.seq a b) cur ↔
      ∃ r₁ ∈ ways word a cur, ∃ r₂ ∈ ways word b r₁.2, r = (r₁.1 ++ r₂.1, r₂.2) := by
  simp only [ways, List.mem_flatMap, List.mem_map, eq_comm (a := r)]

theorem mem_ways_opt {a : Pattern α} :
    r ∈ ways word (.opt a) cur ↔ r ∈ ways word a cur ∨ r = ([], cur) := by
  rw [ways, List.mem_append, List.mem_singleton]

theorem mem_ways_boundary :
    r ∈ ways word .boundary cur ↔
      isWordAt word cur.1 ≠ isWordAt word cur.2.head? ∧ r = ([], cur) := by
  rw [ways]
  split
  · rename_i h
    rw [List.mem_singleton, and_iff_right (bne_iff_ne.mp h)]
  · rename_i h
    exact iff_of_false List.not_mem_nil fun hr => h (bne_iff_ne.mpr hr.1)

/-- A literal is read in one way, where the text goes on with it. -/
theorem mem_ways_literal [DecidableEq α] {w : List α} :
    r ∈ ways word (literal w) cur ↔ ∃ rest, cur.2 = w ++ rest ∧ r = (w, cur.after w rest) := by
  induction w generalizing cur r with
  | nil =>
    obtain ⟨before, s⟩ := cur
    simp [literal, ways, Cursor.after]
  | cons c w ih =>
    obtain ⟨before, s⟩ := cur
    have hlast : ∀ d, (c :: w).getLast?.or d = w.getLast?.or (some c) := by
      intro d
      rw [List.getLast?_cons]
      cases w.getLast? <;> rfl
    rw [literal, mem_ways_seq]
    cases s with
    | nil => simp [ways]
    | cons x s =>
      constructor
      · intro h
        obtain ⟨r₁, h₁, r₂, h₂, rfl⟩ := h
        by_cases hx : x = c
        · subst hx
          simp only [ways, decide_true, if_true, List.mem_singleton] at h₁
          subst h₁
          obtain ⟨rest, hs, rfl⟩ := ih.mp h₂
          refine ⟨rest, congrArg (x :: ·) hs, ?_⟩
          simp only [Cursor.after, hlast, List.singleton_append]
        · simp [ways, hx] at h₁
      · intro h
        obtain ⟨rest, hs, rfl⟩ := h
        obtain ⟨rfl, rfl⟩ := List.cons.inj hs
        refine ⟨([x], (some x, w ++ rest)), by simp [ways], (w, Cursor.after (some x, w ++ rest) w rest),
          ih.mpr ⟨rest, rfl, rfl⟩, ?_⟩
        simp only [Cursor.after, hlast, List.singleton_append]

theorem mem_ways_oneOf [DecidableEq α] {ws : List (List α)} :
    r ∈ ways word (oneOf ws) cur ↔ ∃ w ∈ ws, r ∈ ways word (literal w) cur := by
  induction ws with
  | nil =>
    obtain ⟨before, s⟩ := cur
    cases s <;> simp [oneOf, ways]
  | cons w ws ih =>
    rw [oneOf, ways, List.mem_append, ih]
    simp only [List.mem_cons, exists_eq_or_imp]

/-- There is a way to read the pattern at the cursor. -/
def Reads (word : α → Bool) (p : Pattern α) (cur : Cursor α) : Prop := ∃ r, r ∈ ways word p cur

/-- An anchored pattern matches when it can be read at the start. -/
theorem matchStart_isSome {p : Pattern α} {s : List α} :
    (matchStart word p s).isSome = true ↔ Reads word p (none, s) := by
  rw [matchStart, matchAt, Option.isSome_map, List.isSome_head?, ← List.isEmpty_eq_false_iff,
    List.isEmpty_eq_false_iff_exists_mem]
  rfl

theorem reads_seq {a b : Pattern α} :
    Reads word (.seq a b) cur ↔ ∃ r ∈ ways word a cur, Reads word b r.2 := by
  constructor
  · rintro ⟨r, hr⟩
    obtain ⟨r₁, h₁, r₂, h₂, -⟩ := mem_ways_seq.mp hr
    exact ⟨r₁, h₁, r₂, h₂⟩
  · rintro ⟨r₁, h₁, r₂, h₂⟩
    exact ⟨_, mem_ways_seq.mpr ⟨r₁, h₁, r₂, h₂, rfl⟩⟩

theorem reads_boundary :
    Reads word .boundary cur ↔ isWordAt word cur.1 ≠ isWordAt word cur.2.head? := by
  simp only [Reads, mem_ways_boundary, exists_and_left, exists_eq, and_true]

theorem reads_seq_opt {a b : Pattern α} :
    Reads word (.seq (.opt a) b) cur ↔ Reads word (.seq a b) cur ∨ Reads word b cur := by
  simp only [reads_seq, mem_ways_opt, or_and_right, exists_or, exists_eq_left]

theorem reads_seq_oneOf [DecidableEq α] {ws : List (List α)} {b : Pattern α} :
    Reads word (.seq (oneOf ws) b) cur ↔
      ∃ w ∈ ws, ∃ rest, cur.2 = w ++ rest ∧ Reads word b (cur.after w rest) := by
  rw [reads_seq]
  constructor
  · rintro ⟨r, hr, hreads⟩
    obtain ⟨w, hw, hr⟩ := mem_ways_oneOf.mp hr
    obtain ⟨rest, hrest, rfl⟩ := mem_ways_literal.mp hr
    exact ⟨w, hw, rest, hrest, hreads⟩
  · rintro ⟨w, hw, rest, hrest, hreads⟩
    exact ⟨_, mem_ways_oneOf.mpr ⟨w, hw, mem_ways_literal.mpr ⟨rest, hrest, rfl⟩⟩, hreads⟩

theorem reads_seq_literal [DecidableEq α] {w : List α} {b : Pattern α} :
    Reads word (.seq (literal w) b) cur ↔
      ∃ rest, cur.2 = w ++ rest ∧ Reads word b (cur.after w rest) := by
  rw [reads_seq]
  constructor
  · rintro ⟨r, hr, hreads⟩
    obtain ⟨rest, hrest, rfl⟩ := mem_ways_literal.mp hr
    exact ⟨rest, hrest, hreads⟩
  · rintro ⟨rest, hrest, hreads⟩
    exact ⟨_, mem_ways_literal.mpr ⟨rest, hrest, rfl⟩, hreads⟩

end Ways

end Pattern

end Outreach.Library
