import Mathlib.Data.List.Basic
import Mathlib.Data.List.Induction
import Outreach.Library.Unicode

/-!
# Words in a text: collapsing separators, splitting, infixes

`collapse keep sep` keeps the symbols that satisfy `keep` and writes one `sep`
for each maximal run of others. It is a congruence for concatenation
(`collapse_append_congr`), so texts made of pieces that collapse alike collapse
alike. The other operations commute with an injective renaming of symbols.
-/

namespace Outreach.Library

set_option autoImplicit false

variable {α β : Type*}

/-- `inRun` says that the separator of the current run is already written. -/
def collapseFrom (keep : α → Bool) (sep : α) : Bool → List α → List α
  | _, [] => []
  | inRun, c :: cs =>
      if keep c then c :: collapseFrom keep sep false cs
      else if inRun then collapseFrom keep sep true cs
      else sep :: collapseFrom keep sep true cs

def collapse (keep : α → Bool) (sep : α) (s : List α) : List α := collapseFrom keep sep false s

section Collapse

variable {keep : α → Bool} {sep : α}

theorem mem_collapseFrom {inRun : Bool} {s : List α} {c : α}
    (h : c ∈ collapseFrom keep sep inRun s) : keep c = true ∨ c = sep := by
  induction s generalizing inRun with
  | nil => simp [collapseFrom] at h
  | cons d ds ih =>
    rw [collapseFrom] at h
    by_cases hd : keep d = true
    · rw [if_pos hd] at h
      rcases List.mem_cons.mp h with rfl | h
      · exact Or.inl hd
      · exact ih h
    · rw [if_neg hd] at h
      cases inRun with
      | true => exact ih h
      | false =>
        rcases List.mem_cons.mp h with rfl | h
        · exact Or.inr rfl
        · exact ih h

/-- Whether a text ends inside a run of separators. -/
def endsInRun (keep : α → Bool) (inRun : Bool) (s : List α) : Bool :=
  match s.getLast? with
  | none => inRun
  | some c => !keep c

theorem endsInRun_cons (inRun : Bool) (c : α) (s : List α) :
    endsInRun keep inRun (c :: s) = endsInRun keep (!keep c) s := by
  cases s with
  | nil => rfl
  | cons d ds =>
    have hl := List.getLast?_eq_some_getLast (List.cons_ne_nil d ds)
    simp [endsInRun, List.getLast?_cons_cons, hl]

theorem collapseFrom_append (inRun : Bool) (s t : List α) :
    collapseFrom keep sep inRun (s ++ t) =
      collapseFrom keep sep inRun s ++ collapseFrom keep sep (endsInRun keep inRun s) t := by
  induction s generalizing inRun with
  | nil => rfl
  | cons c cs ih =>
    rw [List.cons_append, collapseFrom, collapseFrom, endsInRun_cons]
    by_cases hc : keep c = true
    · simp only [hc, if_true, ih, Bool.not_true, List.cons_append]
    · rw [Bool.not_eq_true] at hc
      simp only [hc, Bool.false_eq_true, if_false, ih, Bool.not_false]
      cases inRun <;> rfl

/-- Inside a run the leading separator of the collapsed rest is dropped. -/
theorem collapseFrom_true (hsep : keep sep = false) (s : List α) :
    collapseFrom keep sep true s = (match collapse keep sep s with
      | [] => []
      | c :: cs => if keep c then c :: cs else cs) := by
  cases s with
  | nil => rfl
  | cons c cs =>
    by_cases hc : keep c = true
    · simp [collapse, collapseFrom, hc]
    · simp [collapse, collapseFrom, hc, hsep]

theorem getLast?_collapse (hsep : keep sep = false) (s : List α) (inRun : Bool)
    (hne : collapseFrom keep sep inRun s ≠ []) :
    ((collapseFrom keep sep inRun s).getLast?.map keep) = s.getLast?.map keep := by
  induction s using List.reverseRecOn with
  | nil => exact absurd rfl hne
  | append_singleton s c ih =>
    rw [collapseFrom_append] at hne ⊢
    simp only [List.getLast?_concat, Option.map_some]
    by_cases hc : keep c = true
    · simp [collapseFrom, hc]
    · cases hr : endsInRun keep inRun s with
      | false => simp [collapseFrom, hc, hsep]
      | true =>
        simp only [hr, collapseFrom, if_neg hc, if_true, List.append_nil] at hne ⊢
        rw [ih hne]
        cases hs : s.getLast? with
        | none =>
          rw [List.getLast?_eq_none_iff] at hs
          subst hs
          exact absurd rfl hne
        | some d =>
          simp only [endsInRun, hs, Bool.not_eq_true'] at hr
          simp [hr, hc]

theorem endsInRun_of_collapse_eq (hsep : keep sep = false) {s t : List α}
    (h : collapse keep sep s = collapse keep sep t) :
    endsInRun keep false s = endsInRun keep false t := by
  have key : ∀ r : List α, endsInRun keep false r =
      endsInRun keep false (collapse keep sep r) := by
    intro r
    cases r with
    | nil => rfl
    | cons c cs =>
      have hne : collapseFrom keep sep false (c :: cs) ≠ [] := by
        by_cases hc : keep c = true <;> simp [collapseFrom, hc]
      have hl := getLast?_collapse hsep (c :: cs) false hne
      obtain ⟨x, hx⟩ := Option.ne_none_iff_exists'.mp (mt List.getLast?_eq_none_iff.mp hne)
      obtain ⟨y, hy⟩ := Option.ne_none_iff_exists'.mp
        (mt List.getLast?_eq_none_iff.mp (List.cons_ne_nil c cs))
      rw [hx, hy, Option.map_some, Option.map_some, Option.some.injEq] at hl
      simp only [endsInRun, collapse, hx, hy, hl]
  rw [key s, key t, h]

/-- Collapsing is a congruence for concatenation. -/
theorem collapse_append_congr (hsep : keep sep = false) {s s' t t' : List α}
    (hs : collapse keep sep s = collapse keep sep s')
    (ht : collapse keep sep t = collapse keep sep t') :
    collapse keep sep (s ++ t) = collapse keep sep (s' ++ t') := by
  have he := endsInRun_of_collapse_eq hsep hs
  unfold collapse at hs ⊢
  rw [collapseFrom_append, collapseFrom_append, hs, he]
  cases endsInRun keep false s' with
  | false => exact congrArg _ ht
  | true => rw [collapseFrom_true hsep, collapseFrom_true hsep, ht]

theorem collapse_flatMap_congr (hsep : keep sep = false) {f g : β → List α} {s : List β}
    (h : ∀ c ∈ s, collapse keep sep (f c) = collapse keep sep (g c)) :
    collapse keep sep (s.flatMap f) = collapse keep sep (s.flatMap g) := by
  induction s with
  | nil => rfl
  | cons c cs ih =>
    rw [List.flatMap_cons, List.flatMap_cons]
    have hrest := ih fun d hd => h d (List.mem_cons_of_mem c hd)
    exact collapse_append_congr hsep (h c List.mem_cons_self) hrest

theorem collapse_map {f : α → β} {keep' : β → Bool} {s : List α}
    (hk : ∀ c ∈ s, keep' (f c) = keep c) :
    collapse keep' (f sep) (s.map f) = (collapse keep sep s).map f := by
  unfold collapse
  generalize false = inRun
  induction s generalizing inRun with
  | nil => rfl
  | cons c cs ih =>
    have hih := fun r => ih (fun d hd => hk d (List.mem_cons_of_mem c hd)) r
    rw [List.map_cons, collapseFrom, collapseFrom, hk c List.mem_cons_self, hih, hih]
    cases keep c <;> cases inRun <;> rfl

end Collapse

section Renaming

variable {f : α → β}

theorem dropWhile_map {p : α → Bool} {q : β → Bool} {s : List α}
    (h : ∀ c ∈ s, q (f c) = p c) : (s.map f).dropWhile q = (s.dropWhile p).map f := by
  induction s with
  | nil => rfl
  | cons c cs ih =>
    rw [List.map_cons, List.dropWhile_cons, List.dropWhile_cons, h c List.mem_cons_self,
      ih fun d hd => h d (List.mem_cons_of_mem c hd)]
    cases p c <;> rfl

theorem stripBy_map {p : α → Bool} {q : β → Bool} {s : List α}
    (h : ∀ c ∈ s, q (f c) = p c) : stripBy q (s.map f) = (stripBy p s).map f := by
  have hin : ∀ c ∈ (s.dropWhile p).reverse, q (f c) = p c := fun c hc =>
    h c ((List.dropWhile_suffix p).subset (List.mem_reverse.mp hc))
  rw [stripBy, dropWhile_map h, ← List.map_reverse, dropWhile_map hin, ← List.map_reverse]
  rfl

theorem mem_stripBy {p : α → Bool} {s : List α} {c : α} (h : c ∈ stripBy p s) : c ∈ s := by
  unfold stripBy at h
  rw [List.mem_reverse] at h
  exact (List.dropWhile_suffix p).subset
    (List.mem_reverse.mp ((List.dropWhile_suffix p).subset h))

end Renaming

section Infix

variable [DecidableEq α] [DecidableEq β]

def hasInfix (w : List α) : List α → Bool
  | [] => w.isPrefixOf []
  | c :: cs => w.isPrefixOf (c :: cs) || hasInfix w cs

theorem isPrefixOf_map {f : α → β} (hf : Function.Injective f) (w s : List α) :
    (w.map f).isPrefixOf (s.map f) = w.isPrefixOf s := by
  induction w generalizing s with
  | nil => simp
  | cons x xs ih =>
    cases s with
    | nil => rfl
    | cons y ys =>
      simp only [List.map_cons, List.isPrefixOf, ih]
      congr 1
      rw [Bool.eq_iff_iff, beq_iff_eq, beq_iff_eq, hf.eq_iff]

theorem hasInfix_map {f : α → β} (hf : Function.Injective f) (w s : List α) :
    hasInfix (w.map f) (s.map f) = hasInfix w s := by
  induction s with
  | nil => exact isPrefixOf_map hf w []
  | cons c cs ih =>
    rw [List.map_cons, hasInfix, ih, hasInfix, ← List.map_cons, isPrefixOf_map hf]

end Infix

/-- The parts before and after the first separator. -/
theorem append_sep_inj {sep : α} {s t s' t' : List α} (hs : sep ∉ s) (hs' : sep ∉ s')
    (h : s ++ sep :: t = s' ++ sep :: t') : s = s' ∧ t = t' := by
  induction s generalizing s' with
  | nil =>
    cases s' with
    | nil => exact ⟨rfl, (List.cons.inj h).2⟩
    | cons c s' => exact absurd ((List.cons.inj h).1 ▸ List.mem_cons_self) hs'
  | cons c s ih =>
    cases s' with
    | nil => exact absurd ((List.cons.inj h).1 ▸ List.mem_cons_self) hs
    | cons d s' =>
      obtain ⟨rfl, htail⟩ := List.cons.inj h
      obtain ⟨rfl, rfl⟩ := ih (fun hm => hs (List.mem_cons_of_mem c hm))
        (fun hm => hs' (List.mem_cons_of_mem c hm)) htail
      exact ⟨rfl, rfl⟩

/-- `str.rpartition`: the parts before and after the last `sep`; `none` when there is none. -/
def rpartition [DecidableEq α] (sep : α) : List α → Option (List α × List α)
  | [] => none
  | c :: cs =>
      match rpartition sep cs with
      | some (before, after) => some (c :: before, after)
      | none => if c = sep then some ([], cs) else none

theorem rpartition_map [DecidableEq α] [DecidableEq β] {f : α → β} (hf : Function.Injective f)
    (sep : α) (s : List α) :
    rpartition (f sep) (s.map f) = (rpartition sep s).map fun p => (p.1.map f, p.2.map f) := by
  induction s with
  | nil => rfl
  | cons c s ih =>
    rw [List.map_cons, rpartition, rpartition, ih]
    cases rpartition sep s with
    | some p => rfl
    | none =>
      simp only [Option.map_none, hf.eq_iff]
      split <;> rfl

/-- `str.split()`: the maximal runs of symbols that do not satisfy `sp`. -/
def splitWordsFrom (sp : α → Bool) : List α → List α → List (List α)
  | word, [] => if word.isEmpty then [] else [word.reverse]
  | word, c :: cs =>
      if sp c then
        if word.isEmpty then splitWordsFrom sp [] cs else word.reverse :: splitWordsFrom sp [] cs
      else splitWordsFrom sp (c :: word) cs

def splitWords (sp : α → Bool) (s : List α) : List (List α) := splitWordsFrom sp [] s

/-- `String.split` at each `sep`, empty pieces included. -/
def splitAtFrom [DecidableEq α] (sep : α) : List α → List α → List (List α)
  | word, [] => [word.reverse]
  | word, c :: cs =>
      if c = sep then word.reverse :: splitAtFrom sep [] cs else splitAtFrom sep (c :: word) cs

/-- Java's `split`: trailing empty pieces are dropped, unless there was no match. -/
def javaSplit [DecidableEq α] (sep : α) (s : List α) : List (List α) :=
  let pieces := splitAtFrom sep [] s
  if pieces.length ≤ 1 then pieces else (pieces.reverse.dropWhile List.isEmpty).reverse

theorem splitWordsFrom_eq_filter [DecidableEq α] {sp : α → Bool} {sep : α} {s : List α}
    (hsp : ∀ c ∈ s, sp c = decide (c = sep)) (word : List α) :
    splitWordsFrom sp word s = (splitAtFrom sep word s).filter fun w => !w.isEmpty := by
  induction s generalizing word with
  | nil => cases word <;> simp [splitWordsFrom, splitAtFrom]
  | cons c cs ih =>
    have hc := hsp c List.mem_cons_self
    have hih := ih fun d hd => hsp d (List.mem_cons_of_mem c hd)
    by_cases he : c = sep
    · subst he
      cases word <;> simp [splitWordsFrom, splitAtFrom, hc, hih]
    · simp [splitWordsFrom, splitAtFrom, hc, he, hih]

theorem filter_dropTrailing (l : List (List α)) :
    ((l.reverse.dropWhile List.isEmpty).reverse).filter (fun w => !w.isEmpty) =
      l.filter fun w => !w.isEmpty := by
  induction l using List.reverseRecOn with
  | nil => rfl
  | append_singleton l w ih =>
    rw [List.reverse_append, List.reverse_singleton, List.singleton_append, List.dropWhile_cons,
      List.filter_append]
    cases hw : w.isEmpty with
    | true => simpa [hw] using ih
    | false => simp [hw]

/-- The two ways to split agree up to empty pieces. -/
theorem splitWords_eq_filter [DecidableEq α] {sp : α → Bool} {sep : α} {s : List α}
    (hsp : ∀ c ∈ s, sp c = decide (c = sep)) :
    splitWords sp s = (javaSplit sep s).filter fun w => !w.isEmpty := by
  rw [splitWords, splitWordsFrom_eq_filter hsp, javaSplit]
  split
  · rfl
  · rw [filter_dropTrailing]

theorem splitAtFrom_map [DecidableEq α] [DecidableEq β] {f : α → β} (hf : Function.Injective f)
    (sep : α) (word s : List α) :
    splitAtFrom (f sep) (word.map f) (s.map f) = (splitAtFrom sep word s).map (List.map f) := by
  induction s generalizing word with
  | nil => simp [splitAtFrom]
  | cons c cs ih =>
    have hnil := ih []
    have hcons := ih (c :: word)
    rw [List.map_nil] at hnil
    rw [List.map_cons] at hcons
    rw [List.map_cons, splitAtFrom, splitAtFrom, hnil, hcons]
    by_cases hc : c = sep
    · simp [hc]
    · simp [hc, hf.eq_iff]

theorem javaSplit_map [DecidableEq α] [DecidableEq β] {f : α → β} (hf : Function.Injective f)
    (sep : α) (s : List α) : javaSplit (f sep) (s.map f) = (javaSplit sep s).map (List.map f) := by
  have hs := splitAtFrom_map hf sep [] s
  rw [List.map_nil] at hs
  simp only [javaSplit, hs, List.length_map]
  split
  · rfl
  · rw [← List.map_reverse, dropWhile_map (p := List.isEmpty) (fun w _ => by simp),
      ← List.map_reverse]

end Outreach.Library
