import Mathlib.Algebra.GroupWithZero.Nat
import Mathlib.Data.List.Basic
import Mathlib.Data.List.MinMax
import Mathlib.Data.List.Nodup
import Mathlib.Order.Bounds.Basic

/-!
# Dictionaries in insertion order, and the best item for each key

A `Dict` lists its entries in the order in which the keys were first stored;
storing under a known key overwrites in place. No key occurs twice: the proof
is a field. `bestOf` is the loop that keeps, for each key, the first item whose
rank no other item of that key exceeds; `get?_bestOf` says so with `List.argmax`.
-/

namespace Outreach.Library

set_option autoImplicit false

structure Dict (κ ν : Type*) where
  entries : List (κ × ν)
  nodup : (entries.map Prod.fst).Nodup

namespace Dict

variable {κ ν : Type*} [DecidableEq κ]

def empty : Dict κ ν := ⟨[], List.nodup_nil⟩

def keys (d : Dict κ ν) : List κ := d.entries.map Prod.fst

def values (d : Dict κ ν) : List ν := d.entries.map Prod.snd

def lookup (k : κ) : List (κ × ν) → Option ν
  | [] => none
  | (l, v) :: rest => if l = k then some v else lookup k rest

def get? (d : Dict κ ν) (k : κ) : Option ν := lookup k d.entries

def store (k : κ) (v : ν) : List (κ × ν) → List (κ × ν)
  | [] => [(k, v)]
  | (l, w) :: rest => if l = k then (l, v) :: rest else (l, w) :: store k v rest

theorem store_keys (k : κ) (v : ν) (l : List (κ × ν)) :
    (store k v l).map Prod.fst = if k ∈ l.map Prod.fst then l.map Prod.fst
      else l.map Prod.fst ++ [k] := by
  induction l with
  | nil => simp [store]
  | cons e l ih =>
    obtain ⟨a, w⟩ := e
    by_cases h : a = k
    · simp [store, h]
    · simp only [store, if_neg h, List.map_cons, ih, List.mem_cons, Ne.symm h, false_or]
      split <;> rfl

/-- `d[k] = v`: in place when the key is known, at the end otherwise. -/
def set (d : Dict κ ν) (k : κ) (v : ν) : Dict κ ν where
  entries := store k v d.entries
  nodup := by
    rw [store_keys]
    split
    · exact d.nodup
    · rename_i h
      exact List.Nodup.append d.nodup (List.nodup_singleton k) (List.disjoint_singleton.mpr h)

theorem keys_set (d : Dict κ ν) (k : κ) (v : ν) :
    (d.set k v).keys = if k ∈ d.keys then d.keys else d.keys ++ [k] := store_keys k v d.entries

@[simp] theorem mem_keys_set (d : Dict κ ν) (k l : κ) (v : ν) :
    l ∈ (d.set k v).keys ↔ l = k ∨ l ∈ d.keys := by
  rw [keys_set]
  split
  · rename_i h
    exact ⟨Or.inr, fun hl => hl.elim (fun e => e ▸ h) id⟩
  · simp [or_comm]

@[simp] theorem get?_empty (k : κ) : (empty : Dict κ ν).get? k = none := rfl

theorem lookup_store (k l : κ) (v : ν) (es : List (κ × ν)) :
    lookup l (store k v es) = if k = l then some v else lookup l es := by
  induction es with
  | nil => simp [store, lookup]
  | cons e es ih =>
    obtain ⟨a, w⟩ := e
    by_cases h : a = k
    · subst h
      by_cases hl : a = l <;> simp [store, lookup, hl]
    · simp only [store, if_neg h, lookup, ih]
      by_cases hl : a = l
      · subst hl
        simp [Ne.symm h]
      · simp [hl]

theorem get?_set (d : Dict κ ν) (k l : κ) (v : ν) :
    (d.set k v).get? l = if k = l then some v else d.get? l := lookup_store k l v d.entries

/-- Storing a number moves the sum by the difference to the old one. -/
theorem sum_values_store (k : κ) (n : Nat) (es : List (κ × Nat)) :
    ((store k n es).map Prod.snd).sum + (lookup k es).getD 0 = (es.map Prod.snd).sum + n := by
  induction es with
  | nil => simp [store, lookup]
  | cons e es ih =>
    obtain ⟨a, m⟩ := e
    by_cases h : a = k
    · simp only [store, lookup, if_pos h, List.map_cons, List.sum_cons, Option.getD_some]
      omega
    · simp only [store, lookup, if_neg h, List.map_cons, List.sum_cons]
      omega

theorem sum_values_set (d : Dict κ Nat) (k : κ) (n : Nat) :
    (d.set k n).values.sum + (d.get? k).getD 0 = d.values.sum + n :=
  sum_values_store k n d.entries

theorem lookup_eq_none {k : κ} {es : List (κ × ν)} :
    lookup k es = none ↔ k ∉ es.map Prod.fst := by
  induction es with
  | nil => simp [lookup]
  | cons e es ih =>
    obtain ⟨a, w⟩ := e
    by_cases h : a = k
    · simp [lookup, h]
    · simp only [lookup, if_neg h, ih, List.map_cons, List.mem_cons, Ne.symm h, false_or]

theorem get?_eq_none {d : Dict κ ν} {k : κ} : d.get? k = none ↔ k ∉ d.keys := lookup_eq_none

theorem mem_keys_iff {d : Dict κ ν} {k : κ} : k ∈ d.keys ↔ ∃ v, d.get? k = some v := by
  rw [← Option.isSome_iff_exists, ← Option.ne_none_iff_isSome, Ne, get?_eq_none, not_not]

theorem lookup_eq_some {k : κ} {v : ν} {es : List (κ × ν)} (hn : (es.map Prod.fst).Nodup) :
    lookup k es = some v ↔ (k, v) ∈ es := by
  induction es with
  | nil => simp [lookup]
  | cons e es ih =>
    obtain ⟨a, w⟩ := e
    rw [List.map_cons, List.nodup_cons] at hn
    by_cases h : a = k
    · subst h
      have hout : (a, v) ∉ es := fun hm => hn.1 (List.mem_map.mpr ⟨(a, v), hm, rfl⟩)
      simp [lookup, hout, eq_comm]
    · simp [lookup, h, Ne.symm h, ih hn.2]

theorem get?_eq_some {d : Dict κ ν} {k : κ} {v : ν} : d.get? k = some v ↔ (k, v) ∈ d.entries :=
  lookup_eq_some d.nodup

theorem mem_values {d : Dict κ ν} {v : ν} : v ∈ d.values ↔ ∃ k, d.get? k = some v := by
  simp only [values, List.mem_map, get?_eq_some]
  exact ⟨fun ⟨⟨k, w⟩, hm, he⟩ => ⟨k, he ▸ hm⟩, fun ⟨k, hm⟩ => ⟨(k, v), hm, rfl⟩⟩

/-- `dict(entries)` -/
def ofList (entries : List (κ × ν)) : Dict κ ν := entries.foldl (fun d e => d.set e.1 e.2) empty

theorem mem_keys_ofList {entries : List (κ × ν)} {k : κ} :
    k ∈ (ofList entries).keys ↔ k ∈ entries.map Prod.fst := by
  have hfold : ∀ d : Dict κ ν, k ∈ (entries.foldl (fun d e => d.set e.1 e.2) d).keys ↔
      k ∈ d.keys ∨ k ∈ entries.map Prod.fst := by
    induction entries with
    | nil => simp
    | cons e entries ih =>
      intro d
      rw [List.foldl_cons, ih, mem_keys_set, List.map_cons, List.mem_cons]
      tauto
  rw [ofList, hfold]
  exact or_iff_right List.not_mem_nil

theorem get?_ofList {entries : List (κ × ν)} (hn : (entries.map Prod.fst).Nodup) (k : κ) :
    (ofList entries).get? k = lookup k entries := by
  have hfold : ∀ d : Dict κ ν, (entries.foldl (fun d e => d.set e.1 e.2) d).get? k =
      (lookup k entries).or (d.get? k) := by
    induction entries with
    | nil => exact fun d => rfl
    | cons e entries ih =>
      intro d
      rw [List.map_cons, List.nodup_cons] at hn
      rw [List.foldl_cons, ih hn.2, get?_set, lookup]
      by_cases h : e.1 = k
      · rw [if_pos h, if_pos h, lookup_eq_none.mpr (h ▸ hn.1)]
        rfl
      · rw [if_neg h, if_neg h]
  rw [ofList, hfold, get?_empty, Option.or_none]

theorem lookup_perm {k : κ} {es fs : List (κ × ν)} (hn : (es.map Prod.fst).Nodup)
    (h : es.Perm fs) : lookup k es = lookup k fs := by
  refine Option.ext fun v => ?_
  rw [lookup_eq_some hn, lookup_eq_some ((h.map Prod.fst).nodup_iff.mp hn), h.mem_iff]

section Best

variable {R : Type*} [LinearOrder R] (key : ν → κ) (rank : ν → R)

/-- One turn of the loop: a strictly better item replaces the incumbent. -/
def keepBest (d : Dict κ ν) (x : ν) : Dict κ ν :=
  match d.get? (key x) with
  | none => d.set (key x) x
  | some y => if rank y < rank x then d.set (key x) x else d

def bestOf (items : List ν) : Dict κ ν := items.foldl (keepBest key rank) empty

theorem mem_keys_keepBest (d : Dict κ ν) (x : ν) (k : κ) :
    k ∈ (keepBest key rank d x).keys ↔ k = key x ∨ k ∈ d.keys := by
  unfold keepBest
  split
  · exact mem_keys_set d (key x) k x
  · rename_i y hy
    split
    · exact mem_keys_set d (key x) k x
    · have hm : key x ∈ d.keys := mem_keys_iff.mpr ⟨y, hy⟩
      exact ⟨Or.inr, fun h => h.elim (fun e => e ▸ hm) id⟩

theorem get?_keepBest (d : Dict κ ν) (x : ν) (k : κ) :
    (keepBest key rank d x).get? k =
      if key x = k then
        some (match d.get? k with
          | none => x
          | some y => if rank y < rank x then x else y)
      else d.get? k := by
  unfold keepBest
  by_cases hk : key x = k
  · subst hk
    rw [if_pos rfl]
    cases hy : d.get? (key x) with
    | none => simp [get?_set]
    | some y =>
      by_cases hlt : rank y < rank x
      · simp [hlt, get?_set]
      · simp [hlt, hy]
  · rw [if_neg hk]
    cases d.get? (key x) with
    | none => simp [get?_set, hk]
    | some y =>
      by_cases hlt : rank y < rank x
      · simp [hlt, get?_set, hk]
      · simp [hlt]

theorem bestOf_concat (items : List ν) (x : ν) :
    bestOf key rank (items ++ [x]) = keepBest key rank (bestOf key rank items) x := by
  simp [bestOf, List.foldl_append]

/-- The loop keeps, under each key, the first item of highest rank. -/
theorem get?_bestOf (items : List ν) (k : κ) :
    (bestOf key rank items).get? k =
      (items.filter fun x => decide (key x = k)).argmax rank := by
  induction items using List.reverseRecOn with
  | nil => rfl
  | append_singleton items x ih =>
    rw [bestOf_concat, get?_keepBest, ih, List.filter_append]
    by_cases hk : key x = k
    · have hx : [x].filter (fun x => decide (key x = k)) = [x] := by simp [hk]
      rw [if_pos hk, hx, List.argmax_concat]
      cases (items.filter fun x => decide (key x = k)).argmax rank with
      | none => rfl
      | some y => by_cases hlt : rank y < rank x <;> simp [hlt]
    · have hx : [x].filter (fun x => decide (key x = k)) = [] := by simp [hk]
      rw [if_neg hk, hx, List.append_nil]

/-- What is kept under a key has the highest rank there, whatever the order of the items. -/
theorem isGreatest_bestOf {items : List ν} {k : κ} {x : ν}
    (h : (bestOf key rank items).get? k = some x) :
    IsGreatest (rank '' {y | y ∈ items ∧ key y = k}) (rank x) := by
  rw [get?_bestOf] at h
  have hx := List.mem_filter.mp (List.argmax_mem (Option.mem_def.mpr h))
  refine ⟨⟨x, ⟨hx.1, of_decide_eq_true hx.2⟩, rfl⟩, ?_⟩
  intro r hr
  obtain ⟨y, hy, rfl⟩ := hr
  exact List.le_of_mem_argmax (List.mem_filter.mpr ⟨hy.1, decide_eq_true hy.2⟩) h

theorem mem_keys_bestOf (items : List ν) (k : κ) :
    k ∈ (bestOf key rank items).keys ↔ ∃ x ∈ items, key x = k := by
  rw [mem_keys_iff, get?_bestOf, ← Option.isSome_iff_exists, ← Option.ne_none_iff_isSome, Ne,
    List.argmax_eq_none]
  simp

theorem keys_keepBest (d : Dict κ ν) (x : ν) :
    (keepBest key rank d x).keys = if key x ∈ d.keys then d.keys else d.keys ++ [key x] := by
  unfold keepBest
  split
  · exact keys_set d (key x) x
  · rename_i y hy
    split
    · exact keys_set d (key x) x
    · exact (if_pos (mem_keys_iff.mpr ⟨y, hy⟩)).symm

/-- The keys stand in the order of their first items. -/
theorem keys_bestOf (items : List ν) : (bestOf key rank items).keys = (items.map key).eraseDups := by
  induction items using List.reverseRecOn with
  | nil => rfl
  | append_singleton items x ih =>
    rw [bestOf_concat, keys_keepBest, ih, List.map_append, List.eraseDups_append, List.map_singleton]
    by_cases hx : key x ∈ items.map key
    · have hknown : [key x].removeAll (items.map key) = [] := by simpa [List.removeAll] using hx
      rw [if_pos (List.mem_eraseDups.mpr hx), hknown, List.eraseDups_nil, List.append_nil]
    · have hnew : [key x].removeAll (items.map key) = [key x] := by
        simpa [List.removeAll] using hx
      rw [if_neg (mt List.mem_eraseDups.mp hx), hnew]
      rfl

/-- Every item is filed under its own key. -/
theorem map_key_values (items : List ν) :
    (bestOf key rank items).values.map key = (bestOf key rank items).keys := by
  rw [values, keys, List.map_map]
  refine List.map_congr_left fun e he => ?_
  have hget := get?_eq_some.mpr (show (e.1, e.2) ∈ (bestOf key rank items).entries from he)
  rw [get?_bestOf] at hget
  exact of_decide_eq_true (List.mem_filter.mp (List.argmax_mem (Option.mem_def.mpr hget))).2

/-- The first maximum of a list exceeds what is before it and bounds what is after it. -/
theorem argmax_eq_some_iff {l : List ν} {m : ν} :
    l.argmax rank = some m ↔ ∃ pre post, l = pre ++ m :: post ∧
      (∀ x ∈ pre, rank x < rank m) ∧ ∀ x ∈ post, rank x ≤ rank m := by
  constructor
  · intro h
    induction l using List.reverseRecOn generalizing m with
    | nil => exact nomatch h
    | append_singleton l x ih =>
      rw [List.argmax_concat] at h
      cases hl : l.argmax rank with
      | none =>
        rw [hl] at h
        rw [List.argmax_eq_none.mp hl, ← Option.some.inj h]
        exact ⟨[], [], rfl, by simp, by simp⟩
      | some c =>
        rw [hl] at h
        obtain ⟨pre, post, rfl, hpre, hpost⟩ := ih hl
        simp only at h
        split at h
        · rename_i hlt
          rw [← Option.some.inj h]
          refine ⟨pre ++ c :: post, [], rfl, fun y hy => ?_, by simp⟩
          rcases List.mem_append.mp hy with hy | hy
          · exact (hpre y hy).trans hlt
          · rcases List.mem_cons.mp hy with rfl | hy
            · exact hlt
            · exact (hpost y hy).trans_lt hlt
        · rename_i hnot
          rw [← Option.some.inj h]
          refine ⟨pre, post ++ [x], by simp, hpre, fun y hy => ?_⟩
          rcases List.mem_append.mp hy with hy | hy
          · exact hpost y hy
          · exact List.mem_singleton.mp hy ▸ not_lt.mp hnot
  · intro h
    obtain ⟨pre, post, rfl, hpre, hpost⟩ := h
    induction post using List.reverseRecOn with
    | nil =>
      rw [List.argmax_concat]
      cases hl : pre.argmax rank with
      | none => rfl
      | some c =>
        have hc := hpre c (List.argmax_mem (Option.mem_def.mpr hl))
        simp only [hc, if_true]
    | append_singleton post x ih =>
      have hrest := ih fun y hy => hpost y (List.mem_append_left _ hy)
      have hx := hpost x (List.mem_append_right _ (List.mem_singleton_self x))
      rw [← List.cons_append, ← List.append_assoc, List.argmax_concat, hrest]
      simp only [not_lt.mpr hx, if_false]

/-- An item is kept when it beats the earlier items of its key and ties at worst
with the later ones. -/
theorem mem_values_bestOf {items : List ν} {m : ν} :
    m ∈ (bestOf key rank items).values ↔ ∃ pre post, items = pre ++ m :: post ∧
      (∀ x ∈ pre, key x = key m → rank x < rank m) ∧
        ∀ x ∈ post, key x = key m → rank x ≤ rank m := by
  rw [mem_values]
  constructor
  · intro h
    obtain ⟨k, hk⟩ := h
    rw [get?_bestOf, argmax_eq_some_iff] at hk
    obtain ⟨pre, post, hsplit, hpre, hpost⟩ := hk
    obtain ⟨l₁, l₂, rfl, rfl, htail⟩ := List.filter_eq_append_iff.mp hsplit
    obtain ⟨l₃, l₄, rfl, hnone, hkey, rfl⟩ := List.filter_eq_cons_iff.mp htail
    have hmk : key m = k := of_decide_eq_true hkey
    refine ⟨l₁ ++ l₃, l₄, by simp, fun x hx hxk => ?_, fun x hx hxk => ?_⟩
    · rcases List.mem_append.mp hx with hx | hx
      · exact hpre x (List.mem_filter.mpr ⟨hx, decide_eq_true (hxk.trans hmk)⟩)
      · exact absurd (decide_eq_true (hxk.trans hmk)) (hnone x hx)
    · exact hpost x (List.mem_filter.mpr ⟨hx, decide_eq_true (hxk.trans hmk)⟩)
  · intro h
    obtain ⟨pre, post, rfl, hpre, hpost⟩ := h
    refine ⟨key m, ?_⟩
    rw [get?_bestOf, argmax_eq_some_iff]
    refine ⟨pre.filter fun x => decide (key x = key m), post.filter fun x => decide (key x = key m),
      ?_, fun x hx => ?_, fun x hx => ?_⟩
    · have hm : decide (key m = key m) = true := decide_eq_true rfl
      rw [List.filter_append, List.filter_cons, hm, if_pos rfl]
    · obtain ⟨hx, hxk⟩ := List.mem_filter.mp hx
      exact hpre x hx (of_decide_eq_true hxk)
    · obtain ⟨hx, hxk⟩ := List.mem_filter.mp hx
      exact hpost x hx (of_decide_eq_true hxk)

/-- The same, for items numbered in order by `tag`. -/
theorem mem_values_bestOf_of_tags {tag : ν → Nat} {items : List ν}
    (ht : items.Pairwise fun x y => tag x < tag y) {m : ν} :
    m ∈ (bestOf key rank items).values ↔ m ∈ items ∧ ∀ x ∈ items, key x = key m →
      (tag x < tag m → rank x < rank m) ∧ (tag m < tag x → rank x ≤ rank m) := by
  rw [mem_values_bestOf]
  constructor
  · intro h
    obtain ⟨pre, post, rfl, hpre, hpost⟩ := h
    obtain ⟨-, htail, hcross⟩ := List.pairwise_append.mp ht
    refine ⟨List.mem_append_right _ List.mem_cons_self, fun x hx hk => ?_⟩
    rcases List.mem_append.mp hx with hx | hx
    · have hlt := hcross x hx m List.mem_cons_self
      exact ⟨fun _ => hpre x hx hk, fun h => absurd h (by omega)⟩
    · rcases List.mem_cons.mp hx with rfl | hx
      · exact ⟨fun h => absurd h (lt_irrefl _), fun h => absurd h (lt_irrefl _)⟩
      · have hlt := (List.pairwise_cons.mp htail).1 x hx
        exact ⟨fun h => absurd h (by omega), fun _ => hpost x hx hk⟩
  · intro h
    obtain ⟨hm, hbest⟩ := h
    obtain ⟨pre, post, rfl⟩ := List.append_of_mem hm
    obtain ⟨-, htail, hcross⟩ := List.pairwise_append.mp ht
    refine ⟨pre, post, rfl, fun x hx hk => ?_, fun x hx hk => ?_⟩
    · have hin : x ∈ pre ++ m :: post := List.mem_append_left _ hx
      exact (hbest x hin hk).1 (hcross x hx m List.mem_cons_self)
    · have hin : x ∈ pre ++ m :: post := List.mem_append_right _ (List.mem_cons_of_mem m hx)
      exact (hbest x hin hk).2 ((List.pairwise_cons.mp htail).1 x hx)

end Best

end Dict

end Outreach.Library
