import Outreach.Library.JsonRoundTrip

/-!
# Values that come back as they were written

Without floating point numbers, split surrogate pairs and repeated keys, what
`json.loads` reads is what `json.dumps` was given, whatever the literals mean.
-/

namespace Outreach.Library.Json

set_option autoImplicit false

variable {φ : Type}

mutual

def Plain : JsonValue φ → Prop
  | .float _ => False
  | .string s => joined s = s
  | .array items => PlainItems items
  | .object members => (members.map Prod.fst).Nodup ∧ PlainMembers members
  | _ => True

def PlainItems : List (JsonValue φ) → Prop
  | [] => True
  | v :: items => Plain v ∧ PlainItems items

def PlainMembers : List (Str × JsonValue φ) → Prop
  | [] => True
  | (key, v) :: members => joined key = key ∧ Plain v ∧ PlainMembers members

end

theorem joined_ofString (s : String) : joined (Str.ofString s) = Str.ofString s :=
  joined_ofText s.toList

theorem plainMembers_iff {members : List (Str × JsonValue φ)} :
    PlainMembers members ↔ ∀ m ∈ members, joined m.1 = m.1 ∧ Plain m.2 := by
  induction members with
  | nil => exact iff_of_true trivial (List.forall_mem_nil _)
  | cons m members ih => rw [PlainMembers, ih, List.forall_mem_cons, and_assoc]

theorem plainItems_iff {items : List (JsonValue φ)} :
    PlainItems items ↔ ∀ v ∈ items, Plain v := by
  induction items with
  | nil => exact iff_of_true trivial (List.forall_mem_nil _)
  | cons v items ih => rw [PlainItems, ih, List.forall_mem_cons]

/-- An integer of up to 4300 digits can be written. -/
theorem short_int {n : Int} (h : n.natAbs < 10 ^ maxStrDigits) : Short (φ := φ) (.int n) :=
  (Nat.length_toDigits_le_iff (by decide) (by decide)).mpr h

/-- An integer that is too long is not read at all. -/
theorem intOf_intText_eq {m n : Int} (h : intOf (intText n) = some m) : m = n := by
  by_cases hshort : (Nat.toDigits 10 n.natAbs).length ≤ maxStrDigits
  · exact Option.some.inj (h.symm.trans (intOf_intText hshort))
  · have hnat : natOf (Nat.toDigits 10 n.natAbs) = none := if_neg fun hand => hshort hand.2
    unfold intText at h
    split at h
    · rw [intOf, hnat] at h
      cases h
    · obtain ⟨d, ds, ph, hds, hminus, -⟩ := toDigits_after n.natAbs
      have hintOf : intOf (d :: ds) = (natOf (d :: ds)).map fun n : Nat => (n : Int) :=
        intOf.eq_2 (d :: ds) fun _ h => hminus (List.cons.inj h).1
      rw [hds, hintOf, ← hds, hnat] at h
      cases h

theorem shortItems_iff {items : List (JsonValue φ)} :
    ShortItems items ↔ ∀ v ∈ items, Short v := by
  induction items with
  | nil => exact iff_of_true trivial (List.forall_mem_nil _)
  | cons v items ih => rw [ShortItems, ih, List.forall_mem_cons]

theorem depthItems_le {items : List (JsonValue φ)} {d : Nat} (h : ∀ v ∈ items, depth v ≤ d) :
    depthItems items ≤ d := by
  induction items with
  | nil => exact Nat.zero_le d
  | cons v items ih =>
    obtain ⟨hv, hitems⟩ := List.forall_mem_cons.mp h
    exact Nat.max_le.mpr ⟨hv, ih hitems⟩

section Writer

variable (F : Floats φ) (r : φ → Text)

mutual

theorem Plain.reread : ∀ {v : JsonValue φ}, Plain v → reread F v = v
  | .string _, h => congrArg JsonValue.string h
  | .array _, h => congrArg JsonValue.array (PlainItems.reread h)
  | .object members, h => by
    have hjoined : ∀ key ∈ members.map Prod.fst, joined key = key := by
      intro key hkey
      obtain ⟨m, hm, rfl⟩ := List.mem_map.mp hkey
      exact (plainMembers_iff.mp h.2 m hm).1
    have hread : rereadMembers F [] members = [] ++ members.map fun m => (m.1, Json.reread F m.2) :=
      rereadMembers_nodup hjoined h.1
    rw [Json.reread, hread, List.nil_append, PlainMembers.reread h.2]
  | .null, _ => rfl
  | .bool _, _ => rfl
  | .int _, _ => rfl

theorem PlainItems.reread : ∀ {items : List (JsonValue φ)}, PlainItems items →
    rereadItems F items = items
  | [], _ => rfl
  | _ :: _, h => congrArg₂ List.cons h.1.reread (PlainItems.reread h.2)

theorem PlainMembers.reread : ∀ {members : List (Str × JsonValue φ)}, PlainMembers members →
    (members.map fun m => (m.1, Json.reread F m.2)) = members
  | [], _ => rfl
  | (key, _) :: _, h =>
    congrArg₂ List.cons (congrArg (key, ·) h.2.1.reread) (PlainMembers.reread h.2.2)

end

mutual

/-- Where there is no float, `repr` is not asked. -/
theorem Plain.dumps : ∀ {v : JsonValue φ}, Plain v → dumps ⟨F.ofLiteral, r⟩ v = dumps F v
  | .array [], _ => rfl
  | .array (_ :: _), h => congrArg ('[' :: ·) (congrArg₂ (· ++ ·) h.1.dumps (PlainItems.dumps h.2))
  | .object [], _ => rfl
  | .object ((_, _) :: _), h => by
    rw [Json.dumps, Json.dumps, h.2.2.1.dumps, PlainMembers.dumps h.2.2.2]
  | .null, _ => rfl
  | .bool _, _ => rfl
  | .int _, _ => rfl
  | .string _, _ => rfl

theorem PlainItems.dumps : ∀ {items : List (JsonValue φ)}, PlainItems items →
    dumpsItems ⟨F.ofLiteral, r⟩ items = dumpsItems F items
  | [], _ => rfl
  | _ :: _, h => by rw [dumpsItems, dumpsItems, h.1.dumps, PlainItems.dumps h.2]

theorem PlainMembers.dumps : ∀ {members : List (Str × JsonValue φ)}, PlainMembers members →
    dumpsMembers ⟨F.ofLiteral, r⟩ members = dumpsMembers F members
  | [], _ => rfl
  | (_, _) :: _, h => by rw [dumpsMembers, dumpsMembers, h.2.1.dumps, PlainMembers.dumps h.2.2]

end

theorem Plain.loads_dumps {limit : Nat} {v : JsonValue φ} (h : Plain v) (hshort : Short v) :
    loads F limit (Str.ofText (Json.dumps F v)) =
      if depth v ≤ limit then .ok v else .error .recursion := by
  rw [← h.dumps F fun _ => "0.0".toList, ← loads_repr F fun _ => "0.0".toList,
    Json.loads_dumps (lawfulRepr_const F) hshort, h.reread]

/-- What could be written is read back. -/
theorem Plain.loads_tryDumps {limit : Nat} {v : JsonValue φ} {text : Text} (h : Plain v)
    (hwritten : tryDumps F limit v = some text) : loads F limit (Str.ofText text) = .ok v := by
  rw [tryDumps] at hwritten
  split at hwritten
  · rename_i hfits
    cases hwritten
    rw [h.loads_dumps F hfits.2, if_pos hfits.1]
  · cases hwritten

end Writer

end Outreach.Library.Json
