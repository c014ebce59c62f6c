import Outreach.Library.JsonRoundTrip
import Outreach.Library.Lines
import Outreach.Library.Dict

/-!
# The hand-off between two steps: `cleansing/pipeline_io.py`

A step writes one JSON object to a line, and the next one cuts the object of the
bucket into lines again. Both sides use UTF-8, so the body is a text here.
-/

namespace Outreach.Cleansing

open Outreach.Library

set_option autoImplicit false

section Io

variable {φ : Type} (F : Floats φ) (limit : Nat)

/-- The body that `write_ndjson` puts; `none` where `json.dumps` raises. -/
def writeNdjson (rows : List (JsonValue φ)) : Option Text :=
  (rows.mapM (Json.tryDumps F limit)).map unlines

/-- `read_ndjson` of a body. -/
def readNdjson (body : Text) : Except Json.LoadsError (List (JsonValue φ)) :=
  ((splitlines body).filter fun line => !line.isEmpty).mapM fun line =>
    Json.loads F limit (Str.ofText line)

end Io

/-- A row: its columns, each with a text or `None`. -/
abbrev TextRow := Dict Text (Option Text)

def cellJson {φ : Type} : Option Text → JsonValue φ
  | none => .null
  | some text => .string (Str.ofText text)

/-- The row as the `dict` that it is. -/
def TextRow.toJson {φ : Type} (row : TextRow) : JsonValue φ :=
  .object (row.entries.map fun e => (Str.ofText e.1, cellJson e.2))

/-- The row is known from its `dict`. -/
theorem TextRow.toJson_injective {φ : Type} {row row' : TextRow}
    (h : row.toJson (φ := φ) = row'.toJson) : row = row' := by
  have hcell : ∀ v w : Option Text, cellJson (φ := φ) v = cellJson w → v = w := by
    intro v w hvw
    cases v with
    | none =>
      cases w with
      | none => rfl
      | some text => cases hvw
    | some text =>
      cases w with
      | none => cases hvw
      | some text' => exact congrArg some (Str.ofText_injective (JsonValue.string.inj hvw))
  have hentry : Function.Injective fun e : Text × Option Text =>
      (Str.ofText e.1, cellJson (φ := φ) e.2) := by
    intro e e' he
    obtain ⟨hkey, hvalue⟩ := Prod.mk.inj he
    exact Prod.ext (Str.ofText_injective hkey) (hcell _ _ hvalue)
  have hentries := List.map_injective_iff.mpr hentry (JsonValue.object.inj h)
  cases row
  cases row'
  cases hentries
  rfl

/-! ## What is written has no line boundary -/

def isPrintableAscii (c : Char) : Bool := 0x20 ≤ c.toNat && c.toNat ≤ 0x7E

theorem not_boundary_of_printable {c : Char} (h : isPrintableAscii c = true) :
    isLineBoundary c = false := by
  rw [isPrintableAscii, Bool.and_eq_true, decide_eq_true_eq, decide_eq_true_eq] at h
  simp only [isLineBoundary, Bool.or_eq_false_iff, Bool.and_eq_false_iff, decide_eq_false_iff_not]
  omega

theorem hexDigit_printable (n : Nat) : isPrintableAscii (Json.hexDigit n) = true := by
  have hall : ∀ k < 16, isPrintableAscii (Nat.digitChar k) = true := by decide
  exact hall (n % 16) (Nat.mod_lt n (by decide))

theorem hexUnit_printable (u : Nat) : ∀ c ∈ Json.hexUnit u, isPrintableAscii c = true := by
  intro c hc
  simp only [Json.hexUnit, List.mem_cons, List.not_mem_nil, or_false] at hc
  rcases hc with rfl | rfl | rfl | rfl | rfl | rfl
  · rfl
  · rfl
  all_goals exact hexDigit_printable _

theorem escaped_printable (p : CodePoint) : ∀ c ∈ Json.escaped p, isPrintableAscii c = true := by
  have htwo : ∀ a b : Char, isPrintableAscii a = true → isPrintableAscii b = true →
      ∀ c ∈ [a, b], isPrintableAscii c = true := by
    intro a b ha hb
    exact List.forall_mem_cons.mpr ⟨ha, List.forall_mem_singleton.mpr hb⟩
  unfold Json.escaped
  extract_lets n
  split_ifs with h1 h2 h3 h4 h5 h6 h7 hprint hsmall
  · exact htwo _ _ rfl rfl
  · exact htwo _ _ rfl rfl
  · exact htwo _ _ rfl rfl
  · exact htwo _ _ rfl rfl
  · exact htwo _ _ rfl rfl
  · exact htwo _ _ rfl rfl
  · exact htwo _ _ rfl rfl
  · -- a printable character stands for itself
    refine List.forall_mem_singleton.mpr ?_
    cases p with
    | scalar c =>
      exact Bool.and_eq_true_iff.mpr ⟨decide_eq_true hprint.1, decide_eq_true hprint.2⟩
    | surrogate k =>
      have hlarge : n = 0xD800 + k.val := rfl
      omega
  · exact hexUnit_printable _
  · exact List.forall_mem_append.mpr ⟨hexUnit_printable _, hexUnit_printable _⟩

theorem dumpsString_printable (s : Str) : ∀ c ∈ Json.dumpsString s, isPrintableAscii c = true := by
  rw [Json.dumpsString]
  refine List.forall_mem_cons.mpr ⟨rfl, List.forall_mem_append.mpr ⟨?_, ?_⟩⟩
  · intro c hc
    obtain ⟨p, -, hc⟩ := List.mem_flatMap.mp hc
    exact escaped_printable p c hc
  · exact List.forall_mem_singleton.mpr rfl

section Rows

variable {φ : Type} {F : Floats φ} {limit : Nat}

theorem cell_printable (v : Option Text) :
    ∀ c ∈ Json.dumps F (cellJson v), isPrintableAscii c = true := by
  cases v with
  | none => exact List.all_eq_true.mp (show ("null".toList).all isPrintableAscii = true by decide)
  | some text => exact dumpsString_printable _

theorem members_printable (entries : List (Text × Option Text)) :
    ∀ c ∈ Json.dumpsMembers F (entries.map fun e => (Str.ofText e.1, cellJson e.2)),
      isPrintableAscii c = true := by
  induction entries with
  | nil => exact List.forall_mem_singleton.mpr rfl
  | cons e entries ih =>
    have hcomma : ∀ c ∈ ", ".toList, isPrintableAscii c = true :=
      List.all_eq_true.mp (by decide)
    have hcolon : ∀ c ∈ ": ".toList, isPrintableAscii c = true :=
      List.all_eq_true.mp (by decide)
    rw [List.map_cons, Json.dumpsMembers]
    simp only [List.forall_mem_append]
    exact ⟨⟨⟨⟨hcomma, dumpsString_printable _⟩, hcolon⟩, cell_printable e.2⟩, ih⟩

/-- The line of a row. -/
theorem row_printable (row : TextRow) :
    ∀ c ∈ Json.dumps F row.toJson, isPrintableAscii c = true := by
  rw [TextRow.toJson]
  cases row.entries with
  | nil => exact List.all_eq_true.mp (show ("\x7b\x7d".toList).all isPrintableAscii = true by decide)
  | cons e entries =>
    have hcolon : ∀ c ∈ ": ".toList, isPrintableAscii c = true :=
      List.all_eq_true.mp (by decide)
    rw [List.map_cons, Json.dumps]
    refine List.forall_mem_cons.mpr ⟨rfl, ?_⟩
    simp only [List.forall_mem_append]
    exact ⟨⟨⟨dumpsString_printable _, hcolon⟩, cell_printable e.2⟩, members_printable entries⟩

theorem row_ne_nil (row : TextRow) : Json.dumps F row.toJson ≠ [] := by
  rw [TextRow.toJson]
  cases row.entries with
  | nil => exact List.cons_ne_nil _ _
  | cons e entries => exact List.cons_ne_nil _ _

/-! ## What is read -/

theorem reread_cell (v : Option Text) : Json.reread F (cellJson v) = cellJson v := by
  cases v with
  | none => rfl
  | some text =>
    show JsonValue.string (Json.joined (Str.ofText text)) = _
    rw [Json.joined_ofText]
    rfl

theorem reread_row (row : TextRow) : Json.reread F row.toJson = row.toJson := by
  have hkeys : (row.entries.map fun e => (Str.ofText e.1, cellJson (φ := φ) e.2)).map Prod.fst =
      row.keys.map Str.ofText := by
    rw [Dict.keys, List.map_map, List.map_map]
    rfl
  have hnodup : (row.keys.map Str.ofText).Nodup :=
    row.nodup.map fun _ _ => Str.ofText_injective
  have hjoined : ∀ key ∈ row.keys.map Str.ofText, Json.joined key = key := by
    intro key hkey
    obtain ⟨text, -, rfl⟩ := List.mem_map.mp hkey
    exact Json.joined_ofText text
  have hread : Json.rereadMembers F [] (row.entries.map fun e => (Str.ofText e.1, cellJson e.2)) =
      [] ++ (row.entries.map fun e => (Str.ofText e.1, cellJson e.2)).map fun m =>
        (m.1, Json.reread F m.2) := by
    apply Json.rereadMembers_nodup
    · rw [hkeys]
      exact hjoined
    · rw [List.nil_append, hkeys]
      exact hnodup
  show JsonValue.object (Json.rereadMembers F [] _) = _
  rw [hread, List.nil_append, List.map_map]
  refine congrArg JsonValue.object (List.map_congr_left fun e _ => ?_)
  rw [Function.comp_apply, reread_cell]

/-- A row can be written: it nests one container, and has no number. -/
theorem tryDumps_row (row : TextRow) :
    Json.tryDumps F (limit + 1) row.toJson = some (Json.dumps F row.toJson) ∧
      Json.depth (φ := φ) row.toJson ≤ limit + 1 ∧ Json.Short (φ := φ) row.toJson := by
  have hcells : ∀ entries : List (Text × Option Text),
      Json.depthMembers (φ := φ) (entries.map fun e => (Str.ofText e.1, cellJson e.2)) = 0 ∧
        Json.ShortMembers (φ := φ) (entries.map fun e => (Str.ofText e.1, cellJson e.2)) := by
    intro entries
    induction entries with
    | nil => exact ⟨rfl, trivial⟩
    | cons e entries ih =>
      have hcell : Json.depth (φ := φ) (cellJson e.2) = 0 ∧ Json.Short (φ := φ) (cellJson e.2) := by
        cases e.2 with
        | none => exact ⟨rfl, trivial⟩
        | some text => exact ⟨rfl, trivial⟩
      rw [List.map_cons, Json.depthMembers, Json.ShortMembers, hcell.1, ih.1]
      exact ⟨rfl, hcell.2, ih.2⟩
  have hdepth : Json.depth (φ := φ) row.toJson ≤ limit + 1 := by
    rw [TextRow.toJson, Json.depth, (hcells row.entries).1]
    exact Nat.le_add_left 1 limit
  have hshort : Json.Short (φ := φ) row.toJson := by
    rw [TextRow.toJson, Json.Short]
    exact (hcells row.entries).2
  exact ⟨if_pos ⟨hdepth, hshort⟩, hdepth, hshort⟩

/-- The writer needs no `repr` for a row. -/
theorem dumps_row_repr (r : φ → Text) (row : TextRow) :
    Json.dumps ⟨F.ofLiteral, r⟩ row.toJson = Json.dumps F row.toJson := by
  have hcell : ∀ v : Option Text,
      Json.dumps ⟨F.ofLiteral, r⟩ (cellJson v) = Json.dumps F (cellJson v) := by
    intro v
    cases v <;> rfl
  have hmembers : ∀ entries : List (Text × Option Text),
      Json.dumpsMembers ⟨F.ofLiteral, r⟩ (entries.map fun e => (Str.ofText e.1, cellJson e.2)) =
        Json.dumpsMembers F (entries.map fun e => (Str.ofText e.1, cellJson e.2)) := by
    intro entries
    induction entries with
    | nil => rfl
    | cons e entries ih => rw [List.map_cons, Json.dumpsMembers, Json.dumpsMembers, hcell, ih]
  rw [TextRow.toJson]
  cases row.entries with
  | nil => rfl
  | cons e entries => rw [List.map_cons, Json.dumps, Json.dumps, hcell, hmembers]

theorem loads_row (row : TextRow) :
    Json.loads F (limit + 1) (Str.ofText (Json.dumps F row.toJson)) = .ok row.toJson := by
  obtain ⟨-, hdepth, hshort⟩ := tryDumps_row (F := F) row
  rw [← dumps_row_repr fun _ => "0.0".toList, ← Json.loads_repr F fun _ => "0.0".toList,
    Json.loads_dumps (Json.lawfulRepr_const F) hshort, if_pos hdepth, reread_row]

theorem mapM_tryDumps (rows : List TextRow) :
    (rows.map TextRow.toJson).mapM (Json.tryDumps F (limit + 1)) =
      some (rows.map fun row => Json.dumps F row.toJson) := by
  induction rows with
  | nil => rfl
  | cons row rows ih =>
    rw [List.map_cons, List.mapM_cons, (tryDumps_row row).1, ih]
    rfl

theorem mapM_loads (rows : List TextRow) :
    (rows.map fun row => Json.dumps F row.toJson).mapM
        (fun line => Json.loads F (limit + 1) (Str.ofText line)) =
      .ok (rows.map TextRow.toJson) := by
  induction rows with
  | nil => rfl
  | cons row rows ih =>
    rw [List.map_cons, List.mapM_cons, loads_row row, ih]
    rfl

variable (F limit) in
/-- What one step writes is what the next one reads, in an interpreter that can nest one
container at least. -/
theorem readNdjson_writeNdjson (rows : List TextRow) :
    ∃ body, writeNdjson F (limit + 1) (rows.map TextRow.toJson) = some body ∧
      readNdjson F (limit + 1) body = .ok (rows.map TextRow.toJson) := by
  have hboundary : ∀ line ∈ rows.map (fun row => Json.dumps F row.toJson),
      ∀ c ∈ line, isLineBoundary c = false := by
    intro line hline c hc
    obtain ⟨row, -, rfl⟩ := List.mem_map.mp hline
    exact not_boundary_of_printable (row_printable row c hc)
  have hlines : (rows.map fun row => Json.dumps F row.toJson).filter (fun line => !line.isEmpty) =
      rows.map fun row => Json.dumps F row.toJson := by
    refine List.filter_eq_self.mpr fun line hline => ?_
    obtain ⟨row, -, rfl⟩ := List.mem_map.mp hline
    rw [Bool.not_eq_true', List.isEmpty_eq_false_iff]
    exact row_ne_nil row
  refine ⟨unlines (rows.map fun row => Json.dumps F row.toJson), ?_, ?_⟩
  · rw [writeNdjson, mapM_tryDumps]
    rfl
  · rw [readNdjson, splitlines_unlines hboundary, hlines, mapM_loads]

end Rows

end Outreach.Cleansing
