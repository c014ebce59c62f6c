import Outreach.Library.Unicode

/-!
# Comma-separated values: the `csv` module and RFC 4180

The reader takes one character at a time. The one of Python forgives what the RFC
does not allow: a quote in the middle of a field, text after a closing quote and a
file that ends inside quotes. The writer quotes what needs it, and ends a row with
a newline. What it writes is read back, by either.
-/

namespace Outreach.Library.Csv

set_option autoImplicit false

/-- A record: its fields, in order. -/
abbrev Record := List Text

structure Dialect where
  strict : Bool
  /-- how long a field may get -/
  fieldLimit : Option Nat

/-- The default dialect of `csv.reader`, with its `field_size_limit`. -/
def python : Dialect := ⟨false, some 131072⟩

def rfc4180 : Dialect := ⟨true, none⟩

/-! ## The reader -/

inductive Mode where
  | startRecord
  | startField
  | inField
  | inQuotedField
  | quoteInQuotedField
  | eatCrnl
  deriving DecidableEq

structure Reader where
  mode : Mode
  /-- the field so far -/
  field : Text
  /-- the fields before it -/
  fields : Record

namespace Reader

def start : Reader := ⟨.startRecord, [], []⟩

/-- `parse_save_field` -/
def save (r : Reader) (mode : Mode) : Reader := ⟨mode, [], r.fields ++ [r.field]⟩

end Reader

section Read

variable (d : Dialect)

/-- `parse_add_char`; `none` for a field that gets too long. -/
def add (r : Reader) (c : Char) (mode : Mode) : Option Reader :=
  if d.fieldLimit.any fun limit => limit ≤ r.field.length then none
  else some { r with mode, field := r.field ++ [c] }

def isNewline (c : Char) : Bool := c = '\n' || c = '\r'

def beginField (r : Reader) (c : Char) : Option Reader :=
  if isNewline c then some (r.save .eatCrnl)
  else if c = '"' then some { r with mode := .inQuotedField }
  else if c = ',' then some (r.save .startField)
  else add d r c .inField

/-- `parse_process_char`; `none` is the `csv.Error`. -/
def step (r : Reader) (c : Char) : Option Reader :=
  match r.mode with
  | .startRecord => if isNewline c then some { r with mode := .eatCrnl } else beginField d r c
  | .startField => beginField d r c
  | .inField =>
      if isNewline c then some (r.save .eatCrnl)
      else if c = ',' then some (r.save .startField)
      else if d.strict && c = '"' then none
      else add d r c .inField
  | .inQuotedField =>
      if c = '"' then some { r with mode := .quoteInQuotedField } else add d r c .inQuotedField
  | .quoteInQuotedField =>
      if c = '"' then add d r c .inQuotedField
      else if c = ',' then some (r.save .startField)
      else if isNewline c then some (r.save .eatCrnl)
      else if d.strict then none
      else add d r c .inField
  | .eatCrnl => if isNewline c then some r else none

/-- The end of the text. -/
def finish (r : Reader) : Option (List Record) :=
  match r.mode with
  | .startRecord => some []
  | .eatCrnl => some [r.fields]
  | .inQuotedField => if d.strict then none else some [r.fields ++ [r.field]]
  | _ => some [r.fields ++ [r.field]]

/-- The records from here on. A line ends with its newline, and a record with its line unless
that is inside quotes. -/
def run (r : Reader) : Text → Option (List Record)
  | [] => finish d r
  | c :: rest =>
      match step d r c with
      | none => none
      | some r =>
          if c = '\n' ∧ r.mode = .eatCrnl then (run .start rest).map (r.fields :: ·) else run r rest

def read (text : Text) : Option (List Record) := run d .start text

end Read

/-! ## The writer -/

/-- The characters that are quoted. -/
def isSpecial (c : Char) : Bool := c = ',' || c = '"' || isNewline c

def doubled (c : Char) : Text := if c = '"' then ['"', '"'] else [c]

def quoted (field : Text) : Text := '"' :: (field.flatMap doubled ++ ['"'])

def writeField (field : Text) : Text := if field.any isSpecial then quoted field else field

/-- The fields with commas between them; the one field of a record is quoted if it is empty. -/
def writeFields : Record → Text
  | [] => []
  | [field] => if field = [] then quoted [] else writeField field
  | fields => List.intercalate [','] (fields.map writeField)

/-- `writer.writerow`, with `lineterminator="\n"` -/
def writeRow (fields : Record) : Text := writeFields fields ++ ['\n']

def write (rows : List Record) : Text := rows.flatMap writeRow

/-! ## What is written is read back -/

section RoundTrip

variable {d : Dialect}

/-- The field is not too long. -/
def Fits (d : Dialect) (field : Text) : Prop := ∀ limit, d.fieldLimit = some limit →
  field.length ≤ limit

theorem fits_rfc4180 (field : Text) : Fits rfc4180 field := fun _ h => nomatch h

theorem add_fits {r : Reader} {c : Char} {rest : Text} (mode : Mode)
    (h : Fits d (r.field ++ c :: rest)) :
    add d r c mode = some { r with mode, field := r.field ++ [c] } := by
  have hroom : (d.fieldLimit.any fun limit => decide (limit ≤ r.field.length)) = false := by
    cases hlimit : d.fieldLimit with
    | none => rfl
    | some limit =>
      have hlen := h limit hlimit
      rw [List.length_append, List.length_cons] at hlen
      exact decide_eq_false (by omega)
  rw [add, hroom]
  rfl

/-- A step that ends no line. -/
theorem run_step {r r' : Reader} {c : Char} (rest : Text) (h : step d r c = some r')
    (hline : c = '\n' → r'.mode ≠ .eatCrnl) : run d r (c :: rest) = run d r' rest := by
  rw [run, h]
  exact if_neg fun hend => hline hend.1 hend.2

theorem run_endLine {r r' : Reader} (rest : Text) (h : step d r '\n' = some r')
    (hmode : r'.mode = .eatCrnl) :
    run d r ('\n' :: rest) = (run d .start rest).map (r'.fields :: ·) := by
  rw [run, h]
  exact if_pos ⟨rfl, hmode⟩

/-- Inside quotes everything is text. -/
theorem run_doubled (s rest : Text) (field : Text) (fields : Record)
    (hfits : Fits d (field ++ s)) :
    run d ⟨.inQuotedField, field, fields⟩ (s.flatMap doubled ++ rest) =
      run d ⟨.inQuotedField, field ++ s, fields⟩ rest := by
  induction s generalizing field with
  | nil => rw [List.flatMap_nil, List.nil_append, List.append_nil]
  | cons c s ih =>
    have hadd (mode : Mode) : add d ⟨mode, field, fields⟩ c .inQuotedField =
        some ⟨.inQuotedField, field ++ [c], fields⟩ := add_fits .inQuotedField hfits
    have hrest := ih (field ++ [c]) (by rwa [List.append_assoc, List.singleton_append])
    rw [List.append_assoc, List.singleton_append] at hrest
    rw [List.flatMap_cons, List.append_assoc, ← hrest]
    by_cases hquote : c = '"'
    · subst hquote
      have hopen : step d ⟨.inQuotedField, field, fields⟩ '"' =
          some ⟨.quoteInQuotedField, field, fields⟩ := rfl
      have hclose : step d ⟨.quoteInQuotedField, field, fields⟩ '"' =
          some ⟨.inQuotedField, field ++ ['"'], fields⟩ := hadd .quoteInQuotedField
      show run d _ ('"' :: '"' :: (s.flatMap doubled ++ rest)) = _
      rw [run_step _ hopen (fun h => absurd h (by decide)),
        run_step _ hclose (fun h => absurd h (by decide))]
    · have hstep : step d ⟨.inQuotedField, field, fields⟩ c =
          some ⟨.inQuotedField, field ++ [c], fields⟩ := (if_neg hquote).trans (hadd _)
      rw [doubled, if_neg hquote]
      exact run_step _ hstep fun _ => Mode.noConfusion

theorem isSpecial_eq_false {c : Char} :
    isSpecial c = false ↔ c ≠ ',' ∧ c ≠ '"' ∧ isNewline c = false := by
  simp [isSpecial, and_assoc]

/-- A plain field is read as it stands, from inside it. -/
theorem run_plain {s : Text} (hplain : ∀ c ∈ s, isSpecial c = false) (rest field : Text)
    (fields : Record) (hfits : Fits d (field ++ s)) :
    run d ⟨.inField, field, fields⟩ (s ++ rest) = run d ⟨.inField, field ++ s, fields⟩ rest := by
  induction s generalizing field with
  | nil => rw [List.nil_append, List.append_nil]
  | cons c s ih =>
    obtain ⟨hc, hs⟩ := List.forall_mem_cons.mp hplain
    obtain ⟨hcomma, hquote, hnewline⟩ := isSpecial_eq_false.mp hc
    have hstep : step d ⟨.inField, field, fields⟩ c = some ⟨.inField, field ++ [c], fields⟩ := by
      have hstrict : (d.strict && decide (c = '"')) = false := by
        rw [decide_eq_false hquote, Bool.and_false]
      show (if isNewline c then _ else if c = ',' then _ else
        if d.strict && decide (c = '"') then _ else _) = _
      rw [hnewline, if_neg Bool.false_ne_true, if_neg hcomma, hstrict,
        if_neg Bool.false_ne_true]
      exact add_fits .inField hfits
    have hrest := ih hs (field ++ [c]) (by rwa [List.append_assoc, List.singleton_append])
    rw [List.append_assoc, List.singleton_append] at hrest
    rw [List.cons_append, run_step _ hstep fun _ => Mode.noConfusion]
    exact hrest

/-- A reader that has just begun a field. -/
def begun (atRecord : Bool) (fields : Record) : Reader :=
  ⟨if atRecord then .startRecord else .startField, [], fields⟩

/-- A written field brings the reader to where its delimiter ends the field. An empty one has
nothing written, and a line that begins with it would be blank. -/
theorem run_field (atRecord : Bool) (s : Text) (fields : Record) (hfits : Fits d s) :
    ∃ r, (∀ rest, run d (begun atRecord fields) (writeField s ++ rest) = run d r rest) ∧
      step d r ',' = some ⟨.startField, [], fields ++ [s]⟩ ∧
      (atRecord = false ∨ s ≠ [] → step d r '\n' = some ⟨.eatCrnl, [], fields ++ [s]⟩) := by
  have hbegin : ∀ c, isNewline c = false →
      step d (begun atRecord fields) c = beginField d (begun atRecord fields) c := by
    intro c hc
    cases atRecord with
    | true => exact if_neg (Bool.eq_false_iff.mp hc)
    | false => rfl
  unfold writeField
  cases hspecial : s.any isSpecial with
  | true =>
    refine ⟨⟨.quoteInQuotedField, s, fields⟩, fun rest => ?_, rfl, fun _ => rfl⟩
    have hopen : step d (begun atRecord fields) '"' = some ⟨.inQuotedField, [], fields⟩ :=
      hbegin '"' rfl
    have hclose : step d ⟨.inQuotedField, s, fields⟩ '"' =
        some ⟨.quoteInQuotedField, s, fields⟩ := rfl
    show run d _ ('"' :: (s.flatMap doubled ++ ['"'] ++ rest)) = _
    rw [run_step _ hopen (fun h => absurd h (by decide)), List.append_assoc,
      run_doubled s _ [] fields hfits, List.nil_append]
    exact run_step _ hclose fun h => absurd h (by decide)
  | false =>
    have hplain : ∀ c ∈ s, isSpecial c = false := by
      intro c hc
      exact Bool.eq_false_iff.mpr (List.any_eq_false.mp hspecial c hc)
    cases s with
    | nil =>
      refine ⟨begun atRecord fields, fun rest => rfl, hbegin ',' rfl, fun h => ?_⟩
      rcases h with rfl | h
      · rfl
      · exact absurd rfl h
    | cons c s =>
      obtain ⟨hc, hs⟩ := List.forall_mem_cons.mp hplain
      obtain ⟨hcomma, hquote, hnewline⟩ := isSpecial_eq_false.mp hc
      refine ⟨⟨.inField, c :: s, fields⟩, fun rest => ?_, rfl, fun _ => rfl⟩
      have hadd : add d (begun atRecord fields) c .inField = some ⟨.inField, [c], fields⟩ :=
        add_fits (r := begun atRecord fields) .inField hfits
      have hstep : step d (begun atRecord fields) c = some ⟨.inField, [c], fields⟩ := by
        rw [hbegin c hnewline, beginField, hnewline, if_neg Bool.false_ne_true, if_neg hquote,
          if_neg hcomma, hadd]
      show run d _ (c :: (s ++ rest)) = _
      rw [run_step _ hstep fun _ => Mode.noConfusion]
      exact run_plain hs rest [c] fields hfits

theorem run_field_comma (atRecord : Bool) (s rest : Text) (fields : Record) (hfits : Fits d s) :
    run d (begun atRecord fields) (writeField s ++ ',' :: rest) =
      run d (begun false (fields ++ [s])) rest := by
  obtain ⟨r, hrun, hcomma, -⟩ := run_field atRecord s fields hfits
  rw [hrun]
  exact run_step rest hcomma fun h => absurd h (by decide)

theorem run_field_newline {atRecord : Bool} {s : Text} (rest : Text) (fields : Record)
    (hfits : Fits d s) (hline : atRecord = false ∨ s ≠ []) :
    run d (begun atRecord fields) (writeField s ++ '\n' :: rest) =
      (run d .start rest).map ((fields ++ [s]) :: ·) := by
  obtain ⟨r, hrun, -, hnewline⟩ := run_field atRecord s fields hfits
  rw [hrun]
  exact run_endLine rest (hnewline hline) rfl

theorem run_field_newline_start {s : Text} (rest : Text) (hfits : Fits d s) (hs : s ≠ []) :
    run d .start (writeField s ++ '\n' :: rest) = (run d .start rest).map ([s] :: ·) := by
  have hrun : run d (begun true []) (writeField s ++ '\n' :: rest) = _ :=
    run_field_newline rest [] hfits (Or.inr hs)
  exact hrun

/-- The fields that follow a comma. -/
theorem run_fields {fs : Record} (hne : fs ≠ []) (hfits : ∀ s ∈ fs, Fits d s) (rest : Text)
    (before : Record) :
    run d (begun false before)
        (List.intercalate [','] (fs.map writeField) ++ '\n' :: rest) =
      (run d .start rest).map ((before ++ fs) :: ·) := by
  induction fs generalizing before with
  | nil => exact absurd rfl hne
  | cons s fs ih =>
    obtain ⟨hs, hfs⟩ := List.forall_mem_cons.mp hfits
    cases fs with
    | nil =>
      rw [List.map_singleton, List.intercalate_singleton]
      exact run_field_newline rest before hs (Or.inl rfl)
    | cons t fs =>
      rw [List.map_cons, List.map_cons, List.intercalate_cons_cons, List.append_assoc,
        List.append_assoc, List.singleton_append, run_field_comma false s _ before hs,
        ← List.map_cons, ih (List.cons_ne_nil _ _) hfs, List.append_assoc]
      rfl

/-- The one field of a record, if it is empty. -/
theorem run_empty_field (rest : Text) :
    run d .start (quoted [] ++ '\n' :: rest) = (run d .start rest).map ([[]] :: ·) := by
  have hopen : step d .start '"' = some ⟨.inQuotedField, [], []⟩ := rfl
  have hclose : step d ⟨.inQuotedField, [], []⟩ '"' = some ⟨.quoteInQuotedField, [], []⟩ := rfl
  have hend : step d ⟨.quoteInQuotedField, [], []⟩ '\n' = some ⟨.eatCrnl, [], [[]]⟩ := rfl
  show run d .start ('"' :: '"' :: '\n' :: rest) = _
  rw [run_step _ hopen (fun h => absurd h (by decide)),
    run_step _ hclose (fun h => absurd h (by decide))]
  exact run_endLine rest hend rfl

theorem run_row {fields : Record} (hne : fields ≠ []) (hfits : ∀ s ∈ fields, Fits d s)
    (rest : Text) :
    run d .start (writeRow fields ++ rest) = (run d .start rest).map (fields :: ·) := by
  rw [writeRow, List.append_assoc, List.singleton_append]
  cases fields with
  | nil => exact absurd rfl hne
  | cons s fs =>
    obtain ⟨hs, hfs⟩ := List.forall_mem_cons.mp hfits
    cases fs with
    | nil =>
      show run d .start ((if s = [] then quoted [] else writeField s) ++ '\n' :: rest) = _
      by_cases hempty : s = []
      · rw [if_pos hempty, hempty]
        exact run_empty_field rest
      · rw [if_neg hempty]
        exact run_field_newline_start rest hs hempty
    | cons t fs =>
      show run d (begun true [])
        (List.intercalate [','] ((s :: t :: fs).map writeField) ++ '\n' :: rest) = _
      rw [List.map_cons, List.map_cons, List.intercalate_cons_cons, List.append_assoc,
        List.append_assoc, List.singleton_append, run_field_comma true s _ [] hs,
        ← List.map_cons, run_fields (List.cons_ne_nil _ _) hfs]
      rfl

/-- What the writer writes is what the reader reads. -/
theorem read_write {rows : List Record} (hne : ∀ row ∈ rows, row ≠ [])
    (hfits : ∀ row ∈ rows, ∀ s ∈ row, Fits d s) : read d (write rows) = some rows := by
  unfold read
  induction rows with
  | nil => rfl
  | cons row rows ih =>
    obtain ⟨hrow, hrows⟩ := List.forall_mem_cons.mp hne
    obtain ⟨hfit, hfitrows⟩ := List.forall_mem_cons.mp hfits
    have hwrite : write (row :: rows) = writeRow row ++ write rows := List.flatMap_cons
    rw [hwrite, run_row hrow hfit, ih hrows hfitrows]
    rfl

end RoundTrip

end Outreach.Library.Csv
