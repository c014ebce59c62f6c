import Outreach.Library.Words

/-!
# Separators of more than one character, and `multipart/form-data`

`split` and `partition` take the occurrences from left to right. A separator that no
piece holds, and that cannot run across the end of one, is found where it was put:
what is split is then what was joined.
-/

namespace Outreach.Library

set_option autoImplicit false

section Sequences

variable {α : Type*} [DecidableEq α]

/-- `piece` is what was read since the last separator, `skip` what is left of one. -/
def splitSeqFrom (sep : List α) : List α → Nat → List α → List (List α)
  | piece, _, [] => [piece.reverse]
  | piece, skip + 1, _ :: cs => splitSeqFrom sep piece skip cs
  | piece, 0, c :: cs =>
      if sep.isPrefixOf (c :: cs) then piece.reverse :: splitSeqFrom sep [] (sep.length - 1) cs
      else splitSeqFrom sep (c :: piece) 0 cs

/-- `s.split(sep)` -/
def splitSeq (sep s : List α) : List (List α) := splitSeqFrom sep [] 0 s

/-- `s.partition(sep)`, without the separator. -/
def partitionSeq (sep : List α) : List α → List α × List α
  | [] => ([], [])
  | c :: cs =>
      if sep.isPrefixOf (c :: cs) then ([], (c :: cs).drop sep.length)
      else ((partitionSeq sep cs).map (c :: ·) id)

/-- `s.removesuffix(suffix)` -/
def removeSuffix (suffix s : List α) : List α :=
  if suffix.isSuffixOf s then s.take (s.length - suffix.length) else s

variable {sep s t : List α} {c : α}

/-- No occurrence of the separator starts in `s`, where `t` follows. -/
def Absent (sep s t : List α) : Prop :=
  ∀ before after, s = before ++ after → after ≠ [] → ¬ sep <+: after ++ t

omit [DecidableEq α] in
theorem Absent.tail (h : Absent sep (c :: s) t) : Absent sep s t :=
  fun before after hs => h (c :: before) after (hs ▸ rfl)

omit [DecidableEq α] in
/-- An occurrence lies within the piece, if it cannot hold the last character. -/
theorem absent_of_ends (hc : c ∉ sep) (h : ¬ sep <:+: s ++ [c]) : Absent sep (s ++ [c]) t := by
  intro before after hs hne hprefix
  have hlast : c ∈ after := by
    have hend : after.getLast hne = c := by
      have hsame : (s ++ [c]).getLast (by simp) = (before ++ after).getLast (by simp [hne]) := by
        simp only [hs]
      rw [List.getLast_append_of_ne_nil _ hne] at hsame
      simpa using hsame.symm
    exact hend ▸ List.getLast_mem hne
  rcases List.prefix_or_prefix_of_prefix hprefix (List.prefix_append after t) with hin | hover
  · exact h (hs ▸ hin.isInfix.trans (List.suffix_append before after).isInfix)
  · exact hc (hover.subset hlast)

omit [DecidableEq α] in
/-- An occurrence does not run across a character that it does not hold. -/
theorem not_infix_append_cons (hc : c ∉ sep) (hs : ¬ sep <:+: s) (ht : ¬ sep <:+: t) :
    ¬ sep <:+: s ++ c :: t := by
  rintro ⟨x, y, h⟩
  rcases List.append_eq_append_iff.mp h with ⟨u, hs', -⟩ | ⟨u, hx, hct⟩
  · exact hs ⟨x, u, hs'.symm⟩
  · cases u with
    | nil =>
      rw [List.append_nil] at hx
      exact hs ⟨x, [], by rw [List.append_nil, hx]⟩
    | cons d u =>
      obtain ⟨rfl, ht'⟩ := List.cons.inj hct
      rcases List.append_eq_append_iff.mp hx with ⟨v, -, hsep⟩ | ⟨v, -, hcu⟩
      · exact hc (hsep ▸ List.mem_append_right v List.mem_cons_self)
      · cases v with
        | nil =>
          have hsep : c :: u = sep := hcu
          exact hc (hsep ▸ List.mem_cons_self)
        | cons e v =>
          obtain ⟨-, hu⟩ := List.cons.inj hcu
          exact ht ⟨v, y, by rw [ht', hu]; rfl⟩

theorem hasInfix_iff {w : List α} : hasInfix w s = true ↔ w <:+: s := by
  induction s with
  | nil => rw [hasInfix, List.isPrefixOf_iff_prefix, List.prefix_nil, List.infix_nil]
  | cons d s ih =>
    rw [hasInfix, Bool.or_eq_true, List.isPrefixOf_iff_prefix, ih, List.infix_cons_iff]

theorem splitSeqFrom_skip (piece u s : List α) :
    splitSeqFrom sep piece u.length (u ++ s) = splitSeqFrom sep piece 0 s := by
  induction u with
  | nil => rfl
  | cons d u ih => exact ih

theorem splitSeqFrom_absent (hne : sep ≠ []) (h : Absent sep s (sep ++ t)) (piece : List α) :
    splitSeqFrom sep piece 0 (s ++ (sep ++ t)) =
      (piece.reverse ++ s) :: splitSeqFrom sep [] 0 t := by
  induction s generalizing piece with
  | nil =>
    obtain ⟨d, u, rfl⟩ := List.exists_cons_of_ne_nil hne
    have hfound : (d :: u).isPrefixOf (d :: (u ++ t)) = true :=
      List.isPrefixOf_iff_prefix.mpr ⟨t, rfl⟩
    rw [List.nil_append, List.cons_append, splitSeqFrom, if_pos hfound, List.append_nil,
      List.length_cons, Nat.add_sub_cancel, splitSeqFrom_skip]
  | cons d s ih =>
    have hnot : ¬ sep.isPrefixOf (d :: (s ++ (sep ++ t))) = true := fun hprefix =>
      h [] (d :: s) rfl (List.cons_ne_nil d s) (List.isPrefixOf_iff_prefix.mp hprefix)
    rw [List.cons_append, splitSeqFrom, if_neg hnot, ih h.tail, List.reverse_cons,
      List.append_assoc]
    rfl

theorem splitSeqFrom_last (h : Absent sep s []) (piece : List α) :
    splitSeqFrom sep piece 0 s = [piece.reverse ++ s] := by
  induction s generalizing piece with
  | nil => rw [splitSeqFrom, List.append_nil]
  | cons d s ih =>
    have hnot : ¬ sep.isPrefixOf (d :: s) = true := fun hprefix =>
      h [] (d :: s) rfl (List.cons_ne_nil d s)
        ((List.append_nil (d :: s)).symm ▸ List.isPrefixOf_iff_prefix.mp hprefix)
    rw [splitSeqFrom, if_neg hnot, ih h.tail, List.reverse_cons, List.append_assoc]
    rfl

theorem partitionSeq_absent (hne : sep ≠ []) (h : Absent sep s (sep ++ t)) :
    partitionSeq sep (s ++ (sep ++ t)) = (s, t) := by
  induction s with
  | nil =>
    obtain ⟨d, u, rfl⟩ := List.exists_cons_of_ne_nil hne
    have hfound : (d :: u).isPrefixOf (d :: (u ++ t)) = true :=
      List.isPrefixOf_iff_prefix.mpr ⟨t, rfl⟩
    rw [List.nil_append, List.cons_append, partitionSeq, if_pos hfound, ← List.cons_append,
      List.drop_left]
  | cons d s ih =>
    have hnot : ¬ sep.isPrefixOf (d :: (s ++ (sep ++ t))) = true := fun hprefix =>
      h [] (d :: s) rfl (List.cons_ne_nil d s) (List.isPrefixOf_iff_prefix.mp hprefix)
    rw [List.cons_append, partitionSeq, if_neg hnot, ih h.tail]
    rfl

theorem removeSuffix_append (s suffix : List α) : removeSuffix suffix (s ++ suffix) = s := by
  rw [removeSuffix, if_pos (List.isSuffixOf_iff_suffix.mpr (List.suffix_append s suffix)),
    List.length_append, Nat.add_sub_cancel, List.take_left]

end Sequences

/-! ## Form data -/

def crlf : Text := ['\r', '\n']

def delimiter (boundary : Text) : Text := '-' :: '-' :: boundary

/-- The header of a field, but for its name. -/
def disposition : Text := "Content-Disposition: form-data; name=".toList

def fieldHeader (name : Text) : Text := '\r' :: '\n' :: (disposition ++ '"' :: (name ++ ['"']))

/-- A field, after its delimiter. -/
def fieldPart (field : Text × Text) : Text :=
  fieldHeader field.1 ++ (crlf ++ crlf ++ (field.2 ++ crlf))

def formBody (boundary : Text) (fields : List (Text × Text)) : Text :=
  fields.flatMap (fun field => delimiter boundary ++ fieldPart field) ++
    (delimiter boundary ++ ('-' :: '-' :: crlf))

/-- The boundary does not occur in the field, and the name is one that needs no escape. -/
structure Fits (boundary : Text) (field : Text × Text) : Prop where
  named : field.1 ≠ []
  quote : '"' ∉ field.1
  line : '\r' ∉ field.1
  name : ¬ delimiter boundary <:+: field.1
  value : ¬ delimiter boundary <:+: field.2

/-- A boundary of one line, without quotes. -/
structure Boundary (boundary : Text) : Prop where
  nonempty : boundary ≠ []
  quote : '"' ∉ boundary
  carriage : '\r' ∉ boundary
  feed : '\n' ∉ boundary

section Form

variable {boundary : Text} {field : Text × Text}

theorem delimiter_spec (h : Boundary boundary) : '"' ∉ delimiter boundary ∧
    '\r' ∉ delimiter boundary ∧ '\n' ∉ delimiter boundary ∧
    ¬ delimiter boundary <:+: ([] : Text) ∧ ¬ delimiter boundary <:+: disposition := by
  refine ⟨?_, ?_, ?_, ?_, ?_⟩
  · simp only [delimiter, List.mem_cons, not_or]
    exact ⟨by decide, by decide, h.quote⟩
  · simp only [delimiter, List.mem_cons, not_or]
    exact ⟨by decide, by decide, h.carriage⟩
  · simp only [delimiter, List.mem_cons, not_or]
    exact ⟨by decide, by decide, h.feed⟩
  · exact fun hwithin => List.cons_ne_nil _ _ (List.infix_nil.mp hwithin)
  · intro hwithin
    have hdashes : ['-', '-'] <:+: disposition :=
      (List.IsPrefix.isInfix ⟨boundary, rfl⟩).trans hwithin
    exact absurd hdashes (by decide +kernel)

/-- The delimiter is not in a field, nor across its end. -/
theorem absent_fieldPart (hboundary : Boundary boundary) (h : Fits boundary field) (t : Text) :
    Absent (delimiter boundary) (fieldPart field) t := by
  obtain ⟨hquote, hcarriage, hfeed, hnil, hdisposition⟩ := delimiter_spec hboundary
  have hsplit : fieldPart field = [] ++ '\r' :: ([] ++ '\n' :: (disposition ++ '"' ::
      (field.1 ++ '"' :: ([] ++ '\r' :: ([] ++ '\n' :: ([] ++ '\r' :: ([] ++ '\n' ::
        (field.2 ++ '\r' :: [])))))))) ++ ['\n'] := by
    simp [fieldPart, fieldHeader, crlf]
  rw [hsplit]
  refine absent_of_ends hfeed ?_
  rw [← hsplit]
  have hend : ¬ delimiter boundary <:+: field.2 ++ '\r' :: ([] ++ '\n' :: []) :=
    not_infix_append_cons hcarriage h.value (not_infix_append_cons hfeed hnil hnil)
  have hafter := not_infix_append_cons hcarriage hnil (not_infix_append_cons hfeed hnil
    (not_infix_append_cons hcarriage hnil (not_infix_append_cons hfeed hnil hend)))
  have hname := not_infix_append_cons hquote hdisposition
    (not_infix_append_cons hquote h.name hafter)
  have hpart := not_infix_append_cons hcarriage hnil (not_infix_append_cons hfeed hnil hname)
  simpa [fieldPart, fieldHeader, crlf] using hpart

theorem absent_end (hboundary : Boundary boundary) (t : Text) :
    Absent (delimiter boundary) ('-' :: '-' :: crlf) t := by
  obtain ⟨-, hcarriage, hfeed, hnil, -⟩ := delimiter_spec hboundary
  have hdashes : ¬ delimiter boundary <:+: ['-', '-'] := by
    intro hwithin
    have hlength := hwithin.length_le
    have hpos := List.length_pos_of_ne_nil hboundary.nonempty
    simp only [delimiter, List.length_cons, List.length_nil] at hlength
    omega
  refine absent_of_ends (s := ['-', '-', '\r']) hfeed ?_
  show ¬ delimiter boundary <:+: ['-', '-'] ++ '\r' :: ([] ++ '\n' :: [])
  exact not_infix_append_cons hcarriage hdashes (not_infix_append_cons hfeed hnil hnil)

/-- The parts between the delimiters, after a piece that holds none. -/
theorem splitSeqFrom_formBody (hboundary : Boundary boundary) {fields : List (Text × Text)}
    (h : ∀ field ∈ fields, Fits boundary field) (s : Text)
    (hs : ∀ t, Absent (delimiter boundary) s t) :
    splitSeqFrom (delimiter boundary) [] 0 (s ++ formBody boundary fields) =
      s :: (fields.map fieldPart ++ ['-' :: '-' :: crlf]) := by
  have hne : delimiter boundary ≠ [] := List.cons_ne_nil _ _
  induction fields generalizing s with
  | nil =>
    rw [formBody, List.flatMap_nil, List.nil_append, splitSeqFrom_absent hne (hs _),
      splitSeqFrom_last (absent_end hboundary [])]
    rfl
  | cons field fields ih =>
    obtain ⟨hfield, hfields⟩ := List.forall_mem_cons.mp h
    have hbody : formBody boundary (field :: fields) =
        delimiter boundary ++ (fieldPart field ++ formBody boundary fields) := by
      rw [formBody, List.flatMap_cons, List.append_assoc, List.append_assoc]
      rfl
    rw [hbody, splitSeqFrom_absent hne (hs _),
      ih hfields _ fun t => absent_fieldPart hboundary hfield t]
    rfl

theorem splitSeq_formBody (hboundary : Boundary boundary) {fields : List (Text × Text)}
    (h : ∀ field ∈ fields, Fits boundary field) :
    splitSeq (delimiter boundary) (formBody boundary fields) =
      [] :: (fields.map fieldPart ++ ['-' :: '-' :: crlf]) := by
  refine splitSeqFrom_formBody hboundary h [] fun t before after hs hne => ?_
  exact absurd (List.append_eq_nil_iff.mp hs.symm).2 hne

/-- The header ends at the first empty line, and the value goes up to the last line end. -/
theorem partition_fieldPart (hline : '\r' ∉ field.1) :
    partitionSeq (crlf ++ crlf) (fieldPart field) = (fieldHeader field.1, field.2 ++ crlf) := by
  have hblank : '"' ∉ crlf ++ crlf := by decide
  have hhead : ¬ crlf ++ crlf <:+: '\r' :: '\n' :: disposition := by decide +kernel
  have hname : ¬ crlf ++ crlf <:+: field.1 := fun hwithin => hline (hwithin.subset (by decide))
  have hnil : ¬ crlf ++ crlf <:+: ([] : Text) := by decide
  have habsent : Absent (crlf ++ crlf) (fieldHeader field.1)
      (crlf ++ crlf ++ (field.2 ++ crlf)) := by
    have hsplit : fieldHeader field.1 =
        ('\r' :: '\n' :: disposition) ++ '"' :: field.1 ++ ['"'] := by
      simp [fieldHeader]
    rw [hsplit]
    refine absent_of_ends hblank ?_
    rw [List.append_assoc]
    exact not_infix_append_cons hblank hhead (not_infix_append_cons hblank hname hnil)
  exact partitionSeq_absent (by decide) habsent

end Form

end Outreach.Library
