import Outreach.Library.Json

/-!
# What JSON is written is read back

At any place of a larger text the reader gets through what the writer wrote, or
stops at the container that is one too many. A pair of lone surrogates comes back
as the character of the pair. The integers that the reader returns can be written
again.
-/

namespace Outreach.Library

set_option autoImplicit false

namespace Json

/-! ## What is written is read back -/

section RoundTrip

variable {φ : Type}

/-- A low surrogate after a high one is read as the character of the pair. -/
def joinPoint (acc : Str × Option Nat) (c : CodePoint) : Str × Option Nat :=
  addUnit acc.1 acc.2 c.toNat

/-- The string without split pairs. -/
def joined (s : Str) : Str := (s.foldl joinPoint ([], none)).1

variable (F : Floats φ)

mutual

/-- The value after it was written and read. -/
def reread : JsonValue φ → JsonValue φ
  | .float x => .float (F.ofLiteral (floatText F x))
  | .string s => .string (joined s)
  | .array items => .array (rereadItems items)
  | .object members => .object (rereadMembers [] members)
  | v => v

def rereadItems : List (JsonValue φ) → List (JsonValue φ)
  | [] => []
  | v :: items => reread v :: rereadItems items

def rereadMembers (before : List (Str × JsonValue φ)) :
    List (Str × JsonValue φ) → List (Str × JsonValue φ)
  | [] => before
  | (key, v) :: members => rereadMembers (setMember (joined key) (reread v) before) members

end

/-- `repr` of a float is a literal with a fraction or an exponent, unless it is a special. -/
def LawfulRepr : Prop := ∀ x, F.repr x ∈ ["nan".toList, "inf".toList, "-inf".toList] ∨
  ∃ c cs ph, F.repr x = c :: cs ∧ (Phase.start c).bind (fun ph => ph.after cs) = some ph ∧
    (ph = .fraction ∨ ph = .power)

variable {F} {limit : Nat}

theorem run_append (s : State φ) (a b : Str) :
    run F limit s (a ++ b) = (run F limit s a).bind fun s => run F limit s b := by
  induction a generalizing s with
  | nil => rfl
  | cons c a ih =>
    rw [List.cons_append, run, run]
    cases step F limit s c with
    | error e => rfl
    | ok s => exact ih s

theorem run_cons {s t : State φ} {c : CodePoint} (h : step F limit s c = .ok t) (cs : Str) :
    run F limit s (c :: cs) = run F limit t cs := by
  rw [run, h]
  rfl

theorem run_append_ok {s t : State φ} {a : Str} (h : run F limit s a = .ok t) (b : Str) :
    run F limit s (a ++ b) = run F limit t b := by
  rw [run_append, h]
  rfl

theorem ofText_append (a b : Text) : Str.ofText (a ++ b) = Str.ofText a ++ Str.ofText b :=
  List.map_append

/-! ### Strings -/

theorem hexValue_hexDigit (n : Nat) : hexValue (hexDigit n) = some (n % 16) := by
  have hdigits : ∀ d < 16, hexValue (Nat.digitChar d) = some d := by decide
  exact hdigits _ (Nat.mod_lt n (by decide))

theorem step_hex (stack : List (Frame φ)) (isKey : Bool) (text : Str) (high : Option Nat)
    (owed bits n : Nat) :
    step F limit ⟨stack, .hex isKey text high (owed + 2) bits⟩ (.scalar (hexDigit n)) =
      .ok ⟨stack, .hex isKey text high (owed + 1) (bits * 16 + n % 16)⟩ := by
  simp only [step, CodePoint.shown, hexValue_hexDigit]
  exact if_neg (by omega)

theorem step_hex_last (stack : List (Frame φ)) (isKey : Bool) (text : Str) (high : Option Nat)
    (bits n : Nat) :
    step F limit ⟨stack, .hex isKey text high 1 bits⟩ (.scalar (hexDigit n)) =
      .ok ⟨stack, .string isKey (addUnit text high (bits * 16 + n % 16)).1
        (addUnit text high (bits * 16 + n % 16)).2⟩ := by
  simp only [step, CodePoint.shown, hexValue_hexDigit, if_true]

theorem run_hexUnit (stack : List (Frame φ)) (isKey : Bool) (text : Str) (high : Option Nat)
    {u : Nat} (hu : u < 0x10000) :
    run F limit ⟨stack, .string isKey text high⟩ (Str.ofText (hexUnit u)) =
      .ok ⟨stack, .string isKey (addUnit text high u).1 (addUnit text high u).2⟩ := by
  have hbits : (((0 * 16 + u / 4096 % 16) * 16 + u / 256 % 16) * 16 + u / 16 % 16) * 16 +
      u % 16 = u := by omega
  rw [hexUnit]
  show run F limit _ (.scalar '\\' :: .scalar 'u' :: .scalar (hexDigit (u / 4096)) ::
    .scalar (hexDigit (u / 256)) :: .scalar (hexDigit (u / 16)) :: [.scalar (hexDigit u)]) = _
  rw [run_cons rfl, run_cons rfl, run_cons (step_hex ..), run_cons (step_hex ..),
    run_cons (step_hex ..), run_cons (step_hex_last ..), hbits]
  rfl

/-- What is no surrogate is never joined. -/
theorem addUnit_point (text : Str) (high : Option Nat) {c : CodePoint}
    (hc : ¬ (0xD800 ≤ c.toNat ∧ c.toNat < 0xE000)) :
    addUnit text high c.toNat = (text ++ [c], none) := by
  have hhigh : highOf c.toNat = none := if_neg (by omega)
  unfold addUnit
  rw [CodePoint.ofNat_toNat, hhigh]
  cases high with
  | none => rfl
  | some n => exact if_neg (by omega)

/-- A character beyond the first plane is read from the pair of its code units. -/
theorem addUnit_pair (text : Str) (high : Option Nat) {c : CodePoint} (hc : 0x10000 ≤ c.toNat) :
    addUnit (addUnit text high (0xD800 + (c.toNat - 0x10000) / 1024)).1
        (addUnit text high (0xD800 + (c.toNat - 0x10000) / 1024)).2
        (0xDC00 + (c.toNat - 0x10000) % 1024) = (text ++ [c], none) := by
  have hlt := c.toNat_lt
  have hfirst : addUnit text high (0xD800 + (c.toNat - 0x10000) / 1024) =
      (text ++ [.ofNat (0xD800 + (c.toNat - 0x10000) / 1024)],
        some ((c.toNat - 0x10000) / 1024)) := by
    have hhigh : highOf (0xD800 + (c.toNat - 0x10000) / 1024) =
        some ((c.toNat - 0x10000) / 1024) := by
      rw [highOf, if_pos (by omega), Nat.add_sub_cancel_left]
    unfold addUnit
    rw [hhigh]
    cases high with
    | none => rfl
    | some n => exact if_neg (by omega)
  have hpoint : 0x10000 + (c.toNat - 0x10000) / 1024 * 1024 +
      (0xDC00 + (c.toNat - 0x10000) % 1024 - 0xDC00) = c.toNat := by omega
  rw [hfirst]
  simp only [addUnit]
  rw [if_pos (by omega), hpoint, CodePoint.ofNat_toNat, List.dropLast_concat]

theorem run_unescape (stack : List (Frame φ)) (isKey : Bool) (text : Str) (high : Option Nat)
    {c : CodePoint} {d e : Char} (hc : c.toNat = d.toNat) (he : unescape e = some d)
    (hu : CodePoint.scalar e ≠ .scalar 'u') :
    run F limit ⟨stack, .string isKey text high⟩ (Str.ofText ['\\', e]) =
      .ok ⟨stack, .string isKey (text ++ [c]) none⟩ := by
  obtain rfl : c = .scalar d := CodePoint.toNat_injective hc
  show run F limit _ (.scalar '\\' :: [.scalar e]) = _
  rw [run_cons rfl]
  simp only [run, step, if_neg hu, CodePoint.shown, he]
  rfl

theorem run_printable (stack : List (Frame φ)) (isKey : Bool) (text : Str) (high : Option Nat)
    {c : CodePoint} (hquote : c.toNat ≠ 0x22) (hslash : c.toNat ≠ 0x5C)
    (hrange : 0x20 ≤ c.toNat ∧ c.toNat ≤ 0x7E) :
    run F limit ⟨stack, .string isKey text high⟩ (Str.ofText [c.shown]) =
      .ok ⟨stack, .string isKey (text ++ [c]) none⟩ := by
  have hself : CodePoint.scalar c.shown = c := by
    cases c with
    | scalar c => rfl
    | surrogate n =>
      have hn : (CodePoint.surrogate n).toNat = 0xD800 + n := rfl
      omega
  show run F limit _ [.scalar c.shown] = _
  rw [hself, run_cons]
  · rfl
  · simp only [step]
    rw [if_neg fun h => hquote (congrArg CodePoint.toNat h),
      if_neg fun h => hslash (congrArg CodePoint.toNat h), if_neg (by omega)]

theorem run_escaped (stack : List (Frame φ)) (isKey : Bool) (acc : Str × Option Nat)
    (c : CodePoint) :
    run F limit ⟨stack, .string isKey acc.1 acc.2⟩ (Str.ofText (escaped c)) =
      .ok ⟨stack, .string isKey (joinPoint acc c).1 (joinPoint acc c).2⟩ := by
  have hlt := c.toNat_lt
  by_cases hsmall : c.toNat < 0x10000
  · by_cases hplain : c.toNat < 0x7F
    · -- a short escape, the character itself, or a control character
      rw [joinPoint, addUnit_point acc.1 acc.2 (by omega)]
      unfold escaped
      extract_lets n
      split
      · exact run_unescape _ _ _ _ (d := '"') ‹_› rfl (by decide)
      split
      · exact run_unescape _ _ _ _ (d := '\\') ‹_› rfl (by decide)
      split
      · exact run_unescape _ _ _ _ (d := '\n') ‹_› rfl (by decide)
      split
      · exact run_unescape _ _ _ _ (d := '\r') ‹_› rfl (by decide)
      split
      · exact run_unescape _ _ _ _ (d := '\t') ‹_› rfl (by decide)
      split
      · exact run_unescape _ _ _ _ (d := Char.ofNat 12) ‹_› rfl (by decide)
      split
      · exact run_unescape _ _ _ _ (d := Char.ofNat 8) ‹_› rfl (by decide)
      split
      · exact run_printable _ _ _ _ ‹_› ‹_› ‹_›
      · rw [run_hexUnit _ _ _ _ hsmall, addUnit_point acc.1 acc.2 (by omega)]
    · have hunit : escaped c = hexUnit c.toNat := by
        unfold escaped
        extract_lets n
        simp only [show n = c.toNat from rfl]
        iterate 7 rw [if_neg (by omega)]
        rw [if_neg (by omega), if_pos hsmall]
      rw [hunit]
      exact run_hexUnit _ _ _ _ hsmall
  · have hpair : escaped c = hexUnit (0xD800 + (c.toNat - 0x10000) / 1024) ++
        hexUnit (0xDC00 + (c.toNat - 0x10000) % 1024) := by
      unfold escaped
      extract_lets n
      simp only [show n = c.toNat from rfl]
      iterate 7 rw [if_neg (by omega)]
      rw [if_neg (by omega), if_neg hsmall]
    rw [hpair, ofText_append, run_append_ok (run_hexUnit _ _ _ _ (by omega)),
      run_hexUnit _ _ _ _ (by omega), addUnit_pair acc.1 acc.2 (by omega), joinPoint,
      addUnit_point acc.1 acc.2 (by omega)]

theorem run_points (stack : List (Frame φ)) (isKey : Bool) (s : Str) (acc : Str × Option Nat) :
    run F limit ⟨stack, .string isKey acc.1 acc.2⟩ (Str.ofText (s.flatMap escaped)) =
      .ok ⟨stack, .string isKey (s.foldl joinPoint acc).1 (s.foldl joinPoint acc).2⟩ := by
  induction s generalizing acc with
  | nil => rfl
  | cons c s ih =>
    rw [List.flatMap_cons, ofText_append, run_append_ok (run_escaped stack isKey acc c), ih]
    rfl

theorem run_quoted (stack : List (Frame φ)) (isKey : Bool) (s : Str) :
    run F limit ⟨stack, .string isKey [] none⟩ (Str.ofText (s.flatMap escaped ++ ['"'])) =
      closeString stack isKey (joined s) := by
  rw [ofText_append, run_append_ok (run_points stack isKey s ([], none))]
  show (closeString stack isKey (joined s)).bind _ = _
  cases closeString stack isKey (joined s) <;> rfl

theorem run_string (stack : List (Frame φ)) (s : Str) :
    run F limit ⟨stack, .value⟩ (Str.ofText (dumpsString s)) =
      .ok (complete (.string (joined s)) stack) := by
  show run F limit _ (.scalar '"' :: Str.ofText (s.flatMap escaped ++ ['"'])) = _
  rw [run_cons rfl, run_quoted]
  rfl

theorem run_key {members : List (Str × JsonValue φ)} {key : Str} {stack : List (Frame φ)}
    {mode : Mode φ} (hmode : mode = .member ∨ mode = .key) (s : Str) :
    run F limit ⟨.object members key :: stack, mode⟩ (Str.ofText (dumpsString s)) =
      .ok ⟨.object members (joined s) :: stack, .colon⟩ := by
  show run F limit _ (.scalar '"' :: Str.ofText (s.flatMap escaped ++ ['"'])) = _
  rcases hmode with rfl | rfl
  · rw [run_cons rfl, run_quoted]
    rfl
  · rw [run_cons rfl, run_quoted]
    rfl

/-! ### Numbers -/

/-- Reading goes on from the state as from the one in which the value has taken its place. -/
structure Settled (F : Floats φ) (limit : Nat) (v : JsonValue φ) (stack : List (Frame φ))
    (s : State φ) : Prop where
  step : ∀ c ∈ [',', ']', '}'],
    step F limit s (.scalar c) = step F limit (complete v stack) (.scalar c)
  finish : finish F s = finish F (complete v stack)

theorem Settled.complete (v : JsonValue φ) (stack : List (Frame φ)) :
    Settled F limit v stack (complete v stack) :=
  ⟨fun _ _ => rfl, rfl⟩

theorem step_complete (v : JsonValue φ) (stack : List (Frame φ)) (c : Char) :
    step F limit (complete v stack) (.scalar c) = afterComplete (complete v stack) c := by
  cases stack with
  | nil => rfl
  | cons frame stack => cases frame <;> rfl

theorem run_number (stack : List (Frame φ)) {phase last : Phase} {cs : Text}
    (h : phase.after cs = some last) (text : Text) :
    run F limit ⟨stack, .number phase text⟩ (Str.ofText cs) =
      .ok ⟨stack, .number last (text ++ cs)⟩ := by
  induction cs generalizing phase text with
  | nil =>
    cases h
    rw [List.append_nil]
    rfl
  | cons c cs ih =>
    obtain ⟨next, hnext, h⟩ := Option.bind_eq_some_iff.mp h
    have hstep : step F limit ⟨stack, .number phase text⟩ (.scalar c) =
        .ok ⟨stack, .number next (text ++ [c])⟩ := by
      simp only [step, stepChar, hnext]
    show run F limit _ (.scalar c :: Str.ofText cs) = _
    rw [run_cons hstep, ih h, List.append_assoc, List.singleton_append]

theorem settled_number (stack : List (Frame φ)) {last : Phase} {text : Text} {v : JsonValue φ}
    (hlast : last = .zero ∨ last = .digits ∨ last = .fraction ∨ last = .power)
    (hv : numberValue F last text = .ok v) :
    Settled F limit v stack ⟨stack, .number last text⟩ where
  step c hc := by
    have hnext : last.next c = none := by
      have hall : [',', ']', '}'].all (fun c => (last.next c).isNone) = true := by
        rcases hlast with rfl | rfl | rfl | rfl <;> rfl
      exact Option.isNone_iff_eq_none.mp (List.all_eq_true.mp hall c hc)
    have hminus : ¬ (last = .minus ∧ c = 'I') := by
      rcases hlast with rfl | rfl | rfl | rfl <;> exact fun h => nomatch h.1
    rw [step_complete]
    simp only [Json.step, stepChar, hnext, if_neg hminus, hv]
    rfl
  finish := by
    cases stack with
    | nil => exact hv
    | cons frame stack => cases frame <;> rfl

theorem digits_after {ds : Text} (h : ∀ c ∈ ds, c.isDigit = true) :
    Phase.after .digits ds = some .digits := by
  induction ds with
  | nil => rfl
  | cons c ds ih =>
    obtain ⟨hc, hds⟩ := List.forall_mem_cons.mp h
    have hnext : Phase.next .digits c = some .digits := if_pos hc
    rw [Phase.after, hnext, Option.bind_some, ih hds]

/-- A positive number has no leading zero. -/
theorem toDigits_head {n : Nat} (hn : 0 < n) : ∃ d ds, Nat.toDigits 10 n = d :: ds ∧ d ≠ '0' := by
  induction n using Nat.strongRecOn with
  | ind n ih =>
    by_cases hlt : n < 10
    · have hnonzero : ∀ m < 10, 0 < m → Nat.digitChar m ≠ '0' := by decide
      exact ⟨_, [], Nat.toDigits_of_lt_base hlt, hnonzero n hlt hn⟩
    · obtain ⟨d, ds, hds, hd⟩ := ih (n / 10) (by omega) (by omega)
      refine ⟨d, ds ++ [Nat.digitChar (n % 10)], ?_, hd⟩
      rw [Nat.toDigits_of_base_le (by decide) (by omega), hds, List.cons_append]

theorem toDigits_isDigit (n : Nat) : ∀ c ∈ Nat.toDigits 10 n, c.isDigit = true :=
  fun _ hc => Nat.isDigit_of_mem_toDigits (by decide) (by decide) hc

/-- The digits of a number are read as a number, after a minus sign as well. -/
theorem toDigits_after (n : Nat) : ∃ d ds ph, Nat.toDigits 10 n = d :: ds ∧ d ≠ '-' ∧
    Phase.start d = some ph ∧ Phase.next .minus d = some ph ∧
    (ph.after ds = some .zero ∨ ph.after ds = some .digits) := by
  rcases Nat.eq_zero_or_pos n with rfl | hn
  · exact ⟨'0', [], .zero, rfl, by decide, rfl, rfl, Or.inl rfl⟩
  · obtain ⟨d, ds, hds, hzero⟩ := toDigits_head hn
    have hall := toDigits_isDigit n
    rw [hds] at hall
    obtain ⟨hd, hrest⟩ := List.forall_mem_cons.mp hall
    have hminus : d ≠ '-' := by
      rintro rfl
      exact nomatch hd
    refine ⟨d, ds, .digits, hds, hminus, ?_, ?_, Or.inr (digits_after hrest)⟩
    · rw [Phase.start, if_neg hminus, if_neg hzero, if_pos hd]
    · rw [Phase.next, if_neg hzero, if_pos hd]

theorem intText_after (n : Int) : ∃ c cs ph last, intText n = c :: cs ∧ Phase.start c = some ph ∧
    ph.after cs = some last ∧ (last = .zero ∨ last = .digits) := by
  obtain ⟨d, ds, ph, hds, -, hstart, hnext, hafter⟩ := toDigits_after n.natAbs
  obtain ⟨last, hlast, hor⟩ : ∃ last, ph.after ds = some last ∧ (last = .zero ∨ last = .digits) := by
    rcases hafter with h | h
    · exact ⟨_, h, Or.inl rfl⟩
    · exact ⟨_, h, Or.inr rfl⟩
  unfold intText
  rw [hds]
  split
  · refine ⟨'-', d :: ds, .minus, last, rfl, rfl, ?_, hor⟩
    rw [Phase.after, hnext, Option.bind_some, hlast]
  · exact ⟨d, ds, ph, last, rfl, hstart, hlast, hor⟩

theorem intOf_intText {n : Int} (h : (Nat.toDigits 10 n.natAbs).length ≤ maxStrDigits) :
    intOf (intText n) = some n := by
  have hnat : natOf (Nat.toDigits 10 n.natAbs) = some n.natAbs := by
    rw [natOf, if_pos ⟨List.all_eq_true.mpr (toDigits_isDigit _), h⟩,
      Nat.ofDigitChars_toDigits (by decide) (by decide)]
  unfold intText
  split
  · rw [intOf, hnat, Option.map_some]
    congr 1
    omega
  · obtain ⟨d, ds, ph, hds, hminus, -⟩ := toDigits_after n.natAbs
    have hintOf : intOf (d :: ds) = (natOf (d :: ds)).map fun n : Nat => (n : Int) :=
      intOf.eq_2 (d :: ds) fun _ h => hminus (List.cons.inj h).1
    rw [hds, hintOf, ← hds, hnat, Option.map_some]
    congr 1
    omega

theorem run_start (stack : List (Frame φ)) {c : Char} {cs : Text} {ph last : Phase}
    (hstart : Phase.start c = some ph) (hafter : ph.after cs = some last) :
    run F limit ⟨stack, .value⟩ (Str.ofText (c :: cs)) =
      .ok ⟨stack, .number last (c :: cs)⟩ := by
  have hstep : step F limit ⟨stack, .value⟩ (.scalar c) = .ok ⟨stack, .number ph [c]⟩ := by
    have hother : ∀ d, Phase.start d = none → c ≠ d := by
      rintro d hd rfl
      rw [hstart] at hd
      exact nomatch hd
    have hblank : isBlank c = false := by
      rw [isBlank, Bool.or_eq_false_iff, Bool.or_eq_false_iff, Bool.or_eq_false_iff]
      simp only [decide_eq_false_iff_not]
      exact ⟨⟨⟨hother ' ' rfl, hother '\t' rfl⟩, hother '\n' rfl⟩, hother '\r' rfl⟩
    simp only [step, stepChar, hblank, Bool.false_eq_true, if_false, beginValue, hstart]
    rw [if_neg (hother '"' rfl), if_neg (hother '[' rfl), if_neg (hother '\x7b' rfl),
      if_neg (hother 'n' rfl), if_neg (hother 't' rfl), if_neg (hother 'f' rfl),
      if_neg (hother 'N' rfl), if_neg (hother 'I' rfl)]
  show run F limit _ (.scalar c :: Str.ofText cs) = _
  rw [run_cons hstep, run_number stack hafter]
  rfl

/-! ### Values -/

theorem floatText_cases (hF : LawfulRepr F) (x : φ) :
    floatText F x ∈ ["NaN".toList, "Infinity".toList, "-Infinity".toList] ∨
      ∃ c cs ph last, floatText F x = c :: cs ∧ Phase.start c = some ph ∧
        ph.after cs = some last ∧ (last = .fraction ∨ last = .power) := by
  unfold floatText
  split
  · exact Or.inl (by decide)
  split
  · exact Or.inl (by decide)
  split
  · exact Or.inl (by decide)
  · rcases hF x with hspecial | ⟨c, cs, last, htext, hlast, hor⟩
    · simp only [List.mem_cons, List.not_mem_nil, or_false] at hspecial
      rcases hspecial with h | h | h <;> contradiction
    · obtain ⟨ph, hph, hafter⟩ := Option.bind_eq_some_iff.mp hlast
      exact Or.inr ⟨c, cs, ph, last, htext, hph, hafter, hor⟩

/-- A value starts with no blank and no bracket that closes. -/
theorem dumps_head (hF : LawfulRepr F) (v : JsonValue φ) :
    ∃ c cs, dumps F v = c :: cs ∧ isBlank c = false ∧ c ≠ ']' := by
  have hstart : ∀ c ph, Phase.start c = some ph → isBlank c = false ∧ c ≠ ']' := by
    intro c ph h
    have hne : ∀ d, Phase.start d = none → c ≠ d := by
      rintro d hd rfl
      rw [h] at hd
      exact nomatch hd
    refine ⟨?_, hne ']' rfl⟩
    simp only [isBlank, hne ' ' rfl, hne '\t' rfl, hne '\n' rfl, hne '\r' rfl, decide_false,
      Bool.or_self]
  cases v with
  | null => exact ⟨'n', _, rfl, rfl, by decide⟩
  | bool b =>
    cases b with
    | true => exact ⟨'t', _, rfl, rfl, by decide⟩
    | false => exact ⟨'f', _, rfl, rfl, by decide⟩
  | int n =>
    obtain ⟨c, cs, ph, last, htext, hph, -, -⟩ := intText_after n
    exact ⟨c, cs, htext, hstart c ph hph⟩
  | float x =>
    rcases floatText_cases hF x with hspecial | ⟨c, cs, ph, last, htext, hph, -, -⟩
    · simp only [List.mem_cons, List.not_mem_nil, or_false] at hspecial
      rcases hspecial with h | h | h
      · exact ⟨'N', _, h, rfl, by decide⟩
      · exact ⟨'I', _, h, rfl, by decide⟩
      · exact ⟨'-', _, h, rfl, by decide⟩
    · exact ⟨c, cs, htext, hstart c ph hph⟩
  | string s => exact ⟨'"', _, rfl, rfl, by decide⟩
  | array items => cases items <;> exact ⟨'[', _, rfl, rfl, by decide⟩
  | object members => cases members <;> exact ⟨'\x7b', _, rfl, rfl, by decide⟩

theorem run_item (hF : LawfulRepr F) (stack : List (Frame φ)) (v : JsonValue φ) (rest : Text) :
    run F limit ⟨stack, .item⟩ (Str.ofText (dumps F v ++ rest)) =
      run F limit ⟨stack, .value⟩ (Str.ofText (dumps F v ++ rest)) := by
  obtain ⟨c, cs, htext, hblank, hclose⟩ := dumps_head hF v
  rw [htext]
  show run F limit _ (.scalar c :: Str.ofText (cs ++ rest)) =
    run F limit _ (.scalar c :: Str.ofText (cs ++ rest))
  simp only [run, step, stepChar, hblank, Bool.false_eq_true, if_false, if_neg hclose]

/-- A value that is no container. -/
theorem run_leaf (hF : LawfulRepr F) {v : JsonValue φ} (hshort : Short v)
    (stack : List (Frame φ)) (harray : ∀ items, v ≠ .array items)
    (hobject : ∀ members, v ≠ .object members) :
    ∃ s, run F limit ⟨stack, .value⟩ (Str.ofText (dumps F v)) = .ok s ∧
      Settled F limit (reread F v) stack s := by
  cases v with
  | null => exact ⟨_, rfl, .complete _ _⟩
  | bool b => cases b <;> exact ⟨_, rfl, .complete _ _⟩
  | int n =>
    obtain ⟨c, cs, ph, last, htext, hph, hafter, hlast⟩ := intText_after n
    have hrun : run F limit ⟨stack, .value⟩ (Str.ofText (intText n)) =
        .ok ⟨stack, .number last (c :: cs)⟩ := by
      rw [htext]
      exact run_start stack hph hafter
    rw [← htext] at hrun
    refine ⟨_, hrun, settled_number stack ?_ ?_⟩
    · rcases hlast with rfl | rfl
      · exact Or.inl rfl
      · exact Or.inr (Or.inl rfl)
    · rcases hlast with rfl | rfl <;> simp only [numberValue, intOf_intText hshort] <;> rfl
  | float x =>
    rcases floatText_cases hF x with hspecial | ⟨c, cs, ph, last, htext, hph, hafter, hlast⟩
    · simp only [List.mem_cons, List.not_mem_nil, or_false] at hspecial
      rcases hspecial with h | h | h <;>
        · rw [dumps, reread, h]
          exact ⟨_, rfl, .complete _ _⟩
    · have hrun : run F limit ⟨stack, .value⟩ (Str.ofText (floatText F x)) =
          .ok ⟨stack, .number last (c :: cs)⟩ := by
        rw [htext]
        exact run_start stack hph hafter
      rw [← htext] at hrun
      refine ⟨_, hrun, settled_number stack (Or.inr (Or.inr hlast)) ?_⟩
      rcases hlast with rfl | rfl <;> rfl
  | string s => exact ⟨_, run_string stack s, .complete _ _⟩
  | array items => exact absurd rfl (harray items)
  | object members => exact absurd rfl (hobject members)

/-- Reading stops at the container that is one too many, or ends with the value in place. -/
def Reads (F : Floats φ) (limit deep : Nat) (v : JsonValue φ) (stack : List (Frame φ))
    (r : Except LoadsError (State φ)) : Prop :=
  if deep + stack.length ≤ limit then ∃ s, r = .ok s ∧ Settled F limit v stack s
  else r = .error .recursion

theorem run_append_error {s : State φ} {e : LoadsError} {a : Str}
    (h : run F limit s a = .error e) (b : Str) : run F limit s (a ++ b) = .error e := by
  rw [run_append, h]
  rfl

/-- After a value in an array a comma asks for another one. -/
theorem run_comma_array {s : State φ} {items : List (JsonValue φ)} {stack : List (Frame φ)}
    (hs : step F limit s (.scalar ',') =
      step F limit ⟨.array items :: stack, .after⟩ (.scalar ',')) (rest : Text) :
    run F limit s (Str.ofText (", ".toList ++ rest)) =
      run F limit ⟨.array items :: stack, .value⟩ (Str.ofText rest) := by
  show run F limit s (.scalar ',' :: .scalar ' ' :: Str.ofText rest) = _
  rw [run, hs]
  rfl

theorem run_comma_object {s : State φ} {members : List (Str × JsonValue φ)} {key : Str}
    {stack : List (Frame φ)} (hs : step F limit s (.scalar ',') =
      step F limit ⟨.object members key :: stack, .after⟩ (.scalar ',')) (rest : Text) :
    run F limit s (Str.ofText (", ".toList ++ rest)) =
      run F limit ⟨.object members key :: stack, .key⟩ (Str.ofText rest) := by
  show run F limit s (.scalar ',' :: .scalar ' ' :: Str.ofText rest) = _
  rw [run, hs]
  rfl

/-- The key of a member and what follows it. -/
theorem run_member {members : List (Str × JsonValue φ)} {before : Str} {stack : List (Frame φ)}
    {mode : Mode φ} (hmode : mode = .member ∨ mode = .key) (key : Str) (rest : Text) :
    run F limit ⟨.object members before :: stack, mode⟩
        (Str.ofText (dumpsString key ++ ": ".toList ++ rest)) =
      run F limit ⟨.object members (joined key) :: stack, .value⟩ (Str.ofText rest) := by
  rw [List.append_assoc, ofText_append, run_append_ok (run_key hmode key)]
  rfl

/-- A value inside a container, and then the rest of the container. -/
theorem Reads.seq {a b : Nat} {v w : JsonValue φ} {frame : Frame φ} {stack : List (Frame φ)}
    {s₀ : State φ} {text rest : Str} (h : Reads F limit a v (frame :: stack) (run F limit s₀ text))
    (hrest : ∀ s, Settled F limit v (frame :: stack) s →
      Reads F limit (b + 1) w stack (run F limit s rest)) :
    Reads F limit (max a b + 1) w stack (run F limit s₀ (text ++ rest)) := by
  unfold Reads at h hrest ⊢
  rw [List.length_cons] at h
  by_cases ha : a + (stack.length + 1) ≤ limit
  · rw [if_pos ha] at h
    obtain ⟨s, hrun, hsettled⟩ := h
    have hnext := hrest s hsettled
    rw [run_append_ok hrun]
    by_cases hb : b + 1 + stack.length ≤ limit
    · rw [if_pos hb] at hnext
      rwa [if_pos (by omega)]
    · rw [if_neg hb] at hnext
      rwa [if_neg (by omega)]
  · rw [if_neg ha] at h
    rw [if_neg (by omega)]
    exact run_append_error h rest

mutual

theorem reads_value (hF : LawfulRepr F) : ∀ (v : JsonValue φ) (stack : List (Frame φ)),
    Short v → stack.length ≤ limit →
    Reads F limit (depth v) (reread F v) stack
      (run F limit ⟨stack, .value⟩ (Str.ofText (dumps F v)))
  | .array items, stack, hshort, hstack => by
    by_cases hroom : stack.length < limit
    · have hopen : step F limit ⟨stack, .value⟩ (.scalar '[') = .ok ⟨.array [] :: stack, .item⟩ :=
        if_pos hroom
      cases items with
      | nil =>
        refine (if_pos (by rw [depth, depthItems]; omega)).mpr ⟨_, ?_, .complete _ _⟩
        exact run_cons hopen _
      | cons v items =>
        have hfirst := reads_value hF v (.array [] :: stack) hshort.1 hroom
        show Reads F limit _ _ stack (run F limit _ (.scalar '[' ::
          Str.ofText (dumps F v ++ dumpsItems F items)))
        rw [run_cons hopen, run_item hF, ofText_append]
        exact hfirst.seq fun s hs => reads_items hF items [reread F v] stack s hshort.2 hroom hs.step
    · refine (if_neg (by rw [depth]; omega)).mpr ?_
      have hopen : step F limit ⟨stack, .value⟩ (.scalar '[') = .error .recursion := if_neg hroom
      cases items <;> exact congrArg (Except.bind · _) hopen
  | .object members, stack, hshort, hstack => by
    by_cases hroom : stack.length < limit
    · have hopen : step F limit ⟨stack, .value⟩ (.scalar '\x7b') =
          .ok ⟨.object [] [] :: stack, .member⟩ := if_pos hroom
      cases members with
      | nil =>
        refine (if_pos (by rw [depth, depthMembers]; omega)).mpr ⟨_, ?_, .complete _ _⟩
        exact run_cons hopen _
      | cons m members =>
        obtain ⟨key, v⟩ := m
        have hfirst := reads_value hF v (.object [] (joined key) :: stack) hshort.1 hroom
        show Reads F limit _ _ stack (run F limit _ (.scalar '\x7b' ::
          Str.ofText (dumpsString key ++ ": ".toList ++ dumps F v ++ dumpsMembers F members)))
        rw [run_cons hopen, List.append_assoc, run_member (Or.inl rfl), ofText_append]
        exact hfirst.seq fun s hs =>
          reads_members hF members [(joined key, reread F v)] (joined key) stack s hshort.2 hroom hs.step
    · refine (if_neg (by rw [depth]; omega)).mpr ?_
      have hopen : step F limit ⟨stack, .value⟩ (.scalar '\x7b') = .error .recursion :=
        if_neg hroom
      cases members <;> exact congrArg (Except.bind · _) hopen
  | .null, stack, hshort, hstack =>
    (if_pos (show 0 + stack.length ≤ limit by omega)).mpr (run_leaf hF hshort stack nofun nofun)
  | .bool _, stack, hshort, hstack =>
    (if_pos (show 0 + stack.length ≤ limit by omega)).mpr (run_leaf hF hshort stack nofun nofun)
  | .int _, stack, hshort, hstack =>
    (if_pos (show 0 + stack.length ≤ limit by omega)).mpr (run_leaf hF hshort stack nofun nofun)
  | .float _, stack, hshort, hstack =>
    (if_pos (show 0 + stack.length ≤ limit by omega)).mpr (run_leaf hF hshort stack nofun nofun)
  | .string _, stack, hshort, hstack =>
    (if_pos (show 0 + stack.length ≤ limit by omega)).mpr (run_leaf hF hshort stack nofun nofun)

theorem reads_items (hF : LawfulRepr F) : ∀ (items before : List (JsonValue φ))
    (stack : List (Frame φ)) (s : State φ), ShortItems items → stack.length < limit →
    (∀ c ∈ [',', ']', '}'], step F limit s (.scalar c) =
      step F limit ⟨.array before :: stack, .after⟩ (.scalar c)) →
    Reads F limit (depthItems items + 1) (.array (before ++ rereadItems F items)) stack
      (run F limit s (Str.ofText (dumpsItems F items)))
  | [], before, stack, s, _, hroom, hs => by
    refine (if_pos (by rw [depthItems]; omega)).mpr ⟨complete (.array before) stack, ?_, ?_⟩
    · exact run_cons (hs ']' (by decide)) []
    · rw [rereadItems, List.append_nil]
      exact .complete _ _
  | v :: items, before, stack, s, hshort, hroom, hs => by
    have hfirst := reads_value hF v (.array before :: stack) hshort.1 hroom
    rw [dumpsItems, List.append_assoc, run_comma_array (hs ',' (by decide)), ofText_append,
      rereadItems, List.append_cons]
    exact hfirst.seq fun s hs =>
      reads_items hF items (before ++ [reread F v]) stack s hshort.2 hroom hs.step

theorem reads_members (hF : LawfulRepr F) : ∀ (members before : List (Str × JsonValue φ))
    (key : Str) (stack : List (Frame φ)) (s : State φ), ShortMembers members →
    stack.length < limit →
    (∀ c ∈ [',', ']', '}'], step F limit s (.scalar c) =
      step F limit ⟨.object before key :: stack, .after⟩ (.scalar c)) →
    Reads F limit (depthMembers members + 1) (.object (rereadMembers F before members)) stack
      (run F limit s (Str.ofText (dumpsMembers F members)))
  | [], before, key, stack, s, _, hroom, hs => by
    refine (if_pos (by rw [depthMembers]; omega)).mpr ⟨complete (.object before) stack, ?_, ?_⟩
    · exact run_cons (hs '}' (by decide)) []
    · exact .complete _ _
  | (name, v) :: members, before, key, stack, s, hshort, hroom, hs => by
    have hfirst := reads_value hF v (.object before (joined name) :: stack) hshort.1 hroom
    rw [dumpsMembers, List.append_assoc, List.append_assoc, List.append_assoc,
      run_comma_object (hs ',' (by decide)), ← List.append_assoc, run_member (Or.inr rfl),
      ofText_append, rereadMembers]
    exact hfirst.seq fun s hs => reads_members hF members
      (setMember (joined name) (reread F v) before) (joined name) stack s hshort.2 hroom hs.step

end

/-- What `dumps` writes is read back, unless it nests deeper than the reader can. -/
theorem loads_dumps (hF : LawfulRepr F) {v : JsonValue φ} (hshort : Short v) :
    loads F limit (Str.ofText (dumps F v)) =
      if depth v ≤ limit then .ok (reread F v) else .error .recursion := by
  have h : Reads F limit (depth v) (reread F v) []
      (run F limit ⟨[], .value⟩ (Str.ofText (dumps F v))) := reads_value hF v [] hshort (Nat.zero_le _)
  unfold Reads at h
  rw [loads]
  by_cases hdepth : depth v ≤ limit
  · rw [if_pos (by simpa using hdepth)] at h
    obtain ⟨s, hrun, hsettled⟩ := h
    rw [hrun, if_pos hdepth]
    exact hsettled.finish
  · rw [if_neg (by simpa using hdepth)] at h
    rw [h, if_neg hdepth]
    rfl

/-- A text has no surrogate to join. -/
theorem joined_ofText (t : Text) : joined (Str.ofText t) = Str.ofText t := by
  have hfold (acc : Str) : (Str.ofText t).foldl joinPoint (acc, none) =
      (acc ++ Str.ofText t, none) := by
    induction t generalizing acc with
    | nil => exact congrArg (·, none) (List.append_nil acc).symm
    | cons c t ih =>
      have hc : ¬ (0xD800 ≤ (CodePoint.scalar c).toNat ∧ (CodePoint.scalar c).toNat < 0xE000) := by
        have h : c.toNat < 0xD800 ∨ 0xDFFF < c.toNat ∧ c.toNat < 0x110000 := c.valid
        rw [CodePoint.toNat]
        omega
      have hpoint : joinPoint (acc, none) (.scalar c) = (acc ++ [.scalar c], none) :=
        addUnit_point acc none hc
      show (Str.ofText t).foldl joinPoint (joinPoint (acc, none) (.scalar c)) = _
      rw [hpoint, ih, List.append_assoc]
      rfl
  rw [joined, hfold, List.nil_append]

theorem setMember_new {β : Type} {key : Str} {value : β} {members : List (Str × β)}
    (h : key ∉ members.map Prod.fst) : setMember key value members = members ++ [(key, value)] := by
  induction members with
  | nil => rfl
  | cons m members ih =>
    rw [List.map_cons, List.mem_cons, not_or] at h
    rw [setMember, if_neg (Ne.symm h.1), ih h.2, List.cons_append]

theorem forall_setMember {β : Type} {P : Str × β → Prop} {key : Str} {value : β}
    {members : List (Str × β)} (hnew : P (key, value)) (h : ∀ m ∈ members, P m) :
    ∀ m ∈ setMember key value members, P m := by
  induction members with
  | nil => exact List.forall_mem_singleton.mpr hnew
  | cons m members ih =>
    obtain ⟨hm, hmembers⟩ := List.forall_mem_cons.mp h
    rw [setMember]
    split
    · exact List.forall_mem_cons.mpr ⟨hnew, hmembers⟩
    · exact List.forall_mem_cons.mpr ⟨hm, ih hmembers⟩

/-- Keys that are all different keep their order. -/
theorem rereadMembers_nodup {members before : List (Str × JsonValue φ)}
    (hjoined : ∀ key ∈ members.map Prod.fst, joined key = key)
    (hnodup : ((before ++ members).map Prod.fst).Nodup) :
    rereadMembers F before members = before ++ members.map fun m => (m.1, reread F m.2) := by
  induction members generalizing before with
  | nil => rw [rereadMembers, List.map_nil, List.append_nil]
  | cons m members ih =>
    obtain ⟨hm, hmembers⟩ := List.forall_mem_cons.mp hjoined
    have hnew : m.1 ∉ before.map Prod.fst := by
      rw [List.map_append, List.nodup_append] at hnodup
      exact fun h => hnodup.2.2 _ h _ List.mem_cons_self rfl
    have hnodup' : ((before ++ [(m.1, reread F m.2)] ++ members).map Prod.fst).Nodup := by
      simpa using hnodup
    rw [rereadMembers, hm, setMember_new hnew, ih hmembers hnodup', List.append_assoc,
      List.map_cons, List.singleton_append]

end RoundTrip

/-! ## The reader does not look at `repr` -/

section Repr

variable {φ : Type} (F : Floats φ) (r : φ → Text) (limit : Nat)

theorem numberValue_repr (phase : Phase) (text : Text) :
    numberValue ⟨F.ofLiteral, r⟩ phase text = numberValue F phase text := by
  unfold numberValue
  rfl

theorem beginValue_repr (stack : List (Frame φ)) (c : Char) :
    beginValue ⟨F.ofLiteral, r⟩ limit stack c = beginValue F limit stack c := by
  unfold beginValue
  rfl

theorem step_repr (s : State φ) (c : CodePoint) :
    step ⟨F.ofLiteral, r⟩ limit s c = step F limit s c := by
  simp only [step, stepChar, beginValue_repr, numberValue_repr]

theorem run_repr (s : State φ) (text : Str) :
    run ⟨F.ofLiteral, r⟩ limit s text = run F limit s text := by
  induction text generalizing s with
  | nil => rfl
  | cons c text ih => simp only [run, step_repr, ih]

theorem finish_repr (s : State φ) : finish ⟨F.ofLiteral, r⟩ s = finish F s := by
  unfold finish
  simp only [numberValue_repr]

theorem loads_repr (text : Str) : loads ⟨F.ofLiteral, r⟩ limit text = loads F limit text := by
  have hfinish : finish ⟨F.ofLiteral, r⟩ = finish F := funext (finish_repr F r)
  rw [loads, run_repr, hfinish, loads]

end Repr

/-- Some `repr` is lawful, whatever the literals mean. -/
theorem lawfulRepr_const {φ : Type} (F : Floats φ) :
    LawfulRepr ⟨F.ofLiteral, fun _ => "0.0".toList⟩ :=
  fun _ => Or.inr ⟨'0', ".0".toList, .fraction, rfl, by decide, Or.inl rfl⟩

/-! ## What is read can be written -/

section Short

variable {φ : Type} {F : Floats φ} {limit : Nat}

theorem ofDigitChars_lt {ds : Text} (h : ∀ c ∈ ds, c.isDigit = true) (init : Nat) :
    Nat.ofDigitChars 10 ds init < (init + 1) * 10 ^ ds.length := by
  induction ds generalizing init with
  | nil =>
    rw [Nat.ofDigitChars_nil, List.length_nil, Nat.pow_zero]
    omega
  | cons c ds ih =>
    obtain ⟨hc, hds⟩ := List.forall_mem_cons.mp h
    have hdigit : c.toNat - '0'.toNat ≤ 9 := by
      have hrange := Char.isDigit_iff_toNat.mp hc
      have hzero : '0'.toNat = 48 := rfl
      have hnine : '9'.toNat = 57 := rfl
      omega
    rw [Nat.ofDigitChars_cons, List.length_cons, Nat.pow_succ']
    calc Nat.ofDigitChars 10 ds (10 * init + (c.toNat - '0'.toNat))
        < (10 * init + (c.toNat - '0'.toNat) + 1) * 10 ^ ds.length := ih hds _
      _ ≤ ((init + 1) * 10) * 10 ^ ds.length := Nat.mul_le_mul_right _ (by omega)
      _ = (init + 1) * (10 * 10 ^ ds.length) := Nat.mul_assoc _ _ _

theorem natOf_short {ds : Text} {n : Nat} (h : natOf ds = some n) :
    (Nat.toDigits 10 n).length ≤ maxStrDigits := by
  obtain ⟨⟨hall, hlen⟩, hn⟩ := Option.ite_none_right_eq_some.mp h
  rw [Option.some.injEq] at hn
  have hlt := ofDigitChars_lt (List.all_eq_true.mp hall) 0
  rw [hn, Nat.zero_add, Nat.one_mul] at hlt
  refine (Nat.length_toDigits_le_iff (by decide) (by decide)).mpr (Nat.lt_of_lt_of_le hlt ?_)
  exact Nat.pow_le_pow_right (by decide) hlen

theorem intOf_short {text : Text} {n : Int} (h : intOf text = some n) :
    (Nat.toDigits 10 n.natAbs).length ≤ maxStrDigits := by
  unfold intOf at h
  split at h
  · obtain ⟨m, hm, rfl⟩ := Option.map_eq_some_iff.mp h
    rw [Int.natAbs_neg, Int.natAbs_natCast]
    exact natOf_short hm
  · obtain ⟨m, hm, rfl⟩ := Option.map_eq_some_iff.mp h
    rw [Int.natAbs_natCast]
    exact natOf_short hm

theorem numberValue_short {phase : Phase} {text : Text} {v : JsonValue φ}
    (h : numberValue F phase text = .ok v) : Short v := by
  unfold numberValue at h
  split at h
  · split at h
    · cases h
      exact intOf_short ‹_›
    · exact nomatch h
  · split at h
    · cases h
      exact intOf_short ‹_›
    · exact nomatch h
  · cases h
    trivial
  · cases h
    trivial
  · exact nomatch h

theorem shortItems_concat {items : List (JsonValue φ)} {v : JsonValue φ} (hitems : ShortItems items)
    (hv : Short v) : ShortItems (items ++ [v]) := by
  induction items with
  | nil => exact ⟨hv, trivial⟩
  | cons w items ih => exact ⟨hitems.1, ih hitems.2⟩

theorem shortMembers_setMember {key : Str} {v : JsonValue φ} {members : List (Str × JsonValue φ)}
    (hmembers : ShortMembers members) (hv : Short v) : ShortMembers (setMember key v members) := by
  induction members with
  | nil => exact ⟨hv, trivial⟩
  | cons m members ih =>
    unfold setMember
    split
    · exact ⟨hv, hmembers.2⟩
    · exact ⟨hmembers.1, ih hmembers.2⟩

theorem short_of_lookup {key : Str} {v : JsonValue φ} {members : List (Str × JsonValue φ)}
    (hmembers : ShortMembers members) (h : members.lookup key = some v) : Short v := by
  induction members with
  | nil => exact nomatch h
  | cons m members ih =>
    rw [List.lookup_cons] at h
    split at h
    · cases h
      exact hmembers.1
    · exact ih hmembers.2 h

def Frame.Short : Frame φ → Prop
  | .array items => ShortItems items
  | .object members _ => ShortMembers members

def Mode.Short : Mode φ → Prop
  | .done v => Json.Short v
  | .word _ v => Json.Short v
  | _ => True

/-- Every value that the state holds can be written. -/
structure State.Short (s : State φ) : Prop where
  stack : ∀ frame ∈ s.stack, frame.Short
  mode : s.mode.Short

theorem complete_short {v : JsonValue φ} {stack : List (Frame φ)} (hv : Short v)
    (hstack : ∀ frame ∈ stack, frame.Short) : (complete v stack).Short := by
  cases stack with
  | nil => exact ⟨List.forall_mem_nil _, hv⟩
  | cons frame stack =>
    obtain ⟨hframe, hrest⟩ := List.forall_mem_cons.mp hstack
    cases frame with
    | array items =>
      exact ⟨List.forall_mem_cons.mpr ⟨shortItems_concat hframe hv, hrest⟩, trivial⟩
    | object members key =>
      exact ⟨List.forall_mem_cons.mpr ⟨shortMembers_setMember hframe hv, hrest⟩, trivial⟩

theorem closeArray_short {stack : List (Frame φ)} {t : State φ}
    (hstack : ∀ frame ∈ stack, frame.Short) (h : closeArray stack = .ok t) : t.Short := by
  unfold closeArray at h
  split at h
  · cases h
    obtain ⟨hframe, hrest⟩ := List.forall_mem_cons.mp hstack
    exact complete_short hframe hrest
  · exact nomatch h

theorem closeObject_short {stack : List (Frame φ)} {t : State φ}
    (hstack : ∀ frame ∈ stack, frame.Short) (h : closeObject stack = .ok t) : t.Short := by
  unfold closeObject at h
  split at h
  · cases h
    obtain ⟨hframe, hrest⟩ := List.forall_mem_cons.mp hstack
    exact complete_short hframe hrest
  · exact nomatch h

theorem afterComplete_short {s t : State φ} {c : Char} (hs : s.Short)
    (h : afterComplete s c = .ok t) : t.Short := by
  unfold afterComplete afterValue at h
  split at h
  · split at h
    · cases h
      exact ⟨hs.stack, trivial⟩
    split at h
    · split at h
      · cases h
        exact ⟨hs.stack, trivial⟩
      · cases h
        exact ⟨hs.stack, trivial⟩
      · exact nomatch h
    split at h
    · exact closeArray_short hs.stack h
    split at h
    · exact closeObject_short hs.stack h
    · exact nomatch h
  · split at h
    · cases h
      exact hs
    · exact nomatch h

theorem beginValue_short {stack : List (Frame φ)} {t : State φ} {c : Char}
    (hstack : ∀ frame ∈ stack, frame.Short) (h : beginValue F limit stack c = .ok t) :
    t.Short := by
  unfold beginValue at h
  split at h
  · cases h
    exact ⟨hstack, trivial⟩
  split at h
  · split at h
    · cases h
      exact ⟨List.forall_mem_cons.mpr ⟨trivial, hstack⟩, trivial⟩
    · exact nomatch h
  split at h
  · split at h
    · cases h
      exact ⟨List.forall_mem_cons.mpr ⟨trivial, hstack⟩, trivial⟩
    · exact nomatch h
  iterate 5
    split at h
    · cases h
      exact ⟨hstack, trivial⟩
  split at h
  · cases h
    exact ⟨hstack, trivial⟩
  · exact nomatch h

theorem stepChar_short {s t : State φ} {c : Char} (hs : s.Short)
    (h : stepChar F limit s c = .ok t) : t.Short := by
  unfold stepChar at h
  split at h
  · split at h
    · cases h
      exact hs
    · exact beginValue_short hs.stack h
  · split at h
    · cases h
      exact hs
    split at h
    · exact closeArray_short hs.stack h
    · exact beginValue_short hs.stack h
  · split at h
    · cases h
      exact hs
    split at h
    · cases h
      exact ⟨hs.stack, trivial⟩
    split at h
    · exact closeObject_short hs.stack h
    · exact nomatch h
  · split at h
    · cases h
      exact hs
    split at h
    · cases h
      exact ⟨hs.stack, trivial⟩
    · exact nomatch h
  · split at h
    · cases h
      exact hs
    split at h
    · cases h
      exact ⟨hs.stack, trivial⟩
    · exact nomatch h
  · exact nomatch h
  · rename_i hmode
    have hword := hs.mode
    rw [hmode] at hword
    split at h
    · exact nomatch h
    split at h
    · cases h
      exact complete_short hword hs.stack
    · cases h
      exact ⟨hs.stack, hword⟩
  · split at h
    · cases h
      exact ⟨hs.stack, trivial⟩
    split at h
    · cases h
      exact ⟨hs.stack, trivial⟩
    · obtain ⟨v, hv, h⟩ := bind_eq_ok.mp h
      exact afterComplete_short (complete_short (numberValue_short hv) hs.stack) h
  · exact afterComplete_short hs h

theorem closeString_short {stack : List (Frame φ)} {isKey : Bool} {text : Str} {t : State φ}
    (hstack : ∀ frame ∈ stack, frame.Short) (h : closeString stack isKey text = .ok t) :
    t.Short := by
  unfold closeString at h
  split at h
  · split at h
    · cases h
      obtain ⟨hframe, hrest⟩ := List.forall_mem_cons.mp hstack
      exact ⟨List.forall_mem_cons.mpr ⟨hframe, hrest⟩, trivial⟩
    · exact nomatch h
  · cases h
    exact complete_short trivial hstack

theorem step_short {s t : State φ} {c : CodePoint} (hs : s.Short)
    (h : step F limit s c = .ok t) : t.Short := by
  unfold step at h
  split at h
  · split at h
    · exact closeString_short hs.stack h
    split at h
    · cases h
      exact ⟨hs.stack, trivial⟩
    split at h
    · exact nomatch h
    · cases h
      exact ⟨hs.stack, trivial⟩
  · split at h
    · cases h
      exact ⟨hs.stack, trivial⟩
    split at h
    · cases h
      exact ⟨hs.stack, trivial⟩
    · exact nomatch h
  · split at h
    · split at h
      · cases h
        exact ⟨hs.stack, trivial⟩
      · cases h
        exact ⟨hs.stack, trivial⟩
    · exact nomatch h
  · split at h
    · exact stepChar_short hs h
    · exact nomatch h

theorem run_short {s t : State φ} {text : Str} (hs : s.Short) (h : run F limit s text = .ok t) :
    t.Short := by
  induction text generalizing s with
  | nil =>
    cases h
    exact hs
  | cons c text ih =>
    obtain ⟨u, hu, h⟩ := bind_eq_ok.mp h
    exact ih (step_short hs hu) h

/-- The integers that `loads` returns have as many digits as `int` reads. -/
theorem loads_short {text : Str} {v : JsonValue φ} (h : loads F limit text = .ok v) : Short v := by
  obtain ⟨s, hs, h⟩ := bind_eq_ok.mp h
  have hinit : State.Short (⟨[], .value⟩ : State φ) := ⟨List.forall_mem_nil _, trivial⟩
  have hshort := run_short hinit hs
  unfold finish at h
  split at h
  · cases h
    rename_i hmode
    have hv := hshort.mode
    rwa [hmode] at hv
  · exact numberValue_short h
  · exact nomatch h

end Short

end Json

end Outreach.Library
