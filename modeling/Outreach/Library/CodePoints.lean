import Outreach.Library.Uuid
import Outreach.Library.Words

/-!
# Strings with lone surrogates, and the bytes they come from

A Python string may hold surrogate code points, which no UTF-8 text has. The
Unicode algorithms are those of `Text`: a surrogate decomposes, composes and
folds to itself only, so they work on the stretches between two surrogates.
-/

namespace Outreach.Library

set_option autoImplicit false

inductive CodePoint where
  | scalar (c : Char)
  /-- `n` above 0xD800 -/
  | surrogate (n : Fin 2048)
  deriving DecidableEq

abbrev Str := List CodePoint

namespace CodePoint

def toNat : CodePoint → Nat
  | scalar c => c.toNat
  | surrogate n => 0xD800 + n

def ofNat (n : Nat) : CodePoint :=
  if h : 0xD800 ≤ n ∧ n < 0xE000 then surrogate ⟨n - 0xD800, by omega⟩ else scalar (Char.ofNat n)

def isScalar : CodePoint → Bool
  | scalar _ => true
  | surrogate _ => false

/-- The scalar value satisfies `p`. -/
def sat (p : Char → Bool) : CodePoint → Bool
  | scalar c => p c
  | surrogate _ => false

def replacement : Char := '\ufffd'

/-- The replacement character stands for a surrogate: like it, it is no letter, digit or space,
and has no case, class or decomposition. -/
def shown : CodePoint → Char
  | scalar c => c
  | surrogate _ => replacement

theorem ofNat_toNat (c : CodePoint) : ofNat c.toNat = c := by
  cases c with
  | scalar c =>
    have hvalid : ¬ (0xD800 ≤ c.toNat ∧ c.toNat < 0xE000) := by
      have h : c.toNat < 0xD800 ∨ 0xDFFF < c.toNat ∧ c.toNat < 0x110000 := c.valid
      omega
    rw [toNat, ofNat, dif_neg hvalid, Char.ofNat_toNat]
  | surrogate n =>
    have hrange : 0xD800 ≤ 0xD800 + n.val ∧ 0xD800 + n.val < 0xE000 := by omega
    rw [toNat, ofNat, dif_pos hrange]
    simp only [Nat.add_sub_cancel_left, Fin.eta]

theorem toNat_lt (c : CodePoint) : c.toNat < 0x110000 := by
  cases c with
  | scalar c =>
    have h : c.toNat < 0xD800 ∨ 0xDFFF < c.toNat ∧ c.toNat < 0x110000 := c.valid
    rw [toNat]
    omega
  | surrogate n =>
    rw [toNat]
    omega

theorem toNat_injective {c d : CodePoint} (h : c.toNat = d.toNat) : c = d := by
  rw [← ofNat_toNat c, h, ofNat_toNat]

end CodePoint

namespace Str

def ofText (t : Text) : Str := t.map .scalar

def ofString (s : String) : Str := ofText s.toList

def shown (s : Str) : Text := s.map CodePoint.shown

/-- `str.encode()` does not raise. -/
def encodable (s : Str) : Bool := s.all CodePoint.isScalar

/-- A text function on each stretch between two surrogates; `run` is the stretch so far. -/
def mapText (f : Text → Text) : Text → Str → Str
  | run, [] => ofText (f run)
  | run, .scalar c :: s => mapText f (run ++ [c]) s
  | run, .surrogate n :: s => ofText (f run) ++ .surrogate n :: mapText f [] s

theorem shown_ofText (t : Text) : shown (ofText t) = t := by
  rw [shown, ofText, List.map_map]
  exact List.map_id t

theorem ofText_injective {t u : Text} (h : ofText t = ofText u) : t = u := by
  rw [← shown_ofText t, h, shown_ofText]

@[simp] theorem ofText_eq_nil {t : Text} : ofText t = [] ↔ t = [] := List.map_eq_nil_iff

theorem eq_ofText_of_shown {s : Str} (h : CodePoint.replacement ∉ shown s) :
    s = ofText (shown s) := by
  induction s with
  | nil => rfl
  | cons c s ih =>
    have hs : CodePoint.replacement ∉ shown s := fun hmem => h (List.mem_cons_of_mem _ hmem)
    cases c with
    | scalar c => exact congrArg (CodePoint.scalar c :: ·) (ih hs)
    | surrogate n => exact absurd List.mem_cons_self h

theorem mapText_ofText (f : Text → Text) (run t : Text) :
    mapText f run (ofText t) = ofText (f (run ++ t)) := by
  induction t generalizing run with
  | nil =>
    rw [List.append_nil]
    rfl
  | cons c t ih =>
    show mapText f (run ++ [c]) (ofText t) = _
    rw [ih, List.append_assoc, List.singleton_append]

end Str

/-! ## `base64.b64decode` -/

namespace Base64

def value (c : Char) : Option Nat :=
  let n := c.toNat
  if 65 ≤ n ∧ n ≤ 90 then some (n - 65)
  else if 97 ≤ n ∧ n ≤ 122 then some (n - 71)
  else if 48 ≤ n ∧ n ≤ 57 then some (n + 4)
  else if c = '+' then some 62
  else if c = '/' then some 63
  else none

/-- `binascii.a2b_base64`: `quad` characters of a group of four are read, `left` holds the bits
that are still to be written. Other characters are skipped; enough padding ends the input. -/
def a2b (quad pads left : Nat) : Text → Option Bytes
  | [] => if quad = 0 then some [] else none
  | c :: cs =>
      if c = '=' then
        if 2 ≤ quad then
          if 4 ≤ quad + (pads + 1) then some [] else a2b quad (pads + 1) left cs
        else a2b quad pads left cs
      else
        match value c with
        | none => a2b quad pads left cs
        | some v =>
            match quad with
            | 0 => a2b 1 0 v cs
            | 1 => (a2b 2 0 (v % 16) cs).map (UInt8.ofNat (left * 4 + v / 16) :: ·)
            | 2 => (a2b 3 0 (v % 4) cs).map (UInt8.ofNat (left * 16 + v / 4) :: ·)
            | _ => (a2b 0 0 0 cs).map (UInt8.ofNat (left * 64 + v) :: ·)

/-- `none` is the `ValueError` for a character beyond ASCII, or for a group cut short. -/
def b64decode (s : Str) : Option Bytes :=
  if s.all fun c => decide (c.toNat < 128) then a2b 0 0 0 s.shown else none

end Base64

/-! ## `bytes.decode(errors="replace")` -/

namespace Utf8

/-- Inside a sequence: how many bytes are owed, where the next one must lie, and the bits so
far. -/
structure Pending where
  owed : Nat
  low : Nat
  high : Nat
  bits : Nat

/-- What a byte between two characters gives. -/
def lead (b : Nat) : Str × Option Pending :=
  if b < 0x80 then ([.ofNat b], none)
  else if b < 0xC2 then ([.scalar CodePoint.replacement], none)
  else if b < 0xE0 then ([], some ⟨1, 0x80, 0xBF, b - 0xC0⟩)
  else if b < 0xF0 then
    ([], some ⟨2, if b = 0xE0 then 0xA0 else 0x80, if b = 0xED then 0x9F else 0xBF, b - 0xE0⟩)
  else if b < 0xF5 then
    ([], some ⟨3, if b = 0xF0 then 0x90 else 0x80, if b = 0xF4 then 0x8F else 0xBF, b - 0xF0⟩)
  else ([.scalar CodePoint.replacement], none)

/-- A sequence that breaks off is replaced as a whole, and the byte that broke it read anew. -/
def decodeFrom : Option Pending → List Nat → Str
  | none, [] => []
  | some _, [] => [.scalar CodePoint.replacement]
  | none, b :: bytes => (lead b).1 ++ decodeFrom (lead b).2 bytes
  | some p, b :: bytes =>
      if p.low ≤ b ∧ b ≤ p.high then
        let bits := p.bits * 64 + b % 64
        if p.owed = 1 then .ofNat bits :: decodeFrom none bytes
        else decodeFrom (some ⟨p.owed - 1, 0x80, 0xBF, bits⟩) bytes
      else .scalar CodePoint.replacement :: ((lead b).1 ++ decodeFrom (lead b).2 bytes)

def decodeReplace (bytes : Bytes) : Str := decodeFrom none (bytes.map UInt8.toNat)

end Utf8

end Outreach.Library
