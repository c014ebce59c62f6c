import Outreach.Library.Hmac
import Outreach.Library.UrlForm
import Mathlib.Data.List.DropRight

/-!
# Base64, there and back

A text of Base64 is digits and then the padding that fills up the last group of four.
The alphabet for URLs has two other digits, and the padding can be left off: it is
known from the length.
-/

namespace Outreach.Library.Base64

set_option autoImplicit false

/-! ## Reading digits -/

theorem value_digit : ∀ n < 64, value (digit n) = some n := by decide

theorem digit_ne_pad : ∀ n < 64, digit n ≠ '=' := by decide

section Digits

variable {n : Nat} (pads left : Nat) (cs : Text)

theorem a2b_first (h : n < 64) : a2b 0 pads left (digit n :: cs) = a2b 1 0 n cs := by
  rw [a2b, if_neg (digit_ne_pad n h), value_digit n h]
  rfl

theorem a2b_second (h : n < 64) : a2b 1 pads left (digit n :: cs) =
    (a2b 2 0 (n % 16) cs).map (UInt8.ofNat (left * 4 + n / 16) :: ·) := by
  rw [a2b, if_neg (digit_ne_pad n h), value_digit n h]
  rfl

theorem a2b_third (h : n < 64) : a2b 2 pads left (digit n :: cs) =
    (a2b 3 0 (n % 4) cs).map (UInt8.ofNat (left * 16 + n / 4) :: ·) := by
  rw [a2b, if_neg (digit_ne_pad n h), value_digit n h]
  rfl

theorem a2b_fourth (h : n < 64) : a2b 3 pads left (digit n :: cs) =
    (a2b 0 0 0 cs).map (UInt8.ofNat (left * 64 + n) :: ·) := by
  rw [a2b, if_neg (digit_ne_pad n h), value_digit n h]
  rfl

end Digits

/-- The bits of a byte that the reader puts together. -/
theorem ofNat_of_eq (b : UInt8) {n : Nat} (h : n = b.toNat) : UInt8.ofNat n = b := by
  rw [h, UInt8.ofNat_toNat]

theorem a2b_encode (bytes : Bytes) : a2b 0 0 0 (encode bytes) = some bytes := by
  have hlt : ∀ b : UInt8, b.toNat < 256 := fun b => b.toNat_lt
  induction bytes using encode.induct with
  | case1 => rfl
  | case2 a =>
    have ha := hlt a
    rw [encode, a2b_first _ _ _ (by omega), a2b_second _ _ _ (by omega), ofNat_of_eq a (by omega)]
    rfl
  | case3 a b =>
    have ha := hlt a
    have hb := hlt b
    rw [encode, a2b_first _ _ _ (by omega), a2b_second _ _ _ (by omega), ofNat_of_eq a (by omega),
      a2b_third _ _ _ (by omega), ofNat_of_eq b (by omega)]
    rfl
  | case4 a b c rest ih =>
    have ha := hlt a
    have hb := hlt b
    have hc := hlt c
    rw [encode, a2b_first _ _ _ (by omega), a2b_second _ _ _ (by omega), ofNat_of_eq a (by omega),
      a2b_third _ _ _ (by omega), ofNat_of_eq b (by omega), a2b_fourth _ _ _ (by omega),
      ofNat_of_eq c (by omega), ih]
    rfl

theorem b64decode_encode (bytes : Bytes) :
    b64decode (Str.ofText (encode bytes)) = some bytes := by
  have hascii : (Str.ofText (encode bytes)).all (fun c => decide (c.toNat < 128)) = true := by
    rw [List.all_eq_true]
    intro c hc
    obtain ⟨d, hd, rfl⟩ := List.mem_map.mp hc
    have hvisible := visible_encode bytes d hd
    rw [visible, decide_eq_true_iff] at hvisible
    exact decide_eq_true (Nat.lt_of_le_of_lt hvisible.2 (by decide))
  rw [b64decode, if_pos hascii, Str.shown_ofText]
  exact a2b_encode bytes

/-! ## The alphabet for URLs -/

/-- How many characters are missing from the last group. -/
def padding (length : Nat) : Nat := (4 - length % 4) % 4

theorem encode_digits (bytes : Bytes) :
    ∃ ns : List Nat, (∀ n ∈ ns, n < 64) ∧
      encode bytes = ns.map digit ++ List.replicate (padding ns.length) '=' := by
  have hlt : ∀ b : UInt8, b.toNat < 256 := fun b => b.toNat_lt
  induction bytes using encode.induct with
  | case1 => exact ⟨[], List.forall_mem_nil _, rfl⟩
  | case2 a =>
    have ha := hlt a
    refine ⟨[a.toNat / 4, a.toNat % 4 * 16], ?_, rfl⟩
    simp only [List.forall_mem_cons]
    exact ⟨by omega, by omega, List.forall_mem_nil _⟩
  | case3 a b =>
    have ha := hlt a
    have hb := hlt b
    refine ⟨[a.toNat / 4, a.toNat % 4 * 16 + b.toNat / 16, b.toNat % 16 * 4], ?_, rfl⟩
    simp only [List.forall_mem_cons]
    exact ⟨by omega, by omega, by omega, List.forall_mem_nil _⟩
  | case4 a b c rest ih =>
    have ha := hlt a
    have hb := hlt b
    have hc := hlt c
    obtain ⟨ns, hns, hencode⟩ := ih
    refine ⟨a.toNat / 4 :: (a.toNat % 4 * 16 + b.toNat / 16) :: (b.toNat % 16 * 4 + c.toNat / 64) ::
      c.toNat % 64 :: ns, ?_, ?_⟩
    · simp only [List.forall_mem_cons]
      exact ⟨by omega, by omega, by omega, by omega, hns⟩
    · have hpadding : padding (ns.length + 4) = padding ns.length := by
        rw [padding, Nat.add_mod_right, padding]
      rw [encode, hencode]
      simp only [List.map_cons, List.length_cons, List.cons_append, hpadding]

def toUrl (c : Char) : Char := if c = '+' then '-' else if c = '/' then '_' else c

def fromUrl (c : Char) : Char := if c = '-' then '+' else if c = '_' then '/' else c

/-- `urlsafe_b64encode(bytes).rstrip(b"=")` -/
def encodeUrl (bytes : Bytes) : Text := ((encode bytes).map toUrl).rdropWhile fun c => c = '='

/-- `urlsafe_b64decode(s + "=" * (-len(s) % 4))` -/
def decodeUrl (s : Text) : Option Bytes :=
  b64decode (Str.ofText ((s ++ List.replicate (padding s.length) '=').map fromUrl))

theorem digitUrl_spec : ∀ n < 64, fromUrl (toUrl (digit n)) = digit n ∧
    toUrl (digit n) ≠ '=' ∧ toUrl (digit n) ≠ '.' := by decide

theorem encodeUrl_digits (bytes : Bytes) :
    ∃ ns : List Nat, (∀ n ∈ ns, n < 64) ∧
      encodeUrl bytes = ns.map (fun n => toUrl (digit n)) ∧
      encode bytes = ns.map digit ++ List.replicate (padding ns.length) '=' := by
  obtain ⟨ns, hns, hencode⟩ := encode_digits bytes
  refine ⟨ns, hns, ?_, hencode⟩
  have hpads : ∀ c ∈ List.replicate (padding ns.length) '=', decide (c = '=') = true :=
    fun c hc => decide_eq_true (List.eq_of_mem_replicate hc)
  rw [encodeUrl, hencode, List.map_append, List.map_map, List.map_replicate, List.rdropWhile,
    List.reverse_append, List.reverse_replicate]
  show ((List.replicate (padding ns.length) '=' ++ _).dropWhile _).reverse = _
  rw [List.dropWhile_append_of_pos hpads]
  cases hrev : (ns.map (toUrl ∘ digit)).reverse with
  | nil => exact (List.reverse_eq_nil_iff.mp hrev).symm
  | cons c cs =>
    have hc : c ∈ ns.map (toUrl ∘ digit) := List.mem_reverse.mp (hrev ▸ List.mem_cons_self)
    obtain ⟨n, hn, rfl⟩ := List.mem_map.mp hc
    rw [List.dropWhile_cons_of_neg (by simpa using (digitUrl_spec n (hns n hn)).2.1), ← hrev,
      List.reverse_reverse]
    rfl

theorem decodeUrl_encodeUrl (bytes : Bytes) : decodeUrl (encodeUrl bytes) = some bytes := by
  obtain ⟨ns, hns, hurl, hencode⟩ := encodeUrl_digits bytes
  have hdigits : (ns.map fun n => toUrl (digit n)).map fromUrl = ns.map digit := by
    rw [List.map_map]
    exact List.map_congr_left fun n hn => (digitUrl_spec n (hns n hn)).1
  have hpads : (List.replicate (padding ns.length) '=').map fromUrl =
      List.replicate (padding ns.length) '=' := List.map_replicate
  rw [decodeUrl, hurl, List.length_map, List.map_append, hdigits, hpads, ← hencode]
  exact b64decode_encode bytes

theorem dot_notMem_encodeUrl (bytes : Bytes) : '.' ∉ encodeUrl bytes := by
  obtain ⟨ns, hns, hurl, -⟩ := encodeUrl_digits bytes
  rw [hurl]
  intro h
  obtain ⟨n, hn, hdot⟩ := List.mem_map.mp h
  exact (digitUrl_spec n (hns n hn)).2.2 hdot

end Outreach.Library.Base64
