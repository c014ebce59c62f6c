import Outreach.Library.CodePoints

/-!
# Form data: `name=value` pairs joined by `&`

A codec turns any text into one without the two separators, and back. What is
split at the separators is then what was joined. `formUrlencoded` is the codec
of `application/x-www-form-urlencoded` in UTF-8.
-/

namespace Outreach.Library

set_option autoImplicit false

/-! ## Splitting what was joined -/

section Split

variable {α : Type*} [DecidableEq α]

/-- `s.split(sep, 2)` -/
def splitTwo (sep : α) (s : List α) : List (List α) :=
  match s.dropWhile fun c => c != sep with
  | [] => [s]
  | _ :: after => [s.takeWhile fun c => c != sep, after]

theorem splitTwo_append {sep : α} {s : List α} (h : sep ∉ s) (t : List α) :
    splitTwo sep (s ++ sep :: t) = [s, t] := by
  have hs : ∀ c ∈ s, (c != sep) = true := fun c hc => bne_iff_ne.mpr fun he => h (he ▸ hc)
  rw [splitTwo, List.dropWhile_append_of_pos hs, List.takeWhile_append_of_pos hs,
    List.takeWhile_cons_of_neg (by simp), List.dropWhile_cons_of_neg (by simp), List.append_nil]

theorem splitAtFrom_append {sep : α} {s : List α} (h : sep ∉ s) (word t : List α) :
    splitAtFrom sep word (s ++ sep :: t) = (word.reverse ++ s) :: splitAtFrom sep [] t := by
  induction s generalizing word with
  | nil => simp [splitAtFrom]
  | cons c s ih =>
    have hc : c ≠ sep := fun he => h (he ▸ List.mem_cons_self)
    rw [List.cons_append, splitAtFrom, if_neg hc, ih fun hs => h (List.mem_cons_of_mem c hs)]
    simp

theorem splitAtFrom_of_notMem {sep : α} {s : List α} (h : sep ∉ s) (word : List α) :
    splitAtFrom sep word s = [word.reverse ++ s] := by
  induction s generalizing word with
  | nil => simp [splitAtFrom]
  | cons c s ih =>
    have hc : c ≠ sep := fun he => h (he ▸ List.mem_cons_self)
    rw [splitAtFrom, if_neg hc, ih fun hs => h (List.mem_cons_of_mem c hs)]
    simp

theorem notMem_of_mem_splitAtFrom {sep : α} {word s w : List α} (hword : sep ∉ word)
    (h : w ∈ splitAtFrom sep word s) : sep ∉ w := by
  induction s generalizing word with
  | nil =>
    rw [List.mem_singleton.mp h]
    exact fun hmem => hword (List.mem_reverse.mp hmem)
  | cons c s ih =>
    rw [splitAtFrom] at h
    split at h
    · rcases List.mem_cons.mp h with rfl | h
      · exact fun hmem => hword (List.mem_reverse.mp hmem)
      · exact ih List.not_mem_nil h
    · rename_i hc
      refine ih (fun hmem => ?_) h
      rcases List.mem_cons.mp hmem with rfl | hmem
      · exact hc rfl
      · exact hword hmem

/-- `sep.join(words)` -/
def join (sep : α) (words : List (List α)) : List α := [sep].intercalate words

omit [DecidableEq α] in
theorem join_cons_cons (sep : α) (w v : List α) (words : List (List α)) :
    join sep (w :: v :: words) = w ++ sep :: join sep (v :: words) := by
  simp [join, List.intercalate]

omit [DecidableEq α] in
theorem join_singleton (sep : α) (w : List α) : join sep [w] = w := by
  simp [join, List.intercalate]

omit [DecidableEq α] in
/-- What was joined is known from the lengths of its pieces. -/
theorem join_inj_of_lengths {sep : α} {l m : List (List α)} (h : join sep l = join sep m)
    (hlen : l.map List.length = m.map List.length) : l = m := by
  induction l generalizing m with
  | nil => exact (List.map_eq_nil_iff.mp hlen.symm).symm
  | cons w l ih =>
    cases m with
    | nil => exact absurd hlen (List.cons_ne_nil _ _)
    | cons v m =>
      obtain ⟨hfst, hrest⟩ := List.cons.inj hlen
      cases l with
      | nil =>
        obtain rfl := List.map_eq_nil_iff.mp hrest.symm
        rw [join_singleton, join_singleton] at h
        rw [h]
      | cons w' l =>
        cases m with
        | nil => exact absurd hrest (List.cons_ne_nil _ _)
        | cons v' m =>
          rw [join_cons_cons, join_cons_cons] at h
          obtain ⟨rfl, htail⟩ := List.append_inj h hfst
          rw [ih (List.cons.inj htail).2 hrest]

theorem splitAtFrom_join {sep : α} {words : List (List α)} (hne : words ≠ [])
    (h : ∀ w ∈ words, sep ∉ w) : splitAtFrom sep [] (join sep words) = words := by
  induction words with
  | nil => exact absurd rfl hne
  | cons w words ih =>
    have hw : sep ∉ w := h w List.mem_cons_self
    cases words with
    | nil =>
      rw [join_singleton, splitAtFrom_of_notMem hw]
      rfl
    | cons v words =>
      rw [join_cons_cons, splitAtFrom_append hw,
        ih (List.cons_ne_nil v words) fun u hu => h u (List.mem_cons_of_mem w hu)]
      rfl

/-- Pieces without the separator are known from what they are joined to. -/
theorem join_inj_of_notMem {sep : α} {l m : List (List α)} (hl : l ≠ []) (hm : m ≠ [])
    (hlsep : ∀ w ∈ l, sep ∉ w) (hmsep : ∀ w ∈ m, sep ∉ w) (h : join sep l = join sep m) :
    l = m := by
  rw [← splitAtFrom_join hl hlsep, h, splitAtFrom_join hm hmsep]

/-- No piece is empty, so Java drops none. -/
theorem javaSplit_join {sep : α} {words : List (List α)} (hne : words ≠ [])
    (h : ∀ w ∈ words, sep ∉ w) (hpieces : ∀ w ∈ words, w ≠ []) :
    javaSplit sep (join sep words) = words := by
  have hdrop : words.reverse.dropWhile List.isEmpty = words.reverse := by
    cases hrev : words.reverse with
    | nil => rfl
    | cons w ws =>
      have hw : w ∈ words := List.mem_reverse.mp (hrev ▸ List.mem_cons_self)
      rw [List.dropWhile_cons, if_neg fun he => hpieces w hw (List.isEmpty_iff.mp he)]
  rw [javaSplit, splitAtFrom_join hne h, hdrop, List.reverse_reverse]
  exact ite_self _

end Split

/-! ## UTF-8, there and back -/

namespace Utf8

theorem map_toNat_utf8EncodeChar (c : Char) :
    (String.utf8EncodeChar c).map UInt8.toNat =
      let v := c.toNat
      if v ≤ 0x7f then [v]
      else if v ≤ 0x7ff then [v / 64 + 0xc0, v % 64 + 0x80]
      else if v ≤ 0xffff then [v / 4096 + 0xe0, v / 64 % 64 + 0x80, v % 64 + 0x80]
      else [v / 262144 + 0xf0, v / 4096 % 64 + 0x80, v / 64 % 64 + 0x80, v % 64 + 0x80] := by
  have hmax : c.toNat < 0x110000 := CodePoint.toNat_lt (.scalar c)
  have hbyte : ∀ {n : Nat}, n < 256 → (UInt8.ofNat n).toNat = n := fun h => by
    rw [UInt8.toNat_ofNat', Nat.mod_eq_of_lt h]
  have hval : c.val.toNat = c.toNat := rfl
  simp only [String.utf8EncodeChar, hval]
  split_ifs with h1 h2 h3
  · rw [List.map_cons, List.map_nil, hbyte (by omega)]
  · simp only [List.map_cons, List.map_nil]
    rw [hbyte (by omega), hbyte (by omega), Nat.mod_eq_of_lt (by omega)]
  · simp only [List.map_cons, List.map_nil]
    rw [hbyte (by omega), hbyte (by omega), hbyte (by omega),
      Nat.mod_eq_of_lt (a := c.toNat / 4096) (by omega)]
  · simp only [List.map_cons, List.map_nil]
    rw [hbyte (by omega), hbyte (by omega), hbyte (by omega), hbyte (by omega),
      Nat.mod_eq_of_lt (a := c.toNat / 262144) (by omega)]

theorem decodeFrom_last {low high bits b : Nat} (hb : low ≤ b ∧ b ≤ high) (bytes : List Nat) :
    decodeFrom (some ⟨1, low, high, bits⟩) (b :: bytes) =
      .ofNat (bits * 64 + b % 64) :: decodeFrom none bytes := by
  rw [decodeFrom, if_pos hb]
  rfl

theorem decodeFrom_next {owed low high bits b : Nat} (hb : low ≤ b ∧ b ≤ high)
    (bytes : List Nat) :
    decodeFrom (some ⟨owed + 2, low, high, bits⟩) (b :: bytes) =
      decodeFrom (some ⟨owed + 1, 0x80, 0xBF, bits * 64 + b % 64⟩) bytes := by
  rw [decodeFrom, if_pos hb]
  rfl

/-- The leading byte of three: no overlong form, no surrogate. -/
theorem lead_three {v : Nat} (h : 0x7ff < v) (hmax : v ≤ 0xffff)
    (hvalid : v < 0xD800 ∨ 0xDFFF < v) :
    ∃ low high, lead (v / 4096 + 0xe0) = ([], some ⟨2, low, high, v / 4096⟩) ∧
      low ≤ v / 64 % 64 + 0x80 ∧ v / 64 % 64 + 0x80 ≤ high := by
  refine ⟨if v / 4096 + 0xe0 = 0xE0 then 0xA0 else 0x80,
    if v / 4096 + 0xe0 = 0xED then 0x9F else 0xBF, ?_, ?_, ?_⟩
  · rw [lead, if_neg (by omega), if_neg (by omega), if_neg (by omega), if_pos (by omega),
      Nat.add_sub_cancel]
  · split <;> omega
  · split <;> omega

/-- The leading byte of four: no overlong form, nothing beyond the last plane. -/
theorem lead_four {v : Nat} (h : 0xffff < v) (hmax : v < 0x110000) :
    ∃ low high, lead (v / 262144 + 0xf0) = ([], some ⟨3, low, high, v / 262144⟩) ∧
      low ≤ v / 4096 % 64 + 0x80 ∧ v / 4096 % 64 + 0x80 ≤ high := by
  refine ⟨if v / 262144 + 0xf0 = 0xF0 then 0x90 else 0x80,
    if v / 262144 + 0xf0 = 0xF4 then 0x8F else 0xBF, ?_, ?_, ?_⟩
  · rw [lead, if_neg (by omega), if_neg (by omega), if_neg (by omega), if_neg (by omega),
      if_pos (by omega), Nat.add_sub_cancel]
  · split <;> omega
  · split <;> omega

theorem decodeFrom_utf8EncodeChar (c : Char) (bytes : List Nat) :
    decodeFrom none ((String.utf8EncodeChar c).map UInt8.toNat ++ bytes) =
      .scalar c :: decodeFrom none bytes := by
  have hvalid : c.toNat < 0xD800 ∨ 0xDFFF < c.toNat ∧ c.toNat < 0x110000 := c.valid
  have hchar : CodePoint.ofNat c.toNat = .scalar c := CodePoint.ofNat_toNat (.scalar c)
  have hlast : ∀ n : Nat, 0x80 ≤ n % 64 + 0x80 ∧ n % 64 + 0x80 ≤ 0xBF := fun n => by omega
  rw [map_toNat_utf8EncodeChar]
  simp only
  split_ifs with h1 h2 h3
  · have hlead : lead c.toNat = ([.scalar c], none) := by rw [lead, if_pos (by omega), hchar]
    rw [List.singleton_append, decodeFrom, hlead]
    rfl
  · have hlead : lead (c.toNat / 64 + 0xc0) = ([], some ⟨1, 0x80, 0xBF, c.toNat / 64⟩) := by
      rw [lead, if_neg (by omega), if_neg (by omega), if_pos (by omega), Nat.add_sub_cancel]
    have hbits : c.toNat / 64 * 64 + (c.toNat % 64 + 0x80) % 64 = c.toNat := by omega
    rw [List.cons_append, List.singleton_append, decodeFrom, hlead, List.nil_append,
      decodeFrom_last (hlast _), hbits, hchar]
  · obtain ⟨low, high, hlead, hsecond⟩ := lead_three (v := c.toNat) (by omega) h3 (by omega)
    have hbits : (c.toNat / 4096 * 64 + (c.toNat / 64 % 64 + 0x80) % 64) * 64 +
        (c.toNat % 64 + 0x80) % 64 = c.toNat := by omega
    simp only [List.cons_append, List.nil_append]
    rw [decodeFrom, hlead, List.nil_append, decodeFrom_next hsecond, decodeFrom_last (hlast _),
      hbits, hchar]
  · obtain ⟨low, high, hlead, hsecond⟩ := lead_four (v := c.toNat) (by omega) (by omega)
    have hbits : ((c.toNat / 262144 * 64 + (c.toNat / 4096 % 64 + 0x80) % 64) * 64 +
        (c.toNat / 64 % 64 + 0x80) % 64) * 64 + (c.toNat % 64 + 0x80) % 64 = c.toNat := by omega
    simp only [List.cons_append, List.nil_append]
    rw [decodeFrom, hlead, List.nil_append, decodeFrom_next hsecond, decodeFrom_next (hlast _),
      decodeFrom_last (hlast _), hbits, hchar]

theorem decodeReplace_utf8 (t : Text) : decodeReplace (utf8 t) = Str.ofText t := by
  induction t with
  | nil => rfl
  | cons c t ih =>
    rw [decodeReplace, utf8, List.flatMap_cons, List.map_append, decodeFrom_utf8EncodeChar]
    exact congrArg (CodePoint.scalar c :: ·) ih

theorem utf8_injective {t u : Text} (h : utf8 t = utf8 u) : t = u := by
  refine Str.ofText_injective ?_
  rw [← decodeReplace_utf8, h, decodeReplace_utf8]

end Utf8

/-! ## The codec -/

/-- What `urlEncode` and `urlDecode` are relied on for; `decode` fails on a broken escape. -/
structure UrlCodec where
  encode : Text → Text
  decode : Text → Option Text
  decode_encode : ∀ s, decode (encode s) = some s
  ampersand : ∀ s, '&' ∉ encode s
  equals : ∀ s, '=' ∉ encode s

namespace UrlForm

def hexDigit (n : Nat) : Char := (Nat.digitChar n).toUpper

def hexValue (c : Char) : Option Nat :=
  let n := c.toNat
  if 48 ≤ n ∧ n ≤ 57 then some (n - 48)
  else if 65 ≤ n ∧ n ≤ 70 then some (n - 55)
  else if 97 ≤ n ∧ n ≤ 102 then some (n - 87)
  else none

/-- What stands for itself. -/
def unreserved (c : Char) : Bool :=
  c.isAlphanum || c = '.' || c = '-' || c = '*' || c = '_'

def escape (b : UInt8) : Text := ['%', hexDigit (b.toNat / 16), hexDigit (b.toNat % 16)]

def encodeChar (c : Char) : Text :=
  if c = ' ' then ['+']
  else if unreserved c then [c]
  else (String.utf8EncodeChar c).flatMap escape

def urlEncode (s : Text) : Text := s.flatMap encodeChar

/-- The bytes of a run of escapes. -/
def flush (run : Bytes) : Text := (Utf8.decodeReplace run).shown

/-- `run` holds the bytes of the escapes just read: they are decoded together. -/
def urlDecodeFrom : Bytes → Text → Option Text
  | run, [] => some (flush run)
  | run, c :: cs =>
      if c = '%' then
        match cs with
        | h :: l :: rest =>
            match hexValue h, hexValue l with
            | some h, some l => urlDecodeFrom (run ++ [UInt8.ofNat (16 * h + l)]) rest
            | _, _ => none
        | _ => none
      else
        (urlDecodeFrom [] cs).map fun rest => flush run ++ (if c = '+' then ' ' else c) :: rest

theorem flush_utf8 (t : Text) : flush (utf8 t) = t := by
  rw [flush, Utf8.decodeReplace_utf8, Str.shown_ofText]

theorem hexDigit_spec : ∀ n < 16, hexValue (hexDigit n) = some n ∧ hexDigit n ≠ '&' ∧
    hexDigit n ≠ '=' := by decide

theorem urlDecodeFrom_escape (bytes run : Bytes) (s : Text) :
    urlDecodeFrom run (bytes.flatMap escape ++ s) = urlDecodeFrom (run ++ bytes) s := by
  induction bytes generalizing run with
  | nil => rw [List.append_nil, List.flatMap_nil, List.nil_append]
  | cons b bytes ih =>
    have hb : b.toNat < 256 := b.toNat_lt
    have hhigh := (hexDigit_spec (b.toNat / 16) (by omega)).1
    have hlow := (hexDigit_spec (b.toNat % 16) (by omega)).1
    have hbyte : UInt8.ofNat (16 * (b.toNat / 16) + b.toNat % 16) = b := by
      rw [Nat.div_add_mod, UInt8.ofNat_toNat]
    rw [List.flatMap_cons, List.append_assoc]
    simp only [escape, List.cons_append, List.nil_append]
    rw [urlDecodeFrom, if_pos rfl]
    simp only [hhigh, hlow, hbyte]
    rw [ih, List.append_assoc, List.singleton_append]

theorem urlDecodeFrom_plain {c : Char} (h : c ≠ '%') (t : Text) {s d : Text}
    (hs : urlDecodeFrom [] s = some d) :
    urlDecodeFrom (utf8 t) (c :: s) = some (t ++ (if c = '+' then ' ' else c) :: d) := by
  unfold urlDecodeFrom
  rw [if_neg h, hs, flush_utf8]
  rfl

/-- The escapes of a run are the bytes of the characters `t` before it. -/
theorem urlDecodeFrom_urlEncode (t s : Text) :
    urlDecodeFrom (utf8 t) (urlEncode s) = some (t ++ s) := by
  induction s generalizing t with
  | nil =>
    rw [List.append_nil]
    exact congrArg some (flush_utf8 t)
  | cons c s ih =>
    rw [urlEncode, List.flatMap_cons, encodeChar]
    split_ifs with hspace hplain
    · rw [hspace]
      exact urlDecodeFrom_plain (by decide) t (ih [])
    · have hpercent : c ≠ '%' := by
        rintro rfl
        exact absurd hplain (by decide)
      have hplus : c ≠ '+' := by
        rintro rfl
        exact absurd hplain (by decide)
      have hstep := urlDecodeFrom_plain hpercent t (ih [])
      rw [if_neg hplus] at hstep
      exact hstep
    · have hutf8 : utf8 t ++ String.utf8EncodeChar c = utf8 (t ++ [c]) := by
        simp [utf8, List.flatMap_append]
      have hstep := ih (t ++ [c])
      rw [List.append_assoc, List.singleton_append] at hstep
      rw [urlDecodeFrom_escape, hutf8]
      exact hstep

theorem mem_urlEncode {c : Char} {s : Text} (h : c ∈ urlEncode s) :
    c = '+' ∨ unreserved c = true ∨ c = '%' ∨ ∃ n < 16, c = hexDigit n := by
  obtain ⟨d, -, hd⟩ := List.mem_flatMap.mp h
  unfold encodeChar at hd
  split_ifs at hd with hspace hplain
  · exact Or.inl (List.mem_singleton.mp hd)
  · rw [List.mem_singleton.mp hd]
    exact Or.inr (Or.inl hplain)
  · obtain ⟨b, -, hb⟩ := List.mem_flatMap.mp hd
    have hlt : b.toNat < 256 := b.toNat_lt
    simp only [escape, List.mem_cons, List.not_mem_nil, or_false] at hb
    rcases hb with rfl | rfl | rfl
    · exact Or.inr (Or.inr (Or.inl rfl))
    · exact Or.inr (Or.inr (Or.inr ⟨_, by omega, rfl⟩))
    · exact Or.inr (Or.inr (Or.inr ⟨_, by omega, rfl⟩))

theorem separator_notMem_urlEncode {sep : Char} (hsep : sep = '&' ∨ sep = '=') (s : Text) :
    sep ∉ urlEncode s := by
  intro h
  rcases mem_urlEncode h with hc | hc | hc | ⟨n, hn, hc⟩
  · rcases hsep with rfl | rfl <;> exact absurd hc (by decide)
  · rcases hsep with rfl | rfl <;> exact absurd hc (by decide)
  · rcases hsep with rfl | rfl <;> exact absurd hc (by decide)
  · rcases hsep with rfl | rfl
    · exact (hexDigit_spec n hn).2.1 hc.symm
    · exact (hexDigit_spec n hn).2.2 hc.symm

/-- `EncodingUtil.urlEncode` and `urlDecode` with `UTF-8`. -/
def codec : UrlCodec where
  encode := urlEncode
  decode := urlDecodeFrom []
  decode_encode := urlDecodeFrom_urlEncode []
  ampersand := separator_notMem_urlEncode (Or.inl rfl)
  equals := separator_notMem_urlEncode (Or.inr rfl)

end UrlForm

end Outreach.Library
