import Outreach.Library.CodePoints

/-!
# Message authentication: HMAC-SHA1, and Base64 texts

Bytes are written in groups of three as four characters; the last group is
padded. Every character of the text is visible ASCII.
-/

namespace Outreach.Library

set_option autoImplicit false

namespace Hmac

def blockSize : Nat := 64

/-- The key, filled up to a block; a longer one is hashed first. -/
def blockKey (key : Bytes) : Bytes :=
  let key := if blockSize < key.length then sha1 key else key
  key ++ List.replicate (blockSize - key.length) 0

end Hmac

/-- The `hmacSHA1` of `message` under `key`. -/
def hmacSha1 (key message : Bytes) : Bytes :=
  let block := Hmac.blockKey key
  sha1 (block.map (0x5c ^^^ ·) ++ sha1 (block.map (0x36 ^^^ ·) ++ message))

theorem length_hmacSha1 (key message : Bytes) : (hmacSha1 key message).length = 20 :=
  length_sha1 _

namespace Base64

def digit (n : Nat) : Char :=
  if n < 26 then Char.ofNat (65 + n)
  else if n < 52 then Char.ofNat (71 + n)
  else if n < 62 then Char.ofNat (n - 4)
  else if n = 62 then '+'
  else '/'

/-- `base64Encode` -/
def encode : Bytes → Text
  | [] => []
  | [a] => [digit (a.toNat / 4), digit (a.toNat % 4 * 16), '=', '=']
  | [a, b] =>
      [digit (a.toNat / 4), digit (a.toNat % 4 * 16 + b.toNat / 16),
        digit (b.toNat % 16 * 4), '=']
  | a :: b :: c :: rest =>
      digit (a.toNat / 4) :: digit (a.toNat % 4 * 16 + b.toNat / 16) ::
        digit (b.toNat % 16 * 4 + c.toNat / 64) :: digit (c.toNat % 64) :: encode rest

def visible (c : Char) : Bool := decide (33 ≤ c.toNat ∧ c.toNat ≤ 126)

theorem visible_digit : ∀ n < 64, visible (digit n) = true := by decide

theorem visible_encode (bytes : Bytes) : ∀ c ∈ encode bytes, visible c = true := by
  have hlt : ∀ b : UInt8, b.toNat < 256 := fun b => b.toNat_lt
  induction bytes using encode.induct with
  | case1 => exact fun c hc => absurd hc List.not_mem_nil
  | case2 a =>
    have ha := hlt a
    simp only [encode, List.forall_mem_cons]
    exact ⟨visible_digit _ (by omega), visible_digit _ (by omega), rfl, rfl, by simp⟩
  | case3 a b =>
    have ha := hlt a
    have hb := hlt b
    simp only [encode, List.forall_mem_cons]
    exact ⟨visible_digit _ (by omega), visible_digit _ (by omega), visible_digit _ (by omega),
      rfl, by simp⟩
  | case4 a b c rest ih =>
    have ha := hlt a
    have hb := hlt b
    have hc := hlt c
    simp only [encode, List.forall_mem_cons]
    exact ⟨visible_digit _ (by omega), visible_digit _ (by omega), visible_digit _ (by omega),
      visible_digit _ (by omega), ih⟩

theorem encode_ne_nil {bytes : Bytes} (h : bytes ≠ []) : encode bytes ≠ [] := by
  cases bytes using encode.induct with
  | case1 => exact absurd rfl h
  | case2 a => exact List.cons_ne_nil _ _
  | case3 a b => exact List.cons_ne_nil _ _
  | case4 a b c rest => exact List.cons_ne_nil _ _

end Base64

/-- The test vector of a short key. -/
example : Base64.encode (hmacSha1 (utf8 "key".toList)
    (utf8 "The quick brown fox jumps over the lazy dog".toList)) =
      "3nybhbi3iqa8ino29wqQcBydtNk=".toList := by decide +kernel

end Outreach.Library
