import Outreach.Library.Unicode
import Mathlib.Algebra.Group.Nat.Defs

/-!
# Name-based identifiers: SHA-1 and UUID version 5

`hashlib.sha1` over a list of bytes, and `uuid.uuid5` over a namespace and a text.
The message schedule is a window of sixteen words that moves on with the rounds.
-/

namespace Outreach.Library

set_option autoImplicit false

abbrev Bytes := List UInt8

namespace Sha1

/-- The five words of the chaining value. -/
structure State where
  a : UInt32
  b : UInt32
  c : UInt32
  d : UInt32
  e : UInt32
  deriving DecidableEq

def initial : State := ⟨0x67452301, 0xefcdab89, 0x98badcfe, 0x10325476, 0xc3d2e1f0⟩

def rotateLeft (w n : UInt32) : UInt32 := (w <<< n) ||| (w >>> (32 - n))

/-- The function of a round, and its constant. -/
def mix (t : Nat) (b c d : UInt32) : UInt32 :=
  if t < 20 then (b &&& c) ||| (~~~b &&& d)
  else if t < 40 then b ^^^ c ^^^ d
  else if t < 60 then (b &&& c) ||| (b &&& d) ||| (c &&& d)
  else b ^^^ c ^^^ d

def constant (t : Nat) : UInt32 :=
  if t < 20 then 0x5a827999
  else if t < 40 then 0x6ed9eba1
  else if t < 60 then 0x8f1bbcdc
  else 0xca62c1d6

def round (t : Nat) (s : State) (w : UInt32) : State :=
  ⟨rotateLeft s.a 5 + mix t s.b s.c s.d + s.e + constant t + w, s.a, rotateLeft s.b 30, s.c, s.d⟩

/-- The word that enters the window. -/
def nextWord (window : List UInt32) : UInt32 :=
  rotateLeft (window.getD 13 0 ^^^ window.getD 8 0 ^^^ window.getD 2 0 ^^^ window.getD 0 0) 1

/-- `n` rounds from round `t` on. -/
def rounds : Nat → Nat → List UInt32 → State → State
  | 0, _, _, s => s
  | n + 1, t, window, s =>
      rounds n (t + 1) (window.tail ++ [nextWord window]) (round t s (window.headD 0))

/-- Big-endian words. -/
def words : Bytes → List UInt32
  | a :: b :: c :: d :: rest =>
      ((a.toUInt32 <<< 24) ||| (b.toUInt32 <<< 16) ||| (c.toUInt32 <<< 8) ||| d.toUInt32) ::
        words rest
  | _ => []

def compress (s : State) (block : Bytes) : State :=
  let r := rounds 80 0 (words block) s
  ⟨s.a + r.a, s.b + r.b, s.c + r.c, s.d + r.d, s.e + r.e⟩

/-- `n` big-endian bytes. -/
def bigEndian (n value : Nat) : Bytes :=
  (List.range n).map fun i => UInt8.ofNat (value / 256 ^ (n - 1 - i))

/-- The message with its padding, a multiple of 64 bytes. -/
def padded (message : Bytes) : Bytes :=
  message ++ 0x80 :: List.replicate ((119 - message.length % 64) % 64) 0 ++
    bigEndian 8 (8 * message.length)

def blocks (bytes : Bytes) : List Bytes :=
  (List.range (bytes.length / 64)).map fun i => (bytes.drop (64 * i)).take 64

def State.bytes (s : State) : Bytes :=
  [s.a, s.b, s.c, s.d, s.e].flatMap fun w => bigEndian 4 w.toNat

end Sha1

/-- `hashlib.sha1(message).digest()` -/
def sha1 (message : Bytes) : Bytes :=
  ((Sha1.blocks (Sha1.padded message)).foldl Sha1.compress Sha1.initial).bytes

/-- `bytes(text, "utf-8")` -/
def utf8 (text : Text) : Bytes := text.flatMap String.utf8EncodeChar

theorem length_sha1 (message : Bytes) : (sha1 message).length = 20 := by
  simp [sha1, Sha1.State.bytes, Sha1.bigEndian]

structure Uuid where
  bytes : Bytes
  length : bytes.length = 16
  deriving DecidableEq

namespace Uuid

/-- The bytes with version 5 and the variant set. -/
def stamp (bytes : Bytes) : Bytes :=
  (bytes.modify 6 fun b => (b &&& 0x0f) ||| 0x50).modify 8 fun b => (b &&& 0x3f) ||| 0x80

/-- `uuid.uuid5` -/
def uuid5 (space : Uuid) (name : Text) : Uuid where
  bytes := stamp ((sha1 (space.bytes ++ utf8 name)).take 16)
  length := by
    rw [stamp, List.length_modify, List.length_modify, List.length_take, length_sha1]
    rfl

def hexByte (b : UInt8) : Text := [Nat.digitChar (b.toNat / 16), Nat.digitChar (b.toNat % 16)]

/-- `str(uuid)` -/
def toText (u : Uuid) : Text :=
  let hex (i j : Nat) : Text := ((u.bytes.drop i).take (j - i)).flatMap hexByte
  hex 0 4 ++ '-' :: hex 4 6 ++ '-' :: hex 6 8 ++ '-' :: hex 8 10 ++ '-' :: hex 10 16

/-- `uuid.NAMESPACE_DNS` -/
def namespaceDns : Uuid :=
  ⟨[0x6b, 0xa7, 0xb8, 0x10, 0x9d, 0xad, 0x11, 0xd1, 0x80, 0xb4, 0x00, 0xc0, 0x4f, 0xd4, 0x30, 0xc8],
    rfl⟩

example : (uuid5 namespaceDns "python.org".toList).toText =
    "886313e1-3b8a-5372-9b90-0c9aee199e5d".toList := by
  decide +kernel

end Uuid

end Outreach.Library
