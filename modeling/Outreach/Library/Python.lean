import Outreach.Library.Json

/-!
# `str`, `repr` and truth of what `json.loads` returns

The text of a container is made of the `repr` of what it holds. It nests no
deeper than the interpreter can, and an integer with too many digits has none.
-/

namespace Outreach.Library

open Json

set_option autoImplicit false

/-- The name of the class of an exception. -/
abbrev PyError := Text

def keyError : PyError := "KeyError".toList
def typeError : PyError := "TypeError".toList
def attributeError : PyError := "AttributeError".toList
def valueError : PyError := "ValueError".toList
def recursionError : PyError := "RecursionError".toList

def Json.LoadsError.name : Json.LoadsError → PyError
  | .decode => "JSONDecodeError".toList
  | .digits => valueError
  | .recursion => recursionError

/-- What the interpreter is given. -/
structure Python (φ : Type) where
  unicode : UnicodeData
  /-- `str.isprintable`, beyond ASCII -/
  printableTable : Char → Bool
  floats : Floats φ
  /-- how deep `repr` may nest -/
  reprLimit : Nat

namespace Python

variable {φ : Type} (py : Python φ)

/-- `bool(value)` -/
def truthy : JsonValue φ → Bool
  | .null => false
  | .bool b => b
  | .int n => n != 0
  | .float x => !(["0.0".toList, "-0.0".toList].contains (py.floats.repr x))
  | .string s => !s.isEmpty
  | .array items => !items.isEmpty
  | .object members => !members.isEmpty

def hexDigits (width n : Nat) : Text :=
  (List.range width).reverse.map fun i => Json.hexDigit (n / 16 ^ i)

def printable : CodePoint → Bool
  | .scalar c => if isAscii c then 32 ≤ c.toNat && c.toNat ≤ 126 else py.printableTable c
  | .surrogate _ => false

/-- One code point of a `repr` between `quote`s. -/
def reprPoint (quote : Char) (c : CodePoint) : Str :=
  let n := c.toNat
  if c = .scalar quote ∨ c = .scalar '\\' then [.scalar '\\', c]
  else if n = 9 then Str.ofText ['\\', 't']
  else if n = 10 then Str.ofText ['\\', 'n']
  else if n = 13 then Str.ofText ['\\', 'r']
  else if py.printable c then [c]
  else if n < 0x100 then Str.ofText ('\\' :: 'x' :: hexDigits 2 n)
  else if n < 0x10000 then Str.ofText ('\\' :: 'u' :: hexDigits 4 n)
  else Str.ofText ('\\' :: 'U' :: hexDigits 8 n)

def reprStr (s : Str) : Str :=
  let quote := if s.contains (.scalar '\'') && !s.contains (.scalar '"') then '"' else '\''
  .scalar quote :: (s.flatMap (py.reprPoint quote) ++ [.scalar quote])

mutual

/-- `repr(value)`, unless it raises. -/
def reprValue : JsonValue φ → Str
  | .null => Str.ofString "None"
  | .bool b => Str.ofString (if b then "True" else "False")
  | .int n => Str.ofText (intText n)
  | .float x => Str.ofText (py.floats.repr x)
  | .string s => py.reprStr s
  | .array [] => Str.ofString "[]"
  | .array (v :: items) => .scalar '[' :: (reprValue v ++ reprItems items)
  | .object [] => Str.ofString "\x7b\x7d"
  | .object ((key, v) :: members) =>
      .scalar '\x7b' :: (py.reprStr key ++ Str.ofString ": " ++ reprValue v ++ reprMembers members)

def reprItems : List (JsonValue φ) → Str
  | [] => [.scalar ']']
  | v :: items => Str.ofString ", " ++ reprValue v ++ reprItems items

def reprMembers : List (Str × JsonValue φ) → Str
  | [] => [.scalar '\x7d']
  | (key, v) :: members =>
      Str.ofString ", " ++ py.reprStr key ++ Str.ofString ": " ++ reprValue v ++ reprMembers members

end

mutual

/-- What `repr(value)` raises first, when it may nest `room` more containers. -/
def reprRaises : Nat → JsonValue φ → Option PyError
  | _, .int n => if (Nat.toDigits 10 n.natAbs).length ≤ maxStrDigits then none else some valueError
  | 0, .array _ => some recursionError
  | room + 1, .array items => raisesItems room items
  | 0, .object _ => some recursionError
  | room + 1, .object members => raisesMembers room members
  | _, _ => none

def raisesItems (room : Nat) : List (JsonValue φ) → Option PyError
  | [] => none
  | v :: items => (reprRaises room v).or (raisesItems room items)

def raisesMembers (room : Nat) : List (Str × JsonValue φ) → Option PyError
  | [] => none
  | (_, v) :: members => (reprRaises room v).or (raisesMembers room members)

end

/-- `str(value)` -/
def str : JsonValue φ → Except PyError Str
  | .string s => .ok s
  | v =>
      match reprRaises py.reprLimit v with
      | some e => .error e
      | none => .ok (py.reprValue v)

/-- The interpreter of the examples: its tables end with ASCII, and 0.0 is its one float. -/
def plain : Python Unit where
  unicode := UnicodeData.plain
  printableTable := fun _ => true
  floats := ⟨fun _ => (), fun _ => "0.0".toList⟩
  reprLimit := 1000

end Python

/-- `for item in value`: a string gives its code points and an object its keys. -/
def JsonValue.iterate {φ : Type} : JsonValue φ → Except PyError (List (JsonValue φ))
  | .array items => .ok items
  | .object members => .ok (members.map fun m => .string m.1)
  | .string s => .ok (s.map fun c => .string [c])
  | _ => .error typeError

/-- The members of a JSON object. -/
abbrev Members (φ : Type) := List (Str × JsonValue φ)

/-- `d.get(key, missing)` -/
def Members.get {φ : Type} (members : Members φ) (key : String) (missing : JsonValue φ) :
    JsonValue φ :=
  (members.lookup (Str.ofString key)).getD missing

/-- `value[key]` with a text for a key: only an object has any. -/
def JsonValue.item {φ : Type} (key : String) : JsonValue φ → Except PyError (JsonValue φ)
  | .object members =>
      match members.lookup (Str.ofString key) with
      | some v => .ok v
      | none => .error keyError
  | _ => .error typeError

/-- `value.get(key)`: only an object has the method. -/
def JsonValue.get {φ : Type} (key : String) : JsonValue φ → Except PyError (JsonValue φ)
  | .object members => .ok (Members.get members key .null)
  | _ => .error attributeError

end Outreach.Library
