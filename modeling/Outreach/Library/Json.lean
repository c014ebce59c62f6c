import Outreach.Library.CodePoints

/-!
# `json.loads` and `json.dumps`

The reader takes one code point at a time, over a stack of the containers that
are open; one more than the interpreter can nest is a `RecursionError`, and
everything else that is no JSON a `ValueError`. The writer escapes what is not
printable ASCII.
-/

namespace Outreach.Library

set_option autoImplicit false

/-- What `json.loads` returns; `φ` is the type of the floating point numbers. -/
inductive JsonValue (φ : Type) where
  | null
  | bool (b : Bool)
  | int (n : Int)
  | float (x : φ)
  | string (s : Str)
  | array (items : List (JsonValue φ))
  | object (members : List (Str × JsonValue φ))

/-- Floating point numbers: `float(text)` and `repr(x)`. -/
structure Floats (φ : Type) where
  ofLiteral : Text → φ
  repr : φ → Text

theorem bind_eq_ok {α β ε : Type} {x : Except ε α} {f : α → Except ε β} {b : β} :
    x >>= f = .ok b ↔ ∃ a, x = .ok a ∧ f a = .ok b := by
  cases x with
  | error e => exact iff_of_false (fun h => nomatch h) fun ⟨_, h, _⟩ => nomatch h
  | ok a =>
    constructor
    · exact fun h => ⟨a, rfl, h⟩
    · rintro ⟨_, ⟨⟩, h⟩
      exact h

namespace Json

/-- `JSONDecodeError`, the `ValueError` for an integer that is too long, `RecursionError`. -/
inductive LoadsError where
  | decode
  | digits
  | recursion
  deriving DecidableEq

/-- `d[key] = value`: a new key goes last, a known one keeps its place. -/
def setMember {β : Type} (key : Str) (value : β) : List (Str × β) → List (Str × β)
  | [] => [(key, value)]
  | m :: ms => if m.1 = key then (key, value) :: ms else m :: setMember key value ms

/-! ## Numbers -/

/-- What was read of a number last. -/
inductive Phase where
  | minus
  | zero
  | digits
  | point
  | fraction
  | exponent
  | sign
  | power
  deriving DecidableEq

namespace Phase

def start (c : Char) : Option Phase :=
  if c = '-' then some minus
  else if c = '0' then some zero
  else if c.isDigit then some digits
  else none

/-- `none` ends the number. -/
def next : Phase → Char → Option Phase
  | minus, c => if c = '0' then some zero else if c.isDigit then some digits else none
  | zero, c =>
      if c = '.' then some point else if c = 'e' ∨ c = 'E' then some exponent else none
  | digits, c =>
      if c.isDigit then some digits
      else if c = '.' then some point
      else if c = 'e' ∨ c = 'E' then some exponent
      else none
  | point, c => if c.isDigit then some fraction else none
  | fraction, c =>
      if c.isDigit then some fraction else if c = 'e' ∨ c = 'E' then some exponent else none
  | exponent, c =>
      if c.isDigit then some power else if c = '+' ∨ c = '-' then some sign else none
  | sign, c => if c.isDigit then some power else none
  | power, c => if c.isDigit then some power else none

/-- The phase at the end of a text that is part of a number. -/
def after : Phase → Text → Option Phase
  | ph, [] => some ph
  | ph, c :: cs => (ph.next c).bind fun ph => after ph cs

end Phase

/-- `sys.int_info.default_max_str_digits` -/
def maxStrDigits : Nat := 4300

def natOf (ds : Text) : Option Nat :=
  if ds.all Char.isDigit ∧ ds.length ≤ maxStrDigits then some (Nat.ofDigitChars 10 ds 0) else none

/-- `int(text)`; `none` is the `ValueError`, also for too many digits. -/
def intOf : Text → Option Int
  | '-' :: ds => (natOf ds).map fun n : Nat => -(n : Int)
  | ds => (natOf ds).map fun n : Nat => (n : Int)

/-- `int.__repr__` -/
def intText (n : Int) : Text :=
  if n < 0 then '-' :: Nat.toDigits 10 n.natAbs else Nat.toDigits 10 n.natAbs

section Reader

variable {φ : Type}

/-! ## The reader -/

/-- A container that is open: the items so far, or the members and the key read last. -/
inductive Frame (φ : Type) where
  | array (items : List (JsonValue φ))
  | object (members : List (Str × JsonValue φ)) (key : Str)

/-- What is to be read next. In a string, `high` says that the code point before came from a
`\u` escape and is the high surrogate `0xD800 + n`. -/
inductive Mode (φ : Type) where
  | value
  | item
  | member
  | key
  | colon
  | after
  | done (v : JsonValue φ)
  | string (isKey : Bool) (text : Str) (high : Option Nat)
  | escape (isKey : Bool) (text : Str) (high : Option Nat)
  | hex (isKey : Bool) (text : Str) (high : Option Nat) (owed bits : Nat)
  | word (rest : Text) (v : JsonValue φ)
  | number (phase : Phase) (text : Text)

structure State (φ : Type) where
  stack : List (Frame φ)
  mode : Mode φ

def isBlank (c : Char) : Bool := c = ' ' || c = '\t' || c = '\n' || c = '\r'

/-- The value takes its place. -/
def complete (v : JsonValue φ) : List (Frame φ) → State φ
  | [] => ⟨[], .done v⟩
  | .array items :: stack => ⟨.array (items ++ [v]) :: stack, .after⟩
  | .object members key :: stack => ⟨.object (setMember key v members) key :: stack, .after⟩

def closeArray : List (Frame φ) → Except LoadsError (State φ)
  | .array items :: stack => .ok (complete (.array items) stack)
  | _ => .error .decode

def closeObject : List (Frame φ) → Except LoadsError (State φ)
  | .object members _ :: stack => .ok (complete (.object members) stack)
  | _ => .error .decode

/-- `py_scanstring` has read the closing quote. -/
def closeString (stack : List (Frame φ)) (isKey : Bool) (text : Str) :
    Except LoadsError (State φ) :=
  if isKey then
    match stack with
    | .object members _ :: stack => .ok ⟨.object members text :: stack, .colon⟩
    | _ => .error .decode
  else .ok (complete (.string text) stack)

def unescape (c : Char) : Option Char :=
  if c = '"' ∨ c = '\\' ∨ c = '/' then some c
  else if c = 'b' then some (Char.ofNat 8)
  else if c = 'f' then some (Char.ofNat 12)
  else if c = 'n' then some '\n'
  else if c = 'r' then some '\r'
  else if c = 't' then some '\t'
  else none

def hexValue (c : Char) : Option Nat :=
  let n := c.toNat
  if 48 ≤ n ∧ n ≤ 57 then some (n - 48)
  else if 97 ≤ n ∧ n ≤ 102 then some (n - 87)
  else if 65 ≤ n ∧ n ≤ 70 then some (n - 55)
  else none

/-- The offset of a high surrogate. -/
def highOf (u : Nat) : Option Nat := if 0xD800 ≤ u ∧ u < 0xDC00 then some (u - 0xD800) else none

/-- The code unit of a `\u` escape is added to a string, or joined to the high surrogate of the
escape before it. -/
def addUnit (text : Str) (high : Option Nat) (u : Nat) : Str × Option Nat :=
  match high with
  | some n =>
      if 0xDC00 ≤ u ∧ u < 0xE000 then
        (text.dropLast ++ [.ofNat (0x10000 + n * 1024 + (u - 0xDC00))], none)
      else (text ++ [.ofNat u], highOf u)
  | none => (text ++ [.ofNat u], highOf u)

/-- `_parse_array` and `_parse_object` after a value. -/
def afterValue (stack : List (Frame φ)) (c : Char) : Except LoadsError (State φ) :=
  if isBlank c then .ok ⟨stack, .after⟩
  else if c = ',' then
    match stack with
    | .array _ :: _ => .ok ⟨stack, .value⟩
    | .object _ _ :: _ => .ok ⟨stack, .key⟩
    | [] => .error .decode
  else if c = ']' then closeArray stack
  else if c = '}' then closeObject stack
  else .error .decode

/-- A step from where `complete` leads. -/
def afterComplete (s : State φ) (c : Char) : Except LoadsError (State φ) :=
  match s.mode with
  | .after => afterValue s.stack c
  | _ => if isBlank c then .ok s else .error .decode

variable (F : Floats φ) (limit : Nat)

/-- `parse_int` and `parse_float` -/
def numberValue (phase : Phase) (text : Text) : Except LoadsError (JsonValue φ) :=
  match phase with
  | .zero | .digits =>
      match intOf text with
      | some n => .ok (.int n)
      | none => .error .digits
  | .fraction | .power => .ok (.float (F.ofLiteral text))
  | _ => .error .decode

/-- `scan_once` at the first code point of a value. -/
def beginValue (stack : List (Frame φ)) (c : Char) : Except LoadsError (State φ) :=
  if c = '"' then .ok ⟨stack, .string false [] none⟩
  else if c = '[' then
    if stack.length < limit then .ok ⟨.array [] :: stack, .item⟩ else .error .recursion
  else if c = '{' then
    if stack.length < limit then .ok ⟨.object [] [] :: stack, .member⟩ else .error .recursion
  else if c = 'n' then .ok ⟨stack, .word "ull".toList .null⟩
  else if c = 't' then .ok ⟨stack, .word "rue".toList (.bool true)⟩
  else if c = 'f' then .ok ⟨stack, .word "alse".toList (.bool false)⟩
  else if c = 'N' then .ok ⟨stack, .word "aN".toList (.float (F.ofLiteral "NaN".toList))⟩
  else if c = 'I' then
    .ok ⟨stack, .word "nfinity".toList (.float (F.ofLiteral "Infinity".toList))⟩
  else
    match Phase.start c with
    | some phase => .ok ⟨stack, .number phase [c]⟩
    | none => .error .decode

/-- Outside strings: `c` is a scalar value. -/
def stepChar (s : State φ) (c : Char) : Except LoadsError (State φ) :=
  match s.mode with
  | .value => if isBlank c then .ok s else beginValue F limit s.stack c
  | .item =>
      if isBlank c then .ok s
      else if c = ']' then closeArray s.stack
      else beginValue F limit s.stack c
  | .member =>
      if isBlank c then .ok s
      else if c = '"' then .ok ⟨s.stack, .string true [] none⟩
      else if c = '}' then closeObject s.stack
      else .error .decode
  | .key =>
      if isBlank c then .ok s
      else if c = '"' then .ok ⟨s.stack, .string true [] none⟩
      else .error .decode
  | .colon =>
      if isBlank c then .ok s else if c = ':' then .ok ⟨s.stack, .value⟩ else .error .decode
  | .word [] _ => .error .decode
  | .word (d :: rest) v =>
      if c ≠ d then .error .decode
      else if rest = [] then .ok (complete v s.stack)
      else .ok ⟨s.stack, .word rest v⟩
  | .number phase text =>
      match phase.next c with
      | some phase => .ok ⟨s.stack, .number phase (text ++ [c])⟩
      | none =>
          if phase = .minus ∧ c = 'I' then
            .ok ⟨s.stack, .word "nfinity".toList (.float (F.ofLiteral "-Infinity".toList))⟩
          else (numberValue F phase text).bind fun v => afterComplete (complete v s.stack) c
  | _ => afterComplete s c

def step (s : State φ) (c : CodePoint) : Except LoadsError (State φ) :=
  match s.mode with
  | .string isKey text high =>
      if c = .scalar '"' then closeString s.stack isKey text
      else if c = .scalar '\\' then .ok ⟨s.stack, .escape isKey text high⟩
      else if c.toNat < 0x20 then .error .decode
      else .ok ⟨s.stack, .string isKey (text ++ [c]) none⟩
  | .escape isKey text high =>
      if c = .scalar 'u' then .ok ⟨s.stack, .hex isKey text high 4 0⟩
      else
        match unescape c.shown with
        | some d => .ok ⟨s.stack, .string isKey (text ++ [.scalar d]) none⟩
        | none => .error .decode
  | .hex isKey text high owed bits =>
      match hexValue c.shown with
      | some d =>
          if owed = 1 then
            let added := addUnit text high (bits * 16 + d)
            .ok ⟨s.stack, .string isKey added.1 added.2⟩
          else .ok ⟨s.stack, .hex isKey text high (owed - 1) (bits * 16 + d)⟩
      | none => .error .decode
  | _ =>
      match c with
      | .scalar c => stepChar F limit s c
      | .surrogate _ => .error .decode

def run : State φ → Str → Except LoadsError (State φ)
  | s, [] => .ok s
  | s, c :: cs => (step F limit s c).bind fun s => run s cs

/-- The end of the text. -/
def finish (s : State φ) : Except LoadsError (JsonValue φ) :=
  match s.stack, s.mode with
  | [], .done v => .ok v
  | [], .number phase text => numberValue F phase text
  | _, _ => .error .decode

def loads (text : Str) : Except LoadsError (JsonValue φ) :=
  (run F limit ⟨[], .value⟩ text).bind (finish F)

end Reader

/-! ## The writer -/

section Writer

variable {φ : Type}

def hexDigit (n : Nat) : Char := Nat.digitChar (n % 16)

/-- `'\\u{0:04x}'.format(u)` -/
def hexUnit (u : Nat) : Text :=
  '\\' :: 'u' :: [hexDigit (u / 4096), hexDigit (u / 256), hexDigit (u / 16), hexDigit u]

/-- `ESCAPE_ASCII` of one code point. -/
def escaped (c : CodePoint) : Text :=
  let n := c.toNat
  if n = 0x22 then ['\\', '"']
  else if n = 0x5C then ['\\', '\\']
  else if n = 0x0A then ['\\', 'n']
  else if n = 0x0D then ['\\', 'r']
  else if n = 0x09 then ['\\', 't']
  else if n = 0x0C then ['\\', 'f']
  else if n = 0x08 then ['\\', 'b']
  else if 0x20 ≤ n ∧ n ≤ 0x7E then [c.shown]
  else if n < 0x10000 then hexUnit n
  else hexUnit (0xD800 + (n - 0x10000) / 1024) ++ hexUnit (0xDC00 + (n - 0x10000) % 1024)

def dumpsString (s : Str) : Text := '"' :: (s.flatMap escaped ++ ['"'])

variable (F : Floats φ)

/-- `floatstr` -/
def floatText (x : φ) : Text :=
  if F.repr x = "nan".toList then "NaN".toList
  else if F.repr x = "inf".toList then "Infinity".toList
  else if F.repr x = "-inf".toList then "-Infinity".toList
  else F.repr x

mutual

/-- What `json.dumps` writes, unless it raises. -/
def dumps : JsonValue φ → Text
  | .null => "null".toList
  | .bool b => if b then "true".toList else "false".toList
  | .int n => intText n
  | .float x => floatText F x
  | .string s => dumpsString s
  | .array [] => "[]".toList
  | .array (v :: items) => '[' :: (dumps v ++ dumpsItems items)
  | .object [] => "{}".toList
  | .object ((key, v) :: members) =>
      '{' :: (dumpsString key ++ ": ".toList ++ dumps v ++ dumpsMembers members)

def dumpsItems : List (JsonValue φ) → Text
  | [] => [']']
  | v :: items => ", ".toList ++ dumps v ++ dumpsItems items

def dumpsMembers : List (Str × JsonValue φ) → Text
  | [] => ['}']
  | (key, v) :: members =>
      ", ".toList ++ dumpsString key ++ ": ".toList ++ dumps v ++ dumpsMembers members

end

/-! ### What the writer cannot do -/

mutual

/-- How many containers are nested. -/
def depth : JsonValue φ → Nat
  | .array items => depthItems items + 1
  | .object members => depthMembers members + 1
  | _ => 0

def depthItems : List (JsonValue φ) → Nat
  | [] => 0
  | v :: items => max (depth v) (depthItems items)

def depthMembers : List (Str × JsonValue φ) → Nat
  | [] => 0
  | (_, v) :: members => max (depth v) (depthMembers members)

end

mutual

/-- `int.__repr__` does not raise. -/
def Short : JsonValue φ → Prop
  | .int n => (Nat.toDigits 10 n.natAbs).length ≤ maxStrDigits
  | .array items => ShortItems items
  | .object members => ShortMembers members
  | _ => True

def ShortItems : List (JsonValue φ) → Prop
  | [] => True
  | v :: items => Short v ∧ ShortItems items

def ShortMembers : List (Str × JsonValue φ) → Prop
  | [] => True
  | (_, v) :: members => Short v ∧ ShortMembers members

end

mutual

def Short.decide : (v : JsonValue φ) → Decidable (Short v)
  | .int n => inferInstanceAs (Decidable ((Nat.toDigits 10 n.natAbs).length ≤ maxStrDigits))
  | .array items => ShortItems.decide items
  | .object members => ShortMembers.decide members
  | .null => .isTrue trivial
  | .bool _ => .isTrue trivial
  | .float _ => .isTrue trivial
  | .string _ => .isTrue trivial

def ShortItems.decide : (items : List (JsonValue φ)) → Decidable (ShortItems items)
  | [] => .isTrue trivial
  | v :: items => @instDecidableAnd _ _ (Short.decide v) (ShortItems.decide items)

def ShortMembers.decide : (members : List (Str × JsonValue φ)) → Decidable (ShortMembers members)
  | [] => .isTrue trivial
  | (_, v) :: members => @instDecidableAnd _ _ (Short.decide v) (ShortMembers.decide members)

end

instance (v : JsonValue φ) : Decidable (Short v) := Short.decide v

/-- `json.dumps`; `none` raises. -/
def tryDumps (limit : Nat) (v : JsonValue φ) : Option Text :=
  if depth v ≤ limit ∧ Short v then some (dumps F v) else none

end Writer

end Json

end Outreach.Library
