import Outreach.Library.Base64
import Outreach.Library.Binary64
import Outreach.Library.JsonPlain
import Outreach.Library.NormalForm
import Outreach.Library.Python

/-!
# The JWT bearer flow: `salesforce/auth.py`

The assertion is three segments of Base64 with a `.` between them. The token endpoint
is the one of the fake Salesforce: it verifies the signature of the first two
segments, and compares the claims with its own account. The package `rsa` is a
parameter, with one law: what was signed is verified.
-/

namespace Outreach.Salesforce.Auth

open Outreach.Library

set_option autoImplicit false

structure SalesforceCredentials where
  clientId : Text
  username : Text
  loginUrl : Text
  privateKeyPem : Text

/-- `JWT_EXPIRY_SECONDS` -/
def jwtExpirySeconds : Int := 300

/-- `int(x)` of a float -/
def truncate (x : ℚ) : Int := if 0 ≤ x then ⌊x⌋ else ⌈x⌉

/-- `int(now.timestamp()) + JWT_EXPIRY_SECONDS`; `now` is in microseconds since the epoch. -/
def expiry (now : Int) : Int := truncate (Binary64.round (now / 1000000)) + jwtExpirySeconds

/-- Before the year 2242 the float of a time has no less than 20 binary places. -/
def Dated (now : Int) : Prop := 0 ≤ now ∧ now < 2 ^ 33 * 1000000

section Assertion

variable {φ : Type} (F : Floats φ)

def header : JsonValue φ := .object [(Str.ofString "alg", .string (Str.ofString "RS256"))]

def claims (creds : SalesforceCredentials) (now : Int) : JsonValue φ :=
  .object [(Str.ofString "iss", .string (Str.ofText creds.clientId)),
    (Str.ofString "sub", .string (Str.ofText creds.username)),
    (Str.ofString "aud", .string (Str.ofText creds.loginUrl)),
    (Str.ofString "exp", .int (expiry now))]

/-- A segment of the assertion: the JSON text in UTF-8. -/
def segment (v : JsonValue φ) : Text := Base64.encodeUrl (utf8 (Json.dumps F v))

def signingInput (creds : SalesforceCredentials) (now : Int) : Text :=
  segment F header ++ '.' :: segment F (claims creds now)

/-- `build_assertion`; `sign` is `rsa.sign` with the key that `load_pkcs1` reads, and `none`
where one of them raises. -/
def buildAssertion (sign : Text → Bytes → Option Bytes) (creds : SalesforceCredentials)
    (now : Int) : Option Text :=
  (sign creds.privateKeyPem (utf8 (signingInput F creds now))).map fun signature =>
    signingInput F creds now ++ '.' :: Base64.encodeUrl signature

/-! ## The token endpoint -/

def holds (claims : JsonValue φ) (name : String) (value : Text) : Bool :=
  match claims.item name with
  | .ok (.string s) => s = Str.ofText value
  | _ => false

/-- `_token`, from the assertion on; `none` where an assertion of it fails. -/
def token (limit : Nat) (verify : Bytes → Bytes → Bool) (clientId username loginUrl : Text)
    (assertion : Text) : Option (JsonValue φ) := do
  let (input, signature) := (rpartition '.' assertion).getD ([], assertion)
  let signature ← Base64.decodeUrl signature
  guard (verify (utf8 input) signature = true)
  let bytes ← Base64.decodeUrl (← (splitAtFrom '.' [] input)[1]?)
  let claims ← (Json.loads F limit (Utf8.decodeReplace bytes)).toOption
  guard (holds claims "iss" clientId = true ∧ holds claims "sub" username = true ∧
    holds claims "aud" loginUrl = true)
  return claims

end Assertion

/-! ## The time of expiry -/

/-- The float of a time is in the same second. -/
theorem expiry_eq {now : Int} (h : Dated now) : expiry now = now / 1000000 + jwtExpirySeconds := by
  obtain ⟨hnonneg, hlast⟩ := h
  have hsecond : 0 ≤ now / 1000000 := Int.ediv_nonneg hnonneg (by decide)
  have hplace : now / 1000000 + 1 ≤ 2 ^ 33 := by omega
  have hlow : (now / 1000000 : Int) ≤ Binary64.round (now / 1000000) := by
    have hle : ((now / 1000000 : Int) : ℚ) ≤ now / 1000000 := by
      rw [le_div_iff₀ (by norm_num)]
      exact_mod_cast Int.ediv_mul_le now (by decide : (1000000 : Int) ≠ 0)
    have hround := Binary64.round_mono (by exact_mod_cast hsecond) hle
    rwa [Binary64.round_intCast (by rw [abs_of_nonneg hsecond]; omega)] at hround
  have hhigh : Binary64.round (now / 1000000) < (now / 1000000 : Int) + 1 := by
    -- the last number with 20 binary places before the next second
    have hle : (now : ℚ) / 1000000 ≤
        (((now / 1000000 + 1) * 2 ^ 20 - 1 : Int) : ℚ) * 2 ^ (-20 : Int) := by
      rw [div_le_iff₀ (by norm_num), zpow_neg, mul_assoc, ← div_eq_inv_mul, mul_div_assoc',
        le_div_iff₀ (by norm_num)]
      have hmicro : now * 2 ^ 20 ≤ ((now / 1000000 + 1) * 2 ^ 20 - 1) * 1000000 := by omega
      exact_mod_cast hmicro
    have hround := Binary64.round_mono (div_nonneg (by exact_mod_cast hnonneg) (by norm_num)) hle
    rw [Binary64.round_mul_zpow (by rw [abs_of_nonneg] <;> omega)] at hround
    refine hround.trans_lt ?_
    rw [zpow_neg, ← div_eq_mul_inv, div_lt_iff₀ (by norm_num)]
    push_cast
    linarith
  have hfloor : ⌊Binary64.round (now / 1000000)⌋ = now / 1000000 :=
    Int.floor_eq_iff.mpr ⟨hlow, hhigh⟩
  have hpos : 0 ≤ Binary64.round (now / 1000000) :=
    le_trans (by exact_mod_cast hsecond) hlow
  rw [expiry, truncate, if_pos hpos, hfloor]

/-! ## What the endpoint reads -/

section Accepted

variable {φ : Type} {F : Floats φ} {limit : Nat}

theorem plain_claims (creds : SalesforceCredentials) (now : Int) :
    Json.Plain (claims (φ := φ) creds now) := by
  have hkeys : (["iss", "sub", "aud", "exp"].map Str.ofString).Nodup := by decide
  refine ⟨hkeys, ?_⟩
  simp only [Json.PlainMembers, Json.Plain, Json.joined_ofString, Json.joined_ofText, and_self]

/-- The claims can be written, in a time that is dated. -/
theorem tryDumps_claims (creds : SalesforceCredentials) {now : Int} (h : Dated now)
    (hlimit : 1 ≤ limit) :
    Json.tryDumps F limit (claims creds now) = some (Json.dumps F (claims creds now)) := by
  have hexpiry : Json.Short (φ := φ) (.int (expiry now)) := by
    refine Json.short_int (lt_of_lt_of_le ?_ (Nat.pow_le_pow_right (by decide)
      (show 12 ≤ Json.maxStrDigits by decide)))
    rw [expiry_eq h, jwtExpirySeconds]
    obtain ⟨hnonneg, hlast⟩ := h
    omega
  exact if_pos ⟨hlimit, trivial, trivial, trivial, hexpiry, trivial⟩

/-- A segment is decoded to the value it was made of. -/
theorem loads_segment {v : JsonValue φ} (h : Json.Plain v)
    (hwritten : Json.tryDumps F limit v = some (Json.dumps F v)) :
    ∃ bytes, Base64.decodeUrl (segment F v) = some bytes ∧
      Json.loads F limit (Utf8.decodeReplace bytes) = .ok v := by
  refine ⟨utf8 (Json.dumps F v), Base64.decodeUrl_encodeUrl _, ?_⟩
  rw [Utf8.decodeReplace_utf8]
  exact h.loads_tryDumps F hwritten

theorem dot_notMem_segment (v : JsonValue φ) : '.' ∉ segment F v :=
  Base64.dot_notMem_encodeUrl _

theorem split_signingInput (creds : SalesforceCredentials) (now : Int) :
    splitAtFrom '.' [] (signingInput F creds now) =
      [segment F header, segment F (claims creds now)] := by
  rw [signingInput, splitAtFrom_append (dot_notMem_segment _),
    splitAtFrom_of_notMem (dot_notMem_segment _)]
  rfl

theorem split_assertion (creds : SalesforceCredentials) (now : Int) (signature : Bytes) :
    splitAtFrom '.' [] (signingInput F creds now ++ '.' :: Base64.encodeUrl signature) =
      [segment F header, segment F (claims creds now), Base64.encodeUrl signature] := by
  rw [signingInput, List.append_assoc, List.cons_append,
    splitAtFrom_append (dot_notMem_segment _), splitAtFrom_append (dot_notMem_segment _),
    splitAtFrom_of_notMem (Base64.dot_notMem_encodeUrl signature)]
  rfl

theorem holds_claims {creds : SalesforceCredentials} {now : Int} {value : Text} :
    (holds (claims (φ := φ) creds now) "iss" value = true ↔ value = creds.clientId) ∧
    (holds (claims (φ := φ) creds now) "sub" value = true ↔ value = creds.username) ∧
    (holds (claims (φ := φ) creds now) "aud" value = true ↔ value = creds.loginUrl) := by
  have hstring : ∀ t : Text, decide (Str.ofText t = Str.ofText value) = true ↔ value = t := by
    intro t
    rw [decide_eq_true_iff]
    exact ⟨fun h => (Str.ofText_injective h).symm, fun h => h ▸ rfl⟩
  exact ⟨hstring _, hstring _, hstring _⟩

/-- The endpoint of the account takes the assertion and reads its claims; no other account does.
It expires 300 seconds after the second of `now`. -/
theorem token_buildAssertion {sign : Text → Bytes → Option Bytes}
    {verify : Bytes → Bytes → Bool} {creds : SalesforceCredentials} {now : Int}
    {assertion : Text} (clientId username loginUrl : Text)
    (hrsa : ∀ message signature, sign creds.privateKeyPem message = some signature →
      verify message signature = true)
    (hnow : Dated now) (hlimit : 1 ≤ limit)
    (hbuilt : buildAssertion F sign creds now = some assertion) :
    token F limit verify clientId username loginUrl assertion =
        (if clientId = creds.clientId ∧ username = creds.username ∧ loginUrl = creds.loginUrl then
          some (claims creds now) else none) ∧
      expiry now = now / 1000000 + 300 ∧
      ∃ signature, splitAtFrom '.' [] assertion =
        [segment F header, segment F (claims creds now), Base64.encodeUrl signature] := by
  obtain ⟨signature, hsigned, rfl⟩ := Option.map_eq_some_iff.mp hbuilt
  have hdot : '.' ∉ Base64.encodeUrl signature := Base64.dot_notMem_encodeUrl signature
  obtain ⟨bytes, hbytes, hloads⟩ :=
    loads_segment (plain_claims creds now) (tryDumps_claims (F := F) creds hnow hlimit)
  refine ⟨?_, expiry_eq hnow, signature, ?_⟩
  · have hverified : verify (utf8 (signingInput F creds now)) signature = true :=
      hrsa _ _ hsigned
    have hparts : rpartition '.' (signingInput F creds now ++ '.' :: Base64.encodeUrl signature) =
        some (signingInput F creds now, Base64.encodeUrl signature) :=
      rpartition_eq_some.mpr ⟨rfl, hdot⟩
    rw [token, hparts]
    simp only [Option.getD_some, Base64.decodeUrl_encodeUrl, split_signingInput, hverified, hbytes, hloads,
      Option.bind_eq_bind, Option.bind_some, guard, List.getElem?_cons_succ,
      List.getElem?_cons_zero, if_true, Except.toOption, holds_claims.1, holds_claims.2.1,
      holds_claims.2.2]
    split
    · rfl
    · rfl
  · exact split_assertion creds now signature

/-- An account, and a signature that anyone with the key can make. -/
def integrationUser : SalesforceCredentials where
  clientId := "consumer".toList
  username := "integration@example".toList
  loginUrl := "https://login.example".toList
  privateKeyPem := "key".toList

def keyedSign (pem : Text) (message : Bytes) : Option Bytes := some (hmacSha1 (utf8 pem) message)

def keyedVerify (message signature : Bytes) : Bool :=
  keyedSign integrationUser.privateKeyPem message = some signature

/-- The first second of 2026-07-30. -/
def julyThirtieth : Int := 1785369600 * 1000000

theorem token_buildAssertion_integrationUser :
    ∃ assertion, buildAssertion Python.plain.floats keyedSign integrationUser julyThirtieth =
        some assertion ∧
      token Python.plain.floats 1000 keyedVerify "consumer".toList "integration@example".toList
        "https://login.example".toList assertion = some (claims integrationUser julyThirtieth) ∧
      expiry julyThirtieth = 1785369600 + 300 := by
  obtain ⟨assertion, hbuilt⟩ : ∃ assertion, buildAssertion Python.plain.floats keyedSign
      integrationUser julyThirtieth = some assertion := ⟨_, rfl⟩
  have hrsa : ∀ message signature, keyedSign integrationUser.privateKeyPem message =
      some signature → keyedVerify message signature = true := fun _ _ => decide_eq_true
  have hnow : Dated julyThirtieth := ⟨by decide, by decide⟩
  obtain ⟨htoken, hexpiry, -⟩ := token_buildAssertion "consumer".toList
    "integration@example".toList "https://login.example".toList hrsa hnow
    (show 1 ≤ 1000 by decide) hbuilt
  exact ⟨assertion, hbuilt, htoken.trans (if_pos ⟨rfl, rfl, rfl⟩), hexpiry⟩

end Accepted

end Outreach.Salesforce.Auth
