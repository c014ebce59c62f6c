import Outreach.Library.Dict
import Outreach.Library.Hmac
import Outreach.Library.Sorted
import Outreach.Library.UrlForm
import Outreach.Salesforce.Webhook

/-!
# Signed requests: `TwilioWebhook.cls`

`isValidSignature` and `parseForm` over the raw request. `none` is an uncaught
exception: a broken escape in the body. The signature covers the parsed form as
one text, names and values end to end; it is compared with `==`, which ignores
case.
-/

namespace Outreach.Salesforce

open Outreach.Library Outreach.Guardrails

set_option autoImplicit false

/-- `EncodingUtil`, and the folding of characters behind `==`. -/
structure TextServices where
  url : UrlCodec
  foldCase : Char → Char
  foldCase_ascii : ∀ c, isAscii c = true → foldCase c = c.toLower

/-- `a == b` between two strings -/
def TextServices.equalText (S : TextServices) (a b : Text) : Bool :=
  decide (a.map S.foldCase = b.map S.foldCase)

theorem TextServices.equalText_self (S : TextServices) (a : Text) : S.equalText a a = true :=
  decide_eq_true rfl

/-- `b` is `a` with letters in the other case. -/
def TextServices.OtherCase (S : TextServices) (a b : Text) : Prop :=
  b ≠ a ∧ a.map S.foldCase = b.map S.foldCase

theorem TextServices.equalText_iff {S : TextServices} {a b : Text} :
    S.equalText a b = true ↔ b = a ∨ S.OtherCase a b := by
  rw [equalText, decide_eq_true_iff, OtherCase]
  constructor
  · intro h
    by_cases hsame : b = a
    · exact Or.inl hsame
    · exact Or.inr ⟨hsame, h⟩
  · rintro (rfl | ⟨-, h⟩)
    · rfl
    · exact h

/-- The custom metadata that both functions read; the inner option is the field. -/
structure WebhookConfig where
  authTokenOverride : Option Text
  secret : Option (Option Text)
  setting : Option (Option Text)

namespace WebhookConfig

def authToken (config : WebhookConfig) : Option Text :=
  match config.authTokenOverride with
  | some token => some token
  | none => config.secret.join

/-- `OutreachSettings.webhookBaseUrl` -/
def webhookBaseUrl (config : WebhookConfig) : Text := config.setting.join.getD []

/-- The token and the base URL are there. -/
def configured (config : WebhookConfig) : Bool :=
  !isBlank config.authToken && !isBlank (some config.webhookBaseUrl)

end WebhookConfig

structure RestRequest where
  headers : Dict Text Text
  requestURI : Text
  requestBody : Option Text

namespace RestRequest

def body (request : RestRequest) : Text := request.requestBody.getD []

/-- The header of the provider, or the legacy one. -/
def provided (request : RestRequest) : Option Text :=
  let provided := request.headers.get? "X-TextTorrent-Signature".toList
  if isBlank provided then request.headers.get? "X-Twilio-Signature".toList else provided

end RestRequest

/-! ## `parseForm` -/

section Parse

variable (S : TextServices)

/-- One turn of the loop; a pair without `=` is skipped. -/
def putPair (values : Dict Text Text) (pair : Text) : Option (Dict Text Text) :=
  match splitTwo '=' pair with
  | [name, value] => do
      let name ← S.url.decode name
      let value ← S.url.decode value
      return values.set name value
  | _ => some values

def parseForm (body : Text) : Option (Dict Text Text) :=
  (javaSplit '&' body).foldlM (putPair S) Dict.empty

/-! ## `isValidSignature` -/

/-- `names.sort()` -/
def sortedNames (values : Dict Text Text) : List Text := sortOn utf16s values.keys

/-- The loop over the sorted names. -/
def signedText (values : Dict Text Text) : Text :=
  (sortedNames values).flatMap fun name => name ++ (values.get? name).getD []

/-- `EncodingUtil.base64Encode(Crypto.generateMac('hmacSHA1', data, token))` -/
def macText (token data : Text) : Text := Base64.encode (hmacSha1 (utf8 token) (utf8 data))

def isValidSignature (config : WebhookConfig) (request : RestRequest) : Option Bool :=
  let token := config.authToken
  let baseUrl := config.webhookBaseUrl
  if isBlank token || isBlank (some baseUrl) then some false
  else
    let provided := request.provided
    if isBlank provided then some false
    else do
      let params ← parseForm S request.body
      let data := baseUrl ++ request.requestURI ++ signedText params
      return S.equalText (macText (token.getD []) data) (provided.getD [])

/-- `MessagingProvider.get().validateInbound`; the mock accepts none. -/
def validateInbound (config : WebhookConfig) (mocked : Bool) (request : RestRequest) :
    Option Bool :=
  if mocked then some false else isValidSignature S config request

def inboundFormOf (form : Dict Text Text) : InboundForm where
  messageSid := form.get? "MessageSid".toList
  fromNumber := form.get? "From".toList
  body := form.get? "Body".toList

/-- `handleInbound` on the raw request. -/
def receiveInbound (config : WebhookConfig) (mocked : Bool) (U : UnicodeData) (now : Time)
    (request : RestRequest) (fault : Bool) (queried db : Database) : Option (Database × Nat) :=
  match validateInbound S config mocked request with
  | none => none
  | some false => some (db, 403)
  | some true =>
      (parseForm S request.body).map fun form =>
        handleInbound U now (inboundFormOf form) fault queried db

/-! ## What is parsed is what was encoded -/

/-- The pairs in their order, encoded and joined. -/
def formBody (pairs : List (Text × Text)) : Text :=
  join '&' (pairs.map fun p => S.url.encode p.1 ++ '=' :: S.url.encode p.2)

theorem putPair_encode (values : Dict Text Text) (p : Text × Text) :
    putPair S values (S.url.encode p.1 ++ '=' :: S.url.encode p.2) =
      some (values.set p.1 p.2) := by
  rw [putPair, splitTwo_append (S.url.equals p.1)]
  simp only [S.url.decode_encode, Option.bind_eq_bind, Option.bind_some]
  rfl

theorem foldlM_putPair (pairs : List (Text × Text)) (values : Dict Text Text) :
    (pairs.map fun p => S.url.encode p.1 ++ '=' :: S.url.encode p.2).foldlM (putPair S) values =
      some (pairs.foldl (fun d e => d.set e.1 e.2) values) := by
  induction pairs generalizing values with
  | nil => rfl
  | cons p pairs ih =>
    rw [List.map_cons, List.foldlM_cons, putPair_encode]
    exact ih (values.set p.1 p.2)

theorem parseForm_formBody (pairs : List (Text × Text)) :
    parseForm S (formBody S pairs) = some (Dict.ofList pairs) := by
  rw [parseForm, formBody]
  cases hpairs : pairs with
  | nil => rfl
  | cons p rest =>
    rw [← hpairs, javaSplit_join, foldlM_putPair]
    · rfl
    · rw [hpairs]
      exact List.cons_ne_nil _ _
    · intro w hw
      obtain ⟨q, -, rfl⟩ := List.mem_map.mp hw
      rw [List.mem_append, List.mem_cons, not_or, not_or]
      exact ⟨S.url.ampersand q.1, by decide, S.url.ampersand q.2⟩
    · intro w hw
      obtain ⟨q, -, rfl⟩ := List.mem_map.mp hw
      exact List.append_ne_nil_of_right_ne_nil _ (List.cons_ne_nil _ _)

/-- Any order of the pairs of a form gives the form back. -/
theorem parseForm_of_perm {form : Dict Text Text} {pairs : List (Text × Text)}
    (h : pairs.Perm form.entries) :
    ∃ values, parseForm S (formBody S pairs) = some values ∧
      ∀ name, values.get? name = form.get? name := by
  have hn : (pairs.map Prod.fst).Nodup := (h.map Prod.fst).nodup_iff.mpr form.nodup
  refine ⟨_, parseForm_formBody S pairs, fun name => ?_⟩
  rw [Dict.get?_ofList hn, Dict.lookup_perm hn h]
  rfl

end Parse

/-! ## The signed text -/

/-- The sorted names, each with its value. -/
def sortedEntries (values : Dict Text Text) : List (Text × Text) :=
  (sortedNames values).map fun name => (name, (values.get? name).getD [])

theorem signedText_eq (values : Dict Text Text) :
    signedText values = (sortedEntries values).flatMap fun e => e.1 ++ e.2 := by
  rw [sortedEntries, List.flatMap_map]
  rfl

theorem mem_sortedNames {values : Dict Text Text} {name : Text} :
    name ∈ sortedNames values ↔ name ∈ values.keys := (sortOn_perm utf16s values.keys).mem_iff

theorem sortedNames_congr {v w : Dict Text Text} (h : ∀ name, name ∈ v.keys ↔ name ∈ w.keys) :
    sortedNames v = sortedNames w :=
  sortOn_eq_of_perm utf16s_injective ((List.perm_ext_iff_of_nodup v.nodup w.nodup).mpr h)

/-- The entries are the form, whatever order it was put together in. -/
theorem sortedEntries_eq_iff {v w : Dict Text Text} :
    sortedEntries v = sortedEntries w ↔ ∀ name, v.get? name = w.get? name := by
  constructor
  · intro h
    have hnames : sortedNames v = sortedNames w := by
      simpa [sortedEntries, Function.comp_def] using congrArg (List.map Prod.fst) h
    have hkeys : ∀ name, name ∈ v.keys ↔ name ∈ w.keys := fun name => by
      rw [← mem_sortedNames, hnames, mem_sortedNames]
    rw [sortedEntries, sortedEntries, hnames, List.map_inj_left] at h
    intro name
    by_cases hv : name ∈ v.keys
    · have hvalue := congrArg Prod.snd (h name (mem_sortedNames.mpr ((hkeys name).mp hv)))
      obtain ⟨x, hx⟩ := Dict.mem_keys_iff.mp hv
      obtain ⟨y, hy⟩ := Dict.mem_keys_iff.mp ((hkeys name).mp hv)
      rw [hx, hy] at hvalue ⊢
      exact congrArg some hvalue
    · rw [Dict.get?_eq_none.mpr hv, Dict.get?_eq_none.mpr (mt (hkeys name).mpr hv)]
  · intro h
    have hnames : sortedNames v = sortedNames w := sortedNames_congr fun name => by
      rw [Dict.mem_keys_iff, Dict.mem_keys_iff, h]
    rw [sortedEntries, sortedEntries, hnames]
    exact List.map_congr_left fun name _ => by rw [h]

theorem signedText_congr {v w : Dict Text Text} (h : ∀ name, v.get? name = w.get? name) :
    signedText v = signedText w := by
  rw [signedText_eq, signedText_eq, sortedEntries_eq_iff.mpr h]

/-- Where the names and the values begin and end. -/
def cuts (values : Dict Text Text) : List (Nat × Nat) :=
  (sortedEntries values).map fun e => (e.1.length, e.2.length)

theorem flatMap_append_inj {es fs : List (Text × Text)}
    (h : (es.flatMap fun e => e.1 ++ e.2) = fs.flatMap fun e => e.1 ++ e.2)
    (hcuts : es.map (fun e => (e.1.length, e.2.length)) =
      fs.map fun e => (e.1.length, e.2.length)) : es = fs := by
  induction es generalizing fs with
  | nil => exact (List.map_eq_nil_iff.mp hcuts.symm).symm
  | cons e es ih =>
    cases fs with
    | nil => exact absurd hcuts (List.cons_ne_nil _ _)
    | cons f fs =>
      obtain ⟨hlen, hrest⟩ := List.cons.inj hcuts
      obtain ⟨hname, hvalue⟩ := Prod.mk.inj hlen
      rw [List.flatMap_cons, List.flatMap_cons, List.append_assoc, List.append_assoc] at h
      obtain ⟨hfst, h⟩ := List.append_inj h hname
      obtain ⟨hsnd, h⟩ := List.append_inj h hvalue
      rw [ih h hrest, Prod.ext hfst hsnd]

/-- One signed text is one form just if it is cut at the same places. -/
theorem cuts_eq_iff {v w : Dict Text Text} (h : signedText v = signedText w) :
    cuts v = cuts w ↔ ∀ name, v.get? name = w.get? name := by
  rw [← sortedEntries_eq_iff]
  constructor
  · intro hcuts
    rw [signedText_eq, signedText_eq] at h
    exact flatMap_append_inj h hcuts
  · intro he
    rw [cuts, cuts, he]

/-! ## What is accepted -/

/-- The text under the signature. -/
def signingString (config : WebhookConfig) (uri : Text) (values : Dict Text Text) : Text :=
  config.webhookBaseUrl ++ uri ++ signedText values

/-- The signature that the provider computes. -/
def expectedSignature (config : WebhookConfig) (uri : Text) (values : Dict Text Text) : Text :=
  macText (config.authToken.getD []) (signingString config uri values)

theorem expectedSignature_congr {config : WebhookConfig} {uri : Text} {v w : Dict Text Text}
    (h : signingString config uri v = signingString config uri w) :
    expectedSignature config uri v = expectedSignature config uri w := by
  rw [expectedSignature, h, expectedSignature]

theorem isWhitespace_of_visible {c : Char} (h : Base64.visible c = true) :
    isWhitespace c = false := by
  have hrange : 33 ≤ c.toNat ∧ c.toNat ≤ 126 := of_decide_eq_true h
  have hspace : isSpace c = false := by
    simp only [isSpace, Bool.or_eq_false_iff, Bool.and_eq_false_iff, decide_eq_false_iff_not]
    omega
  rw [isWhitespace, hspace, Bool.false_and]

theorem isBlank_macText (token data : Text) : isBlank (some (macText token data)) = false := by
  have hlen := length_hmacSha1 (utf8 token) (utf8 data)
  have hbytes : hmacSha1 (utf8 token) (utf8 data) ≠ [] := fun h => by simp [h] at hlen
  obtain ⟨c, rest, hmac⟩ := List.exists_cons_of_ne_nil (Base64.encode_ne_nil hbytes)
  have hc := Base64.visible_encode _ c (hmac ▸ List.mem_cons_self)
  rw [isBlank, macText, hmac, List.all_cons, isWhitespace_of_visible hc, Bool.false_and]

theorem isValidSignature_iff {S : TextServices} {config : WebhookConfig} {request : RestRequest} :
    isValidSignature S config request = some true ↔
      config.configured = true ∧ ∃ provided values, request.provided = some provided ∧
        isBlank (some provided) = false ∧ parseForm S request.body = some values ∧
        S.equalText (expectedSignature config request.requestURI values) provided = true := by
  unfold isValidSignature WebhookConfig.configured
  by_cases hconf : (isBlank config.authToken || isBlank (some config.webhookBaseUrl)) = true
  · rw [if_pos hconf, ← Bool.not_or, hconf]
    simp
  rw [if_neg hconf, ← Bool.not_or, Bool.eq_false_iff.mpr hconf]
  cases hprovided : request.provided with
  | none => simp [isBlank]
  | some provided =>
    cases hblank : isBlank (some provided) with
    | true =>
      simp [hblank]
    | false =>
      cases hparse : parseForm S request.body with
      | none => simp [hblank]
      | some values =>
        simp [hblank, expectedSignature, signingString]

/-- A request with the form of `pairs` as its body. -/
def encodedRequest (S : TextServices) (headers : Dict Text Text) (uri : Text)
    (pairs : List (Text × Text)) : RestRequest :=
  ⟨headers, uri, some (formBody S pairs)⟩

/-- `TwilioWebhookTestUtil.sign` -/
def sign (S : TextServices) (config : WebhookConfig) (uri body : Text) : Option Text :=
  (parseForm S body).map (expectedSignature config uri)

/-- What carries the signature of its body is accepted. -/
theorem isValidSignature_sign {S : TextServices} {config : WebhookConfig} {request : RestRequest}
    {signature : Text} (hconf : config.configured = true)
    (hsign : sign S config request.requestURI request.body = some signature)
    (hprovided : request.provided = some signature) :
    isValidSignature S config request = some true := by
  obtain ⟨values, hparse, rfl⟩ := Option.map_eq_some_iff.mp hsign
  exact isValidSignature_iff.mpr ⟨hconf, _, values, hprovided, isBlank_macText _ _, hparse,
    S.equalText_self _⟩

theorem sign_formBody (S : TextServices) (config : WebhookConfig) (uri : Text)
    (pairs : List (Text × Text)) :
    sign S config uri (formBody S pairs) =
      some (expectedSignature config uri (.ofList pairs)) := by
  rw [sign, parseForm_formBody, Option.map_some]

theorem isValidSignature_expected {S : TextServices} {config : WebhookConfig}
    {headers : Dict Text Text} {uri : Text} {pairs : List (Text × Text)}
    (hconf : config.configured = true)
    (h : (encodedRequest S headers uri pairs).provided =
      some (expectedSignature config uri (.ofList pairs))) :
    isValidSignature S config (encodedRequest S headers uri pairs) = some true :=
  isValidSignature_sign hconf (sign_formBody S config uri pairs) h

/-- Any form, encoded in any order, is parsed as it was. Its expected signature is all that is
accepted, just if it is not sent with letters in the other case. -/
theorem encodedRequest_signature (S : TextServices) (config : WebhookConfig)
    (headers : Dict Text Text) (uri : Text) {form : Dict Text Text} {pairs : List (Text × Text)}
    (horder : pairs.Perm form.entries) (hconf : config.configured = true) :
    (∃ values, parseForm S (encodedRequest S headers uri pairs).body = some values ∧
      ∀ name, values.get? name = form.get? name) ∧
    ((isValidSignature S config (encodedRequest S headers uri pairs) = some true ↔
        (encodedRequest S headers uri pairs).provided =
          some (expectedSignature config uri form)) ↔
      ∀ provided, (encodedRequest S headers uri pairs).provided = some provided →
        isBlank (some provided) = false →
        ¬ S.OtherCase (expectedSignature config uri form) provided) := by
  obtain ⟨values, hparse, hvalues⟩ := parseForm_of_perm S horder
  have hexpected : expectedSignature config uri values = expectedSignature config uri form := by
    rw [expectedSignature, signingString, signedText_congr hvalues]
    rfl
  have hvalid : isValidSignature S config (encodedRequest S headers uri pairs) = some true ↔
      ∃ provided, (encodedRequest S headers uri pairs).provided = some provided ∧
        isBlank (some provided) = false ∧
        S.equalText (expectedSignature config uri form) provided = true := by
    rw [isValidSignature_iff, and_iff_right hconf, ← hexpected]
    refine exists_congr fun provided => ?_
    constructor
    · rintro ⟨values', hprovided, hblank, hparse', hequal⟩
      obtain rfl := Option.some.inj (hparse.symm.trans hparse')
      exact ⟨hprovided, hblank, hequal⟩
    · rintro ⟨hprovided, hblank, hequal⟩
      exact ⟨values, hprovided, hblank, hparse, hequal⟩
  refine ⟨⟨values, hparse, hvalues⟩, ?_⟩
  rw [hvalid]
  constructor
  · intro h provided hprovided hblank hother
    have hequal := TextServices.equalText_iff.mpr (Or.inr hother)
    have hfound := h.mp ⟨provided, hprovided, hblank, hequal⟩
    exact hother.1 (Option.some.inj (hprovided.symm.trans hfound))
  · intro h
    constructor
    · rintro ⟨provided, hprovided, hblank, hequal⟩
      rcases TextServices.equalText_iff.mp hequal with rfl | hother
      · exact hprovided
      · exact absurd hother (h provided hprovided hblank)
    · intro hfound
      exact ⟨_, hfound, isBlank_macText _ _, S.equalText_self _⟩

theorem lower_of_ascii : ∀ n < 128, isAscii (Char.ofNat n).toLower = true ∧
    (Char.ofNat n).toLower.toLower = (Char.ofNat n).toLower ∧
    Base64.visible (Char.ofNat n).toLower = Base64.visible (Char.ofNat n) := by decide

theorem lower_of_visible {c : Char} (h : Base64.visible c = true) :
    isAscii c = true ∧ isAscii c.toLower = true ∧ c.toLower.toLower = c.toLower ∧
      Base64.visible c.toLower = true := by
  have hrange : 33 ≤ c.toNat ∧ c.toNat ≤ 126 := of_decide_eq_true h
  have hc := lower_of_ascii c.toNat (by omega)
  rw [Char.ofNat_toNat] at hc
  exact ⟨decide_eq_true (by omega), hc.1, hc.2.1, hc.2.2.trans h⟩

/-- The signature in lower case is accepted as well. -/
theorem isValidSignature_lower {S : TextServices} {config : WebhookConfig}
    {request : RestRequest} {signature : Text} (hconf : config.configured = true)
    (hsign : sign S config request.requestURI request.body = some signature)
    (hprovided : request.provided = some (signature.map Char.toLower)) :
    isValidSignature S config request = some true := by
  obtain ⟨values, hparse, hsignature⟩ := Option.map_eq_some_iff.mp hsign
  have hvisible : ∀ c ∈ signature, Base64.visible c = true := hsignature ▸ Base64.visible_encode _
  have hblank : isBlank (some (signature.map Char.toLower)) = false := by
    have hmac : isBlank (some signature) = false := hsignature ▸ isBlank_macText _ _
    cases signature with
    | nil => exact absurd hmac Bool.noConfusion
    | cons c rest =>
      have hc := (lower_of_visible (hvisible c List.mem_cons_self)).2.2.2
      rw [isBlank, List.map_cons, List.all_cons, isWhitespace_of_visible hc, Bool.false_and]
  have hequal : S.equalText signature (signature.map Char.toLower) = true := by
    refine decide_eq_true ?_
    rw [List.map_map]
    refine List.map_congr_left fun c hc => ?_
    obtain ⟨hascii, hlower, htwice, -⟩ := lower_of_visible (hvisible c hc)
    rw [Function.comp_apply, S.foldCase_ascii c hascii, S.foldCase_ascii _ hlower, htwice]
  exact isValidSignature_iff.mpr ⟨hconf, _, values, hprovided, hblank, hparse,
    hsignature ▸ hequal⟩

/-- The two texts of the test utilities, configured as they do it. -/
def testConfig : WebhookConfig where
  authTokenOverride := some "test_auth_token_1234567890".toList
  secret := none
  setting := some (some
    "https://outreach.example.my.salesforce-sites.com/services/apexrest".toList)

def plainServices : TextServices := ⟨UrlForm.codec, Char.toLower, fun _ _ => rfl⟩

def signedWith (signature : Text) : Dict Text Text :=
  ⟨[("X-Twilio-Signature".toList, signature)], List.nodup_singleton _⟩

theorem provided_signedWith (S : TextServices) (signature uri : Text)
    (pairs : List (Text × Text)) :
    (encodedRequest S (signedWith signature) uri pairs).provided = some signature := rfl

def inboundUri : Text := "/twilio/inbound".toList

def signedForm : Dict Text Text :=
  .ofList [("MessageSid".toList, "SM1".toList), ("Body".toList, "STOP".toList)]

theorem expectedSignature_signedForm : expectedSignature testConfig inboundUri signedForm =
    "ZrD+1G+O4UyTDC0T713kUg7BL2Q=".toList := by decide +kernel

/-- The pairs in the other order, under the signature of the form. -/
theorem encodedRequest_signature_reversed :
    isValidSignature plainServices testConfig
      (encodedRequest plainServices (signedWith "ZrD+1G+O4UyTDC0T713kUg7BL2Q=".toList) inboundUri
        signedForm.entries.reverse) = some true := by
  have hresult := encodedRequest_signature plainServices testConfig
    (signedWith "ZrD+1G+O4UyTDC0T713kUg7BL2Q=".toList) inboundUri
    (List.reverse_perm signedForm.entries) (by decide +kernel)
  rw [provided_signedWith, expectedSignature_signedForm] at hresult
  exact (hresult.2.mpr fun provided h _ hother => hother.1 (Option.some.inj h).symm).mpr rfl

/-- The signature with its case swapped is accepted too. -/
theorem isValidSignature_swapped_case :
    ¬ ∀ (S : TextServices) (config : WebhookConfig) (headers : Dict Text Text) (uri : Text)
      (form : Dict Text Text) (pairs : List (Text × Text)), pairs.Perm form.entries →
      config.configured = true →
      (isValidSignature S config (encodedRequest S headers uri pairs) = some true ↔
        (encodedRequest S headers uri pairs).provided =
          some (expectedSignature config uri form)) := by
  intro h
  have hiff := h plainServices testConfig (signedWith "zRd+1g+o4uYtdc0t713KuG7bl2q=".toList)
    inboundUri signedForm signedForm.entries (List.Perm.refl _) (by decide +kernel)
  rw [provided_signedWith, expectedSignature_signedForm] at hiff
  have hparse : parseForm plainServices (formBody plainServices signedForm.entries) =
      some signedForm := parseForm_formBody plainServices signedForm.entries
  have hequal : plainServices.equalText (expectedSignature testConfig inboundUri signedForm)
      "zRd+1g+o4uYtdc0t713KuG7bl2q=".toList = true := by
    rw [expectedSignature_signedForm]
    decide +kernel
  have haccepted : isValidSignature plainServices testConfig (encodedRequest plainServices
      (signedWith "zRd+1g+o4uYtdc0t713KuG7bl2q=".toList) inboundUri signedForm.entries) =
      some true :=
    isValidSignature_iff.mpr ⟨by decide +kernel, _, signedForm, provided_signedWith _ _ _ _,
      by decide +kernel, hparse, hequal⟩
  exact absurd (hiff.mp haccepted) (by decide +kernel)

/-! ## What a signature binds -/

/-- Two texts that the comparison of their signatures does not tell apart. -/
def Collides (S : TextServices) (config : WebhookConfig) (d₁ d₂ : Text) : Prop :=
  d₁ ≠ d₂ ∧ S.equalText (macText (config.authToken.getD []) d₁)
    (macText (config.authToken.getD []) d₂) = true

theorem TextServices.equalText_join {S : TextServices} {a b c : Text}
    (hac : S.equalText a c = true) (hbc : S.equalText b c = true) : S.equalText a b = true :=
  decide_eq_true ((of_decide_eq_true hac).trans (of_decide_eq_true hbc).symm)

/-- Two bodies accepted with one signature have the names and the values end to end in common,
and are the same form just if these are cut at the same places. -/
theorem same_signature_same_text {S : TextServices} {config : WebhookConfig}
    {r₁ r₂ : RestRequest} (huri : r₁.requestURI = r₂.requestURI)
    (hprovided : r₁.provided = r₂.provided)
    (h₁ : isValidSignature S config r₁ = some true)
    (h₂ : isValidSignature S config r₂ = some true) :
    ∃ v₁ v₂, parseForm S r₁.body = some v₁ ∧ parseForm S r₂.body = some v₂ ∧
      (¬ Collides S config (signingString config r₁.requestURI v₁)
          (signingString config r₂.requestURI v₂) →
        signedText v₁ = signedText v₂ ∧
        ((∀ name, v₁.get? name = v₂.get? name) ↔ cuts v₁ = cuts v₂)) := by
  obtain ⟨-, p₁, v₁, hp₁, -, hv₁, he₁⟩ := isValidSignature_iff.mp h₁
  obtain ⟨-, p₂, v₂, hp₂, -, hv₂, he₂⟩ := isValidSignature_iff.mp h₂
  obtain rfl : p₁ = p₂ := Option.some.inj (hp₁.symm.trans (hprovided.trans hp₂))
  refine ⟨v₁, v₂, hv₁, hv₂, fun hcollides => ?_⟩
  have hstring : signingString config r₁.requestURI v₁ =
      signingString config r₂.requestURI v₂ :=
    not_ne_iff.mp fun hne => hcollides ⟨hne, TextServices.equalText_join he₁ he₂⟩
  have htext : signedText v₁ = signedText v₂ := by
    rw [signingString, signingString, huri] at hstring
    exact List.append_cancel_left hstring
  exact ⟨htext, (cuts_eq_iff htext).symm⟩

def orderedPairs : List (Text × Text) := [("a".toList, "1".toList), ("b".toList, "2".toList)]

def orderedRequest (pairs : List (Text × Text)) : RestRequest :=
  encodedRequest plainServices
    (signedWith (expectedSignature testConfig inboundUri (.ofList orderedPairs))) inboundUri pairs

/-- One message, its pairs in two orders. -/
theorem same_signature_same_text_reordered :
    ∃ v₁ v₂, parseForm plainServices (orderedRequest orderedPairs).body = some v₁ ∧
      parseForm plainServices (orderedRequest orderedPairs.reverse).body = some v₂ ∧
      signedText v₁ = signedText v₂ ∧
      ((∀ name, v₁.get? name = v₂.get? name) ↔ cuts v₁ = cuts v₂) := by
  have hstring : signingString testConfig inboundUri (.ofList orderedPairs) =
      signingString testConfig inboundUri (.ofList orderedPairs.reverse) := by decide +kernel
  have hsignature : expectedSignature testConfig inboundUri (.ofList orderedPairs) =
      expectedSignature testConfig inboundUri (.ofList orderedPairs.reverse) :=
    expectedSignature_congr hstring
  have huri : (orderedRequest orderedPairs).requestURI =
      (orderedRequest orderedPairs.reverse).requestURI := rfl
  have hprovided : (orderedRequest orderedPairs).provided =
      (orderedRequest orderedPairs.reverse).provided :=
    (provided_signedWith _ _ _ _).trans (provided_signedWith _ _ _ _).symm
  obtain ⟨v₁, v₂, hv₁, hv₂, h⟩ := same_signature_same_text huri hprovided
    (isValidSignature_expected (by decide +kernel) (provided_signedWith _ _ _ _))
    (isValidSignature_expected (by decide +kernel)
      ((provided_signedWith _ _ _ _).trans (congrArg some hsignature)))
  refine ⟨v₁, v₂, hv₁, hv₂, h fun hcollides => hcollides.1 ?_⟩
  obtain rfl := Option.some.inj (hv₁.symm.trans (parseForm_formBody plainServices _))
  obtain rfl := Option.some.inj (hv₂.symm.trans (parseForm_formBody plainServices _))
  exact hstring

def capturedPairs : List (Text × Text) :=
  [("MessageSid".toList, "SM1".toList), ("NumMedia".toList, "0".toList)]

def replayedPairs : List (Text × Text) := [("MessageSid".toList, "SM1NumMedia0".toList)]

/-- A captured request passes under another message id: the count of the media has moved into
it. -/
theorem same_signature_other_sid :
    ¬ ∀ (S : TextServices) (config : WebhookConfig) (r₁ r₂ : RestRequest)
      (v₁ v₂ : Dict Text Text), r₁.requestURI = r₂.requestURI → r₁.provided = r₂.provided →
      isValidSignature S config r₁ = some true → isValidSignature S config r₂ = some true →
      parseForm S r₁.body = some v₁ → parseForm S r₂.body = some v₂ →
      ¬ Collides S config (signingString config r₁.requestURI v₁)
        (signingString config r₂.requestURI v₂) →
      ∀ name, v₁.get? name = v₂.get? name := by
  intro h
  have hstring : signingString testConfig inboundUri (.ofList capturedPairs) =
      signingString testConfig inboundUri (.ofList replayedPairs) := by decide +kernel
  let signature := expectedSignature testConfig inboundUri (.ofList capturedPairs)
  have hreplayed : expectedSignature testConfig inboundUri (.ofList replayedPairs) = signature :=
    expectedSignature_congr hstring.symm
  have hsid := h plainServices testConfig
    (encodedRequest plainServices (signedWith signature) inboundUri capturedPairs)
    (encodedRequest plainServices (signedWith signature) inboundUri replayedPairs)
    (.ofList capturedPairs) (.ofList replayedPairs) rfl
    ((provided_signedWith _ _ _ _).trans (provided_signedWith _ _ _ _).symm)
    (isValidSignature_expected (by decide +kernel) (provided_signedWith _ _ _ _))
    (isValidSignature_expected (by decide +kernel)
      ((provided_signedWith _ _ _ _).trans (congrArg some hreplayed.symm)))
    (parseForm_formBody _ _) (parseForm_formBody _ _) (fun hcollides => hcollides.1 hstring)
    "MessageSid".toList
  exact absurd hsid (by decide +kernel)

/-! ## The handler -/

/-- What is not accepted changes nothing. -/
theorem receiveInbound_rejected {S : TextServices} {config : WebhookConfig} {mocked : Bool}
    {request : RestRequest} (h : validateInbound S config mocked request = some false)
    (U : UnicodeData) (now : Time) (fault : Bool) (queried db : Database) :
    receiveInbound S config mocked U now request fault queried db = some (db, 403) := by
  rw [receiveInbound, h]

/-- An accepted form is handled as it was before it was encoded. -/
theorem receiveInbound_encoded {S : TextServices} {config : WebhookConfig}
    {headers : Dict Text Text} {uri : Text} {form : Dict Text Text} {pairs : List (Text × Text)}
    (horder : pairs.Perm form.entries)
    (hvalid : isValidSignature S config (encodedRequest S headers uri pairs) = some true)
    (U : UnicodeData) (now : Time) (fault : Bool) (queried db : Database) :
    receiveInbound S config false U now (encodedRequest S headers uri pairs) fault queried db =
      some (handleInbound U now (inboundFormOf form) fault queried db) := by
  obtain ⟨values, hparse, hvalues⟩ := parseForm_of_perm S horder
  have hbody : parseForm S (encodedRequest S headers uri pairs).body = some values := hparse
  have haccepted : validateInbound S config false (encodedRequest S headers uri pairs) =
      some true := hvalid
  have hform : inboundFormOf values = inboundFormOf form := by
    simp only [inboundFormOf, hvalues]
  rw [receiveInbound, haccepted, hbody, Option.map_some, hform]

end Outreach.Salesforce
