import Outreach.Classifier.Handler

/-!
# The classify Lambda: `classifier/lambda_api.py`

The token cache is the state that outlives a request. An exception that leaves
the handler is answered by the service, with an error status. The lines of the
log are written by the runtime, one argument at a time.
-/

namespace Outreach.Classifier

open Outreach.Library Outreach.Guardrails

set_option autoImplicit false

/-- A Function URL event. -/
structure UrlEvent where
  method : Str
  rawPath : Str
  headers : List (Str × Str)
  body : Option Str
  isBase64Encoded : Bool

/-- Secret name to token. -/
abbrev Tokens := List (Str × Str)

structure LambdaAnswer where
  statusCode : Nat
  headers : List (Text × Text)
  body : Text

/-- The handler that the runtime has put on the root log, where `logger.info` ends up: what it
raises on an argument. Plain text it takes. -/
structure Logger (φ : Type) where
  rejects : JsonValue φ → Option PyError
  null : rejects .null = none
  float (x : φ) : rejects (.float x) = none
  ascii (t : Text) (h : ∀ c ∈ t, isAscii c = true) : rejects (.string (Str.ofText t)) = none

/-- The environment of the function. -/
structure Lambda (φ : Type) extends Host φ where
  /-- the value of `CLASSIFY_TOKEN_SECRET_IDS`, if it is set -/
  tokenSecretIds : Option Str
  getSecretValue : Str → Except PyError Str
  logger : Logger φ
  sha256 : Bytes → Bytes
  ruleSetHash : Except PyError Text

variable {φ : Type}

def Logger.info (logger : Logger φ) (args : List (JsonValue φ)) : Except PyError Unit :=
  match args.findSome? logger.rejects with
  | some error => .error error
  | none => .ok ()

/-! ## Authentication -/

/-- `{secret_id: … for secret_id in secret_ids}` -/
def fetchTokens (fetch : Str → Except PyError Str) : Tokens → List Str → Except PyError Tokens
  | tokens, [] => .ok tokens
  | tokens, secretId :: secretIds => do
      let token ← fetch secretId
      fetchTokens fetch (Json.setMember secretId token tokens) secretIds

/-- The tokens, and the cache afterwards. -/
def Lambda.expectedTokens (L : Lambda φ) : Option Tokens → Except PyError (Tokens × Option Tokens)
  | some tokens => .ok (tokens, some tokens)
  | none =>
      match commaList (L.tokenSecretIds.getD []) with
      | [] => .ok ([], none)
      | secretIds => do
          let tokens ← fetchTokens L.getSecretValue [] secretIds
          return (tokens, some tokens)

/-- `secrets.compare_digest`, which takes ASCII text only. -/
def compareDigest (a b : Str) : Except PyError Bool :=
  if a.all (CodePoint.sat isAscii) && b.all (CodePoint.sat isAscii) then .ok (a == b)
  else .error typeError

def findToken (supplied : Str) : Tokens → Except PyError (Option Str)
  | [] => .ok none
  | (secretId, token) :: tokens => do
      if ← compareDigest supplied token then return some secretId
      else findToken supplied tokens

/-- `{str(k).lower(): str(v) for k, v in headers}` -/
def lowerHeaders (U : UnicodeData) (headers : List (Str × Str)) : List (Str × Str) :=
  headers.foldl (fun d h => Json.setMember (Str.mapText U.lower [] h.1) h.2 d) []

def authenticatedSecret (tokens : Tokens) (headers : List (Str × Str)) :
    Except PyError (Option Str) :=
  let supplied := (headers.lookup (Str.ofString "authorization")).getD []
  if (Str.ofString "Bearer ").isPrefixOf supplied then findToken (supplied.drop 7) tokens
  else .ok none

/-! ## The body -/

/-- The text that is parsed. -/
def UrlEvent.text (event : UrlEvent) : Except PyError Str :=
  let raw := event.body.getD []
  if event.isBase64Encoded then
    match Base64.b64decode raw with
    | some bytes => .ok (Utf8.decodeReplace bytes)
    | none => .error valueError
  else .ok raw

/-- `_payload` -/
def Lambda.payload (L : Lambda φ) (event : UrlEvent) : Except PyError (Members φ) := do
  let text ← event.text
  match Json.loads L.python.floats L.loadsLimit text with
  | .ok (.object members) => return members
  | .ok _ => return []
  | .error .recursion => .error recursionError
  | .error _ => return []

def hexdigest (bytes : Bytes) : Text :=
  bytes.flatMap fun b => [Json.hexDigit (b.toNat / 16), Json.hexDigit b.toNat]

/-- The hash of the body for the log; `encode` does not take a lone surrogate. -/
def Lambda.bodyHash (L : Lambda φ) (payload : Members φ) : Except PyError (JsonValue φ) :=
  match payload.get "body" .null with
  | .string body =>
      if body.encodable then .ok (nullable (some (hexdigest (L.sha256 (utf8 body.shown)))))
      else .error "UnicodeEncodeError".toList
  | _ => .ok .null

/-! ## `handler` -/

/-- Every payload is flat, so `json.dumps` writes it. -/
def jsonResponse (py : Python φ) (status : Nat) (payload : JsonValue φ) : LambdaAnswer :=
  ⟨status, [("Content-Type".toList, "application/json".toList)], Json.dumps py.floats payload⟩

def detail (text : String) : JsonValue φ := .object [(Str.ofString "detail", .string (Str.ofString text))]

/-- `POST /v1/classify` -/
def Lambda.postClassify (L : Lambda φ) (tokenName : Str) (event : UrlEvent) (latency : φ) :
    Except PyError LambdaAnswer := do
  let payload ← L.payload event
  let result := match classify L.toHost latency payload with
    | .ok result => result
    | .error _ => failClosed (Str.ofString "internal_error:wrapper") latency
  let bodyHash ← L.bodyHash payload
  L.logger.info
    [.string tokenName, payload.get "message_id" .null, bodyHash, nullable (some result.action.name),
      nullable (result.intent.map Intent.name), nullable (result.rule.map ruleName),
      .float result.latencyMs]
  return jsonResponse L.python 200 result.toJson

/-- `GET /health` -/
def Lambda.getHealth (L : Lambda φ) : Except PyError LambdaAnswer := do
  let hash ← L.ruleSetHash
  return jsonResponse L.python 200
    (.object [(Str.ofString "version", .string (Str.ofText modelVersion)),
      (Str.ofString "rule_set_hash", .string (Str.ofText hash))])

def Lambda.route (L : Lambda φ) (tokenName : Str) (event : UrlEvent) (latency : φ) :
    Except PyError LambdaAnswer := do
  L.logger.info [.string tokenName, .string event.method, .string event.rawPath]
  if event.method = Str.ofString "GET" ∧ event.rawPath = Str.ofString "/health" then L.getHealth
  else if event.method = Str.ofString "POST" ∧ event.rawPath = Str.ofString "/v1/classify" then
    L.postClassify tokenName event latency
  else return jsonResponse L.python 404 (detail "not found")

/-- `handler`: the answer or what it raises, and the token cache afterwards. -/
def Lambda.handler (L : Lambda φ) (cache : Option Tokens) (event : UrlEvent) (latency : φ) :
    Except PyError LambdaAnswer × Option Tokens :=
  match L.expectedTokens cache with
  | .error _ => (.ok (jsonResponse L.python 503 (detail "auth tokens unavailable")), cache)
  | .ok ([], cache) =>
      (.ok (jsonResponse L.python 503 (detail "CLASSIFY_TOKEN_SECRET_IDS is not configured")), cache)
  | .ok (tokens, cache) =>
      match authenticatedSecret tokens (lowerHeaders L.python.unicode event.headers) with
      | .error _ => (.ok (jsonResponse L.python 503 (detail "auth tokens unavailable")), cache)
      | .ok none =>
          (.ok (jsonResponse L.python 401 (detail "missing or invalid bearer token")), cache)
      | .ok (some tokenName) => (L.route tokenName event latency, cache)

/-! ## What surfaces -/

section Surfaces

variable (L : Lambda φ) (cache : Option Tokens) (event : UrlEvent) (latency : φ)

/-- A configured token authenticates the event. -/
def Authenticates (tokenName : Str) : Prop :=
  ∃ tokens cache', L.expectedTokens cache = .ok (tokens, cache') ∧
    authenticatedSecret tokens (lowerHeaders L.python.unicode event.headers) = .ok (some tokenName)

/-- The body is an object, and its `body` a string that `classify` handled. -/
def Handled : Prop :=
  ∃ text members body r, event.text = .ok text ∧
    Json.loads L.python.floats L.loadsLimit text = .ok (.object members) ∧
    members.lookup (Str.ofString "body") = some (.string body) ∧
    attempt L.toHost latency members = .ok r

/-- The answer is a classification of eight members, by a human if nothing was handled. -/
def AnsweredFailClosed : Prop :=
  ∃ (r : Response φ) (members : Members φ),
    (L.handler cache event latency).1 = .ok (jsonResponse L.python 200 r.toJson) ∧
    r.toJson = .object members ∧ members.length = 8 ∧ (members.map Prod.fst).Nodup ∧
    (¬ Handled L event latency → r.action = .humanReview)

/-- What the code around `classify` can take. -/
structure Takes (tokenName : Str) : Prop where
  /-- the log takes the name of the token -/
  token : L.logger.rejects (.string tokenName) = none
  /-- a body that is marked as base64 is base64 -/
  base64 : event.isBase64Encoded = true → (Base64.b64decode (event.body.getD [])).isSome = true
  /-- it nests no deeper than the parser can -/
  nests (text : Str) : event.text = .ok text →
    Json.loads L.python.floats L.loadsLimit text ≠ .error .recursion
  /-- the text to classify can be encoded -/
  encodes (text : Str) (members : Members φ) (body : Str) : event.text = .ok text →
    Json.loads L.python.floats L.loadsLimit text = .ok (.object members) →
    members.lookup (Str.ofString "body") = some (.string body) → body.encodable = true
  /-- the log takes the message id -/
  messageId (text : Str) (members : Members φ) : event.text = .ok text →
    Json.loads L.python.floats L.loadsLimit text = .ok (.object members) →
    L.logger.rejects (members.get "message_id" .null) = none

end Surfaces

section Lemmas

variable {L : Lambda φ} {cache : Option Tokens} {event : UrlEvent} {latency : φ} {tokenName : Str}

theorem Logger.info_eq_ok {logger : Logger φ} {args : List (JsonValue φ)} :
    logger.info args = .ok () ↔ ∀ arg ∈ args, logger.rejects arg = none := by
  rw [← List.findSome?_eq_none_iff, Logger.info]
  cases args.findSome? logger.rejects with
  | none => exact iff_of_true rfl rfl
  | some error => exact iff_of_false (fun h => nomatch h) (fun h => nomatch h)

theorem handler_of_authenticates (hauth : Authenticates L cache event tokenName) :
    (L.handler cache event latency).1 = L.route tokenName event latency := by
  obtain ⟨tokens, cache', htokens, hfound⟩ := hauth
  rw [Lambda.handler, htokens]
  cases tokens with
  | nil =>
    rw [authenticatedSecret] at hfound
    split at hfound
    · exact nomatch hfound
    · exact nomatch hfound
  | cons token tokens =>
    simp only
    rw [hfound]

theorem isAscii_hexDigit (n : Nat) : isAscii (Json.hexDigit n) = true := by
  have hall : ∀ k < 16, isAscii (Nat.digitChar k) = true := by decide
  exact hall _ (Nat.mod_lt _ (by omega))

theorem isAscii_hexdigest {bytes : Bytes} {c : Char} (h : c ∈ hexdigest bytes) :
    isAscii c = true := by
  obtain ⟨b, -, h⟩ := List.mem_flatMap.mp h
  rcases List.mem_pair.mp h with rfl | rfl
  · exact isAscii_hexDigit _
  · exact isAscii_hexDigit _

theorem rejects_nullable {logger : Logger φ} {t : Option Text}
    (h : ∀ s, t = some s → ∀ c ∈ s, isAscii c = true) : logger.rejects (nullable t) = none := by
  cases t with
  | none => exact logger.null
  | some s => exact logger.ascii s (h s rfl)

theorem isAscii_actionName (action : ClassifyAction) : ∀ c ∈ action.name, isAscii c = true := by
  cases action <;> exact List.all_eq_true.mp (by decide +kernel)

theorem isAscii_intentName (intent : Intent) : ∀ c ∈ intent.name, isAscii c = true := by
  cases intent <;> exact List.all_eq_true.mp (by decide +kernel)

theorem isAscii_ruleName (rule : Rule) : ∀ c ∈ ruleName rule, isAscii c = true := by
  cases rule <;> exact List.all_eq_true.mp (by decide +kernel)

/-- What `_payload` makes of the body: an object, else the empty one. -/
theorem payload_eq_ok {payload : Members φ} :
    L.payload event = .ok payload ↔ ∃ text, event.text = .ok text ∧
      (Json.loads L.python.floats L.loadsLimit text = .ok (.object payload) ∨
        (payload = [] ∧ Json.loads L.python.floats L.loadsLimit text ≠ .error .recursion ∧
          ∀ members, Json.loads L.python.floats L.loadsLimit text ≠ .ok (.object members))) := by
  rw [Lambda.payload, bind_eq_ok]
  apply exists_congr
  intro text
  apply and_congr_right
  intro _
  split
  · rename_i members hloads
    rw [hloads]
    constructor
    · intro h
      cases h
      exact Or.inl rfl
    · intro h
      rcases h with h | ⟨-, -, h⟩
      · cases h
        rfl
      · exact absurd rfl (h members)
  · rename_i value hvalue hloads
    rw [hloads]
    constructor
    · intro h
      cases h
      refine Or.inr ⟨rfl, ?_, fun members h => hvalue members (Except.ok.inj h)⟩
      exact fun h => nomatch h
    · intro h
      rcases h with h | ⟨rfl, -⟩
      · exact absurd (Except.ok.inj h) (hvalue payload)
      · rfl
  · rename_i hloads
    rw [hloads]
    apply iff_of_false (fun h => nomatch h)
    intro h
    rcases h with h | ⟨-, h, -⟩
    · exact nomatch h
    · exact h rfl
  · rename_i error herror hloads
    rw [hloads]
    constructor
    · intro h
      cases h
      exact Or.inr ⟨rfl, fun h => herror (Except.error.inj h), fun _ h => nomatch h⟩
    · intro h
      rcases h with h | ⟨rfl, -⟩
      · exact nomatch h
      · rfl

/-- The hash is written exactly if the text can be encoded. -/
theorem bodyHash_eq_ok {payload : Members φ} :
    (∃ hash, L.bodyHash payload = .ok hash) ↔
      ∀ body, payload.lookup (Str.ofString "body") = some (.string body) →
        body.encodable = true := by
  rw [Lambda.bodyHash, Members.get]
  cases payload.lookup (Str.ofString "body") with
  | none => exact iff_of_true ⟨_, rfl⟩ fun _ h => nomatch h
  | some value =>
    cases value with
    | string body =>
      simp only [Option.getD_some]
      split
      · rename_i hencodable
        apply iff_of_true ⟨_, rfl⟩
        rintro _ ⟨⟩
        exact hencodable
      · rename_i hencodable
        apply iff_of_false
        · intro h
          obtain ⟨_, h⟩ := h
          exact nomatch h
        · exact fun h => hencodable (h body rfl)
    | _ => exact iff_of_true ⟨_, rfl⟩ fun _ h => nomatch h

theorem rejects_bodyHash {payload : Members φ} {hash : JsonValue φ}
    (h : L.bodyHash payload = .ok hash) : L.logger.rejects hash = none := by
  unfold Lambda.bodyHash at h
  split at h
  · split at h
    · cases h
      apply rejects_nullable
      rintro _ ⟨⟩ c hc
      exact isAscii_hexdigest hc
    · exact nomatch h
  · cases h
    exact L.logger.null

/-- The answer of the route, if nothing around `classify` raises. -/
theorem postClassify_eq_ok {answer : LambdaAnswer} :
    L.postClassify tokenName event latency = .ok answer ↔
      ∃ payload r, L.payload event = .ok payload ∧ classify L.toHost latency payload = .ok r ∧
        (∃ hash, L.bodyHash payload = .ok hash) ∧
        L.logger.rejects (.string tokenName) = none ∧
        L.logger.rejects (payload.get "message_id" .null) = none ∧
        answer = jsonResponse L.python 200 r.toJson := by
  rw [Lambda.postClassify, bind_eq_ok]
  apply exists_congr
  intro payload
  obtain ⟨r, hr⟩ : ∃ r, classify L.toHost latency payload = .ok r := by
    rcases classify_cases L.toHost latency payload with ⟨r, -, h⟩ | ⟨_, -, h⟩
    · exact ⟨r, h⟩
    · exact ⟨_, h⟩
  simp only [hr]
  constructor
  · intro h
    obtain ⟨hpayload, h⟩ := h
    obtain ⟨hash, hhash, h⟩ := bind_eq_ok.mp h
    obtain ⟨⟨⟩, hinfo, h⟩ := bind_eq_ok.mp h
    have hargs := Logger.info_eq_ok.mp hinfo
    cases h
    refine ⟨r, hpayload, rfl, ⟨hash, hhash⟩, hargs _ List.mem_cons_self, ?_, rfl⟩
    exact hargs _ (List.mem_cons_of_mem _ List.mem_cons_self)
  · intro h
    obtain ⟨_, hpayload, ⟨⟩, ⟨hash, hhash⟩, htoken, hmessage, rfl⟩ := h
    refine ⟨hpayload, bind_eq_ok.mpr ⟨hash, hhash, bind_eq_ok.mpr ⟨(), ?_, rfl⟩⟩⟩
    apply Logger.info_eq_ok.mpr
    simp only [List.forall_mem_cons, List.not_mem_nil, false_imp_iff, implies_true, and_true]
    refine ⟨htoken, hmessage, rejects_bodyHash hhash, ?_, ?_, ?_, L.logger.float _⟩
    · apply rejects_nullable
      rintro _ ⟨⟩
      exact isAscii_actionName _
    · apply rejects_nullable
      intro s hs
      obtain ⟨intent, -, rfl⟩ := Option.map_eq_some_iff.mp hs
      exact isAscii_intentName intent
    · apply rejects_nullable
      intro s hs
      obtain ⟨rule, -, rfl⟩ := Option.map_eq_some_iff.mp hs
      exact isAscii_ruleName rule

theorem route_of_post (hmethod : event.method = Str.ofString "POST")
    (hpath : event.rawPath = Str.ofString "/v1/classify") :
    L.route tokenName event latency = (L.logger.info
      [.string tokenName, .string (Str.ofString "POST"), .string (Str.ofString "/v1/classify")]
        >>= fun _ => L.postClassify tokenName event latency) := by
  have hget : ¬ (Str.ofString "POST" = Str.ofString "GET" ∧
      Str.ofString "/v1/classify" = Str.ofString "/health") := by
    decide
  rw [Lambda.route, hmethod, hpath, if_neg hget, if_pos ⟨rfl, rfl⟩]

theorem attempt_body {host : Host φ} {request : Members φ} {r : Response φ}
    (h : attempt host latency request = .ok r) :
    ∃ body, request.lookup (Str.ofString "body") = some (.string body) := by
  obtain ⟨⟨body, verdict⟩, hverdict, -⟩ := bind_eq_ok.mp h
  obtain ⟨_, _, hformed, -⟩ := verdictOf_eq_ok.mp hverdict
  exact ⟨body, hformed.body⟩

/-- A `body` that was handled is that of the object that was parsed. -/
theorem answered_of_takes (hauth : Authenticates L cache event tokenName)
    (hmethod : event.method = Str.ofString "POST")
    (hpath : event.rawPath = Str.ofString "/v1/classify") (h : Takes L event tokenName) :
    AnsweredFailClosed L cache event latency := by
  obtain ⟨text, htext⟩ : ∃ text, event.text = .ok text := by
    rw [UrlEvent.text]
    split
    · rename_i hbase64
      obtain ⟨bytes, hbytes⟩ := Option.isSome_iff_exists.mp (h.base64 hbase64)
      rw [hbytes]
      exact ⟨_, rfl⟩
    · exact ⟨_, rfl⟩
  have hnests := h.nests text htext
  obtain ⟨payload, hpayload, hencodes, hmessage⟩ : ∃ payload, L.payload event = .ok payload ∧
      (∀ body, payload.lookup (Str.ofString "body") = some (.string body) →
        body.encodable = true) ∧ L.logger.rejects (payload.get "message_id" .null) = none := by
    by_cases hobject : ∃ members, Json.loads L.python.floats L.loadsLimit text =
        .ok (.object members)
    · obtain ⟨members, hloads⟩ := hobject
      refine ⟨members, payload_eq_ok.mpr ⟨text, htext, Or.inl hloads⟩, ?_, ?_⟩
      · exact fun body => h.encodes text members body htext hloads
      · exact h.messageId text members htext hloads
    · have hnone := fun members hloads => hobject ⟨members, hloads⟩
      refine ⟨[], payload_eq_ok.mpr ⟨text, htext, Or.inr ⟨rfl, hnests, hnone⟩⟩, ?_, ?_⟩
      · exact fun _ h => nomatch h
      · exact L.logger.null
  have hinfo : L.logger.info [.string tokenName, .string (Str.ofString "POST"),
      .string (Str.ofString "/v1/classify")] = .ok () := by
    apply Logger.info_eq_ok.mpr
    simp only [List.forall_mem_cons, List.not_mem_nil, false_imp_iff, implies_true, and_true]
    refine ⟨h.token, L.logger.ascii _ ?_, L.logger.ascii _ ?_⟩
    · exact List.all_eq_true.mp (by decide +kernel)
    · exact List.all_eq_true.mp (by decide +kernel)
  have hanswer {r : Response φ} (hr : classify L.toHost latency payload = .ok r) :
      (L.handler cache event latency).1 = .ok (jsonResponse L.python 200 r.toJson) := by
    rw [handler_of_authenticates hauth, route_of_post hmethod hpath]
    exact bind_eq_ok.mpr ⟨(), hinfo, postClassify_eq_ok.mpr
      ⟨payload, r, hpayload, hr, bodyHash_eq_ok.mpr hencodes, h.token, hmessage, rfl⟩⟩
  rcases classify_cases L.toHost latency payload with ⟨r, hattempt, hr⟩ | ⟨error, -, hr⟩
  · obtain ⟨members, hjson, hlength, hnodup⟩ := r.toJson_members
    refine ⟨r, members, hanswer hr, hjson, hlength, hnodup, ?_⟩
    intro hnot
    obtain ⟨body, hbody⟩ := attempt_body hattempt
    obtain ⟨text', htext', hloads | ⟨rfl, -⟩⟩ := payload_eq_ok.mp hpayload
    · exact absurd ⟨text', payload, body, r, htext', hloads, hbody, hattempt⟩ hnot
    · exact nomatch hbody
  · obtain ⟨members, hjson, hlength, hnodup⟩ := (failClosed _ latency).toJson_members
    exact ⟨_, members, hanswer hr, hjson, hlength, hnodup, fun _ => rfl⟩

theorem takes_of_answered (hauth : Authenticates L cache event tokenName)
    (hmethod : event.method = Str.ofString "POST")
    (hpath : event.rawPath = Str.ofString "/v1/classify")
    (h : AnsweredFailClosed L cache event latency) : Takes L event tokenName := by
  obtain ⟨_, _, hanswer, -⟩ := h
  rw [handler_of_authenticates hauth, route_of_post hmethod hpath] at hanswer
  obtain ⟨⟨⟩, -, hpost⟩ := bind_eq_ok.mp hanswer
  obtain ⟨payload, r, hpayload, -, hhash, htoken, hmessage, -⟩ := postClassify_eq_ok.mp hpost
  obtain ⟨text, htext, hparsed⟩ := payload_eq_ok.mp hpayload
  have hsame {text' : Str} (h : event.text = .ok text') : text' = text :=
    Except.ok.inj (h.symm.trans htext)
  have hobject {members : Members φ}
      (h : Json.loads L.python.floats L.loadsLimit text = .ok (.object members)) :
      members = payload := by
    rcases hparsed with hloads | ⟨-, -, hnone⟩
    · exact JsonValue.object.inj (Except.ok.inj (h.symm.trans hloads))
    · exact absurd h (hnone members)
  refine ⟨htoken, ?_, ?_, ?_, ?_⟩
  · intro hbase64
    rw [UrlEvent.text, if_pos hbase64] at htext
    split at htext
    · rename_i hbytes
      rw [hbytes]
      rfl
    · exact nomatch htext
  · intro text' h
    obtain rfl := hsame h
    rcases hparsed with hloads | ⟨-, hnests, -⟩
    · rw [hloads]
      exact fun h => nomatch h
    · exact hnests
  · intro text' members body h hloads hbody
    obtain rfl := hsame h
    obtain rfl := hobject hloads
    exact bodyHash_eq_ok.mp hhash body hbody
  · intro text' members h hloads
    obtain rfl := hsame h
    obtain rfl := hobject hloads
    exact hmessage

/-- A request is answered as documented exactly if what stands around `classify` takes it. -/
theorem handler_answers_iff (hauth : Authenticates L cache event tokenName)
    (hmethod : event.method = Str.ofString "POST")
    (hpath : event.rawPath = Str.ofString "/v1/classify") :
    AnsweredFailClosed L cache event latency ↔ Takes L event tokenName :=
  ⟨takes_of_answered hauth hmethod hpath, answered_of_takes hauth hmethod hpath⟩

end Lemmas

/-! ## Two requests -/

/-- A runtime that logs everything, on the digest of "STOP". -/
def sample : Lambda Unit where
  python := Python.plain
  loadsLimit := 1000
  handoffEnv := none
  readText := fun _ => .error "FileNotFoundError".toList
  tokenSecretIds := some (Str.ofString "owner")
  getSecretValue := fun _ => .ok (Str.ofString "t")
  logger := ⟨fun _ => none, rfl, fun _ => rfl, fun _ _ => rfl⟩
  sha256 := fun _ =>
    [4, 222, 223, 138, 254, 184, 164, 23, 122, 0, 159, 65, 187, 120, 1, 138, 246, 1, 227, 65, 237,
      67, 34, 212, 7, 57, 17, 201, 172, 135, 151, 38]
  ruleSetHash := .ok []

/-- A request of the owner. -/
def post (body : String) : UrlEvent where
  method := Str.ofString "POST"
  rawPath := Str.ofString "/v1/classify"
  headers := [(Str.ofString "Authorization", Str.ofString "Bearer t")]
  body := some (Str.ofString body)
  isBase64Encoded := false

theorem sample_authenticates (body : String) :
    Authenticates sample none (post body) (Str.ofString "owner") := by
  refine ⟨[(Str.ofString "owner", Str.ofString "t")], _, rfl, ?_⟩
  rfl

theorem handler_answers_stop :
    AnsweredFailClosed sample none (post "\x7b\"body\": \"STOP\"\x7d") () := by
  apply (handler_answers_iff (sample_authenticates _) rfl rfl).mpr
  have hloads : Json.loads sample.python.floats sample.loadsLimit
      (Str.ofString "\x7b\"body\": \"STOP\"\x7d") =
        .ok (.object [(Str.ofString "body", .string (Str.ofString "STOP"))]) := rfl
  refine ⟨rfl, (fun h => nomatch h), ?_, ?_, fun _ _ _ _ => rfl⟩
  · rintro _ ⟨⟩ h
    exact nomatch hloads.symm.trans h
  · rintro _ members body ⟨⟩ h hbody
    obtain rfl := JsonValue.object.inj (Except.ok.inj (hloads.symm.trans h))
    cases hbody
    rfl

/-- A JSON body with the escape of a lone surrogate. -/
def surrogatePost : UrlEvent := post "\x7b\"body\": \"\\ud800\"\x7d"

/-- The surrogate is classified, and then it is not encoded for the log. -/
theorem surrogate_surfaces :
    Authenticates sample none surrogatePost (Str.ofString "owner") ∧
      surrogatePost.method = Str.ofString "POST" ∧
      surrogatePost.rawPath = Str.ofString "/v1/classify" ∧
      ¬ AnsweredFailClosed sample none surrogatePost () := by
  refine ⟨sample_authenticates _, rfl, rfl, ?_⟩
  intro h
  have htakes := takes_of_answered (sample_authenticates _) rfl rfl h
  have hloads : Json.loads sample.python.floats sample.loadsLimit
      (Str.ofString "\x7b\"body\": \"\\ud800\"\x7d") =
        .ok (.object [(Str.ofString "body", .string [.surrogate 0])]) := rfl
  exact nomatch htakes.encodes _ _ [.surrogate 0] rfl hloads rfl

end Outreach.Classifier
