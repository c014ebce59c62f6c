import Outreach.Classifier.LambdaApi
import Outreach.Library.Base64
import Outreach.Library.JsonPlain
import Outreach.Library.Machine

/-!
# The life of a Lambda environment

An environment starts cold, and serves one request after the other; what Secrets
Manager holds may change between two of them. The tokens are those of the first
request that could read all of them. What a client sends as JSON comes to
`classify` as it was, in either form of the body, and the answer comes back.
-/

namespace Outreach.Classifier

open Outreach.Library Outreach.Guardrails

set_option autoImplicit false

variable {φ : Type}

/-- A request, and what `get_secret_value` gives when it comes. -/
structure Request (φ : Type) where
  getSecretValue : Str → Except PyError Str
  event : UrlEvent
  latency : φ

def Lambda.during (L : Lambda φ) (r : Request φ) : Lambda φ :=
  { L with getSecretValue := r.getSecretValue }

/-- The answer to a request, and the cache after it. -/
def Lambda.serve (L : Lambda φ) (cache : Option Tokens) (r : Request φ) :
    Except PyError LambdaAnswer × Option Tokens :=
  (L.during r).handler cache r.event r.latency

/-- The global of the module, from request to request. -/
def environment (L : Lambda φ) : Machine (Option Tokens) (Request φ) :=
  ⟨fun cache r => some (L.serve cache r).2⟩

def Lambda.secretIds (L : Lambda φ) : List Str := commaList (L.tokenSecretIds.getD [])

/-- The tokens that a cold environment reads for the request. -/
def Lambda.fetched (L : Lambda φ) (r : Request φ) : Option Tokens :=
  if L.secretIds = [] then none else (fetchTokens r.getSecretValue [] L.secretIds).toOption

def Request.authorization (L : Lambda φ) (r : Request φ) : Option Str :=
  (lowerHeaders L.python.unicode r.event.headers).lookup (Str.ofString "authorization")

def bearer (token : Str) : Str := Str.ofString "Bearer " ++ token

/-- An answer of the authentication, not of the route. -/
def Refused (answer : Except PyError LambdaAnswer) : Prop :=
  ∃ a, answer = .ok a ∧ (a.statusCode = 401 ∨ a.statusCode = 503)

/-! ## The cache -/

section Cache

variable {L : Lambda φ} {cache : Option Tokens} {r : Request φ}

theorem expectedTokens_some {tokens : Tokens} (h : cache.or (L.fetched r) = some tokens) :
    (L.during r).expectedTokens cache = .ok (tokens, some tokens) := by
  cases cache with
  | some cached => exact Option.some.inj h ▸ rfl
  | none =>
    have hfetched : L.fetched r = some tokens := h
    rw [Lambda.fetched] at hfetched
    split at hfetched
    · cases hfetched
    · rename_i hids
      cases hfetch : fetchTokens r.getSecretValue [] L.secretIds with
      | error error => rw [hfetch] at hfetched; cases hfetched
      | ok read =>
        rw [hfetch] at hfetched
        cases hfetched
        obtain ⟨secretId, secretIds, hsplit⟩ := List.exists_cons_of_ne_nil hids
        have hcomma : commaList ((L.during r).tokenSecretIds.getD []) = secretId :: secretIds :=
          hsplit
        rw [hsplit] at hfetch
        have hread : fetchTokens (L.during r).getSecretValue [] (secretId :: secretIds) =
            .ok tokens := hfetch
        simp only [Lambda.expectedTokens, hcomma, hread]
        rfl

theorem expectedTokens_none (h : cache.or (L.fetched r) = none) :
    cache = none ∧ ((L.during r).expectedTokens cache = .ok ([], none) ∨
      ∃ error, (L.during r).expectedTokens cache = .error error) := by
  obtain ⟨rfl, hfetched⟩ := Option.or_eq_none_iff.mp h
  refine ⟨rfl, ?_⟩
  rw [Lambda.fetched] at hfetched
  cases hsplit : L.secretIds with
  | nil =>
    have hcomma : commaList ((L.during r).tokenSecretIds.getD []) = [] := hsplit
    left
    simp only [Lambda.expectedTokens, hcomma]
  | cons secretId secretIds =>
    have hcomma : commaList ((L.during r).tokenSecretIds.getD []) = secretId :: secretIds := hsplit
    rw [if_neg (hsplit ▸ List.cons_ne_nil _ _), hsplit] at hfetched
    cases hfetch : fetchTokens r.getSecretValue [] (secretId :: secretIds) with
    | ok read => rw [hfetch] at hfetched; cases hfetched
    | error error =>
      have hread : fetchTokens (L.during r).getSecretValue [] (secretId :: secretIds) =
          .error error := hfetch
      right
      refine ⟨error, ?_⟩
      simp only [Lambda.expectedTokens, hcomma, hread]
      rfl

theorem serve_cache : (L.serve cache r).2 = cache.or (L.fetched r) := by
  cases h : cache.or (L.fetched r) with
  | some tokens =>
    rw [Lambda.serve, Lambda.handler, expectedTokens_some h]
    cases tokens with
    | nil => rfl
    | cons token tokens =>
      simp only
      split <;> rfl
  | none =>
    obtain ⟨rfl, hexpected | ⟨error, hexpected⟩⟩ := expectedTokens_none h
    · rw [Lambda.serve, Lambda.handler, hexpected]
    · rw [Lambda.serve, Lambda.handler, hexpected]

/-- The cache holds what the first request got that could read all tokens. -/
theorem run_cache {rs : List (Request φ)} (hr : (environment L).run none rs = some cache) :
    cache = rs.findSome? L.fetched := by
  have hstep : ∀ (seen : List (Request φ)) (cache : Option Tokens) r cache',
      cache = seen.findSome? L.fetched → True → (environment L).step cache r = some cache' →
      cache' = (seen ++ [r]).findSome? L.fetched := by
    intro seen cache r cache' hcache _ hserved
    obtain rfl := Option.some.inj hserved
    rw [serve_cache, List.findSome?_append, hcache, List.findSome?_cons]
    cases L.fetched r with
    | none => rfl
    | some tokens => rfl
  exact (environment L).run_history hstep (List.findSome?_nil).symm
    ((environment L).along_of_forall fun _ _ _ => trivial) hr

end Cache

/-! ## Who is let in -/

section Reaches

variable {α : Type} {P Q : α → Prop} {a : α} {l l' : List α}

/-- From the left, over elements with `P`, to one with `Q`, which has `P` itself. -/
def Reaches (P Q : α → Prop) : List α → Prop
  | [] => False
  | a :: l => P a ∧ (Q a ∨ Reaches P Q l)

theorem reaches_iff :
    Reaches P Q l ↔
      ∃ before a after, l = before ++ a :: after ∧ (∀ b ∈ before, P b) ∧ P a ∧ Q a := by
  induction l with
  | nil =>
    refine iff_of_false id ?_
    rintro ⟨before, a, after, h, -⟩
    exact List.append_ne_nil_of_right_ne_nil before (List.cons_ne_nil a after) h.symm
  | cons a l ih =>
    rw [Reaches, ih]
    constructor
    · rintro ⟨ha, hQ | ⟨before, b, after, rfl, hbefore, hb⟩⟩
      · exact ⟨[], a, l, rfl, List.forall_mem_nil _, ha, hQ⟩
      · exact ⟨a :: before, b, after, rfl, List.forall_mem_cons.mpr ⟨ha, hbefore⟩, hb⟩
    · rintro ⟨before, b, after, h, hbefore, hb, hQ⟩
      cases before with
      | nil =>
        obtain ⟨rfl, rfl⟩ := List.cons.inj h
        exact ⟨hb, Or.inl hQ⟩
      | cons c before =>
        obtain ⟨rfl, rfl⟩ := List.cons.inj h
        obtain ⟨ha, hbefore⟩ := List.forall_mem_cons.mp hbefore
        exact ⟨ha, Or.inr ⟨before, b, after, rfl, hbefore, hb, hQ⟩⟩

theorem reaches_append :
    Reaches P Q (l ++ l') ↔ Reaches P Q l ∨ ((∀ a ∈ l, P a) ∧ Reaches P Q l') := by
  induction l with
  | nil => simp [Reaches]
  | cons a l ih =>
    rw [List.cons_append, Reaches, Reaches, ih, List.forall_mem_cons]
    tauto

theorem reaches_of_mem (hP : ∀ b ∈ l, P b) (ha : a ∈ l) (hQ : Q a) : Reaches P Q l := by
  obtain ⟨before, after, rfl⟩ := List.append_of_mem ha
  exact reaches_iff.mpr ⟨before, a, after, rfl, fun b hb => hP b (List.mem_append_left _ hb),
    hP a ha, hQ⟩

end Reaches

/-- Text that `compare_digest` takes. -/
def Comparable (s : Str) : Prop := s.all (CodePoint.sat isAscii) = true

section Tokens

variable {fetch : Str → Except PyError Str} {tokens : Tokens} {supplied : Str}

/-- A member that is set to the value it has. -/
theorem setMember_same {key value : Str} {members : Tokens}
    (h : ∀ t ∈ members, t.1 = key → t.2 = value) (hkey : key ∈ members.map Prod.fst) :
    Json.setMember key value members = members ∧ (key, value) ∈ members := by
  induction members with
  | nil => exact absurd hkey List.not_mem_nil
  | cons m members ih =>
    obtain ⟨hm, hmembers⟩ := List.forall_mem_cons.mp h
    rw [Json.setMember]
    split
    · rename_i hfirst
      have hsame : m = (key, value) := Prod.ext hfirst (hm hfirst)
      exact ⟨hsame ▸ rfl, hsame ▸ List.mem_cons_self⟩
    · rename_i hfirst
      have hlater := (List.mem_cons.mp hkey).resolve_left (Ne.symm hfirst)
      obtain ⟨hset, hmem⟩ := ih hmembers hlater
      exact ⟨congrArg _ hset, List.mem_cons_of_mem _ hmem⟩

/-- The tokens are looked at in the order of the secrets; a secret that is configured twice
counts where it stands first. -/
theorem reaches_fetchTokens {secretIds : List Str} {before : Tokens}
    (hbefore : ∀ t ∈ before, fetch t.1 = .ok t.2)
    (h : fetchTokens fetch before secretIds = .ok tokens) :
    Reaches (fun t => Comparable t.2) (fun t => t.2 = supplied) tokens ↔
      Reaches (fun t => Comparable t.2) (fun t => t.2 = supplied) before ∨
        ((∀ t ∈ before, Comparable t.2) ∧
          Reaches (fun id => ∀ token, fetch id = .ok token → Comparable token)
            (fun id => fetch id = .ok supplied) secretIds) := by
  induction secretIds generalizing before with
  | nil =>
    cases h
    exact ⟨Or.inl, fun h => h.elim id fun h => h.2.elim⟩
  | cons secretId secretIds ih =>
    obtain ⟨token, htoken, h⟩ := bind_eq_ok.mp h
    have hP : (∀ other, fetch secretId = .ok other → Comparable other) ↔ Comparable token :=
      ⟨fun h => h token htoken, fun h other hother => Except.ok.inj (htoken.symm.trans hother) ▸ h⟩
    have hQ : fetch secretId = .ok supplied ↔ token = supplied := by
      rw [htoken, Except.ok.injEq]
    rw [ih (Json.forall_setMember htoken hbefore) h, Reaches, hP, hQ]
    by_cases hkey : secretId ∈ before.map Prod.fst
    · have hsame : ∀ t ∈ before, t.1 = secretId → t.2 = token := fun t ht hid =>
        Except.ok.inj ((hbefore t ht).symm.trans (hid ▸ htoken))
      obtain ⟨hset, hmem⟩ := setMember_same hsame hkey
      rw [hset]
      refine or_congr_right' fun hnot => and_congr_right fun hall => ?_
      have hne : token ≠ supplied := fun hQ => hnot (reaches_of_mem hall hmem hQ)
      rw [or_iff_right hne, and_iff_right (hall _ hmem)]
    · rw [Json.setMember_new hkey, reaches_append, List.forall_mem_append,
        List.forall_mem_singleton, Reaches, Reaches]
      tauto

/-- A token is found with the supplied text, if `compare_digest` takes it and those before it. -/
theorem findToken_iff :
    (∃ name, findToken supplied tokens = .ok (some name)) ↔
      Reaches (fun t => Comparable t.2) (fun t => t.2 = supplied) tokens := by
  induction tokens with
  | nil =>
    refine iff_of_false ?_ id
    rintro ⟨_, h⟩
    cases h
  | cons t tokens ih =>
    obtain ⟨secretId, token⟩ := t
    by_cases hboth : Comparable supplied ∧ Comparable token
    · have hdigest : compareDigest supplied token = .ok (supplied == token) := by
        rw [compareDigest, if_pos (by rw [hboth.1, hboth.2]; rfl)]
      by_cases hsame : token = supplied
      · refine iff_of_true ⟨secretId, ?_⟩ ⟨hboth.2, Or.inl hsame⟩
        rw [findToken, hdigest, beq_iff_eq.mpr hsame.symm]
        rfl
      · have hskip : findToken supplied ((secretId, token) :: tokens) =
            findToken supplied tokens := by
          rw [findToken, hdigest, beq_eq_false_iff_ne.mpr (Ne.symm hsame)]
          rfl
        rw [hskip, ih, Reaches, and_iff_right hboth.2, or_iff_right hsame]
    · have hraises : findToken supplied ((secretId, token) :: tokens) = .error typeError := by
        have hdigest : compareDigest supplied token = .error typeError :=
          if_neg fun h => hboth (Bool.and_eq_true_iff.mp h)
        rw [findToken, hdigest]
        rfl
      rw [hraises]
      refine iff_of_false ?_ fun hreaches => ?_
      · rintro ⟨_, h⟩
        cases h
      · -- The text of a token that is reached is one that `compare_digest` takes.
        obtain ⟨_, t, _, -, -, ht, hsupplied⟩ := reaches_iff.mp hreaches
        exact hboth ⟨hsupplied ▸ ht, hreaches.1⟩

theorem authenticatedSecret_iff (headers : List (Str × Str)) :
    (∃ name, authenticatedSecret tokens headers = .ok (some name)) ↔
      ∃ supplied, headers.lookup (Str.ofString "authorization") = some (bearer supplied) ∧
        Reaches (fun t => Comparable t.2) (fun t => t.2 = supplied) tokens := by
  have hseven : (Str.ofString "Bearer ").length = 7 := rfl
  rw [authenticatedSecret]
  cases headers.lookup (Str.ofString "authorization") with
  | none =>
    have hempty : (Str.ofString "Bearer ").isPrefixOf ([] : Str) = false := rfl
    simp only [Option.getD_none, hempty]
    refine iff_of_false ?_ ?_
    · rintro ⟨_, h⟩
      cases h
    · rintro ⟨_, h, -⟩
      exact Option.some_ne_none _ h.symm
  | some value =>
    simp only [Option.getD_some, Option.some.injEq]
    by_cases hprefix : (Str.ofString "Bearer ").isPrefixOf value = true
    · obtain ⟨supplied, rfl⟩ := List.isPrefixOf_iff_prefix.mp hprefix
      rw [if_pos hprefix, List.drop_left' hseven, findToken_iff]
      simp only [bearer, List.append_cancel_left_eq, exists_eq_left']
    · rw [if_neg hprefix]
      refine iff_of_false ?_ ?_
      · rintro ⟨_, h⟩
        cases h
      · rintro ⟨supplied, h, -⟩
        exact hprefix (List.isPrefixOf_iff_prefix.mpr ⟨supplied, h.symm⟩)

end Tokens

section Served

variable {L : Lambda φ} {cache : Option Tokens} {r : Request φ}

theorem reaches_fetched {tokens : Tokens} {supplied : Str} (h : L.fetched r = some tokens) :
    Reaches (fun t => Comparable t.2) (fun t => t.2 = supplied) tokens ↔
      Reaches (fun id => ∀ token, r.getSecretValue id = .ok token → Comparable token)
        (fun id => r.getSecretValue id = .ok supplied) L.secretIds := by
  rw [Lambda.fetched] at h
  split at h
  · cases h
  · cases hfetch : fetchTokens r.getSecretValue [] L.secretIds with
    | error error => rw [hfetch] at h; cases h
    | ok read =>
      rw [hfetch] at h
      cases h
      rw [reaches_fetchTokens (List.forall_mem_nil _) hfetch]
      exact (or_iff_right id).trans (and_iff_right (List.forall_mem_nil _))

/-- The route answers 200 or 404. -/
theorem route_not_refused (L : Lambda φ) (tokenName : Str) (event : UrlEvent) (latency : φ) :
    ¬ Refused (L.route tokenName event latency) := by
  rintro ⟨a, ha, hstatus⟩
  obtain ⟨⟨⟩, -, ha⟩ := bind_eq_ok.mp ha
  have hcode : a.statusCode = 200 ∨ a.statusCode = 404 := by
    split at ha
    · obtain ⟨hash, -, ha⟩ := bind_eq_ok.mp ha
      cases ha
      exact Or.inl rfl
    · split at ha
      · obtain ⟨_, _, -, -, -, -, -, rfl⟩ := postClassify_eq_ok.mp ha
        exact Or.inl rfl
      · cases ha
        exact Or.inr rfl
  omega

theorem refused_of_status {status : Nat} {text : String} (h : status = 401 ∨ status = 503) :
    Refused (.ok (jsonResponse L.python status (detail text))) := ⟨_, rfl, h⟩

/-- The request is refused, unless the tokens it is checked against let it in. -/
theorem refused_serve_iff :
    Refused (L.serve cache r).1 ↔ ¬ ∃ tokens name, cache.or (L.fetched r) = some tokens ∧
      authenticatedSecret tokens (lowerHeaders L.python.unicode r.event.headers) =
        .ok (some name) := by
  cases h : cache.or (L.fetched r) with
  | none =>
    have hnone : ¬ ∃ tokens name, none = some tokens ∧ authenticatedSecret tokens
        (lowerHeaders L.python.unicode r.event.headers) = .ok (some name) := by
      rintro ⟨_, _, h, -⟩
      exact Option.some_ne_none _ h.symm
    refine iff_of_true ?_ hnone
    obtain ⟨rfl, hexpected | ⟨error, hexpected⟩⟩ := expectedTokens_none h
    · rw [Lambda.serve, Lambda.handler, hexpected]
      exact refused_of_status (Or.inr rfl)
    · rw [Lambda.serve, Lambda.handler, hexpected]
      exact refused_of_status (Or.inr rfl)
  | some tokens =>
    rw [Lambda.serve, Lambda.handler, expectedTokens_some h]
    have hread : (∃ tokens' name, some tokens = some tokens' ∧ authenticatedSecret tokens'
        (lowerHeaders L.python.unicode r.event.headers) = .ok (some name)) ↔
        ∃ name, authenticatedSecret tokens (lowerHeaders L.python.unicode r.event.headers) =
          .ok (some name) := by
      simp only [Option.some.injEq, exists_eq_left', exists_and_left]
    rw [hread]
    cases tokens with
    | nil =>
      refine iff_of_true (refused_of_status (Or.inr rfl)) ?_
      rintro ⟨name, hname⟩
      obtain ⟨_, -, hreaches⟩ := (authenticatedSecret_iff _).mp ⟨name, hname⟩
      exact hreaches
    | cons token tokens =>
      simp only
      have hpython : (L.during r).python = L.python := rfl
      rw [hpython]
      cases authenticatedSecret (token :: tokens)
          (lowerHeaders L.python.unicode r.event.headers) with
      | error error =>
        refine iff_of_true (refused_of_status (Or.inr rfl)) ?_
        rintro ⟨_, hname⟩
        cases hname
      | ok name =>
        cases name with
        | none =>
          refine iff_of_true (refused_of_status (Or.inl rfl)) ?_
          rintro ⟨_, hname⟩
          cases hname
        | some name =>
          exact iff_of_false (route_not_refused (L.during r) name r.event r.latency)
            (not_not_intro ⟨name, rfl⟩)

/-- A request is let in exactly with a token that a configured secret had when all of them could
first be read, if `compare_digest` takes it and the tokens of the secrets before: the ones of
later rotations are refused, and the old ones are not. -/
theorem refused_iff_first_tokens {rs : List (Request φ)}
    (hr : (environment L).run none rs = some cache) :
    Refused (L.serve cache r).1 ↔
      ¬ ∃ before q after, rs ++ [r] = before ++ q :: after ∧
        (∀ earlier ∈ before, L.fetched earlier = none) ∧ (L.fetched q).isSome = true ∧
        ∃ ids secretId ids' token, L.secretIds = ids ++ secretId :: ids' ∧
          q.getSecretValue secretId = .ok token ∧ Comparable token ∧
          (∀ id ∈ ids, ∀ other, q.getSecretValue id = .ok other → Comparable other) ∧
          r.authorization L = some (bearer token) := by
  have hfirst : cache.or (L.fetched r) = (rs ++ [r]).findSome? L.fetched := by
    rw [List.findSome?_append, ← run_cache hr, List.findSome?_cons]
    cases L.fetched r <;> rfl
  rw [refused_serve_iff, not_iff_not, hfirst]
  constructor
  · rintro ⟨tokens, name, hfound, hname⟩
    obtain ⟨before, q, after, hsplit, hq, hbefore⟩ := List.findSome?_eq_some_iff.mp hfound
    obtain ⟨token, hbearer, hreaches⟩ := (authenticatedSecret_iff _).mp ⟨name, hname⟩
    obtain ⟨ids, secretId, ids', hids, hothers, htoken, hvalue⟩ :=
      reaches_iff.mp ((reaches_fetched hq).mp hreaches)
    exact ⟨before, q, after, hsplit, hbefore, hq ▸ rfl, ids, secretId, ids', token, hids, hvalue,
      htoken token hvalue, hothers, hbearer⟩
  · rintro ⟨before, q, after, hsplit, hbefore, hsome, ids, secretId, ids', token, hids, hvalue,
      htoken, hothers, hbearer⟩
    obtain ⟨tokens, hq⟩ := Option.isSome_iff_exists.mp hsome
    have hreaches := (reaches_fetched hq).mpr (reaches_iff.mpr ⟨ids, secretId, ids', hids, hothers,
      fun other hother => Except.ok.inj (hvalue.symm.trans hother) ▸ htoken, hvalue⟩)
    obtain ⟨name, hname⟩ := (authenticatedSecret_iff (lowerHeaders L.python.unicode
      r.event.headers)).mpr ⟨token, hbearer, hreaches⟩
    exact ⟨tokens, name, List.findSome?_eq_some_iff.mpr ⟨before, q, after, hsplit, hq, hbefore⟩,
      hname⟩

/-- A request of the owner, by the token that was there first. -/
def ownersRequest (secret : Except PyError Str) : Request Unit :=
  ⟨fun _ => secret, post "\x7b\"body\": \"STOP\"\x7d", ()⟩

/-- The secret cannot be read, then it can, and then it is rotated. -/
theorem refused_iff_first_tokens_rotated :
    ∃ cache, (environment sample).run none
        [ownersRequest (.error "ClientError".toList), ownersRequest (.ok (Str.ofString "t"))] =
          some cache ∧
      ¬ Refused (sample.serve cache (ownersRequest (.ok (Str.ofString "u")))).1 := by
  obtain ⟨cache, hr⟩ : ∃ cache, (environment sample).run none
      [ownersRequest (.error "ClientError".toList), ownersRequest (.ok (Str.ofString "t"))] =
        some cache := ⟨_, rfl⟩
  refine ⟨cache, hr, fun h => ?_⟩
  exact (refused_iff_first_tokens hr).mp h ⟨[ownersRequest (.error "ClientError".toList)],
    ownersRequest (.ok (Str.ofString "t")), [ownersRequest (.ok (Str.ofString "u"))], rfl,
    List.forall_mem_singleton.mpr rfl, rfl, [], Str.ofString "owner", [], Str.ofString "t", rfl,
    rfl, rfl, List.forall_mem_nil _, rfl⟩

end Served

/-! ## Over the wire -/

section Wire

variable {L : Lambda φ} {cache : Option Tokens} {event : UrlEvent} {latency : φ} {tokenName : Str}

/-- The body of the event is the text, as it is or in base64. -/
def UrlEvent.Carries (event : UrlEvent) (text : Text) : Prop :=
  (event.isBase64Encoded = false ∧ event.body = some (Str.ofText text)) ∨
    (event.isBase64Encoded = true ∧ event.body = some (Str.ofText (Base64.encode (utf8 text))))

theorem text_of_carries {text : Text} (h : event.Carries text) :
    event.text = .ok (Str.ofText text) := by
  rcases h with ⟨hplain, hbody⟩ | ⟨hbase64, hbody⟩
  · rw [UrlEvent.text, hplain, hbody]
    rfl
  · rw [UrlEvent.text, hbase64, hbody]
    simp only [Option.getD_some, if_true, Base64.b64decode_encode, Utf8.decodeReplace_utf8]

/-- The response as JSON gives it back: surrogates that were apart are joined. -/
def Response.received (r : Response φ) : Response φ :=
  { r with handoffReason := r.handoffReason.map Json.joined }

theorem nullable_leaf (F : Floats φ) (t : Option Text) :
    Json.reread F (nullable t) = nullable t ∧ Json.Short (nullable (φ := φ) t) ∧
      Json.depth (nullable (φ := φ) t) = 0 := by
  cases t with
  | none => exact ⟨rfl, trivial, rfl⟩
  | some t => exact ⟨congrArg JsonValue.string (Json.joined_ofText t), trivial, rfl⟩

theorem reason_leaf (F : Floats φ) (s : Option Str) :
    Json.reread F ((s.map JsonValue.string).getD .null) =
        ((s.map Json.joined).map JsonValue.string).getD .null ∧
      Json.Short (φ := φ) ((s.map JsonValue.string).getD .null) ∧
      Json.depth (φ := φ) ((s.map JsonValue.string).getD .null) = 0 := by
  cases s with
  | none => exact ⟨rfl, trivial, rfl⟩
  | some s => exact ⟨rfl, trivial, rfl⟩

theorem reread_response (F : Floats φ) (hfloat : ∀ x, F.ofLiteral (Json.floatText F x) = x)
    (r : Response φ) : Json.reread F r.toJson = r.received.toJson := by
  obtain ⟨members, hjson, -, hnodup⟩ := r.toJson_members
  have hmembers := (JsonValue.object.inj hjson).symm
  have hjoined : ∀ key ∈ members.map Prod.fst, Json.joined key = key := by
    rw [hmembers]
    simp only [List.map_cons, List.map_nil, List.forall_mem_cons, Json.joined_ofString, true_and]
    exact List.forall_mem_nil _
  have hread : Json.rereadMembers F [] members =
      [] ++ members.map fun m => (m.1, Json.reread F m.2) :=
    Json.rereadMembers_nodup hjoined hnodup
  rw [hjson, Json.reread, hread, List.nil_append, hmembers]
  simp only [List.map_cons, List.map_nil, nullable_leaf F, reason_leaf F, Json.reread, hfloat,
    Json.joined_ofText]
  rfl

/-- Every response can be written, and is flat. -/
theorem short_response (F : Floats φ) (r : Response φ) :
    Json.Short r.toJson ∧ Json.depth r.toJson = 1 := by
  rw [Response.toJson]
  simp only [Json.Short, Json.ShortMembers, Json.depth, Json.depthMembers, nullable_leaf F,
    reason_leaf F, and_self, Nat.max_self]

/-- What the client reads is the response of `classify` to the payload that it wrote, received as
JSON gives it back. The payload is one that JSON can write and give back as it is, its body can
be encoded, and the log takes the token's name and the `message_id`. -/
theorem classify_over_wire {payload : Members φ} {text : Text} {limit : Nat}
    (hrepr : Json.LawfulRepr L.python.floats)
    (hfloat : ∀ x, L.python.floats.ofLiteral (Json.floatText L.python.floats x) = x)
    (hauth : Authenticates L cache event tokenName)
    (hmethod : event.method = Str.ofString "POST")
    (hpath : event.rawPath = Str.ofString "/v1/classify")
    (hplain : Json.Plain (.object payload))
    (hwritten : Json.tryDumps L.python.floats L.loadsLimit (.object payload) = some text)
    (hbody : event.Carries text)
    (hencodes : ∀ body, payload.lookup (Str.ofString "body") = some (.string body) →
      body.encodable = true)
    (htoken : L.logger.rejects (.string tokenName) = none)
    (hmessage : L.logger.rejects (payload.get "message_id" .null) = none) (hlimit : 1 ≤ limit) :
    ∃ r answer, classify L.toHost latency payload = .ok r ∧
      (L.handler cache event latency).1 = .ok answer ∧ answer.statusCode = 200 ∧
      Json.loads L.python.floats limit (Str.ofText answer.body) = .ok r.received.toJson := by
  obtain ⟨r, hr⟩ : ∃ r, classify L.toHost latency payload = .ok r := by
    rcases classify_cases L.toHost latency payload with ⟨r, -, hr⟩ | ⟨_, -, hr⟩
    · exact ⟨r, hr⟩
    · exact ⟨_, hr⟩
  have hpayload : L.payload event = .ok payload :=
    payload_eq_ok.mpr ⟨_, text_of_carries hbody, Or.inl (hplain.loads_tryDumps _ hwritten)⟩
  have hinfo : L.logger.info [.string tokenName, .string (Str.ofString "POST"),
      .string (Str.ofString "/v1/classify")] = .ok () := by
    apply Logger.info_eq_ok.mpr
    simp only [List.forall_mem_cons, List.not_mem_nil, false_imp_iff, implies_true, and_true]
    refine ⟨htoken, L.logger.ascii _ ?_, L.logger.ascii _ ?_⟩
    · exact List.all_eq_true.mp (by decide +kernel)
    · exact List.all_eq_true.mp (by decide +kernel)
  have hanswer : (L.handler cache event latency).1 = .ok (jsonResponse L.python 200 r.toJson) := by
    rw [handler_of_authenticates hauth, route_of_post hmethod hpath]
    exact bind_eq_ok.mpr ⟨(), hinfo, postClassify_eq_ok.mpr
      ⟨payload, r, hpayload, hr, bodyHash_eq_ok.mpr hencodes, htoken, hmessage, rfl⟩⟩
  refine ⟨r, _, hr, hanswer, rfl, ?_⟩
  obtain ⟨hshort, hflat⟩ := short_response L.python.floats r
  rw [jsonResponse, Json.loads_dumps hrepr hshort, if_pos (hflat.trans_le hlimit),
    reread_response _ hfloat]

def stopPayload : Members Unit := [(Str.ofString "body", .string (Str.ofString "STOP"))]

/-- The payload in base64, as a gateway passes it on. -/
def encodedPost : UrlEvent :=
  { post "" with
    body := some (Str.ofText (Base64.encode (utf8 (Json.dumps sample.python.floats
      (.object stopPayload)))))
    isBase64Encoded := true }

theorem classify_over_wire_stop :
    ∃ r answer, classify sample.toHost () stopPayload = .ok r ∧
      (sample.handler none encodedPost ()).1 = .ok answer ∧ answer.statusCode = 200 ∧
      Json.loads sample.python.floats 1 (Str.ofText answer.body) = .ok r.received.toJson := by
  have hauth : Authenticates sample none encodedPost (Str.ofString "owner") :=
    sample_authenticates ""
  have hplain : Json.Plain (φ := Unit) (.object stopPayload) :=
    ⟨by decide, Json.joined_ofString _, Json.joined_ofString _, trivial⟩
  refine classify_over_wire (Json.lawfulRepr_const sample.python.floats) (fun _ => rfl) hauth rfl
    rfl hplain (if_pos (by decide)) (Or.inr ⟨rfl, rfl⟩) ?_ rfl rfl le_rfl
  intro body hbody
  cases hbody
  rfl

end Wire

end Outreach.Classifier
