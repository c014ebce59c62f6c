import Outreach.Classifier.Buckets
import Mathlib.Data.List.Forall2

/-!
# The classify handler: `classifier/handler.py`

The request is a JSON object. Reading it, judging it and reading the handoff
list can each raise; whatever they raise, a human looks at the reply. The
guardrails see a lone surrogate as the replacement character: no rule names
either, and neither is part of a word.
-/

namespace Outreach.Classifier

open Outreach.Library Outreach.Guardrails

set_option autoImplicit false

/-- `ACTIONS` -/
inductive ClassifyAction where
  | suppressAndStop
  | humanReview
  | autoReply
  | noAction
  deriving DecidableEq, Repr

def ClassifyAction.name : ClassifyAction → Text
  | suppressAndStop => "suppress_and_stop".toList
  | humanReview => "human_review".toList
  | autoReply => "auto_reply".toList
  | noAction => "no_action".toList

def modelVersion : Text := "rules-v1".toList

/-- The fields of a response that are not the same in all of them. -/
structure Response (φ : Type) where
  action : ClassifyAction
  intent : Option Intent
  rule : Option Rule
  trigger : Option Text
  handoffReason : Option Str
  latencyMs : φ

def nullable {φ : Type} : Option Text → JsonValue φ
  | none => .null
  | some t => .string (Str.ofText t)

/-- `_response` -/
def Response.toJson {φ : Type} (r : Response φ) : JsonValue φ :=
  .object
    [(Str.ofString "action", .string (Str.ofText r.action.name)),
      (Str.ofString "intent", nullable (r.intent.map Intent.name)),
      (Str.ofString "rule", nullable (r.rule.map ruleName)),
      (Str.ofString "trigger", nullable r.trigger),
      (Str.ofString "handoff_reason", (r.handoffReason.map JsonValue.string).getD .null),
      (Str.ofString "confidence", .null),
      (Str.ofString "model_version", .string (Str.ofText modelVersion)),
      (Str.ofString "latency_ms", .float r.latencyMs)]

theorem Response.toJson_members {φ : Type} (r : Response φ) :
    ∃ members, r.toJson = .object members ∧ members.length = 8 ∧
      (members.map Prod.fst).Nodup := by
  refine ⟨_, rfl, rfl, ?_⟩
  simp only [List.map_cons, List.map_nil]
  decide +kernel

/-- What the process has besides the request. -/
structure Host (φ : Type) where
  python : Python φ
  /-- how deep `json.loads` may nest -/
  loadsLimit : Nat
  /-- the value of `CLASSIFY_HANDOFF_INTENTS`, if it is set -/
  handoffEnv : Option Str
  /-- `Path(path).read_text(encoding="utf-8")` -/
  readText : Str → Except PyError Str

variable {φ : Type}

def strip (s : Str) : Str := stripBy (CodePoint.sat isSpace) s

/-- `[part.strip() for part in text.split(",") if part.strip()]` -/
def commaList (text : Str) : List Str :=
  ((splitAtFrom (.scalar ',') [] text).map strip).filter fun part => !part.isEmpty

/-! ## `handoff_intents` -/

def defaultHandoffIntents : List Str :=
  [Str.ofString "Interested", Str.ofString "Call_Request", Str.ofString "Amount_Given",
    Str.ofString "Question", Str.ofString "Process_Update", Str.ofString "Unclear"]

/-- `str(intent) for intent in loaded` -/
def strAll (py : Python φ) : List (JsonValue φ) → Except PyError (List Str)
  | [] => .ok []
  | v :: items => do
      let s ← py.str v
      let rest ← strAll py items
      return s :: rest

/-- `json.loads(text)` -/
def Host.loads (host : Host φ) (text : Str) : Except PyError (JsonValue φ) :=
  (Json.loads host.python.floats host.loadsLimit text).mapError Json.LoadsError.name

def Host.handoffIntents (host : Host φ) : Except PyError (List Str) :=
  let configured := strip (host.handoffEnv.getD [])
  if configured = [] then .ok defaultHandoffIntents
  else if (Str.ofString ".json").isSuffixOf
      (Str.mapText host.python.unicode.lower [] configured) then do
    let text ← host.readText configured
    let loaded ← host.loads text
    let intents ← loaded.iterate
    strAll host.python intents
  else .ok (commaList configured)

/-! ## `_thread` -/

/-- One `Message` of the lenient parse; only an object has `get`. -/
def messageOf (py : Python φ) : JsonValue φ → Except PyError Message
  | .object members => do
      let body ← py.str (Members.get members "body" (.string []))
      let direction ← py.str (Members.get members "direction" (.string []))
      return ⟨body.shown, direction.shown,
        py.truthy (Members.get members "is_auto_reply" (.bool false))⟩
  | _ => .error attributeError

def messagesOf (py : Python φ) : List (JsonValue φ) → Except PyError (List Message)
  | [] => .ok []
  | item :: items => do
      let m ← messageOf py item
      let rest ← messagesOf py items
      return m :: rest

def threadOf (py : Python φ) (raw : JsonValue φ) : Except PyError (List Message) :=
  if py.truthy raw then do
    let items ← raw.iterate
    messagesOf py items
  else .ok []

/-! ## `classify` -/

/-- `evaluate`; the text of the error names the channel. -/
def evaluateOn (py : Python φ) (body : Str) (thread : List Message) (channel : JsonValue φ) :
    Except PyError (GuardrailResult Text) :=
  match channel with
  | .string channel =>
      match Reference.evaluate py.unicode body.shown thread channel.shown with
      | some verdict => .ok verdict
      | none => .error valueError
  | channel => .error ((Python.reprRaises py.reprLimit channel).getD valueError)

/-- `request["body"]` -/
def bodyOf (request : Members φ) : Except PyError Str :=
  match request.lookup (Str.ofString "body") with
  | none => .error keyError
  | some (.string body) => .ok body
  | some _ => .error typeError

def channelOf (py : Python φ) (request : Members φ) : JsonValue φ :=
  let channel := request.get "channel" .null
  if py.truthy channel then channel else .string (Str.ofString "sms")

/-- The body and the verdict of the guardrails. -/
def verdictOf (py : Python φ) (request : Members φ) : Except PyError (Str × GuardrailResult Text) := do
  let body ← bodyOf request
  let thread ← threadOf py (request.get "thread" .null)
  let verdict ← evaluateOn py body thread (channelOf py request)
  return (body, verdict)

def failClosed (reason : Str) (latency : φ) : Response φ :=
  ⟨.humanReview, none, none, none, some reason, latency⟩

/-- The answer to a verdict. -/
def respond (host : Host φ) (latency : φ) (body : Str) (verdict : GuardrailResult Text) :
    Except PyError (Response φ) :=
  let (intent, evidence) := bucketIntent host.python body verdict
  match verdict.action with
  | .suppressAndStop =>
      .ok ⟨.suppressAndStop, some intent, verdict.rule, verdict.trigger, none, latency⟩
  | .humanReview =>
      let reason := "guardrail:".toList ++ (verdict.rule.map ruleName).getD "None".toList
      .ok ⟨.humanReview, some intent, verdict.rule, verdict.trigger, some (Str.ofText reason),
        latency⟩
  | .proceed => do
      let handoff ← host.handoffIntents
      if handoff.contains (Str.ofText intent.name) then
        let reason := Str.ofText ("handoff intent ".toList ++ intent.name ++ " (".toList) ++
          evidence ++ Str.ofString ")"
        return ⟨.humanReview, some intent, none, none, some reason, latency⟩
      else return ⟨.noAction, some intent, none, none, none, latency⟩

/-- The body of the `try`. -/
def attempt (host : Host φ) (latency : φ) (request : Members φ) : Except PyError (Response φ) := do
  let (body, verdict) ← verdictOf host.python request
  respond host latency body verdict

def classify (host : Host φ) (latency : φ) (request : Members φ) : Except PyError (Response φ) :=
  tryCatch (attempt host latency request) fun error =>
    .ok (failClosed (Str.ofText ("internal_error:".toList ++ error)) latency)

/-! ## Well-formed inputs -/

/-- The item is read as `m`. -/
def Says (py : Python φ) (item : JsonValue φ) (m : Message) : Prop :=
  ∃ (members : Members φ) (body direction : Str), item = .object members ∧
    py.str (members.get "body" (.string [])) = .ok body ∧
    py.str (members.get "direction" (.string [])) = .ok direction ∧
    m = ⟨body.shown, direction.shown, py.truthy (members.get "is_auto_reply" (.bool false))⟩

/-- A thread is absent, or a list of objects that can be read. -/
def IsThread (py : Python φ) (raw : JsonValue φ) (thread : List Message) : Prop :=
  (py.truthy raw = false ∧ thread = []) ∨
    ∃ items, raw = .array items ∧ List.Forall₂ (Says py) items thread

/-- A channel is absent, or one that the guardrails know. -/
def IsChannel (py : Python φ) (raw : JsonValue φ) (channel : Text) : Prop :=
  (py.truthy raw = false ∧ channel = "sms".toList) ∨
    (raw = .string (Str.ofText channel) ∧ channel ∈ Reference.channels)

structure WellFormed (py : Python φ) (request : Members φ) (body : Str) (thread : List Message)
    (channel : Text) : Prop where
  body : request.lookup (Str.ofString "body") = some (.string body)
  thread : IsThread py (request.get "thread" .null) thread
  channel : IsChannel py (request.get "channel" .null) channel

/-- The inputs are well formed and the guardrails reach this verdict on them. -/
def Judged (py : Python φ) (request : Members φ) (body : Str)
    (verdict : GuardrailResult Text) : Prop :=
  ∃ thread channel, WellFormed py request body thread channel ∧
    Reference.evaluate py.unicode body.shown thread channel = some verdict

section Reads

variable {py : Python φ}

theorem messageOf_eq_ok {item : JsonValue φ} {m : Message} :
    messageOf py item = .ok m ↔ Says py item m := by
  cases item with
  | object members =>
    constructor
    · intro h
      obtain ⟨body, hbody, h⟩ := bind_eq_ok.mp h
      obtain ⟨direction, hdirection, h⟩ := bind_eq_ok.mp h
      cases h
      exact ⟨members, body, direction, rfl, hbody, hdirection, rfl⟩
    · intro h
      obtain ⟨_, body, direction, ⟨⟩, hbody, hdirection, rfl⟩ := h
      refine bind_eq_ok.mpr ⟨body, hbody, ?_⟩
      exact bind_eq_ok.mpr ⟨direction, hdirection, rfl⟩
  | _ =>
    apply iff_of_false
    · exact fun h => nomatch h
    · intro h
      obtain ⟨_, _, _, h, -⟩ := h
      exact nomatch h

theorem messagesOf_eq_ok {items : List (JsonValue φ)} {thread : List Message} :
    messagesOf py items = .ok thread ↔ List.Forall₂ (Says py) items thread := by
  induction items generalizing thread with
  | nil =>
    rw [List.forall₂_nil_left_iff]
    exact Iff.trans (Except.ok.injEq _ _).to_iff eq_comm
  | cons item items ih =>
    rw [List.forall₂_cons_left_iff]
    constructor
    · intro h
      obtain ⟨m, hm, h⟩ := bind_eq_ok.mp h
      obtain ⟨rest, hrest, h⟩ := bind_eq_ok.mp h
      cases h
      exact ⟨m, rest, messageOf_eq_ok.mp hm, ih.mp hrest, rfl⟩
    · intro h
      obtain ⟨m, rest, hm, hrest, rfl⟩ := h
      refine bind_eq_ok.mpr ⟨m, messageOf_eq_ok.mpr hm, ?_⟩
      exact bind_eq_ok.mpr ⟨rest, ih.mpr hrest, rfl⟩

/-- A text and the keys of an object are no messages. -/
theorem messagesOf_strings {α : Type} {f : α → Str} {l : List α} {thread : List Message}
    (hne : l ≠ []) : messagesOf py (l.map fun a => .string (f a)) ≠ .ok thread := by
  cases l with
  | nil => exact absurd rfl hne
  | cons a l => exact fun h => nomatch h

theorem threadOf_eq_ok {raw : JsonValue φ} {thread : List Message} :
    threadOf py raw = .ok thread ↔ IsThread py raw thread := by
  rw [threadOf]
  split
  · rename_i htruthy
    constructor
    · intro h
      obtain ⟨items, hitems, h⟩ := bind_eq_ok.mp h
      cases raw with
      | array values =>
        cases hitems
        exact Or.inr ⟨_, rfl, messagesOf_eq_ok.mp h⟩
      | object members =>
        cases hitems
        have hne : members ≠ [] := by
          rintro rfl
          exact nomatch htruthy
        exact absurd h (messagesOf_strings hne)
      | string s =>
        cases hitems
        have hne : s ≠ [] := by
          rintro rfl
          exact nomatch htruthy
        exact absurd h (messagesOf_strings hne)
      | _ => exact nomatch hitems
    · intro h
      rcases h with ⟨hfalse, -⟩ | ⟨items, rfl, hthread⟩
      · exact absurd htruthy (Bool.eq_false_iff.mp hfalse)
      · exact bind_eq_ok.mpr ⟨items, rfl, messagesOf_eq_ok.mpr hthread⟩
  · rename_i hfalse
    rw [Bool.not_eq_true] at hfalse
    constructor
    · intro h
      cases h
      exact Or.inl ⟨hfalse, rfl⟩
    · intro h
      rcases h with ⟨-, rfl⟩ | ⟨items, rfl, hthread⟩
      · rfl
      · cases items with
        | nil =>
          cases hthread
          rfl
        | cons item items => exact nomatch hfalse

theorem evaluateOn_eq_ok {body : Str} {thread : List Message} {channel : JsonValue φ}
    {verdict : GuardrailResult Text} :
    evaluateOn py body thread channel = .ok verdict ↔
      ∃ name, channel = .string (Str.ofText name) ∧ name ∈ Reference.channels ∧
        Reference.evaluate py.unicode body.shown thread name = some verdict := by
  cases channel with
  | string channel =>
    rw [evaluateOn]
    split
    · rename_i found hfound
      have hmem : channel.shown ∈ Reference.channels := by
        apply (Reference.evaluate_isSome py.unicode).mp
        rw [hfound]
        rfl
      have hplain : CodePoint.replacement ∉ channel.shown := by
        have hall : ∀ name ∈ Reference.channels, CodePoint.replacement ∉ name :=
          List.forall_mem_cons.mpr ⟨by decide, List.forall_mem_cons.mpr ⟨by decide,
            List.forall_mem_nil _⟩⟩
        exact hall _ hmem
      have htext := Str.eq_ofText_of_shown hplain
      constructor
      · intro h
        cases h
        exact ⟨_, congrArg JsonValue.string htext, hmem, hfound⟩
      · intro h
        obtain ⟨name, hname, -, h⟩ := h
        cases hname
        rw [Str.shown_ofText] at hfound
        exact congrArg Except.ok (Option.some.inj (hfound.symm.trans h))
    · rename_i hnone
      apply iff_of_false
      · exact fun h => nomatch h
      · intro h
        obtain ⟨name, hname, -, h⟩ := h
        cases hname
        rw [Str.shown_ofText, h] at hnone
        exact nomatch hnone
  | _ =>
    apply iff_of_false
    · exact fun h => nomatch h
    · intro h
      obtain ⟨_, h, -⟩ := h
      exact nomatch h

theorem channelOf_eq {request : Members φ} {name : Text} (hname : name ∈ Reference.channels) :
    channelOf py request = .string (Str.ofText name) ↔
      IsChannel py (request.get "channel" .null) name := by
  rw [channelOf]
  split
  · rename_i htruthy
    constructor
    · exact fun h => Or.inr ⟨h, hname⟩
    · intro h
      rcases h with ⟨hfalse, -⟩ | ⟨h, -⟩
      · exact absurd htruthy (Bool.eq_false_iff.mp hfalse)
      · exact h
  · rename_i hfalse
    rw [Bool.not_eq_true] at hfalse
    constructor
    · intro h
      exact Or.inl ⟨hfalse, (Str.ofText_injective (JsonValue.string.inj h)).symm⟩
    · intro h
      rcases h with ⟨-, rfl⟩ | ⟨h, -⟩
      · rfl
      · rw [h] at hfalse
        have hnil : name = [] := by
          cases name with
          | nil => rfl
          | cons c name => exact nomatch hfalse
        subst hnil
        exact absurd hname (by decide)

/-- The `try` gets as far as a verdict exactly on well-formed inputs. -/
theorem verdictOf_eq_ok {request : Members φ} {body : Str} {verdict : GuardrailResult Text} :
    verdictOf py request = .ok (body, verdict) ↔ Judged py request body verdict := by
  constructor
  · intro h
    obtain ⟨text, htext, h⟩ := bind_eq_ok.mp h
    obtain ⟨thread, hthread, h⟩ := bind_eq_ok.mp h
    obtain ⟨found, hfound, h⟩ := bind_eq_ok.mp h
    cases h
    obtain ⟨name, hname, hmem, hevaluate⟩ := evaluateOn_eq_ok.mp hfound
    refine ⟨thread, name, ⟨?_, threadOf_eq_ok.mp hthread, (channelOf_eq hmem).mp hname⟩, hevaluate⟩
    unfold bodyOf at htext
    split at htext
    · exact nomatch htext
    · cases htext
      assumption
    · exact nomatch htext
  · intro h
    obtain ⟨thread, name, hformed, hevaluate⟩ := h
    have hmem : name ∈ Reference.channels := by
      apply (Reference.evaluate_isSome py.unicode).mp
      rw [hevaluate]
      rfl
    have hbody : bodyOf request = .ok body := by
      rw [bodyOf, hformed.body]
    have hchannel := (channelOf_eq hmem).mpr hformed.channel
    refine bind_eq_ok.mpr ⟨body, hbody, ?_⟩
    refine bind_eq_ok.mpr ⟨thread, threadOf_eq_ok.mpr hformed.thread, ?_⟩
    exact bind_eq_ok.mpr ⟨verdict, evaluateOn_eq_ok.mpr ⟨name, hchannel, hmem, hevaluate⟩, rfl⟩

end Reads

/-! ## The answer fails closed -/

section FailsClosed

variable {host : Host φ} {latency : φ} {request : Members φ} {body : Str}
  {verdict : GuardrailResult Text}

theorem Judged.unique {body' : Str} {verdict' : GuardrailResult Text}
    (h : Judged host.python request body verdict)
    (h' : Judged host.python request body' verdict') : body = body' ∧ verdict = verdict' := by
  have hsame := (verdictOf_eq_ok.mpr h).symm.trans (verdictOf_eq_ok.mpr h')
  exact Prod.mk.inj (Except.ok.inj hsame)

/-- What some verdict on the request satisfies, the one verdict does. -/
theorem Judged.exists_iff (h : Judged host.python request body verdict)
    {p : Str → GuardrailResult Text → Prop} :
    (∃ body verdict, Judged host.python request body verdict ∧ p body verdict) ↔
      p body verdict := by
  constructor
  · intro hsome
    obtain ⟨_, _, hother, hp⟩ := hsome
    obtain ⟨rfl, rfl⟩ := h.unique hother
    exact hp
  · exact fun hp => ⟨body, verdict, h, hp⟩

/-- Only a verdict that is not terminal is without a rule. -/
theorem Judged.rule (h : Judged host.python request body verdict) :
    verdict.rule.isSome = true ↔ verdict.action ≠ .proceed := by
  obtain ⟨thread, channel, -, h⟩ := h
  rcases Reference.evaluate_cases h with ⟨t, -, rfl⟩ | ⟨-, ⟨rule, t, -, rfl⟩ | rfl⟩
  · exact iff_of_true rfl (fun h => nomatch h)
  · exact iff_of_true rfl (fun h => nomatch h)
  · exact iff_of_false (fun h => nomatch h) (fun h => h rfl)

/-- What an answer to a verdict can be. -/
theorem respond_cases (host : Host φ) (latency : φ) (body : Str) (verdict : GuardrailResult Text) :
    (verdict.action = .suppressAndStop ∧ ∃ r, respond host latency body verdict = .ok r ∧
      r.action = .suppressAndStop ∧ r.rule = verdict.rule) ∨
    (verdict.action = .humanReview ∧ ∃ r, respond host latency body verdict = .ok r ∧
      r.action = .humanReview ∧ r.rule = verdict.rule) ∨
    (verdict.action = .proceed ∧
      ((∃ error, host.handoffIntents = .error error ∧
          respond host latency body verdict = .error error) ∨
        ∃ handoff r, host.handoffIntents = .ok handoff ∧
          respond host latency body verdict = .ok r ∧ r.rule = none ∧
          r.action = if Str.ofText (bucketIntent host.python body verdict).1.name ∈ handoff then
            .humanReview else .noAction)) := by
  unfold respond
  cases haction : verdict.action with
  | suppressAndStop => exact Or.inl ⟨rfl, _, rfl, rfl, rfl⟩
  | humanReview => exact Or.inr (Or.inl ⟨rfl, _, rfl, rfl, rfl⟩)
  | proceed =>
    apply Or.inr ∘ Or.inr
    refine ⟨rfl, ?_⟩
    cases hhandoff : host.handoffIntents with
    | error error => exact Or.inl ⟨error, rfl, rfl⟩
    | ok handoff =>
      apply Or.inr
      by_cases hmem : Str.ofText (bucketIntent host.python body verdict).1.name ∈ handoff
      · have hcontains := List.contains_iff_mem.mpr hmem
        exact ⟨handoff, _, rfl, if_pos hcontains, rfl, (if_pos hmem).symm⟩
      · have hcontains := mt List.contains_iff_mem.mp hmem
        exact ⟨handoff, _, rfl, if_neg hcontains, rfl, (if_neg hmem).symm⟩

/-- Nothing can be judged, or the handoff list is needed and cannot be read. -/
def Fails (host : Host φ) (request : Members φ) : Prop :=
  (¬ ∃ body verdict, Judged host.python request body verdict) ∨
    ∃ body verdict error, Judged host.python request body verdict ∧
      verdict.action = .proceed ∧ host.handoffIntents = .error error

/-- These are all the exceptions. -/
theorem attempt_error_iff :
    (∃ error, attempt host latency request = .error error) ↔ Fails host request := by
  cases hverdict : verdictOf host.python request with
  | error error =>
    apply iff_of_true
    · refine ⟨error, ?_⟩
      rw [attempt, hverdict]
      rfl
    · apply Or.inl
      intro h
      obtain ⟨body, verdict, hjudged⟩ := h
      rw [verdictOf_eq_ok.mpr hjudged] at hverdict
      exact nomatch hverdict
  | ok p =>
    obtain ⟨body, verdict⟩ := p
    have hjudged := verdictOf_eq_ok.mp hverdict
    have hattempt : attempt host latency request = respond host latency body verdict := by
      rw [attempt, hverdict]
      rfl
    rw [hattempt]
    constructor
    · intro h
      obtain ⟨error, herror⟩ := h
      rcases respond_cases host latency body verdict with
        ⟨-, r, hr, -⟩ | ⟨-, r, hr, -⟩ | ⟨hproceed, ⟨other, hhandoff, -⟩ | ⟨_, r, -, hr, -⟩⟩
      · exact nomatch hr.symm.trans herror
      · exact nomatch hr.symm.trans herror
      · exact Or.inr ⟨body, verdict, other, hjudged, hproceed, hhandoff⟩
      · exact nomatch hr.symm.trans herror
    · intro h
      rcases h with hnone | ⟨_, _, error, hother, hproceed, herror⟩
      · exact absurd ⟨body, verdict, hjudged⟩ hnone
      · obtain ⟨rfl, rfl⟩ := hjudged.unique hother
        rcases respond_cases host latency body verdict with
          ⟨h, -⟩ | ⟨h, -⟩ | ⟨-, ⟨other, -, h⟩ | ⟨_, _, hhandoff, -⟩⟩
        · exact nomatch h.symm.trans hproceed
        · exact nomatch h.symm.trans hproceed
        · exact ⟨other, h⟩
        · exact nomatch herror.symm.trans hhandoff

/-- What is promised of the answer to a request. -/
structure FailsClosed (host : Host φ) (latency : φ) (request : Members φ) (r : Response φ) :
    Prop where
  suppress : r.action = .suppressAndStop ↔
    ∃ body verdict, Judged host.python request body verdict ∧ verdict.action = .suppressAndStop
  noAction : r.action = .noAction ↔
    ∃ body verdict handoff, Judged host.python request body verdict ∧ verdict.action = .proceed ∧
      host.handoffIntents = .ok handoff ∧
      Str.ofText (bucketIntent host.python body verdict).1.name ∉ handoff
  failure : Fails host request → r.action = .humanReview
  internal : (∃ error, attempt host latency request = .error error) → r.action = .humanReview
  noReply : r.action ≠ .autoReply
  rule : r.rule.isSome = true ↔
    ∃ body verdict, Judged host.python request body verdict ∧ verdict.action ≠ .proceed

theorem failClosed_of_malformed (h : ¬ ∃ body verdict, Judged host.python request body verdict)
    {r : Response φ} (haction : r.action = .humanReview) (hrule : r.rule = none) :
    FailsClosed host latency request r where
  suppress := by
    rw [haction]
    apply iff_of_false (fun h => nomatch h)
    intro hsome
    obtain ⟨body, verdict, hjudged, -⟩ := hsome
    exact h ⟨body, verdict, hjudged⟩
  noAction := by
    rw [haction]
    apply iff_of_false (fun h => nomatch h)
    intro hsome
    obtain ⟨body, verdict, _, hjudged, -⟩ := hsome
    exact h ⟨body, verdict, hjudged⟩
  failure := fun _ => haction
  internal := fun _ => haction
  noReply := by
    rw [haction]
    exact fun h => nomatch h
  rule := by
    rw [hrule]
    apply iff_of_false Bool.false_ne_true
    intro hsome
    obtain ⟨body, verdict, hjudged, -⟩ := hsome
    exact h ⟨body, verdict, hjudged⟩

/-- The answer to the one verdict that there is. -/
theorem failsClosed_of_judged (hjudged : Judged host.python request body verdict) {r : Response φ}
    (hsuppress : r.action = .suppressAndStop ↔ verdict.action = .suppressAndStop)
    (hnoAction : r.action = .noAction ↔ verdict.action = .proceed ∧ ∃ handoff,
      host.handoffIntents = .ok handoff ∧
        Str.ofText (bucketIntent host.python body verdict).1.name ∉ handoff)
    (hreply : r.action ≠ .autoReply)
    (hrule : r.rule.isSome = true ↔ verdict.action ≠ .proceed) :
    FailsClosed host latency request r := by
  have hfailure : Fails host request → r.action = .humanReview := by
    intro h
    rcases h with h | ⟨_, _, error, hother, hproceed, herror⟩
    · exact absurd ⟨body, verdict, hjudged⟩ h
    · obtain ⟨rfl, rfl⟩ := hjudged.unique hother
      have hnotSuppress : r.action ≠ .suppressAndStop := by
        rw [Ne, hsuppress, hproceed]
        exact fun h => nomatch h
      have hnotSilent : r.action ≠ .noAction := by
        rw [Ne, hnoAction, herror]
        intro h
        obtain ⟨-, _, h, -⟩ := h
        exact nomatch h
      cases haction : r.action with
      | humanReview => rfl
      | suppressAndStop => exact absurd haction hnotSuppress
      | noAction => exact absurd haction hnotSilent
      | autoReply => exact absurd haction hreply
  refine ⟨?_, ?_, hfailure, fun h => hfailure (attempt_error_iff.mp h), hreply, ?_⟩
  · rw [hsuppress, hjudged.exists_iff]
  · rw [hnoAction]
    constructor
    · intro h
      obtain ⟨h, handoff, hhandoff, hmem⟩ := h
      exact ⟨body, verdict, handoff, hjudged, h, hhandoff, hmem⟩
    · intro h
      obtain ⟨_, _, handoff, hother, h, hhandoff, hmem⟩ := h
      obtain ⟨rfl, rfl⟩ := hjudged.unique hother
      exact ⟨h, handoff, hhandoff, hmem⟩
  · rw [hrule, hjudged.exists_iff]

theorem respond_failsClosed (hjudged : Judged host.python request body verdict) {r : Response φ}
    (h : respond host latency body verdict = .ok r) : FailsClosed host latency request r := by
  have hrule := hjudged.rule
  rcases respond_cases host latency body verdict with
    ⟨haction, _, hr, hsame, hsameRule⟩ | ⟨haction, _, hr, hsame, hsameRule⟩ |
      ⟨haction, ⟨_, -, hr⟩ | ⟨handoff, _, hhandoff, hr, hnone, hsame⟩⟩
  · obtain rfl := Except.ok.inj (hr.symm.trans h)
    apply failsClosed_of_judged hjudged
    · rw [hsame, haction]
      exact iff_of_true rfl rfl
    · rw [hsame, haction]
      exact iff_of_false (fun h => nomatch h) fun h => nomatch h.1
    · rw [hsame]
      exact fun h => nomatch h
    · rw [hsameRule]
      exact hrule
  · obtain rfl := Except.ok.inj (hr.symm.trans h)
    apply failsClosed_of_judged hjudged
    · rw [hsame, haction]
      exact iff_of_false (fun h => nomatch h) fun h => nomatch h
    · rw [hsame, haction]
      exact iff_of_false (fun h => nomatch h) fun h => nomatch h.1
    · rw [hsame]
      exact fun h => nomatch h
    · rw [hsameRule]
      exact hrule
  · exact nomatch hr.symm.trans h
  · obtain rfl := Except.ok.inj (hr.symm.trans h)
    by_cases hmem : Str.ofText (bucketIntent host.python body verdict).1.name ∈ handoff
    · rw [if_pos hmem] at hsame
      apply failsClosed_of_judged hjudged
      · rw [hsame, haction]
        exact iff_of_false (fun h => nomatch h) fun h => nomatch h
      · rw [hsame, hhandoff]
        apply iff_of_false (fun h => nomatch h)
        intro h
        obtain ⟨-, _, ⟨⟩, hnot⟩ := h
        exact hnot hmem
      · rw [hsame]
        exact fun h => nomatch h
      · rw [hnone, haction]
        exact iff_of_false Bool.false_ne_true fun h => h rfl
    · rw [if_neg hmem] at hsame
      apply failsClosed_of_judged hjudged
      · rw [hsame, haction]
        exact iff_of_false (fun h => nomatch h) fun h => nomatch h
      · rw [hsame]
        exact iff_of_true rfl ⟨haction, handoff, hhandoff, hmem⟩
      · rw [hsame]
        exact fun h => nomatch h
      · rw [hnone, haction]
        exact iff_of_false Bool.false_ne_true fun h => h rfl

/-- The answer is that of the `try`, or it fails closed. -/
theorem classify_cases (host : Host φ) (latency : φ) (request : Members φ) :
    (∃ r, attempt host latency request = .ok r ∧ classify host latency request = .ok r) ∨
      ∃ error, attempt host latency request = .error error ∧
        classify host latency request =
          .ok (failClosed (Str.ofText ("internal_error:".toList ++ error)) latency) := by
  cases hattempt : attempt host latency request with
  | ok r => exact Or.inl ⟨r, rfl, congrArg (tryCatch · _) hattempt⟩
  | error error => exact Or.inr ⟨error, rfl, congrArg (tryCatch · _) hattempt⟩

/-- `classify` never raises, and no failure gets past a human. -/
theorem classify_failsClosed (host : Host φ) (latency : φ) (request : Members φ) :
    ∃ r, classify host latency request = .ok r ∧ FailsClosed host latency request r := by
  rcases classify_cases host latency request with ⟨r, hattempt, h⟩ | ⟨error, hattempt, h⟩
  · refine ⟨r, h, ?_⟩
    obtain ⟨⟨body, verdict⟩, hverdict, hr⟩ := bind_eq_ok.mp hattempt
    exact respond_failsClosed (verdictOf_eq_ok.mp hverdict) hr
  · refine ⟨_, h, ?_⟩
    rcases attempt_error_iff.mp ⟨error, hattempt⟩ with
      hnone | ⟨body, verdict, _, hjudged, hproceed, herror⟩
    · exact failClosed_of_malformed hnone rfl rfl
    · apply failsClosed_of_judged hjudged
      · rw [hproceed]
        exact iff_of_false (fun h => nomatch h) fun h => nomatch h
      · rw [herror]
        apply iff_of_false (fun h => nomatch h)
        intro h
        obtain ⟨-, _, h, -⟩ := h
        exact nomatch h
      · exact fun h => nomatch h
      · rw [hproceed]
        exact iff_of_false Bool.false_ne_true fun h => h rfl

end FailsClosed

end Outreach.Classifier
