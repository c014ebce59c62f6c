import Mathlib.Data.List.Sort
import Outreach.Library.Dict
import Outreach.Research.AutoChat

/-!
# The conversation harness: `research/conversation_harness.py`

One conversation, with an operator at the keyboard. Every message that goes out
waits at a gate for a line of the operator; the inbox is polled between the
messages, and each new reply is judged before anything is proposed. A step is one
line typed, one answer of the vendor, or one message of a poll. The transcript
may fail at any of its lines, and any other exception may end the program at any
step.
-/

namespace Outreach.Research.Harness

open Outreach.Library Outreach.Guardrails Outreach.Classifier

set_option autoImplicit false

/-- `TEMPLATES`, with `first_name_greeting` filled in. -/
def templates (greeting : Text) : List (Intent × Text) :=
  [(.interested, "Great".toList ++ greeting ++
      (" — to point you to the right option: how much " ++
        "capital are you looking for, and roughly what is your monthly revenue?").toList),
    (.amountGiven, ("Got it, thanks. To match you with the right program: about how long in " ++
      "business, and what is the average monthly revenue?").toList),
    (.requestMoreInfo, "Happy to send that over".toList ++ greeting ++
      (". What would be most useful " ++ "first: terms, rates, or the application steps?").toList),
    (.notInterested, ("Understood — thanks for letting us know, and we won't follow up further. " ++
      "If timing ever changes, this number reaches us.").toList),
    (.wrongPerson, ("Apologies for the mix-up — we'll remove this number from our list. " ++
      "Thanks for letting us know.").toList)]

/-- `re.sub(r"\s{2,}", " ", text).strip()` -/
def tidy (text : Text) : Text :=
  stripBy isSpace ((text.splitBy fun c d => isSpace c == isSpace d).flatMap fun run =>
    if 2 ≤ run.length && run.all isSpace then [' '] else run)

/-- `merge_fields(TEMPLATES[intent], fields)`, if there is a template. -/
def mergeFields (intent : Intent) (fields : Dict Text Text) : Option Text :=
  let greeting :=
    match fields.get? "first_name".toList with
    | some (c :: name) => ", ".toList ++ c :: name
    | _ => []
  ((templates greeting).lookup intent).map tidy

/-- A line of the transcript, after the one that names the chat. -/
inductive Entry where
  | aborted
  | skipped (proposed : Option Text)
  | quit
  | sent (text : Text) (edited : Bool) (status : Int) (messageId : Option Int)
  | rewriteWarning (messageId : Int) (stored : Str)
  | pollError (status : Int)
  | inbound (message : InboxMessage)
  | verdict (action : Action) (rule : Option Rule) (intent : Intent) (evidence : Str)

/-- What is done: a line of the transcript, a text put before the operator, a line that the
operator types at the menu, a form that is posted. -/
inductive Effect where
  | line (entry : Entry)
  | shown (text : Text)
  | typed (line : Text)
  | sent (form : Outbound)

/-- The arguments of `gate`, and what it has become of them. -/
structure Gate where
  text : Option Text
  edited : Bool := false
  allowSend : Bool := true
  /-- the gate of the opener, before the first poll -/
  opener : Bool := false

/-- What the program waits for; `queue` is what is left of the poll. -/
inductive Phase where
  | choosing (gate : Gate) (queue : List InboxMessage)
  | typing (gate : Gate) (queue : List InboxMessage)
  | posting (text : Text) (edited opener : Bool) (queue : List InboxMessage)
  | walking (queue : List InboxMessage)
  | polling
  | ended

structure Conversation where
  phase : Phase
  thread : List Message := []
  seen : List Int
  pendingVerify : Int → Option Text := fun _ => none
  effects : List Effect := []

inductive Event where
  /-- a line at a prompt; `none` is the end of the input, or Ctrl-C -/
  | typed (line : Option Text)
  /-- the answer to the form: the `id` and the `message` of its `data` -/
  | answered (status : Int) (messageId : Option Int) (stored : Option Str)
  | next
  /-- `none` is an answer that is no JSON object -/
  | polled (status : Int) (payload : Option (List InboxMessage))
  | interrupted
  | raised

structure Label where
  event : Event
  /-- the transcript takes the line -/
  logs : Entry → Bool := fun _ => true

/-- `transcript.log(…)`, then the rest. -/
def Conversation.log (e : Label) (entry : Entry) (s : Conversation)
    (rest : Conversation → Conversation) : Conversation :=
  if e.logs entry then rest { s with effects := s.effects ++ [.line entry] }
  else { s with phase := .ended }

/-- `show_proposal` -/
def Conversation.show (text : Text) (s : Conversation) : Conversation :=
  { s with effects := s.effects ++ [.shown text] }

section Loop

variable {φ : Type} (py : Python φ) (chatId : Int) (sender recipient : Text)
  (fields : Dict Text Text)

/-- `input(…).strip().lower()` -/
def command (line : Text) : Text := py.unicode.lower (stripBy isSpace line)

/-- The answer at a menu. -/
def choose (e : Label) (gate : Gate) (queue : List InboxMessage) (line : Text)
    (s : Conversation) : Conversation :=
  let s : Conversation := { s with effects := s.effects ++ [.typed line] }
  let choice := command py line
  match choice = "s".toList && gate.allowSend, gate.text with
  | true, some text =>
      { s with
        phase := .posting text gate.edited gate.opener queue
        effects := s.effects ++ [.sent ⟨text, some chatId, sender, recipient⟩] }
  | _, _ =>
      if choice = "e".toList ∧ gate.allowSend = true then { s with phase := .typing gate queue }
      else if choice = "k".toList then
        s.log e (.skipped gate.text) fun s => { s with phase := .walking queue }
      else if choice = "q".toList then s.log e .quit fun s => { s with phase := .ended }
      else { s with phase := .choosing gate queue }

/-- The new text at the prompt of an edit, `rstrip("\n")`. -/
def edit (gate : Gate) (queue : List InboxMessage) (line : Text) (s : Conversation) :
    Conversation :=
  let text := (line.reverse.dropWhile (· = '\n')).reverse
  Conversation.show text
    { s with phase := .choosing { gate with text := some text, edited := true } queue }

/-- What follows the post; an answer without an id is no outcome. -/
def answered (e : Label) (text : Text) (edited opener : Bool) (queue : List InboxMessage)
    (status : Int) (messageId : Option Int) (stored : Option Str) (s : Conversation) :
    Conversation :=
  s.log e (.sent text edited status messageId) fun s =>
    match if status = 200 ∨ status = 201 then messageId else none with
    | none => { s with phase := .walking queue }
    | some id =>
        let outcome (s : Conversation) : Conversation :=
          { s with
            phase := .walking queue
            pendingVerify := Function.update s.pendingVerify id (some text)
            thread := s.thread ++ [⟨text, "outbound".toList, !opener && !edited⟩] }
        match stored with
        | none => outcome s
        | some stored =>
            if stored = Str.ofText text then outcome s
            else s.log e (.rewriteWarning id stored) outcome

/-- `evaluate(stored_text, thread_before, "sms")`; `sms` is a channel. -/
def judgeReply (thread : List Message) (m : InboxMessage) : GuardrailResult Text :=
  (Reference.evaluate py.unicode m.text.shown thread "sms".toList).getD ⟨.proceed, none, none⟩

/-- The gate of a reply: no sending after an opt-out, a template only where the guardrails
let the message pass. -/
def propose (verdict : GuardrailResult Text) (intent : Intent) (queue : List InboxMessage)
    (s : Conversation) : Conversation :=
  if verdict.action = .suppressAndStop then
    { s with phase := .choosing { text := none, allowSend := false } queue }
  else
    match if verdict.action = .proceed then mergeFields intent fields else none with
    | none => { s with phase := .choosing { text := none } queue }
    | some proposal =>
        Conversation.show proposal { s with phase := .choosing { text := some proposal } queue }

/-- A message that is new and inbound. -/
def reply (e : Label) (m : InboxMessage) (queue : List InboxMessage) (s : Conversation) :
    Conversation :=
  s.log e (.inbound m) fun s =>
    let verdict := judgeReply py s.thread m
    let (intent, evidence) := bucketIntent py m.text verdict
    let s : Conversation :=
      { s with thread := s.thread ++ [⟨m.text.shown, "inbound".toList, false⟩] }
    s.log e (.verdict verdict.action verdict.rule intent evidence) 
      (propose fields verdict intent queue)

/-- From the look at `seen` on. -/
def look (e : Label) (m : InboxMessage) (queue : List InboxMessage) (s : Conversation) :
    Conversation :=
  if m.id ∈ s.seen ∨ m.direction ≠ "inbound".toList then
    { s with seen := m.id :: s.seen, phase := .walking queue }
  else reply py fields e m queue { s with seen := m.id :: s.seen }

/-- One message of a poll; the text of a form of ours is checked once. -/
def visit (e : Label) (m : InboxMessage) (queue : List InboxMessage) (s : Conversation) :
    Conversation :=
  match s.pendingVerify m.id with
  | none => look py fields e m queue s
  | some text =>
      let s : Conversation := { s with pendingVerify := Function.update s.pendingVerify m.id none }
      if m.text = Str.ofText text then look py fields e m queue s
      else s.log e (.rewriteWarning m.id m.text) (look py fields e m queue)

def step (s : Conversation) (e : Label) : Option Conversation :=
  match s.phase, e.event with
  | .ended, _ => none
  | _, .raised => some { s with phase := .ended }
  | .choosing gate queue, .typed (some line) =>
      some (choose py chatId sender recipient e gate queue line s)
  | .typing gate queue, .typed (some line) => some (edit gate queue line s)
  | .choosing _ _, .typed none => some (s.log e .aborted fun s => { s with phase := .ended })
  | .typing _ _, .typed none => some (s.log e .aborted fun s => { s with phase := .ended })
  | .posting text edited opener queue, .answered status messageId stored =>
      some (answered e text edited opener queue status messageId stored s)
  | .walking [], .next => some { s with phase := .polling }
  | .walking (m :: queue), .next => some (visit py fields e m queue s)
  | .polling, .interrupted => some (s.log e .quit fun s => { s with phase := .ended })
  | .polling, .polled status payload =>
      match payload with
      | some messages =>
          if status = 200 then
            some { s with phase := .walking (messages.insertionSort fun m n => m.id ≤ n.id) }
          else some (s.log e (.pollError status) id)
      | none => some (s.log e (.pollError status) id)
  | _, _ => none

def harness : Machine Conversation Label := ⟨step py chatId sender recipient fields⟩

/-- The program at the gate of the opener; what the chat holds already is history, if it could be
read. -/
def Conversation.opening (body : Text) (snapshot : Option (List InboxMessage)) : Conversation :=
  Conversation.show body
    { phase := .choosing { text := some body, opener := true } []
      seen := (snapshot.getD []).map InboxMessage.id }

end Loop

/-! ## What a trace of effects shows -/

section Traces

variable {φ : Type} (py : Python φ)

/-- The text was shown, and since then lines have been typed and nothing else done. -/
def Offered (effects : List Effect) (text : Text) : Prop :=
  ∃ (before : List Effect) (lines : List Text),
    effects = before ++ .shown text :: lines.map Effect.typed

/-- The text was shown, and the last line typed is the command to send it. -/
def Released (effects : List Effect) (text : Text) : Prop :=
  ∃ (before : List Effect) (lines : List Text) (line : Text),
    effects = before ++ .shown text :: (lines ++ [line]).map Effect.typed ∧
      command py line = "s".toList

/-- A verdict opens the turn, unless it is an opt-out, and a send closes it. -/
def turn (mine : Bool) : Effect → Bool
  | .line (.verdict action _ _ _) => decide (action ≠ .suppressAndStop)
  | .sent _ => false
  | _ => mine

/-- It is our turn: nothing was sent since the last verdict, and that was no opt-out. -/
def myTurn (effects : List Effect) : Bool := effects.foldl turn true

/-- Every form was released at a gate, in our turn. -/
def Gated (effects : List Effect) : Prop :=
  ∀ before form, before ++ [.sent form] <+: effects →
    Released py before form.message ∧ myTurn before = true

def Effect.inboundId? : Effect → Option Int
  | .line (.inbound m) => some m.id
  | _ => none

/-- The replies that the transcript names. -/
def inboundIds (effects : List Effect) : List Int := effects.filterMap Effect.inboundId?

/-- A text that went out as it was proposed, and the vendor has confirmed. -/
def Effect.confirmsUnedited : Effect → Bool
  | .line (.sent _ edited status messageId) =>
      !edited && decide (status = 200 ∨ status = 201) && messageId.isSome
  | _ => false

def uneditedCount (effects : List Effect) : Nat := effects.countP Effect.confirmsUnedited

variable {py} {effects : List Effect} {x : Effect} {text : Text}

theorem gated_snoc : Gated py (effects ++ [x]) ↔ Gated py effects ∧
    ∀ form, x = .sent form → Released py effects form.message ∧ myTurn effects = true := by
  constructor
  · intro h
    refine ⟨fun before form hpre => h before form (hpre.trans (List.prefix_append _ _)), ?_⟩
    rintro form rfl
    exact h effects form (List.prefix_refl _)
  · rintro ⟨h, hlast⟩ before form hpre
    rcases List.prefix_concat_iff.mp hpre with heq | hpre
    · obtain ⟨rfl, hx⟩ := List.append_inj' heq rfl
      exact hlast form (List.singleton_inj.mp hx).symm
    · exact h before form hpre

theorem myTurn_snoc : myTurn (effects ++ [x]) = turn (myTurn effects) x := by
  rw [myTurn, List.foldl_append]
  rfl

theorem offered_shown : Offered (effects ++ [.shown text]) text := ⟨effects, [], rfl⟩

theorem Offered.typed (h : Offered effects text) (line : Text) :
    Offered (effects ++ [.typed line]) text := by
  obtain ⟨before, lines, rfl⟩ := h
  refine ⟨before, lines ++ [line], ?_⟩
  rw [List.map_append, List.append_assoc]
  rfl

theorem Offered.released (h : Offered effects text) {line : Text}
    (hline : command py line = "s".toList) : Released py (effects ++ [.typed line]) text := by
  obtain ⟨before, lines, rfl⟩ := h
  refine ⟨before, lines, line, ?_, hline⟩
  rw [List.map_append, List.append_assoc]
  rfl

theorem inboundIds_snoc :
    inboundIds (effects ++ [x]) = inboundIds effects ++ x.inboundId?.toList := by
  rw [inboundIds, List.filterMap_append]
  cases h : x.inboundId? <;> simp [h, inboundIds]

theorem uneditedCount_snoc :
    uneditedCount (effects ++ [x]) =
      uneditedCount effects + (if x.confirmsUnedited then 1 else 0) := by
  rw [uneditedCount, List.countP_append, List.countP_singleton]
  rfl

theorem autoReplyCount_snoc (thread : List Message) (m : Message) :
    Reference.autoReplyCount (thread ++ [m]) = Reference.autoReplyCount thread +
      (if m.direction = "outbound".toList ∧ m.isAutoReply = true then 1 else 0) := by
  rw [Reference.autoReplyCount, Reference.autoReplyCount, ← List.countP_eq_length_filter,
    ← List.countP_eq_length_filter, List.countP_append, List.countP_singleton]
  simp only [Bool.and_eq_true, decide_eq_true_eq]

end Traces

/-! ## The invariant -/

section Invariant

variable {φ : Type} (py : Python φ) (history : List Int)

/-- What holds of the effects, the thread and the ids seen, whatever the program waits for. -/
structure Traced (effects : List Effect) (thread : List Message) (seen : List Int) : Prop where
  gated : Gated py effects
  once : (inboundIds effects).Nodup
  judged : ∀ id ∈ inboundIds effects, id ∈ seen
  known : ∀ id ∈ history, id ∈ seen
  fresh : ∀ id ∈ inboundIds effects, id ∉ history
  replies : Reference.autoReplyCount thread ≤ 2
  unedited : uneditedCount effects ≤ 3

/-- The thread counts what was confirmed unedited, but for the opener. -/
def Accounts (effects : List Effect) (thread : List Message) : Bool → Prop
  | true => uneditedCount effects = 0
  | false => uneditedCount effects ≤ Reference.autoReplyCount thread + 1

/-- The loop breaker lets a text through as it is proposed. -/
def MayRepeat (thread : List Message) (edited opener : Bool) : Prop :=
  edited = false → opener = false → Reference.autoReplyCount thread < 2

def Phase.Fine (effects : List Effect) (thread : List Message) : Phase → Prop
  | .choosing gate _ => Accounts effects thread gate.opener ∧
      (gate.allowSend = true → myTurn effects = true) ∧
      ∀ text, gate.text = some text →
        Offered effects text ∧ MayRepeat thread gate.edited gate.opener
  | .typing gate _ => Accounts effects thread gate.opener ∧
      (gate.allowSend = true → myTurn effects = true)
  | .posting _ edited opener _ => Accounts effects thread opener ∧ MayRepeat thread edited opener
  | .walking _ => Accounts effects thread false
  | .polling => Accounts effects thread false
  | .ended => True

def Held (s : Conversation) : Prop :=
  Traced py history s.effects s.thread s.seen ∧ s.phase.Fine s.effects s.thread

/-- An effect that is no form, no reply and no line about a form. -/
def Effect.plain : Effect → Bool
  | .line (.inbound _) => false
  | .line (.sent _ _ _ _) => false
  | .sent _ => false
  | _ => true

variable {py} {history} {effects : List Effect} {thread : List Message} {seen : List Int}
  {x : Effect} {opener : Bool}

theorem Effect.plain_spec (h : x.plain = true) :
    (∀ form, x ≠ .sent form) ∧ x.inboundId? = none ∧ x.confirmsUnedited = false := by
  cases x with
  | line entry => cases entry <;> first | exact ⟨fun _ => Effect.noConfusion, rfl, rfl⟩ | cases h
  | shown text => exact ⟨fun _ => Effect.noConfusion, rfl, rfl⟩
  | typed line => exact ⟨fun _ => Effect.noConfusion, rfl, rfl⟩
  | sent form => cases h

theorem Traced.add (h : Traced py history effects thread seen) (hplain : x.plain = true) :
    Traced py history (effects ++ [x]) thread seen := by
  obtain ⟨hsent, hinbound, hconfirms⟩ := Effect.plain_spec hplain
  have hids : inboundIds (effects ++ [x]) = inboundIds effects := by
    rw [inboundIds_snoc, hinbound, Option.toList_none, List.append_nil]
  refine ⟨gated_snoc.mpr ⟨h.gated, fun form hx => absurd hx (hsent form)⟩, hids ▸ h.once,
    hids ▸ h.judged, h.known, hids ▸ h.fresh, h.replies, ?_⟩
  rw [uneditedCount_snoc, hconfirms]
  exact h.unedited

theorem Accounts.add (h : Accounts effects thread opener) (hplain : x.plain = true) :
    Accounts (effects ++ [x]) thread opener := by
  have hsame : uneditedCount (effects ++ [x]) = uneditedCount effects := by
    rw [uneditedCount_snoc, (Effect.plain_spec hplain).2.2]
    rfl
  cases opener with
  | true => exact hsame.trans h
  | false => exact hsame.le.trans h

theorem Accounts.past (h : Accounts effects thread opener) : Accounts effects thread false := by
  cases opener with
  | true => exact h.le.trans (Nat.zero_le _)
  | false => exact h

variable {e : Label} {entry : Entry} {s : Conversation} {rest : Conversation → Conversation}
  {gate : Gate} {queue : List InboxMessage} {line : Text}

/-- Where the transcript fails, the program is over. -/
theorem held_log (h : Traced py history s.effects s.thread s.seen)
    (hrest : Held py history (rest { s with effects := s.effects ++ [.line entry] })) :
    Held py history (s.log e entry rest) := by
  unfold Conversation.log
  split
  · exact hrest
  · exact ⟨h, trivial⟩

theorem choose_held (chatId : Int) (sender recipient : Text) (h : Held py history s)
    (hphase : s.phase = .choosing gate queue) :
    Held py history (choose py chatId sender recipient e gate queue line s) := by
  obtain ⟨htraced, hfine⟩ := h
  rw [hphase] at hfine
  obtain ⟨haccounts, hturn, htext⟩ := hfine
  have htyped : Traced py history (s.effects ++ [.typed line]) s.thread s.seen := htraced.add rfl
  have hturn' : gate.allowSend = true → myTurn (s.effects ++ [.typed line]) = true := by
    intro hallow
    rw [myTurn_snoc]
    exact hturn hallow
  unfold choose
  simp only
  split
  · rename_i text hsend hoffer
    obtain ⟨hcommand, hallow⟩ := Bool.and_eq_true_iff.mp hsend
    obtain ⟨hoffered, hrepeat⟩ := htext text hoffer
    have hreleased : Released py (s.effects ++ [.typed line]) text :=
      hoffered.released (of_decide_eq_true hcommand)
    have hunedited : uneditedCount (s.effects ++ [.typed line] ++
        [.sent ⟨text, some chatId, sender, recipient⟩]) =
          uneditedCount (s.effects ++ [.typed line]) :=
      uneditedCount_snoc
    have hids : inboundIds (s.effects ++ [.typed line] ++
        [.sent ⟨text, some chatId, sender, recipient⟩]) =
          inboundIds (s.effects ++ [.typed line]) := by
      rw [inboundIds_snoc]
      exact List.append_nil _
    refine ⟨⟨gated_snoc.mpr ⟨htyped.gated, ?_⟩, hids ▸ htyped.once, hids ▸ htyped.judged,
      htyped.known, hids ▸ htyped.fresh, htyped.replies, ?_⟩, ?_, hrepeat⟩
    · intro form hform
      cases hform
      exact ⟨hreleased, hturn' hallow⟩
    · exact hunedited.le.trans htyped.unedited
    · have hkept := haccounts.add (x := .typed line) rfl
      cases hopener : gate.opener with
      | true =>
        rw [hopener] at hkept
        exact hunedited.trans hkept
      | false =>
        rw [hopener] at hkept
        exact hunedited.le.trans hkept
  · split
    · exact ⟨htyped, haccounts.add rfl, hturn'⟩
    split
    · exact held_log htyped ⟨htyped.add rfl, ((haccounts.add rfl).add rfl).past⟩
    split
    · exact held_log htyped ⟨htyped.add rfl, trivial⟩
    · refine ⟨htyped, haccounts.add rfl, hturn', fun text hoffer => ?_⟩
      exact ⟨(htext text hoffer).1.typed line, (htext text hoffer).2⟩

theorem edit_held (h : Held py history s) (hphase : s.phase = .typing gate queue) :
    Held py history (edit gate queue line s) := by
  obtain ⟨htraced, hfine⟩ := h
  rw [hphase] at hfine
  obtain ⟨haccounts, hturn⟩ := hfine
  refine ⟨htraced.add rfl, haccounts.add rfl, fun hallow => ?_, fun text hoffer => ?_⟩
  · exact myTurn_snoc.trans (hturn hallow)
  · cases hoffer
    exact ⟨offered_shown, fun hedited => absurd hedited.symm Bool.false_ne_true⟩

/-- The line about a form: what it confirms unedited is within the bound. -/
theorem Traced.addSent (h : Traced py history effects thread seen) {text : Text} {edited : Bool}
    {status : Int} {messageId : Option Int} (haccounts : Accounts effects thread opener)
    (hrepeat : MayRepeat thread edited opener) :
    Traced py history (effects ++ [.line (.sent text edited status messageId)]) thread seen := by
  have hids : inboundIds (effects ++ [.line (.sent text edited status messageId)]) =
      inboundIds effects := by
    rw [inboundIds_snoc]
    exact List.append_nil _
  refine ⟨gated_snoc.mpr ⟨h.gated, fun form hx => Effect.noConfusion hx⟩, hids ▸ h.once,
    hids ▸ h.judged, h.known, hids ▸ h.fresh, h.replies, ?_⟩
  rw [uneditedCount_snoc]
  split
  · rename_i hconfirms
    have hedited : edited = false := by
      simp only [Effect.confirmsUnedited, Bool.and_eq_true, Bool.not_eq_true'] at hconfirms
      exact hconfirms.1.1
    cases opener with
    | true =>
      have hnone : uneditedCount effects = 0 := haccounts
      omega
    | false =>
      have hcounted : uneditedCount effects ≤ Reference.autoReplyCount thread + 1 := haccounts
      have hfew : Reference.autoReplyCount thread < 2 := hrepeat hedited rfl
      omega
  · exact h.unedited

/-- The thread after a confirmed send. -/
theorem outcome_accounts {text : Text} {edited : Bool} {status id : Int}
    (hstatus : status = 200 ∨ status = 201) (haccounts : Accounts effects thread opener) :
    Accounts (effects ++ [.line (.sent text edited status (some id))])
      (thread ++ [⟨text, "outbound".toList, !opener && !edited⟩]) false := by
  show uneditedCount _ ≤ Reference.autoReplyCount _ + 1
  rw [uneditedCount_snoc, autoReplyCount_snoc]
  simp only [Effect.confirmsUnedited, decide_eq_true hstatus, Option.isSome_some, Bool.and_true,
    true_and]
  cases opener with
  | true =>
    have hnone : uneditedCount effects = 0 := haccounts
    cases edited with
    | true => exact hnone.le.trans (Nat.zero_le _)
    | false => simp [hnone]
  | false =>
    have hcounted : uneditedCount effects ≤ Reference.autoReplyCount thread + 1 := haccounts
    cases edited with
    | true => simpa using hcounted
    | false => simpa using hcounted

theorem outcome_replies {text : Text} {edited : Bool} (h : Reference.autoReplyCount thread ≤ 2)
    (hrepeat : MayRepeat thread edited opener) :
    Reference.autoReplyCount (thread ++ [⟨text, "outbound".toList, !opener && !edited⟩]) ≤ 2 := by
  rw [autoReplyCount_snoc]
  split
  · rename_i hauto
    simp only [Bool.and_eq_true, Bool.not_eq_true'] at hauto
    exact hrepeat hauto.2.2 hauto.2.1
  · exact h

theorem answered_held {text : Text} {edited : Bool} {status : Int} {messageId : Option Int}
    {stored : Option Str} (h : Held py history s)
    (hphase : s.phase = .posting text edited opener queue) :
    Held py history (answered e text edited opener queue status messageId stored s) := by
  obtain ⟨htraced, hfine⟩ := h
  rw [hphase] at hfine
  obtain ⟨haccounts, hrepeat⟩ := hfine
  have hline : Traced py history (s.effects ++ [.line (.sent text edited status messageId)])
      s.thread s.seen := htraced.addSent haccounts hrepeat
  refine held_log htraced ?_
  split
  · rename_i hnone
    refine ⟨hline, ?_⟩
    have hsame : uneditedCount (s.effects ++ [.line (.sent text edited status messageId)]) =
        uneditedCount s.effects := by
      rw [uneditedCount_snoc]
      refine congrArg _ (if_neg fun hconfirms => ?_)
      simp only [Effect.confirmsUnedited, Bool.and_eq_true, decide_eq_true_eq] at hconfirms
      rw [if_pos hconfirms.1.2] at hnone
      rw [hnone] at hconfirms
      exact Bool.false_ne_true hconfirms.2
    exact hsame.le.trans haccounts.past
  · rename_i id hsome
    have hstatus : status = 200 ∨ status = 201 := by
      by_contra hnot
      rw [if_neg hnot] at hsome
      exact Option.some_ne_none id hsome.symm
    rw [if_pos hstatus] at hsome
    subst hsome
    have hgoes : Accounts (s.effects ++ [.line (.sent text edited status (some id))])
        (s.thread ++ [⟨text, "outbound".toList, !opener && !edited⟩]) false :=
      outcome_accounts hstatus haccounts
    have hfew : Reference.autoReplyCount
        (s.thread ++ [⟨text, "outbound".toList, !opener && !edited⟩]) ≤ 2 :=
      outcome_replies htraced.replies hrepeat
    have hthread : Traced py history (s.effects ++ [.line (.sent text edited status (some id))])
        (s.thread ++ [⟨text, "outbound".toList, !opener && !edited⟩]) s.seen :=
      { hline with replies := hfew }
    simp only
    split
    · exact ⟨hthread, hgoes⟩
    · split
      · exact ⟨hthread, hgoes⟩
      · exact held_log hline ⟨hthread.add rfl, hgoes.add rfl⟩

/-- The loop breaker: a message passes only before the second template. -/
theorem judgeReply_proceeds {m : InboxMessage} (h : (judgeReply py thread m).action = .proceed) :
    Reference.autoReplyCount thread < 2 := by
  have hsms : ("sms".toList : Text) ∈ Reference.channels := List.mem_cons_self
  unfold judgeReply Reference.evaluate at h
  rw [if_neg (not_not.mpr hsms), Option.getD_some] at h
  by_contra hmany
  split at h
  · cases h
  split at h
  · cases h
  split at h
  · cases h
  split at h
  · cases h
  rw [if_pos (not_lt.mp hmany)] at h
  cases h

theorem propose_held {fields : Dict Text Text} {verdict : GuardrailResult Text} {intent : Intent}
    (htraced : Traced py history s.effects s.thread s.seen)
    (haccounts : Accounts s.effects s.thread false)
    (hturn : verdict.action ≠ .suppressAndStop → myTurn s.effects = true)
    (hproceeds : verdict.action = .proceed → Reference.autoReplyCount s.thread < 2) :
    Held py history (propose fields verdict intent queue s) := by
  unfold propose
  split
  · exact ⟨htraced, haccounts, fun hallow => absurd hallow Bool.false_ne_true,
      fun text hoffer => absurd hoffer.symm (Option.some_ne_none text)⟩
  · rename_i hanswer
    split
    · exact ⟨htraced, haccounts, fun _ => hturn hanswer,
        fun text hoffer => absurd hoffer.symm (Option.some_ne_none text)⟩
    · rename_i proposal hproposal
      have hpasses : verdict.action = .proceed := by
        by_contra hnot
        rw [if_neg hnot] at hproposal
        exact Option.some_ne_none proposal hproposal.symm
      refine ⟨htraced.add rfl, haccounts.add rfl, fun _ => ?_, fun text hoffer => ?_⟩
      · exact myTurn_snoc.trans (hturn hanswer)
      · cases hoffer
        exact ⟨offered_shown, fun _ _ => hproceeds hpasses⟩

theorem Traced.addInbound (h : Traced py history effects thread seen) {m : InboxMessage}
    (hnew : m.id ∉ seen) :
    Traced py history (effects ++ [.line (.inbound m)]) thread (m.id :: seen) := by
  have hids : inboundIds (effects ++ [.line (.inbound m)]) = inboundIds effects ++ [m.id] :=
    inboundIds_snoc
  refine ⟨gated_snoc.mpr ⟨h.gated, fun form hx => Effect.noConfusion hx⟩, ?_, fun id hid => ?_,
    fun id hid => List.mem_cons_of_mem _ (h.known id hid), fun id hid => ?_, h.replies, ?_⟩
  · rw [hids, List.nodup_append]
    refine ⟨h.once, List.nodup_singleton _, fun a ha b hb heq => hnew ?_⟩
    rw [← List.mem_singleton.mp hb, ← heq]
    exact h.judged a ha
  · rw [hids] at hid
    rcases List.mem_append.mp hid with hold | hlast
    · exact List.mem_cons_of_mem _ (h.judged id hold)
    · exact List.mem_singleton.mp hlast ▸ List.mem_cons_self
  · rw [hids] at hid
    rcases List.mem_append.mp hid with hold | hlast
    · exact h.fresh id hold
    · exact List.mem_singleton.mp hlast ▸ mt (h.known m.id) hnew
  · rw [uneditedCount_snoc]
    exact h.unedited

theorem Traced.addSeen (h : Traced py history effects thread seen) (id : Int) :
    Traced py history effects thread (id :: seen) :=
  { h with
    judged := fun i hi => List.mem_cons_of_mem _ (h.judged i hi)
    known := fun i hi => List.mem_cons_of_mem _ (h.known i hi) }

theorem reply_held {fields : Dict Text Text} {m : InboxMessage} {seen : List Int}
    (htraced : Traced py history s.effects s.thread seen)
    (haccounts : Accounts s.effects s.thread false)
    (hseen : s.seen = m.id :: seen) (hnew : m.id ∉ seen) :
    Held py history (reply py fields e m queue s) := by
  have hinbound := htraced.addInbound hnew
  rw [← hseen] at hinbound
  have hbefore : Traced py history s.effects s.thread s.seen := hseen ▸ htraced.addSeen m.id
  have hcount : Reference.autoReplyCount
      (s.thread ++ [⟨m.text.shown, "inbound".toList, false⟩]) =
        Reference.autoReplyCount s.thread :=
    autoReplyCount_snoc _ _
  have hlogged : Accounts (s.effects ++ [.line (.inbound m)]) s.thread false := by
    show uneditedCount _ ≤ _
    rw [uneditedCount_snoc]
    exact haccounts
  have hthread : Traced py history (s.effects ++ [.line (.inbound m)])
      (s.thread ++ [⟨m.text.shown, "inbound".toList, false⟩]) s.seen :=
    { hinbound with replies := hcount.le.trans hinbound.replies }
  unfold reply
  refine held_log hbefore ?_
  refine held_log hthread ?_
  refine propose_held (hthread.add rfl) ?_ (fun hanswer => ?_) (fun hpasses => ?_)
  · refine Accounts.add ?_ rfl
    show uneditedCount _ ≤ _
    rw [hcount]
    exact hlogged
  · rw [myTurn_snoc]
    exact decide_eq_true hanswer
  · exact hcount.trans_lt (judgeReply_proceeds hpasses)

theorem look_held {fields : Dict Text Text} {m : InboxMessage}
    (htraced : Traced py history s.effects s.thread s.seen)
    (haccounts : Accounts s.effects s.thread false) :
    Held py history (look py fields e m queue s) := by
  unfold look
  split
  · exact ⟨htraced.addSeen m.id, haccounts⟩
  · rename_i hfresh
    exact reply_held htraced haccounts rfl (not_or.mp hfresh).1

theorem visit_held {fields : Dict Text Text} {m : InboxMessage}
    (htraced : Traced py history s.effects s.thread s.seen)
    (haccounts : Accounts s.effects s.thread false) :
    Held py history (visit py fields e m queue s) := by
  unfold visit
  split
  · exact look_held htraced haccounts
  · simp only
    split
    · exact look_held htraced haccounts
    · exact held_log htraced (look_held (htraced.add rfl) (haccounts.add rfl))

/-- Every step keeps the invariant. -/
theorem step_held {chatId : Int} {sender recipient : Text} {fields : Dict Text Text}
    {s' : Conversation} (h : Held py history s)
    (hs : (harness py chatId sender recipient fields).step s e = some s') : Held py history s' := by
  have hs : step py chatId sender recipient fields s e = some s' := hs
  unfold step at hs
  split at hs
  · cases hs
  · cases hs
    exact ⟨h.1, trivial⟩
  · rename_i hphase _
    cases hs
    exact choose_held chatId sender recipient h hphase
  · rename_i hphase _
    cases hs
    exact edit_held h hphase
  · cases hs
    exact held_log h.1 ⟨h.1.add rfl, trivial⟩
  · cases hs
    exact held_log h.1 ⟨h.1.add rfl, trivial⟩
  · rename_i hphase _
    cases hs
    exact answered_held h hphase
  · rename_i hphase _
    cases hs
    have hfine := h.2
    rw [hphase] at hfine
    exact ⟨h.1, hfine⟩
  · rename_i hphase _
    cases hs
    have hfine := h.2
    rw [hphase] at hfine
    exact visit_held h.1 hfine
  · cases hs
    exact held_log h.1 ⟨h.1.add rfl, trivial⟩
  · rename_i hphase _
    have hfine := h.2
    rw [hphase] at hfine
    have herror : ∀ status, Held py history (s.log e (.pollError status) id) := by
      intro status
      refine held_log h.1 ⟨h.1.add rfl, ?_⟩
      show Phase.Fine _ _ s.phase
      rw [hphase]
      have hkept : Accounts s.effects s.thread false := hfine
      exact hkept.add rfl
    split at hs
    · split at hs
      · cases hs
        exact ⟨h.1, hfine⟩
      · cases hs
        exact herror _
    · cases hs
      exact herror _
  · cases hs

theorem opening_held (body : Text) (snapshot : Option (List InboxMessage)) :
    Held py ((snapshot.getD []).map InboxMessage.id) (Conversation.opening body snapshot) := by
  have hnone : Gated py [] := by
    intro before form hpre
    exact absurd (List.prefix_nil.mp hpre)
      (List.append_ne_nil_of_right_ne_nil _ (List.cons_ne_nil _ _))
  have hgated : Gated py ([] ++ [.shown body]) :=
    gated_snoc.mpr ⟨hnone, fun form hx => Effect.noConfusion hx⟩
  refine ⟨⟨hgated, List.nodup_nil, fun _ hid => absurd hid List.not_mem_nil, fun _ hid => hid,
    fun _ hid => absurd hid List.not_mem_nil, Nat.zero_le _, Nat.zero_le _⟩, rfl, fun _ => rfl,
    fun text hoffer => ?_⟩
  cases hoffer
  exact ⟨⟨[], [], rfl⟩, fun _ hopener => absurd hopener.symm Bool.false_ne_true⟩

end Invariant

/-! ## Runs -/

/-- The opener is sent, a yes gets its template, and a STOP gets nothing, whatever is typed. -/
def yesThenStop : List Label :=
  [.typed (some " S ".toList), .answered 201 (some 5) none, .next,
    .polled 200 (some [inbound 6 "yes"]), .next, .typed (some "s".toList),
    .answered 201 (some 7) none, .next, .polled 200 (some [inbound 6 "yes", inbound 8 "STOP"]),
    .next, .next, .typed (some "s".toList), .typed (some "k".toList), .next].map
      fun event : Event => { event := event }

/-- What the chat held before. -/
def oldReply : Option (List InboxMessage) := some [inbound 1 "hello"]

theorem yesThenStop_runs :
    ((harness Python.plain 7 [] "+15550001111".toList Dict.empty).run
      (.opening "Hi".toList oldReply) yesThenStop).isSome = true := by
  decide +kernel

section Runs

variable {φ : Type} {py : Python φ} {chatId : Int} {sender recipient body : Text}
  {fields : Dict Text Text} {snapshot : Option (List InboxMessage)} {es : List Label}
  {t : Conversation}

theorem run_held
    (hr : (harness py chatId sender recipient fields).run (.opening body snapshot) es = some t) :
    Held py ((snapshot.getD []).map InboxMessage.id) t :=
  (harness py chatId sender recipient fields).run_preserves (fun _ _ _ h hs => step_held h hs)
    (opening_held body snapshot) hr

/-- Nothing goes out but the text that the operator was shown last, and only on the line that
says so: between that text and the form there are lines at the menu, and the last is an `s`. -/
theorem sends_released
    (hr : (harness py chatId sender recipient fields).run (.opening body snapshot) es = some t)
    {before : List Effect} {form : Outbound} (hsent : before ++ [.sent form] <+: t.effects) :
    Released py before form.message :=
  ((run_held hr).1.gated before form hsent).1

theorem sends_released_yes :
    ∃ t, (harness Python.plain 7 [] "+15550001111".toList Dict.empty).run
        (.opening "Hi".toList oldReply) yesThenStop = some t ∧
      ∀ before form, before ++ [.sent form] <+: t.effects →
        Released Python.plain before form.message := by
  obtain ⟨t, ht⟩ := Option.isSome_iff_exists.mp yesThenStop_runs
  exact ⟨t, ht, fun before form hsent => sends_released ht hsent⟩

/-- No reply is judged twice; where the chat could be read at the start, none that it held is
judged at all. Each form answers the opener's gate or one reply, and no reply that opts out. -/
theorem one_send_a_turn
    (hr : (harness py chatId sender recipient fields).run (.opening body snapshot) es = some t) :
    (inboundIds t.effects).Nodup ∧
      (∀ messages, snapshot = some messages →
        ∀ id ∈ inboundIds t.effects, id ∉ messages.map InboxMessage.id) ∧
      ∀ before form, before ++ [.sent form] <+: t.effects → myTurn before = true := by
  have hfresh := (run_held hr).1.fresh
  refine ⟨(run_held hr).1.once, ?_, fun before form hsent =>
    ((run_held hr).1.gated before form hsent).2⟩
  rintro messages rfl
  exact hfresh

theorem one_send_a_turn_yes :
    ∃ t, (harness Python.plain 7 [] "+15550001111".toList Dict.empty).run
        (.opening "Hi".toList oldReply) yesThenStop = some t ∧ (inboundIds t.effects).Nodup ∧
      (1 : Int) ∉ inboundIds t.effects ∧
      ∀ before form, before ++ [.sent form] <+: t.effects → myTurn before = true := by
  obtain ⟨t, ht⟩ := Option.isSome_iff_exists.mp yesThenStop_runs
  obtain ⟨hnodup, hfresh, hturn⟩ := one_send_a_turn ht
  exact ⟨t, ht, hnodup, fun hid => hfresh _ rfl 1 hid List.mem_cons_self, hturn⟩

/-- The loop breaker: whatever the vendor answers, and wherever the transcript fails, at most
the opener and two templates are confirmed as they were proposed. -/
theorem few_unedited
    (hr : (harness py chatId sender recipient fields).run (.opening body snapshot) es = some t) :
    uneditedCount t.effects ≤ 3 ∧ Reference.autoReplyCount t.thread ≤ 2 :=
  ⟨(run_held hr).1.unedited, (run_held hr).1.replies⟩

theorem few_unedited_yes :
    ∃ t, (harness Python.plain 7 [] "+15550001111".toList Dict.empty).run
        (.opening "Hi".toList oldReply) yesThenStop = some t ∧ uneditedCount t.effects ≤ 3 := by
  obtain ⟨t, ht⟩ := Option.isSome_iff_exists.mp yesThenStop_runs
  exact ⟨t, ht, (few_unedited ht).1⟩

end Runs

end Outreach.Research.Harness
