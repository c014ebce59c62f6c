import Outreach.Classifier.Buckets
import Outreach.Library.Machine

/-!
# The auto-chat runner: `research/auto_chat.py`

A poll of a live thread reads the inbox, takes the latest new inbound message and
may answer it. The network and the transcript may raise at any call; what was
done before stays done, and the main loop logs the exception and goes on. A run
is a list of polls, however the messages fall into them.
-/

namespace Outreach.Research

open Outreach.Library Outreach.Guardrails Outreach.Classifier

set_option autoImplicit false

/-- `HALT_RULES` -/
def haltRules : List Rule := [.optOut, .legalEscalation, .hostility]

def cannedReplies : List (Intent × Text) :=
  [(.interested, ("Great - to point you to the right option: how much capital are you " ++
      "looking for, and roughly what is your monthly revenue?").toList),
    (.amountGiven, ("Got it, thanks. Two quick ones so I point you right: how long in " ++
      "business, and roughly what monthly revenue?").toList),
    (.requestMoreInfo, ("Happy to send that over. What would be most useful first: terms, " ++
      "rates, or the application steps?").toList),
    (.question, ("Good question. Short version: we arrange working capital for small " ++
      "businesses - term loans and lines of credit. What else can I answer?").toList),
    (.callRequest, "Can do - what number and time work best for a call?".toList),
    (.processUpdate, "Thanks for the update - I will take a look and follow up shortly.".toList),
    (.notInterested, ("Understood - thanks for letting us know, and we will not follow up " ++
      "further. If timing ever changes, this number reaches us.").toList),
    (.wrongPerson, ("Apologies for the mix-up - we will remove this number from our list. " ++
      "Thanks for letting us know.").toList)]

/-- The canned reply of `Unclear`, and of every intent that has none. -/
def unclearReply : Text :=
  ("Just to make sure I follow - are you looking into working capital " ++
    "for the business right now?").toList

def closingIntents : List Intent := [.notInterested, .wrongPerson]

structure Thread where
  number : Text
  chatId : Option Int
  lastProcessed : Int := 0
  autoCount : Nat := 0
  halted : Bool := false
  lastReply : Option Text := none
  clarified : Bool := false

structure InboxMessage where
  id : Int
  direction : Text
  message : Option Str

/-- The form that `send` posts. -/
structure Outbound where
  message : Text
  chatId : Option Int
  fromNumber : Text
  toNumber : Text

/-- The name of an exception and its text. -/
structure Raised where
  name : PyError
  detail : Str

/-- A line of the transcript, with what it says of the thread. -/
inductive Entry where
  | inbound (number : Text) (messageId : Int) (body : Str) (action : Action) (rule : Option Rule)
      (intent : Intent) (evidence : Str)
  | threadHalted (number : Text) (rule : Option Rule)
  | noReply (number : Text) (rule : Option Rule)
  | capReached (number : Text)
  | unclearAgain (number : Text)
  | repeatedReply (number : Text)
  | replySent (number : Text) (messageId : Option Int) (intent : Intent) (body : Text)
      (autoCount : Nat)
  | loopBreakerNote (number : Text)
  | threadClosed (number : Text) (intent : Intent)
  | cycleError (number : Text) (error : PyError) (detail : Str)

/-- What a poll meets: the answer to `GET /inbox`, the answer to `POST /inbox/chat`, and what the
transcript raises on a line. -/
structure Poll where
  inbox : Except Raised (Int × List InboxMessage)
  sending : Except Raised (Int × Option Int)
  logs : Entry → Option Raised

inductive Effect where
  | line (entry : Entry)
  | sent (form : Outbound)

/-- What a poll leaves: the thread, what was done, and the exception that ended it. -/
structure Turn where
  thread : Thread
  effects : List Effect := []
  raised : Option Raised := none

/-- `log(…)`, then the rest. -/
def Turn.log (poll : Poll) (entry : Entry) (turn : Turn) (rest : Turn → Turn) : Turn :=
  match poll.logs entry with
  | some error => { turn with raised := some error }
  | none => rest { turn with effects := turn.effects ++ [.line entry] }

/-- `messages_for` -/
def messagesFor (poll : Poll) : Except Raised (List InboxMessage) := do
  let (status, messages) ← poll.inbox
  if status = 200 then return messages.mergeSort fun m n => decide (m.id ≤ n.id) else return []

/-- `send`: the message goes out, whatever the answer to it. -/
def Turn.send (poll : Poll) (sender text : Text) (turn : Turn) (rest : Turn → Option Int → Turn) :
    Turn :=
  let form : Outbound := ⟨text, turn.thread.chatId, sender, turn.thread.number⟩
  let turn := { turn with effects := turn.effects ++ [.sent form] }
  match poll.sending with
  | .error error => { turn with raised := some error }
  | .ok (status, messageId) => rest turn (if status = 200 ∨ status = 201 then messageId else none)

def newInbound (thread : Thread) (messages : List InboxMessage) : List InboxMessage :=
  messages.filter fun m => decide (m.direction = "inbound".toList ∧ thread.lastProcessed < m.id)

def InboxMessage.text (m : InboxMessage) : Str := m.message.getD []

section Process

variable {φ : Type} (py : Python φ) (sender : Text) (maxReplies : Int)

/-- The last lines of an answer; a closing intent halts the thread. -/
def close (poll : Poll) (intent : Intent) (turn : Turn) : Turn :=
  if intent ∈ closingIntents then
    { turn with thread := { turn.thread with halted := true } }.log poll
      (.threadClosed turn.thread.number intent) id
  else turn

/-- What follows `send`. -/
def recordReply (poll : Poll) (intent : Intent) (reply : Text) (turn : Turn)
    (messageId : Option Int) : Turn :=
  let number := turn.thread.number
  let autoCount := turn.thread.autoCount + 1
  { turn with thread := { turn.thread with
      autoCount := autoCount
      lastReply := some reply
      clarified := turn.thread.clarified || decide (intent = Intent.unclear) } }.log poll
    (.replySent number messageId intent reply autoCount) fun turn =>
      if autoCount = 2 then turn.log poll (.loopBreakerNote number) (close poll intent)
      else close poll intent turn

/-- From `reply = CANNED.get(…)` on. -/
def answer (poll : Poll) (intent : Intent) (turn : Turn) : Turn :=
  let reply := (cannedReplies.lookup intent).getD unclearReply
  if turn.thread.lastReply = some reply then
    turn.log poll (.repeatedReply turn.thread.number) id
  else turn.send poll sender reply (recordReply poll intent reply)

/-- What follows the line of the inbound message. -/
def decideReply (poll : Poll) (verdict : GuardrailResult Text) (intent : Intent) (turn : Turn) :
    Turn :=
  let number := turn.thread.number
  if verdict.rule.any (· ∈ haltRules) then
    { turn with thread := { turn.thread with halted := true } }.log poll
      (.threadHalted number verdict.rule) id
  else if verdict.action ≠ .proceed then turn.log poll (.noReply number verdict.rule) id
  else if maxReplies ≤ turn.thread.autoCount then turn.log poll (.capReached number) id
  else if intent = .unclear ∧ turn.thread.clarified then turn.log poll (.unclearAgain number) id
  else answer sender poll intent turn

/-- The verdict on a message, with its intent and evidence; `sms` is a channel. -/
def judge (m : InboxMessage) : GuardrailResult Text × Intent × Str :=
  let verdict := (Reference.evaluate py.unicode m.text.shown [] "sms".toList).getD ⟨.proceed, none, none⟩
  (verdict, bucketIntent py m.text verdict)

/-- The line that is logged before anything is decided. -/
def inboundEntry (thread : Thread) (m : InboxMessage) : Entry :=
  let (verdict, intent, evidence) := judge py m
  .inbound thread.number m.id m.text verdict.action verdict.rule intent evidence

def processThread (poll : Poll) (thread : Thread) : Turn :=
  match messagesFor poll with
  | .error error => { thread := thread, raised := some error }
  | .ok messages =>
      match (newInbound thread messages).getLast? with
      | none => { thread := thread }
      | some latest =>
          let (verdict, intent, _) := judge py latest
          Turn.log poll (inboundEntry py thread latest)
            { thread := { thread with lastProcessed := latest.id } }
            (decideReply sender maxReplies poll verdict intent)

end Process

/-! ## The main loop -/

/-- The thread that `main` starts: a number that cannot be reached is halted. -/
def Thread.ready (number : Text) (chatId : Option Int) (history : List InboxMessage)
    (catchUp : Bool) : Thread :=
  match chatId with
  | none => { number := number, chatId := none, halted := true }
  | some id =>
      let seen := if catchUp then history.filter fun m => decide (m.direction = "outbound".toList)
        else history
      { number := number, chatId := some id,
        lastProcessed := ((seen.map InboxMessage.id).max?).getD 0 }

structure Runner where
  threads : List Thread
  effects : List Effect := []
  /-- an exception got out of the main loop -/
  crashed : Bool := false

/-- One thread is polled. -/
structure Visit where
  index : Nat
  poll : Poll

section Loop

variable {φ : Type} (py : Python φ) (sender : Text) (maxReplies : Int)

/-- The turn of a thread in the main loop; a halted thread is not polled. -/
def visit (s : Runner) (v : Visit) : Option Runner :=
  match s.threads[v.index]? with
  | none => none
  | some thread =>
      if s.crashed || thread.halted || thread.chatId.isNone then none
      else
        let turn := processThread py sender maxReplies v.poll thread
        let s := { s with
          threads := s.threads.set v.index turn.thread
          effects := s.effects ++ turn.effects }
        match turn.raised with
        | none => some s
        | some error =>
            let entry := Entry.cycleError thread.number error.name (error.detail.take 200)
            match v.poll.logs entry with
            | none => some { s with effects := s.effects ++ [.line entry] }
            | some _ => some { s with crashed := true }

def autoChat : Machine Runner Visit := ⟨visit py sender maxReplies⟩

end Loop

/-! ## What a turn can do -/

def Effect.form? : Effect → Option Outbound
  | .line _ => none
  | .sent form => some form

/-- What was sent, in order. -/
def formsOf (effects : List Effect) : List Outbound := effects.filterMap Effect.form?

section Turns

variable {φ : Type} {py : Python φ} {sender : Text} {maxReplies : Int} {poll : Poll}
  {thread : Thread} {turn : Turn} {intent : Intent} {entry : Entry} {rest : Turn → Turn}

theorem formsOf_append (before after : List Effect) :
    formsOf (before ++ after) = formsOf before ++ formsOf after := List.filterMap_append

theorem formsOf_line (effects : List Effect) (entry : Entry) :
    formsOf (effects ++ [.line entry]) = formsOf effects := by
  rw [formsOf_append]
  exact List.append_nil _

/-- A line sends nothing, whether it can be written or not. -/
theorem forms_log (hrest : formsOf (rest { turn with effects := turn.effects ++ [.line entry] }).effects =
      formsOf turn.effects) :
    formsOf (turn.log poll entry rest).effects = formsOf turn.effects := by
  rw [Turn.log]
  split
  · rfl
  · exact hrest

theorem number_log (hrest : (rest { turn with effects := turn.effects ++ [.line entry] }).thread.number =
      turn.thread.number) :
    (turn.log poll entry rest).thread.number = turn.thread.number := by
  rw [Turn.log]
  split
  · rfl
  · exact hrest

/-- A last line leaves the thread as it is. -/
theorem thread_log_id : (turn.log poll entry id).thread = turn.thread := by
  rw [Turn.log]
  split <;> rfl

theorem forms_log_id : formsOf (turn.log poll entry id).effects = formsOf turn.effects :=
  forms_log (formsOf_line _ _)

theorem forms_close : formsOf (close poll intent turn).effects = formsOf turn.effects := by
  rw [close]
  split
  · exact forms_log_id
  · rfl

theorem number_close : (close poll intent turn).thread.number = turn.thread.number := by
  rw [close]
  split
  · rw [thread_log_id]
  · rfl

section Reply

variable {reply : Text} {messageId : Option Int}

theorem forms_recordReply :
    formsOf (recordReply poll intent reply turn messageId).effects = formsOf turn.effects := by
  apply forms_log
  simp only
  split
  · exact (forms_log (forms_close.trans (formsOf_line _ _))).trans (formsOf_line _ _)
  · exact forms_close.trans (formsOf_line _ _)

theorem number_recordReply :
    (recordReply poll intent reply turn messageId).thread.number = turn.thread.number := by
  apply number_log
  simp only
  split
  · exact number_log number_close
  · exact number_close

end Reply

/-- The thread goes on as it is, and nothing is sent. -/
def Leaves (turn turn' : Turn) : Prop :=
  turn'.thread = turn.thread ∧ formsOf turn'.effects = formsOf turn.effects

/-- One message is sent, to the number of the thread. -/
def Answers (turn turn' : Turn) : Prop :=
  turn'.thread.number = turn.thread.number ∧ ∃ form : Outbound,
    form.toNumber = turn.thread.number ∧ formsOf turn'.effects = formsOf turn.effects ++ [form]

theorem leaves_log_id : Leaves turn (turn.log poll entry id) := ⟨thread_log_id, forms_log_id⟩

theorem answer_cases (sender : Text) (poll : Poll) (intent : Intent) (turn : Turn) :
    Leaves turn (answer sender poll intent turn) ∨ Answers turn (answer sender poll intent turn) := by
  unfold answer
  simp only
  split
  · exact Or.inl leaves_log_id
  · apply Or.inr
    rw [Turn.send]
    split
    · exact ⟨rfl, _, rfl, formsOf_append _ _⟩
    · exact ⟨number_recordReply, _, rfl, forms_recordReply.trans (formsOf_append _ _)⟩

/-- A rule that halts does so without an answer. -/
theorem decideReply_of_halt (sender : Text) (maxReplies : Int) {verdict : GuardrailResult Text}
    (h : verdict.rule.any (· ∈ haltRules) = true) :
    (decideReply sender maxReplies poll verdict intent turn).thread =
        { turn.thread with halted := true } ∧
      formsOf (decideReply sender maxReplies poll verdict intent turn).effects =
        formsOf turn.effects := by
  rw [decideReply, if_pos h]
  exact ⟨thread_log_id, forms_log_id⟩

theorem decideReply_cases (sender : Text) (maxReplies : Int) {verdict : GuardrailResult Text}
    (h : verdict.rule.any (· ∈ haltRules) = false) :
    Leaves turn (decideReply sender maxReplies poll verdict intent turn) ∨
      Answers turn (decideReply sender maxReplies poll verdict intent turn) := by
  rw [decideReply, if_neg (Bool.eq_false_iff.mp h)]
  split
  · exact Or.inl leaves_log_id
  split
  · exact Or.inl leaves_log_id
  split
  · exact Or.inl leaves_log_id
  · exact answer_cases sender poll intent turn

end Turns

/-! ## What a poll can do -/

section Polls

variable {φ : Type} (py : Python φ)

/-- The guardrails map the message to a rule in `HALT_RULES`. -/
def halts (m : InboxMessage) : Bool := (judge py m).1.rule.any (· ∈ haltRules)

/-- The poll returns an inbound message above the baseline that halts. -/
def ReturnsHalt (baseline : Int) (poll : Poll) : Prop :=
  ∃ messages m, messagesFor poll = .ok messages ∧ m ∈ messages ∧
    m.direction = "inbound".toList ∧ baseline < m.id ∧ halts py m = true

/-- The latest new message halts, and its line can be written. -/
def Stops (thread : Thread) (poll : Poll) : Prop :=
  ∃ messages latest, messagesFor poll = .ok messages ∧
    (newInbound thread messages).getLast? = some latest ∧ halts py latest = true ∧
    poll.logs (inboundEntry py thread latest) = none

variable {py} {sender : Text} {maxReplies : Int} {poll : Poll} {thread : Thread}

theorem stops_iff {messages : List InboxMessage} {latest : InboxMessage}
    (hmessages : messagesFor poll = .ok messages)
    (hlatest : (newInbound thread messages).getLast? = some latest) :
    Stops py thread poll ↔
      halts py latest = true ∧ poll.logs (inboundEntry py thread latest) = none := by
  constructor
  · intro h
    obtain ⟨_, _, h, hother, hstops⟩ := h
    cases hmessages.symm.trans h
    cases hlatest.symm.trans hother
    exact hstops
  · exact fun hstops => ⟨messages, latest, hmessages, hlatest, hstops⟩

/-- A poll halts its thread in silence, or leaves it as live as it was, or answers. -/
theorem processThread_cases (sender : Text) (maxReplies : Int) (poll : Poll) (thread : Thread) :
    (processThread py sender maxReplies poll thread).thread.number = thread.number ∧
      ((Stops py thread poll ∧
          (processThread py sender maxReplies poll thread).thread.halted = true ∧
          formsOf (processThread py sender maxReplies poll thread).effects = []) ∨
        (¬ Stops py thread poll ∧
          (processThread py sender maxReplies poll thread).thread.halted = thread.halted ∧
          formsOf (processThread py sender maxReplies poll thread).effects = []) ∨
        (¬ Stops py thread poll ∧ ∃ form : Outbound, form.toNumber = thread.number ∧
          formsOf (processThread py sender maxReplies poll thread).effects = [form])) := by
  unfold processThread
  split
  · rename_i herror
    refine ⟨rfl, Or.inr (Or.inl ⟨?_, rfl, rfl⟩)⟩
    intro h
    obtain ⟨_, _, h, -⟩ := h
    exact nomatch herror.symm.trans h
  · rename_i messages hmessages
    split
    · rename_i hnone
      refine ⟨rfl, Or.inr (Or.inl ⟨?_, rfl, rfl⟩)⟩
      intro h
      obtain ⟨_, _, h, hlatest, -⟩ := h
      cases hmessages.symm.trans h
      exact nomatch hnone.symm.trans hlatest
    · rename_i latest hlatest
      simp only
      rw [Turn.log]
      split
      · rename_i hraise
        refine ⟨rfl, Or.inr (Or.inl ⟨?_, rfl, rfl⟩)⟩
        rw [stops_iff hmessages hlatest, hraise]
        exact fun h => nomatch h.2
      · rename_i hwritten
        generalize hstart : ({ thread := _, effects := _, raised := _ } : Turn) = start
        have hnumber : start.thread.number = thread.number := by rw [← hstart]
        have hlive : start.thread.halted = thread.halted := by rw [← hstart]
        have hforms : formsOf start.effects = [] := by
          rw [← hstart]
          rfl
        cases hhalts : halts py latest with
        | true =>
          obtain ⟨hthread, hsame⟩ := decideReply_of_halt sender maxReplies hhalts
          rw [hthread, hsame]
          have hstops : Stops py thread poll := (stops_iff hmessages hlatest).mpr ⟨hhalts, hwritten⟩
          exact ⟨hnumber, Or.inl ⟨hstops, rfl, hforms⟩⟩
        | false =>
          have hnot : ¬ Stops py thread poll := by
            rw [stops_iff hmessages hlatest, hhalts]
            exact fun h => nomatch h.1
          rcases decideReply_cases sender maxReplies hhalts with
            ⟨hthread, hsame⟩ | ⟨hsame, form, hform, hsent⟩
          · rw [hthread, hsame]
            exact ⟨hnumber, Or.inr (Or.inl ⟨hnot, hlive, hforms⟩)⟩
          · rw [hsame, hsent, hforms]
            exact ⟨hnumber, Or.inr (Or.inr ⟨hnot, form, hform.trans hnumber, rfl⟩)⟩

/-- A poll sends nothing but to its own number. -/
theorem processThread_local {form : Outbound}
    (h : form ∈ formsOf (processThread py sender maxReplies poll thread).effects) :
    form.toNumber = thread.number := by
  rcases (processThread_cases sender maxReplies poll thread).2 with
    ⟨-, -, hforms⟩ | ⟨-, -, hforms⟩ | ⟨-, form', hform, hforms⟩
  · rw [hforms] at h
    exact nomatch h
  · rw [hforms] at h
    exact nomatch h
  · rw [hforms] at h
    rw [List.mem_singleton.mp h]
    exact hform

/-- A poll halts a live thread in silence exactly if its latest new message does. -/
theorem processThread_silent_iff (hlive : thread.halted = false) :
    ((processThread py sender maxReplies poll thread).thread.halted = true ∧
        formsOf (processThread py sender maxReplies poll thread).effects = []) ↔
      Stops py thread poll := by
  rcases (processThread_cases sender maxReplies poll thread).2 with
    ⟨hstops, hhalted, hforms⟩ | ⟨hnot, hhalted, hforms⟩ | ⟨hnot, form, -, hforms⟩
  · exact iff_of_true ⟨hhalted, hforms⟩ hstops
  · apply iff_of_false _ hnot
    rw [hhalted, hlive]
    exact fun h => nomatch h.1
  · apply iff_of_false _ hnot
    rw [hforms]
    exact fun h => nomatch h.2

end Polls

/-! ## Runs -/

section Runs

variable {φ : Type} {py : Python φ} {sender : Text} {maxReplies : Int}

/-- What was sent to a number. -/
def sentTo (number : Text) (s : Runner) : List Outbound :=
  (formsOf s.effects).filter fun form => decide (form.toNumber = number)

/-- What a visit does. -/
theorem visit_cases {s t : Runner} {v : Visit} (h : visit py sender maxReplies s v = some t) :
    ∃ thread, s.threads[v.index]? = some thread ∧ thread.halted = false ∧
      t.threads = s.threads.set v.index (processThread py sender maxReplies v.poll thread).thread ∧
      formsOf t.effects = formsOf s.effects ++
        formsOf (processThread py sender maxReplies v.poll thread).effects := by
  unfold visit at h
  split at h
  · exact nomatch h
  · rename_i thread hthread
    split at h
    · exact nomatch h
    · rename_i hlive
      refine ⟨thread, hthread, ?_, ?_⟩
      · cases hhalted : thread.halted with
        | false => rfl
        | true =>
          rw [hhalted, Bool.or_true, Bool.true_or] at hlive
          exact absurd rfl hlive
      · simp only at h
        split at h
        · cases h
          exact ⟨rfl, formsOf_append _ _⟩
        · split at h
          · cases h
            exact ⟨rfl, (formsOf_line _ _).trans (formsOf_append _ _)⟩
          · cases h
            exact ⟨rfl, formsOf_append _ _⟩

/-- The thread of an index is halted. -/
def HaltedAt (index : Nat) (s : Runner) : Prop := (s.threads[index]?).map Thread.halted = some true

/-- A thread that is live is polled. -/
theorem visit_enabled {s : Runner} {v : Visit} {thread : Thread}
    (hthread : s.threads[v.index]? = some thread) (hcrashed : s.crashed = false)
    (hlive : thread.halted = false) (hchat : thread.chatId.isNone = false) :
    ∃ t, visit py sender maxReplies s v = some t := by
  unfold visit
  rw [hthread]
  simp only [hcrashed, hlive, hchat, Bool.or_self, Bool.false_eq_true, if_false]
  split
  · exact ⟨_, rfl⟩
  · split
    · exact ⟨_, rfl⟩
    · exact ⟨_, rfl⟩

theorem visit_numbers {s t : Runner} {v : Visit} (h : visit py sender maxReplies s v = some t) :
    t.threads.map Thread.number = s.threads.map Thread.number := by
  obtain ⟨thread, hthread, -, hset, -⟩ := visit_cases h
  have hnumber : (processThread py sender maxReplies v.poll thread).thread.number = thread.number :=
    (processThread_cases sender maxReplies v.poll thread).1
  obtain ⟨hlt, hget⟩ := List.getElem?_eq_some_iff.mp hthread
  have hlength : v.index < (s.threads.map Thread.number).length := by rwa [List.length_map]
  rw [hset, List.map_set, hnumber, ← hget, ← List.getElem_map Thread.number]
  exact List.set_getElem_self hlength

/-- The numbers of a run are those it starts with. -/
theorem run_numbers {s t : Runner} {visits : List Visit}
    (h : (autoChat py sender maxReplies).run s visits = some t) :
    t.threads.map Thread.number = s.threads.map Thread.number := by
  apply (autoChat py sender maxReplies).run_preserves
    (P := fun u => u.threads.map Thread.number = s.threads.map Thread.number) _ rfl h
  intro u v w hu hv
  exact (visit_numbers hv).trans hu

/-- A poll is silent towards its own number and halts its thread exactly if it stops. -/
theorem visit_silent_iff {s t : Runner} {v : Visit} {thread : Thread}
    (h : visit py sender maxReplies s v = some t) (hthread : s.threads[v.index]? = some thread) :
    (HaltedAt v.index t ∧ sentTo thread.number t = sentTo thread.number s) ↔
      Stops py thread v.poll := by
  obtain ⟨_, hsame, hlive, hset, hforms⟩ := visit_cases h
  obtain rfl := Option.some.inj (hthread.symm.trans hsame)
  rw [← processThread_silent_iff hlive]
  obtain ⟨hlt, -⟩ := List.getElem?_eq_some_iff.mp hthread
  apply and_congr
  · rw [HaltedAt, hset, List.getElem?_set_self hlt, Option.map_some, Option.some.injEq]
  · have hall : (formsOf (processThread py sender maxReplies v.poll thread).effects).filter
        (fun form => decide (form.toNumber = thread.number)) =
          formsOf (processThread py sender maxReplies v.poll thread).effects :=
      List.filter_eq_self.mpr fun form hform => decide_eq_true (processThread_local hform)
    rw [sentTo, sentTo, hforms, List.filter_append, hall]
    exact List.append_right_eq_self

/-- A halted thread is not polled, and no other thread has its number. -/
theorem visit_keeps_halted {s t : Runner} {v : Visit} {index : Nat} {number : Text}
    (hdistinct : (s.threads.map Thread.number).Nodup) (hhalted : HaltedAt index s)
    (hnumber : (s.threads.map Thread.number)[index]? = some number)
    (h : visit py sender maxReplies s v = some t) :
    HaltedAt index t ∧ sentTo number t = sentTo number s := by
  obtain ⟨thread, hthread, hlive, hset, hforms⟩ := visit_cases h
  have hne : v.index ≠ index := by
    rintro rfl
    rw [HaltedAt, hthread, Option.map_some, hlive] at hhalted
    exact nomatch hhalted
  constructor
  · rwa [HaltedAt, hset, List.getElem?_set_ne hne]
  · have hother : thread.number ≠ number := by
      rintro rfl
      obtain ⟨hlt, -⟩ := List.getElem?_eq_some_iff.mp hnumber
      apply hne
      apply ((List.getElem?_inj hlt hdistinct).mp _).symm
      rw [hnumber, List.getElem?_map, hthread, Option.map_some]
    have hnone : (formsOf (processThread py sender maxReplies v.poll thread).effects).filter
        (fun form => decide (form.toNumber = number)) = [] := by
      apply List.filter_eq_nil_iff.mpr
      intro form hform
      rw [processThread_local hform, decide_eq_true_iff]
      exact hother
    rw [sentTo, sentTo, hforms, List.filter_append, hnone, List.append_nil]

theorem run_keeps_halted {s t : Runner} {visits : List Visit} {index : Nat} {number : Text}
    (hdistinct : (s.threads.map Thread.number).Nodup) (hhalted : HaltedAt index s)
    (hnumber : (s.threads.map Thread.number)[index]? = some number)
    (h : (autoChat py sender maxReplies).run s visits = some t) :
    HaltedAt index t ∧ sentTo number t = sentTo number s := by
  have hkeep := (autoChat py sender maxReplies).run_preserves
    (P := fun u => u.threads.map Thread.number = s.threads.map Thread.number ∧
      HaltedAt index u ∧ sentTo number u = sentTo number s) ?_ ⟨rfl, hhalted, rfl⟩ h
  · exact hkeep.2
  · rintro u v w ⟨hsame, hhalted, hsent⟩ hv
    rw [← hsame] at hdistinct hnumber
    obtain ⟨hhalted', hsent'⟩ := visit_keeps_halted hdistinct hhalted hnumber hv
    exact ⟨(visit_numbers hv).trans hsame, hhalted', hsent'.trans hsent⟩

variable (py sender maxReplies)

/-- In a run from these threads: once a poll has returned a message above the baseline that halts,
the thread is halted, and nothing is sent to its number in that poll or later. -/
def NeverAnswersOptOut (threads : List Thread) (visits : List Visit) : Prop :=
  ∀ before v after s thread, visits = before ++ v :: after →
    (autoChat py sender maxReplies).run { threads := threads } before = some s →
    threads[v.index]? = some thread → ReturnsHalt py thread.lastProcessed v.poll →
    ∀ later rest t, after = later ++ rest →
      (autoChat py sender maxReplies).run s (v :: later) = some t →
      HaltedAt v.index t ∧ sentTo thread.number t = sentTo thread.number s

/-- A poll that returns such a message has one as the latest new message, and its line is
written. -/
def StopsAtHalt (threads : List Thread) (s : Runner) (v : Visit) : Prop :=
  ∀ first thread, threads[v.index]? = some first → s.threads[v.index]? = some thread →
    ReturnsHalt py first.lastProcessed v.poll → Stops py thread v.poll

variable {py sender maxReplies}

/-- A run never answers after an opt-out exactly if no poll hides one behind a later message. -/
theorem neverAnswers_iff {threads : List Thread} {visits : List Visit} {final : Runner}
    (hdistinct : (threads.map Thread.number).Nodup)
    (hrun : (autoChat py sender maxReplies).run { threads := threads } visits = some final) :
    NeverAnswersOptOut py sender maxReplies threads visits ↔
      (autoChat py sender maxReplies).Along (StopsAtHalt py threads) { threads := threads } visits := by
  rw [Machine.along_iff]
  have hsame {before : List Visit} {s : Runner} {index : Nat} {first thread : Thread}
      (hs : (autoChat py sender maxReplies).run { threads := threads } before = some s)
      (hfirst : threads[index]? = some first) (hthread : s.threads[index]? = some thread) :
      first.number = thread.number := by
    have hnumbers := congrArg (·[index]?) (run_numbers hs)
    simp only [List.getElem?_map, hfirst, hthread, Option.map_some] at hnumbers
    exact (Option.some.inj hnumbers).symm
  constructor
  · intro h before v after s hsplit hs first thread hfirst hthread hreturns
    subst hsplit
    obtain ⟨u, hu, hrest⟩ := (Machine.run_append_some _).mp hrun
    obtain rfl := Option.some.inj (hs.symm.trans hu)
    obtain ⟨t, ht, -⟩ := (Machine.run_cons_some _).mp hrest
    have hsilent := h before v after s first rfl hs hfirst hreturns [] after t rfl
      ((Machine.run_singleton _).mpr ht)
    rw [hsame hs hfirst hthread] at hsilent
    exact (visit_silent_iff ht hthread).mp hsilent
  · intro h before v after s first hsplit hs hfirst hreturns later rest u hafter hu
    obtain ⟨t, ht, hu⟩ := (Machine.run_cons_some _).mp hu
    obtain ⟨thread, hthread, -⟩ := visit_cases ht
    have hstops := h before v after s hsplit hs first thread hfirst hthread hreturns
    obtain ⟨hhalted, hsent⟩ := (visit_silent_iff ht hthread).mpr hstops
    have hnumbers := (visit_numbers ht).trans (run_numbers hs)
    have hnumber : (t.threads.map Thread.number)[v.index]? = some first.number := by
      rw [hnumbers, List.getElem?_map, hfirst, Option.map_some]
    have hkept := run_keeps_halted (by rwa [hnumbers]) hhalted hnumber hu
    rw [← hsame hs hfirst hthread] at hsent
    exact ⟨hkept.1, hkept.2.trans hsent⟩

end Runs

/-! ## Two polls -/

def inbound (id : Int) (text : String) : InboxMessage := ⟨id, "inbound".toList, some (Str.ofString text)⟩

/-- A poll where everything works. -/
def polled (messages : List InboxMessage) : Visit :=
  ⟨0, .ok (200, messages), .ok (201, some 100), fun _ => none⟩

/-- A thread whose opener is message 1. -/
def opened : Thread :=
  Thread.ready "+15550001111".toList (some 7) [⟨1, "outbound".toList, none⟩] false

theorem messagesFor_polled {messages : List InboxMessage}
    (h : messages.Pairwise fun m n => decide (m.id ≤ n.id) = true) :
    messagesFor (polled messages).poll = .ok messages :=
  congrArg Except.ok (List.mergeSort_of_pairwise h)

theorem halts_stop : halts Python.plain (inbound 2 "STOP") = true := by decide +kernel

theorem stop_halts : NeverAnswersOptOut Python.plain [] 10 [opened] [polled [inbound 2 "STOP"]] := by
  obtain ⟨final, hfinal⟩ : ∃ final, visit Python.plain [] 10 { threads := [opened] }
      (polled [inbound 2 "STOP"]) = some final := visit_enabled rfl rfl rfl rfl
  have hrun : (autoChat Python.plain [] 10).run { threads := [opened] }
      [polled [inbound 2 "STOP"]] = some final := (Machine.run_singleton _).mpr hfinal
  apply (neverAnswers_iff (by decide) hrun).mpr
  refine ⟨?_, fun _ _ => trivial⟩
  rintro _ _ ⟨⟩ ⟨⟩ -
  exact ⟨_, _, messagesFor_polled (List.pairwise_singleton _ _), rfl, halts_stop, rfl⟩

/-- The opt-out comes with a later message, which is all that is read. -/
theorem stop_then_hello :
    ¬ NeverAnswersOptOut Python.plain [] 10 [opened]
      [polled [inbound 2 "STOP", inbound 3 "hello"]] := by
  intro h
  have hmessages : messagesFor (polled [inbound 2 "STOP", inbound 3 "hello"]).poll =
      .ok [inbound 2 "STOP", inbound 3 "hello"] :=
    messagesFor_polled (List.pairwise_pair.mpr rfl)
  obtain ⟨t, ht⟩ : ∃ t, visit Python.plain [] 10 { threads := [opened] }
      (polled [inbound 2 "STOP", inbound 3 "hello"]) = some t := visit_enabled rfl rfl rfl rfl
  have hreturns : ReturnsHalt Python.plain opened.lastProcessed
      (polled [inbound 2 "STOP", inbound 3 "hello"]).poll :=
    ⟨_, _, hmessages, List.mem_cons_self, rfl, by decide, halts_stop⟩
  have hsilent := h [] _ [] _ opened rfl rfl rfl hreturns [] [] t rfl
    ((Machine.run_singleton _).mpr ht)
  obtain ⟨_, _, hsame, hlatest, hhalts, -⟩ := (visit_silent_iff ht rfl).mp hsilent
  cases hmessages.symm.trans hsame
  cases hlatest
  exact absurd hhalts (by decide +kernel)

end Outreach.Research
