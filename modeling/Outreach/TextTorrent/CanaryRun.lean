import Outreach.TextTorrent.Canary

/-!
# The canary among other clients

Whatever other clients ask between its requests, a report of the canary is about the
message that it sent: no chat and no message is lost, and an id is given once. The
alarm then tells of every change to the text, and of every run without a report.
-/

namespace Outreach.TextTorrent.Canary

open Outreach.Library Outreach.TextTorrent.Client Outreach.TextTorrent.Vendor

set_option autoImplicit false

/-- A canary that sends from the first active number. -/
def sampleConfig : Config where
  recipient := "+16505550100".toList
  fromNumber := none
  nonce := "run-1".toList
  uuid := "3f2b8c1d5e6a4f708192a3b4c5d6e7f8".toList

/-- The vendor at first. -/
def newVendor : FakeTextTorrent := ⟨[], [], .empty, 1000, 5000⟩

theorem newVendor_kept : newVendor.Kept where
  counters := by decide
  chatIds := by rintro chatId chat ⟨⟩
  receivers := by rintro chatId chat ⟨⟩
  messageIds := by rintro chatId chat ⟨⟩

section Delivered

variable {φ : Type} {py : Python φ} {N : Numbers φ}

/-- The message with the id is the one that is read back. -/
theorem delivered_of_mem {messages : List StoredMessage} {m : StoredMessage}
    (hnodup : (messages.map StoredMessage.id).Nodup) (hm : m ∈ messages) :
    delivered py N m.id (messages.reverse.map StoredMessage.members) =
      .ok (Str.ofText m.message) := by
  have hequals : ∀ n : StoredMessage,
      equalsInt N m.id (Members.get n.members "id" .null) = decide (n.id = m.id) := by
    intro n
    simp [Members.get, StoredMessage.members, equalsInt]
  have hfound : (messages.reverse.map StoredMessage.members).find?
      (fun n => equalsInt N m.id (Members.get n "id" .null)) = some m.members := by
    rw [List.find?_map, show (fun n : Members φ => equalsInt N m.id (Members.get n "id" .null)) ∘
      StoredMessage.members = fun n => decide (n.id = m.id) from funext hequals]
    cases hfind : messages.reverse.find? fun n => decide (n.id = m.id) with
    | none =>
      have hnone := List.find?_eq_none.mp hfind m (List.mem_reverse.mpr hm)
      exact absurd (decide_eq_true rfl) hnone
    | some n =>
      have hn : n ∈ messages := List.mem_reverse.mp (List.mem_of_find?_eq_some hfind)
      have hid : n.id = m.id := of_decide_eq_true
        (List.find?_some (p := fun n : StoredMessage => decide (n.id = m.id)) hfind)
      obtain rfl : n = m := List.inj_on_of_nodup_map hnodup hn hm hid
      rfl
  rw [delivered, hfound]
  simp [Members.get, StoredMessage.members, Python.str, text]

end Delivered

section Run

variable {φ : Type} (py : Python φ) (limit : Nat) (N : Numbers φ) (c : Config)
  (rewrite : Text → Text)

/-- The number that the canary sends from. -/
def Config.sender : Text := c.fromNumber.getD activeNumber

/-- No field of the form holds the delimiter, which is made of the digits of a `uuid4`. -/
structure Config.Fresh : Prop where
  hex : ∀ d ∈ c.uuid, d.isAlphanum = true
  recipient : ¬ delimiter ("tt-".toList ++ c.uuid) <:+: c.recipient
  sender : ¬ delimiter ("tt-".toList ++ c.uuid) <:+: c.sender
  nonce : ¬ delimiter ("tt-".toList ++ c.uuid) <:+: c.nonce

/-- The chat is one with the recipient. -/
def Reaches (v : FakeTextTorrent) (chatId : Int) : Prop :=
  ∃ chat, v.chats.get? chatId = some chat ∧ chat.receiver = tenDigits py.unicode c.recipient

/-- The chat holds what the vendor made of the canary's text. -/
def Holds (v : FakeTextTorrent) (chatId messageId : Int) : Prop :=
  ∃ chat, v.chats.get? chatId = some chat ∧ chat.receiver = tenDigits py.unicode c.recipient ∧
    ∃ m ∈ chat.messages, m.id = messageId ∧ m.message = rewrite (canaryBody c.nonce) ∧
      m.fromNumber = c.sender ∧ m.toNumber = c.recipient

/-- What the handler knows of the vendor, where it is. -/
def Phase.Knows (v : FakeTextTorrent) : Phase → Prop
  | .listing => c.fromNumber = none
  | .creating sender => sender = Str.ofText c.sender
  | .searching sender =>
      sender = Str.ofText c.sender ∧ (tenDigits py.unicode c.recipient).length = 10
  | .sending sender chatId => sender = Str.ofText c.sender ∧ Reaches py c v chatId
  | .reading chatId messageId => Holds py c rewrite v chatId messageId
  | .done report => Holds py c rewrite v report.chatId report.messageId ∧
      report.submitted = canaryBody c.nonce ∧
      report.delivered = Str.ofText (rewrite (canaryBody c.nonce)) ∧
      (report.identical = true ↔ rewrite (canaryBody c.nonce) = canaryBody c.nonce)
  | .failed _ => True

variable {py limit N c rewrite} {v v' : FakeTextTorrent} {response : HttpResponse}

theorem Reaches.grows {chatId : Int} (h : Reaches py c v chatId) (hgrows : Grows v v') :
    Reaches py c v' chatId := by
  obtain ⟨chat, hchat, hreceiver⟩ := h
  obtain ⟨chat', hchat', hsame, -⟩ := hgrows chatId chat hchat
  exact ⟨chat', hchat', hsame.trans hreceiver⟩

theorem Holds.grows {chatId messageId : Int} (h : Holds py c rewrite v chatId messageId)
    (hgrows : Grows v v') : Holds py c rewrite v' chatId messageId := by
  obtain ⟨chat, hchat, hreceiver, m, hm, hstored⟩ := h
  obtain ⟨chat', hchat', hsame, hprefix⟩ := hgrows chatId chat hchat
  exact ⟨chat', hchat', hsame.trans hreceiver, m, hprefix.subset hm, hstored⟩

/-- What other clients do takes nothing of it away. -/
theorem Phase.Knows.grows {phase : Phase} (h : phase.Knows py c rewrite v) (hgrows : Grows v v') :
    phase.Knows py c rewrite v' := by
  cases phase with
  | listing => exact h
  | creating sender => exact h
  | searching sender => exact h
  | sending sender chatId => exact ⟨h.1, h.2.grows hgrows⟩
  | reading chatId messageId => exact Holds.grows h hgrows
  | done report => exact ⟨h.1.grows hgrows, h.2⟩
  | failed failure => trivial

/-- The body of the `create_chat` request comes back as it was sent. -/
theorem loads_chatRequest :
    Json.loads py.floats limit (Str.ofText (Json.dumps py.floats
      (c.chatRequest py (Str.ofText c.sender)))) =
        if 1 ≤ limit then .ok (c.chatRequest py (Str.ofText c.sender)) else .error .recursion := by
  have hkeys : [Str.ofString "receiver_number", Str.ofString "sender_id"].Nodup :=
    nodup_keys ["receiver_number", "sender_id"] (by decide)
  have hplain : Json.Plain (c.chatRequest py (Str.ofText c.sender)) :=
    ⟨hkeys, Json.joined_ofString _, Json.joined_ofText _, Json.joined_ofString _,
      Json.joined_ofText _, trivial⟩
  exact hplain.loads_dumps py.floats ⟨trivial, trivial, trivial⟩

theorem receiver_chatRequest (sender : Str) :
    field py (c.chatRequest py sender) "receiver_number" =
      some (Str.ofText (tenDigits py.unicode c.recipient)) := rfl

theorem creating_keeps {sender : Str} {phase : Phase} (hsender : sender = Str.ofText c.sender)
    (hanswer : chatCreate py limit v (Json.dumps py.floats (c.chatRequest py sender)) =
      some (response, v'))
    (hphase : (Phase.creating sender).receive py limit N c response = .ok phase) :
    phase.Knows py c rewrite v' := by
  obtain ⟨payload, receiver, hloads, hreceiver, hten, hcases⟩ := chatCreate_cases hanswer
  obtain rfl : c.chatRequest py sender = payload := by
    rw [hsender, loads_chatRequest] at hloads
    split at hloads
    · exact hsender ▸ Except.ok.inj hloads
    · cases hloads
  obtain rfl : Str.ofText (tenDigits py.unicode c.recipient) = receiver :=
    Option.some.inj ((receiver_chatRequest sender).symm.trans hreceiver)
  rw [Str.shown_ofText] at hten hcases
  obtain ⟨found, hfound, hphase⟩ := bind_eq_ok.mp hphase
  obtain ⟨rfl, henvelope⟩ | ⟨rfl, henvelope⟩ | ⟨sender', rfl, henvelope⟩ := hcases
  · exact absurd hfound (createdChat_blacklisted henvelope)
  · rw [createdChat_started henvelope] at hfound
    cases hfound
    cases hphase
    exact ⟨hsender, hten⟩
  · rw [createdChat_created henvelope] at hfound
    cases hfound
    cases hphase
    refine ⟨hsender, _, (Dict.get?_set _ _ _ _).trans (if_pos rfl), rfl⟩

theorem searching_keeps {sender : Str} {phase : Phase} (hkept : v.Kept)
    (hknows : (Phase.searching sender).Knows py c rewrite v)
    (hanswer : inboxSearch py limit v (tenDigits py.unicode c.recipient) = some response)
    (hphase : (Phase.searching sender).receive py limit N c response = .ok phase) :
    phase.Knows py c rewrite v := by
  obtain ⟨hsender, hten⟩ := hknows
  obtain ⟨found, hfound, hphase⟩ := bind_eq_ok.mp hphase
  rw [foundChatId_search hanswer] at hfound
  cases hfound
  cases hfind : v.chats.entries.find? fun chat =>
      hasInfix (tenDigits py.unicode c.recipient) chat.2.receiver with
  | none =>
    rw [hfind] at hphase
    cases hphase
  | some row =>
    rw [hfind] at hphase
    cases hphase
    have hget : v.chats.get? row.1 = some row.2 :=
      Dict.get?_eq_some.mpr (List.mem_of_find?_eq_some hfind)
    -- a text of ten digits within one of ten digits is the same text
    have hwithin : tenDigits py.unicode c.recipient <:+: row.2.receiver :=
      hasInfix_iff.mp (List.find?_some (p := fun chat : Int × Chat =>
        hasInfix (tenDigits py.unicode c.recipient) chat.2.receiver) hfind)
    have hlength := hkept.receivers row.1 row.2 hget
    exact ⟨hsender, row.2, hget, (hwithin.eq_of_length (hten.trans hlength.symm)).symm⟩

section Form

theorem Config.Fresh.boundary (h : c.Fresh) :
    Boundary ("tt-".toList ++ c.uuid) ∧ ' ' ∉ delimiter ("tt-".toList ++ c.uuid) := by
  have hchars : ∀ d ∈ "tt-".toList ++ c.uuid, d = 't' ∨ d = '-' ∨ d.isAlphanum = true := by
    intro d hd
    rcases List.mem_append.mp hd with hfixed | huuid
    · have htt : "tt-".toList = ['t', 't', '-'] := rfl
      simp only [htt, List.mem_cons, List.not_mem_nil, or_false] at hfixed
      rcases hfixed with rfl | rfl | rfl
      · exact Or.inl rfl
      · exact Or.inl rfl
      · exact Or.inr (Or.inl rfl)
    · exact Or.inr (Or.inr (h.hex d huuid))
  have hout {d : Char} (hd : ¬ (d = 't' ∨ d = '-' ∨ d.isAlphanum = true)) :
      d ∉ "tt-".toList ++ c.uuid := fun hmem => hd (hchars d hmem)
  refine ⟨⟨List.cons_ne_nil 't' _, hout (by decide), hout (by decide), hout (by decide)⟩, ?_⟩
  simp only [delimiter, List.mem_cons, not_or]
  exact ⟨by decide, by decide, hout (by decide)⟩

/-- The text around the nonce holds no two dashes in a row. -/
theorem Config.Fresh.body (h : c.Fresh) :
    ¬ delimiter ("tt-".toList ++ c.uuid) <:+: canaryBody c.nonce := by
  have hdashes {t : Text} (hwithin : delimiter ("tt-".toList ++ c.uuid) <:+: t) :
      ['-', '-'] <:+: t := (List.IsPrefix.isInfix ⟨"tt-".toList ++ c.uuid, rfl⟩).trans hwithin
  have hhead : canaryHead = canaryHead.dropLast ++ [' '] := by decide +kernel
  have hone : ¬ ['-', '-'] <:+: canaryHead.dropLast := by decide +kernel
  obtain ⟨htail, hnone⟩ : canaryTail = ' ' :: canaryTail.tail ∧ '-' ∉ canaryTail.tail := by
    decide +kernel
  rw [canaryBody, hhead, htail, List.append_assoc, List.append_assoc, List.singleton_append]
  exact not_infix_append_cons h.boundary.2 (fun hwithin => hone (hdashes hwithin))
    (not_infix_append_cons h.boundary.2 h.nonce fun hwithin =>
      hnone ((hdashes hwithin).subset List.mem_cons_self))

theorem Config.Fresh.form (h : c.Fresh) (chatId : Int) :
    ∀ field ∈ c.form c.sender chatId, Fits ("tt-".toList ++ c.uuid) field := by
  have hnames : ∀ name ∈ ["message".toList, "chat_id".toList, "from_number".toList,
      "to_number".toList], name ≠ [] ∧ '"' ∉ name ∧ '\r' ∉ name ∧ '-' ∉ name := by decide +kernel
  have hfits {field : Text × Text} (hname : field.1 ∈ ["message".toList, "chat_id".toList,
      "from_number".toList, "to_number".toList])
      (hvalue : ¬ delimiter ("tt-".toList ++ c.uuid) <:+: field.2) :
      Fits ("tt-".toList ++ c.uuid) field := by
    obtain ⟨hne, hquote, hline, hdash⟩ := hnames field.1 hname
    exact ⟨hne, hquote, hline, fun hwithin => hdash (hwithin.subset List.mem_cons_self), hvalue⟩
  have hdigits : 't' ∉ Json.intText chatId := by
    have hdigit : 't' ∉ Nat.toDigits 10 chatId.natAbs := fun hmem =>
      absurd (Json.toDigits_isDigit _ _ hmem) (by decide)
    unfold Json.intText
    split
    · exact fun hmem => (List.mem_cons.mp hmem).elim (by decide) hdigit
    · exact hdigit
  have hchatId : ¬ delimiter ("tt-".toList ++ c.uuid) <:+: Json.intText chatId := fun hwithin =>
    hdigits (hwithin.subset (by simp [delimiter]))
  rw [Config.form]
  simp only [List.forall_mem_cons]
  exact ⟨hfits (by simp) h.body, hfits (by simp) hchatId, hfits (by simp) h.sender,
    hfits (by simp) h.recipient, List.forall_mem_nil _⟩

end Form

/-- The vendor takes out of the form what the client put in. -/
theorem form_fields (hfresh : c.Fresh) (chatId : Int) : ∃ fields,
    parseMultipart (multipart c.uuid (c.form c.sender chatId)).1
      (multipart c.uuid (c.form c.sender chatId)).2 = some fields ∧
    fields.get? "chat_id".toList = some (Json.intText chatId) ∧
    fields.get? "message".toList = some (canaryBody c.nonce) ∧
    fields.get? "from_number".toList = some c.sender ∧
    fields.get? "to_number".toList = some c.recipient := by
  have hnodup : ((c.form c.sender chatId).map Prod.fst).Nodup := by
    have hnames : ["message".toList, "chat_id".toList, "from_number".toList,
        "to_number".toList].Nodup := by decide +kernel
    exact hnames
  have hget (key value : Text) (h : (key, value) ∈ c.form c.sender chatId) :
      (Dict.ofList (c.form c.sender chatId)).get? key = some value := by
    rw [Dict.get?_ofList hnodup]
    exact (Dict.lookup_eq_some hnodup).mpr h
  exact ⟨_, parseMultipart_formBody hfresh.boundary.1 (hfresh.form chatId),
    hget _ _ (by simp [Config.form]), hget _ _ (by simp [Config.form]),
    hget _ _ (by simp [Config.form]), hget _ _ (by simp [Config.form])⟩

theorem sending_keeps {sender : Str} {chatId : Int} {phase : Phase} (hfresh : c.Fresh)
    (hknows : (Phase.sending sender chatId).Knows py c rewrite v)
    (hanswer : send py limit v rewrite (multipart c.uuid (c.form sender.shown chatId)).2
      (multipart c.uuid (c.form sender.shown chatId)).1 = some (response, v'))
    (hphase : (Phase.sending sender chatId).receive py limit N c response = .ok phase) :
    phase.Knows py c rewrite v' := by
  obtain ⟨rfl, chat, hchat, hreceiver⟩ := hknows
  rw [Str.shown_ofText] at hanswer
  obtain ⟨fields, number, chatId', chat', submitted, fromNumber, toNumber, hfields, hnumber,
    hchatId, hchat', hsubmitted, hfrom, hto, rfl, henvelope⟩ := send_cases hanswer
  obtain ⟨fields', hparsed, hid, hbody, hsender, hrecipient⟩ := form_fields hfresh chatId
  obtain rfl : fields' = fields := Option.some.inj (hparsed.symm.trans hfields)
  obtain rfl : canaryBody c.nonce = submitted := Option.some.inj (hbody.symm.trans hsubmitted)
  obtain rfl : Json.intText chatId = number := Option.some.inj (hid.symm.trans hnumber)
  obtain rfl : c.sender = fromNumber := Option.some.inj (hsender.symm.trans hfrom)
  obtain rfl : c.recipient = toNumber := Option.some.inj (hrecipient.symm.trans hto)
  obtain rfl : chatId' = chatId := Json.intOf_intText_eq hchatId
  obtain rfl : chat = chat' := Option.some.inj (hchat.symm.trans hchat')
  obtain ⟨messageId, hmessageId, hphase⟩ := bind_eq_ok.mp hphase
  rw [sentId_sent henvelope] at hmessageId
  cases hmessageId
  cases hphase
  exact ⟨_, (Dict.get?_set _ _ _ _).trans (if_pos rfl), hreceiver, _,
    List.mem_append_right _ List.mem_cons_self, rfl, rfl, rfl, rfl⟩

theorem reading_keeps {chatId messageId : Int} {phase : Phase} (hkept : v.Kept)
    (hknows : (Phase.reading chatId messageId).Knows py c rewrite v)
    (hanswer : chatDetails py limit v chatId = some response)
    (hphase : (Phase.reading chatId messageId).receive py limit N c response = .ok phase) :
    phase.Knows py c rewrite v := by
  obtain ⟨chat, hchat, hreceiver, m, hm, rfl, hmessage, hnumbers⟩ := hknows
  obtain ⟨messages, hmessages, hphase⟩ := bind_eq_ok.mp hphase
  rw [chatMessages_details hchat hanswer] at hmessages
  cases hmessages
  rw [report, delivered_of_mem (hkept.messageIds chatId chat hchat).1 hm] at hphase
  cases hphase
  refine ⟨⟨chat, hchat, hreceiver, m, hm, rfl, hmessage, hnumbers⟩, rfl, ?_, ?_⟩
  · exact congrArg Str.ofText hmessage
  · show decide (Str.ofText m.message = Str.ofText (canaryBody c.nonce)) = true ↔ _
    rw [decide_eq_true_iff, hmessage]
    exact ⟨Str.ofText_injective, congrArg Str.ofText⟩

theorem request_of_receive {phase phase' : Phase} {call : Call}
    (hcall : phase.call py c = some (.ok call))
    (h : phase.receive py limit N c response = .ok phase') :
    ∃ envelope, request py limit response = .ok envelope := by
  cases phase with
  | done report => cases hcall
  | failed failure => cases hcall
  | _ =>
    obtain ⟨_, h, -⟩ := bind_eq_ok.mp h
    obtain ⟨envelope, henvelope, -⟩ := bind_eq_ok.mp h
    exact ⟨envelope, henvelope⟩

/-- Each request of the handler leads to where its next one is made for the same recipient. -/
theorem answer_keeps {phase phase' : Phase} {call : Call} (hfresh : c.Fresh) (hkept : v.Kept)
    (hknows : phase.Knows py c rewrite v) (hcall : phase.call py c = some (.ok call))
    (hanswer : handle py limit v rewrite call = some (response, v'))
    (hphase : phase.receive py limit N c response = .ok phase') :
    phase'.Knows py c rewrite v' := by
  unfold handle at hanswer
  split at hanswer
  · cases hanswer
    obtain ⟨envelope, henvelope⟩ := request_of_receive hcall hphase
    exact absurd henvelope request_html
  · cases phase with
    | listing =>
      cases hcall
      obtain ⟨answer, hnumbers, hsame⟩ := Option.map_eq_some_iff.mp hanswer
      cases hsame
      obtain ⟨sender, hsender, hphase⟩ := bind_eq_ok.mp hphase
      rw [firstActive_numbers hnumbers] at hsender
      cases hsender
      cases hphase
      show Str.ofText activeNumber = Str.ofText (c.fromNumber.getD activeNumber)
      rw [show c.fromNumber = none from hknows, Option.getD_none]
    | creating sender =>
      cases hcall
      exact creating_keeps hknows hanswer hphase
    | searching sender =>
      cases hcall
      obtain ⟨answer, hrows, hsame⟩ := Option.map_eq_some_iff.mp hanswer
      cases hsame
      exact searching_keeps hkept hknows hrows hphase
    | sending sender chatId =>
      rw [Phase.call] at hcall
      split at hcall
      · cases hcall
        exact sending_keeps hfresh hknows hanswer hphase
      · cases hcall
    | reading chatId messageId =>
      cases hcall
      obtain ⟨answer, hdetails, hsame⟩ := Option.map_eq_some_iff.mp hanswer
      cases hsame
      exact reading_keeps hkept hknows hdetails hphase
    | done report => cases hcall
    | failed failure => cases hcall

variable {w w' : World} {e : Event}

theorem step_keeps (hfresh : c.Fresh) (hkept : w.vendor.Kept)
    (hknows : w.phase.Knows py c rewrite w.vendor)
    (h : (canary py limit N c rewrite).step w e = some w') :
    w'.vendor.Kept ∧ w'.phase.Knows py c rewrite w'.vendor := by
  cases e with
  | client call =>
    obtain ⟨answer, hanswer, rfl⟩ := Option.map_eq_some_iff.mp h
    obtain ⟨hkept', hgrows⟩ := handle_keeps hkept hanswer
    exact ⟨hkept', hknows.grows hgrows⟩
  | canary =>
    change World.step py limit N c rewrite w .canary = some w' at h
    rw [World.step] at h
    split at h
    · cases h
    · cases h
      exact ⟨hkept, trivial⟩
    · rename_i call hcall
      split at h
      · cases h
        exact ⟨hkept, trivial⟩
      · rename_i response vendor hanswer
        cases h
        refine ⟨(handle_keeps hkept hanswer).1, ?_⟩
        cases hphase : w.phase.receive py limit N c response with
        | error failure => trivial
        | ok phase => exact answer_keeps hfresh hkept hknows hcall hanswer hphase

theorem run_keeps {events : List Event} (hfresh : c.Fresh) (hkept : v.Kept)
    (hrun : (canary py limit N c rewrite).run ⟨v, c.start⟩ events = some w') :
    w'.vendor.Kept ∧ w'.phase.Knows py c rewrite w'.vendor := by
  have hstart : c.start.Knows py c rewrite v := by
    rw [Config.start]
    cases hnumber : c.fromNumber with
    | none => exact hnumber
    | some number =>
      show Str.ofText number = Str.ofText (c.fromNumber.getD activeNumber)
      rw [hnumber, Option.getD_some]
  exact (canary py limit N c rewrite).run_preserves
    (P := fun w => w.vendor.Kept ∧ w.phase.Knows py c rewrite w.vendor)
    (fun w e w' hw hstep => step_keeps hfresh hw.1 hw.2 hstep) ⟨hkept, hstart⟩ hrun

/-- The one value of the day tells whether the text was kept. -/
theorem alarm_done {report : Report} (hknows : (Phase.done report).Knows py c rewrite v) :
    rewriteCanaryAlarm (Phase.done report).metric.toList = false ↔
      rewrite (canaryBody c.nonce) = canaryBody c.nonce := by
  obtain ⟨-, -, -, hidentical⟩ := hknows
  have hquiet : rewriteCanaryAlarm (Phase.done report).metric.toList = !report.identical := by
    cases hsame : report.identical <;> simp [Phase.metric, rewriteCanaryAlarm, hsame]
  rw [hquiet, Bool.not_eq_false', hidentical]

theorem sampleConfig_fresh : sampleConfig.Fresh where
  hex := List.all_eq_true.mp (by decide +kernel)
  recipient := by decide +kernel
  sender := by decide +kernel
  nonce := by decide +kernel

end Run

/-! ## A canary on its own -/

section Alone

variable {φ : Type} {py : Python φ} {limit : Nat} {N : Numbers φ} {c : Config}
  {rewrite : Text → Text} {v v' : FakeTextTorrent} {response : HttpResponse}

/-- The vendor rejects nothing, and has given no id that is too long for a text. -/
structure Serving (v : FakeTextTorrent) : Prop where
  answers : v.rejectStatuses = []
  chatIds : v.nextChatId.toNat < 10 ^ Json.maxStrDigits
  messageIds : v.nextMessageId.toNat < 10 ^ Json.maxStrDigits

theorem short_of_le {m n : Int} (hpos : 0 < m) (hle : m ≤ n)
    (h : n.toNat < 10 ^ Json.maxStrDigits) : Json.Short (φ := φ) (.int m) := by
  have hnat : m.natAbs ≤ n.toNat := by omega
  exact Json.short_int (hnat.trans_lt h)

theorem envelope_writes {status : Nat} {success : Bool} {message : String} {data : JsonValue φ}
    (hstatus : Json.Short (φ := φ) (.int status)) (hdepth : Json.depth data < limit)
    (hshort : Json.Short data) :
    ∃ response, envelope py limit status success message data = some response := by
  have hbody : Json.depth (envelopeBody status success message data) = Json.depth data + 1 := by
    simp [envelopeBody, entry, text, Json.depth, Json.depthMembers]
  have hwritten : Json.Short (envelopeBody status success message data) :=
    ⟨hstatus, trivial, trivial, hshort, trivial, trivial⟩
  exact ⟨_, Option.map_eq_some_iff.mpr ⟨_, if_pos ⟨hbody ▸ hdepth, hwritten⟩, rfl⟩⟩

theorem step_of_answer {phase phase' : Phase} {call : Call}
    (hcall : phase.call py c = some (.ok call))
    (hanswer : handle py limit v rewrite call = some (response, v'))
    (hphase : phase.receive py limit N c response = .ok phase') :
    (canary py limit N c rewrite).step ⟨v, phase⟩ .canary = some ⟨v', phase'⟩ := by
  show World.step py limit N c rewrite ⟨v, phase⟩ .canary = _
  rw [World.step]
  simp only [hcall, hanswer, hphase, Phase.settle]

theorem handle_serving (h : Serving v) (call : Call) :
    handle py limit v rewrite call = endpoint py limit v rewrite call := by
  unfold handle
  rw [h.answers]

theorem short_small {n : Int} (hpos : 0 ≤ n) (h : n < 1000) : Json.Short (φ := φ) (.int n) := by
  refine Json.short_int (Nat.lt_of_lt_of_le (m := 10 ^ 3) (by omega) ?_)
  exact Nat.pow_le_pow_right (by decide) (by decide)

theorem depth_page (rows : List (JsonValue φ)) :
    Json.depth (.object [entry "current_page" (.int 1), entry "data" (.array rows)]) =
      Json.depthItems rows + 2 := by
  simp [entry, Json.depth, Json.depthMembers]

theorem listing_steps (hlimit : 5 ≤ limit) (hserving : Serving v) :
    (canary py limit N c rewrite).step ⟨v, .listing⟩ .canary =
      some ⟨v, .creating (Str.ofText activeNumber)⟩ := by
  have hone : Json.Short (φ := φ) (.int 1) := short_small (by decide) (by decide)
  obtain ⟨response, hresponse⟩ : ∃ response, numbersActive py limit = some response := by
    refine envelope_writes (short_small (by decide) (by decide)) ?_
      ⟨hone, ⟨⟨hone, trivial, trivial⟩, trivial⟩, trivial⟩
    simp only [entry, text, Json.depth, Json.depthMembers, Json.depthItems]
    omega
  refine step_of_answer rfl ((handle_serving hserving _).trans ?_)
    (bind_eq_ok.mpr ⟨_, firstActive_numbers hresponse, rfl⟩)
  rw [endpoint, hresponse, Option.map_some]

theorem fullMatch_tenDigits {phone : Text} (h : (tenDigits py.unicode phone).length = 10) :
    fullMatch py (Str.ofText (tenDigits py.unicode phone)) = true := by
  have hdecimal : ∀ d ∈ tenDigits py.unicode phone, py.unicode.decimal d = true :=
    fun d hd => (List.mem_filter.mp (List.mem_of_mem_drop hd)).2
  rw [fullMatch, Bool.and_eq_true, decide_eq_true_iff, Str.ofText, List.length_map, List.all_map]
  exact ⟨h, List.all_eq_true.mpr hdecimal⟩

/-- The recipient has ten digits, and has not opted out. -/
structure Allowed (py : Python φ) (c : Config) (v : FakeTextTorrent) : Prop where
  ten : (tenDigits py.unicode c.recipient).length = 10
  listed : ∀ raw ∈ v.optOuts, tenDigits py.unicode c.recipient ≠ tenDigits py.unicode raw

/-- The answer of the envelope, with the state `v`. -/
theorem chatCreate_allowed (hlimit : 5 ≤ limit) (hallowed : Allowed py c v) :
    chatCreate py limit v (Json.dumps py.floats (c.chatRequest py (Str.ofText c.sender))) =
      if v.chats.values.any fun chat => chat.receiver = tenDigits py.unicode c.recipient then
        (envelope py limit 404 false alreadyStarted .null).map (·, v)
      else (envelope py limit 201 true "Chat started successfully." (.object
        [entry "id" (.int (v.nextChatId + 1)), entry "user_id" (.int 1),
          entry "contact_id" (.int (v.nextChatId + 1)), entry "last_message" .null])).map (·,
            { v with
              nextChatId := v.nextChatId + 1
              chats := v.chats.set (v.nextChatId + 1)
                ⟨tenDigits py.unicode c.recipient, Str.ofText c.sender, []⟩ }) := by
  have hloads : Json.loads py.floats limit (Str.ofText (Json.dumps py.floats
      (c.chatRequest py (Str.ofText c.sender)))) =
        .ok (c.chatRequest py (Str.ofText c.sender)) := by
    rw [loads_chatRequest, if_pos (by omega)]
  have hblocked : (v.optOuts.any fun raw =>
      tenDigits py.unicode c.recipient = tenDigits py.unicode raw) = false := by
    simpa using hallowed.listed
  have hsender : field py (c.chatRequest py (Str.ofText c.sender)) "sender_id" =
      some (Str.ofText c.sender) := rfl
  rw [chatCreate, hloads]
  simp only [Except.toOption, receiver_chatRequest, hsender, bind, Option.bind_some, guard,
    fullMatch_tenDigits hallowed.ten, if_true, Str.shown_ofText, hblocked, pure]
  rw [if_neg Bool.false_ne_true]
  split
  · exact Option.map_eq_bind.symm
  · exact Option.map_eq_bind.symm

variable (N rewrite) in
/-- The request for a chat tells that there is one, or makes it. -/
theorem creating_steps (hlimit : 5 ≤ limit) (hkept : v.Kept) (hserving : Serving v)
    (hallowed : Allowed py c v) (hroom : (v.nextChatId + 1).toNat < 10 ^ Json.maxStrDigits) :
    ((∃ chat ∈ v.chats.values, chat.receiver = tenDigits py.unicode c.recipient) ∧
      (canary py limit N c rewrite).step ⟨v, .creating (Str.ofText c.sender)⟩ .canary =
        some ⟨v, .searching (Str.ofText c.sender)⟩) ∨
    ∃ v' chatId, (canary py limit N c rewrite).step ⟨v, .creating (Str.ofText c.sender)⟩ .canary =
      some ⟨v', .sending (Str.ofText c.sender) chatId⟩ ∧ Serving v' ∧
        v'.nextMessageId = v.nextMessageId := by
  have hanswer := chatCreate_allowed hlimit hallowed
  have hcall : (Phase.creating (Str.ofText c.sender)).call py c = some (.ok (.createChat
      (Json.dumps py.floats (c.chatRequest py (Str.ofText c.sender))))) := rfl
  by_cases hstarted : (v.chats.values.any fun chat =>
      chat.receiver = tenDigits py.unicode c.recipient) = true
  · rw [if_pos hstarted] at hanswer
    obtain ⟨response, hresponse⟩ : ∃ response,
        envelope py limit 404 false alreadyStarted .null = some response :=
      envelope_writes (short_small (by decide) (by decide))
        (Nat.lt_of_lt_of_le (Nat.succ_pos 4) hlimit) trivial
    rw [hresponse, Option.map_some] at hanswer
    have hfound : ∃ chat ∈ v.chats.values, chat.receiver = tenDigits py.unicode c.recipient := by
      simpa using hstarted
    exact Or.inl ⟨hfound, step_of_answer hcall ((handle_serving hserving _).trans hanswer)
      (bind_eq_ok.mpr ⟨_, createdChat_started hresponse, rfl⟩)⟩
  · rw [if_neg hstarted] at hanswer
    have hid : Json.Short (φ := φ) (.int (v.nextChatId + 1)) :=
      short_of_le (Int.lt_add_one_of_le hkept.counters.1) (Int.le_refl _) hroom
    obtain ⟨response, hresponse⟩ : ∃ response, envelope py limit 201 true
        "Chat started successfully." (.object [entry "id" (.int (v.nextChatId + 1)),
          entry "user_id" (.int 1), entry "contact_id" (.int (v.nextChatId + 1)),
          entry "last_message" .null]) = some response := by
      refine envelope_writes (short_small (by decide) (by decide)) ?_
        ⟨hid, short_small (by decide) (by decide), hid, trivial, trivial⟩
      simp only [entry, Json.depth, Json.depthMembers]
      omega
    rw [hresponse, Option.map_some] at hanswer
    exact Or.inr ⟨_, _, step_of_answer hcall ((handle_serving hserving _).trans hanswer)
      (bind_eq_ok.mpr ⟨_, createdChat_created hresponse, rfl⟩),
        ⟨hserving.answers, hroom, hserving.messageIds⟩, rfl⟩

variable (N rewrite) in
/-- A chat with the recipient is found. -/
theorem searching_steps (hlimit : 5 ≤ limit) (hkept : v.Kept) (hserving : Serving v)
    (hchat : ∃ chat ∈ v.chats.values, chat.receiver = tenDigits py.unicode c.recipient) :
    ∃ chatId, (canary py limit N c rewrite).step ⟨v, .searching (Str.ofText c.sender)⟩ .canary =
      some ⟨v, .sending (Str.ofText c.sender) chatId⟩ := by
  obtain ⟨response, hresponse⟩ : ∃ response,
      inboxSearch py limit v (tenDigits py.unicode c.recipient) = some response := by
    have hrow : ∀ row ∈ (v.chats.entries.filter fun chat =>
        hasInfix (tenDigits py.unicode c.recipient) chat.2.receiver).map fun chat =>
          JsonValue.object (φ := φ) [entry "chat_id" (.int chat.1),
            entry "number" (text ("+1".toList ++ chat.2.receiver))],
        Json.Short row ∧ Json.depth row ≤ 1 := by
      intro row hrow
      obtain ⟨chat, hchat, rfl⟩ := List.mem_map.mp hrow
      have hids := hkept.chatIds chat.1 chat.2
        (Dict.get?_eq_some.mpr (List.mem_of_mem_filter hchat))
      exact ⟨⟨short_of_le hids.1 hids.2 hserving.chatIds, trivial, trivial⟩, Nat.le_refl 1⟩
    have hdepth := Json.depthItems_le fun row h => (hrow row h).2
    refine envelope_writes (short_small (by decide) (by decide)) ?_
      ⟨short_small (by decide) (by decide),
        Json.shortItems_iff.mpr fun row h => (hrow row h).1, trivial⟩
    rw [depth_page]
    omega
  obtain ⟨chat, hchat, hreceiver⟩ := hchat
  obtain ⟨chatId, hget⟩ := Dict.mem_values.mp hchat
  cases hfind : v.chats.entries.find? fun chat =>
      hasInfix (tenDigits py.unicode c.recipient) chat.2.receiver with
  | none =>
    have hnone := List.find?_eq_none.mp hfind (chatId, chat) (Dict.get?_eq_some.mp hget)
    exact absurd (hasInfix_iff.mpr (hreceiver ▸ List.infix_refl _)) hnone
  | some row =>
    have hfound := foundChatId_search (N := N) hresponse
    rw [hfind, Option.map_some] at hfound
    refine ⟨row.1, step_of_answer rfl ((handle_serving hserving _).trans ?_)
      (bind_eq_ok.mpr ⟨_, hfound, rfl⟩)⟩
    rw [endpoint, hresponse, Option.map_some]

variable (N rewrite) in
theorem sending_steps (hlimit : 5 ≤ limit) (hfresh : c.Fresh) (hkept : v.Kept)
    (hserving : Serving v) {chatId : Int} (hchat : Reaches py c v chatId)
    (hroom : (v.nextMessageId + 1).toNat < 10 ^ Json.maxStrDigits) :
    ∃ v' messageId, (canary py limit N c rewrite).step
      ⟨v, .sending (Str.ofText c.sender) chatId⟩ .canary =
        some ⟨v', .reading chatId messageId⟩ ∧ Serving v' := by
  obtain ⟨chat, hget, hreceiver⟩ := hchat
  obtain ⟨fields, hfields, hnumber, hbody, hsender, hrecipient⟩ := form_fields hfresh chatId
  have hids := hkept.chatIds chatId chat hget
  have hshort : Json.Short (φ := φ) (.int chatId) := short_of_le hids.1 hids.2 hserving.chatIds
  have hmessageId : Json.Short (φ := φ) (.int (v.nextMessageId + 1)) :=
    short_of_le (Int.lt_add_one_of_le hkept.counters.2) (Int.le_refl _) hroom
  obtain ⟨response, hresponse⟩ : ∃ response, envelope py limit 201 true
      "Message send successfully" (.object [entry "id" (.int (v.nextMessageId + 1)),
        entry "chat_id" (.int chatId), entry "direction" (text "outbound".toList)]) =
          some response := by
    refine envelope_writes (short_small (by decide) (by decide)) ?_
      ⟨hmessageId, hshort, trivial, trivial⟩
    simp only [entry, text, Json.depth, Json.depthMembers]
    omega
  have htype : "multipart/form-data".toList <+: "multipart/form-data; boundary=".toList := by
    decide +kernel
  have hform : ("multipart/form-data".toList.isPrefixOf
      (multipart c.uuid (c.form c.sender chatId)).2) = true :=
    List.isPrefixOf_iff_prefix.mpr (htype.trans (List.prefix_append _ _))
  have hintOf : Json.intOf (Json.intText chatId) = some chatId := Json.intOf_intText hshort
  have hanswer : ∃ v', send py limit v rewrite (multipart c.uuid (c.form c.sender chatId)).2
      (multipart c.uuid (c.form c.sender chatId)).1 = some (response, v') ∧ Serving v' := by
    rw [send]
    simp only [hform, hfields, hnumber, hintOf, hget, hbody, hsender, hrecipient, hresponse, guard,
      if_true, bind, Option.bind_some, pure]
    exact ⟨_, rfl, hserving.answers, hserving.chatIds, hroom⟩
  obtain ⟨v', hanswer, hserving'⟩ := hanswer
  have hcall : (Phase.sending (Str.ofText c.sender) chatId).call py c = some (.ok (.send
      (multipart c.uuid (c.form c.sender chatId)).2
      (multipart c.uuid (c.form c.sender chatId)).1)) := by
    have hencodable : (Str.ofText c.sender).encodable = true :=
      List.all_eq_true.mpr fun ch hch => by
        obtain ⟨d, -, rfl⟩ := List.mem_map.mp hch
        rfl
    rw [Phase.call, if_pos hencodable, Str.shown_ofText]
  exact ⟨v', _, step_of_answer hcall ((handle_serving hserving _).trans hanswer)
    (bind_eq_ok.mpr ⟨_, sentId_sent hresponse, rfl⟩), hserving'⟩

variable (N) in
theorem reading_steps (hlimit : 5 ≤ limit) (hkept : v.Kept) (hserving : Serving v)
    {chatId messageId : Int} (hholds : Holds py c rewrite v chatId messageId) :
    ∃ report, (canary py limit N c rewrite).step ⟨v, .reading chatId messageId⟩ .canary =
      some ⟨v, .done report⟩ := by
  obtain ⟨chat, hget, -, m, hm, rfl, -⟩ := hholds
  obtain ⟨hnodup, hmessages⟩ := hkept.messageIds chatId chat hget
  have hids := hkept.chatIds chatId chat hget
  have hshort : Json.Short (φ := φ) (.int chatId) := short_of_le hids.1 hids.2 hserving.chatIds
  obtain ⟨response, hresponse⟩ : ∃ response, chatDetails py limit v chatId = some response := by
    have hitem : ∀ item ∈ chat.messages.reverse.map fun m => JsonValue.object (φ := φ) m.members,
        Json.Short item ∧ Json.depth item ≤ 1 := by
      intro item hitem
      obtain ⟨m, hm, rfl⟩ := List.mem_map.mp hitem
      obtain ⟨hsame, hpos, hle⟩ := hmessages m (List.mem_reverse.mp hm)
      exact ⟨⟨short_of_le hpos hle hserving.messageIds, hsame ▸ hshort, trivial, trivial,
        short_small (by decide) (by decide), trivial, trivial, trivial, trivial⟩, Nat.le_refl 1⟩
    have hdepth := Json.depthItems_le fun item h => (hitem item h).2
    rw [chatDetails, hget]
    refine envelope_writes (short_small (by decide) (by decide)) ?_
      ⟨⟨hshort, trivial, trivial⟩, ⟨short_small (by decide) (by decide),
        Json.shortItems_iff.mpr fun item h => (hitem item h).1, trivial⟩, trivial⟩
    show max 1 (max (Json.depth (.object
      [entry "current_page" (.int 1), entry "data" (.array _)])) 0) + 1 < limit
    rw [depth_page]
    omega
  refine ⟨_, step_of_answer rfl ((handle_serving hserving _).trans ?_) (bind_eq_ok.mpr
    ⟨_, chatMessages_details hget hresponse, bind_eq_ok.mpr
      ⟨_, bind_eq_ok.mpr ⟨_, congrArg other (delivered_of_mem hnodup hm), rfl⟩, rfl⟩⟩)⟩
  rw [endpoint, hresponse, Option.map_some]

variable (py limit N c rewrite) in
/-- The handler ends within `k` requests. -/
def Ends (k : Nat) (w : World) : Prop :=
  ∃ n ≤ k, ∃ v' report, (canary py limit N c rewrite).run w (List.replicate n .canary) =
    some ⟨v', .done report⟩

theorem Ends.mono {j k : Nat} {w : World} (h : Ends py limit N c rewrite j w) (hle : j ≤ k) :
    Ends py limit N c rewrite k w := by
  obtain ⟨n, hn, hrun⟩ := h
  exact ⟨n, hn.trans hle, hrun⟩

theorem Ends.of_step {k : Nat} {w w' : World}
    (hstep : (canary py limit N c rewrite).step w .canary = some w')
    (h : Ends py limit N c rewrite k w') : Ends py limit N c rewrite (k + 1) w := by
  obtain ⟨n, hn, v', report, hrun⟩ := h
  refine ⟨n + 1, Nat.succ_le_succ hn, v', report, ?_⟩
  rw [List.replicate_succ]
  exact Machine.run_cons_some _ |>.mpr ⟨w', hstep, hrun⟩

/-- Once it has a chat, the handler sends and reads. -/
theorem sending_runs (hlimit : 5 ≤ limit) (hfresh : c.Fresh) (hkept : v.Kept)
    (hserving : Serving v) {chatId : Int} (hchat : Reaches py c v chatId)
    (hroom : (v.nextMessageId + 1).toNat < 10 ^ Json.maxStrDigits) :
    ∃ v' report, (canary py limit N c rewrite).run ⟨v, .sending (Str.ofText c.sender) chatId⟩
      [.canary, .canary] = some ⟨v', .done report⟩ := by
  have hknows : (Phase.sending (Str.ofText c.sender) chatId).Knows py c rewrite v := ⟨rfl, hchat⟩
  obtain ⟨v', messageId, hstep, hserving'⟩ :=
    sending_steps N rewrite hlimit hfresh hkept hserving hchat hroom
  obtain ⟨hkept', hholds⟩ := step_keeps (w := ⟨v, _⟩) hfresh hkept hknows hstep
  obtain ⟨report, hread⟩ := reading_steps N hlimit hkept' hserving' hholds
  exact ⟨v', report, (Machine.run_cons_some _).mpr
    ⟨_, hstep, (Machine.run_cons_some _).mpr ⟨_, hread, rfl⟩⟩⟩

theorem sending_ends (hlimit : 5 ≤ limit) (hfresh : c.Fresh) (hkept : v.Kept)
    (hserving : Serving v) {chatId : Int} (hchat : Reaches py c v chatId)
    (hroom : (v.nextMessageId + 1).toNat < 10 ^ Json.maxStrDigits) :
    Ends py limit N c rewrite 2 ⟨v, .sending (Str.ofText c.sender) chatId⟩ := by
  obtain ⟨v', report, hrun⟩ := sending_runs hlimit hfresh hkept hserving hchat hroom
  exact ⟨2, Nat.le_refl 2, v', report, hrun⟩

theorem creating_ends (hlimit : 5 ≤ limit) (hfresh : c.Fresh) (hkept : v.Kept)
    (hserving : Serving v) (hallowed : Allowed py c v)
    (hchats : (v.nextChatId + 1).toNat < 10 ^ Json.maxStrDigits)
    (hmessages : (v.nextMessageId + 1).toNat < 10 ^ Json.maxStrDigits) :
    Ends py limit N c rewrite 4 ⟨v, .creating (Str.ofText c.sender)⟩ := by
  rcases creating_steps N rewrite hlimit hkept hserving hallowed hchats with
    ⟨hchat, hstep⟩ | ⟨v', chatId, hstep, hserving', hsame⟩
  · have hknows : (Phase.searching (Str.ofText c.sender)).Knows py c rewrite v :=
      ⟨rfl, hallowed.ten⟩
    obtain ⟨chatId, hfound⟩ := searching_steps N rewrite hlimit hkept hserving hchat
    obtain ⟨-, hreaches⟩ := step_keeps (w := ⟨v, _⟩) hfresh hkept hknows hfound
    exact Ends.of_step hstep (Ends.of_step hfound
      (sending_ends hlimit hfresh hkept hserving hreaches.2 hmessages))
  · have hknows : (Phase.creating (Str.ofText c.sender)).Knows py c rewrite v := rfl
    obtain ⟨hkept', hreaches⟩ := step_keeps (w := ⟨v, _⟩) hfresh hkept hknows hstep
    have hroom : (v'.nextMessageId + 1).toNat < 10 ^ Json.maxStrDigits := by rwa [hsame]
    exact (Ends.of_step hstep
      (sending_ends hlimit hfresh hkept' hserving' hreaches.2 hroom)).mono (by decide)

/-- Without other clients, the handler comes to its end in five requests at most, and the alarm
keeps quiet just if the vendor left the text as it was. -/
theorem canary_completes (hlimit : 5 ≤ limit) (hfresh : c.Fresh) (hkept : v.Kept)
    (hserving : Serving v) (hallowed : Allowed py c v)
    (hchats : (v.nextChatId + 1).toNat < 10 ^ Json.maxStrDigits)
    (hmessages : (v.nextMessageId + 1).toNat < 10 ^ Json.maxStrDigits) :
    ∃ n ≤ 5, ∃ v' report, (canary py limit N c rewrite).run ⟨v, c.start⟩
      (List.replicate n .canary) = some ⟨v', .done report⟩ ∧
        (rewriteCanaryAlarm (Phase.done report).metric.toList = false ↔
          rewrite (canaryBody c.nonce) = canaryBody c.nonce) := by
  have hends : Ends py limit N c rewrite 5 ⟨v, c.start⟩ := by
    have hcreating : Ends py limit N c rewrite 4 ⟨v, .creating (Str.ofText c.sender)⟩ :=
      creating_ends hlimit hfresh hkept hserving hallowed hchats hmessages
    cases hnumber : c.fromNumber with
    | none =>
      have hsender : c.sender = activeNumber := by rw [Config.sender, hnumber, Option.getD_none]
      rw [hsender] at hcreating
      rw [Config.start, hnumber]
      exact Ends.of_step (listing_steps hlimit hserving) hcreating
    | some number =>
      have hsender : c.sender = number := by rw [Config.sender, hnumber, Option.getD_some]
      rw [hsender] at hcreating
      rw [Config.start, hnumber]
      exact hcreating.mono (by decide)
  obtain ⟨n, hn, v', report, hrun⟩ := hends
  exact ⟨n, hn, v', report, hrun, alarm_done (run_keeps hfresh hkept hrun).2⟩

theorem canary_completes_untouched : ∃ n ≤ 5, ∃ v' report,
    (canary .plain 1000 plainNumbers sampleConfig id).run ⟨newVendor, sampleConfig.start⟩
      (List.replicate n .canary) = some ⟨v', .done report⟩ ∧
        rewriteCanaryAlarm (Phase.done report).metric.toList = false := by
  have hbound : 10 ^ 4 ≤ 10 ^ Json.maxStrDigits := Nat.pow_le_pow_right (by decide) (by decide)
  have hserving : Serving newVendor :=
    ⟨rfl, Nat.lt_of_lt_of_le (by decide) hbound, Nat.lt_of_lt_of_le (by decide) hbound⟩
  have hallowed : Allowed .plain sampleConfig newVendor :=
    ⟨by decide +kernel, List.forall_mem_nil _⟩
  have hlimit : 5 ≤ 1000 := by decide
  obtain ⟨n, hn, v', report, hrun, hquiet⟩ := @canary_completes Unit .plain 1000 plainNumbers
    sampleConfig id newVendor hlimit sampleConfig_fresh newVendor_kept hserving hallowed
    (Nat.lt_of_lt_of_le (by decide) hbound) (Nat.lt_of_lt_of_le (by decide) hbound)
  exact ⟨n, hn, v', report, hrun, hquiet.mpr rfl⟩

variable {w' : World}

/-- Whatever other clients do in between, the alarm of a day with one run keeps quiet just if the
handler came to its end and the vendor left the text as it was. -/
theorem canary_quiet_iff {events : List Event} (hfresh : c.Fresh) (hkept : v.Kept)
    (hrun : (canary py limit N c rewrite).run ⟨v, c.start⟩ events = some w') :
    (rewriteCanaryAlarm w'.phase.metric.toList = false ↔
      (∃ report, w'.phase = .done report) ∧
        rewrite (canaryBody c.nonce) = canaryBody c.nonce) ∧
    ∀ report, w'.phase = .done report → report.submitted = canaryBody c.nonce ∧
      report.delivered = Str.ofText (rewrite (canaryBody c.nonce)) ∧
      Holds py c rewrite w'.vendor report.chatId report.messageId := by
  have hknows := (run_keeps hfresh hkept hrun).2
  cases hphase : w'.phase with
  | done report =>
    rw [hphase] at hknows
    constructor
    · rw [alarm_done hknows]
      exact ⟨fun h => ⟨⟨report, rfl⟩, h⟩, fun h => h.2⟩
    · rintro report' ⟨⟩
      exact ⟨hknows.2.1, hknows.2.2.1, hknows.1⟩
  | _ =>
    refine ⟨iff_of_false (by rintro ⟨⟩) ?_, ?_⟩
    · rintro ⟨⟨report, ⟨⟩⟩, -⟩
    · rintro report ⟨⟩

/-- The handler sends next, and the vendor serves it. -/
def sendsNext (w : World) : Bool :=
  match w.phase with
  | .sending _ _ => w.vendor.rejectStatuses.isEmpty &&
      decide (w.vendor.nextChatId ≤ 9998 ∧ w.vendor.nextMessageId ≤ 9998)
  | _ => false

theorem sendsNext_spec {w : World} (h : sendsNext w = true) : ∃ v sender chatId,
    w = ⟨v, .sending sender chatId⟩ ∧ Serving v ∧
      (v.nextMessageId + 1).toNat < 10 ^ Json.maxStrDigits := by
  have hbound : 10 ^ 4 ≤ 10 ^ Json.maxStrDigits := Nat.pow_le_pow_right (by decide) (by decide)
  obtain ⟨v, phase⟩ := w
  cases phase with
  | sending sender chatId =>
    obtain ⟨hanswers, hids⟩ := Bool.and_eq_true_iff.mp h
    obtain ⟨hchats, hmessages⟩ : v.nextChatId ≤ 9998 ∧ v.nextMessageId ≤ 9998 :=
      of_decide_eq_true hids
    exact ⟨v, sender, chatId, rfl, ⟨List.isEmpty_iff.mp hanswers,
      Nat.lt_of_lt_of_le (by omega) hbound, Nat.lt_of_lt_of_le (by omega) hbound⟩,
      Nat.lt_of_lt_of_le (by omega) hbound⟩
  | _ => cases h

/-- A vendor that drops the exclamation marks, and another client that blocks a number. -/
theorem canary_quiet_iff_tidied : ∃ w', (canary .plain 1000 plainNumbers sampleConfig
    fun t => t.filter (· != '!')).run ⟨newVendor, sampleConfig.start⟩ [.canary, .canary,
      .client (.block "\x7b\"numbers\": [\"6505550123\"]\x7d".toList), .canary, .canary] = some w' ∧
    rewriteCanaryAlarm w'.phase.metric.toList = true := by
  have hfirst : ((canary .plain 1000 plainNumbers sampleConfig fun t => t.filter (· != '!')).run
      ⟨newVendor, sampleConfig.start⟩ [.canary, .canary,
        .client (.block "\x7b\"numbers\": [\"6505550123\"]\x7d".toList)]).any sendsNext =
          true := by decide +kernel
  have hmark : '!' ∈ canaryBody sampleConfig.nonce := by decide +kernel
  have htidied : (canaryBody sampleConfig.nonce).filter (· != '!') ≠
      canaryBody sampleConfig.nonce := fun hsame =>
    absurd (List.mem_filter.mp (hsame.symm ▸ hmark)).2 (by decide)
  obtain ⟨w, hw, hsends⟩ := (Option.any_eq_true _ _).mp hfirst
  obtain ⟨v, sender, chatId, rfl, hserving, hroom⟩ := sendsNext_spec hsends
  obtain ⟨hkept, rfl, hreaches⟩ := run_keeps sampleConfig_fresh newVendor_kept hw
  have hlimit : 5 ≤ 1000 := by decide
  obtain ⟨v', report, hrest⟩ :=
    sending_runs hlimit sampleConfig_fresh hkept hserving hreaches hroom
  have hrun := (Machine.run_append_some _).mpr ⟨_, hw, hrest⟩
  have hquiet := (canary_quiet_iff sampleConfig_fresh newVendor_kept hrun).1
  exact ⟨_, hrun, (Bool.not_eq_false _).mp fun h => htidied (hquiet.mp h).2⟩

end Alone

end Outreach.TextTorrent.Canary
