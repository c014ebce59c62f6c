import Outreach.Library.Dict
import Outreach.Library.JsonPlain
import Outreach.Library.Multipart
import Outreach.TextTorrent.Client

/-!
# The wire contract of the vendor: `tests/fake_texttorrent.py`

The fake keeps chats with their messages, and answers with JSON. `rewrite` is its
hook: what it does to the text of a message before it is stored. The paths of the
requests are constructors: those that the fake serves, so no `/remove` of a blocked
number. A request on which the fake raises has no answer.
-/

namespace Outreach.TextTorrent.Vendor

open Outreach.Library Outreach.TextTorrent.Client

set_option autoImplicit false

structure StoredMessage where
  id : Int
  chatId : Int
  message : Text
  fromNumber : Text
  toNumber : Text

/-- A chat; its messages are in the order in which they came. -/
structure Chat where
  receiver : Text
  sender : Str
  messages : List StoredMessage

structure FakeTextTorrent where
  rejectStatuses : List Nat
  optOuts : List Text
  chats : Dict Int Chat
  nextChatId : Int
  nextMessageId : Int

/-- A request, by its method and path. -/
inductive Call where
  /-- `POST /inbox/chat/create` -/
  | createChat (body : Text)
  /-- `GET /inbox?search=` -/
  | search (number : Text)
  /-- `POST /inbox/chat` -/
  | send (contentType body : Text)
  /-- `GET /inbox/numbers/active` -/
  | activeNumbers
  /-- `GET /inbox/{chat_id}` -/
  | chatDetails (chatId : Int)
  /-- `GET /contact/blocked-list/?limit=&page=` -/
  | blockedList (pageSize page : Nat)
  /-- `POST /contact/blocked-list/` -/
  | block (body : Text)

/-- `ACTIVE_NUMBER` -/
def activeNumber : Text := "+16505550111".toList

/-! ## The form -/

def namePrefix : Text := "name=\"".toList

/-- `re.search(r'name="([^"]+)"', header)`, its group. -/
def searchName : Text → Option Text
  | [] => none
  | c :: cs =>
      if namePrefix.isPrefixOf (c :: cs) then
        let rest := (c :: cs).drop namePrefix.length
        let name := rest.takeWhile (· != '"')
        if name ≠ [] ∧ rest.drop name.length ≠ [] then some name else searchName cs
      else searchName cs

def dispositionName : Text := "Content-Disposition".toList

def boundaryName : Text := "boundary=".toList

/-- The loop of `_parse_multipart` over the parts. -/
def parseParts : Dict Text Text → List Text → Option (Dict Text Text)
  | fields, [] => some fields
  | fields, part :: parts =>
      if hasInfix dispositionName part then
        let (header, value) := partitionSeq (crlf ++ crlf) part
        match searchName header with
        | none => none
        | some name => parseParts (fields.set name (removeSuffix crlf value)) parts
      else parseParts fields parts

/-- `_parse_multipart` -/
def parseMultipart (body contentType : Text) : Option (Dict Text Text) :=
  if hasInfix boundaryName contentType then
    parseParts .empty
      (splitSeq (delimiter (partitionSeq boundaryName contentType).2) body)
  else none

section Form

variable {boundary : Text} {field : Text × Text}

theorem searchName_absent {s t : Text} (h : Absent namePrefix s t) :
    searchName (s ++ t) = searchName t := by
  induction s with
  | nil => rfl
  | cons c s ih =>
    have hnot : ¬ namePrefix.isPrefixOf (c :: (s ++ t)) = true := fun hprefix =>
      h [] (c :: s) rfl (List.cons_ne_nil c s) (List.isPrefixOf_iff_prefix.mp hprefix)
    rw [List.cons_append, searchName, if_neg hnot, ih h.tail]

theorem searchName_fieldHeader (h : Fits boundary field) :
    searchName (fieldHeader field.1) = some field.1 := by
  have hheader : fieldHeader field.1 =
      "\r\nContent-Disposition: form-data;".toList ++ [' '] ++
        (namePrefix ++ (field.1 ++ ['"'])) := rfl
  have habsent : Absent namePrefix ("\r\nContent-Disposition: form-data;".toList ++ [' '])
      (namePrefix ++ (field.1 ++ ['"'])) :=
    absent_of_ends (by decide +kernel) (by decide +kernel)
  have hquote : ∀ c ∈ field.1, (c != '"') = true :=
    fun c hc => bne_iff_ne.mpr fun he => h.quote (he ▸ hc)
  have htake : (field.1 ++ ['"']).takeWhile (· != '"') = field.1 := by
    rw [List.takeWhile_append_of_pos hquote]
    exact List.append_nil _
  rw [hheader, searchName_absent habsent]
  have hfound : namePrefix.isPrefixOf (namePrefix ++ (field.1 ++ ['"'])) = true :=
    List.isPrefixOf_iff_prefix.mpr (List.prefix_append _ _)
  show (if namePrefix.isPrefixOf (namePrefix ++ (field.1 ++ ['"'])) = true then _ else _) = _
  rw [if_pos hfound]
  show (if (field.1 ++ ['"']).takeWhile (· != '"') ≠ [] ∧
    (field.1 ++ ['"']).drop ((field.1 ++ ['"']).takeWhile (· != '"')).length ≠ [] then
      some ((field.1 ++ ['"']).takeWhile (· != '"')) else _) = _
  rw [htake, List.drop_left, if_pos ⟨h.named, List.cons_ne_nil _ _⟩]

theorem parseParts_fields {fields : List (Text × Text)}
    (h : ∀ field ∈ fields, Fits boundary field) (d : Dict Text Text) (parts : List Text) :
    parseParts d (fields.map fieldPart ++ parts) =
      parseParts (fields.foldl (fun d field => d.set field.1 field.2) d) parts := by
  induction fields generalizing d with
  | nil => rfl
  | cons field fields ih =>
    obtain ⟨hfield, hfields⟩ := List.forall_mem_cons.mp h
    have hdisposition : hasInfix dispositionName (fieldPart field) = true := by
      have hin : dispositionName <:+: disposition := by decide +kernel
      have hheader : disposition <:+: fieldPart field :=
        ⟨crlf, '"' :: (field.1 ++ ['"']) ++ (crlf ++ crlf ++ (field.2 ++ crlf)), by
          simp [fieldPart, fieldHeader, crlf]⟩
      exact hasInfix_iff.mpr (hin.trans hheader)
    rw [List.map_cons, List.cons_append, parseParts, if_pos hdisposition,
      partition_fieldPart hfield.line]
    simp only [searchName_fieldHeader hfield, removeSuffix_append, List.foldl_cons]
    exact ih hfields _

/-- What the client puts into a form is what the fake takes out of it. -/
theorem parseMultipart_formBody (hboundary : Boundary boundary) {fields : List (Text × Text)}
    (h : ∀ field ∈ fields, Fits boundary field) :
    parseMultipart (formBody boundary fields)
      ("multipart/form-data; boundary=".toList ++ boundary) = some (Dict.ofList fields) := by
  have habsent : Absent boundaryName ("multipart/form-data;".toList ++ [' '])
      (boundaryName ++ boundary) :=
    absent_of_ends (by decide +kernel) (by decide +kernel)
  have hsplit : "multipart/form-data; boundary=".toList ++ boundary =
      "multipart/form-data;".toList ++ [' '] ++ (boundaryName ++ boundary) := rfl
  have hfound : hasInfix boundaryName
      ("multipart/form-data;".toList ++ [' '] ++ (boundaryName ++ boundary)) = true :=
    hasInfix_iff.mpr ((List.prefix_append _ _).isInfix.trans (List.suffix_append _ _).isInfix)
  have hlast : hasInfix dispositionName ('-' :: '-' :: crlf) = false := by decide +kernel
  have hfirst : hasInfix dispositionName [] = false := rfl
  have hne : boundaryName ≠ [] := by decide +kernel
  rw [hsplit, parseMultipart, if_pos hfound,
    partitionSeq_absent hne habsent, splitSeq_formBody hboundary h, parseParts,
    if_neg (Bool.eq_false_iff.mp hfirst), parseParts_fields h, parseParts,
    if_neg (Bool.eq_false_iff.mp hlast)]
  rfl

end Form

/-! ## The endpoints -/

section Endpoints

variable {φ : Type} (py : Python φ) (limit : Nat)

def text (t : Text) : JsonValue φ := .string (Str.ofText t)

/-- A member of an object that is written. -/
def entry (key : String) (value : JsonValue φ) : Str × JsonValue φ := (Str.ofString key, value)

/-- The body of every answer. -/
def envelopeBody (status : Nat) (success : Bool) (message : String) (data : JsonValue φ) :
    JsonValue φ :=
  .object [entry "code" (.int status), entry "success" (.bool success),
    entry "message" (text message.toList), entry "data" data, entry "errors" .null]

/-- `_envelope`; `none` is an integer that is too long for a decimal text. -/
def envelope (status : Nat) (success : Bool) (message : String) (data : JsonValue φ) :
    Option HttpResponse :=
  (Json.tryDumps py.floats limit (envelopeBody status success message data)).map fun raw =>
    ⟨status, raw⟩

/-- `str(payload[key])` -/
def field (payload : JsonValue φ) (key : String) : Option Str := do
  let value ← (payload.item key).toOption
  (py.str value).toOption

/-- `re.fullmatch(r"\d{10}", number)` -/
def fullMatch (number : Str) : Bool :=
  number.length = 10 && number.all (CodePoint.sat py.unicode.decimal)

def alreadyStarted : String := "You have already started a chat with this contact."

variable (v : FakeTextTorrent)

/-- `_chat_create` -/
def chatCreate (body : Text) : Option (HttpResponse × FakeTextTorrent) := do
  let payload ← (Json.loads py.floats limit (Str.ofText body)).toOption
  let receiver ← field py payload "receiver_number"
  guard (fullMatch py receiver = true)
  let receiver := receiver.shown
  if v.optOuts.any fun raw => receiver = tenDigits py.unicode raw then
    return (← envelope py limit 404 false "This contact is blacklisted." .null, v)
  else if v.chats.values.any fun chat => chat.receiver = receiver then
    return (← envelope py limit 404 false alreadyStarted .null, v)
  else
    let chatId := v.nextChatId + 1
    let sender ← field py payload "sender_id"
    let answer ← envelope py limit 201 true "Chat started successfully." (.object
      [entry "id" (.int chatId), entry "user_id" (.int 1), entry "contact_id" (.int chatId),
        entry "last_message" .null])
    return (answer, { v with
      nextChatId := chatId
      chats := v.chats.set chatId ⟨receiver, sender, []⟩ })

/-- `_inbox_search` -/
def inboxSearch (number : Text) : Option HttpResponse :=
  let rows := v.chats.entries.filter fun chat => hasInfix number chat.2.receiver
  envelope py limit 200 true "Chats retrieved successfully" (.object
    [entry "current_page" (.int 1), entry "data" (.array (rows.map fun chat => .object
      [entry "chat_id" (.int chat.1), entry "number" (text ("+1".toList ++ chat.2.receiver))]))])

/-- `_send` -/
def send (rewrite : Text → Text) (contentType body : Text) :
    Option (HttpResponse × FakeTextTorrent) := do
  guard ("multipart/form-data".toList.isPrefixOf contentType = true)
  let fields ← parseMultipart body contentType
  let chatId ← Json.intOf (← fields.get? "chat_id".toList)
  let chat ← v.chats.get? chatId
  let submitted ← fields.get? "message".toList
  let fromNumber ← fields.get? "from_number".toList
  let toNumber ← fields.get? "to_number".toList
  let messageId := v.nextMessageId + 1
  let stored : StoredMessage := ⟨messageId, chatId, rewrite submitted, fromNumber, toNumber⟩
  let answer ← envelope py limit 201 true "Message send successfully" (.object
    [entry "id" (.int messageId), entry "chat_id" (.int chatId),
      entry "direction" (text "outbound".toList)])
  return (answer, { v with
    nextMessageId := messageId
    chats := v.chats.set chatId { chat with messages := chat.messages ++ [stored] } })

/-- The endpoint of the active numbers. -/
def numbersActive : Option HttpResponse :=
  envelope py limit 200 true "Active numbers fetched" (.object
    [entry "current_page" (.int 1),
      entry "data" (.array [.object [entry "id" (.int 1), entry "number" (text activeNumber)]])])

def StoredMessage.members (m : StoredMessage) : Members φ :=
  [entry "id" (.int m.id), entry "chat_id" (.int m.chatId), entry "message" (text m.message),
    entry "direction" (text "outbound".toList), entry "status" (.int 1),
    entry "from_number" (text m.fromNumber), entry "to_number" (text m.toNumber),
    entry "media_url" .null]

/-- `_chat_details`: the newest message first. -/
def chatDetails (chatId : Int) : Option HttpResponse := do
  let chat ← v.chats.get? chatId
  envelope py limit 200 true "Chat retrieved successfully" (.object
    [entry "chat" (.object [entry "chat_id" (.int chatId),
        entry "number" (text ("+1".toList ++ chat.receiver))]),
      entry "messages" (.object [entry "current_page" (.int 1),
        entry "data" (.array (chat.messages.reverse.map fun m => .object m.members))])])

/-- The entries of a page, which Python counts from the end where the page is 0. -/
def pageEntries (pageSize page : Nat) : List Text :=
  if page = 0 then [] else (v.optOuts.drop ((page - 1) * pageSize)).take pageSize

/-- A row of the list; the offset is the place in it. -/
def blockedRow (row : Text × Nat) : Members φ :=
  [entry "id" (.int row.2), entry "number" (text row.1)]

def blockedPage (pageSize page : Nat) : Members φ :=
  [entry "current_page" (.int page),
    entry "data" (.array (((pageEntries v pageSize page).zipIdx ((page - 1) * pageSize)).map
      fun row => .object (blockedRow row)))]

/-- `_blocked_list` -/
def blockedList (pageSize page : Nat) : Option HttpResponse :=
  envelope py limit 200 true "Blocked list fetched successfully"
    (.object [entry "blocked_list" (.object (blockedPage v pageSize page))])

/-- `_block` -/
def block (body : Text) : Option (HttpResponse × FakeTextTorrent) := do
  let payload ← (Json.loads py.floats limit (Str.ofText body)).toOption
  let items ← (← (payload.item "numbers").toOption).iterate.toOption
  let numbers ← items.mapM fun item => (py.str item).toOption
  guard (numbers.all (fullMatch py) = true)
  let answer ← envelope py limit 200 true "Numbers blocked successfully" .null
  return (answer, { v with
    optOuts := v.optOuts ++ numbers.map fun number => "+1".toList ++ number.shown })

/-- What a call is answered by, at its endpoint, and the state after it. -/
def endpoint (rewrite : Text → Text) : Call → Option (HttpResponse × FakeTextTorrent)
  | .createChat body => chatCreate py limit v body
  | .search number => (inboxSearch py limit v number).map (·, v)
  | .send contentType body => send py limit v rewrite contentType body
  | .activeNumbers => (numbersActive py limit).map (·, v)
  | .chatDetails chatId => (chatDetails py limit v chatId).map (·, v)
  | .blockedList pageSize page => (blockedList py limit v pageSize page).map (·, v)
  | .block body => block py limit v body

/-- `__call__`: a status that is to be rejected comes first. -/
def handle (rewrite : Text → Text) (call : Call) : Option (HttpResponse × FakeTextTorrent) :=
  match v.rejectStatuses with
  | status :: rejectStatuses =>
      some (⟨status, "<html>vendor error</html>".toList⟩, { v with rejectStatuses })
  | [] => endpoint py limit v rewrite call

end Endpoints

section Envelope

variable {φ : Type} {py : Python φ} {limit : Nat} {response : HttpResponse}

theorem ofString_injective : Function.Injective Str.ofString :=
  fun _ _ h => String.toList_injective (Str.ofText_injective h)

/-- The keys of an object, told apart as the strings that they are. -/
theorem nodup_keys (keys : List String) (h : keys.Nodup) : (keys.map Str.ofString).Nodup :=
  h.map ofString_injective

@[simp] theorem lookup_entry (key key' : String) (value : JsonValue φ) (members : Members φ) :
    (entry key' value :: members).lookup (Str.ofString key) =
      if key = key' then some value else members.lookup (Str.ofString key) := by
  rw [entry, List.lookup_cons]
  by_cases h : key = key'
  · rw [h, beq_self_eq_true, if_pos rfl]
  · have hne : (Str.ofString key == Str.ofString key') = false := by
      refine beq_eq_false_iff_ne.mpr fun hsame => h ?_
      exact String.toList_injective (Str.ofText_injective hsame)
    rw [hne, if_neg h]

theorem lookup_second {key key' : String} (h : key ≠ key') (value value' : JsonValue φ)
    (members : Members φ) : (entry key' value' :: entry key value :: members).lookup
      (Str.ofString key) = some value := by
  rw [lookup_entry, if_neg h, lookup_entry, if_pos rfl]

/-- What the vendor writes into an envelope is what a client reads from it. -/
theorem loads_envelope {status : Nat} {success : Bool} {message : String} {data : JsonValue φ}
    (h : envelope py limit status success message data = some response)
    (hdata : Json.Plain data) : response.status = status ∧
      Json.loads py.floats limit (Str.ofText response.raw) =
        .ok (envelopeBody status success message data) := by
  obtain ⟨raw, hraw, rfl⟩ := Option.map_eq_some_iff.mp h
  have hkeys := nodup_keys ["code", "success", "message", "data", "errors"] (by decide)
  have hplain : Json.Plain (envelopeBody status success message data) :=
    ⟨hkeys, Json.joined_ofString _, trivial, Json.joined_ofString _, trivial,
      Json.joined_ofString _, Json.joined_ofText _, Json.joined_ofString _, hdata,
      Json.joined_ofString _, trivial, trivial⟩
  exact ⟨rfl, hplain.loads_tryDumps py.floats hraw⟩

end Envelope

/-! ## What a request leaves -/

/-- Ids are taken once, in order, and every receiver has ten digits. -/
structure FakeTextTorrent.Kept (v : FakeTextTorrent) : Prop where
  counters : 0 ≤ v.nextChatId ∧ 0 ≤ v.nextMessageId
  chatIds : ∀ chatId chat, v.chats.get? chatId = some chat → 0 < chatId ∧ chatId ≤ v.nextChatId
  receivers : ∀ chatId chat, v.chats.get? chatId = some chat → chat.receiver.length = 10
  messageIds : ∀ chatId chat, v.chats.get? chatId = some chat →
    (chat.messages.map StoredMessage.id).Nodup ∧
      ∀ m ∈ chat.messages, m.chatId = chatId ∧ 0 < m.id ∧ m.id ≤ v.nextMessageId

/-- No chat and no message is lost. -/
def Grows (v v' : FakeTextTorrent) : Prop :=
  ∀ chatId chat, v.chats.get? chatId = some chat → ∃ chat', v'.chats.get? chatId = some chat' ∧
    chat'.receiver = chat.receiver ∧ chat.messages <+: chat'.messages

theorem Grows.of_chats {v v' : FakeTextTorrent} (h : v'.chats = v.chats) : Grows v v' :=
  fun _ chat hchat => ⟨chat, h ▸ hchat, rfl, List.prefix_refl _⟩

theorem Grows.trans {u v w : FakeTextTorrent} (h : Grows u v) (h' : Grows v w) : Grows u w := by
  intro chatId chat hchat
  obtain ⟨chat', hchat', hreceiver, hmessages⟩ := h chatId chat hchat
  obtain ⟨chat'', hchat'', hreceiver', hmessages'⟩ := h' chatId chat' hchat'
  exact ⟨chat'', hchat'', hreceiver'.trans hreceiver, hmessages.trans hmessages'⟩

section Spec

variable {φ : Type} {py : Python φ} {limit : Nat} {v v' : FakeTextTorrent}
  {response : HttpResponse}

theorem FakeTextTorrent.Kept.of_chats (h : v.Kept) (hchats : v'.chats = v.chats)
    (hchat : v'.nextChatId = v.nextChatId) (hmessage : v'.nextMessageId = v.nextMessageId) :
    v'.Kept :=
  ⟨hchat ▸ hmessage ▸ h.counters, hchats ▸ hchat ▸ h.chatIds, hchats ▸ h.receivers,
    hchats ▸ hmessage ▸ h.messageIds⟩

/-- What `create_chat` can do: it answers that the number is blocked or has a chat, or it makes
one. -/
theorem chatCreate_cases {body : Text} (h : chatCreate py limit v body = some (response, v')) :
    ∃ payload receiver, Json.loads py.floats limit (Str.ofText body) = .ok payload ∧
      field py payload "receiver_number" = some receiver ∧ receiver.shown.length = 10 ∧
      ((v' = v ∧ envelope py limit 404 false "This contact is blacklisted." .null =
          some response) ∨
        (v' = v ∧ envelope py limit 404 false alreadyStarted .null = some response) ∨
        ∃ sender, v' = { v with
            nextChatId := v.nextChatId + 1
            chats := v.chats.set (v.nextChatId + 1) ⟨receiver.shown, sender, []⟩ } ∧
          envelope py limit 201 true "Chat started successfully." (.object
            [entry "id" (.int (v.nextChatId + 1)), entry "user_id" (.int 1),
              entry "contact_id" (.int (v.nextChatId + 1)), entry "last_message" .null]) =
                some response) := by
  simp only [chatCreate, Option.bind_eq_bind, Option.bind_eq_some_iff] at h
  obtain ⟨payload, hpayload, receiver, hreceiver, _, hmatch, h⟩ := h
  have hloads : Json.loads py.floats limit (Str.ofText body) = .ok payload := by
    cases hread : Json.loads py.floats limit (Str.ofText body) with
    | error error => rw [hread] at hpayload; cases hpayload
    | ok value => rw [hread] at hpayload; cases hpayload; rfl
  have hten : receiver.shown.length = 10 := by
    have hfull : fullMatch py receiver = true := by
      by_contra hnot
      rw [guard, if_neg hnot] at hmatch
      cases hmatch
    rw [fullMatch, Bool.and_eq_true, decide_eq_true_iff] at hfull
    rw [Str.shown, List.length_map]
    exact hfull.1
  refine ⟨payload, receiver, hloads, hreceiver, hten, ?_⟩
  split at h
  · obtain ⟨answer, hanswer, h⟩ := Option.bind_eq_some_iff.mp h
    cases h
    exact Or.inl ⟨rfl, hanswer⟩
  · split at h
    · obtain ⟨answer, hanswer, h⟩ := Option.bind_eq_some_iff.mp h
      cases h
      exact Or.inr (Or.inl ⟨rfl, hanswer⟩)
    · obtain ⟨sender, hsender, h⟩ := Option.bind_eq_some_iff.mp h
      obtain ⟨answer, hanswer, h⟩ := Option.bind_eq_some_iff.mp h
      cases h
      exact Or.inr (Or.inr ⟨sender, rfl, hanswer⟩)

/-- What a message is stored as. -/
theorem send_cases {rewrite : Text → Text} {contentType body : Text}
    (h : send py limit v rewrite contentType body = some (response, v')) :
    ∃ fields number chatId chat submitted fromNumber toNumber,
      parseMultipart body contentType = some fields ∧
      fields.get? "chat_id".toList = some number ∧ Json.intOf number = some chatId ∧
      v.chats.get? chatId = some chat ∧ fields.get? "message".toList = some submitted ∧
      fields.get? "from_number".toList = some fromNumber ∧
      fields.get? "to_number".toList = some toNumber ∧
      v' = { v with
        nextMessageId := v.nextMessageId + 1
        chats := v.chats.set chatId { chat with messages := chat.messages ++
          [⟨v.nextMessageId + 1, chatId, rewrite submitted, fromNumber, toNumber⟩] } } ∧
      envelope py limit 201 true "Message send successfully" (.object
        [entry "id" (.int (v.nextMessageId + 1)), entry "chat_id" (.int chatId),
          entry "direction" (text "outbound".toList)]) = some response := by
  simp only [send, Option.bind_eq_bind, Option.bind_eq_some_iff] at h
  obtain ⟨_, -, fields, hfields, number, hnumber, chatId, hchatId, chat, hchat, submitted,
    hsubmitted, fromNumber, hfrom, toNumber, hto, answer, hanswer, h⟩ := h
  cases h
  exact ⟨fields, number, chatId, chat, submitted, fromNumber, toNumber, hfields, hnumber, hchatId,
    hchat, hsubmitted, hfrom, hto, rfl, hanswer⟩

/-- One chat is stored, with the receiver and the messages that it had, if it was there. -/
theorem Grows.of_set {chatId : Int} {chat : Chat}
    (h : ∀ before, v.chats.get? chatId = some before →
      chat.receiver = before.receiver ∧ before.messages <+: chat.messages)
    (hchats : v'.chats = v.chats.set chatId chat) : Grows v v' := by
  intro id before hbefore
  rw [hchats, Dict.get?_set]
  split
  · rename_i hid
    obtain ⟨hreceiver, hmessages⟩ := h before (hid ▸ hbefore)
    exact ⟨chat, rfl, hreceiver, hmessages⟩
  · exact ⟨before, hbefore, rfl, List.prefix_refl _⟩

theorem chatCreate_keeps {body : Text} (hkept : v.Kept)
    (h : chatCreate py limit v body = some (response, v')) : v'.Kept ∧ Grows v v' := by
  obtain ⟨-, receiver, -, -, hten, ⟨rfl, -⟩ | ⟨rfl, -⟩ | ⟨sender, rfl, -⟩⟩ := chatCreate_cases h
  · exact ⟨hkept, Grows.of_chats rfl⟩
  · exact ⟨hkept, Grows.of_chats rfl⟩
  · -- the id of the new chat is above all the ids that were given
    have hnew : ∀ before, v.chats.get? (v.nextChatId + 1) ≠ some before := fun before hbefore =>
      absurd (hkept.chatIds _ before hbefore).2 (Int.not_le.mpr (Int.lt_succ _))
    have hnext : v.nextChatId ≤ v.nextChatId + 1 := Int.le_of_lt (Int.lt_succ _)
    refine ⟨⟨⟨hkept.counters.1.trans hnext, hkept.counters.2⟩, fun id chat hchat => ?_,
      fun id chat hchat => ?_, fun id chat hchat => ?_⟩,
        Grows.of_set (fun before hbefore => absurd hbefore (hnew before)) rfl⟩
    all_goals
      simp only [Dict.get?_set] at hchat
      split at hchat
    · rename_i hid
      exact hid ▸ ⟨Int.lt_add_one_of_le hkept.counters.1, Int.le_refl _⟩
    · exact (hkept.chatIds id chat hchat).imp_right fun hle => hle.trans hnext
    · cases hchat
      exact hten
    · exact hkept.receivers id chat hchat
    · cases hchat
      exact ⟨List.nodup_nil, List.forall_mem_nil _⟩
    · exact hkept.messageIds id chat hchat

theorem send_keeps {rewrite : Text → Text} {contentType body : Text} (hkept : v.Kept)
    (h : send py limit v rewrite contentType body = some (response, v')) :
    v'.Kept ∧ Grows v v' := by
  obtain ⟨fields, number, chatId, chat, submitted, fromNumber, toNumber, -, -, -, hchat, -, -, -,
    rfl, -⟩ := send_cases h
  have hnext : v.nextMessageId ≤ v.nextMessageId + 1 := Int.le_of_lt (Int.lt_succ _)
  obtain ⟨hnodup, hle⟩ := hkept.messageIds chatId chat hchat
  refine ⟨⟨⟨hkept.counters.1, hkept.counters.2.trans hnext⟩, fun id found hfound => ?_,
    fun id found hfound => ?_, fun id found hfound => ?_⟩,
      Grows.of_set (fun before hbefore => ?_) rfl⟩
  · simp only [Dict.get?_set] at hfound
    split at hfound
    · rename_i hid
      exact hid ▸ hkept.chatIds chatId chat hchat
    · exact hkept.chatIds id found hfound
  · simp only [Dict.get?_set] at hfound
    split at hfound
    · cases hfound
      exact hkept.receivers chatId chat hchat
    · exact hkept.receivers id found hfound
  · simp only [Dict.get?_set] at hfound
    split at hfound
    · rename_i hid
      cases hfound
      constructor
      · rw [List.map_append, List.map_singleton]
        refine List.nodup_append'.mpr ⟨hnodup, List.nodup_singleton _, fun id hid hnew => ?_⟩
        obtain ⟨m, hm, rfl⟩ := List.mem_map.mp hid
        rw [List.mem_singleton] at hnew
        exact absurd (hle m hm).2.2 (Int.not_le.mpr (hnew ▸ Int.lt_succ _))
      · intro m hm
        rcases List.mem_append.mp hm with hold | hlast
        · obtain ⟨hsame, hpos, hbound⟩ := hle m hold
          exact ⟨hsame.trans hid, hpos, hbound.trans hnext⟩
        · rw [List.mem_singleton] at hlast
          subst hlast
          exact ⟨hid, Int.lt_add_one_of_le hkept.counters.2, Int.le_refl _⟩
    · obtain ⟨hnodup', hle'⟩ := hkept.messageIds id found hfound
      exact ⟨hnodup', fun m hm => (hle' m hm).imp_right fun h => ⟨h.1, h.2.trans hnext⟩⟩
  · obtain rfl : before = chat := Option.some.inj (hbefore.symm.trans hchat)
    exact ⟨rfl, List.prefix_append _ _⟩

/-- Whatever is asked, no chat and no message is lost. -/
theorem handle_keeps {rewrite : Text → Text} {call : Call} (hkept : v.Kept)
    (h : handle py limit v rewrite call = some (response, v')) : v'.Kept ∧ Grows v v' := by
  have hsame (hchats : v'.chats = v.chats) (hchat : v'.nextChatId = v.nextChatId)
      (hmessage : v'.nextMessageId = v.nextMessageId) : v'.Kept ∧ Grows v v' :=
    ⟨hkept.of_chats hchats hchat hmessage, Grows.of_chats hchats⟩
  unfold handle at h
  split at h
  · cases h
    exact hsame rfl rfl rfl
  · cases call with
    | createChat body => exact chatCreate_keeps hkept h
    | send contentType body => exact send_keeps hkept h
    | block body =>
      simp only [endpoint, block, Option.bind_eq_bind, Option.bind_eq_some_iff] at h
      obtain ⟨_, -, _, -, _, -, _, -, _, -, answer, -, h⟩ := h
      cases h
      exact hsame rfl rfl rfl
    | _ =>
      obtain ⟨answer, -, h⟩ := Option.map_eq_some_iff.mp h
      cases h
      exact hsame rfl rfl rfl

/-- What is on the blocked list stays on it, in its place. -/
theorem handle_optOuts {rewrite : Text → Text} {call : Call}
    (h : handle py limit v rewrite call = some (response, v')) : v.optOuts <+: v'.optOuts := by
  unfold handle at h
  split at h
  · cases h
    exact List.prefix_refl _
  · cases call with
    | createChat body =>
      obtain ⟨-, -, -, -, -, ⟨rfl, -⟩ | ⟨rfl, -⟩ | ⟨sender, rfl, -⟩⟩ := chatCreate_cases h
      · exact List.prefix_refl _
      · exact List.prefix_refl _
      · exact List.prefix_refl _
    | send contentType body =>
      obtain ⟨-, -, -, -, -, -, -, -, -, -, -, -, -, -, rfl, -⟩ := send_cases h
      exact List.prefix_refl _
    | block body =>
      simp only [endpoint, block, Option.bind_eq_bind, Option.bind_eq_some_iff] at h
      obtain ⟨_, -, _, -, _, -, _, -, _, -, answer, -, h⟩ := h
      cases h
      exact List.prefix_append _ _
    | _ =>
      obtain ⟨answer, -, h⟩ := Option.map_eq_some_iff.mp h
      cases h
      exact List.prefix_refl _

end Spec

end Outreach.TextTorrent.Vendor
