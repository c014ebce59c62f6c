import Outreach.TextTorrent.Vendor

/-!
# The requests of `texttorrent/client.py`

What the client makes of the answers to its requests: the conversation that is begun or
found, the message that is sent, the messages of a conversation, the push to the blocked
list. A value of another shape than the vendor's raises where Python does.
-/

namespace Outreach.TextTorrent.Client

open Outreach.Library Outreach.TextTorrent.Vendor

set_option autoImplicit false

/-- What the interpreter does with a float: `int(x)`, and `x == n`. -/
structure Numbers (φ : Type) where
  truncate : φ → Except PyError Int
  equals : φ → Int → Bool

/-- The one float of the examples is 0.0. -/
def plainNumbers : Numbers Unit := ⟨fun _ => .ok 0, fun _ n => n = 0⟩

section Values

variable {φ : Type} (N : Numbers φ)

/-- `int(value)` -/
def toInt : JsonValue φ → Except PyError Int
  | .int n => .ok n
  | .bool b => .ok (if b then 1 else 0)
  | .float x => N.truncate x
  | .string s =>
      match Json.intOf (stripBy isSpace s.shown) with
      | some n => .ok n
      | none => .error valueError
  | _ => .error typeError

/-- `value == n` -/
def equalsInt (n : Int) : JsonValue φ → Bool
  | .int m => m = n
  | .bool b => (if b then 1 else 0) = n
  | .float x => N.equals x n
  | _ => false

/-- `dict(value)` -/
def toDict : JsonValue φ → Except PyError (Members φ)
  | .object members => .ok members
  | .array [] => .ok []
  | .string [] => .ok []
  | _ => .error typeError

mutual

/-- `_scan_numbers` -/
def scanNumbers : JsonValue φ → List Str
  | .object members => scanMembers members
  | .array items => scanItems items
  | _ => []

def scanMembers : List (Str × JsonValue φ) → List Str
  | [] => []
  | (key, .string s) :: members =>
      if key = Str.ofString "number" then s :: scanMembers members else scanMembers members
  | (_, value) :: members => scanNumbers value ++ scanMembers members

def scanItems : List (JsonValue φ) → List Str
  | [] => []
  | item :: items => scanNumbers item ++ scanItems items

end

end Values

/-! ## The client -/

section Client

variable {φ : Type} (py : Python φ) (limit : Nat) (N : Numbers φ)

/-- `value.get(key, missing)` -/
def getOr (key : String) (missing : JsonValue φ) : JsonValue φ → Except PyError (JsonValue φ)
  | .object members => .ok (Members.get members key missing)
  | _ => .error attributeError

def other {α : Type} (x : Except PyError α) : Except Failure α := x.mapError .other

/-- The end of `create_chat` and of `send_message`: the error that the envelope tells of. -/
def refusal {α : Type} (envelope : JsonValue φ) (message : JsonValue φ) : Except Failure α := do
  let code ← other (envelope.get "code")
  let status ← other (if py.truthy code then toInt N code else .ok 0)
  let detail ← other (py.str message)
  .error (.api status.toNat detail.shown)

/-- `create_chat`, on its answer. -/
def createdChat (response : HttpResponse) : Except Failure (Option Int) := do
  let envelope ← request py limit response
  let data ← other (envelope.get "data")
  let success ← other (envelope.get "success")
  match py.truthy success, data with
  | true, .object members => do
      let id ← other (JsonValue.item "id" (.object members))
      let chatId ← other (toInt N id)
      return some chatId
  | _, _ => do
      let message ← other (getOr "message" (.string []) envelope)
      let message ← other (py.str message)
      if hasInfix "already started".toList (Str.mapText py.unicode.lower [] message).shown then
        return none
      else refusal py N envelope (.string message)

/-- The loop of `find_chat_id`. -/
def firstChatId : List (JsonValue φ) → Except PyError (Option Int)
  | [] => .ok none
  | .object members :: chats =>
      match Members.get members "chat_id" .null with
      | .null => firstChatId chats
      | chatId => (toInt N chatId).map some
  | _ :: chats => firstChatId chats

/-- `find_chat_id`, on its answer. -/
def foundChatId (response : HttpResponse) : Except Failure (Option Int) := do
  let envelope ← request py limit response
  let data ← other (envelope.get "data")
  let chats ← other ((orElse py data (.object [])).get "data")
  let chats ← other (orElse py chats (.array [])).iterate
  other (firstChatId N chats)

/-- `send_message`, on its answer, and the id that the canary takes from it. -/
def sentId (response : HttpResponse) : Except Failure Int := do
  let envelope ← request py limit response
  let success ← other (envelope.get "success")
  if py.truthy success then
    let data ← other (envelope.item "data")
    let sent ← other (toDict data)
    let id ← other (JsonValue.item "id" (.object sent))
    other (toInt N id)
  else
    let message ← other (envelope.get "message")
    refusal py N envelope message

/-- `chat_messages`, on its answer. -/
def chatMessages (response : HttpResponse) : Except Failure (List (Members φ)) := do
  let envelope ← request py limit response
  let data ← other (envelope.get "data")
  let messages ← other ((orElse py data (.object [])).get "messages")
  let items ← other ((orElse py messages (.object [])).get "data")
  let items ← other (orElse py items (.array [])).iterate
  other (items.mapM toDict)

/-- `active_numbers()[0]`, on its answer. -/
def firstActive (response : HttpResponse) : Except Failure Str := do
  let envelope ← request py limit response
  let data ← other (envelope.get "data")
  match scanNumbers data with
  | [] => .error (.other "IndexError".toList)
  | number :: _ => return number

/-- The body of `block_numbers`, from the numbers that it sends. -/
def blockBody (numbers : List Text) : JsonValue φ :=
  .object [entry "numbers" (.array (numbers.map text))]

/-- `block_numbers`, on its answer. -/
def blockTaken (response : HttpResponse) : Except Failure Unit := do
  let envelope ← request py limit response
  let success ← other (envelope.get "success")
  if py.truthy success then return ()
  else
    let message ← other (envelope.get "message")
    refusal py N envelope message

end Client

/-! ## What the client makes of the answers -/

section Answers

variable {φ : Type} {py : Python φ} {limit : Nat} {N : Numbers φ} {response : HttpResponse}

theorem loads_html : Json.loads py.floats limit (Str.ofText "<html>vendor error</html>".toList) =
    .error .decode := rfl

/-- The page that comes with a rejected request is no JSON. -/
theorem request_html {status : Nat} {envelope : JsonValue φ} :
    request py limit ⟨status, "<html>vendor error</html>".toList⟩ ≠ .ok envelope := by
  rw [request]
  split
  · rintro ⟨⟩
  · rw [loads_html]
    rintro ⟨⟩

theorem other_ok {α : Type} (a : α) : other (.ok a : Except PyError α) = .ok a := rfl

theorem get_entry {key : String} {members : Members φ} {value : JsonValue φ}
    (h : members.lookup (Str.ofString key) = some value) :
    other ((JsonValue.object members).get key) = .ok value := by
  rw [get_of_lookup h, other_ok]

section Envelope

variable {status : Nat} {success : Bool} {message : String} {data : JsonValue φ}

theorem request_envelope (h : envelope py limit status success message data = some response)
    (hstatus : refused status = false) (hdata : Json.Plain data) :
    request py limit response = .ok (envelopeBody status success message data) := by
  obtain ⟨rfl, hloads⟩ := loads_envelope h hdata
  rw [request, if_neg (Bool.eq_false_iff.mp hstatus), hloads]

/-- The members that the client reads when a request has succeeded. -/
theorem envelope_read :
    other ((envelopeBody status success message data).get "success") = .ok (.bool success) ∧
      other ((envelopeBody status success message data).get "data") = .ok data :=
  ⟨get_entry (by simp), get_entry (by simp)⟩

end Envelope

theorem firstActive_numbers (h : numbersActive py limit = some response) :
    firstActive py limit response = .ok (Str.ofText activeNumber) := by
  have hkeys : [Str.ofString "current_page", Str.ofString "data"].Nodup ∧
      [Str.ofString "id", Str.ofString "number"].Nodup :=
    ⟨nodup_keys ["current_page", "data"] (by decide), nodup_keys ["id", "number"] (by decide)⟩
  have hread := request_envelope h (by decide) ⟨hkeys.1, Json.joined_ofString _, trivial,
    Json.joined_ofString _, ⟨⟨hkeys.2, Json.joined_ofString _, trivial, Json.joined_ofString _,
      Json.joined_ofText _, trivial⟩, trivial⟩, trivial⟩
  exact bind_eq_ok.mpr ⟨_, hread, bind_eq_ok.mpr ⟨_, envelope_read.2, rfl⟩⟩

theorem refusal_ne_ok {α : Type} {envelope message : JsonValue φ} {a : α} :
    refusal py N envelope message ≠ .ok a := by
  intro h
  obtain ⟨_, -, h⟩ := bind_eq_ok.mp h
  obtain ⟨_, -, h⟩ := bind_eq_ok.mp h
  obtain ⟨_, -, h⟩ := bind_eq_ok.mp h
  cases h

/-- An answer that tells of no success is told by its message. -/
theorem createdChat_refused {message : String} (hascii : ∀ c ∈ message.toList, isAscii c = true)
    (h : envelope py limit 404 false message .null = some response) :
    createdChat py limit N response =
      if hasInfix "already started".toList (message.toList.map Char.toLower) then .ok none
      else refusal py N (envelopeBody 404 false message .null) (text message.toList) := by
  have hread := request_envelope h (by decide) trivial
  have hlower : (Str.mapText py.unicode.lower [] (Str.ofText message.toList)).shown =
      message.toList.map Char.toLower := by
    rw [Str.mapText_ofText, List.nil_append, Str.shown_ofText, py.unicode.lower_ascii _ hascii]
  rw [createdChat, hread]
  simp only [bind, Except.bind, envelope_read, Python.truthy]
  have hmessage : other (getOr "message" (.string [])
      (envelopeBody (φ := φ) 404 false message .null)) = .ok (text message.toList) := by
    rw [envelopeBody, getOr, Members.get]
    simp [other, Except.mapError]
  rw [hmessage]
  show (if hasInfix _ (Str.mapText py.unicode.lower [] (Str.ofText message.toList)).shown = true
    then _ else _) = _
  rw [hlower]
  rfl

theorem createdChat_blacklisted {found : Option Int}
    (h : envelope py limit 404 false "This contact is blacklisted." .null = some response) :
    createdChat py limit N response ≠ .ok found := by
  have hascii : ∀ c ∈ "This contact is blacklisted.".toList, isAscii c = true :=
    List.all_eq_true.mp (by decide +kernel)
  have hnot : hasInfix "already started".toList
      ("This contact is blacklisted.".toList.map Char.toLower) = false := by decide +kernel
  rw [createdChat_refused hascii h, if_neg (Bool.eq_false_iff.mp hnot)]
  exact refusal_ne_ok

theorem createdChat_started (h : envelope py limit 404 false alreadyStarted .null = some response) :
    createdChat py limit N response = .ok none := by
  have hascii : ∀ c ∈ alreadyStarted.toList, isAscii c = true :=
    List.all_eq_true.mp (by decide +kernel)
  have hin : hasInfix "already started".toList
      (alreadyStarted.toList.map Char.toLower) = true := by decide +kernel
  rw [createdChat_refused hascii h, if_pos hin]

theorem createdChat_created {chatId : Int}
    (h : envelope py limit 201 true "Chat started successfully." (.object
      [entry "id" (.int chatId), entry "user_id" (.int 1), entry "contact_id" (.int chatId),
        entry "last_message" .null]) = some response) :
    createdChat py limit N response = .ok (some chatId) := by
  have hkeys : [Str.ofString "id", Str.ofString "user_id", Str.ofString "contact_id",
      Str.ofString "last_message"].Nodup :=
    nodup_keys ["id", "user_id", "contact_id", "last_message"] (by decide)
  have hread := request_envelope h (by decide) ⟨hkeys, Json.joined_ofString _, trivial,
    Json.joined_ofString _, trivial, Json.joined_ofString _, trivial, Json.joined_ofString _,
    trivial, trivial⟩
  rw [createdChat, hread]
  simp only [bind, Except.bind, envelope_read, Python.truthy]
  rfl

theorem iterate_orElse (items : List (JsonValue φ)) :
    other (orElse py (.array items) (.array [])).iterate = .ok items := by
  cases items <;> rfl

theorem firstChatId_rows (rows : List (Int × Chat)) :
    firstChatId N (rows.map fun chat => JsonValue.object [entry "chat_id" (.int chat.1),
      entry "number" (text ("+1".toList ++ chat.2.receiver))]) =
        .ok (rows.head?.map Prod.fst) := by
  cases rows <;> rfl

theorem foundChatId_search {v : FakeTextTorrent} {number : Text}
    (h : inboxSearch py limit v number = some response) :
    foundChatId py limit N response =
      .ok ((v.chats.entries.find? fun chat => hasInfix number chat.2.receiver).map Prod.fst) := by
  have hkeys : [Str.ofString "current_page", Str.ofString "data"].Nodup ∧
      [Str.ofString "chat_id", Str.ofString "number"].Nodup :=
    ⟨nodup_keys ["current_page", "data"] (by decide), nodup_keys ["chat_id", "number"] (by decide)⟩
  have hrows : Json.PlainItems ((v.chats.entries.filter fun chat =>
      hasInfix number chat.2.receiver).map fun chat => JsonValue.object (φ := φ)
        [entry "chat_id" (.int chat.1),
          entry "number" (text ("+1".toList ++ chat.2.receiver))]) := by
    refine Json.plainItems_iff.mpr fun row hrow => ?_
    obtain ⟨chat, -, rfl⟩ := List.mem_map.mp hrow
    exact ⟨hkeys.2, Json.joined_ofString _, trivial, Json.joined_ofString _, Json.joined_ofText _,
      trivial⟩
  have hread := request_envelope h (by decide) ⟨hkeys.1, Json.joined_ofString _, trivial,
    Json.joined_ofString _, hrows, trivial⟩
  have hfirst : ∀ l : List (Int × Chat), other (firstChatId (φ := φ) N (l.map fun chat =>
      JsonValue.object [entry "chat_id" (.int chat.1),
        entry "number" (text ("+1".toList ++ chat.2.receiver))])) =
          .ok (l.head?.map Prod.fst) := fun l => by rw [firstChatId_rows, other_ok]
  rw [← List.head?_filter]
  refine bind_eq_ok.mpr ⟨_, hread, bind_eq_ok.mpr ⟨_, envelope_read.2, ?_⟩⟩
  refine bind_eq_ok.mpr ⟨_, get_entry (lookup_second (by decide) _ _ _), ?_⟩
  exact bind_eq_ok.mpr ⟨_, iterate_orElse _, hfirst _⟩

theorem sentId_sent {chatId messageId : Int}
    (h : envelope py limit 201 true "Message send successfully" (.object
      [entry "id" (.int messageId), entry "chat_id" (.int chatId),
        entry "direction" (text "outbound".toList)]) = some response) :
    sentId py limit N response = .ok messageId := by
  have hkeys : [Str.ofString "id", Str.ofString "chat_id", Str.ofString "direction"].Nodup :=
    nodup_keys ["id", "chat_id", "direction"] (by decide)
  have hread := request_envelope h (by decide) ⟨hkeys, Json.joined_ofString _, trivial,
    Json.joined_ofString _, trivial, Json.joined_ofString _, Json.joined_ofText _, trivial⟩
  have hitem : (envelopeBody 201 true "Message send successfully" (.object
      [entry "id" (.int messageId), entry "chat_id" (.int chatId),
        entry "direction" (text "outbound".toList)]) : JsonValue φ).item "data" =
      .ok (.object [entry "id" (.int messageId), entry "chat_id" (.int chatId),
        entry "direction" (text "outbound".toList)]) := by
    simp [envelopeBody, JsonValue.item]
  rw [sentId, hread]
  simp only [bind, Except.bind, envelope_read, Python.truthy, if_true, hitem]
  rfl

theorem plain_members (m : StoredMessage) : Json.Plain (φ := φ) (.object m.members) := by
  have hkeys : [Str.ofString "id", Str.ofString "chat_id", Str.ofString "message",
      Str.ofString "direction", Str.ofString "status", Str.ofString "from_number",
      Str.ofString "to_number", Str.ofString "media_url"].Nodup :=
    nodup_keys ["id", "chat_id", "message", "direction", "status",
      "from_number", "to_number", "media_url"] (by decide)
  exact ⟨hkeys, Json.joined_ofString _, trivial, Json.joined_ofString _, trivial,
    Json.joined_ofString _, Json.joined_ofText _, Json.joined_ofString _, Json.joined_ofText _,
    Json.joined_ofString _, trivial, Json.joined_ofString _, Json.joined_ofText _,
    Json.joined_ofString _, Json.joined_ofText _, Json.joined_ofString _, trivial, trivial⟩

theorem mapM_toDict (messages : List StoredMessage) :
    (messages.map fun m => JsonValue.object (φ := φ) m.members).mapM toDict =
      .ok (messages.map StoredMessage.members) := by
  induction messages with
  | nil => rfl
  | cons m messages ih =>
    rw [List.map_cons, List.mapM_cons, ih]
    rfl

theorem chatMessages_details {v : FakeTextTorrent} {chatId : Int} {chat : Chat}
    (hchat : v.chats.get? chatId = some chat)
    (h : chatDetails py limit v chatId = some response) :
    chatMessages py limit response = .ok (chat.messages.reverse.map StoredMessage.members) := by
  have hkeys : [Str.ofString "chat", Str.ofString "messages"].Nodup ∧
      [Str.ofString "chat_id", Str.ofString "number"].Nodup ∧
      [Str.ofString "current_page", Str.ofString "data"].Nodup :=
    ⟨nodup_keys ["chat", "messages"] (by decide),
      nodup_keys ["chat_id", "number"] (by decide),
      nodup_keys ["current_page", "data"] (by decide)⟩
  rw [chatDetails, hchat] at h
  have hitems : Json.PlainItems (chat.messages.reverse.map fun m =>
      JsonValue.object (φ := φ) m.members) := by
    refine Json.plainItems_iff.mpr fun item hitem => ?_
    obtain ⟨m, -, rfl⟩ := List.mem_map.mp hitem
    exact plain_members m
  have hread := request_envelope h (by decide) ⟨hkeys.1, Json.joined_ofString _,
    ⟨hkeys.2.1, Json.joined_ofString _, trivial, Json.joined_ofString _, Json.joined_ofText _,
      trivial⟩, Json.joined_ofString _, ⟨hkeys.2.2, Json.joined_ofString _, trivial,
        Json.joined_ofString _, hitems, trivial⟩, trivial⟩
  refine bind_eq_ok.mpr ⟨_, hread, bind_eq_ok.mpr ⟨_, envelope_read.2, ?_⟩⟩
  refine bind_eq_ok.mpr ⟨_, get_entry (lookup_second (by decide) _ _ _), ?_⟩
  refine bind_eq_ok.mpr ⟨_, get_entry (lookup_second (by decide) _ _ _), ?_⟩
  refine bind_eq_ok.mpr ⟨_, iterate_orElse _, ?_⟩
  rw [mapM_toDict, other_ok]

/-- An entry of the vendor's list. -/
def rowRecord (row : Text × Nat) : BlockedRecord φ where
  members := blockedRow row
  number := Str.ofText row.1
  holds := lookup_second (by decide) _ _ _

theorem serves_blockedList {v : FakeTextTorrent} {pageSize page : Nat}
    (h : blockedList py limit v pageSize page = some response) :
    Serves py limit (((pageEntries v pageSize page).zipIdx ((page - 1) * pageSize)).map rowRecord)
      response := by
  have hkeys : [Str.ofString "blocked_list"].Nodup ∧
      [Str.ofString "current_page", Str.ofString "data"].Nodup ∧
      [Str.ofString "id", Str.ofString "number"].Nodup :=
    ⟨nodup_keys ["blocked_list"] (by decide),
      nodup_keys ["current_page", "data"] (by decide),
      nodup_keys ["id", "number"] (by decide)⟩
  have hrows : Json.PlainItems (((pageEntries v pageSize page).zipIdx ((page - 1) * pageSize)).map
      fun row => JsonValue.object (φ := φ) (blockedRow row)) := by
    refine Json.plainItems_iff.mpr fun row hrow => ?_
    obtain ⟨row, -, rfl⟩ := List.mem_map.mp hrow
    exact ⟨hkeys.2.2, Json.joined_ofString _, trivial, Json.joined_ofString _,
      Json.joined_ofText _, trivial⟩
  obtain ⟨hstatus, hloads⟩ := loads_envelope h ⟨hkeys.1, Json.joined_ofString _, ⟨hkeys.2.1,
    Json.joined_ofString _, trivial, Json.joined_ofString _, hrows, trivial⟩, trivial⟩
  refine ⟨hstatus ▸ by decide, _, [entry "blocked_list" (.object (blockedPage v pageSize page))],
    blockedPage v pageSize page, hloads, ?_, ?_, ?_, ?_⟩
  · simp [Members.get, Python.truthy]
  · rw [lookup_entry, if_neg (by decide), lookup_entry, if_neg (by decide),
      lookup_second (by decide)]
  · rw [lookup_entry, if_pos rfl]
  · rw [blockedPage, lookup_second (by decide), List.map_map]
    rfl

/-- A page of the list, as the client reads it. -/
theorem readPage_blockedList {v : FakeTextTorrent} {pageSize page : Nat}
    (h : blockedList py limit v pageSize page = some response) :
    readPage py limit response = .ok ((pageEntries v pageSize page).length,
      (pageEntries v pageSize page).map Str.ofText) := by
  rw [readPage_serves (serves_blockedList h), List.length_map, List.length_zipIdx, List.map_map]
  have hnumbers : BlockedRecord.number (φ := φ) ∘ rowRecord = Str.ofText ∘ Prod.fst := rfl
  rw [hnumbers, ← List.map_map, List.zipIdx_map_fst]

theorem mapM_str (numbers : List Text) :
    ((numbers.map text).mapM fun item => (py.str item).toOption) =
      some (numbers.map Str.ofText) := by
  induction numbers with
  | nil => rfl
  | cons number numbers ih =>
    rw [List.map_cons, List.mapM_cons, ih]
    rfl

/-- The push puts its numbers on the vendor's list, and the answer says so. -/
theorem block_taken {v v' : FakeTextTorrent} {numbers : List Text}
    (h : block py limit v (Json.dumps py.floats (blockBody numbers)) = some (response, v')) :
    blockTaken py limit N response = .ok () ∧
      v' = { v with optOuts := v.optOuts ++ numbers.map ("+1".toList ++ ·) } := by
  have hkeys : [Str.ofString "numbers"].Nodup := nodup_keys ["numbers"] (by decide)
  have hitem : ∀ item ∈ numbers.map (text (φ := φ)), Json.Plain item ∧ Json.Short item := by
    intro item hitem
    obtain ⟨number, -, rfl⟩ := List.mem_map.mp hitem
    exact ⟨Json.joined_ofText _, trivial⟩
  have hplain : Json.Plain (φ := φ) (blockBody numbers) := ⟨hkeys, Json.joined_ofString _,
    Json.plainItems_iff.mpr fun item h => (hitem item h).1, trivial⟩
  have hshort : Json.Short (φ := φ) (blockBody numbers) :=
    ⟨Json.shortItems_iff.mpr fun item h => (hitem item h).2, trivial⟩
  rw [block, hplain.loads_dumps py.floats hshort] at h
  split at h
  · have hok {ε α : Type} (a : α) : (Except.ok a : Except ε α).toOption = some a := rfl
    simp only [hok, blockBody, JsonValue.item, lookup_entry, if_true, JsonValue.iterate, mapM_str,
      bind, Option.bind_some, Option.bind_eq_some_iff] at h
    obtain ⟨_, -, answer, hanswer, h⟩ := h
    cases h
    have hread := request_envelope hanswer (by decide) trivial
    refine ⟨bind_eq_ok.mpr ⟨_, hread, bind_eq_ok.mpr ⟨_, envelope_read.1, rfl⟩⟩, ?_⟩
    rw [List.map_map]
    simp [Function.comp_def, Str.shown_ofText]
  · cases h

end Answers

end Outreach.TextTorrent.Client
