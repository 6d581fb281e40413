import TransportBackend.JsonTexts

/-!
# The messenger client's keypad

The client of the third messenger has no buttons under a message unless a webhook is set: a message's
buttons become the keypad at the bottom of its chat. It remembers what it sent last for every chat and
does not send the same keypad again.

* `toKeypad`, `stringify`: the keypad of a message's buttons and its signature;
* `RubikaBotClient`: what the client remembers of the chats;
* `sendMessage`, `editMessageText`, `editMessageReplyMarkup`, `deleteMessage`: its calls, each of which
  may throw;
* `Operation.perform`, `after`: a call with the answers of the service, and a run of them.
-/

namespace TransportBackend.RubikaClient

open TransportBackend.JsonTexts

/-! ### Keypads -/

inductive ButtonType
  | Simple
  | AskMyPhoneNumber
  | AskLocation
  deriving DecidableEq, Repr

structure RubikaButton where
  id : String
  type : ButtonType
  button_text : String
  deriving DecidableEq, Repr

structure RubikaRow where
  buttons : List RubikaButton
  deriving DecidableEq, Repr

structure RubikaKeypad where
  rows : List RubikaRow
  resize_keyboard : Option Bool
  on_time_keyboard : Option Bool
  deriving DecidableEq, Repr

/-- A button under a message or of a keyboard; a field that is absent is `none`. -/
structure Button where
  text : String
  callback_data : Option String
  url : Option String
  request_contact : Bool
  request_location : Bool
  deriving DecidableEq, Repr

def SHARE_PHONE_BUTTON_ID : String := "share_phone"

def SHARE_LOCATION_BUTTON_ID : String := "share_location"

/-- An absent text and the empty one are both false. -/
def given (s : Option String) : Bool := s.any fun t => t ≠ ""

def Button.toRubika (button : Button) : RubikaButton :=
  if button.request_contact then ⟨SHARE_PHONE_BUTTON_ID, .AskMyPhoneNumber, button.text⟩
  else if button.request_location then ⟨SHARE_LOCATION_BUTTON_ID, .AskLocation, button.text⟩
  else
    let id := if given button.callback_data then button.callback_data.getD "" else button.text
    ⟨id, .Simple, button.text⟩

/-- The keypad of some rows of buttons; buttons that open a link have no place in it. -/
def toKeypad (rows : List (List Button)) : RubikaKeypad where
  rows := (rows.map fun row =>
    RubikaRow.mk ((row.filter fun button => ¬ given button.url).map Button.toRubika)).filter
      fun row => row.buttons.length > 0
  resize_keyboard := none
  on_time_keyboard := none

/-! ### Signatures -/

def ButtonType.toString : ButtonType → String
  | .Simple => "Simple"
  | .AskMyPhoneNumber => "AskMyPhoneNumber"
  | .AskLocation => "AskLocation"

def RubikaButton.json (button : RubikaButton) : List Char :=
  "\x7b\"id\":".toList ++ (quotedString button.id ++ (",\"type\":".toList ++
    (quotedString button.type.toString ++ (",\"button_text\":".toList ++
      (quotedString button.button_text ++ "\x7d".toList)))))

def RubikaRow.json (row : RubikaRow) : List Char :=
  "\x7b\"buttons\":".toList ++ (array RubikaButton.json row.buttons ++ "\x7d".toList)

def flag (name : String) : Option Bool → List Char
  | none => []
  | some value => name.toList ++ truth value

def RubikaKeypad.json (keypad : RubikaKeypad) : List Char :=
  "\x7b\"rows\":".toList ++ (array RubikaRow.json keypad.rows ++
    (flag ",\"resize_keyboard\":" keypad.resize_keyboard ++
      (flag ",\"on_time_keyboard\":" keypad.on_time_keyboard ++ "\x7d".toList)))

/-- `JSON.stringify` of a keypad. -/
def stringify (keypad : RubikaKeypad) : String := String.ofList keypad.json

/-! ### The client and the service -/

structure ReplyMarkup where
  inline_keyboard : Option (List (List Button))
  keyboard : Option (List (List Button))
  remove_keyboard : Bool
  deriving DecidableEq, Repr

inductive KeypadType
  | New
  | Remove
  deriving DecidableEq, Repr

inductive Method
  | sendMessage
  | editMessageText
  | editMessageKeypad
  | editChatKeypad
  | deleteMessage
  deriving DecidableEq, Repr

def Method.toString : Method → String
  | .sendMessage => "sendMessage"
  | .editMessageText => "editMessageText"
  | .editMessageKeypad => "editMessageKeypad"
  | .editChatKeypad => "editChatKeypad"
  | .deleteMessage => "deleteMessage"

/-- What is posted to the service. -/
structure Body where
  chat_id : String
  message_id : Option String
  text : Option String
  inline_keypad : Option RubikaKeypad
  chat_keypad : Option RubikaKeypad
  chat_keypad_type : Option KeypadType
  deriving DecidableEq, Repr

/-- A body that names the chat only. -/
def Body.ofChat (chatId : String) : Body := ⟨chatId, none, none, none, none, none⟩

structure RubikaBotApiError where
  message : String
  statusCode : ℕ
  description : String
  deriving DecidableEq, Repr

def RubikaBotApiError.of (method : Method) (status : String) : RubikaBotApiError where
  message := "Rubika " ++ method.toString ++ " failed: " ++ status
  statusCode :=
    if status = "INVALID_INPUT" then 400
    else if status = "INVALID_ACCESS" then 403
    else if status = "TOO_REQUESTS" then 429
    else 500
  description := status

/-- A call that throws: the service refused it, or the request itself failed. -/
inductive CallError
  | api (error : RubikaBotApiError)
  | http
  deriving DecidableEq, Repr

/-- What comes back of one request: a status with the new message's id, or nothing. -/
inductive Response
  | data (status : Option String) (message_id : String)
  | lost
  deriving DecidableEq, Repr

/-- The call returns. -/
def Response.ok : Response → Bool
  | .data status _ => status = some "OK"
  | .lost => false

/-- What the client remembers of each chat: the message whose buttons are the keypad, and the
keypad's signature. -/
structure RubikaBotClient where
  keypadMessage : String → Option String
  keypadShown : String → Option String

/-- The client, the keypad on each chat's screen, and the answers still to come. -/
structure World where
  client : RubikaBotClient
  screen : String → Option RubikaKeypad
  responses : List Response

abbrev ClientM := ExceptT CallError (StateM World)

/-- A map with one entry set or deleted. -/
def put {α : Type} (map : String → Option α) (key : String) (value : Option α) : String → Option α :=
  fun k => if k = key then value else map k

def setMessage (chatId : String) (value : Option String) : ClientM Unit :=
  modify fun w => { w with client.keypadMessage := put w.client.keypadMessage chatId value }

def setShown (chatId : String) (value : Option String) : ClientM Unit :=
  modify fun w => { w with client.keypadShown := put w.client.keypadShown chatId value }

/-- The screens after a body the service took: the keypad changes only if the body says so. -/
def Body.onScreen (body : Body) (screen : String → Option RubikaKeypad) :
    String → Option RubikaKeypad :=
  match body.chat_keypad_type with
  | some .New => put screen body.chat_id body.chat_keypad
  | some .Remove => put screen body.chat_id none
  | none => screen

/-- One request: it takes effect and returns the message's id, or throws and changes no screen. -/
def call (method : Method) (body : Body) : ClientM String := fun w =>
  match w.responses with
  | [] => (.error .http, w)
  | .lost :: rest => (.error .http, { w with responses := rest })
  | .data status id :: rest =>
      if status = some "OK" then
        (.ok id, { w with responses := rest, screen := body.onScreen w.screen })
      else
        (.error (.api (.of method (status.getD "NO_RESPONSE"))), { w with responses := rest })

/-! ### The client's calls -/

/-- Links stand under the text. -/
def withLinks (text : String) (markup : Option ReplyMarkup) : String :=
  let links := (((markup.bind ReplyMarkup.inline_keyboard).getD []).flatten.filter
    fun button => given button.url)
  if links.length ≠ 0 then
    text ++ "\n\n" ++ String.intercalate "\n" (links.map fun button =>
      button.text ++ ": " ++ button.url.getD "")
  else text

/-- The keypad fields of a message that carries a markup, and whether its buttons become the chat's
keypad. -/
def attach (inlineMode : Bool) (body : Body) (markup : Option ReplyMarkup) :
    ClientM (Body × Bool) := do
  match markup with
  | none => return (body, false)
  | some markup =>
    match markup.inline_keyboard with
    | some rows =>
      let keypad := toKeypad rows
      if inlineMode then
        if keypad.rows.length ≠ 0 then return ({ body with inline_keypad := some keypad }, false)
        else return (body, false)
      else if keypad.rows.length ≠ 0 then
        let signature := stringify keypad
        let w ← get
        if w.client.keypadShown body.chat_id ≠ some signature then
          -- Remembered as shown before the service has taken the message.
          setShown body.chat_id (some signature)
          return ({ body with
            chat_keypad := some { keypad with resize_keyboard := some true }
            chat_keypad_type := some .New }, true)
        else return (body, true)
      else return (body, false)
    | none =>
      match markup.keyboard with
      | some rows =>
        setShown body.chat_id none
        return ({ body with
          chat_keypad := some { toKeypad rows with
            resize_keyboard := some true, on_time_keyboard := some true }
          chat_keypad_type := some .New }, false)
      | none =>
        if markup.remove_keyboard then
          setShown body.chat_id none
          return ({ body with chat_keypad_type := some .Remove }, false)
        else return (body, false)

/-- The message's id. -/
def sendMessage (inlineMode : Bool) (chatId text : String) (markup : Option ReplyMarkup) :
    ClientM String := do
  let body := { Body.ofChat chatId with text := some (withLinks text markup) }
  let (body, keypadAttached) ← attach inlineMode body markup
  let message_id ← call .sendMessage body
  if keypadAttached then setMessage chatId (some message_id)
  return message_id

def editMessageReplyMarkup (inlineMode : Bool) (rows : List (List Button))
    (chatId messageId : String) : ClientM Bool := do
  let keypad := toKeypad rows
  if inlineMode then
    let _ ← call .editMessageKeypad
      { Body.ofChat chatId with message_id := some messageId, inline_keypad := some keypad }
    return true
  else
    let w ← get
    -- Only the message whose buttons are the chat's keypad may change it.
    if w.client.keypadMessage chatId ≠ some messageId then return true
    else if keypad.rows.length ≠ 0 then
      let signature := stringify keypad
      if w.client.keypadShown chatId = some signature then return true
      else
        let _ ← call .editChatKeypad { Body.ofChat chatId with
          chat_keypad := some { keypad with resize_keyboard := some true }
          chat_keypad_type := some .New }
        setShown chatId (some signature)
        return true
    else
      setMessage chatId none
      setShown chatId none
      let _ ← call .editChatKeypad { Body.ofChat chatId with chat_keypad_type := some .Remove }
      return true

def editMessageText (inlineMode : Bool) (text chatId messageId : String)
    (markup : Option ReplyMarkup) : ClientM Bool := do
  let _ ← call .editMessageText
    { Body.ofChat chatId with message_id := some messageId, text := some text }
  match markup.bind ReplyMarkup.inline_keyboard with
  | some rows =>
    let _ ← editMessageReplyMarkup inlineMode rows chatId messageId
    return true
  | none => return true

def deleteMessage (inlineMode : Bool) (chatId messageId : String) : ClientM Bool := do
  let _ ← call .deleteMessage { Body.ofChat chatId with message_id := some messageId }
  let w ← get
  if inlineMode = false ∧ w.client.keypadMessage chatId = some messageId then
    setMessage chatId none
    setShown chatId none
    tryCatch
      (do let _ ← call .editChatKeypad { Body.ofChat chatId with chat_keypad_type := some .Remove })
      fun _ => return ()
  return true

/-! ### Runs -/

inductive Operation
  | sendMessage (chatId text : String) (markup : Option ReplyMarkup)
  | editMessageText (text chatId messageId : String) (markup : Option ReplyMarkup)
  | editMessageReplyMarkup (rows : List (List Button)) (chatId messageId : String)
  | deleteMessage (chatId messageId : String)
  deriving DecidableEq, Repr

/-- One call of the bot, with what the service answers to its requests. -/
structure Act where
  operation : Operation
  responses : List Response
  deriving DecidableEq, Repr

/-- A call made: whether it returned, and the world it leaves. -/
def made {α : Type} (m : ClientM α) (w : World) : Bool × World :=
  match m w with
  | (.ok _, w') => (true, w')
  | (.error _, w') => (false, w')

/-- A call in polling mode, with the answers its requests get. -/
def perform (w : World) (act : Act) : Bool × World :=
  let w := { w with responses := act.responses }
  match act.operation with
  | .sendMessage chatId text markup => made (sendMessage false chatId text markup) w
  | .editMessageText text chatId messageId markup =>
      made (editMessageText false text chatId messageId markup) w
  | .editMessageReplyMarkup rows chatId messageId =>
      made (editMessageReplyMarkup false rows chatId messageId) w
  | .deleteMessage chatId messageId => made (deleteMessage false chatId messageId) w

/-- A client that has just started, with screens as earlier processes left them. -/
def World.start (screen : String → Option RubikaKeypad) : World where
  client := ⟨fun _ => none, fun _ => none⟩
  screen := screen
  responses := []

/-- The world after some calls, one after another. -/
def after (w : World) (acts : List Act) : World := acts.foldl (fun w act => (perform w act).2) w

end TransportBackend.RubikaClient
