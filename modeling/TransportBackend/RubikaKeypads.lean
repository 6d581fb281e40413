import Mathlib.Data.List.Induction
import TransportBackend.RubikaClient

/-!
# The keypad the client believes is on the screen

* `toKeypad_stringify`: two keypads of one signature are one keypad;
* `Returns`: what a call that may throw leaves behind, with a rule for each of its parts;
* `sendMessage_keeps`, `editMessageReplyMarkup_keeps`, `deleteMessage_keeps`: one call;
* `faithful_of_safe`: calls that lose no new keypad keep the client's memory right;
* `keypadKnown_iff`: a run keeps it right exactly when no sending of a new keypad fails.
-/

namespace TransportBackend.RubikaKeypads

open TransportBackend.JsonTexts
open TransportBackend.RubikaClient

/-! ### Signatures -/

theorem ButtonType.toString_injective : Function.Injective ButtonType.toString := by
  intro a b h
  cases a <;> cases b <;> first | rfl | exact absurd h (by decide)

theorem button_delimits : Delimits RubikaButton.json := by
  have hfields := ((((quotedString_delimits.comp ButtonType.toString_injective).pair
    ((quotedString_delimits.before "\x7d".toList).after ",\"button_text\":".toList)).after
      ",\"type\":".toList))
  have hall := (quotedString_delimits.pair hfields).after "\x7b\"id\":".toList
  intro a b s t hab
  unfold RubikaButton.json at hab
  obtain ⟨hparts, hst⟩ := hall (a.id, a.type, a.button_text) (b.id, b.type, b.button_text) s t hab
  cases a
  cases b
  cases hparts
  exact ⟨rfl, hst⟩

theorem row_delimits : Delimits RubikaRow.json := by
  have hbuttons := (button_delimits.array (by decide : '\x7b' ≠ ']') fun _ => ⟨_, rfl⟩)
  have hall := (hbuttons.before "\x7d".toList).after "\x7b\"buttons\":".toList
  intro a b s t hab
  unfold RubikaRow.json at hab
  obtain ⟨hparts, hst⟩ := hall a.buttons b.buttons s t hab
  cases a
  cases b
  cases hparts
  exact ⟨rfl, hst⟩

/-- **A signature belongs to one keypad.** -/
theorem toKeypad_stringify {rows rows' : List (List Button)}
    (h : stringify (toKeypad rows) = stringify (toKeypad rows')) :
    toKeypad rows = toKeypad rows' := by
  have hjson : (toKeypad rows).json = (toKeypad rows').json := String.ofList_injective h
  have hrows := (row_delimits.array (by decide : '\x7b' ≠ ']') fun _ => ⟨_, rfl⟩)
  have hrow : (toKeypad rows).rows = (toKeypad rows').rows :=
    (hrows _ _ _ _ (List.append_cancel_left hjson)).1
  have hflags (r : List (List Button)) : toKeypad r = ⟨(toKeypad r).rows, none, none⟩ := rfl
  rw [hflags rows, hrow, ← hflags]

/-! ### What a call leaves behind -/

variable {α β : Type}

/-- Whether the call returns or throws, what holds afterwards. -/
def Returns (m : ClientM α) (w : World) (returned : α → World → Prop) (thrown : World → Prop) :
    Prop :=
  match m w with
  | (.ok a, w') => returned a w'
  | (.error _, w') => thrown w'

variable {w : World} {R : α → World → Prop} {T : World → Prop}

@[simp] theorem returns_pure (a : α) : Returns (pure a) w R T ↔ R a w := Iff.rfl

@[simp] theorem returns_get {R : World → World → Prop} : Returns get w R T ↔ R w w := Iff.rfl

@[simp] theorem returns_bind {R : β → World → Prop} (m : ClientM α) (f : α → ClientM β) :
    Returns (m >>= f) w R T ↔ Returns m w (fun a w' => Returns (f a) w' R T) T := by
  have hbind : (m >>= f) w = (match m w with
      | (.ok a, w') => f a w'
      | (.error e, w') => (.error e, w') : Except CallError β × World) := by
    show (ExceptT.bindCont f (m w).1) (m w).2 = _
    cases hm : m w with
    | mk r w' => cases r <;> rfl
  unfold Returns
  rw [hbind]
  cases m w with
  | mk r w' => cases r <;> exact Iff.rfl

@[simp] theorem returns_map {R : β → World → Prop} (f : α → β) (m : ClientM α) :
    Returns (f <$> m) w R T ↔ Returns m w (fun a w' => R (f a) w') T := by
  rw [← bind_pure_comp, returns_bind]
  exact Iff.rfl

theorem returns_ite (c : Prop) [Decidable c] (m m' : ClientM α) :
    Returns (if c then m else m') w R T ↔
      (c → Returns m w R T) ∧ (¬ c → Returns m' w R T) := by
  by_cases hc : c
  · simp [hc]
  · simp [hc]

@[simp] theorem returns_setShown {R : Unit → World → Prop} (chatId : String)
    (value : Option String) : Returns (setShown chatId value) w R T ↔
      R () { w with client.keypadShown := put w.client.keypadShown chatId value } := Iff.rfl

@[simp] theorem returns_setMessage {R : Unit → World → Prop} (chatId : String)
    (value : Option String) : Returns (setMessage chatId value) w R T ↔
      R () { w with client.keypadMessage := put w.client.keypadMessage chatId value } := Iff.rfl

/-- The first request is taken, and gives the message this id. -/
def Taken (w : World) (id : String) : Prop := w.responses.head? = some (.data (some "OK") id)

/-- A request taken changes the screen as its body says; one that throws changes nothing. -/
@[simp] theorem returns_call {R : String → World → Prop} (method : Method) (body : Body) :
    Returns (call method body) w R T ↔
      (∀ id, Taken w id → R id { w with
        responses := w.responses.tail, screen := body.onScreen w.screen }) ∧
      ((∀ id, ¬ Taken w id) → T { w with responses := w.responses.tail }) := by
  unfold Returns call Taken
  rcases w with ⟨client, screen, responses⟩
  cases responses with
  | nil => simp
  | cons response rest =>
      cases response with
      | lost => simp
      | data status id =>
          by_cases hstatus : status = some "OK"
          · simp [hstatus]
          · simp [hstatus]

/-- What a caught call leaves, returned or not. -/
@[simp] theorem returns_caught {R : Unit → World → Prop} (m : ClientM Unit) :
    Returns (tryCatch m fun _ => pure ()) w R T ↔ Returns m w R (R ()) := by
  have hcaught : (tryCatch m fun _ => pure () : ClientM Unit) w = (.ok (), (m w).2) := by
    show (ExceptT.tryCatch m fun _ => pure () : StateM World _) w = _
    cases hm : m w with
    | mk r w' =>
        cases r with
        | ok a =>
            simp only [ExceptT.tryCatch, ExceptT.mk, bind, StateT.bind, hm]
            rfl
        | error e =>
            simp only [ExceptT.tryCatch, ExceptT.mk, bind, StateT.bind, hm]
            rfl
  unfold Returns
  rw [hcaught]
  cases m w with
  | mk r w' => cases r <;> exact Iff.rfl

/-! ### The client's memory and the screens -/

/-- The chat's screen has this keypad. -/
def Shows (screen : String → Option RubikaKeypad) (chatId : String) (keypad : RubikaKeypad) : Prop :=
  screen chatId = some { keypad with resize_keyboard := some true }

/-- **The client's memory is right**: a signature remembered for a chat is that of the keypad on its
screen. -/
def Faithful (w : World) : Prop :=
  ∀ chatId signature, w.client.keypadShown chatId = some signature →
    ∃ rows, stringify (toKeypad rows) = signature ∧ Shows w.screen chatId (toKeypad rows)

theorem put_self {α : Type} (map : String → Option α) (key : String) (value : Option α) :
    put map key value key = value := if_pos rfl

theorem put_of_ne {α : Type} (map : String → Option α) {key k : String} (value : Option α)
    (h : k ≠ key) : put map key value k = map k := if_neg h

/-- Only one chat's entry and screen change, and a signature entered is that of the screen. -/
theorem Faithful.update (h : Faithful w) {w' : World} (chatId : String)
    (hother : ∀ c, c ≠ chatId → w'.client.keypadShown c = w.client.keypadShown c ∧
      w'.screen c = w.screen c)
    (hchat : ∀ signature, w'.client.keypadShown chatId = some signature →
      ∃ rows, stringify (toKeypad rows) = signature ∧ Shows w'.screen chatId (toKeypad rows)) :
    Faithful w' := by
  intro c signature hshown
  by_cases hc : c = chatId
  · subst hc
    exact hchat signature hshown
  · obtain ⟨hsame, hscreen⟩ := hother c hc
    obtain ⟨rows, hrows, hshows⟩ := h c signature (hsame ▸ hshown)
    exact ⟨rows, hrows, hscreen.trans hshows⟩

/-- A chat of which nothing is remembered may show anything. -/
theorem Faithful.forget (h : Faithful w) {w' : World} (chatId : String)
    (hshown : w'.client.keypadShown = put w.client.keypadShown chatId none)
    (hscreen : ∀ c, c ≠ chatId → w'.screen c = w.screen c) : Faithful w' := by
  refine h.update chatId (fun c hc => ⟨?_, hscreen c hc⟩) fun signature hsignature => ?_
  · rw [hshown, put_of_ne _ _ hc]
  · rw [hshown, put_self] at hsignature
    cases hsignature

/-- A keypad remembered and shown. -/
theorem Faithful.remember (h : Faithful w) {w' : World} (chatId : String) (rows : List (List Button))
    (hshown : w'.client.keypadShown =
      put w.client.keypadShown chatId (some (stringify (toKeypad rows))))
    (hshows : Shows w'.screen chatId (toKeypad rows))
    (hscreen : ∀ c, c ≠ chatId → w'.screen c = w.screen c) : Faithful w' := by
  refine h.update chatId (fun c hc => ⟨?_, hscreen c hc⟩) fun signature hsignature => ?_
  · rw [hshown, put_of_ne _ _ hc]
  · rw [hshown, put_self] at hsignature
    exact ⟨rows, Option.some.inj hsignature, hshows⟩

/-! ### One call -/

/-- A sending of a new keypad that fails leaves the client believing in a keypad no screen has. -/
def Loses (w : World) (act : Act) : Prop :=
  ∃ chatId text markup rows, act.operation = .sendMessage chatId text (some markup) ∧
    markup.inline_keyboard = some rows ∧ (toKeypad rows).rows ≠ [] ∧
    w.client.keypadShown chatId ≠ some (stringify (toKeypad rows)) ∧
    (∀ id, act.responses.head? ≠ some (.data (some "OK") id)) ∧
    ¬ Shows w.screen chatId (toKeypad rows)

/-- What a sending of a keypad to a chat promises when it returns. -/
def SentShown (chatId : String) (markup : Option ReplyMarkup) (w : World) : Prop :=
  ∀ rows, (markup.bind ReplyMarkup.inline_keyboard) = some rows → (toKeypad rows).rows ≠ [] →
    Shows w.screen chatId (toKeypad rows)

/-- A message without buttons of its own promises nothing. -/
theorem sentShown_of_none {chatId : String} {markup : Option ReplyMarkup}
    (h : markup.bind ReplyMarkup.inline_keyboard = none) (w : World) :
    SentShown chatId markup w := by
  intro rows hrows
  rw [h] at hrows
  cases hrows

/-- A message whose buttons are all links promises nothing. -/
theorem sentShown_of_empty {chatId : String} {markup : ReplyMarkup} {rows : List (List Button)}
    (hrows : markup.inline_keyboard = some rows) (hempty : (toKeypad rows).rows = []) (w : World) :
    SentShown chatId (some markup) w := by
  intro rows' hrows' hne
  have hsame : rows = rows' := Option.some.inj (hrows.symm.trans hrows')
  exact absurd hempty (hsame ▸ hne)

theorem sentShown_of_shows {chatId : String} {markup : ReplyMarkup} {rows : List (List Button)}
    (hrows : markup.inline_keyboard = some rows) {w : World}
    (hshows : Shows w.screen chatId (toKeypad rows)) : SentShown chatId (some markup) w := by
  intro rows' hrows' _
  have hsame : rows = rows' := Option.some.inj (hrows.symm.trans hrows')
  exact hsame ▸ hshows

/-- The chat the signature is remembered for shows the keypad. -/
theorem Faithful.shows (h : Faithful w) {chatId : String} {rows : List (List Button)}
    (hshown : w.client.keypadShown chatId = some (stringify (toKeypad rows))) :
    Shows w.screen chatId (toKeypad rows) := by
  obtain ⟨rows', hrows', hshows⟩ := h chatId _ hshown
  rw [← toKeypad_stringify hrows']
  exact hshows

/-- Sending keeps the memory right unless a new keypad is lost, and a keypad sent is shown. -/
theorem sendMessage_keeps (h : Faithful w) (chatId text : String) (markup : Option ReplyMarkup)
    (hsafe : ∀ rows, (markup.bind ReplyMarkup.inline_keyboard) = some rows →
      (toKeypad rows).rows ≠ [] →
      w.client.keypadShown chatId ≠ some (stringify (toKeypad rows)) →
      (∀ id, ¬ Taken w id) → Shows w.screen chatId (toKeypad rows)) :
    Returns (sendMessage false chatId text markup) w
      (fun _ w' => Faithful w' ∧ SentShown chatId markup w') Faithful := by
  unfold sendMessage attach
  cases markup with
  | none =>
      simp only [Body.ofChat, Body.onScreen, returns_bind, returns_pure, returns_call]
      exact ⟨fun _ _ => ⟨h, sentShown_of_none rfl _⟩, fun _ => h⟩
  | some markup =>
      cases hinline : markup.inline_keyboard with
      | some rows =>
          by_cases hempty : (toKeypad rows).rows = []
          · simp [hinline, hempty, Body.ofChat, Body.onScreen]
            exact ⟨fun _ _ => ⟨h, sentShown_of_empty hinline hempty _⟩, fun _ => h⟩
          · by_cases hshown : w.client.keypadShown chatId = some (stringify (toKeypad rows))
            · -- The keypad is on the screen already, and the message says nothing about it.
              simp [hinline, hempty, hshown, Body.ofChat, Body.onScreen]
              exact ⟨fun _ _ => ⟨h, sentShown_of_shows hinline (h.shows hshown)⟩, fun _ => h⟩
            · simp [hinline, hempty, hshown, Body.ofChat, Body.onScreen, Taken]
              refine ⟨fun id _ => ?_, fun hlost => ?_⟩
              · have hshows : Shows (put w.screen chatId (some { toKeypad rows with
                    resize_keyboard := some true })) chatId (toKeypad rows) := put_self _ _ _
                exact ⟨h.remember chatId rows rfl hshows fun c hc => put_of_ne _ _ hc,
                  sentShown_of_shows hinline hshows⟩
              · exact h.remember chatId rows rfl (hsafe rows hinline hempty hshown hlost)
                  fun _ _ => rfl
      | none =>
          have hnone : (some markup).bind ReplyMarkup.inline_keyboard = none := hinline
          cases hkeyboard : markup.keyboard with
          | some rows =>
              simp [hinline, hkeyboard, Body.ofChat, Body.onScreen]
              exact ⟨fun _ _ => ⟨h.forget chatId rfl fun c hc => put_of_ne _ _ hc,
                sentShown_of_none hnone _⟩, fun _ => h.forget chatId rfl fun _ _ => rfl⟩
          | none =>
              cases hremove : markup.remove_keyboard with
              | true =>
                  simp [hinline, hkeyboard, hremove, Body.ofChat, Body.onScreen]
                  exact ⟨fun _ _ => ⟨h.forget chatId rfl fun c hc => put_of_ne _ _ hc,
                    sentShown_of_none hnone _⟩, fun _ => h.forget chatId rfl fun _ _ => rfl⟩
              | false =>
                  simp [hinline, hkeyboard, hremove, Body.ofChat, Body.onScreen]
                  exact ⟨fun _ _ => ⟨h, sentShown_of_none hnone _⟩, fun _ => h⟩

/-- A new keypad that is lost is remembered all the same. -/
theorem sendMessage_loses {chatId text : String} {markup : ReplyMarkup} {rows : List (List Button)}
    (hinline : markup.inline_keyboard = some rows) (hne : (toKeypad rows).rows ≠ [])
    (hnew : w.client.keypadShown chatId ≠ some (stringify (toKeypad rows)))
    (hlost : ∀ id, ¬ Taken w id) (hscreen : ¬ Shows w.screen chatId (toKeypad rows)) :
    Returns (sendMessage false chatId text (some markup)) w (fun _ _ => False)
      fun w' => ¬ Faithful w' := by
  unfold sendMessage attach
  have hlost' : ∀ id, w.responses.head? ≠ some (.data (some "OK") id) := hlost
  simp [hinline, hne, hnew, Body.ofChat, Taken, hlost']
  intro hfaithful
  exact hscreen (hfaithful.shows (put_self _ _ _))

/-! ### The other calls -/

theorem editMessageReplyMarkup_keeps (h : Faithful w) (rows : List (List Button))
    (chatId messageId : String) :
    Returns (editMessageReplyMarkup false rows chatId messageId) w (fun _ w' => Faithful w')
      Faithful := by
  unfold editMessageReplyMarkup
  by_cases hmessage : w.client.keypadMessage chatId = some messageId
  · by_cases hempty : (toKeypad rows).rows = []
    · simp [hmessage, hempty, Body.ofChat, Body.onScreen]
      exact ⟨fun _ _ => h.forget chatId rfl fun c hc => put_of_ne _ _ hc,
        fun _ => h.forget chatId rfl fun _ _ => rfl⟩
    · by_cases hshown : w.client.keypadShown chatId = some (stringify (toKeypad rows))
      · simpa [hmessage, hempty, hshown] using h
      · -- Remembered only after the service has taken it.
        simp [hmessage, hempty, hshown, Body.ofChat, Body.onScreen]
        exact ⟨fun _ _ => h.remember chatId rows rfl (put_self _ _ _) fun c hc => put_of_ne _ _ hc,
          fun _ => h⟩
  · simpa [hmessage] using h

theorem editMessageText_keeps (h : Faithful w) (text chatId messageId : String)
    (markup : Option ReplyMarkup) :
    Returns (editMessageText false text chatId messageId markup) w (fun _ w' => Faithful w')
      Faithful := by
  unfold editMessageText
  simp only [Body.ofChat, Body.onScreen, returns_bind, returns_call]
  refine ⟨fun _ _ => ?_, fun _ => h⟩
  cases markup.bind ReplyMarkup.inline_keyboard with
  | none => exact h
  | some rows =>
      have hedit : Faithful { w with responses := w.responses.tail } := h
      simpa using editMessageReplyMarkup_keeps hedit rows chatId messageId

theorem deleteMessage_keeps (h : Faithful w) (chatId messageId : String) :
    Returns (deleteMessage false chatId messageId) w (fun _ w' => Faithful w') Faithful := by
  unfold deleteMessage
  by_cases hmessage : w.client.keypadMessage chatId = some messageId
  · simp [hmessage, Body.ofChat, Body.onScreen]
    exact ⟨fun _ _ => ⟨fun _ _ => h.forget chatId rfl fun c hc => put_of_ne _ _ hc,
      fun _ => h.forget chatId rfl fun _ _ => rfl⟩, fun _ => h⟩
  · simp [hmessage, Body.ofChat, Body.onScreen]
    exact ⟨fun _ _ => h, fun _ => h⟩

/-! ### Runs -/

theorem made_of_returns {m : ClientM α} (h : Returns m w R T) :
    ((made m w).1 = true → ∃ a, R a (made m w).2) ∧
      ((made m w).1 = false → T (made m w).2) := by
  unfold Returns at h
  unfold made
  cases hm : m w with
  | mk r w' =>
      rw [hm] at h
      cases r with
      | ok a => exact ⟨fun _ => ⟨a, h⟩, fun hfalse => absurd hfalse (by simp)⟩
      | error e => exact ⟨fun htrue => absurd htrue (by simp), fun _ => h⟩

/-- A call that keeps the memory right whether it returns or throws. -/
theorem made_faithful {m : ClientM α} (h : Returns m w (fun _ w' => Faithful w') Faithful) :
    Faithful (made m w).2 := by
  obtain ⟨hreturned, hthrown⟩ := made_of_returns h
  cases hm : (made m w).1 with
  | true =>
      obtain ⟨_, hfaithful⟩ := hreturned hm
      exact hfaithful
  | false => exact hthrown hm

/-- What is not lost, as the sending asks for it. -/
theorem safe_of_not_loses {act : Act} {chatId text : String} {markup : Option ReplyMarkup}
    (hact : act.operation = .sendMessage chatId text markup) (hsafe : ¬ Loses w act) :
    ∀ rows, (markup.bind ReplyMarkup.inline_keyboard) = some rows → (toKeypad rows).rows ≠ [] →
      w.client.keypadShown chatId ≠ some (stringify (toKeypad rows)) →
      (∀ id, ¬ Taken { w with responses := act.responses } id) →
      Shows w.screen chatId (toKeypad rows) := by
  intro rows hrows hne hnew hlost
  cases markup with
  | none => cases hrows
  | some markup =>
      by_contra hscreen
      exact hsafe ⟨chatId, text, markup, rows, hact, hrows, hne, hnew, hlost, hscreen⟩

theorem perform_faithful {act : Act} (h : Faithful w) (hsafe : ¬ Loses w act) :
    Faithful (perform w act).2 := by
  have hstart : Faithful { w with responses := act.responses } := h
  unfold perform
  cases hact : act.operation with
  | sendMessage chatId text markup =>
      obtain ⟨hreturned, hthrown⟩ := made_of_returns
        (sendMessage_keeps hstart chatId text markup (safe_of_not_loses hact hsafe))
      dsimp only
      cases hm : (made (sendMessage false chatId text markup)
          { w with responses := act.responses }).1 with
      | true =>
          obtain ⟨_, hfaithful, _⟩ := hreturned hm
          exact hfaithful
      | false => exact hthrown hm
  | editMessageText text chatId messageId markup =>
      exact made_faithful (editMessageText_keeps hstart text chatId messageId markup)
  | editMessageReplyMarkup rows chatId messageId =>
      exact made_faithful (editMessageReplyMarkup_keeps hstart rows chatId messageId)
  | deleteMessage chatId messageId =>
      exact made_faithful (deleteMessage_keeps hstart chatId messageId)

theorem perform_sent {act : Act} {chatId text : String} {markup : Option ReplyMarkup}
    (h : Faithful w) (hsafe : ¬ Loses w act)
    (hact : act.operation = .sendMessage chatId text markup) (hreturned : (perform w act).1 = true) :
    SentShown chatId markup (perform w act).2 := by
  have hstart : Faithful { w with responses := act.responses } := h
  have hperform : perform w act = made (sendMessage false chatId text markup)
      { w with responses := act.responses } := by
    unfold perform
    rw [hact]
  rw [hperform] at hreturned ⊢
  obtain ⟨_, _, hsent⟩ := (made_of_returns
    (sendMessage_keeps hstart chatId text markup (safe_of_not_loses hact hsafe))).1 hreturned
  exact hsent

theorem perform_loses {act : Act} (h : Loses w act) : ¬ Faithful (perform w act).2 := by
  obtain ⟨chatId, text, markup, rows, hact, hinline, hne, hnew, hlost, hscreen⟩ := h
  have hperform : perform w act = made (sendMessage false chatId text (some markup))
      { w with responses := act.responses } := by
    unfold perform
    rw [hact]
  rw [hperform]
  have hsend : Returns (sendMessage false chatId text (some markup))
      { w with responses := act.responses } (fun _ _ => False) fun w' => ¬ Faithful w' :=
    sendMessage_loses hinline hne hnew hlost hscreen
  obtain ⟨hreturned, hthrown⟩ := made_of_returns hsend
  cases hm : (made (sendMessage false chatId text (some markup))
      { w with responses := act.responses }).1 with
  | true =>
      obtain ⟨_, hnever⟩ := hreturned hm
      exact hnever.elim
  | false => exact hthrown hm

/-! ### Runs -/

theorem after_append (w : World) (l : List Act) (act : Act) :
    after w (l ++ [act]) = (perform (after w l) act).2 := by
  simp [after]

theorem start_faithful (screen : String → Option RubikaKeypad) : Faithful (World.start screen) := by
  intro chatId signature hshown
  cases hshown

/-- **The client knows which keypad is on screen**, at every point of a run, and a keypad sent with
success is there. -/
def KeypadKnown (screen : String → Option RubikaKeypad) (acts : List Act) : Prop :=
  (∀ l, l <+: acts → Faithful (after (World.start screen) l)) ∧
    ∀ l act chatId text markup, l ++ [act] <+: acts →
      act.operation = .sendMessage chatId text markup →
      (perform (after (World.start screen) l) act).1 = true →
      SentShown chatId markup (after (World.start screen) (l ++ [act]))

theorem faithful_of_safe {screen : String → Option RubikaKeypad} {acts : List Act}
    (hsafe : ∀ l act, l ++ [act] <+: acts → ¬ Loses (after (World.start screen) l) act) :
    Faithful (after (World.start screen) acts) := by
  induction acts using List.reverseRecOn with
  | nil => exact start_faithful screen
  | append_singleton l act ih =>
      rw [after_append]
      refine perform_faithful (ih fun l' act' hl' => ?_) (hsafe l act List.prefix_rfl)
      exact hsafe l' act' (hl'.trans (List.prefix_append _ _))

/-- **The memory is right throughout a run exactly when no sending of a new keypad fails** while the
chat's screen has another. -/
theorem keypadKnown_iff (screen : String → Option RubikaKeypad) (acts : List Act) :
    KeypadKnown screen acts ↔
      ∀ l act, l ++ [act] <+: acts → ¬ Loses (after (World.start screen) l) act := by
  constructor
  · rintro ⟨hfaithful, _⟩ l act hl hloses
    have hbroken := perform_loses hloses
    rw [← after_append] at hbroken
    exact hbroken (hfaithful _ hl)
  · intro hsafe
    have hall : ∀ l, l <+: acts → Faithful (after (World.start screen) l) := fun l hl =>
      faithful_of_safe fun l' act' hl' => hsafe l' act' (hl'.trans hl)
    refine ⟨hall, fun l act chatId text markup hl hact hreturned => ?_⟩
    rw [after_append]
    exact perform_sent (hall l ((List.prefix_append _ _).trans hl)) (hsafe l act hl) hact hreturned

/-- One button of a menu. -/
def homeButton : Button := ⟨"منو", some "menu", none, false, false⟩

def homeMarkup : ReplyMarkup := ⟨some [[homeButton]], none, false⟩

/-- The menu sent twice: the first request is lost, the second is taken. -/
def lostMenu : List Act :=
  [⟨.sendMessage "b0" "سلام" (some homeMarkup), [.lost]⟩,
   ⟨.sendMessage "b0" "سلام" (some homeMarkup), [.data (some "OK") "7"]⟩]

/-- **A menu lost once is not sent again**: the second message arrives without its buttons. -/
theorem not_keypadKnown : ¬ KeypadKnown (fun _ => none) lostMenu ∧
    (perform (after (World.start fun _ => none) (lostMenu.take 1))
      ⟨.sendMessage "b0" "سلام" (some homeMarkup), [.data (some "OK") "7"]⟩).1 = true ∧
    (after (World.start fun _ => none) lostMenu).screen "b0" = none := by
  refine ⟨fun hknown => ?_, by decide, by decide⟩
  obtain ⟨rows, _, hshows⟩ := hknown.1 lostMenu List.prefix_rfl "b0"
    (stringify (toKeypad [[homeButton]])) (by decide)
  have hnone : (after (World.start fun _ => none) lostMenu).screen "b0" = none := by decide
  rw [Shows, hnone] at hshows
  cases hshows

end TransportBackend.RubikaKeypads
