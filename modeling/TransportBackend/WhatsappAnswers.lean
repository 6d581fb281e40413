import TransportBackend.FarePages
import TransportBackend.TrimmedTexts

/-!
# The fare form in WhatsApp

`WhatsappDialogBridge` numbers the buttons of the last page, and a text that is one of these numbers is
the button, before any form sees it.  A figure of one to three digits may be both: a number of the
page and an answer to its question.

* `handleText`: the fare session that a text leaves;
* `records_iff`: **the typed answer is recorded exactly where no button and no other form takes it**;
* `not_records`: three tons, typed where three is the way out.
-/

namespace TransportBackend.WhatsappAnswers

open TransportBackend.FareDialog
open TransportBackend.FarePages
open TransportBackend.PriceTexts
open TransportBackend.TrimmedTexts
open TransportBackend.TripFareRules

/-! ### The bridge -/

/-- A dialog that was registered before the fare form: whether it has a session, and which texts its
`handleText` answers. -/
structure OtherDialog where
  hasSession : Bool
  answers : List Char → Bool

/-- What a text meets: the saved menu, the dialogs registered before the fare form, whether the company
is verified, `toLowerCase`, and what the buttons of other dialogs make of the fare session. -/
structure Bridge where
  menu : Option (List String)
  earlier : List OtherDialog
  verified : Bool
  lowerCase : List Char → List Char
  others : String → Option FareSession → Option FareSession

/-- `MENU_WORDS`. -/
def menuWords : List String := ["منو", "منوی اصلی", "فهرست", "menu", "/start", "start"]

/-- «۳» یا «3» → 3. -/
def number (value : List Char) : Option ℕ :=
  let digits := latin value
  if 1 ≤ digits.length ∧ digits.length ≤ 3 ∧ digits.all Char.isDigit = true then
    some (Nat.ofDigitChars 10 digits 0)
  else none

/-- The button whose number a text is. -/
def chosen (menu : Option (List String)) (value : List Char) : Option String :=
  menu.bind fun actions => (number value).bind fun index => if 1 ≤ index then actions[index - 1]? else none

/-- `run`: a button pressed; the ids of the fare form are resolved to it. -/
def run (b : Bridge) (service : TripsService) (chat : Chat) (action : String) : Option FareSession :=
  if b.verified then
    if ownsAction action then (handleAction service chat action).stored else b.others action chat.stored
  else chat.stored

/-- `WhatsappDialogBridge.handleText`, as far as the fare session is concerned. -/
def handleText (b : Bridge) (service : TripsService) (chat : Chat) (text : List Char) : Option FareSession :=
  let value := trim text
  if String.ofList (b.lowerCase value) ∈ menuWords then chat.stored
  else
    match chosen b.menu value with
    | some action => run b service chat action
    | none =>
        if b.earlier.any fun dialog => dialog.hasSession && dialog.answers value then chat.stored
        else (FareDialog.handleText chat value).stored

/-! ### The answer of the form -/

/-- The session after the answer that the step's reader makes of a text. -/
def answered (session : FareSession) (text : List Char) : Option FareSession :=
  match session.step with
  | .rate => (readAmount text).map fun amount =>
      { session with
        step := .weight
        values := { session.values with rate := some (amount.amount : ℚ), currency := some amount.currency } }
  | .weight => (readWeight text session.unit).map (weighed session)
  | _ => none

/-- The value that «همان …» keeps is the value that the text is read as. -/
def KeepsTheSame (session : FareSession) (text : List Char) : Prop :=
  match session.step with
  | .rate => ∃ amount, readAmount text = some amount ∧ keepValue session = some (amount.amount : ℚ) ∧
      session.defaults.currency = some amount.currency
  | .weight => ∃ tons, readWeight text session.unit = some tons ∧ keepValue session = some tons
  | _ => False

variable {session : FareSession} {text : List Char}

theorem handleText_trim (chat : Chat) (text : List Char) :
    FareDialog.handleText chat (trim text) = FareDialog.handleText chat text := by
  unfold FareDialog.handleText
  cases chat.stored with
  | none => rfl
  | some session => simp only [trim_trim, readAmount_trim, readWeight_trim]

/-- Where the reader accepts the text, the form goes on with it. -/
theorem stored_of_answered {shown : Page} (hcancel : trim text ∉ cancelWords) {session' : FareSession}
    (h : answered session text = some session') :
    (FareDialog.handleText ⟨some session, shown⟩ text).stored = some session' := by
  unfold FareDialog.handleText
  simp only [hcancel, if_false]
  unfold answered at h
  split at h
  · obtain ⟨amount, hread, rfl⟩ := Option.map_eq_some_iff.mp h
    rename_i hstep
    simp only [hstep, hread]
    rfl
  · obtain ⟨tons, hread, rfl⟩ := Option.map_eq_some_iff.mp h
    rename_i hstep
    simp only [hstep, hread]
    rfl
  · cases h

/-- The answer takes the form to another step. -/
theorem answered_step {session' : FareSession} (h : answered session text = some session') :
    session'.step ≠ session.step ∧ (session.step = .rate ∨ session.step = .weight) := by
  unfold answered at h
  split at h
  · rename_i hstep
    obtain ⟨amount, _, rfl⟩ := Option.map_eq_some_iff.mp h
    exact ⟨by simp [hstep], .inl hstep⟩
  · rename_i hstep
    obtain ⟨tons, _, rfl⟩ := Option.map_eq_some_iff.mp h
    refine ⟨?_, .inr hstep⟩
    unfold weighed
    dsimp only
    rw [hstep]
    split_ifs <;> simp
  · cases h

theorem mem_of_chosen {ids : List String} {value : List Char} {action : String}
    (h : chosen (some ids) value = some action) : action ∈ ids := by
  simp only [chosen, Option.bind_some] at h
  obtain ⟨index, _, hindex⟩ := Option.bind_eq_some_iff.mp h
  split_ifs at hindex with hpos
  exact List.mem_of_getElem? hindex

theorem buttons_allButtons {a : Action} (ha : a ∈ buttons session) : a ∈ allButtons := by
  unfold buttons at ha
  rw [List.mem_append, List.mem_append] at ha
  rcases ha with (hchoice | hkeep) | hcancel
  · exact choices_allButtons _ a hchoice
  · split at hkeep
    · rw [List.mem_singleton.mp hkeep]
      decide
    · cases hkeep
  · rw [List.mem_singleton.mp hcancel]
    decide

/-- A numbered button does what it does in the bots. -/
theorem run_button {b : Bridge} (hverified : b.verified = true) (service : TripsService) (shown : Page)
    {a : Action} (ha : a ∈ buttons session) :
    run b service ⟨some session, shown⟩ a.id = ((onAction service session a).getD (next session)).stored := by
  have hread := read_id (buttons_allButtons ha)
  simp [run, hverified, handleAction, owns_of_read hread, hread]

/-- What the buttons of a text's step leave, beside the answer. -/
theorem button_answered {service : TripsService} {a : Action} (ha : a ∈ buttons session) {session' : FareSession}
    (h : answered session text = some session') :
    ((onAction service session a).getD (next session)).stored = some session' ↔
      a = .keep ∧ KeepsTheSame session text := by
  obtain ⟨hother, hstep⟩ := answered_step h
  unfold buttons at ha
  rw [List.mem_append, List.mem_append] at ha
  rcases ha with (hchoice | hkeep) | hcancel
  · -- the unit of the weight: the form stays at its step
    rcases hstep with hstep | hstep
    · rw [hstep] at hchoice
      cases hchoice
    · rw [hstep] at hchoice
      obtain ⟨unit, hunit, rfl⟩ := List.mem_map.mp hchoice
      have hstay : onAction service session (.unit unit) =
          some (next { session with weightUnit := some unit }) := by
        simp [onAction, hstep, hunit]
      rw [hstay]
      constructor
      · intro heq
        exact absurd (congrArg FareSession.step (Option.some.inj heq)).symm hother
      · intro hkeeps
        cases hkeeps.1
  · -- «همان …»: the same answer where the same value is kept
    split at hkeep
    · rename_i hvalue
      rw [List.mem_singleton.mp hkeep]
      obtain ⟨keep, hvalue⟩ := Option.isSome_iff_exists.mp hvalue
      simp only [true_and]
      rcases hstep with hstep | hstep
      · simp only [answered, hstep] at h
        obtain ⟨amount, hamount, rfl⟩ := Option.map_eq_some_iff.mp h
        have hkept : onAction service session .keep =
            some (afterRate session keep session.defaults.currency) := by
          simp [onAction, hvalue, hstep]
        simp only [hkept, KeepsTheSame, hstep, hamount, hvalue]
        simp [afterRate, next]
      · simp only [answered, hstep] at h
        obtain ⟨tons, htons, rfl⟩ := Option.map_eq_some_iff.mp h
        have hkept : onAction service session .keep = some (afterWeight session keep) := by
          simp [onAction, hvalue, hstep]
        simp only [hkept, KeepsTheSame, hstep, htons, hvalue]
        constructor
        · intro heq
          have hweight := congrArg (·.values.weightTons) (Option.some.inj heq)
          exact ⟨tons, rfl, hweight⟩
        · intro hsame
          obtain ⟨_, hread, hkeep⟩ := hsame
          cases hread
          cases hkeep
          rfl
    · cases hkeep
  · -- the way out
    rw [List.mem_singleton.mp hcancel]
    constructor
    · intro heq
      cases heq
    · intro hkeeps
      cases hkeeps.1

/-- **The typed answer is recorded exactly where no button and no other form takes it**, or where the
button keeps the very value that was typed. -/
theorem records_iff (b : Bridge) (service : TripsService) (session : FareSession) (problem : Option String)
    (text : List Char) (hverified : b.verified = true)
    (hmenu : b.menu = some (pageOf session problem).actions)
    (hword : String.ofList (b.lowerCase (trim text)) ∉ menuWords) (hcancel : trim text ∉ cancelWords)
    (hread : (answered session text).isSome = true) :
    handleText b service ⟨some session, pageOf session problem⟩ text =
        (FareDialog.handleText ⟨some session, pageOf session problem⟩ text).stored ↔
      (chosen b.menu (trim text) = none ∧
        ∀ dialog ∈ b.earlier, dialog.hasSession = true → dialog.answers (trim text) = false) ∨
      (chosen b.menu (trim text) = some Action.keep.id ∧ KeepsTheSame session text) := by
  obtain ⟨session', hsession'⟩ := Option.isSome_iff_exists.mp hread
  rw [stored_of_answered hcancel hsession']
  unfold handleText
  simp only [hword, if_false]
  cases hchosen : chosen b.menu (trim text) with
  | none =>
      have hother := (answered_step hsession').1
      simp only [handleText_trim, stored_of_answered hcancel hsession', true_and, reduceCtorEq, false_and,
        or_false]
      by_cases hearlier : b.earlier.any (fun dialog => dialog.hasSession && dialog.answers (trim text)) = true
      · -- another form has taken the text: this one is where it was
        rw [if_pos hearlier]
        constructor
        · intro heq
          exact absurd (congrArg FareSession.step (Option.some.inj heq)).symm hother
        · intro hnone
          obtain ⟨dialog, hdialog, hboth⟩ := List.any_eq_true.mp hearlier
          rw [Bool.and_eq_true] at hboth
          rw [hnone dialog hdialog hboth.1] at hboth
          cases hboth.2
      · rw [if_neg hearlier]
        refine ⟨fun _ dialog hdialog hopen => ?_, fun _ => rfl⟩
        rw [Bool.eq_false_iff]
        intro hanswers
        exact hearlier (List.any_eq_true.mpr ⟨dialog, hdialog, by rw [hopen, hanswers]; rfl⟩)
  | some action =>
      rw [hmenu] at hchosen
      obtain ⟨a, ha, rfl⟩ := List.mem_map.mp (mem_of_chosen hchosen)
      dsimp only
      rw [run_button hverified service _ ha, button_answered ha hsession']
      have hid : a.id = Action.keep.id ↔ a = .keep := by
        constructor
        · intro heq
          have hkeep := read_id (buttons_allButtons ha)
          rw [heq, read_id (by decide)] at hkeep
          exact (Option.some.inj hkeep).symm
        · rintro rfl
          rfl
      simp [hid]

/-- The weight of an accepted request: nothing is prefilled, so three is the way out. -/
def weightAsked : FareSession where
  purpose := .accept 1
  step := .weight
  values := ⟨some .total, some 1000, none, some .toman, none⟩
  defaults := .none
  agreed := none
  broker := false
  payModel := none
  weightUnit := none

/-- The page as it was sent, and no other form open. -/
def asked : Bridge where
  menu := some (pageOf weightAsked none).actions
  earlier := []
  verified := true
  lowerCase := id
  others := fun _ session => session

theorem records_iff_twentyFive :
    handleText asked (fun _ _ _ => .done) ⟨some weightAsked, pageOf weightAsked none⟩ "25".toList =
      (FareDialog.handleText ⟨some weightAsked, pageOf weightAsked none⟩ "25".toList).stored :=
  (records_iff asked (fun _ _ _ => .done) weightAsked none "25".toList rfl rfl (by decide)
    (by decide +kernel) (by decide +kernel)).mpr
    (.inl ⟨by decide, fun _ hdialog => absurd hdialog List.not_mem_nil⟩)

/-- Three tons: the bots record them, WhatsApp ends the form. -/
theorem not_records :
    ¬ ∀ (b : Bridge) (service : TripsService) (session : FareSession) (problem : Option String)
      (text : List Char), b.verified = true → b.menu = some (pageOf session problem).actions →
      String.ofList (b.lowerCase (trim text)) ∉ menuWords → trim text ∉ cancelWords →
      (answered session text).isSome = true →
      handleText b service ⟨some session, pageOf session problem⟩ text =
        (FareDialog.handleText ⟨some session, pageOf session problem⟩ text).stored := by
  intro hclaim
  have hthree := hclaim asked (fun _ _ _ => .done) weightAsked none "3".toList rfl rfl (by decide)
    (by decide +kernel) (by decide +kernel)
  have hover : handleText asked (fun _ _ _ => .done) ⟨some weightAsked, pageOf weightAsked none⟩
      "3".toList = none := by decide
  have hrecorded : (FareDialog.handleText ⟨some weightAsked, pageOf weightAsked none⟩ "3".toList).stored ≠
      none := by decide +kernel
  exact hrecorded (hthree.symm.trans hover)

end TransportBackend.WhatsappAnswers
