import TransportBackend.FareDialog

/-!
# The page and the stored step of the fare form

A page of the fare form is computed from a copy of the session, which may carry another step than the
stored one: where the summary is asked for and the values are refused, and where the service refuses a
fare that was handed over before the last step.

* `Follows`: the page asks for the stored step, and every button of it does something there;
* `follows_iff`: **the pages follow the session exactly in the runs of safe messages**;
* `not_follows`: a typed fare too large for the summary.
-/

namespace TransportBackend.FarePages

open TransportBackend.FareDialog
open TransportBackend.PriceTexts
open TransportBackend.TripFareRules

/-! ### The page and the stored step -/

/-- Pressed at this step, the button does something. -/
def Handled (session : FareSession) (id : String) : Prop :=
  ∀ service, ((Action.read id).bind (onAction service session)).isSome = true

/-- The page asks for the stored step, and every button of it does something there. -/
def Follows (chat : Chat) : Prop :=
  ∀ session, chat.stored = some session →
    chat.shown.step = some session.step ∧ ∀ id ∈ chat.shown.actions, Handled session id

/-- What holds of a stored session while the pages follow it. -/
structure Sane (session : FareSession) : Prop where
  review : session.step = .review → session.agreed.isSome = true
  reason : session.step = .reason → session.values.readable = true
  confirm : session.step = .confirm → session.values.readable = true

/-- Every button but those of other lists. -/
def allButtons : List Action :=
  [.same, .change, .basis "TOTAL", .basis "PER_TON", .unit "TON", .unit "KG"] ++ choices .reason ++
    choices .pay ++ [.save, .edit, .keep, .cancel]

theorem read_id {a : Action} (ha : a ∈ allButtons) : Action.read a.id = some a := by
  have hall : allButtons.all (fun a => Action.read a.id = some a) = true := by decide
  exact of_decide_eq_true (List.all_eq_true.mp hall a ha)

theorem choices_allButtons (step : FareStep) : ∀ a ∈ choices step, a ∈ allButtons := by
  cases step <;> decide

/-- A choice of the stored step does something. -/
theorem onAction_choice {session : FareSession} (hsane : Sane session) {a : Action}
    (ha : a ∈ choices session.step) (service : TripsService) : (onAction service session a).isSome = true := by
  have hstep : ∀ step, session.step = step → a ∈ choices step := fun step h => h ▸ ha
  cases hs : session.step with
  | review =>
      have ha := hstep _ hs
      simp only [choices, List.mem_cons, List.not_mem_nil, or_false] at ha
      rcases ha with rfl | rfl
      · simpa [onAction] using hsane.review hs
      · rfl
  | basis =>
      have ha := hstep _ hs
      simp only [choices, fareBases, List.map_cons, List.map_nil, List.mem_cons, List.not_mem_nil, or_false] at ha
      rcases ha with rfl | rfl <;> simp [onAction, hs, member, fareBases]
  | rate => cases hstep _ hs
  | weight =>
      have ha := hstep _ hs
      simp only [choices, weightUnits, List.map_cons, List.map_nil, List.mem_cons, List.not_mem_nil, or_false] at ha
      rcases ha with rfl | rfl <;> simp [onAction, hs, weightUnits]
  | reason =>
      have ha := hstep _ hs
      simp only [choices, List.mem_map] at ha
      obtain ⟨entry, hentry, rfl⟩ := ha
      have hmember : fareChangeReasons.all (fun entry => (member fareChangeReasons entry.1).isSome) = true := by
        decide
      simpa [onAction, hs] using List.all_eq_true.mp hmember entry hentry
  | pay =>
      have ha := hstep _ hs
      simp only [choices, List.mem_map] at ha
      obtain ⟨entry, hentry, rfl⟩ := ha
      have hmember : brokerPayModels.all (fun entry => (member brokerPayModels entry.1).isSome) = true := by
        decide
      simpa [onAction, hs] using List.all_eq_true.mp hmember entry hentry
  | confirm =>
      have ha := hstep _ hs
      simp only [choices, List.mem_cons, List.not_mem_nil, or_false] at ha
      rcases ha with rfl | rfl <;> rfl

/-- What may be kept is kept. -/
theorem onAction_keep {session : FareSession} (hkeep : (keepValue session).isSome = true)
    (service : TripsService) : (onAction service session .keep).isSome = true := by
  obtain ⟨keep, hvalue⟩ := Option.isSome_iff_exists.mp hkeep
  have hstep : session.step = .rate ∨ session.step = .weight := by
    unfold keepValue at hvalue
    split at hvalue
    · exact .inl ‹_›
    · exact .inr ‹_›
    · cases hvalue
  rcases hstep with hs | hs <;> simp [onAction, hvalue, hs]

theorem handled_buttons {session : FareSession} (hsane : Sane session) :
    ∀ id ∈ (buttons session).map Action.id, Handled session id := by
  intro id hid service
  obtain ⟨a, ha, rfl⟩ := List.mem_map.mp hid
  unfold buttons at ha
  rw [List.mem_append, List.mem_append] at ha
  rcases ha with (hchoice | hkeep) | hcancel
  · rw [read_id (choices_allButtons _ a hchoice)]
    exact onAction_choice hsane hchoice service
  · split at hkeep
    · rename_i hvalue
      rw [List.mem_singleton.mp hkeep, read_id (by decide)]
      exact onAction_keep hvalue service
    · cases hkeep
  · rw [List.mem_singleton.mp hcancel, read_id (by decide)]
    rfl

/-- The summary of accepted values offers what every step handles. -/
theorem summary_of_readable {session : FareSession} (h : session.values.readable = true) (problem : Option String) :
    (summary session problem).step = some .confirm ∧
      ∀ stored, ∀ id ∈ (summary session problem).actions, Handled stored id := by
  obtain ⟨fare, hfare⟩ := readable_iff.mp h
  unfold summary
  rw [hfare]
  refine ⟨rfl, fun stored id hid service => ?_⟩
  simp only [List.map_cons, List.map_nil, List.mem_cons, List.not_mem_nil, or_false] at hid
  rcases hid with rfl | rfl | rfl
  · rw [read_id (by decide)]
    rfl
  · rw [read_id (by decide)]
    rfl
  · rw [read_id (by decide)]
    rfl

theorem summary_of_not_readable {session : FareSession} (h : session.values.readable ≠ true)
    (problem : Option String) : (summary session problem).step = some .basis := by
  unfold summary
  cases hread : session.values.read with
  | error error => rfl
  | ok fare => exact absurd (readable_iff.mpr ⟨fare, hread⟩) h

/-- **The page of a sane session follows it.** -/
theorem follows_ask {session : FareSession} (hsane : Sane session) (problem : Option String) :
    Follows ⟨some session, ask session problem⟩ := by
  rintro _ ⟨⟩
  by_cases hconfirm : session.step = .confirm
  · simp only [ask, hconfirm, if_true]
    have hsummary := summary_of_readable (hsane.confirm hconfirm) problem
    exact ⟨hsummary.1, hsummary.2 session⟩
  · simp only [ask, hconfirm, if_false]
    exact ⟨rfl, handled_buttons hsane⟩

/-- A summary that is asked for with refused values shows the first question. -/
theorem not_follows_next {session : FareSession} (hstep : session.step = .confirm)
    (h : session.values.readable ≠ true) : ¬ Follows (next session) := by
  intro hfollows
  have hshown := (hfollows session rfl).1
  rw [hstep] at hshown
  simp only [next, ask, hstep, if_true, summary_of_not_readable h] at hshown
  cases hshown

/-! ### What goes wrong -/

/-- The weight that a message gives at the weight's step. -/
def weightGiven (session : FareSession) : Message → Option ℚ
  | .action id _ => if Action.read id = some .keep then session.defaults.weightTons else none
  | .text text => if cancelWords.contains (trim text) then none else readWeight text session.unit

/-- The message says how the broker is paid. -/
def saysPay : Message → Bool
  | .action id _ =>
      match Action.read id with
      | some (.pay arg) => (member brokerPayModels arg).isSome
      | _ => false
  | .text _ => false

/-- The values that a message hands over, and the service it finds. -/
def handedOver (session : FareSession) : Message → Option (TripsService × Answers)
  | .action id service =>
      match Action.read id with
      | some .save => some (service, session.values)
      | some .same => session.agreed.map fun agreed => (service, agreedAnswers agreed)
      | _ => none
  | .text _ => none

/-- Accepted values, refused by the service with a 400. -/
def Refuses (session : FareSession) (service : TripsService) (values : Answers) : Prop :=
  ∃ fare message, values.read = .ok fare ∧
    service session.purpose (TripFareValues.input fare) session.payModel = .refused message

/-- The weight that leads to the summary completes a fare that can be read, and so does the answer of
how the broker is paid; a refusal by the service comes at the last step. -/
structure Safe (session : FareSession) (message : Message) : Prop where
  weight : session.step = .weight → ¬(session.purpose.isAccept = true ∧ session.broker = true) →
    ∀ w ∈ weightGiven session message,
      ({ session.values with weightTons := some w } : Answers).readable = true
  pay : session.step = .pay → saysPay message = true → session.values.readable = true
  refused : session.step ≠ .confirm → ∀ handed ∈ handedOver session message,
    ¬ Refuses session handed.1 handed.2

/-- The page follows the stored session, and that is sane. -/
structure Kept (chat : Chat) : Prop where
  follows : Follows chat
  sane : ∀ session, chat.stored = some session → Sane session

theorem sane_of_step {session : FareSession} (hreview : session.step ≠ .review) (hreason : session.step ≠ .reason)
    (hconfirm : session.step = .confirm → session.values.readable = true) : Sane session :=
  ⟨fun h => absurd h hreview, fun h => absurd h hreason, hconfirm⟩

theorem kept_ask {session : FareSession} (hsane : Sane session) (problem : Option String) :
    Kept ⟨some session, ask session problem⟩ :=
  ⟨follows_ask hsane problem, by rintro _ ⟨⟩; exact hsane⟩

theorem kept_next {session : FareSession} (hsane : Sane session) : Kept (next session) := kept_ask hsane none

theorem kept_finish (purpose : FarePurpose) (text : String) : Kept (finish purpose text) :=
  ⟨fun _ h => (by cases h), fun _ h => (by cases h)⟩

theorem kept_save {service : TripsService} {stored session : FareSession} (hsane : Sane stored)
    (hrefused : Refuses session service session.values → stored.step = .confirm) :
    Kept (save service stored session) := by
  unfold save
  cases hread : session.values.read with
  | error error => exact kept_next (sane_of_step (by simp) (by simp) (by simp))
  | ok fare =>
      dsimp only
      cases hanswer : service session.purpose (TripFareValues.input fare) session.payModel with
      | done => exact kept_finish _ _
      | failed text => exact kept_finish _ _
      | refused message =>
          have hstep : stored.step = .confirm := hrefused ⟨fare, message, hread, hanswer⟩
          have hsummary := summary_of_readable (readable_iff.mpr ⟨fare, hread⟩) (some message)
          refine ⟨?_, by rintro _ ⟨⟩; exact hsane⟩
          rintro _ ⟨⟩
          exact ⟨hsummary.1.trans (congrArg some hstep.symm), hsummary.2 stored⟩

/-- Where a weight leads. -/
theorem kept_afterWeight {session : FareSession} {w : ℚ}
    (h : ¬(session.purpose.isAccept = true ∧ session.broker = true) →
      ({ session.values with weightTons := some w } : Answers).readable = true) :
    Kept (afterWeight session w) := by
  unfold afterWeight weighed
  dsimp only
  cases hchanged : changed session { session.values with weightTons := some w } with
  | true =>
      have hreadable := readable_of_changed hchanged
      refine kept_next ⟨fun hstep => ?_, fun _ => ?_, fun hstep => ?_⟩
      · cases hstep
      · rw [if_pos rfl]
        exact hreadable
      · cases hstep
  | false =>
      simp only [Bool.false_eq_true, if_false]
      by_cases hpay : session.purpose.isAccept = true ∧ session.broker = true
      · simp only [hpay, and_self, if_true]
        exact kept_next (sane_of_step (by simp) (by simp) (by simp))
      · simp only [hpay, if_false]
        refine kept_next (sane_of_step (by simp) (by simp) fun _ => ?_)
        rw [readable_changeReason { session.values with weightTons := some w } none]
        exact h hpay

theorem kept_handleText (shown : Page) {session : FareSession} {text : List Char} (hsane : Sane session)
    (hsafe : Safe session (.text text)) : Kept (handleText ⟨some session, shown⟩ text) := by
  unfold handleText
  dsimp only
  split
  · exact kept_finish _ _
  · rename_i hcancel
    split
    · split
      · exact kept_next (sane_of_step (by simp) (by simp) (by simp))
      · exact kept_ask hsane _
    · rename_i hstep
      split
      · rename_i w hw
        refine kept_afterWeight fun hpay => hsafe.weight hstep hpay w ?_
        have hnot : cancelWords.contains (trim text) = false := by simpa using hcancel
        simp only [weightGiven, hnot, Bool.false_eq_true, if_false, Option.mem_def]
        exact hw
      · exact kept_ask hsane _
    · exact kept_next hsane

/-- What a button does keeps the page with the stored step. -/
theorem kept_onAction {session : FareSession} {id : String} {a : Action} {service : TripsService} {chat : Chat}
    (hsane : Sane session) (hsafe : Safe session (.action id service)) (hread : Action.read id = some a)
    (h : onAction service session a = some chat) : Kept chat := by
  have hrefused : ∀ values, handedOver session (.action id service) = some (service, values) →
      Refuses session service values → session.step = .confirm := by
    intro values hhanded hrefuses
    by_contra hstep
    exact hsafe.refused hstep _ hhanded hrefuses
  cases a with
  | cancel =>
      cases h
      exact kept_finish _ _
  | edit =>
      cases h
      exact kept_next (sane_of_step (by simp) (by simp) (by simp))
  | change =>
      cases h
      exact kept_next (sane_of_step (by simp) (by simp) (by simp))
  | same =>
      obtain ⟨agreed, hagreed, rfl⟩ := Option.map_eq_some_iff.mp h
      refine kept_save hsane fun hrefuses => hrefused (agreedAnswers agreed) ?_ hrefuses
      simp [handedOver, hread, hagreed]
  | save =>
      cases h
      refine kept_save hsane fun hrefuses => hrefused session.values ?_ hrefuses
      simp [handedOver, hread]
  | basis arg =>
      simp only [onAction] at h
      split_ifs at h with hstep
      obtain ⟨basis, hbasis, rfl⟩ := Option.map_eq_some_iff.mp h
      exact kept_next (sane_of_step (by simp) (by simp) (by simp))
  | keep =>
      obtain ⟨keep, hkeep, h⟩ := Option.bind_eq_some_iff.mp h
      cases hstep : session.step with
      | rate =>
          rw [hstep] at h
          cases h
          exact kept_next (sane_of_step (by simp) (by simp) (by simp))
      | weight =>
          rw [hstep] at h
          cases h
          have hweight : session.defaults.weightTons = some keep := by simpa [keepValue, hstep] using hkeep
          refine kept_afterWeight fun hpay => hsafe.weight hstep hpay keep ?_
          simp [weightGiven, hread, hweight]
      | _ =>
          rw [hstep] at h
          cases h
  | unit arg =>
      simp only [onAction] at h
      split_ifs at h with hunit
      cases h
      have hstep : session.step = .weight := hunit.1
      exact kept_next (sane_of_step (by simp [hstep]) (by simp [hstep]) (by simp [hstep]))
  | reason arg =>
      simp only [onAction] at h
      split_ifs at h with hstep
      obtain ⟨reason, hreason, rfl⟩ := Option.map_eq_some_iff.mp h
      refine kept_next (sane_of_step (by simp) (by simp) fun _ => ?_)
      rw [readable_changeReason]
      exact hsane.reason hstep
  | pay arg =>
      simp only [onAction] at h
      split_ifs at h with hstep
      obtain ⟨model, hmodel, rfl⟩ := Option.map_eq_some_iff.mp h
      refine kept_next (sane_of_step (by simp) (by simp) fun _ => hsafe.pay hstep ?_)
      simp [saysPay, hread, hmodel]

/-- **One message**: a safe one keeps the page with the stored step. -/
theorem kept_on {chat : Chat} {message : Message} (hkept : Kept chat)
    (hsafe : ∀ session, chat.stored = some session → Safe session message) : Kept (chat.on message) := by
  cases hstored : chat.stored with
  | none =>
      have hnone : (chat.on message).stored = none := by
        cases message with
        | action id service =>
            show (handleAction service chat id).stored = none
            unfold handleAction
            rw [hstored]
            split
            · rfl
            · exact hstored
        | text text =>
            show (handleText chat text).stored = none
            unfold handleText
            rw [hstored]
            exact hstored
      exact ⟨fun _ h => absurd (hnone.symm.trans h) (by simp), fun _ h => absurd (hnone.symm.trans h) (by simp)⟩
  | some session =>
      have hsane := hkept.sane session hstored
      have hsession := hsafe session hstored
      obtain ⟨stored, shown⟩ := chat
      subst hstored
      cases message with
      | text text => exact kept_handleText shown hsane hsession
      | action id service =>
          show Kept (handleAction service _ id)
          unfold handleAction
          split_ifs with howns
          · dsimp only
            cases hread : Action.read id with
            | none => exact kept_next hsane
            | some a =>
                rw [Option.bind_some]
                cases hdone : onAction service session a with
                | none => exact kept_next hsane
                | some chat => exact kept_onAction hsane hsession hread hdone
          · exact hkept

/-! ### What an unsafe message shows -/

theorem not_follows_afterWeight {session : FareSession} {w : ℚ}
    (hpay : ¬(session.purpose.isAccept = true ∧ session.broker = true))
    (h : ({ session.values with weightTons := some w } : Answers).readable ≠ true) :
    ¬ Follows (afterWeight session w) := by
  have hchanged : changed session { session.values with weightTons := some w } = false := by
    rw [Bool.eq_false_iff]
    exact fun hchanged => h (readable_of_changed hchanged)
  unfold afterWeight weighed
  simp only [hchanged, Bool.false_eq_true, if_false, hpay]
  refine not_follows_next rfl ?_
  rw [readable_changeReason { session.values with weightTons := some w } none]
  exact h

/-- A refusal before the last step shows the summary over a stored step that is another. -/
theorem not_follows_save {service : TripsService} {stored session : FareSession}
    (hrefuses : Refuses session service session.values) (hstep : stored.step ≠ .confirm) :
    ¬ Follows (save service stored session) := by
  obtain ⟨fare, message, hread, hanswer⟩ := hrefuses
  intro hfollows
  unfold save at hfollows
  rw [hread] at hfollows
  dsimp only at hfollows
  rw [hanswer] at hfollows
  have hshown := (hfollows stored rfl).1
  have hsummary := summary_of_readable (readable_iff.mpr ⟨fare, hread⟩) (some message)
  exact hstep (Option.some.inj (hshown.symm.trans hsummary.1))

/-- **An unsafe message** leaves a page that does not follow the stored session. -/
theorem safe_of_follows {session : FareSession} {shown : Page} {message : Message}
    (h : Follows ((⟨some session, shown⟩ : Chat).on message)) : Safe session message := by
  refine ⟨fun hstep hpay w hw => ?_, fun hstep hsays => ?_, fun hstep handed hhanded hrefuses => ?_⟩
  · by_contra hreadable
    have hno := not_follows_afterWeight hpay hreadable
    cases message with
    | text text =>
        have hread := hw
        simp only [weightGiven, Option.mem_def] at hread
        split_ifs at hread with hcancel
        refine hno ?_
        have hon : (⟨some session, shown⟩ : Chat).on (.text text) = afterWeight session w := by
          have hnot : trim text ∉ cancelWords := by simpa using hcancel
          simp [Chat.on, handleText, hnot, hstep, hread]
        exact hon ▸ h
    | action id service =>
        have hread := hw
        simp only [weightGiven, Option.mem_def] at hread
        split_ifs at hread with hkeep
        refine hno ?_
        have hdone : onAction service session .keep = some (afterWeight session w) := by
          simp [onAction, keepValue, hstep, hread]
        exact on_of_read shown hkeep hdone ▸ h
  · by_contra hreadable
    cases message with
    | text text => cases hsays
    | action id service =>
        simp only [saysPay] at hsays
        split at hsays
        · rename_i arg hread
          obtain ⟨model, hmodel⟩ := Option.isSome_iff_exists.mp hsays
          have hdone : onAction service session (.pay arg) =
              some (next { session with step := .confirm, payModel := some model }) := by
            simp [onAction, hstep, hmodel]
          have hfollows := on_of_read shown hread hdone ▸ h
          refine absurd hfollows (not_follows_next rfl ?_)
          exact hreadable
        · cases hsays
  · cases message with
    | text text => cases hhanded
    | action id service =>
        simp only [handedOver, Option.mem_def] at hhanded
        split at hhanded
        · rename_i hread
          cases hhanded
          have hdone : onAction service session .save = some (save service session session) := rfl
          have hfollows := on_of_read shown hread hdone ▸ h
          exact not_follows_save hrefuses hstep hfollows
        · rename_i hread
          obtain ⟨agreed, hagreed, rfl⟩ := Option.map_eq_some_iff.mp hhanded
          have hdone : onAction service session .same =
              some (save service session { session with values := agreedAnswers agreed }) := by
            simp [onAction, hagreed]
          have hfollows := on_of_read shown hread hdone ▸ h
          exact not_follows_save hrefuses hstep hfollows
        · cases hhanded

/-! ### Whole runs -/

theorem kept_start (purpose : FarePurpose) (form : TripFareForm) : Kept (start purpose form) := by
  unfold start
  dsimp only
  refine kept_ask ⟨fun hstep => ?_, fun hstep => ?_, fun hstep => ?_⟩ _
  · dsimp only at hstep ⊢
    split_ifs at hstep with hdeliver
    exact hdeliver.2
  · dsimp only at hstep
    split_ifs at hstep
  · dsimp only at hstep
    split_ifs at hstep

/-- **The question is the stored step exactly in the runs of safe messages.** -/
theorem follows_iff (purpose : FarePurpose) (form : TripFareForm) (messages : List Message) :
    (∀ past, past <+: messages → Follows ((start purpose form).run past)) ↔
      ∀ past message, past ++ [message] <+: messages →
        ∀ session, ((start purpose form).run past).stored = some session → Safe session message := by
  constructor
  · intro hfollows past message hpast session hstored
    have hlater := hfollows _ hpast
    rw [run_append] at hlater
    generalize (start purpose form).run past = chat at hstored hlater
    obtain ⟨stored, shown⟩ := chat
    cases hstored
    exact safe_of_follows hlater
  · intro hsafe past
    have hkept : past <+: messages → Kept ((start purpose form).run past) := by
      induction past using List.reverseRecOn with
      | nil => exact fun _ => kept_start purpose form
      | append_singleton past message ih =>
          intro hpast
          rw [run_append]
          exact kept_on (ih ((List.prefix_append past [message]).trans hpast)) (hsafe past message hpast)
    exact fun hpast => (hkept hpast).follows

/-- A request accepted at a fare per ton whose whole is no safe number. -/
def tooLarge : List Message :=
  [.action "tf:b:PER_TON" fun _ _ _ => .done, .text "9007199254740991".toList, .text "25".toList]

/-- The summary is stored, the first question is shown, and its buttons only bring it back. -/
theorem not_follows :
    ¬ ∀ purpose form messages, Follows ((start purpose form).run messages) := by
  intro hclaim
  have hshown : ((start (.accept 1) ⟨.none, none, false, none⟩).run tooLarge).shown.step ≠
      ((start (.accept 1) ⟨.none, none, false, none⟩).run tooLarge).stored.map (·.step) := by decide +kernel
  have hstored : ((start (.accept 1) ⟨.none, none, false, none⟩).run tooLarge).stored.isSome = true := by
    decide +kernel
  obtain ⟨session, hsession⟩ := Option.isSome_iff_exists.mp hstored
  have hfollows := (hclaim (.accept 1) ⟨.none, none, false, none⟩ tooLarge session hsession).1
  rw [hsession] at hshown
  exact hshown hfollows

end TransportBackend.FarePages
