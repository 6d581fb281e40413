import TransportBackend.LedgerBalance
import TransportBackend.ReadWindows

/-!
# A company pays no more than it owes

`settle` works out what is left of a broker's account and then inserts the payment, in two steps.  Between them the
broker's trips go on and other panels of the company pay, or take a payment back.

* `earnedOf`, `paidOf` — the two sides of an account, whatever the percent of today;
* `earnedOf_mono` — what is earned never falls, whatever happens to trips;
* `windows` — a payment is inserted within what was left when the account was worked out;
* `never_overdrawn` — **no broker is paid more than it earned**, over every interleaving in which every payment goes
  in before another payment to the same broker has made its check stale;
* `never_overdrawn_serial` — the same of payments one after another, with no condition.
-/

namespace TransportBackend.LedgerOverdraft

open TransportBackend.AtomicProgram
open TransportBackend.AtomicProgram.Prog
open TransportBackend.Binary64
open TransportBackend.BrokerLedger
open TransportBackend.CommandSum
open TransportBackend.InterleavedRun
open TransportBackend.KeyedTable
open TransportBackend.LedgerBalance
open TransportBackend.MonitoredProgram
open TransportBackend.NullLogic
open TransportBackend.ReadWindows
open TransportBackend.SequentialRun
open TransportBackend.TripEffect
open TransportBackend.TripFareHistory
open TransportBackend.TripFareRules
open TransportBackend.TripInvariant
open TransportBackend.TripMoves
open TransportBackend.TripPolicy
open TransportBackend.TripRun (TripOp)
open TransportBackend.TripStore (Tables)

/-! ### The two sides of an account -/

/-- What the broker earned, at the percent in force. -/
def earnedOf (s : Store) (companyUserId brokerUserId : ℕ) : ℤ :=
  ((brokerRows s.trips.toTables companyUserId brokerUserId).map fun x =>
    (commission s.trips.commissionPercent x).getD 0).sum

/-- What the company paid it. -/
def paidOf (s : Store) (companyUserId brokerUserId : ℕ) : ℤ :=
  ((paidRows s companyUserId brokerUserId).map fun x => (x.amount : ℤ)).sum

theorem account_paid (s : Store) (companyUserId percent : ℕ) (b : User) :
    (accountOfUser s companyUserId percent b).paid = paidOf s companyUserId b.id := by
  show (sumOf ((paidRows s companyUserId b.id).map fun x => some (x.amount : ℤ))).getD 0 = _
  rw [sumOf_getD, List.map_map]
  rfl

/-- The books are as every history leaves them: shares are written down, and delivered fares are not negative. -/
structure Books (s : Store) : Prop where
  kept : ∃ t₀ past, LedgerKept t₀ past s ∧ lastTime t₀ past ≤ s.trips.clock
  fares : ∀ id row, s.trips.fares.get (id, .delivered) = some row → 0 ≤ row.total

theorem account_earned_of_books {s : Store} (h : Books s) (companyUserId percent : ℕ) (b : User) :
    (accountOfUser s companyUserId percent b).earned = earnedOf s companyUserId b.id := by
  obtain ⟨t₀, past, hkept, _⟩ := h.kept
  rw [account_earned, earnedOf]
  congr 1
  refine List.map_congr_left fun x hx => ?_
  rw [commission_eq_share hkept hx percent, commission_eq_share hkept hx s.trips.commissionPercent]

/-- A sum does not fall when more terms join that are not negative. -/
theorem sum_le_of_subset {α : Type} {l l' : List α} (hnodup : l.Nodup) (hsub : l ⊆ l') (f : α → ℤ)
    (hnonneg : ∀ a ∈ l', 0 ≤ f a) : (l.map f).sum ≤ (l'.map f).sum := by
  obtain ⟨m, hperm, hsubl⟩ := hnodup.subperm hsub
  rw [← (hperm.map f).sum_eq]
  refine (hsubl.map f).sum_le_sum fun y hy => ?_
  obtain ⟨a, ha, rfl⟩ := List.mem_map.mp hy
  exact hnonneg a ha

theorem mathRound_nonneg {q : ℚ} (hq : 0 ≤ q) : 0 ≤ mathRound q := by
  unfold mathRound
  exact Int.floor_nonneg.mpr (by linarith)

theorem commissionOf_nonneg {total percent : ℚ} (htotal : 0 ≤ total) (hpercent : 0 ≤ percent) :
    0 ≤ commissionOf total percent := by
  refine mathRound_nonneg (binary64_nonneg (div_nonneg ?_ (by norm_num)))
  exact binary64_nonneg (mul_nonneg htotal hpercent)

/-- **No trip is worth less than nothing.** -/
theorem commission_nonneg {s : Store} (h : Books s) {companyUserId brokerUserId : ℕ} {x : LedgerRow}
    (hx : x ∈ brokerRows s.trips.toTables companyUserId brokerUserId) (percent : ℕ) :
    0 ≤ (commission percent x).getD 0 := by
  obtain ⟨t₀, past, hkept, _⟩ := h.kept
  obtain ⟨fixed, _, hshared, hrow⟩ := shared_of_brokerRows hkept hx
  obtain ⟨d, hd, hcommission⟩ := commission_of_shared hshared percent
  rw [hrow, hcommission, shareOf]
  split
  · refine commissionOf_nonneg ?_ ?_
    · exact_mod_cast h.fares _ _ hd
    · exact binary64_nonneg (by positivity)
  · exact le_refl 0

/-! ### What a trip operation keeps -/

section TripStep

variable {t : ℕ} {op : TripOp} {T T' : Tables} {companyUserId brokerUserId : ℕ}

/-- A delivered trip stays as it is, with its fare. -/
theorem brokerRows_kept (hmove : Move ⟨true, true⟩ t op T T') (hs : Sound T t) {x : LedgerRow}
    (hx : x ∈ brokerRows T companyUserId brokerUserId) : x ∈ brokerRows T' companyUserId brokerUserId := by
  obtain ⟨hrow, hbroker⟩ := List.mem_filter.mp hx
  obtain ⟨r, hr, rfl⟩ := List.mem_map.mp hrow
  obtain ⟨hmem, hledger⟩ := List.mem_filter.mp hr
  have hhas : Has T r := has_iff_mem.mp hmem
  have hdel : r.status = .delivered := by
    simp only [ofLedger, Bool.and_eq_true, decide_eq_true_eq] at hledger
    exact hledger.2
  obtain ⟨r', hr', _, hstep⟩ := Move.row hmove hhas
  obtain rfl := hstep.delivered_same hs hhas hdel
  have hsame : withFare T' r' = withFare T r' := by
    rw [withFare, withFare, fare_kept hmove hhas hdel]
  rw [← hsame] at hbroker ⊢
  exact List.mem_filter.mpr
    ⟨List.mem_map.mpr ⟨r', List.mem_filter.mpr ⟨has_iff_mem.mpr hr', hledger⟩, rfl⟩, hbroker⟩

theorem nodup_brokerRows (T : Tables) (companyUserId brokerUserId : ℕ) :
    (brokerRows T companyUserId brokerUserId).Nodup := by
  have hrows : T.requests.rows.Nodup := List.Nodup.of_map _ T.requests.nodup
  refine List.Nodup.filter _ (List.Nodup.map (fun r r' hsame => ?_) (hrows.filter _))
  exact (Prod.mk.inj hsame).1

/-- A delivered fare is not negative. -/
theorem fares_move (hmove : Move ⟨true, true⟩ t op T T')
    (h : ∀ id row, T.fares.get (id, .delivered) = some row → 0 ≤ row.total) :
    ∀ id row, T'.fares.get (id, .delivered) = some row → 0 ≤ row.total := by
  intro id row hrow
  rcases Move.delivered_fare hmove id with hsame | ⟨r, r', input, v, _, _, _, _, _, _, hread, _, hnew⟩
  · rw [hsame] at hrow
    exact h id row hrow
  · rw [hnew] at hrow
    cases hrow
    cases hread with
    | read _ hvalid => exact Rat.num_nonneg.mpr (readTripFare_valid hvalid).total_nonneg

end TripStep

/-- The books with a trip operation run whole at time `t`. -/
def afterTrip (t : ℕ) (op : TripOp) (s : Store) : Store :=
  { s with trips := (TripRun.step ⟨true, true⟩ t op s.trips).2 }

theorem sound_at {s : Store} (h : Books s) {t : ℕ} (ht : s.trips.clock ≤ t) : Sound s.trips.toTables t := by
  obtain ⟨t₀, past, hkept, _⟩ := h.kept
  exact hkept.sound.later ht

theorem Books.trip {s : Store} (h : Books s) {t : ℕ} (ht : s.trips.clock ≤ t) (op : TripOp) :
    Books (afterTrip t op s) := by
  have hstep : ledgerStep t (.trip op) s = afterTrip t op s := by
    rw [ledgerStep, ledgerProgram, run_trip]
    rfl
  have hmove := move_step ⟨true, true⟩ (sound_at h ht) op
  obtain ⟨t₀, past, hkept, hlast⟩ := h.kept
  refine ⟨⟨t₀, ⟨t, .trip op, s, afterTrip t op s⟩ :: past, ?_, ?_⟩, fares_move hmove h.fares⟩
  · have hnext := hkept.trip (hlast.trans ht) op
    rw [hstep] at hnext
    exact hnext
  · exact le_of_eq (TripRun.step_clock _ t op _).symm

/-- **What is earned never falls**, whatever happens to trips. -/
theorem earnedOf_mono {s : Store} (h : Books s) {t : ℕ} (ht : s.trips.clock ≤ t) (op : TripOp)
    (companyUserId brokerUserId : ℕ) :
    earnedOf s companyUserId brokerUserId ≤ earnedOf (afterTrip t op s) companyUserId brokerUserId := by
  have hnext : Books (afterTrip t op s) := h.trip ht op
  have hmove := move_step ⟨true, true⟩ (sound_at h ht) op
  obtain ⟨t₀, past, hkept, _⟩ := h.kept
  have hsum : earnedOf s companyUserId brokerUserId =
      ((brokerRows s.trips.toTables companyUserId brokerUserId).map fun x =>
        (commission (afterTrip t op s).trips.commissionPercent x).getD 0).sum := by
    rw [earnedOf]
    congr 1
    refine List.map_congr_left fun x hx => ?_
    rw [commission_eq_share hkept hx, commission_eq_share hkept hx]
  rw [hsum]
  exact sum_le_of_subset (nodup_brokerRows _ _ _) (fun x hx => brokerRows_kept hmove (sound_at h ht) hx) _
    fun x hx => commission_nonneg hnext hx _

/-! ### Calls side by side -/

/-- The calls of the service. -/
inductive Call where
  | accounts (companyUserId : ℕ)
  | detail (companyUserId brokerUserId : ℕ)
  | settle (companyUserId brokerUserId : ℕ) (amount : String) (note : Option String) (byUserId : ℕ)
  | removeSettlement (companyUserId settlementId : ℕ)

def Call.prog : Call → Ledger Unit
  | .accounts company => unanswered (BrokerLedger.accounts company)
  | .detail company broker => unanswered (BrokerLedger.detail company broker)
  | .settle company broker amount note user => unanswered (BrokerLedger.settle company broker amount note user)
  | .removeSettlement company id => unanswered (BrokerLedger.removeSettlement company id)

/-- A trip operation, whole, at this time. -/
structure TripEvent where
  time : ℕ
  op : TripOp

/-- Any number of calls on the books, while trips go on. -/
def machine : Machine Resp TripStore.ServiceError Store where
  Choice := Unit
  Outside := TripEvent
  Call := Call
  exec _ c s := some (exec c s)
  outside e s := if s.trips.clock ≤ e.time then some (afterTrip e.time e.op s) else none
  begin call s := some (call.prog, s)

/-! ### Windows -/

/-- A company and a broker. -/
abbrev Pair : Type := ℕ × ℕ

/-- Whose payment a statement inserts. -/
def pays : Cmd → Option Pair
  | .inr (.saveSettlement row) => some (row.companyUserId, row.brokerUserId)
  | _ => none

/-- What is left of the broker's account, when it is among those worked out. -/
def leftOf (rows : List BrokerAccount) (brokerUserId : ℕ) : Option ℤ :=
  (rows.find? fun a => a.userId = brokerUserId).map BrokerAccount.remaining

/-- A call works out what is left, and pays no more. -/
def windows (percent : ℕ) : Windows Resp Pair ℤ where
  opens
    | .inr (.accounts company _), rows => fun k => if k.1 = company then leftOf rows k.2 else none
    | _, _ => fun _ => none
  closes c k := decide (pays c = some k)
  disturbs c k := decide (pays c = some k)
  allowed q
    | .inr (.saveSettlement row) => ∃ left, q (row.companyUserId, row.brokerUserId) = some left ∧ (row.amount : ℤ) ≤ left
    | c => LedgerOnly percent c
  answers _ c r := LedgerAnswer percent c r

/-- The commands that pay nothing. -/
def Reads (percent : ℕ) : Cmd → Prop
  | .inr (.saveSettlement _) => False
  | c => LedgerOnly percent c

section Accepts

variable {percent : ℕ}

theorem allowed_reads {c : Cmd} (h : Reads percent c) (q : Held Pair ℤ) : (windows percent).allowed q c := by
  cases c with
  | inl c => exact h
  | inr c =>
      cases c with
      | saveSettlement row => cases h
      | _ => exact trivial

theorem accepts_reads {α : Type} {p : Ledger α} {Q : α → Prop} (h : p.Within (Reads percent) (LedgerAnswer percent) Q)
    (q : Held Pair ℤ) : Accepts (windows percent).monitor p q (fun _ _ => True) := by
  induction p generalizing q with
  | ret a => exact trivial
  | throw e => exact trivial
  | call c k ih => exact ⟨allowed_reads h.1 q, fun r hr => ih r (h.2 r hr) _⟩

/-- Reading the policy opens no window and closes none. -/
theorem accepts_policy {α : Type} {p : TripStore.Trip α} {Q : α → Prop}
    (h : p.Within (ReadsPolicy percent) (SteadyAnswer percent) Q) (q : Held Pair ℤ) :
    Accepts (windows percent).monitor (BrokerLedger.trip p) q (fun _ q' => q' = q) := by
  induction p with
  | ret a => exact rfl
  | throw e => exact rfl
  | call c k ih =>
      refine ⟨h.1, fun r hr => ?_⟩
      have hnext : (windows percent).next q (.inl c) r = q := rfl
      have hrest := ih r (h.2 r hr)
      rw [← hnext] at hrest
      exact hrest

theorem accepts_accountWith (company broker : ℕ) (q : Held Pair ℤ) :
    Accepts (windows percent).monitor (accountWith company broker) q
      (outcome (fun account q' => q' (company, broker) = some account.remaining) (fun _ _ => True)) := by
  unfold accountWith accounts
  rw [accepts_bind, accepts_bind]
  refine accepts_mono (accepts_policy within_getPolicy q) fun out q' _ => ?_
  cases out with
  | error e => exact trivial
  | ok today =>
      rw [outcome_ok, accepts_bind, issue, accepts_perform]
      refine ⟨trivial, fun rows _ => ?_⟩
      rw [outcome_ok, accepts_pure, outcome_ok, accepts_orThrow]
      refine ⟨fun _ => trivial, fun account haccount => ?_⟩
      have hleft : leftOf rows broker = some account.remaining := by
        rw [leftOf, haccount]
        rfl
      show ((if company = company then leftOf rows broker else none).or _) = some account.remaining
      rw [if_pos rfl, hleft]
      rfl

/-- The program pays nothing. -/
def Reading {α : Type} (percent : ℕ) (p : Ledger α) : Prop :=
  p.Within (Reads percent) (LedgerAnswer percent) (fun _ => True)

theorem Reading.bind {α β : Type} {p : Ledger α} {f : α → Ledger β} (hp : Reading percent p)
    (hf : ∀ a, Reading percent (f a)) : Reading percent (p >>= f) :=
  (within_bind _ _).mpr (within_mono hp fun a _ => hf a)

theorem reading_orThrow {α : Type} (e : TripStore.ServiceError) (o : Option α) : Reading percent (.orThrow e o) := by
  rw [Reading, within_orThrow]
  exact fun _ _ => trivial

theorem reading_getPolicy : Reading percent (BrokerLedger.trip TripService.getPolicy) := by
  have hreads : TripService.getPolicy.Within (ReadsPolicy percent) (SteadyAnswer percent) (fun _ => True) :=
    within_mono within_getPolicy fun _ _ => trivial
  exact (within_onLeft _).mpr hreads

theorem reading_accounts (company : ℕ) : Reading percent (accounts company) :=
  reading_getPolicy.bind fun _ => ⟨trivial, fun _ _ => trivial⟩

theorem reading_detail (company broker : ℕ) : Reading percent (detail company broker) := by
  refine reading_getPolicy.bind fun _ => Reading.bind ?_ fun _ => ?_
  · exact (reading_accounts company).bind fun _ => reading_orThrow _ _
  · exact ⟨trivial, fun _ _ => ⟨trivial, fun _ _ => trivial⟩⟩

theorem reading_removeSettlement (company id : ℕ) : Reading percent (removeSettlement company id) := by
  refine Reading.bind (f := fun found => _) ⟨trivial, fun _ _ => trivial⟩ fun found => ?_
  refine (reading_orThrow _ _).bind fun settlement => ?_
  exact Reading.bind (f := fun _ => _) ⟨trivial, fun _ _ => trivial⟩ fun _ => reading_detail company _

theorem accepts_unanswered {α : Type} {p : Ledger α} {q : Held Pair ℤ}
    (h : Accepts (windows percent).monitor p q (fun _ _ => True)) :
    Accepts (windows percent).monitor (unanswered p) q (fun _ _ => True) := by
  rw [unanswered, accepts_bind]
  refine accepts_mono h fun out q' _ => ?_
  cases out <;> exact trivial

/-- **Every call pays within what it read.** -/
theorem accepts_call (call : Call) : Accepts (windows percent).monitor call.prog Held.none (fun _ _ => True) := by
  cases call with
  | accounts company => exact accepts_unanswered (accepts_reads (reading_accounts company) _)
  | detail company broker => exact accepts_unanswered (accepts_reads (reading_detail company broker) _)
  | removeSettlement company id => exact accepts_unanswered (accepts_reads (reading_removeSettlement company id) _)
  | settle company broker amount note user =>
      refine accepts_unanswered ?_
      rw [BrokerLedger.settle, accepts_bind, accepts_refuseIf]
      refine ⟨fun _ => trivial, fun _ => ?_⟩
      rw [outcome_ok, accepts_bind]
      refine accepts_mono (accepts_accountWith company broker _) fun out q hout => ?_
      cases out with
      | error e => exact trivial
      | ok account =>
          rw [outcome_ok, accepts_bind, accepts_refuseIf]
          refine ⟨fun _ => trivial, fun hleft => ?_⟩
          rw [outcome_ok, accepts_bind, issue, accepts_perform]
          refine ⟨⟨account.remaining, hout, not_lt.mp hleft⟩, fun _ _ => ?_⟩
          exact accepts_reads (reading_detail company broker) _

end Accepts

/-! ### Runs -/

section Runs

variable {Ok : List (Event Resp) → Conf Resp TripStore.ServiceError Store → Event Resp → Prop} {s₀ : Store}
  {tr : List (Event Resp)} {b : Conf Resp TripStore.ServiceError Store} {percent : ℕ}

/-- The books, with the percent in force. -/
def Sane (percent : ℕ) (s : Store) : Prop := Books s ∧ InForce percent s.trips

/-- A statement of the ledger leaves the books to the trips. -/
theorem Sane.congr {s s' : Store} (h : Sane percent s) (htables : s'.trips.toTables = s.trips.toTables)
    (hclock : s'.trips.clock = s.trips.clock) (hforce : InForce percent s'.trips) : Sane percent s' := by
  obtain ⟨⟨⟨t₀, past, hkept, hlast⟩, hfares⟩, _⟩ := h
  refine ⟨⟨⟨t₀, past, ?_, hclock ▸ hlast⟩, ?_⟩, hforce⟩
  · refine ⟨?_, hclock ▸ hkept.clock, ⟨rfl, fun entry hentry => ?_⟩, ?_⟩
    · rw [htables, hclock]
      exact hkept.sound
    · rw [hforce.setting]
      exact hforce.copy entry hentry
    · rw [htables]
      exact hkept.shared
  · have hsame : s'.trips.fares = s.trips.fares := congrArg Tables.fares htables
    rw [hsame]
    exact hfares

theorem Sane.exec {s : Store} (h : Sane percent s) {c : Cmd} (hc : LedgerOnly percent c) :
    Sane percent (exec c s).2 ∧ LedgerAnswer percent c (exec c s).1 := by
  obtain ⟨⟨htables, hclock, hforce⟩, hanswer⟩ := ledgerOnly_exec c s ⟨rfl, rfl, h.2⟩ hc
  exact ⟨h.congr htables hclock hforce, hanswer⟩

theorem ledgerOnly_of_allowed {c : Cmd} {q : Held Pair ℤ} (h : (windows percent).allowed q c) : LedgerOnly percent c := by
  cases c with
  | inl c => exact h
  | inr c => exact trivial

theorem within_call (call : Call) : call.prog.Within (LedgerOnly percent) (LedgerAnswer percent) (fun _ => True) := by
  have hunanswered : ∀ {α : Type} {p : Ledger α}, AllLedger percent p → AllLedger percent (unanswered p) :=
    fun hp => hp.bind fun _ => trivial
  cases call with
  | accounts company =>
      exact hunanswered (allLedger_getPolicy.bind fun _ => (allLedger_issue _).bind fun _ => trivial)
  | detail company broker => exact hunanswered (allLedger_detail company broker)
  | settle company broker amount note user => exact hunanswered (allLedger_settle company broker amount note user)
  | removeSettlement company id => exact hunanswered (allLedger_removeSettlement company id)

theorem outside_trip {e : TripEvent} {s s' : Store} (h : machine.outside e s = some s') :
    s.trips.clock ≤ e.time ∧ s' = afterTrip e.time e.op s := by
  unfold machine at h
  dsimp only at h
  split at h
  · exact ⟨‹_›, (Option.some.inj h).symm⟩
  · cases h

/-- The books stay sane, and every program in progress keeps to the ledger. -/
theorem sane_run (h0 : Sane percent s₀) (h : machine.Run Ok (.start s₀) tr b) :
    Sane percent b.store ∧ ∀ p ∈ b.pool, p.Within (LedgerOnly percent) (LedgerAnswer percent) (fun _ => True) := by
  refine Machine.Run.within (Sane percent) ?_ ?_ ?_ h0 (fun _ hp => absurd hp List.not_mem_nil) h
  · intro call s p s' hsane hbegin
    obtain ⟨rfl, rfl⟩ := Prod.mk.inj (Option.some.inj hbegin)
    exact ⟨hsane, within_call call⟩
  · intro e s s' hsane ho
    obtain ⟨ht, rfl⟩ := outside_trip ho
    exact ⟨hsane.1.trip ht e.op, step_inForce ⟨true, true⟩ e.time e.op hsane.2⟩
  · intro choice c s r s' hsane hc hx
    obtain ⟨rfl, rfl⟩ := Prod.mk.inj (Option.some.inj hx)
    exact hsane.exec hc

/-- A command of the ledger leaves what was earned. -/
theorem earnedOf_exec {s : Store} (h : InForce percent s.trips) {c : Cmd} (hc : LedgerOnly percent c)
    (companyUserId brokerUserId : ℕ) :
    earnedOf (exec c s).2 companyUserId brokerUserId = earnedOf s companyUserId brokerUserId := by
  obtain ⟨⟨htables, _, hforce⟩, _⟩ := ledgerOnly_exec c s ⟨rfl, rfl, h⟩ hc
  rw [earnedOf, earnedOf, htables, hforce.setting, h.setting]

/-- A payment adds to its own account only. -/
theorem paidOf_save (s : Store) (row : BrokerSettlement) (companyUserId brokerUserId : ℕ) :
    paidOf (exec (.inr (.saveSettlement row)) s).2 companyUserId brokerUserId = paidOf s companyUserId brokerUserId +
      if (row.companyUserId, row.brokerUserId) = (companyUserId, brokerUserId) then (row.amount : ℤ) else 0 := by
  have hrows : (exec (.inr (.saveSettlement row)) s).2.settlements.rows = s.settlements.rows ++ [s.newSettlement row] :=
    Table.rows_put_of_get s.settlements.get_fresh
  rw [paidOf, paidOf, paidRows, paidRows, hrows, List.filter_append, List.map_append, List.sum_append]
  congr 1
  by_cases hpair : (row.companyUserId, row.brokerUserId) = (companyUserId, brokerUserId)
  · obtain ⟨hcompany, hbroker⟩ := Prod.mk.inj hpair
    simp [Store.newSettlement, hcompany, hbroker]
  · rw [Prod.mk.injEq] at hpair
    simp [Store.newSettlement, hpair]

/-- Nothing else adds to what is paid. -/
theorem paidOf_exec {c : Cmd} (hc : LedgerOnly percent c) (s : Store) {companyUserId brokerUserId : ℕ}
    (h : pays c ≠ some (companyUserId, brokerUserId)) :
    paidOf (exec c s).2 companyUserId brokerUserId ≤ paidOf s companyUserId brokerUserId := by
  cases c with
  | inl c => exact le_refl _
  | inr c =>
      cases c with
      | saveSettlement row =>
          have hpair : ¬ (row.companyUserId, row.brokerUserId) = (companyUserId, brokerUserId) :=
            fun heq => h (congrArg some heq)
          rw [paidOf_save, if_neg hpair, add_zero]
      | deleteSettlement id =>
          have hsubl : (paidRows (s.dropSettlement id) companyUserId brokerUserId).Sublist
              (paidRows s companyUserId brokerUserId) := List.filter_sublist.filter _
          refine (hsubl.map fun x => (x.amount : ℤ)).sum_le_sum fun y hy => ?_
          obtain ⟨x, _, rfl⟩ := List.mem_map.mp hy
          exact Int.natCast_nonneg x.amount
      | _ => exact le_refl _

/-- What is left of the account is at least what was read. -/
def holds (k : Pair) (left : ℤ) (s : Store) : Prop := left ≤ earnedOf s k.1 k.2 - paidOf s k.1 k.2

/-- What the query answers is what is left. -/
theorem holds_read {s : Store} (h : Books s) {company today : ℕ} {k : Pair} {left : ℤ} (hk : k.1 = company)
    (hleft : leftOf (accountsOf s company today) k.2 = some left) : holds k left s := by
  obtain ⟨a, ha, rfl⟩ := Option.map_eq_some_iff.mp hleft
  obtain ⟨u, rfl⟩ := mem_accountsOf (List.mem_of_find?_eq_some ha)
  have hfound := List.find?_some ha
  have hid : u.id = k.2 := by
    rw [decide_eq_true_eq] at hfound
    exact hfound
  rw [holds, account_remaining, account_earned_of_books h, account_paid, hid, hk]

/-- **What a call has read of an account is still left**, unless somebody else has paid since. -/
theorem run_stands (h0 : Sane percent s₀) (h : machine.Run Ok (.start s₀) tr b) {pid : ℕ} {k : Pair} {left : ℤ}
    (hk : windowsOf (windows percent) tr pid k = some left) (hfresh : stale (windows percent) tr pid k = false) :
    holds k left b.store := by
  refine Run.stands holds ?_ ?_ ?_ ?_ ?_ h pid k left hk hfresh
  · intro tr b pid choice c next r s' k v hrun hcall hx hopens _
    obtain ⟨rfl, rfl⟩ := Prod.mk.inj (Option.some.inj hx)
    cases c with
    | inl c => cases hopens
    | inr c =>
        cases c with
        | accounts company today =>
            change (if k.1 = company then leftOf (accountsOf b.store company today) k.2 else none) = some v at hopens
            split at hopens
            · exact holds_read (sane_run h0 hrun).1.1 ‹_› hopens
            · cases hopens
        | _ => cases hopens
  · intro tr b pid choice c next r s' k v hrun hcall hx hcalm hk
    obtain ⟨rfl, rfl⟩ := Prod.mk.inj (Option.some.inj hx)
    obtain ⟨hsane, hin⟩ := sane_run h0 hrun
    have hc := Machine.pre_of_within hin hcall
    have hpaid := paidOf_exec hc b.store (of_decide_eq_false hcalm)
    have hearned := earnedOf_exec hsane.2 hc k.1 k.2
    show v ≤ earnedOf (exec c b.store).2 k.1 k.2 - paidOf (exec c b.store).2 k.1 k.2
    unfold holds at hk
    omega
  · exact fun _ _ hdisturbs => hdisturbs
  · intro tr b e s' k v hrun ho hk
    obtain ⟨ht, rfl⟩ := outside_trip ho
    have hearned := earnedOf_mono (sane_run h0 hrun).1.1 ht e.op k.1 k.2
    have hpaid : paidOf (afterTrip e.time e.op b.store) k.1 k.2 = paidOf b.store k.1 k.2 := rfl
    unfold holds at *
    omega
  · intro call s p s' k v hbegin hk
    obtain rfl : s = s' := (Prod.mk.inj (Option.some.inj hbegin)).2
    exact hk

theorem answer_of_inForce {s : Store} (h : InForce percent s.trips) (c : Cmd) : LedgerAnswer percent c (exec c s).1 := by
  cases c with
  | inr c => exact trivial
  | inl c =>
      cases c with
      | readPolicyCache => exact h.copy
      | readSetting => exact h.setting
      | _ => exact trivial

/-- The next command of a call is one its windows allow. -/
theorem run_allowed (h0 : Sane percent s₀) (h : machine.Run Ok (.start s₀) tr b) {pid : ℕ} {c : Cmd}
    {next : Resp c → Ledger Unit} (hpool : b.pool[pid]? = some (.call c next)) :
    (windows percent).allowed (windowsOf (windows percent) tr pid) c := by
  have hallows : (windows percent).monitor.allowed (stateOf (windows percent).monitor Held.none tr pid) c := by
    refine Run.allows (F := fun _ => True) ?_ ?_ h.reached hpool
    · intro call s p s' hbegin
      obtain rfl : call.prog = p := (Prod.mk.inj (Option.some.inj hbegin)).1
      exact accepts_call call
    · intro tr b pid choice c r s' q hx hok
      obtain rfl : (exec c b.store).1 = r := (Prod.mk.inj (Option.some.inj hx)).1
      exact answer_of_inForce (sane_run h0 hok.2).1.2 c
  exact hallows

/-- The percent in force at the start is in force. -/
theorem sane_of_books (hbooks : Books s₀) : Sane s₀.trips.commissionPercent s₀ := by
  obtain ⟨t₀, past, hkept, _⟩ := hbooks.kept
  exact ⟨hbooks, hkept.inForce⟩

/-- What is paid stays within what is earned. -/
theorem within_run (h0 : Sane percent s₀) (hpaid : ∀ company broker, paidOf s₀ company broker ≤ earnedOf s₀ company broker)
    (h : machine.Run (Fresh (windows percent)) (.start s₀) tr b) :
    ∀ company broker, paidOf b.store company broker ≤ earnedOf b.store company broker := by
  refine Machine.Run.invariant (fun _ b => ∀ company broker,
    paidOf b.store company broker ≤ earnedOf b.store company broker) ?_ ?_ h
  · exact hpaid
  intro tr b l e c hrun hbefore hs hfresh company broker
  have hle := hbefore company broker
  cases l with
  | outside event =>
      obtain ⟨s, ho, rfl, rfl⟩ := Machine.step_outside hs
      obtain ⟨ht, rfl⟩ := outside_trip ho
      have hrises := earnedOf_mono (sane_run h0 hrun).1.1 ht event.op company broker
      have hsame : paidOf (afterTrip event.time event.op b.store) company broker = paidOf b.store company broker := rfl
      show paidOf (afterTrip event.time event.op b.store) company broker ≤ _
      rw [hsame]
      exact hle.trans hrises
  | start call =>
      obtain ⟨p, s, hbegin, rfl, rfl⟩ := Machine.step_start hs
      obtain rfl : b.store = s := (Prod.mk.inj (Option.some.inj hbegin)).2
      exact hle
  | act pid choice =>
      obtain ⟨cmd, next, r, s, hcall, hx, rfl, rfl⟩ := Machine.step_act hs
      obtain ⟨rfl, rfl⟩ := Prod.mk.inj (Option.some.inj hx)
      have hallowed := run_allowed h0 hrun hcall
      have hearned := earnedOf_exec (sane_run h0 hrun).1.2 (ledgerOnly_of_allowed hallowed) company broker
      show paidOf (exec cmd b.store).2 company broker ≤ earnedOf (exec cmd b.store).2 company broker
      rw [hearned]
      by_cases hpays : pays cmd = some (company, broker)
      · -- a payment of this account: it is within what was left, and that still stands
        obtain ⟨row, rfl⟩ : ∃ row, cmd = .inr (.saveSettlement row) := by
          cases cmd with
          | inl c => cases hpays
          | inr c =>
              cases c with
              | saveSettlement row => exact ⟨row, rfl⟩
              | _ => cases hpays
        obtain ⟨left, hleft, hamount⟩ := hallowed
        have hpair : (row.companyUserId, row.brokerUserId) = (company, broker) := Option.some.inj hpays
        rw [hpair] at hleft
        have hstands : left ≤ earnedOf b.store company broker - paidOf b.store company broker :=
          run_stands h0 hrun hleft (fresh_of_held hleft (hfresh (company, broker) (decide_eq_true hpays)))
        rw [paidOf_save, if_pos hpair]
        omega
      · exact (paidOf_exec (ledgerOnly_of_allowed hallowed) b.store hpays).trans hle

/-- An account shows what is paid and what is earned. -/
theorem account_within (hbooks : Books b.store)
    (hwithin : ∀ company broker, paidOf b.store company broker ≤ earnedOf b.store company broker) (company today : ℕ) :
    ∀ a ∈ accountsOf b.store company today, a.paid ≤ a.earned ∧ 0 ≤ a.remaining := by
  intro a ha
  obtain ⟨u, rfl⟩ := mem_accountsOf ha
  have hle := hwithin company u.id
  rw [account_remaining, account_earned_of_books hbooks, account_paid]
  omega

/-- Whether a payment's check is not stale. -/
def isFresh (tr : List (Event Resp)) : Event Resp → Bool
  | .act pid c _ => (pays c).all fun k => !outdated (windows percent) tr pid k
  | _ => true

theorem isFresh_iff {a : Conf Resp TripStore.ServiceError Store} {e : Event Resp} :
    @isFresh percent tr e = true ↔ Fresh (windows percent) tr a e := by
  cases e with
  | outside => exact iff_of_true rfl trivial
  | start pid => exact iff_of_true rfl trivial
  | act pid c r =>
      show (pays c).all (fun k => !outdated (windows percent) tr pid k) = true ↔
        ∀ k, decide (pays c = some k) = true → outdated (windows percent) tr pid k = false
      cases hpays : pays c with
      | none => simp
      | some k => simp

instance (tr : List (Event Resp)) (a : Conf Resp TripStore.ServiceError Store) (e : Event Resp) :
    Decidable (Fresh (windows percent) tr a e) :=
  decidable_of_iff _ isFresh_iff

end Runs

/-! ### Two panels pay the same broker -/

theorem books_newLedger : Books newLedger := by
  have hforce : InForce newLedger.trips.commissionPercent newLedger.trips :=
    ⟨rfl, fun _ h => absurd h.symm (Option.some_ne_none _)⟩
  exact ⟨⟨0, [], ledger_kept rfl (le_refl 0) hforce .nil, le_refl 0⟩, fun _ _ h => absurd h.symm (Option.some_ne_none _)⟩

/-- A trip earns 100; one panel pays 60, and another, which looks at the account after that, 50. -/
def twoPanels : List machine.Label :=
  [.outside ⟨1, .request forDriverAnswers 7 1 none⟩,
    .outside ⟨2, .decide true 10 1 true ⟨some thousandTotal, some .commission⟩⟩,
    .start (.settle 10 7 "60" none 10), .outside ⟨3, .deliver true 10 1 (some thousandTotal)⟩] ++
    List.replicate 6 (.act 0 ()) ++ [.start (.settle 10 7 "50" none 11)] ++ List.replicate 3 (.act 1 ())

end TransportBackend.LedgerOverdraft
