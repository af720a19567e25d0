import PortsBox.QuotaBilling

/-!
# The hard stop

`exhaustedFlag` and the value in the watch channel are cached comparisons of
`used` with the limit. Every operation keeps them current, so nothing is accepted
at or past the limit, and what a fixed limit accepts in all is billed below it.
-/

set_option autoImplicit false

namespace PortsBox

open Word Periods

namespace UserQuota

/-- A limit is set and used up. -/
def overLimit (quota : UserQuota) : Bool := quota.limit.any (· ≤ quota.used)

/-- Flag and channel hold what they cache. -/
structure Honest (quota : UserQuota) : Prop where
  flag : quota.isExhausted = quota.overLimit
  channel : quota.exhausted = quota.isExhausted

variable {quota : UserQuota}

theorem limit_of_raw {limit : Option Nat} (h : limit ≠ some noLimit)
    (hraw : quota.rawLimit = limit.getD noLimit) : quota.limit = limit := by
  cases limit with
  | none => simp [UserQuota.limit, hraw]
  | some l =>
    have hne : l ≠ noLimit := fun heq => h (congrArg some heq)
    simp [UserQuota.limit, hraw, hne]

theorem overLimit_congr {other : UserQuota} (hlimit : quota.rawLimit = other.rawLimit)
    (hused : quota.used = other.used) : quota.overLimit = other.overLimit := by
  rw [overLimit, overLimit, limit, limit, hlimit, hused]

/-! ## Every operation keeps the cache -/

theorem honest_new (name : String) {limit : Option Nat} (saved : SavedUsage)
    (metering : Metering) (hour : Int) (h : limit ≠ some noLimit) :
    (newMeteredAt name limit saved metering hour).Honest := by
  have hlimit : (newMeteredAt name limit saved metering hour).limit = limit :=
    limit_of_raw h rfl
  have hmetering : (newMeteredAt name limit saved metering hour).metering = metering :=
    meteringFrom_meteringCode metering
  refine ⟨?_, rfl⟩
  rw [overLimit, hlimit, used, hourUsed, hmetering]
  rfl

theorem Honest.rollOverAt (h : quota.Honest) (hour : Int) : (quota.rollOverAt hour).Honest := by
  obtain ⟨_, hlimit, _, _, hflag, hchannel, _⟩ := quota.rollOverAt_fields hour
  constructor
  · rw [overLimit_congr hlimit (quota.used_rollOverAt hour), isExhausted, hflag]
    exact h.flag
  · rw [hchannel, isExhausted, hflag]
    exact h.channel

/-- What a consume leaves, by its answer. -/
theorem tryConsumeAt_cases (quota : UserQuota) (n : Nat) (direction : Direction) (hour : Int) :
    (quota.isExhausted = true ∧ quota.tryConsumeAt n direction hour = (quota, false)) ∨
    (quota.isExhausted = false ∧
      ((quota.rollOverAt hour).count n direction).overLimit = true ∧
      quota.tryConsumeAt n direction hour =
        ({ (quota.rollOverAt hour).count n direction with
            exhaustedFlag := true, exhausted := true }, false)) ∨
    (quota.isExhausted = false ∧
      ((quota.rollOverAt hour).count n direction).overLimit = false ∧
      quota.tryConsumeAt n direction hour = ((quota.rollOverAt hour).count n direction, true)) := by
  unfold tryConsumeAt
  cases hexhausted : quota.isExhausted with
  | true => exact Or.inl ⟨rfl, rfl⟩
  | false =>
    right
    cases hover : ((quota.rollOverAt hour).count n direction).overLimit with
    | true =>
      rw [overLimit] at hover
      exact Or.inl ⟨rfl, rfl, by simp [hover]⟩
    | false =>
      rw [overLimit] at hover
      exact Or.inr ⟨rfl, rfl, by simp [hover]⟩

theorem count_rollOverAt_flags (quota : UserQuota) (n : Nat) (direction : Direction)
    (hour : Int) :
    ((quota.rollOverAt hour).count n direction).isExhausted = quota.isExhausted ∧
      ((quota.rollOverAt hour).count n direction).exhausted = quota.exhausted ∧
      ((quota.rollOverAt hour).count n direction).limit = quota.limit := by
  obtain ⟨_, hlimit, _, _, hflag, hchannel, _⟩ := quota.rollOverAt_fields hour
  obtain ⟨_, hcountLimit, hcountFlag, hcountChannel, _⟩ :=
    (quota.rollOverAt hour).count_fields n direction
  exact ⟨hcountFlag.trans hflag, hcountChannel.trans hchannel,
    congrArg (fun raw => (some raw).filter (· ≠ noLimit)) (hcountLimit.trans hlimit)⟩

theorem limit_tryConsumeAt (quota : UserQuota) (n : Nat) (direction : Direction) (hour : Int) :
    (quota.tryConsumeAt n direction hour).1.limit = quota.limit := by
  obtain ⟨_, _, hlimit⟩ := quota.count_rollOverAt_flags n direction hour
  rcases quota.tryConsumeAt_cases n direction hour with ⟨_, heq⟩ | ⟨_, _, heq⟩ | ⟨_, _, heq⟩
  · rw [heq]
  · rw [heq]
    exact hlimit
  · rw [heq]
    exact hlimit

theorem metering_tryConsumeAt (quota : UserQuota) (n : Nat) (direction : Direction)
    (hour : Int) : (quota.tryConsumeAt n direction hour).1.metering = quota.metering := by
  have hcount : ((quota.rollOverAt hour).count n direction).metering = quota.metering :=
    congrArg meteringFrom (((quota.rollOverAt hour).count_fields n direction).1.trans
      (quota.rollOverAt_fields hour).1)
  rcases quota.tryConsumeAt_cases n direction hour with ⟨_, heq⟩ | ⟨_, _, heq⟩ | ⟨_, _, heq⟩
  · rw [heq]
  · rw [heq]
    exact hcount
  · rw [heq]
    exact hcount

theorem Honest.tryConsumeAt (h : quota.Honest) (n : Nat) (direction : Direction) (hour : Int) :
    (quota.tryConsumeAt n direction hour).1.Honest := by
  obtain ⟨hflag, hchannel, _⟩ := quota.count_rollOverAt_flags n direction hour
  rcases quota.tryConsumeAt_cases n direction hour with
    ⟨_, heq⟩ | ⟨_, hover, heq⟩ | ⟨hexhausted, hover, heq⟩
  · rw [heq]
    exact h
  · rw [heq]
    exact ⟨hover.symm, rfl⟩
  · rw [heq]
    constructor
    · rw [hflag, hexhausted]
      exact hover.symm
    · rw [hchannel, hflag]
      exact h.channel

theorem honest_setLimit (quota : UserQuota) {limit : Option Nat} (h : limit ≠ some noLimit) :
    (quota.setLimit limit).Honest := by
  have hlimit : (quota.setLimit limit).limit = limit := limit_of_raw h rfl
  refine ⟨?_, rfl⟩
  rw [overLimit, hlimit]
  rfl

theorem limit_ne_noLimit (quota : UserQuota) : quota.limit ≠ some noLimit := by
  intro h
  have hmem := (Option.filter_eq_some_iff.mp h).2
  simp at hmem

theorem Honest.setMetering (h : quota.Honest) (metering : Metering) :
    (quota.setMetering metering).Honest := by
  unfold UserQuota.setMetering
  dsimp only
  split
  · rename_i limit hlimit
    apply honest_setLimit
    rw [← hlimit]
    exact limit_ne_noLimit _
  · rename_i hlimit
    have hnone : quota.limit = none := hlimit
    refine ⟨?_, h.channel⟩
    have hold := h.flag
    rw [overLimit, hnone] at hold
    rw [overLimit, hlimit]
    exact hold

/-- The limits a call sets are not `u64::MAX`. -/
def LimitsBelowMax : QuotaCall → Prop
  | .setLimit limit => limit ≠ some noLimit
  | .restart limit _ _ => limit ≠ some noLimit
  | _ => True

theorem Honest.call (h : quota.Honest) {call : QuotaCall} (hcall : LimitsBelowMax call) :
    (quota.call call).Honest := by
  cases call with
  | tryConsumeAt n direction hour => exact h.tryConsumeAt n direction hour
  | rollOverAt hour => exact h.rollOverAt hour
  | setLimit limit => exact quota.honest_setLimit hcall
  | setMetering metering => exact h.setMetering metering
  | restart limit metering hour => exact honest_new quota.name quota.snapshot metering hour hcall

theorem Honest.calls (h : quota.Honest) {run : List QuotaCall}
    (hrun : ∀ call ∈ run, LimitsBelowMax call) : (quota.calls run).Honest := by
  induction run generalizing quota with
  | nil => exact h
  | cons call run ih =>
    exact ih (h.call (hrun call List.mem_cons_self))
      fun c hc => hrun c (List.mem_cons_of_mem call hc)

theorem overLimit_eq_true_iff (quota : UserQuota) :
    quota.overLimit = true ↔ ∃ limit, quota.limit = some limit ∧ limit ≤ quota.used := by
  unfold overLimit
  cases quota.limit <;> simp

/-! ## What is accepted -/

/-- An accepted consume leaves the quota below its limit. -/
theorem used_lt_of_accepted {n : Nat} {direction : Direction} {hour : Int}
    (h : (quota.tryConsumeAt n direction hour).2 = true) {limit : Nat}
    (hlimit : (quota.tryConsumeAt n direction hour).1.limit = some limit) :
    (quota.tryConsumeAt n direction hour).1.used < limit := by
  rcases quota.tryConsumeAt_cases n direction hour with
    ⟨_, heq⟩ | ⟨_, _, heq⟩ | ⟨_, hover, heq⟩
  · simp [heq] at h
  · simp [heq] at h
  · rw [heq] at hlimit ⊢
    rw [overLimit, hlimit] at hover
    simpa using hover

/-- A refused consume leaves the quota exhausted. -/
theorem exhausted_of_refused {n : Nat} {direction : Direction} {hour : Int}
    (h : (quota.tryConsumeAt n direction hour).2 = false) :
    (quota.tryConsumeAt n direction hour).1.isExhausted = true := by
  rcases quota.tryConsumeAt_cases n direction hour with
    ⟨hexhausted, heq⟩ | ⟨_, _, heq⟩ | ⟨_, _, heq⟩
  · rw [heq]
    exact hexhausted
  · rw [heq]
    rfl
  · simp [heq] at h

def acceptedOf (quota : UserQuota) : QuotaCall → Option Event
  | .tryConsumeAt n direction hour =>
    if (quota.tryConsumeAt n direction hour).2 then some (hour, direction.bytes n) else none
  | _ => none

/-- The events of the consumes that returned true. -/
def accepted (quota : UserQuota) : List QuotaCall → List Event
  | [] => []
  | call :: run => (quota.acceptedOf call).toList ++ (quota.call call).accepted run

/-- Restarts come back with the same limit. -/
def KeepsLimit (limit : Nat) : QuotaCall → Prop
  | .restart restored _ _ => restored = some limit
  | _ => True

/-- What a quota in use starts from, as an opening that has counted nothing yet. -/
def opening (quota : UserQuota) : Opening :=
  ⟨quota.totalUpload, quota.totalDownload, quota.settled,
    [(quota.bucketHour, (quota.hourUpload, quota.hourDownload))]⟩

theorem counts_opening (quota : UserQuota) : quota.opening.Counts quota.metering [] quota :=
  ⟨rfl, rfl, rfl, Meter.holds_start quota.metering.charge quota.settled
    (quota.hourUpload, quota.hourDownload) quota.bucketHour⟩

/-! ## One limit and one metering -/

/-- Until the quota is exhausted everything counted was accepted; what was accepted is billed
below the limit. -/
structure Below (opening : Opening) (metering : Metering) (limit : Nat)
    (events accepted : List Event) (quota : UserQuota) : Prop where
  counts : opening.Counts metering events quota
  honest : quota.Honest
  limited : quota.limit = some limit
  all : quota.isExhausted = false → accepted = events
  below : billed metering.charge accepted < limit

section Fixed
variable {opening : Opening} {metering : Metering} {limit : Nat} {events accepted : List Event}

theorem Below.tryConsumeAt (h : Below opening metering limit events accepted quota) (n : Nat)
    (direction : Direction) {hour : Int} (hhour : quota.bucketHour ≤ hour)
    (hfits : opening.Fits metering
      (events ++ (quota.eventOf (.tryConsumeAt n direction hour)).toList)) :
    Below opening metering limit
      (events ++ (quota.eventOf (.tryConsumeAt n direction hour)).toList)
      (accepted ++ (quota.acceptedOf (.tryConsumeAt n direction hour)).toList)
      (quota.tryConsumeAt n direction hour).1 := by
  have hcounts := h.counts.tryConsumeAt n direction hhour hfits
  have hhonest := h.honest.tryConsumeAt n direction hour
  obtain ⟨_, _, hlimit⟩ := quota.count_rollOverAt_flags n direction hour
  rcases quota.tryConsumeAt_cases n direction hour with
    ⟨hexhausted, heq⟩ | ⟨hopen, _, heq⟩ | ⟨hopen, _, heq⟩
  · have hevent : quota.eventOf (.tryConsumeAt n direction hour) = none := by
      simp [eventOf, hexhausted]
    have hrefused : quota.acceptedOf (.tryConsumeAt n direction hour) = none := by
      simp [acceptedOf, heq]
    rw [hevent, hrefused, heq, Option.toList_none, List.append_nil, List.append_nil]
    exact h
  · have hrefused : quota.acceptedOf (.tryConsumeAt n direction hour) = none := by
      simp [acceptedOf, heq]
    refine ⟨hcounts, hhonest, ?_, ?_, ?_⟩
    · rw [heq]
      exact hlimit.trans h.limited
    · intro hnot
      rw [heq] at hnot
      simp [isExhausted] at hnot
    · rw [hrefused, Option.toList_none, List.append_nil]
      exact h.below
  · have hlimited : (quota.tryConsumeAt n direction hour).1.limit = some limit := by
      rw [heq]
      exact hlimit.trans h.limited
    have hsame : accepted ++ (quota.acceptedOf (.tryConsumeAt n direction hour)).toList =
        events ++ (quota.eventOf (.tryConsumeAt n direction hour)).toList := by
      simp [h.all hopen, acceptedOf, eventOf, heq, hopen]
    have haccepted : (quota.tryConsumeAt n direction hour).2 = true := by rw [heq]
    have hused := used_lt_of_accepted haccepted hlimited
    rw [hcounts.used hfits] at hused
    have hle := billed_le_prepend metering.charge_zero metering.charge_mono opening.bucket
      (events ++ (quota.eventOf (.tryConsumeAt n direction hour)).toList)
    refine ⟨hcounts, hhonest, hlimited, fun _ => hsame, ?_⟩
    rw [hsame]
    omega

theorem Below.rollOverAt (h : Below opening metering limit events accepted quota) {hour : Int}
    (hhour : quota.bucketHour ≤ hour) (hfits : opening.Fits metering events) :
    Below opening metering limit events accepted (quota.rollOverAt hour) := by
  obtain ⟨_, hlimit, _, _, hflag, _, _⟩ := quota.rollOverAt_fields hour
  refine ⟨h.counts.rollOverAt hfits hhour, h.honest.rollOverAt hour, ?_, ?_, h.below⟩
  · rw [UserQuota.limit, hlimit]
    exact h.limited
  · intro hopen
    exact h.all (hflag.symm.trans hopen)

/-- A quota restored with its limit is exhausted exactly when it was. -/
theorem exhausted_restart (h : quota.Honest) (hlimit : quota.limit = some limit) (hour : Int) :
    (newMeteredAt quota.name (some limit) quota.snapshot quota.metering hour).isExhausted =
      quota.isExhausted := by
  have hne : some limit ≠ some noLimit := by
    rw [← hlimit]
    exact quota.limit_ne_noLimit
  have hnew := honest_new quota.name quota.snapshot quota.metering hour hne
  rw [hnew.flag, h.flag, overLimit, overLimit, quota.used_restart, hlimit]
  rw [limit_of_raw hne rfl]

theorem Below.restart (h : Below opening metering limit events accepted quota) {hour : Int}
    (hhour : quota.bucketHour ≤ hour) (hfits : opening.Fits metering events) :
    Below opening metering limit events accepted
      (newMeteredAt quota.name (some limit) quota.snapshot metering hour) := by
  have hne : some limit ≠ some noLimit := by
    rw [← h.limited]
    exact quota.limit_ne_noLimit
  refine ⟨h.counts.restart hfits (some limit) hhour,
    honest_new quota.name quota.snapshot metering hour hne, limit_of_raw hne rfl, ?_, h.below⟩
  intro hopen
  have hsame := exhausted_restart h.honest h.limited hour
  rw [h.counts.setting] at hsame
  exact h.all (hsame.symm.trans hopen)

theorem Below.calls {now : Int} {run : List QuotaCall}
    (h : Below opening metering limit events accepted quota) (hnow : quota.bucketHour ≤ now)
    (hrun : Scheduled metering now run) (hkeeps : ∀ call ∈ run, KeepsLimit limit call)
    (hfits : opening.Fits metering (events ++ quota.events run)) :
    Below opening metering limit (events ++ quota.events run)
      (accepted ++ quota.accepted run) (quota.calls run) := by
  induction run generalizing quota now events accepted with
  | nil =>
    rw [UserQuota.events, UserQuota.accepted, List.append_nil, List.append_nil]
    exact h
  | cons call run ih =>
    rw [UserQuota.events, ← List.append_assoc] at hfits ⊢
    rw [UserQuota.accepted, ← List.append_assoc]
    have hrest : ∀ c ∈ run, KeepsLimit limit c := fun c hc =>
      hkeeps c (List.mem_cons_of_mem call hc)
    have hfitsNow : opening.Fits metering events := hfits.prefix.prefix
    cases call with
    | tryConsumeAt n direction hour =>
      rcases hrun with ⟨hhour, hscheduled⟩
      exact ih (h.tryConsumeAt n direction (hnow.trans hhour) hfits.prefix)
        (quota.tryConsumeAt_bucketHour n direction (hnow.trans hhour)) hscheduled hrest hfits
    | rollOverAt hour =>
      rcases hrun with ⟨hhour, hscheduled⟩
      obtain ⟨_, _, _, _, _, _, hbucket⟩ := quota.rollOverAt_fields hour
      have hevent : quota.eventOf (.rollOverAt hour) = none := rfl
      have hnone : quota.acceptedOf (.rollOverAt hour) = none := rfl
      rw [hevent, Option.toList_none, List.append_nil] at hfits ⊢
      rw [hnone, Option.toList_none, List.append_nil]
      exact ih (h.rollOverAt (hnow.trans hhour) hfitsNow) hbucket.le hscheduled hrest hfits
    | restart restored setting hour =>
      rcases hrun with ⟨rfl, hhour, hscheduled⟩
      obtain rfl : restored = some limit := hkeeps _ List.mem_cons_self
      have hevent : quota.eventOf (.restart (some limit) setting hour) = none := rfl
      have hnone : quota.acceptedOf (.restart (some limit) setting hour) = none := rfl
      rw [hevent, Option.toList_none, List.append_nil] at hfits ⊢
      rw [hnone, Option.toList_none, List.append_nil]
      exact ih (h.restart (hnow.trans hhour) hfitsNow) le_rfl hscheduled hrest hfits
    | setLimit limit => exact absurd hrun id
    | setMetering setting => exact absurd hrun id

/-! ## After the first refusal -/

/-- Exhausted under a limit. -/
structure Stopped (metering : Metering) (limit : Nat) (quota : UserQuota) : Prop where
  honest : quota.Honest
  limited : quota.limit = some limit
  setting : quota.metering = metering
  exhausted : quota.isExhausted = true

/-- The counters a user can see. -/
def SameCounters (quota other : UserQuota) : Prop :=
  quota.upload = other.upload ∧ quota.download = other.download ∧ quota.used = other.used

theorem Stopped.call (h : Stopped metering limit quota) {now : Int} {call : QuotaCall}
    {run : List QuotaCall} (hrun : Scheduled metering now (call :: run))
    (hkeeps : KeepsLimit limit call) :
    quota.eventOf call = none ∧ Stopped metering limit (quota.call call) ∧
      SameCounters (quota.call call) quota ∧ ∃ later, Scheduled metering later run := by
  cases call with
  | tryConsumeAt n direction hour =>
    have hcall : quota.call (.tryConsumeAt n direction hour) = quota := by
      simp [UserQuota.call, UserQuota.tryConsumeAt, h.exhausted]
    rw [hcall]
    exact ⟨by simp [eventOf, h.exhausted], h, ⟨rfl, rfl, rfl⟩, hour, hrun.2⟩
  | rollOverAt hour =>
    obtain ⟨hmetering, hlimit, hup, hdown, hflag, _, _⟩ := quota.rollOverAt_fields hour
    refine ⟨rfl, ⟨h.honest.rollOverAt hour, ?_, ?_, hflag.trans h.exhausted⟩,
      ⟨hup, hdown, quota.used_rollOverAt hour⟩, hour, hrun.2⟩
    · change (quota.rollOverAt hour).limit = _
      rw [UserQuota.limit, hlimit]
      exact h.limited
    · change (quota.rollOverAt hour).metering = _
      rw [UserQuota.metering, hmetering]
      exact h.setting
  | restart restored setting hour =>
    rcases hrun with ⟨rfl, _, hscheduled⟩
    obtain rfl : restored = some limit := hkeeps
    have hne : some limit ≠ some noLimit := by
      rw [← h.limited]
      exact quota.limit_ne_noLimit
    have hsame := exhausted_restart h.honest h.limited hour
    have hused := quota.used_restart quota.name (some limit) hour
    rw [h.setting] at hsame hused
    exact ⟨rfl, ⟨honest_new _ _ _ _ hne, limit_of_raw hne rfl, meteringFrom_meteringCode _,
      hsame.trans h.exhausted⟩, ⟨rfl, rfl, hused⟩, hour, hscheduled⟩
  | setLimit limit => exact absurd hrun id
  | setMetering setting => exact absurd hrun id

theorem Stopped.calls (h : Stopped metering limit quota) {now : Int} {run : List QuotaCall}
    (hrun : Scheduled metering now run) (hkeeps : ∀ call ∈ run, KeepsLimit limit call) :
    quota.events run = [] ∧ SameCounters (quota.calls run) quota := by
  induction run generalizing quota now with
  | nil => exact ⟨rfl, rfl, rfl, rfl⟩
  | cons call run ih =>
    obtain ⟨hevent, hstopped, hsame, later, hscheduled⟩ :=
      h.call hrun (hkeeps call List.mem_cons_self)
    obtain ⟨hevents, hrest⟩ :=
      ih hstopped hscheduled fun c hc => hkeeps c (List.mem_cons_of_mem call hc)
    refine ⟨?_, hrest.1.trans hsame.1, hrest.2.1.trans hsame.2.1, hrest.2.2.trans hsame.2.2⟩
    rw [UserQuota.events, hevent, hevents]
    rfl

end Fixed

theorem scheduled_append {metering : Metering} {now : Int} {run rest : List QuotaCall}
    (h : Scheduled metering now (run ++ rest)) :
    Scheduled metering now run ∧ ∃ later, Scheduled metering later rest := by
  induction run generalizing now with
  | nil => exact ⟨trivial, now, h⟩
  | cons call run ih =>
    cases call with
    | tryConsumeAt n direction hour =>
      obtain ⟨hrun, hrest⟩ := ih h.2
      exact ⟨⟨h.1, hrun⟩, hrest⟩
    | rollOverAt hour =>
      obtain ⟨hrun, hrest⟩ := ih h.2
      exact ⟨⟨h.1, hrun⟩, hrest⟩
    | restart limit setting hour =>
      obtain ⟨hrun, hrest⟩ := ih h.2.2
      exact ⟨⟨h.1, h.2.1, hrun⟩, hrest⟩
    | setLimit limit => exact absurd h id
    | setMetering setting => exact absurd h id

/-- In every reachable state the flag and the channel say whether a limit is set and used up,
and a consume is accepted only below the limit. Under one limit and one metering, with hours
that do not go back, what is accepted in all is billed below the limit, and nothing is
counted after the first refusal. -/
theorem hard_stop (name : String) {limit : Option Nat} (saved : SavedUsage)
    (metering : Metering) (start : Int) {run : List QuotaCall} (hlimit : limit ≠ some noLimit)
    (hrun : ∀ call ∈ run, LimitsBelowMax call) :
    let quota := newMeteredAt name limit saved metering start
    let last := quota.calls run
    (last.isExhausted = true ↔ ∃ l, last.limit = some l ∧ l ≤ last.used) ∧
    last.exhausted = last.isExhausted ∧
    (∀ n direction hour, (last.tryConsumeAt n direction hour).2 = true →
      ∀ l, (last.tryConsumeAt n direction hour).1.limit = some l →
        (last.tryConsumeAt n direction hour).1.used < l) ∧
    (∀ l, limit = some l → 0 < l → Scheduled metering start run →
      (∀ call ∈ run, KeepsLimit l call) → quota.opening.Fits metering (quota.events run) →
      billed metering.charge (quota.accepted run) < l ∧
      ∀ pre post n direction hour, run = pre ++ .tryConsumeAt n direction hour :: post →
        ((quota.calls pre).tryConsumeAt n direction hour).2 = false →
        let stopped := ((quota.calls pre).tryConsumeAt n direction hour).1
        stopped.events post = [] ∧ SameCounters last stopped) := by
  intro quota last
  have hnew : quota.Honest := honest_new name saved metering start hlimit
  have hlast : last.Honest := hnew.calls hrun
  refine ⟨?_, hlast.channel, fun n direction hour h l hl => used_lt_of_accepted h hl, ?_⟩
  · rw [hlast.flag]
    exact last.overLimit_eq_true_iff
  · intro l hl hpos hscheduled hkeeps hfits
    have hsetting : quota.metering = metering := meteringFrom_meteringCode metering
    have hbelow : Below quota.opening metering l [] [] quota := by
      refine ⟨?_, hnew, (limit_of_raw hlimit rfl).trans hl, fun _ => rfl, hpos⟩
      rw [← hsetting]
      exact quota.counts_opening
    have hstart : quota.bucketHour ≤ start := le_refl start
    constructor
    · exact (hbelow.calls hstart hscheduled hkeeps hfits).below
    · rintro pre post n direction hour rfl hrefused
      obtain ⟨hpre, later, hrest⟩ := scheduled_append hscheduled
      have hfitsPre : quota.opening.Fits metering ([] ++ quota.events pre) := by
        rw [events_append] at hfits
        exact hfits.prefix
      have hat := hbelow.calls hstart hpre
        (fun c hc => hkeeps c (List.mem_append_left _ hc)) hfitsPre
      have hhonest := hat.honest.tryConsumeAt n direction hour
      have hstopped : Stopped metering l
          ((quota.calls pre).tryConsumeAt n direction hour).1 := by
        refine ⟨hhonest, ?_, ?_, exhausted_of_refused hrefused⟩
        · rw [limit_tryConsumeAt]
          exact hat.limited
        · rw [metering_tryConsumeAt]
          exact hat.counts.setting
      have hpost := hstopped.calls hrest.2 fun c hc =>
        hkeeps c (List.mem_append_right _ (List.mem_cons_of_mem _ hc))
      refine ⟨hpost.1, ?_⟩
      have hsplit : last = (((quota.calls pre).tryConsumeAt n direction hour).1).calls post :=
        quota.calls_append pre _
      rw [hsplit]
      exact hpost.2

/-- Two directions up to the limit, and one more consume. -/
def hardStopRun : List QuotaCall :=
  [.tryConsumeAt 60 .upload 5, .tryConsumeAt 60 .download 5, .tryConsumeAt 40 .download 6,
    .tryConsumeAt 1 .upload 6]

theorem fits_hardStopRun :
    (newMeteredAt "a" (some 100) {} .max 5).opening.Fits .max
      ((newMeteredAt "a" (some 100) {} .max 5).events hardStopRun) := by
  refine ⟨by decide, by decide, ?_, by decide⟩
  intro hour
  have hle := inPeriod_le_totals hour
    ((newMeteredAt "a" (some 100) {} .max 5).opening.bucket ++
      (newMeteredAt "a" (some 100) {} .max 5).events hardStopRun)
  have hup : uploaded ((newMeteredAt "a" (some 100) {} .max 5).opening.bucket ++
      (newMeteredAt "a" (some 100) {} .max 5).events hardStopRun) = 60 := by decide
  have hdown : downloaded ((newMeteredAt "a" (some 100) {} .max 5).opening.bucket ++
      (newMeteredAt "a" (some 100) {} .max 5).events hardStopRun) = 100 := by decide
  omega

theorem hard_stop_hardStopRun :
    ((newMeteredAt "a" (some 100) {} .max 5).calls hardStopRun).isExhausted = true ∧
      billed (Metering.charge .max)
        ((newMeteredAt "a" (some 100) {} .max 5).accepted hardStopRun) < 100 := by
  obtain ⟨hflag, _, _, hfixed⟩ :=
    hard_stop "a" {} .max 5 (show some 100 ≠ some noLimit by decide)
      (show ∀ call ∈ hardStopRun, LimitsBelowMax call by simp [hardStopRun, LimitsBelowMax])
  exact ⟨hflag.mpr ⟨100, by decide, by decide⟩,
    (hfixed 100 rfl (by decide) (by simp [hardStopRun, Scheduled])
      (by simp [hardStopRun, KeepsLimit]) fits_hardStopRun).1⟩

end UserQuota

end PortsBox
