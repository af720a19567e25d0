import PortsBox.QuotaCore
import PortsBox.Lib.Periods

/-!
# Hourly billing

A quota refines the meter with one bucket of uploaded and downloaded bytes per
hour. As long as no counter leaves 64 bits, `used` is what the definition bills:
over the hours, the bill of everything counted in the hour.
-/

set_option autoImplicit false

namespace PortsBox

open Word Periods

/-! ## The abstract meter -/

def Metering.charge (metering : Metering) (bytes : Nat × Nat) : Nat :=
  metering.bill bytes.1 bytes.2

theorem Metering.charge_zero (metering : Metering) : metering.charge 0 = 0 := by
  cases metering <;> rfl

theorem Metering.charge_mono (metering : Metering) : Monotone metering.charge := by
  intro a b hab
  have hup : a.1 ≤ b.1 := hab.1
  have hdown : a.2 ≤ b.2 := hab.2
  cases metering with
  | max => exact max_le_max hup hdown
  | sum =>
    change clamp 64 (a.1 + a.2) ≤ clamp 64 (b.1 + b.2)
    unfold clamp
    omega
  | download => exact hdown

def Direction.bytes (n : Nat) : Direction → Nat × Nat
  | .upload => (n, 0)
  | .download => (0, n)

/-- A counted consume: its hour, and the bytes uploaded and downloaded. -/
abbrev Event := Int × (Nat × Nat)

def uploaded (events : List Event) : Nat := (events.map fun e => e.2.1).sum

def downloaded (events : List Event) : Nat := (events.map fun e => e.2.2).sum

namespace UserQuota

/-- The meter that a quota's settled sum and bucket make up. -/
def meter (quota : UserQuota) : Meter Int (Nat × Nat) :=
  ⟨quota.settled, (quota.hourUpload, quota.hourDownload), quota.bucketHour⟩

theorem used_eq_wrap_total (quota : UserQuota) :
    quota.used = wrap 64 (quota.meter.total quota.metering.charge) := rfl

/-- What a call counts: a consume made while the quota is not exhausted. -/
def eventOf (quota : UserQuota) : QuotaCall → Option Event
  | .tryConsumeAt n direction hour =>
    if quota.isExhausted then none else some (hour, direction.bytes n)
  | _ => none

/-- The events a run counts, in order. -/
def events (quota : UserQuota) : List QuotaCall → List Event
  | [] => []
  | call :: run => (quota.eventOf call).toList ++ (quota.call call).events run

theorem events_append (quota : UserQuota) (run more : List QuotaCall) :
    quota.events (run ++ more) = quota.events run ++ (quota.calls run).events more := by
  induction run generalizing quota with
  | nil => rfl
  | cons call run ih =>
    simp only [List.cons_append, events, ih, List.append_assoc]
    rfl

theorem calls_append (quota : UserQuota) (run more : List QuotaCall) :
    quota.calls (run ++ more) = (quota.calls run).calls more := List.foldl_append

end UserQuota

theorem uploaded_append (events more : List Event) :
    uploaded (events ++ more) = uploaded events + uploaded more := by
  simp [uploaded]

theorem downloaded_append (events more : List Event) :
    downloaded (events ++ more) = downloaded events + downloaded more := by
  simp [downloaded]

theorem inPeriod_le_totals (hour : Int) (events : List Event) :
    (inPeriod hour events).1 ≤ uploaded events ∧ (inPeriod hour events).2 ≤ downloaded events := by
  induction events with
  | nil => exact ⟨le_rfl, le_rfl⟩
  | cons e events ih =>
    rw [← List.singleton_append, inPeriod_append, uploaded_append, downloaded_append]
    have hone : inPeriod hour [e] = if e.1 = hour then e.2 else 0 :=
      inPeriod_single hour e.1 e.2
    have hup : uploaded [e] = e.2.1 := by simp [uploaded]
    have hdown : downloaded [e] = e.2.2 := by simp [downloaded]
    rw [hone, Prod.fst_add, Prod.snd_add, hup, hdown]
    split
    · exact ⟨Nat.add_le_add le_rfl ih.1, Nat.add_le_add le_rfl ih.2⟩
    · exact ⟨Nat.add_le_add (Nat.zero_le _) ih.1, Nat.add_le_add (Nat.zero_le _) ih.2⟩

/-! ## Refinement -/

/-- What a quota starts from: its lifetime totals, its settled sum and its bucket. -/
structure Opening where
  upload : Nat
  download : Nat
  settled : Nat
  bucket : List Event

/-- No counter of a quota that started so and counted the events leaves 64 bits. -/
structure Opening.Fits (opening : Opening) (metering : Metering) (events : List Event) : Prop where
  upload : opening.upload + uploaded events < 2 ^ 64
  download : opening.download + downloaded events < 2 ^ 64
  hour : ∀ hour, (inPeriod hour (opening.bucket ++ events)).1 < 2 ^ 64 ∧
    (inPeriod hour (opening.bucket ++ events)).2 < 2 ^ 64
  billed : opening.settled + billed metering.charge (opening.bucket ++ events) < 2 ^ 64

/-- The quota has counted exactly the events. -/
structure Opening.Counts (opening : Opening) (metering : Metering) (events : List Event)
    (quota : UserQuota) : Prop where
  setting : quota.metering = metering
  upload : quota.totalUpload = opening.upload + uploaded events
  download : quota.totalDownload = opening.download + downloaded events
  meter : quota.meter.Holds metering.charge opening.settled (opening.bucket ++ events)

section Refinement
variable {opening : Opening} {metering : Metering} {events more : List Event} {quota : UserQuota}

theorem Opening.Fits.prefix (h : opening.Fits metering (events ++ more)) :
    opening.Fits metering events := by
  have hup := h.upload
  have hdown := h.download
  have hbilled := h.billed
  rw [uploaded_append] at hup
  rw [downloaded_append] at hdown
  rw [← List.append_assoc] at hbilled
  have hle := billed_le_append metering.charge_zero metering.charge_mono
    (opening.bucket ++ events) more
  refine ⟨by omega, by omega, ?_, by omega⟩
  intro hour
  have hhour := h.hour hour
  rw [← List.append_assoc, inPeriod_append, Prod.fst_add, Prod.snd_add] at hhour
  omega

/-- In range `used` is the meter's total, and so what the definition bills. -/
theorem Opening.Counts.used (h : opening.Counts metering events quota)
    (hfits : opening.Fits metering events) :
    quota.used = opening.settled + billed metering.charge (opening.bucket ++ events) := by
  rw [UserQuota.used_eq_wrap_total, h.setting, h.meter.total, wrap_of_lt hfits.billed]

theorem UserQuota.rollOverAt_meter (quota : UserQuota) (hour : Int)
    (h : quota.meter.total quota.metering.charge < 2 ^ 64) :
    (quota.rollOverAt hour).meter = quota.meter.roll quota.metering.charge hour := by
  unfold UserQuota.rollOverAt UserQuota.settleTo
  by_cases hhour : quota.bucketHour = hour
  · have hsame : quota.meter.period = hour := hhour
    rw [if_neg (not_not.mpr hhour), Meter.roll, if_pos hsame]
  · have hother : ¬ quota.meter.period = hour := hhour
    have hsettled : wrap 64 (quota.settled +
        quota.metering.bill quota.hourUpload quota.hourDownload) =
          quota.settled + quota.metering.bill quota.hourUpload quota.hourDownload := wrap_of_lt h
    rw [if_pos hhour, if_neg hhour, Meter.roll, if_neg hother]
    simp only [UserQuota.meter, hsettled]
    rfl

/-- Rolling over writes neither the totals nor the settings. -/
theorem UserQuota.rollOverAt_fields (quota : UserQuota) (hour : Int) :
    (quota.rollOverAt hour).rawMetering = quota.rawMetering ∧
      (quota.rollOverAt hour).rawLimit = quota.rawLimit ∧
      (quota.rollOverAt hour).totalUpload = quota.totalUpload ∧
      (quota.rollOverAt hour).totalDownload = quota.totalDownload ∧
      (quota.rollOverAt hour).exhaustedFlag = quota.exhaustedFlag ∧
      (quota.rollOverAt hour).exhausted = quota.exhausted ∧
      (quota.rollOverAt hour).bucketHour = hour := by
  unfold UserQuota.rollOverAt UserQuota.settleTo
  by_cases hhour : quota.bucketHour = hour
  · simp [hhour]
  · simp [hhour]

theorem Opening.Counts.rollOverAt (h : opening.Counts metering events quota)
    (hfits : opening.Fits metering events) {hour : Int} (hhour : quota.bucketHour ≤ hour) :
    opening.Counts metering events (quota.rollOverAt hour) := by
  obtain ⟨hmetering, _, hup, hdown, _, _, _⟩ := quota.rollOverAt_fields hour
  have hlt : quota.meter.total quota.metering.charge < 2 ^ 64 := by
    rw [h.setting, h.meter.total]
    exact hfits.billed
  refine ⟨?_, hup.trans h.upload, hdown.trans h.download, ?_⟩
  · rw [UserQuota.metering, hmetering]
    exact h.setting
  · rw [quota.rollOverAt_meter hour hlt, h.setting]
    exact h.meter.roll metering.charge_zero hhour

theorem UserQuota.count_fields (quota : UserQuota) (n : Nat) (direction : Direction) :
    (quota.count n direction).rawMetering = quota.rawMetering ∧
      (quota.count n direction).rawLimit = quota.rawLimit ∧
      (quota.count n direction).exhaustedFlag = quota.exhaustedFlag ∧
      (quota.count n direction).exhausted = quota.exhausted ∧
      (quota.count n direction).bucketHour = quota.bucketHour := by
  cases direction <;> exact ⟨rfl, rfl, rfl, rfl, rfl⟩

theorem Opening.Counts.count (h : opening.Counts metering events quota) (n : Nat)
    (direction : Direction)
    (hfits : opening.Fits metering (events ++ [(quota.bucketHour, direction.bytes n)])) :
    opening.Counts metering (events ++ [(quota.bucketHour, direction.bytes n)])
      (quota.count n direction) := by
  have hbucket : (quota.hourUpload, quota.hourDownload) =
      inPeriod quota.bucketHour (opening.bucket ++ events) := h.meter.bucket
  have hhour := hfits.hour quota.bucketHour
  rw [← List.append_assoc, inPeriod_append, inPeriod_single, if_pos rfl, ← hbucket] at hhour
  have hup := hfits.upload
  have hdown := hfits.download
  rw [uploaded_append, ← Nat.add_assoc, ← h.upload] at hup
  rw [downloaded_append, ← Nat.add_assoc, ← h.download] at hdown
  have hadd := h.meter.add metering.charge_zero (direction.bytes n)
  rw [List.append_assoc] at hadd
  cases direction with
  | upload =>
    simp only [Direction.bytes, uploaded, List.map_cons, List.map_nil, List.sum_singleton,
      Prod.fst_add] at hup hhour
    refine ⟨h.setting, ?_, ?_, ?_⟩
    · rw [uploaded_append, ← Nat.add_assoc, ← h.upload]
      exact wrap_of_lt hup
    · rw [downloaded_append, ← Nat.add_assoc, ← h.download]
      rfl
    · have hword : wrap 64 (quota.hourUpload + n) = quota.hourUpload + n := wrap_of_lt hhour.1
      have hmeter : (quota.count n .upload).meter = quota.meter.add (n, 0) := by
        simp only [UserQuota.count, UserQuota.meter, Meter.add, hword]
        rfl
      rw [hmeter]
      exact hadd
  | download =>
    simp only [Direction.bytes, downloaded, List.map_cons, List.map_nil, List.sum_singleton,
      Prod.snd_add] at hdown hhour
    refine ⟨h.setting, ?_, ?_, ?_⟩
    · rw [uploaded_append, ← Nat.add_assoc, ← h.upload]
      rfl
    · rw [downloaded_append, ← Nat.add_assoc, ← h.download]
      exact wrap_of_lt hdown
    · have hword : wrap 64 (quota.hourDownload + n) = quota.hourDownload + n :=
        wrap_of_lt hhour.2
      have hmeter : (quota.count n .download).meter = quota.meter.add (0, n) := by
        simp only [UserQuota.count, UserQuota.meter, Meter.add, hword]
        rfl
      rw [hmeter]
      exact hadd

theorem UserQuota.tryConsumeAt_bucketHour (quota : UserQuota) (n : Nat) (direction : Direction)
    {hour : Int} (hhour : quota.bucketHour ≤ hour) :
    (quota.tryConsumeAt n direction hour).1.bucketHour ≤ hour := by
  have hbucket : ((quota.rollOverAt hour).count n direction).bucketHour = hour := by
    rw [((quota.rollOverAt hour).count_fields n direction).2.2.2.2]
    exact (quota.rollOverAt_fields hour).2.2.2.2.2.2
  unfold UserQuota.tryConsumeAt
  dsimp only
  split
  · exact hhour
  · split <;> exact hbucket.le

/-- A restart leaves the meter where a roll-over would. -/
theorem UserQuota.restart_meter (quota : UserQuota) (name : String) (limit : Option Nat)
    (hour : Int) :
    (newMeteredAt name limit quota.snapshot quota.metering hour).meter =
      (quota.rollOverAt hour).meter := by
  unfold newMeteredAt UserQuota.rollOverAt UserQuota.settleTo
  by_cases hhour : quota.bucketHour = hour
  · have hsaved : quota.snapshot.hourId = hour := hhour
    simp only [hsaved, hhour, ne_eq, not_true_eq_false, if_true, if_false]
    rw [← hhour]
    rfl
  · have hsaved : ¬ quota.snapshot.hourId = hour := hhour
    simp only [hsaved, hhour, ne_eq, not_false_eq_true, if_true, if_false]
    rfl

theorem Opening.Counts.restart (h : opening.Counts metering events quota)
    (hfits : opening.Fits metering events) (limit : Option Nat) {hour : Int}
    (hhour : quota.bucketHour ≤ hour) :
    opening.Counts metering events
      (UserQuota.newMeteredAt quota.name limit quota.snapshot metering hour) := by
  have hrolled := (h.rollOverAt hfits hhour).meter
  rw [← quota.restart_meter quota.name limit, h.setting] at hrolled
  exact ⟨meteringFrom_meteringCode metering, h.upload, h.download, hrolled⟩

theorem Opening.Counts.tryConsumeAt (h : opening.Counts metering events quota) (n : Nat)
    (direction : Direction) {hour : Int} (hhour : quota.bucketHour ≤ hour)
    (hfits : opening.Fits metering
      (events ++ (quota.eventOf (.tryConsumeAt n direction hour)).toList)) :
    opening.Counts metering (events ++ (quota.eventOf (.tryConsumeAt n direction hour)).toList)
      (quota.tryConsumeAt n direction hour).1 := by
  unfold UserQuota.tryConsumeAt
  unfold UserQuota.eventOf at hfits ⊢
  cases hexhausted : quota.isExhausted with
  | true =>
    simp only [if_true, Option.toList_none, List.append_nil]
    exact h
  | false =>
    simp only [hexhausted, Bool.false_eq_true, if_false, Option.toList_some] at hfits ⊢
    obtain ⟨_, _, _, _, _, _, hbucket⟩ := quota.rollOverAt_fields hour
    have hcount := (h.rollOverAt hfits.prefix hhour).count n direction (by rwa [hbucket])
    rw [hbucket] at hcount
    split
    · exact ⟨hcount.setting, hcount.upload, hcount.download, hcount.meter⟩
    · exact hcount

end Refinement

/-! ## Runs -/

/-- Consumes, reads that roll over and restarts, with one metering and hours that do not go
back. -/
def Scheduled (metering : Metering) (now : Int) : List QuotaCall → Prop
  | [] => True
  | .tryConsumeAt _ _ hour :: run => now ≤ hour ∧ Scheduled metering hour run
  | .rollOverAt hour :: run => now ≤ hour ∧ Scheduled metering hour run
  | .restart _ setting hour :: run =>
    setting = metering ∧ now ≤ hour ∧ Scheduled metering hour run
  | .setLimit _ :: _ => False
  | .setMetering _ :: _ => False

/-- What every call of a schedule preserves, the schedule preserves. -/
theorem Opening.Counts.calls {opening : Opening} {metering : Metering} {events : List Event}
    {quota : UserQuota} {now : Int} {run : List QuotaCall}
    (h : opening.Counts metering events quota) (hnow : quota.bucketHour ≤ now)
    (hrun : Scheduled metering now run)
    (hfits : opening.Fits metering (events ++ quota.events run)) :
    opening.Counts metering (events ++ quota.events run) (quota.calls run) := by
  induction run generalizing quota now events with
  | nil =>
    rw [UserQuota.events, List.append_nil]
    exact h
  | cons call run ih =>
    rw [UserQuota.events, ← List.append_assoc] at hfits ⊢
    cases call with
    | tryConsumeAt n direction hour =>
      rcases hrun with ⟨hhour, hrest⟩
      have hnext := h.tryConsumeAt n direction (hnow.trans hhour) hfits.prefix
      refine ih hnext ?_ hrest hfits
      have hle := quota.tryConsumeAt_bucketHour n direction (hnow.trans hhour)
      exact hle
    | rollOverAt hour =>
      rcases hrun with ⟨hhour, hrest⟩
      have hfitsNow : opening.Fits metering events := hfits.prefix.prefix
      have hnext := h.rollOverAt hfitsNow (hnow.trans hhour)
      obtain ⟨_, _, _, _, _, _, hbucket⟩ := quota.rollOverAt_fields hour
      have hevent : quota.eventOf (.rollOverAt hour) = none := rfl
      rw [hevent, Option.toList_none, List.append_nil] at hfits ⊢
      exact ih hnext hbucket.le hrest hfits
    | restart limit setting hour =>
      rcases hrun with ⟨rfl, hhour, hrest⟩
      have hfitsNow : opening.Fits setting events := hfits.prefix.prefix
      have hnext := h.restart hfitsNow limit (hnow.trans hhour)
      have hevent : quota.eventOf (.restart limit setting hour) = none := rfl
      rw [hevent, Option.toList_none, List.append_nil] at hfits ⊢
      exact ih hnext le_rfl hrest hfits
    | setLimit limit => exact absurd hrun id
    | setMetering setting => exact absurd hrun id

namespace UserQuota

theorem used_of_meter {quota other : UserQuota} (hmeter : quota.meter = other.meter)
    (hmetering : quota.metering = other.metering) : quota.used = other.used := by
  rw [used_eq_wrap_total, used_eq_wrap_total, hmeter, hmetering]

/-- Rolling over never changes what is used, in range or not. -/
theorem used_rollOverAt (quota : UserQuota) (hour : Int) :
    (quota.rollOverAt hour).used = quota.used := by
  unfold rollOverAt settleTo
  by_cases hhour : quota.bucketHour = hour
  · rw [if_neg (not_not.mpr hhour)]
  · have hempty : quota.metering.bill 0 0 = 0 := quota.metering.charge_zero
    rw [if_pos hhour, if_neg hhour]
    change wrap 64 (wrap 64 (quota.settled + quota.hourUsed) + quota.metering.bill 0 0) = _
    rw [hempty, Nat.add_zero]
    exact Nat.mod_mod _ _

/-- Nor does a restart from the quota's own snapshot. -/
theorem used_restart (quota : UserQuota) (name : String) (limit : Option Nat) (hour : Int) :
    (newMeteredAt name limit quota.snapshot quota.metering hour).used = quota.used := by
  obtain ⟨hmetering, _⟩ := quota.rollOverAt_fields hour
  rw [← quota.used_rollOverAt hour]
  apply used_of_meter (quota.restart_meter name limit hour)
  have hsame : (quota.rollOverAt hour).metering = quota.metering := congrArg meteringFrom hmetering
  rw [hsame]
  exact meteringFrom_meteringCode _

/-- A quota that starts with no usage has counted nothing. -/
theorem counts_fresh (name : String) (limit : Option Nat) (hourId : Int) (metering : Metering)
    (start : Int) :
    Opening.Counts ⟨0, 0, 0, []⟩ metering []
      (newMeteredAt name limit { hourId } metering start) := by
  have hzero : metering.bill 0 0 = 0 := metering.charge_zero
  have hmeter : (newMeteredAt name limit { hourId } metering start).meter = ⟨0, 0, start⟩ := by
    unfold newMeteredAt
    by_cases hhour : hourId = start
    · simp only [hhour, if_true]
      rfl
    · simp only [hhour, if_false, hzero]
      rfl
  refine ⟨meteringFrom_meteringCode metering, rfl, rfl, ?_⟩
  rw [hmeter]
  exact Meter.holds_empty metering.charge_zero 0 start

/-- Over every schedule in range, what is used is the sum over the hours of the bill of what
was counted in the hour, and reads that roll over and restarts do not change it. -/
theorem used_eq_billed (name : String) (limit : Option Nat) (hourId : Int)
    {metering : Metering} {start : Int} {run : List QuotaCall}
    (hrun : Scheduled metering start run) :
    let quota := newMeteredAt name limit { hourId } metering start
    let events := quota.events run
    let last := quota.calls run
    uploaded events < 2 ^ 64 → downloaded events < 2 ^ 64 →
      billed metering.charge events < 2 ^ 64 →
      last.used = billed metering.charge events ∧
        last.upload = uploaded events ∧ last.download = downloaded events ∧
        last.hourUsed = metering.charge (inPeriod last.bucketHour events) ∧
        (∀ hour, (last.rollOverAt hour).used = last.used) ∧
        (∀ limit hour,
          (newMeteredAt last.name limit last.snapshot metering hour).used = last.used) := by
  intro quota events last hup hdown hbilled
  have hfits : Opening.Fits ⟨0, 0, 0, []⟩ metering events := by
    refine ⟨by simpa using hup, by simpa using hdown, ?_, by simpa using hbilled⟩
    intro hour
    obtain ⟨hfst, hsnd⟩ := inPeriod_le_totals hour events
    rw [List.nil_append]
    exact ⟨by omega, by omega⟩
  have hstart := counts_fresh name limit hourId metering start
  have hcounts : Opening.Counts ⟨0, 0, 0, []⟩ metering events last :=
    hstart.calls (le_refl start) hrun hfits
  have hbucket : (last.hourUpload, last.hourDownload) = inPeriod last.bucketHour events :=
    hcounts.meter.bucket
  refine ⟨?_, ?_, ?_, ?_, last.used_rollOverAt, ?_⟩
  · have hused := hcounts.used hfits
    rwa [List.nil_append, Nat.zero_add] at hused
  · exact hcounts.upload.trans (Nat.zero_add _)
  · exact hcounts.download.trans (Nat.zero_add _)
  · rw [hourUsed, hcounts.setting, ← hbucket]
    rfl
  · intro limit hour
    rw [← hcounts.setting]
    exact last.used_restart last.name limit hour

/-- Two directions in one hour, a later hour after a restart, and a read. -/
def billingRun : List QuotaCall :=
  [.tryConsumeAt 60 .upload 5, .tryConsumeAt 40 .download 5, .restart (some 100) .max 7,
    .tryConsumeAt 30 .download 7, .rollOverAt 8]

theorem used_eq_billed_billingRun :
    ((newMeteredAt "a" (some 100) {} .max 5).calls billingRun).used = 90 :=
  ((used_eq_billed "a" (some 100) 0 (show Scheduled .max 5 billingRun by simp [Scheduled, billingRun])
    (by decide +kernel) (by decide +kernel) (by decide +kernel)).1).trans (by decide +kernel)

end UserQuota

end PortsBox
