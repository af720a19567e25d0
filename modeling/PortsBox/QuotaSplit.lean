import PortsBox.Lib.Apportion
import PortsBox.QuotaHardStop

/-!
# Billed usage by direction

What a quota bills never exceeds the raw traffic it has counted, whatever becomes of its
metering, its limit, its hours and its restarts. So the API can split the billed usage into
two directions, each at most the raw one, that add up to it.
-/

set_option autoImplicit false

namespace PortsBox

open Word

def billedSplit (quota : UserQuota) : Nat × Nat :=
  let (up, down) := (quota.upload, quota.download)
  let total := up + down
  if total = 0 then (0, 0)
  else
    let used := min quota.used total
    let billedUp := wrap 64 (wrap 128 (used * up) / total)
    (billedUp, Word.sub 64 (wrap 64 used) billedUp)

/-- A row of the four-column schema. -/
structure LegacyUsage where
  upload : Nat
  download : Nat
  deriving DecidableEq, Repr

/-- What `migrate` makes of a row: the new columns default to 0 and its lifetime settles once. -/
def LegacyUsage.migrate (row : LegacyUsage) : SavedUsage where
  upload := row.upload
  download := row.download
  settled := max row.upload row.download

/-- What is settled and what is still to be billed come from the raw traffic. -/
def SavedUsage.Covered (saved : SavedUsage) : Prop :=
  saved.settled + saved.hourUpload + saved.hourDownload ≤ saved.upload + saved.download

theorem Metering.bill_le_add (metering : Metering) (upload download : Nat) :
    metering.bill upload download ≤ upload + download := by
  cases metering with
  | max => exact max_le (Nat.le_add_right _ _) (Nat.le_add_left _ _)
  | sum => exact min_le_left _ _
  | download => exact Nat.le_add_left _ _

theorem wrap_le (w n : Nat) : wrap w n ≤ n := Nat.mod_le _ _

theorem LegacyUsage.migrate_covered (row : LegacyUsage) : row.migrate.Covered :=
  max_le (Nat.le_add_right _ _) (Nat.le_add_left _ _)

namespace UserQuota
variable {quota : UserQuota}

def Covered (quota : UserQuota) : Prop := quota.snapshot.Covered

/-! ## One call -/

theorem covered_new {saved : SavedUsage} (h : saved.Covered) (name : String)
    (limit : Option Nat) (metering : Metering) (hour : Int) :
    (newMeteredAt name limit saved metering hour).Covered := by
  have hbill := metering.bill_le_add saved.hourUpload saved.hourDownload
  unfold SavedUsage.Covered at h
  unfold Covered newMeteredAt
  by_cases hhour : saved.hourId = hour
  · rw [if_pos hhour]
    exact h
  · have hwrap := wrap_le 64 (saved.settled + metering.bill saved.hourUpload saved.hourDownload)
    rw [if_neg hhour]
    change wrap 64 _ + 0 + 0 ≤ saved.upload + saved.download
    omega

theorem Covered.rollOverAt (h : quota.Covered) (hour : Int) : (quota.rollOverAt hour).Covered := by
  have hbill := quota.metering.bill_le_add quota.hourUpload quota.hourDownload
  by_cases hhour : quota.bucketHour = hour
  · rwa [UserQuota.rollOverAt, if_neg (not_not.mpr hhour)]
  · have hwrap := wrap_le 64
      (quota.settled + quota.metering.bill quota.hourUpload quota.hourDownload)
    rw [UserQuota.rollOverAt, if_pos hhour, settleTo, if_neg hhour]
    change quota.settled + quota.hourUpload + quota.hourDownload ≤
      quota.totalUpload + quota.totalDownload at h
    change wrap 64 _ + 0 + 0 ≤ quota.totalUpload + quota.totalDownload
    omega

/-- Counting that does not overflow a total adds the bytes to both of its counters. -/
theorem Covered.count (h : quota.Covered) {n : Nat} {direction : Direction}
    (hup : quota.totalUpload + (direction.bytes n).1 < 2 ^ 64)
    (hdown : quota.totalDownload + (direction.bytes n).2 < 2 ^ 64) :
    (quota.count n direction).Covered ∧
      (quota.count n direction).totalUpload = quota.totalUpload + (direction.bytes n).1 ∧
      (quota.count n direction).totalDownload = quota.totalDownload + (direction.bytes n).2 := by
  change quota.settled + quota.hourUpload + quota.hourDownload ≤
    quota.totalUpload + quota.totalDownload at h
  cases direction with
  | upload =>
    have htotal : wrap 64 (quota.totalUpload + n) = quota.totalUpload + n := wrap_of_lt hup
    have hhour := wrap_le 64 (quota.hourUpload + n)
    refine ⟨?_, htotal, rfl⟩
    change quota.settled + wrap 64 (quota.hourUpload + n) + quota.hourDownload ≤
      wrap 64 (quota.totalUpload + n) + quota.totalDownload
    omega
  | download =>
    have htotal : wrap 64 (quota.totalDownload + n) = quota.totalDownload + n := wrap_of_lt hdown
    have hhour := wrap_le 64 (quota.hourDownload + n)
    refine ⟨?_, rfl, htotal⟩
    change quota.settled + quota.hourUpload + wrap 64 (quota.hourDownload + n) ≤
      quota.totalUpload + wrap 64 (quota.totalDownload + n)
    omega

/-- A call keeps the bound, and adds the bytes it counts to the totals. -/
theorem Covered.call (h : quota.Covered) {c : QuotaCall}
    (hup : quota.totalUpload + uploaded (quota.eventOf c).toList < 2 ^ 64)
    (hdown : quota.totalDownload + downloaded (quota.eventOf c).toList < 2 ^ 64) :
    (quota.call c).Covered ∧
      (quota.call c).totalUpload = quota.totalUpload + uploaded (quota.eventOf c).toList ∧
      (quota.call c).totalDownload =
        quota.totalDownload + downloaded (quota.eventOf c).toList := by
  cases c with
  | tryConsumeAt n direction hour =>
    obtain ⟨_, _, hrolledUp, hrolledDown, _⟩ := quota.rollOverAt_fields hour
    have hcounted : quota.isExhausted = false →
        ((quota.rollOverAt hour).count n direction).Covered ∧
          ((quota.rollOverAt hour).count n direction).totalUpload =
            quota.totalUpload + (direction.bytes n).1 ∧
          ((quota.rollOverAt hour).count n direction).totalDownload =
            quota.totalDownload + (direction.bytes n).2 := by
      intro hexhausted
      rw [eventOf, if_neg (by simp [hexhausted])] at hup hdown
      rw [← hrolledUp, ← hrolledDown]
      apply (h.rollOverAt hour).count
      · rw [hrolledUp]
        simpa [uploaded] using hup
      · rw [hrolledDown]
        simpa [downloaded] using hdown
    rcases quota.tryConsumeAt_cases n direction hour with
      ⟨hexhausted, heq⟩ | ⟨hexhausted, -, heq⟩ | ⟨hexhausted, -, heq⟩
    · rw [UserQuota.call, heq, eventOf, if_pos hexhausted]
      exact ⟨h, rfl, rfl⟩
    · rw [UserQuota.call, heq, eventOf, if_neg (by simp [hexhausted])]
      obtain ⟨hcovered, htotals⟩ := hcounted hexhausted
      exact ⟨hcovered, by simpa [uploaded, downloaded] using htotals⟩
    · rw [UserQuota.call, heq, eventOf, if_neg (by simp [hexhausted])]
      simpa [uploaded, downloaded] using hcounted hexhausted
  | rollOverAt hour =>
    obtain ⟨_, _, hrolledUp, hrolledDown, _⟩ := quota.rollOverAt_fields hour
    exact ⟨h.rollOverAt hour, hrolledUp, hrolledDown⟩
  | setLimit limit => exact ⟨h, rfl, rfl⟩
  | setMetering metering =>
    change (quota.setMetering metering).Covered ∧
      (quota.setMetering metering).totalUpload = _ ∧ (quota.setMetering metering).totalDownload = _
    unfold UserQuota.setMetering
    dsimp only
    split
    · exact ⟨h, rfl, rfl⟩
    · exact ⟨h, rfl, rfl⟩
  | restart limit metering hour => exact ⟨covered_new h _ _ _ _, rfl, rfl⟩

/-! ## Runs -/

theorem Covered.calls (h : quota.Covered) {run : List QuotaCall}
    (hup : quota.totalUpload + uploaded (quota.events run) < 2 ^ 64)
    (hdown : quota.totalDownload + downloaded (quota.events run) < 2 ^ 64) :
    (quota.calls run).Covered ∧
      (quota.calls run).totalUpload = quota.totalUpload + uploaded (quota.events run) ∧
      (quota.calls run).totalDownload = quota.totalDownload + downloaded (quota.events run) := by
  induction run generalizing quota with
  | nil => exact ⟨h, rfl, rfl⟩
  | cons c run ih =>
    rw [events, uploaded_append, ← Nat.add_assoc] at hup
    rw [events, downloaded_append, ← Nat.add_assoc] at hdown
    rw [events, uploaded_append, downloaded_append, ← Nat.add_assoc, ← Nat.add_assoc]
    obtain ⟨hcovered, hcallUp, hcallDown⟩ := h.call (c := c)
      (lt_of_le_of_lt (Nat.le_add_right _ _) hup) (lt_of_le_of_lt (Nat.le_add_right _ _) hdown)
    rw [← hcallUp] at hup
    rw [← hcallDown] at hdown
    rw [← hcallUp, ← hcallDown]
    exact ih hcovered hup hdown

theorem Covered.used_le (h : quota.Covered) : quota.used ≤ quota.upload + quota.download := by
  have hbill := quota.metering.bill_le_add quota.hourUpload quota.hourDownload
  have hwrap := wrap_le 64 (quota.settled + quota.hourUsed)
  change quota.settled + quota.hourUpload + quota.hourDownload ≤
    quota.totalUpload + quota.totalDownload at h
  change wrap 64 _ ≤ quota.totalUpload + quota.totalDownload
  unfold hourUsed at *
  omega

/-- A split of what is used by the raw traffic. -/
theorem billedSplit_eq (hused : quota.used ≤ quota.upload + quota.download)
    (hpos : 0 < quota.upload + quota.download) (hup : quota.upload < 2 ^ 64) :
    billedSplit quota =
      (quota.used * quota.upload / (quota.upload + quota.download),
        quota.used - quota.used * quota.upload / (quota.upload + quota.download)) := by
  have hword : quota.used < 2 ^ 64 := wrap_lt 64 _
  have hle := Apportion.share_le_amount quota.used (Nat.le_add_right quota.upload quota.download)
  have hproduct : quota.used * quota.upload < 2 ^ 128 :=
    lt_of_lt_of_le (Nat.mul_lt_mul'' hword hup) (by norm_num)
  unfold billedSplit
  dsimp only
  rw [if_neg hpos.ne', min_eq_left hused, wrap_of_lt hproduct, wrap_of_lt hword,
    wrap_of_lt (lt_of_le_of_lt hle hword), sub_of_le hword hle]

/-- Over every run of a user from no usage or from a migrated row, as long as the totals fit, the
billed usage is at most the raw traffic, and the reported directions add up to it and are
each at most the raw one. -/
theorem billedSplit_exact (name : String) (limit : Option Nat) (saved : SavedUsage)
    (hsaved : (∃ hourId, saved = { hourId }) ∨ ∃ row : LegacyUsage, saved = row.migrate)
    (metering : Metering) (start : Int) (run : List QuotaCall) :
    let quota := newMeteredAt name limit saved metering start
    let last := quota.calls run
    saved.upload + uploaded (quota.events run) < 2 ^ 64 →
      saved.download + downloaded (quota.events run) < 2 ^ 64 →
        last.used ≤ last.upload + last.download ∧
          (billedSplit last).1 + (billedSplit last).2 = last.used ∧
          (billedSplit last).1 ≤ last.upload ∧ (billedSplit last).2 ≤ last.download := by
  intro quota last hup hdown
  have hcovered : saved.Covered := by
    rcases hsaved with ⟨hourId, rfl⟩ | ⟨row, rfl⟩
    · exact le_rfl
    · exact row.migrate_covered
  obtain ⟨hlast, hlastUp, -⟩ := (covered_new hcovered name limit metering start).calls hup hdown
  have hused := hlast.used_le
  refine ⟨hused, ?_⟩
  rcases Nat.eq_zero_or_pos (last.upload + last.download) with hzero | hpos
  · have hsplit : billedSplit last = (0, 0) := if_pos hzero
    rw [hsplit]
    have : last.used ≤ 0 := hzero ▸ hused
    exact ⟨(Nat.le_zero.mp this).symm, Nat.zero_le _, Nat.zero_le _⟩
  · have hword : last.upload < 2 ^ 64 := hlastUp.trans_lt hup
    rw [billedSplit_eq hused hpos hword]
    have hle := Apportion.share_le_amount last.used (Nat.le_add_right last.upload last.download)
    obtain ⟨hfirst, hrest⟩ := Apportion.share_le_parts hused
    exact ⟨Nat.add_sub_cancel' hle, hfirst, hrest⟩

/-- A migrated user whose metering is switched in the middle of an hour. -/
def switchingRun : List QuotaCall :=
  [.tryConsumeAt 10 .upload 7, .setMetering .sum, .tryConsumeAt 5 .download 7, .rollOverAt 8,
    .restart (some 1000) .download 9]

theorem billedSplit_exact_switchingRun :
    let last := (newMeteredAt "a" none (LegacyUsage.mk 123 456).migrate .max 7).calls switchingRun
    (billedSplit last).1 + (billedSplit last).2 = 471 ∧ last.upload + last.download = 594 := by
  intro last
  have hexact := billedSplit_exact "a" none (LegacyUsage.mk 123 456).migrate
    (Or.inr ⟨⟨123, 456⟩, rfl⟩) .max 7 switchingRun (by decide +kernel) (by decide +kernel)
  exact ⟨hexact.2.1.trans (by decide +kernel), by decide +kernel⟩

end UserQuota

end PortsBox
