import PortsBox.Lib.Word

/-!
# A user's traffic quota

`UserQuota` and `Metering`. Counters are `u64` and wrap in `fetch_add` and in
plain sums, as in a release build. Calls are atomic here: the settle lock and the
memory orderings are left out.
-/

set_option autoImplicit false

namespace PortsBox

open Word

inductive Direction where
  | upload
  | download
  deriving DecidableEq, Repr

inductive Metering where
  | max
  | sum
  | download
  deriving DecidableEq, Repr

def Metering.bill (metering : Metering) (upload download : Nat) : Nat :=
  match metering with
  | .max => Nat.max upload download
  | .sum => clamp 64 (upload + download)
  | .download => download

structure SavedUsage where
  upload : Nat := 0
  download : Nat := 0
  settled : Nat := 0
  hourUpload : Nat := 0
  hourDownload : Nat := 0
  hourId : Int := 0
  deriving DecidableEq, Repr

/-- The limit value that means unlimited. -/
def noLimit : Nat := 2 ^ 64 - 1

structure UserQuota where
  name : String
  rawLimit : Nat
  totalUpload : Nat
  totalDownload : Nat
  settled : Nat
  hourUpload : Nat
  hourDownload : Nat
  bucketHour : Int
  rawMetering : Nat
  exhaustedFlag : Bool
  /-- The value in the watch channel. -/
  exhausted : Bool
  deriving DecidableEq, Repr

def meteringCode : Metering → Nat
  | .max => 0
  | .sum => 1
  | .download => 2

def meteringFrom (code : Nat) : Metering :=
  match code with
  | 1 => .sum
  | 2 => .download
  | _ => .max

@[simp] theorem meteringFrom_meteringCode (metering : Metering) :
    meteringFrom (meteringCode metering) = metering := by
  cases metering <;> rfl

namespace UserQuota

def newMeteredAt (name : String) (limit : Option Nat) (saved : SavedUsage) (metering : Metering)
    (nowHour : Int) : UserQuota :=
  let (settled, hourUp, hourDown) :=
    if saved.hourId = nowHour then (saved.settled, saved.hourUpload, saved.hourDownload)
    else (wrap 64 (saved.settled + metering.bill saved.hourUpload saved.hourDownload), 0, 0)
  let used := wrap 64 (settled + metering.bill hourUp hourDown)
  let exhaustedNow := limit.any (· ≤ used)
  { name
    rawLimit := limit.getD noLimit
    totalUpload := saved.upload
    totalDownload := saved.download
    settled
    hourUpload := hourUp
    hourDownload := hourDown
    bucketHour := nowHour
    rawMetering := meteringCode metering
    exhaustedFlag := exhaustedNow
    exhausted := exhaustedNow }

def isExhausted (quota : UserQuota) : Bool := quota.exhaustedFlag

def limit (quota : UserQuota) : Option Nat := (some quota.rawLimit).filter (· ≠ noLimit)

def metering (quota : UserQuota) : Metering := meteringFrom quota.rawMetering

def upload (quota : UserQuota) : Nat := quota.totalUpload

def download (quota : UserQuota) : Nat := quota.totalDownload

def hourUsed (quota : UserQuota) : Nat := quota.metering.bill quota.hourUpload quota.hourDownload

def used (quota : UserQuota) : Nat := wrap 64 (quota.settled + quota.hourUsed)

def remaining (quota : UserQuota) : Option Nat := quota.limit.map (· - quota.used)

def settleTo (quota : UserQuota) (nowHour : Int) : UserQuota :=
  if quota.bucketHour = nowHour then quota
  else
    { quota with
      hourUpload := 0
      hourDownload := 0
      settled := wrap 64 (quota.settled +
        quota.metering.bill quota.hourUpload quota.hourDownload)
      bucketHour := nowHour }

def rollOverAt (quota : UserQuota) (nowHour : Int) : UserQuota :=
  if quota.bucketHour ≠ nowHour then quota.settleTo nowHour else quota

/-- The two `fetch_add`s of a consume. -/
def count (quota : UserQuota) (n : Nat) : Direction → UserQuota
  | .upload =>
    { quota with
      totalUpload := wrap 64 (quota.totalUpload + n)
      hourUpload := wrap 64 (quota.hourUpload + n) }
  | .download =>
    { quota with
      totalDownload := wrap 64 (quota.totalDownload + n)
      hourDownload := wrap 64 (quota.hourDownload + n) }

def tryConsumeAt (quota : UserQuota) (n : Nat) (direction : Direction) (nowHour : Int) :
    UserQuota × Bool :=
  if quota.isExhausted then (quota, false)
  else
    let quota := (quota.rollOverAt nowHour).count n direction
    if quota.limit.any (· ≤ quota.used) then
      ({ quota with exhaustedFlag := true, exhausted := true }, false)
    else (quota, true)

def setLimit (quota : UserQuota) (limit : Option Nat) : UserQuota :=
  let quota := { quota with rawLimit := limit.getD noLimit }
  let exhausted := limit.any (· ≤ quota.used)
  { quota with exhaustedFlag := exhausted, exhausted }

def setMetering (quota : UserQuota) (metering : Metering) : UserQuota :=
  let quota := { quota with rawMetering := meteringCode metering }
  match quota.limit with
  | some limit => quota.setLimit (some limit)
  | none => quota

def snapshot (quota : UserQuota) : SavedUsage where
  upload := quota.upload
  download := quota.download
  settled := quota.settled
  hourUpload := quota.hourUpload
  hourDownload := quota.hourDownload
  hourId := quota.bucketHour

end UserQuota

/-! ## Runs -/

inductive QuotaCall where
  | tryConsumeAt (n : Nat) (direction : Direction) (hour : Int)
  | rollOverAt (hour : Int)
  | setLimit (limit : Option Nat)
  | setMetering (metering : Metering)
  /-- A snapshot restored into a new object. -/
  | restart (limit : Option Nat) (metering : Metering) (hour : Int)
  deriving DecidableEq, Repr

namespace UserQuota

def call (quota : UserQuota) : QuotaCall → UserQuota
  | .tryConsumeAt n direction hour => (quota.tryConsumeAt n direction hour).1
  | .rollOverAt hour => quota.rollOverAt hour
  | .setLimit limit => quota.setLimit limit
  | .setMetering metering => quota.setMetering metering
  | .restart limit metering hour =>
    newMeteredAt quota.name limit quota.snapshot metering hour

def calls (quota : UserQuota) (run : List QuotaCall) : UserQuota := run.foldl call quota

end UserQuota

end PortsBox
