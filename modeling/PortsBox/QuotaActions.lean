import PortsBox.QuotaBilling
import PortsBox.Lib.Rollover

/-!
# A quota shared by many connections

Any number of calls of `try_consume_at` and `set_limit` on one quota, each made of the
loads and stores it performs, in one global order. The settle lock is held from its
acquisition to the end of `settle_to`. Nothing here writes the metering, so its load is
part of the action that uses it.
-/

set_option autoImplicit false

namespace PortsBox

open Word

namespace UserQuota

/-- One `fetch_add` to a lifetime total. -/
def addTotal (quota : UserQuota) (n : Nat) : Direction → UserQuota
  | .upload => { quota with totalUpload := wrap 64 (quota.totalUpload + n) }
  | .download => { quota with totalDownload := wrap 64 (quota.totalDownload + n) }

/-- One `fetch_add` to the hour's bucket. -/
def addBucket (quota : UserQuota) (n : Nat) : Direction → UserQuota
  | .upload => { quota with hourUpload := wrap 64 (quota.hourUpload + n) }
  | .download => { quota with hourDownload := wrap 64 (quota.hourDownload + n) }

def hourCounter (quota : UserQuota) : Direction → Nat
  | .upload => quota.hourUpload
  | .download => quota.hourDownload

/-- The two additions in a row are the atomic consume's. -/
theorem count_eq (quota : UserQuota) (n : Nat) (direction : Direction) :
    quota.count n direction = (quota.addTotal n direction).addBucket n direction := by
  cases direction <;> rfl

end UserQuota

namespace SharedQuota

/-- The arguments of a `try_consume_at`. -/
structure Consume where
  n : Nat
  direction : Direction
  hour : Int
  deriving DecidableEq, Repr

/-- What a `try_consume_at` does next, up to its comparison. -/
inductive ConsumeAt where
  | readFlag
  | readHour
  | lock
  | recheckHour
  | swapUpload
  | swapDownload (up : Nat)
  | addSettled (up down : Nat)
  | storeHour
  | unlock
  | addTotal
  | addBucket
  | readLimit
  deriving DecidableEq, Repr

/-- What `used` loads next. -/
inductive UsedAt where
  | readSettled
  | readUpload (settled : Nat)
  | readDownload (settled up : Nat)
  deriving DecidableEq, Repr

inductive Caller where
  | tryConsume
  | setLimit
  deriving DecidableEq, Repr

/-- Where the verdict is stored next. -/
inductive Place where
  | flag
  | channel
  deriving DecidableEq, Repr

/-- Where a call is. -/
inductive Call where
  | consuming (args : Consume) (stage : ConsumeAt)
  | storingLimit (limit : Option Nat)
  /-- In `self.used() >= limit`. -/
  | comparing (caller : Caller) (limit : Nat) (stage : UsedAt)
  /-- About to store its verdict; `limit` is the raw limit that it goes by. -/
  | publishing (caller : Caller) (limit : Nat) (exhausted : Bool) (place : Place)
  | finished
  deriving DecidableEq, Repr

inductive Request where
  | tryConsumeAt (n : Nat) (direction : Direction) (hour : Int)
  | setLimit (limit : Option Nat)
  deriving DecidableEq, Repr

def Request.call : Request → Call
  | .tryConsumeAt n direction hour => .consuming ⟨n, direction, hour⟩ .readFlag
  | .setLimit limit => .storingLimit limit

end SharedQuota

/-- The quota, the holder of its settle lock and the calls made so far. -/
structure SharedQuota where
  quota : UserQuota
  holder : Option Nat := none
  calls : List SharedQuota.Call := []
  deriving DecidableEq, Repr

namespace SharedQuota

inductive Action where
  | begin (request : Request)
  /-- The call's next load or store. -/
  | act (i : Nat)
  deriving DecidableEq, Repr

/-- The next action of a `try_consume_at` that is not waiting for the lock. -/
def consume (quota : UserQuota) (args : Consume) : ConsumeAt → UserQuota × Call
  | .readFlag =>
    (quota, if quota.isExhausted then .finished else .consuming args .readHour)
  | .readHour =>
    (quota, .consuming args (if quota.bucketHour ≠ args.hour then .lock else .addTotal))
  | .lock => (quota, .consuming args .recheckHour)
  | .recheckHour =>
    (quota, .consuming args (if quota.bucketHour = args.hour then .unlock else .swapUpload))
  | .swapUpload =>
    ({ quota with hourUpload := 0 }, .consuming args (.swapDownload quota.hourUpload))
  | .swapDownload up =>
    ({ quota with hourDownload := 0 }, .consuming args (.addSettled up quota.hourDownload))
  | .addSettled up down =>
    ({ quota with settled := wrap 64 (quota.settled + quota.metering.bill up down) },
      .consuming args .storeHour)
  | .storeHour => ({ quota with bucketHour := args.hour }, .consuming args .unlock)
  | .unlock => (quota, .consuming args .addTotal)
  | .addTotal => (quota.addTotal args.n args.direction, .consuming args .addBucket)
  | .addBucket => (quota.addBucket args.n args.direction, .consuming args .readLimit)
  | .readLimit =>
    (quota, match quota.limit with
      | some limit => .comparing .tryConsume limit .readSettled
      | none => .finished)

/-- A `try_consume_at` that is below the limit returns, a `set_limit` stores either verdict. -/
def compared (caller : Caller) (limit used : Nat) : Call :=
  match caller with
  | .tryConsume => if limit ≤ used then .publishing caller limit true .flag else .finished
  | .setLimit => .publishing caller limit (limit ≤ used) .flag

def compare (quota : UserQuota) (caller : Caller) (limit : Nat) : UsedAt → Call
  | .readSettled => .comparing caller limit (.readUpload quota.settled)
  | .readUpload settled => .comparing caller limit (.readDownload settled quota.hourUpload)
  | .readDownload settled up =>
    compared caller limit (wrap 64 (settled + quota.metering.bill up quota.hourDownload))

/-- What a `set_limit` has to do once the limit is stored. -/
def limitStored : Option Nat → Call
  | some limit => .comparing .setLimit limit .readSettled
  | none => .publishing .setLimit noLimit false .flag

def act (quota : UserQuota) : Call → UserQuota × Call
  | .consuming args stage => consume quota args stage
  | .storingLimit limit => ({ quota with rawLimit := limit.getD noLimit }, limitStored limit)
  | .comparing caller limit stage => (quota, compare quota caller limit stage)
  | .publishing caller limit exhausted .flag =>
    ({ quota with exhaustedFlag := exhausted }, .publishing caller limit exhausted .channel)
  | .publishing _ _ exhausted .channel => ({ quota with exhausted }, .finished)
  | .finished => (quota, .finished)

/-- Taking the lock waits until it is free. -/
def lockAfter (holder : Option Nat) (i : Nat) : Call → Option (Option Nat)
  | .consuming _ .lock => if holder = none then some (some i) else none
  | .consuming _ .unlock => some none
  | .finished => none
  | _ => some holder

def step (shared : SharedQuota) : Action → Option SharedQuota
  | .begin request => some { shared with calls := shared.calls ++ [request.call] }
  | .act i => do
    let call ← shared.calls[i]?
    let holder ← lockAfter shared.holder i call
    let (quota, next) := act shared.quota call
    pure { quota, holder, calls := shared.calls.set i next }

/-- No call is in progress. -/
def Quiet (shared : SharedQuota) : Prop := ∀ call ∈ shared.calls, call = .finished

instance (shared : SharedQuota) : Decidable shared.Quiet :=
  inferInstanceAs (Decidable (∀ call ∈ shared.calls, call = .finished))

/-- A run all of whose steps are admitted. -/
inductive Runs (Admits : SharedQuota → Action → Prop) : SharedQuota → List Action →
    SharedQuota → Prop where
  | nil (shared : SharedQuota) : Runs Admits shared [] shared
  | cons {shared next last : SharedQuota} {action : Action} {run : List Action} :
      Admits shared action → shared.step action = some next → Runs Admits next run last →
        Runs Admits shared (action :: run) last

/-- The state that a list of admitted actions leads to. -/
def replay (admits : SharedQuota → Action → Bool) (shared : SharedQuota) :
    List Action → Option SharedQuota
  | [] => some shared
  | action :: run =>
    if admits shared action then (shared.step action).bind (replay admits · run) else none

theorem runs_of_replay {admits : SharedQuota → Action → Bool} {run : List Action}
    {shared last : SharedQuota} (h : shared.replay admits run = some last) :
    Runs (fun s a => admits s a = true) shared run last := by
  induction run generalizing shared with
  | nil =>
    obtain rfl : shared = last := Option.some.inj h
    exact .nil shared
  | cons action run ih =>
    rw [replay] at h
    split at h
    · rename_i hadmits
      obtain ⟨next, hstep, hrest⟩ := Option.bind_eq_some_iff.mp h
      exact .cons hadmits hstep (ih hrest)
    · cases h

theorem Runs.mono {Admits Allows : SharedQuota → Action → Prop}
    (hle : ∀ shared action, Admits shared action → Allows shared action) {run : List Action}
    {shared last : SharedQuota} (h : Runs Admits shared run last) :
    Runs Allows shared run last := by
  induction h with
  | nil shared => exact .nil shared
  | cons hadmits hstep _ ih => exact .cons (hle _ _ hadmits) hstep ih

/-! ## One call alone -/

/-- So many actions of one call in a row, the settle lock being free. -/
def acts (quota : UserQuota) (call : Call) : Nat → UserQuota × Call
  | 0 => (quota, call)
  | k + 1 => acts (act quota call).1 (act quota call).2 k

theorem acts_finished (quota : UserQuota) (k : Nat) :
    acts quota .finished k = (quota, .finished) := by
  induction k with
  | zero => rfl
  | succ k ih => exact ih

theorem acts_setLimit (quota : UserQuota) (limit : Option Nat) :
    acts quota (Request.call (.setLimit limit)) 6 = (quota.setLimit limit, .finished) := by
  cases limit with
  | none => rfl
  | some l => rfl

/-- Counting and comparing, once the hour is right. -/
theorem acts_addTotal (quota : UserQuota) (args : Consume) (k : Nat) :
    acts quota (.consuming args .addTotal) (k + 8) =
      (if (quota.count args.n args.direction).limit.any
          (· ≤ (quota.count args.n args.direction).used) then
        { quota.count args.n args.direction with exhaustedFlag := true, exhausted := true }
      else quota.count args.n args.direction, .finished) := by
  have hread : acts quota (.consuming args .addTotal) (k + 8) =
      acts (quota.count args.n args.direction)
        (match (quota.count args.n args.direction).limit with
          | some limit => .comparing .tryConsume limit .readSettled
          | none => .finished) (k + 5) := by
    rw [quota.count_eq]
    rfl
  rw [hread]
  cases hlimit : (quota.count args.n args.direction).limit with
  | none => exact acts_finished _ _
  | some limit =>
    have hcompare : acts (quota.count args.n args.direction)
        (.comparing .tryConsume limit .readSettled) (k + 5) =
        acts (quota.count args.n args.direction)
          (compared .tryConsume limit (quota.count args.n args.direction).used) (k + 2) := rfl
    simp only [hcompare, compared, Option.any_some, decide_eq_true_eq]
    by_cases hover : limit ≤ (quota.count args.n args.direction).used
    · rw [if_pos hover, if_pos hover]
      exact acts_finished _ k
    · rw [if_neg hover, if_neg hover]
      exact acts_finished _ (k + 2)

/-- With nothing in between, the actions of a consume are the atomic consume. -/
theorem acts_tryConsumeAt (quota : UserQuota) (n : Nat) (direction : Direction) (hour : Int) :
    acts quota (Request.call (.tryConsumeAt n direction hour)) 17 =
      ((quota.tryConsumeAt n direction hour).1, .finished) := by
  have hanswer : ∀ counted : UserQuota, (if counted.limit.any (· ≤ counted.used) then
      ({ counted with exhaustedFlag := true, exhausted := true }, false)
        else (counted, true)).1 = if counted.limit.any (· ≤ counted.used) then
      { counted with exhaustedFlag := true, exhausted := true } else counted := by
    intro counted
    split <;> rfl
  have hflag : acts quota (Request.call (.tryConsumeAt n direction hour)) 17 =
      acts quota (if quota.isExhausted then .finished
        else .consuming ⟨n, direction, hour⟩ .readHour) 16 := rfl
  rw [hflag]
  unfold UserQuota.tryConsumeAt
  by_cases hexhausted : quota.isExhausted = true
  · rw [if_pos hexhausted, if_pos hexhausted]
    exact acts_finished quota 16
  · rw [if_neg hexhausted, if_neg hexhausted]
    dsimp only
    rw [hanswer]
    have hread : acts quota (.consuming ⟨n, direction, hour⟩ .readHour) 16 =
        acts quota (.consuming ⟨n, direction, hour⟩
          (if quota.bucketHour ≠ hour then .lock else .addTotal)) 15 := rfl
    rw [hread]
    by_cases hhour : quota.bucketHour = hour
    · have hrolled : quota.rollOverAt hour = quota := by simp [UserQuota.rollOverAt, hhour]
      rw [if_neg (not_not.mpr hhour), hrolled]
      exact acts_addTotal quota ⟨n, direction, hour⟩ 7
    · have hrolled : quota.rollOverAt hour = { quota with
          hourUpload := 0
          hourDownload := 0
          settled := wrap 64 (quota.settled +
            quota.metering.bill quota.hourUpload quota.hourDownload)
          bucketHour := hour } := by
        simp [UserQuota.rollOverAt, UserQuota.settleTo, hhour]
      have hcheck : acts quota (.consuming ⟨n, direction, hour⟩ .lock) 15 =
          acts quota (.consuming ⟨n, direction, hour⟩
            (if quota.bucketHour = hour then .unlock else .swapUpload)) 13 := rfl
      have hsettle : acts quota (.consuming ⟨n, direction, hour⟩ .swapUpload) 13 =
          acts { quota with
            hourUpload := 0
            hourDownload := 0
            settled := wrap 64 (quota.settled +
              quota.metering.bill quota.hourUpload quota.hourDownload)
            bucketHour := hour } (.consuming ⟨n, direction, hour⟩ .addTotal) 8 := rfl
      rw [if_pos hhour, hcheck, if_neg hhour, hsettle, hrolled]
      exact acts_addTotal _ ⟨n, direction, hour⟩ 0

end SharedQuota

end PortsBox
