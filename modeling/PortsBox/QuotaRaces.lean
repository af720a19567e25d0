import PortsBox.QuotaActions
import PortsBox.QuotaHardStop

/-!
# Raising a limit while connections count

The flag and the channel are stored several actions after the comparison they come from. A
stored verdict is current, or a `set_limit` that stored the current limit has still to
store its own there, as long as no call stores an old `true`. Then a limit above what
is used always ends with flag and channel at `false`.
-/

set_option autoImplicit false

namespace PortsBox

open Word Rollover

/-- The bill as a tariff of the hour's two counters. -/
def Metering.tariff (metering : Metering) : Tariff where
  bill := metering.bill
  zero := metering.charge_zero
  mono := by
    intro a b c d ha hb
    have hle : (a, b) ≤ (c, d) := ⟨ha, hb⟩
    exact metering.charge_mono hle
  apart := by
    intro a b
    cases metering with
    | max =>
      change Max.max a b ≤ Max.max a 0 + Max.max 0 b
      omega
    | sum =>
      change clamp 64 (a + b) ≤ clamp 64 (a + 0) + clamp 64 (0 + b)
      unfold clamp
      omega
    | download => exact Nat.le_add_left b 0
  up_le := by
    intro a b n
    cases metering with
    | max =>
      change Max.max (a + n) b ≤ Max.max a b + n
      omega
    | sum =>
      change clamp 64 (a + n + b) ≤ clamp 64 (a + b) + n
      unfold clamp
      omega
    | download => exact Nat.le_add_right b n
  down_le := by
    intro a b n
    cases metering with
    | max =>
      change Max.max a (b + n) ≤ Max.max a b + n
      omega
    | sum =>
      change clamp 64 (a + (b + n)) ≤ clamp 64 (a + b) + n
      unfold clamp
      omega
    | download => exact le_rfl

namespace SharedQuota

/-- What a roll-over at this point has taken from the buckets. -/
def Call.taken : Call → Taken
  | .consuming _ (.swapDownload up) => .up up
  | .consuming _ (.addSettled up down) => .both up down
  | _ => .nothing

/-- In `settle_to`, with the lock. -/
def Call.locked : Call → Bool
  | .consuming _ stage =>
    match stage with
    | .recheckHour | .swapUpload | .swapDownload _ | .addSettled _ _ | .storeHour | .unlock => true
    | _ => false
  | _ => false

/-- What a comparison has loaded. -/
def Call.seen : Call → Rollover.Seen
  | .comparing _ _ (.readUpload settled) => .settled settled
  | .comparing _ _ (.readDownload settled up) => .up settled up
  | _ => .nothing

/-- A `set_limit` that has this limit stored and its verdict still to store there. -/
def Call.owes (raw : Nat) (place : Place) : Call → Prop
  | .comparing .setLimit limit _ => limit = raw
  | .publishing .setLimit limit _ next => limit = raw ∧ (next = .flag ∨ place = .channel)
  | _ => False

def takenOf (holder : Option Nat) (calls : List Call) : Taken :=
  match holder with
  | some i => (calls.getD i .finished).taken
  | none => .nothing

def cells (shared : SharedQuota) : Cells :=
  ⟨shared.quota.settled, shared.quota.hourUpload, shared.quota.hourDownload,
    takenOf shared.holder shared.calls⟩

def tariff (shared : SharedQuota) : Tariff := shared.quota.metering.tariff

/-- What is billed, with what a roll-over under way has taken. -/
def billed (shared : SharedQuota) : Nat := shared.cells.ceiling shared.tariff

/-- About to add to a bucket. -/
def Call.adding : Call → Option Consume
  | .consuming args .addBucket => some args
  | _ => none

/-- About to store `true`: the limit it goes by, and where. -/
def Call.exhausting : Call → Option (Nat × Place)
  | .publishing _ limit true place => some (limit, place)
  | _ => none

/-- Counting keeps what is billed below `u64::MAX`, and a `true` is stored for a limit that has
not been raised since, or where a `set_limit` with the current limit will store again. -/
def Orderly (shared : SharedQuota) : Action → Prop
  | .begin _ => True
  | .act i => ∀ call ∈ shared.calls[i]?,
    (∀ args ∈ call.adding, shared.quota.hourCounter args.direction + args.n < 2 ^ 64 ∧
      shared.billed + args.n < noLimit) ∧
    ∀ verdict ∈ call.exhausting, shared.quota.rawLimit ≤ verdict.1 ∨
      ∃ other ∈ shared.calls, other.owes shared.quota.rawLimit verdict.2

instance (raw : Nat) (place : Place) : DecidablePred (Call.owes raw place)
  | .comparing .setLimit limit _ => inferInstanceAs (Decidable (limit = raw))
  | .publishing .setLimit limit _ next =>
    inferInstanceAs (Decidable (limit = raw ∧ (next = .flag ∨ place = .channel)))
  | .comparing .tryConsume _ _ => isFalse id
  | .publishing .tryConsume _ _ _ => isFalse id
  | .consuming _ _ => isFalse id
  | .storingLimit _ => isFalse id
  | .finished => isFalse id

instance (shared : SharedQuota) : DecidablePred shared.Orderly
  | .begin _ => isTrue trivial
  | .act i => inferInstanceAs (Decidable (∀ call ∈ shared.calls[i]?, _))

/-- The verdict stored there last. -/
def storedAt (quota : UserQuota) : Place → Bool
  | .flag => quota.exhaustedFlag
  | .channel => quota.exhausted

/-- A stored `true` is current or will be stored over. -/
def Excused (shared : SharedQuota) (place : Place) : Prop :=
  shared.quota.rawLimit ≤ shared.billed ∨
    ∃ call ∈ shared.calls, call.owes shared.quota.rawLimit place

structure Inv (shared : SharedQuota) : Prop where
  locked : ∀ i call, shared.calls[i]? = some call → call.locked = true → shared.holder = some i
  reading : ∀ call ∈ shared.calls, Sound shared.tariff shared.cells call.seen
  verdict : ∀ caller limit place, .publishing caller limit true place ∈ shared.calls →
    limit ≤ shared.billed
  range : shared.billed < noLimit
  excused : ∀ place, storedAt shared.quota place = true → shared.Excused place

/-! ## One action -/

section Step
variable {shared next : SharedQuota} {i : Nat} {call after : Call} {calls : List Call}
  {holder released : Option Nat}

theorem takenOf_set (holder : Option Nat) (hcall : calls[i]? = some call)
    (htaken : after.taken = call.taken) :
    takenOf holder (calls.set i after) = takenOf holder calls := by
  cases holder with
  | none => rfl
  | some j =>
    by_cases hj : i = j
    · subst hj
      obtain ⟨hlt, hget⟩ := List.getElem?_eq_some_iff.mp hcall
      simp [takenOf, List.getD_eq_getElem?_getD, hlt, hget, htaken]
    · simp [takenOf, List.getD_eq_getElem?_getD, List.getElem?_set_ne hj]

theorem takenOf_self (hcall : calls[i]? = some call) : takenOf (some i) calls = call.taken := by
  simp [takenOf, List.getD_eq_getElem?_getD, hcall]

theorem takenOf_set_self (hcall : calls[i]? = some call) :
    takenOf (some i) (calls.set i after) = after.taken := by
  obtain ⟨hlt, _⟩ := List.getElem?_eq_some_iff.mp hcall
  simp [takenOf, List.getD_eq_getElem?_getD, hlt]

theorem lockAfter_cases (h : lockAfter holder i call = some released) :
    released = holder ∨ (holder = none ∧ released = some i) ∨
      ((∃ args, call = .consuming args .unlock) ∧ released = none) := by
  unfold lockAfter at h
  split at h
  · split at h
    · exact Or.inr (Or.inl ⟨‹_›, (Option.some.inj h).symm⟩)
    · cases h
  · exact Or.inr (Or.inr ⟨⟨_, rfl⟩, (Option.some.inj h).symm⟩)
  · cases h
  · exact Or.inl (Option.some.inj h).symm

/-- Taking or releasing the lock moves nothing that has been taken. -/
theorem takenOf_after (hlocked : call.locked = true → holder = some i)
    (hcall : calls[i]? = some call) (hlock : lockAfter holder i call = some released)
    (hbefore : call.taken = .nothing) (hafter : after.taken = .nothing) :
    takenOf released (calls.set i after) = takenOf holder calls := by
  rcases lockAfter_cases hlock with hsame | ⟨hfree, htaken⟩ | ⟨⟨args, hunlock⟩, hreleased⟩
  · subst hsame
    exact takenOf_set released hcall (hafter.trans hbefore.symm)
  · subst hfree htaken
    exact (takenOf_set_self hcall).trans hafter
  · have hown : holder = some i := by
      apply hlocked
      rw [hunlock]
      rfl
    rw [hown, takenOf_self hcall, hbefore, hreleased]
    rfl

/-- What an action of a call leaves. -/
theorem act_eq (h : shared.step (.act i) = some next) :
    ∃ call holder, shared.calls[i]? = some call ∧
      lockAfter shared.holder i call = some holder ∧
      next = ⟨(act shared.quota call).1, holder, shared.calls.set i (act shared.quota call).2⟩ := by
  simp only [step, Option.bind_eq_bind, Option.bind_eq_some_iff, Option.pure_def,
    Option.some.injEq] at h
  obtain ⟨call, hcall, holder, hholder, hnext⟩ := h
  exact ⟨call, holder, hcall, hholder, hnext.symm⟩

/-- Outside of `settle_to` and the additions to a bucket an action moves no counter. -/
theorem act_counters (quota : UserQuota) {call : Call} (hlocked : call.locked = false)
    (hbucket : ∀ args, call ≠ .consuming args .addBucket) :
    (act quota call).1.settled = quota.settled ∧
      (act quota call).1.hourUpload = quota.hourUpload ∧
      (act quota call).1.hourDownload = quota.hourDownload := by
  cases call with
  | consuming args stage =>
    cases stage with
    | addBucket => exact absurd rfl (hbucket args)
    | addTotal => cases hd : args.direction <;> simp [act, consume, UserQuota.addTotal, hd]
    | readFlag => exact ⟨rfl, rfl, rfl⟩
    | readHour => exact ⟨rfl, rfl, rfl⟩
    | lock => exact ⟨rfl, rfl, rfl⟩
    | readLimit => exact ⟨rfl, rfl, rfl⟩
    | recheckHour => cases hlocked
    | swapUpload => cases hlocked
    | swapDownload up => cases hlocked
    | addSettled up down => cases hlocked
    | storeHour => cases hlocked
    | unlock => cases hlocked
  | storingLimit limit => exact ⟨rfl, rfl, rfl⟩
  | comparing caller limit stage => exact ⟨rfl, rfl, rfl⟩
  | publishing caller limit exhausted place => cases place <;> exact ⟨rfl, rfl, rfl⟩
  | finished => exact ⟨rfl, rfl, rfl⟩

theorem act_metering (quota : UserQuota) (call : Call) :
    (act quota call).1.rawMetering = quota.rawMetering := by
  cases call with
  | consuming args stage =>
    cases stage with
    | addTotal => cases hd : args.direction <;> simp [act, consume, UserQuota.addTotal, hd]
    | addBucket => cases hd : args.direction <;> simp [act, consume, UserQuota.addBucket, hd]
    | _ => rfl
  | publishing caller limit exhausted place => cases place <;> rfl
  | _ => rfl

/-- In `settle_to` the counters make the moves of a roll-over, or none. -/
theorem act_locked (quota : UserQuota) {call : Call} (hlocked : call.locked = true)
    (hrange : (Cells.mk quota.settled quota.hourUpload quota.hourDownload call.taken).ceiling
      quota.metering.tariff < 2 ^ 64) :
    let before := Cells.mk quota.settled quota.hourUpload quota.hourDownload call.taken
    let after := Cells.mk (act quota call).1.settled (act quota call).1.hourUpload
      (act quota call).1.hourDownload (act quota call).2.taken
    after.ceiling quota.metering.tariff = before.ceiling quota.metering.tariff ∧
      (after = before ∨ Move quota.metering.tariff before after) := by
  have hzero : quota.metering.tariff.bill 0 0 = 0 := quota.metering.tariff.zero
  cases call with
  | consuming args stage =>
    cases stage with
    | recheckHour =>
      have htaken : (act quota (.consuming args .recheckHour)).2.taken = .nothing := by
        simp only [act, consume]
        split <;> rfl
      rw [htaken]
      exact ⟨rfl, Or.inl rfl⟩
    | swapUpload =>
      refine ⟨?_, Or.inr (.takeUp quota.settled quota.hourUpload quota.hourDownload)⟩
      simp only [Cells.ceiling, act, consume, Call.taken, hzero]
      omega
    | swapDownload up =>
      refine ⟨?_, Or.inr (.takeDown quota.settled quota.hourUpload quota.hourDownload up)⟩
      rfl
    | addSettled up down =>
      have hsettled : wrap 64 (quota.settled + quota.metering.bill up down) =
          quota.settled + quota.metering.tariff.bill up down := by
        apply wrap_of_lt
        exact lt_of_le_of_lt (Nat.le_add_right _ _) hrange
      simp only [act, consume, hsettled, Call.taken]
      refine ⟨?_, Or.inr (.settle quota.settled quota.hourUpload quota.hourDownload up down)⟩
      rfl
    | storeHour => exact ⟨rfl, Or.inl rfl⟩
    | unlock => exact ⟨rfl, Or.inl rfl⟩
    | readFlag => cases hlocked
    | readHour => cases hlocked
    | lock => cases hlocked
    | addTotal => cases hlocked
    | addBucket => cases hlocked
    | readLimit => cases hlocked
  | storingLimit limit => cases hlocked
  | comparing caller limit stage => cases hlocked
  | publishing caller limit exhausted place => cases hlocked
  | finished => cases hlocked

/-- Apart from `settle_to` a call has taken nothing before and after an action. -/
theorem taken_of_unlocked (quota : UserQuota) {call : Call} (hlocked : call.locked = false) :
    call.taken = .nothing ∧ (act quota call).2.taken = .nothing := by
  cases call with
  | consuming args stage =>
    cases stage with
    | readFlag =>
      refine ⟨rfl, ?_⟩
      simp only [act, consume]
      split <;> rfl
    | readLimit =>
      refine ⟨rfl, ?_⟩
      simp only [act, consume]
      split <;> rfl
    | readHour =>
      refine ⟨rfl, ?_⟩
      simp only [act, consume]
      split <;> rfl
    | lock => exact ⟨rfl, rfl⟩
    | addTotal => exact ⟨rfl, rfl⟩
    | addBucket => exact ⟨rfl, rfl⟩
    | recheckHour => cases hlocked
    | swapUpload => cases hlocked
    | swapDownload up => cases hlocked
    | addSettled up down => cases hlocked
    | storeHour => cases hlocked
    | unlock => cases hlocked
  | storingLimit limit => cases limit <;> exact ⟨rfl, rfl⟩
  | comparing caller limit stage =>
    refine ⟨rfl, ?_⟩
    cases stage with
    | readDownload settled up =>
      cases caller with
      | tryConsume =>
        simp only [act, compare, compared]
        split <;> rfl
      | setLimit => rfl
    | readSettled => rfl
    | readUpload settled => rfl
  | publishing caller limit exhausted place => cases place <;> exact ⟨rfl, rfl⟩
  | finished => exact ⟨rfl, rfl⟩

/-- What a call in `settle_to` leaves taken is its own. -/
theorem takenOf_locked (quota : UserQuota) (hholder : holder = some i)
    (hcall : calls[i]? = some call) (hlock : lockAfter holder i call = some released) :
    takenOf released (calls.set i (act quota call).2) = (act quota call).2.taken := by
  rcases lockAfter_cases hlock with hsame | ⟨hfree, _⟩ | ⟨⟨args, hunlock⟩, hreleased⟩
  · rw [hsame, hholder]
    exact takenOf_set_self hcall
  · rw [hholder] at hfree
    cases hfree
  · rw [hunlock, hreleased]
    rfl

/-- The cells make one move or none, and stay in range. -/
theorem Inv.cells_after (h : shared.Inv) (horderly : shared.Orderly (.act i))
    (hstep : shared.step (.act i) = some next) :
    next.tariff = shared.tariff ∧ next.billed < noLimit ∧
      (next.cells = shared.cells ∨ Move shared.tariff shared.cells next.cells) := by
  obtain ⟨call, holder, hcall, hlock, rfl⟩ := act_eq hstep
  have htariff : (act shared.quota call).1.metering.tariff = shared.quota.metering.tariff := by
    rw [UserQuota.metering, act_metering]
    rfl
  have hmax : noLimit < 2 ^ 64 := by decide
  have hrange := h.range
  refine ⟨htariff, ?_⟩
  rw [billed, tariff, htariff]
  cases hlocked : call.locked with
  | true =>
    have hholder := h.locked i call hcall hlocked
    have hbefore : shared.cells = ⟨shared.quota.settled, shared.quota.hourUpload,
        shared.quota.hourDownload, call.taken⟩ := by
      rw [cells, hholder, takenOf_self hcall]
    rw [billed, tariff, hbefore] at hrange
    obtain ⟨hsame, hmove⟩ := act_locked shared.quota hlocked (hrange.trans hmax)
    rw [hbefore, cells, takenOf_locked shared.quota hholder hcall hlock]
    exact ⟨hsame.trans_lt hrange, hmove⟩
  | false =>
    obtain ⟨htaken, hthen⟩ := taken_of_unlocked shared.quota hlocked
    have hown : call.locked = true → shared.holder = some i := by
      intro hl
      rw [hlocked] at hl
      cases hl
    have hafter := takenOf_after hown hcall hlock htaken hthen
    by_cases hbucket : ∃ args, call = .consuming args .addBucket
    · obtain ⟨args, rfl⟩ := hbucket
      obtain ⟨hcounter, hbilled⟩ := (horderly _ hcall).1 args rfl
      rw [billed, tariff] at hbilled
      rw [cells, hafter]
      cases hd : args.direction with
      | upload =>
        simp only [UserQuota.hourCounter, hd] at hcounter
        have hword : wrap 64 (shared.quota.hourUpload + args.n) =
            shared.quota.hourUpload + args.n := wrap_of_lt hcounter
        simp only [act, consume, UserQuota.addBucket, hd, hword]
        have hle := ceiling_addUp_le shared.quota.metering.tariff args.n shared.quota.settled
          shared.quota.hourUpload shared.quota.hourDownload (takenOf shared.holder shared.calls)
        exact ⟨hle.trans_lt hbilled, Or.inr (.addUp _ _ _ _ _)⟩
      | download =>
        simp only [UserQuota.hourCounter, hd] at hcounter
        have hword : wrap 64 (shared.quota.hourDownload + args.n) =
            shared.quota.hourDownload + args.n := wrap_of_lt hcounter
        simp only [act, consume, UserQuota.addBucket, hd, hword]
        have hle := ceiling_addDown_le shared.quota.metering.tariff args.n shared.quota.settled
          shared.quota.hourUpload shared.quota.hourDownload (takenOf shared.holder shared.calls)
        exact ⟨hle.trans_lt hbilled, Or.inr (.addDown _ _ _ _ _)⟩
    · have hbucket : ∀ args, call ≠ .consuming args .addBucket := fun args hcall =>
        hbucket ⟨args, hcall⟩
      obtain ⟨hsettled, hup, hdown⟩ := act_counters shared.quota hlocked hbucket
      have hsame : cells ⟨(act shared.quota call).1, holder,
          shared.calls.set i (act shared.quota call).2⟩ = shared.cells := by
        rw [cells, hafter, hsettled, hup, hdown]
        rfl
      rw [hsame]
      exact ⟨hrange, Or.inl rfl⟩

theorem Inv.billed_le (h : shared.Inv) (horderly : shared.Orderly (.act i))
    (hstep : shared.step (.act i) = some next) : shared.billed ≤ next.billed := by
  obtain ⟨htariff, _, hcells⟩ := h.cells_after horderly hstep
  rw [billed, billed, htariff]
  rcases hcells with hsame | hmove
  · rw [hsame]
  · exact hmove.ceiling_le

/-- What another call has loaded stays sound. -/
theorem Inv.sound_after (h : shared.Inv) (horderly : shared.Orderly (.act i))
    (hstep : shared.step (.act i) = some next) {seen : Rollover.Seen}
    (hsound : Sound shared.tariff shared.cells seen) : Sound next.tariff next.cells seen := by
  obtain ⟨htariff, _, hcells⟩ := h.cells_after horderly hstep
  rw [htariff]
  rcases hcells with hsame | hmove
  · rw [hsame]
    exact hsound
  · exact hmove.sound hsound

/-! ## The call that acts -/

theorem Inv.seen_act (h : shared.Inv) (hcall : shared.calls[i]? = some call) :
    Sound shared.tariff shared.cells (act shared.quota call).2.seen := by
  have hsound := h.reading call (List.mem_of_getElem? hcall)
  cases call with
  | comparing caller limit stage =>
    cases stage with
    | readSettled => exact le_refl shared.cells.settled
    | readUpload settled => exact sound_up hsound
    | readDownload settled up =>
      cases caller with
      | tryConsume =>
        simp only [act, compare, compared]
        split <;> trivial
      | setLimit => trivial
  | consuming args stage =>
    cases stage with
    | readFlag =>
      simp only [act, consume]
      split <;> trivial
    | readLimit =>
      simp only [act, consume]
      split <;> trivial
    | _ => trivial
  | storingLimit limit => cases limit <;> trivial
  | publishing caller limit exhausted place => cases place <;> trivial
  | finished => trivial

/-- A verdict of `true` is reached by what is billed. -/
theorem Inv.verdict_act (h : shared.Inv) (hcall : shared.calls[i]? = some call)
    {caller : Caller} {limit : Nat} {place : Place}
    (hact : (act shared.quota call).2 = .publishing caller limit true place) :
    limit ≤ shared.billed := by
  have hmem := List.mem_of_getElem? hcall
  have hsound := h.reading call hmem
  cases call with
  | comparing from' bound stage =>
    cases stage with
    | readSettled => cases hact
    | readUpload settled => cases hact
    | readDownload settled up =>
      have hall : settled + shared.quota.metering.bill up shared.quota.hourDownload ≤
          shared.billed := sound_all hsound
      have hwrap : wrap 64 (settled + shared.quota.metering.bill up shared.quota.hourDownload) ≤
          settled + shared.quota.metering.bill up shared.quota.hourDownload := Nat.mod_le _ _
      cases from' with
      | tryConsume =>
        simp only [act, compare, compared] at hact
        split at hact
        · rename_i hle
          obtain rfl : bound = limit := by
            injection hact
          exact hle.trans (hwrap.trans hall)
        · cases hact
      | setLimit =>
        simp only [act, compare, compared, Call.publishing.injEq, decide_eq_true_eq] at hact
        obtain ⟨_, rfl, hle, _⟩ := hact
        exact hle.trans (hwrap.trans hall)
  | publishing from' bound exhausted at' =>
    cases at' with
    | flag =>
      simp only [act, Call.publishing.injEq] at hact
      obtain ⟨rfl, rfl, rfl, _⟩ := hact
      exact h.verdict from' bound .flag hmem
    | channel => cases hact
  | consuming args stage =>
    cases stage with
    | readFlag =>
      simp only [act, consume] at hact
      split at hact <;> cases hact
    | readLimit =>
      simp only [act, consume] at hact
      split at hact <;> cases hact
    | _ => cases hact
  | storingLimit bound => cases bound <;> cases hact
  | finished => cases hact

theorem holder_act (quota : UserQuota) (hown : call.locked = true → holder = some i)
    (hlock : lockAfter holder i call = some released)
    (hlocked : (act quota call).2.locked = true) : released = some i := by
  cases call with
  | consuming args stage =>
    cases stage with
    | lock =>
      simp only [lockAfter] at hlock
      split at hlock
      · exact (Option.some.inj hlock).symm
      · cases hlock
    | recheckHour => exact (Option.some.inj hlock).symm.trans (hown rfl)
    | swapUpload => exact (Option.some.inj hlock).symm.trans (hown rfl)
    | swapDownload up => exact (Option.some.inj hlock).symm.trans (hown rfl)
    | addSettled up down => exact (Option.some.inj hlock).symm.trans (hown rfl)
    | storeHour => exact (Option.some.inj hlock).symm.trans (hown rfl)
    | unlock => cases hlocked
    | readFlag =>
      simp only [act, consume] at hlocked
      split at hlocked <;> cases hlocked
    | readHour =>
      simp only [act, consume] at hlocked
      split at hlocked <;> cases hlocked
    | addTotal => cases hlocked
    | addBucket => cases hlocked
    | readLimit =>
      simp only [act, consume] at hlocked
      split at hlocked <;> cases hlocked
  | storingLimit limit => cases limit <;> cases hlocked
  | comparing caller limit stage =>
    cases stage with
    | readDownload settled up =>
      cases caller with
      | tryConsume =>
        simp only [act, compare, compared] at hlocked
        split at hlocked <;> cases hlocked
      | setLimit => cases hlocked
    | _ => cases hlocked
  | publishing caller limit exhausted place => cases place <;> cases hlocked
  | finished => cases hlocked

theorem mem_set_of_mem (after : Call) (hcall : calls[i]? = some call) {other : Call} (h : other ∈ calls) :
    other = call ∨ other ∈ calls.set i after := by
  obtain ⟨j, hj⟩ := List.mem_iff_getElem?.mp h
  by_cases hij : i = j
  · subst hij
    exact Or.inl (Option.some.inj (hj.symm.trans hcall))
  · apply Or.inr
    apply List.mem_of_getElem? (i := j)
    rw [List.getElem?_set_ne hij]
    exact hj

/-- A `true` stays excused when the limit does and a call that owed its verdict still does. -/
theorem Inv.excused_after (h : shared.Inv) (horderly : shared.Orderly (.act i))
    (hstep : shared.step (.act i) = some next) (hcall : shared.calls[i]? = some call)
    {place : Place} (hraw : next.quota.rawLimit = shared.quota.rawLimit)
    (howes : call.owes shared.quota.rawLimit place →
      (act shared.quota call).2.owes shared.quota.rawLimit place)
    (hexcused : shared.Excused place) : next.Excused place := by
  have hle := h.billed_le horderly hstep
  obtain ⟨call', holder, hcall', _, rfl⟩ := act_eq hstep
  obtain rfl : call = call' := Option.some.inj (hcall.symm.trans hcall')
  unfold Excused
  rw [hraw]
  rcases hexcused with hbilled | ⟨other, hmem, hother⟩
  · exact Or.inl (hbilled.trans hle)
  · right
    rcases mem_set_of_mem (act shared.quota call).2 hcall hmem with rfl | hstays
    · obtain ⟨hlt, _⟩ := List.getElem?_eq_some_iff.mp hcall
      exact ⟨_, List.mem_set hlt _, howes hother⟩
    · exact ⟨other, hstays, hother⟩

/-- A `try_consume_at` stores neither limit nor verdict before it publishes. -/
theorem consume_settings (quota : UserQuota) (args : Consume) (stage : ConsumeAt) :
    (consume quota args stage).1.rawLimit = quota.rawLimit ∧
      ∀ place, storedAt (consume quota args stage).1 place = storedAt quota place := by
  cases stage with
  | addTotal =>
    cases hd : args.direction <;>
      exact ⟨by simp [consume, UserQuota.addTotal, hd],
        fun place => by cases place <;> simp [consume, UserQuota.addTotal, hd, storedAt]⟩
  | addBucket =>
    cases hd : args.direction <;>
      exact ⟨by simp [consume, UserQuota.addBucket, hd],
        fun place => by cases place <;> simp [consume, UserQuota.addBucket, hd, storedAt]⟩
  | _ => exact ⟨rfl, fun place => by cases place <;> rfl⟩

theorem owes_compare (quota : UserQuota) {caller : Caller} {limit raw : Nat} {stage : UsedAt}
    {place : Place} (h : (Call.comparing caller limit stage).owes raw place) :
    (compare quota caller limit stage).owes raw place := by
  cases caller with
  | tryConsume => exact absurd h id
  | setLimit =>
    cases stage with
    | readSettled => exact h
    | readUpload settled => exact h
    | readDownload settled up => exact ⟨h, Or.inl rfl⟩

theorem owes_limitStored (limit : Option Nat) (place : Place) :
    (limitStored limit).owes (limit.getD noLimit) place := by
  cases limit with
  | some limit => exact rfl
  | none => exact ⟨rfl, Or.inl rfl⟩

/-- A stored `true` that is not old is reached, or another call will store again. -/
theorem Inv.excused_publish (h : shared.Inv) (horderly : shared.Orderly (.act i))
    (hstep : shared.step (.act i) = some next) {caller : Caller} {limit : Nat} {place : Place}
    (hcall : shared.calls[i]? = some (.publishing caller limit true place)) :
    next.Excused place := by
  have hle := h.billed_le horderly hstep
  have hverdict := h.verdict caller limit place (List.mem_of_getElem? hcall)
  have hcurrent := (horderly _ hcall).2 (limit, place) rfl
  obtain ⟨call, holder, hcall', _, rfl⟩ := act_eq hstep
  obtain rfl := Option.some.inj (hcall.symm.trans hcall')
  have hraw : (act shared.quota (.publishing caller limit true place)).1.rawLimit =
      shared.quota.rawLimit := by cases place <;> rfl
  unfold Excused
  rw [hraw]
  rcases hcurrent with hcurrent | ⟨other, hmem, howes⟩
  · exact Or.inl ((hcurrent.trans hverdict).trans hle)
  · rcases mem_set_of_mem (act shared.quota (.publishing caller limit true place)).2
      hcall hmem with rfl | hstays
    · cases caller with
      | tryConsume => exact absurd howes id
      | setLimit =>
        left
        rw [← howes.1]
        exact hverdict.trans hle
    · exact Or.inr ⟨other, hstays, howes⟩

theorem Inv.excused_act (h : shared.Inv) (horderly : shared.Orderly (.act i))
    (hstep : shared.step (.act i) = some next) (place : Place)
    (hstored : storedAt next.quota place = true) : next.Excused place := by
  obtain ⟨call, holder, hcall, _, hnext⟩ := act_eq hstep
  have hquota : next.quota = (act shared.quota call).1 := congrArg SharedQuota.quota hnext
  rw [hquota] at hstored
  cases call with
  | consuming args stage =>
    obtain ⟨hraw, hsame⟩ := consume_settings shared.quota args stage
    refine h.excused_after horderly hstep hcall ?_ (fun howes => absurd howes id) ?_
    · rw [hquota]
      exact hraw
    · exact h.excused place ((hsame place).symm.trans hstored)
  | storingLimit limit =>
    right
    obtain ⟨hlt, _⟩ := List.getElem?_eq_some_iff.mp hcall
    rw [hnext]
    exact ⟨limitStored limit, List.mem_set hlt _, owes_limitStored limit place⟩
  | comparing caller limit stage =>
    refine h.excused_after horderly hstep hcall ?_ (owes_compare shared.quota) ?_
    · rw [hquota]
      rfl
    · exact h.excused place hstored
  | publishing caller limit exhausted stored =>
    by_cases hplace : stored = place
    · subst hplace
      obtain rfl : exhausted = true := by
        cases stored <;> exact hstored
      exact h.excused_publish horderly hstep hcall
    · have hsame : storedAt (act shared.quota (.publishing caller limit exhausted stored)).1
          place = storedAt shared.quota place := by
        cases stored <;> cases place <;> first | rfl | exact absurd rfl hplace
      refine h.excused_after horderly hstep hcall ?_ ?_ (h.excused place (hsame ▸ hstored))
      · rw [hquota]
        cases stored <;> rfl
      · intro howes
        cases caller with
        | tryConsume => exact absurd howes id
        | setLimit =>
          rcases howes with ⟨hlimit, hflag | hchannel⟩
          · subst hflag
            cases place with
            | flag => exact absurd rfl hplace
            | channel => exact ⟨hlimit, Or.inr rfl⟩
          · subst hchannel
            cases stored with
            | flag => exact ⟨hlimit, Or.inr rfl⟩
            | channel => exact absurd rfl hplace
  | finished =>
    rw [step, hcall] at hstep
    cases hstep

theorem Inv.act (h : shared.Inv) (horderly : shared.Orderly (.act i))
    (hstep : shared.step (.act i) = some next) : next.Inv := by
  obtain ⟨_, hrange, _⟩ := h.cells_after horderly hstep
  have hle := h.billed_le horderly hstep
  have hsound : ∀ seen, Sound shared.tariff shared.cells seen →
      Sound next.tariff next.cells seen := fun _ => h.sound_after horderly hstep
  have hexcused := h.excused_act horderly hstep
  obtain ⟨call, holder, hcall, hlock, hnext⟩ := act_eq hstep
  have hcalls : next.calls = shared.calls.set i (SharedQuota.act shared.quota call).2 :=
    congrArg SharedQuota.calls hnext
  have hmem : ∀ other ∈ next.calls,
      other ∈ shared.calls ∨ other = (SharedQuota.act shared.quota call).2 := by
    intro other hother
    rw [hcalls] at hother
    exact List.mem_or_eq_of_mem_set hother
  refine ⟨?_, ?_, ?_, hrange, hexcused⟩
  · intro j other hother hlocked
    have hown := h.locked i call hcall
    rw [hcalls] at hother
    rw [hnext]
    by_cases hij : i = j
    · subst hij
      obtain ⟨hlt, _⟩ := List.getElem?_eq_some_iff.mp hcall
      rw [List.getElem?_set_self hlt] at hother
      obtain rfl := Option.some.inj hother
      exact holder_act shared.quota hown hlock hlocked
    · rw [List.getElem?_set_ne hij] at hother
      have hholder := h.locked j other hother hlocked
      rcases lockAfter_cases hlock with hsame | ⟨hfree, _⟩ | ⟨⟨args, hunlock⟩, _⟩
      · exact hsame.trans hholder
      · rw [hholder] at hfree
        cases hfree
      · subst hunlock
        have hboth := (hown rfl).symm.trans hholder
        exact absurd (Option.some.inj hboth) hij
  · intro other hother
    rcases hmem other hother with hold | rfl
    · exact hsound _ (h.reading other hold)
    · exact hsound _ (h.seen_act hcall)
  · intro caller limit place hpublishing
    rcases hmem _ hpublishing with hold | hown
    · exact (h.verdict caller limit place hold).trans hle
    · exact (h.verdict_act hcall hown.symm).trans hle

/-- A call that begins has taken and loaded nothing and holds no lock. -/
theorem begun_call (request : Request) :
    request.call.taken = .nothing ∧ request.call.locked = false ∧ request.call.seen = .nothing ∧
      ∀ caller limit place, request.call ≠ .publishing caller limit true place := by
  cases request with
  | tryConsumeAt n direction hour =>
    refine ⟨rfl, rfl, rfl, ?_⟩
    intro caller limit place h
    cases h
  | setLimit limit =>
    refine ⟨rfl, rfl, rfl, ?_⟩
    intro caller limit place h
    cases h

theorem takenOf_append (holder : Option Nat) (calls : List Call) (request : Request) :
    takenOf holder (calls ++ [request.call]) = takenOf holder calls := by
  obtain ⟨htaken, _⟩ := begun_call request
  cases holder with
  | none => rfl
  | some i =>
    simp only [takenOf, List.getD_eq_getElem?_getD]
    rcases Nat.lt_trichotomy i calls.length with hlt | rfl | hgt
    · rw [List.getElem?_append_left hlt]
    · rw [List.getElem?_concat_length, List.getElem?_eq_none le_rfl]
      exact htaken
    · rw [List.getElem?_eq_none hgt.le, List.getElem?_eq_none]
      rw [List.length_append, List.length_singleton]
      exact hgt

theorem Inv.begin (h : shared.Inv) {request : Request}
    (hstep : shared.step (.begin request) = some next) : next.Inv := by
  obtain rfl : next = { shared with calls := shared.calls ++ [request.call] } :=
    (Option.some.inj hstep).symm
  obtain ⟨_, hunlocked, hseen, hpublishing⟩ := begun_call request
  have hcells : cells { shared with calls := shared.calls ++ [request.call] } = shared.cells := by
    rw [cells, takenOf_append]
    rfl
  have hbilled : billed { shared with calls := shared.calls ++ [request.call] } =
      shared.billed := by
    rw [billed, hcells]
    rfl
  refine ⟨?_, ?_, ?_, hbilled.trans_lt h.range, ?_⟩
  · intro i call hcall hlocked
    rcases List.mem_append.mp (List.mem_of_getElem? hcall) with _ | hnew
    · rcases Nat.lt_or_ge i shared.calls.length with hlt | hge
      · rw [List.getElem?_append_left hlt] at hcall
        exact h.locked i call hcall hlocked
      · rw [List.getElem?_append_right hge] at hcall
        obtain rfl := List.mem_singleton.mp (List.mem_of_getElem? hcall)
        rw [hunlocked] at hlocked
        cases hlocked
    · rw [List.mem_singleton.mp hnew, hunlocked] at hlocked
      cases hlocked
  · intro call hcall
    rw [hcells]
    rcases List.mem_append.mp hcall with hold | hnew
    · exact h.reading call hold
    · rw [List.mem_singleton.mp hnew, hseen]
      trivial
  · intro caller limit place hmem
    rw [hbilled]
    rcases List.mem_append.mp hmem with hold | hnew
    · exact h.verdict caller limit place hold
    · exact absurd (List.mem_singleton.mp hnew).symm (hpublishing caller limit place)
  · intro place hstored
    unfold Excused
    rw [hbilled]
    rcases h.excused place hstored with hreached | ⟨call, hcall, howes⟩
    · exact Or.inl hreached
    · exact Or.inr ⟨call, List.mem_append_left _ hcall, howes⟩

end Step

theorem Inv.runs {shared last : SharedQuota} {run : List Action}
    (hrun : Runs Orderly shared run last) (h : shared.Inv) : last.Inv := by
  induction hrun with
  | nil shared => exact h
  | @cons shared next last action run horderly hstep _ ih =>
    cases action with
    | begin request => exact ih (h.begin hstep)
    | act i => exact ih (h.act horderly hstep)

/-- A quota that no call has been made on. -/
def fresh (name : String) (limit : Option Nat) (saved : SavedUsage) (metering : Metering)
    (hour : Int) : SharedQuota where
  quota := UserQuota.newMeteredAt name limit saved metering hour

theorem Inv.fresh (name : String) (limit : Option Nat) {saved : SavedUsage} {metering : Metering}
    (hour : Int)
    (hrange : saved.settled + metering.bill saved.hourUpload saved.hourDownload < noLimit) :
    (SharedQuota.fresh name limit saved metering hour).Inv := by
  have hmax : noLimit < 2 ^ 64 := by decide
  have hzero : metering.bill 0 0 = 0 := metering.charge_zero
  have hwrap : wrap 64 (saved.settled + metering.bill saved.hourUpload saved.hourDownload) =
      saved.settled + metering.bill saved.hourUpload saved.hourDownload :=
    wrap_of_lt (hrange.trans hmax)
  have hmetering : (SharedQuota.fresh name limit saved metering hour).tariff = metering.tariff :=
    congrArg Metering.tariff (meteringFrom_meteringCode metering)
  have hbilled : (SharedQuota.fresh name limit saved metering hour).billed =
      saved.settled + metering.bill saved.hourUpload saved.hourDownload := by
    rw [billed, hmetering]
    unfold SharedQuota.fresh UserQuota.newMeteredAt
    by_cases hhour : saved.hourId = hour
    · simp only [hhour, if_true]
      rfl
    · simp only [hhour, if_false, hwrap]
      change saved.settled + metering.bill saved.hourUpload saved.hourDownload +
        metering.bill 0 0 = _
      rw [hzero, Nat.add_zero]
  refine ⟨?_, ?_, ?_, hbilled.trans_lt hrange, ?_⟩
  · intro i call hcall
    cases hcall
  · intro call hcall
    cases hcall
  · intro caller bound place hmem
    cases hmem
  · intro place hstored
    have hexhausted : limit.any (· ≤ saved.settled +
        metering.bill saved.hourUpload saved.hourDownload) = true := by
      have hplace : storedAt (SharedQuota.fresh name limit saved metering hour).quota place =
          (UserQuota.newMeteredAt name limit saved metering hour).exhausted := by
        cases place <;> rfl
      rw [hplace] at hstored
      unfold UserQuota.newMeteredAt at hstored
      by_cases hhour : saved.hourId = hour
      · simpa only [hhour, if_true, hwrap] using hstored
      · simpa only [hhour, if_false, hwrap, hzero, Nat.add_zero] using hstored
    obtain ⟨l, rfl, hl⟩ := Option.any_eq_true _ _ |>.mp hexhausted
    left
    rw [hbilled]
    exact of_decide_eq_true hl

/-! ## No call in progress -/

theorem Quiet.used {shared : SharedQuota} (hquiet : shared.Quiet)
    (hrange : shared.billed < noLimit) : shared.quota.used = shared.billed := by
  have hmax : noLimit < 2 ^ 64 := by decide
  have htaken : takenOf shared.holder shared.calls = .nothing := by
    cases shared.holder with
    | none => rfl
    | some i =>
      rw [takenOf, List.getD_eq_getElem?_getD]
      cases hcall : shared.calls[i]? with
      | none => rfl
      | some call =>
        rw [hquiet call (List.mem_of_getElem? hcall)]
        rfl
  have hbilled : shared.billed = shared.quota.settled + shared.quota.hourUsed := by
    rw [billed, cells, htaken]
    rfl
  rw [UserQuota.used, hbilled]
  rw [hbilled] at hrange
  exact wrap_of_lt (hrange.trans hmax)

/-- In every orderly run of any number of calls, whenever none is in progress and the limit is
unset or above what is used, the user is not exhausted and the channel says so. -/
theorem raising_reenables (name : String) (limit : Option Nat) {saved : SavedUsage}
    {metering : Metering} (hour : Int)
    (hrange : saved.settled + metering.bill saved.hourUpload saved.hourDownload < noLimit)
    {run : List Action} {last : SharedQuota}
    (hrun : Runs Orderly (fresh name limit saved metering hour) run last) (hquiet : last.Quiet)
    (hbelow : ∀ l, last.quota.limit = some l → last.quota.used < l) :
    last.quota.isExhausted = false ∧ last.quota.exhausted = false := by
  have hinv := (Inv.fresh name limit hour hrange).runs hrun
  have hused := hquiet.used hinv.range
  have hidle : ∀ place, storedAt last.quota place = false := by
    intro place
    by_contra hstored
    rcases hinv.excused place (Bool.eq_true_of_not_eq_false hstored) with hreached | ⟨call, hcall, howes⟩
    · have hne : last.quota.rawLimit ≠ noLimit := by
        have hlt := hinv.range
        omega
      have hlimit : last.quota.limit = some last.quota.rawLimit := by
        simp [UserQuota.limit, hne]
      have hlt := hbelow _ hlimit
      omega
    · rw [hquiet call hcall] at howes
      exact howes
  exact ⟨hidle .flag, hidle .channel⟩

/-! ## A verdict from the old limit -/

/-- A consume decides that 100 of 100 bytes are used, `set_limit` raises the limit to 200 and
returns, and the consume stores what it decided. -/
def staleVerdict : List Action :=
  .begin (.tryConsumeAt 100 .upload 5) :: List.replicate 8 (.act 0) ++
    .begin (.setLimit (some 200)) :: List.replicate 6 (.act 1) ++ List.replicate 2 (.act 0)

/-- The same calls one after the other. -/
def oneByOne : List Action :=
  .begin (.tryConsumeAt 100 .upload 5) :: List.replicate 10 (.act 0) ++
    .begin (.setLimit (some 200)) :: List.replicate 6 (.act 1)

theorem raising_leaves_exhausted : ∃ last,
    Runs (fun _ _ => True) (fresh "a" (some 100) {} .max 5) staleVerdict last ∧ last.Quiet ∧
      last.quota.limit = some 200 ∧ last.quota.used = 100 ∧
      last.quota.isExhausted = true ∧ last.quota.exhausted = true := by
  have hreplay : ((fresh "a" (some 100) {} .max 5).replay (fun _ _ => true) staleVerdict).any
      (fun last => last.Quiet ∧ last.quota.limit = some 200 ∧ last.quota.used = 100 ∧
        last.quota.isExhausted = true ∧ last.quota.exhausted = true) = true := by
    decide +kernel
  obtain ⟨last, hlast, hends⟩ := Option.any_eq_true _ _ |>.mp hreplay
  exact ⟨last, (runs_of_replay hlast).mono fun _ _ _ => trivial, of_decide_eq_true hends⟩

theorem raising_reenables_oneByOne : ∃ last,
    Runs Orderly (fresh "a" (some 100) {} .max 5) oneByOne last ∧
      last.quota.isExhausted = false ∧ last.quota.exhausted = false := by
  have hreplay : ((fresh "a" (some 100) {} .max 5).replay
      (fun shared action => decide (shared.Orderly action)) oneByOne).any
      (fun last => last.Quiet ∧ last.quota.limit = some 200 ∧ last.quota.used = 100) = true := by
    decide +kernel
  obtain ⟨last, hlast, hends⟩ := Option.any_eq_true _ _ |>.mp hreplay
  obtain ⟨hquiet, hlimit, hused⟩ := of_decide_eq_true hends
  have hrun := (runs_of_replay hlast).mono fun _ _ hadmits => of_decide_eq_true hadmits
  refine ⟨last, hrun, ?_⟩
  apply raising_reenables "a" (some 100) 5 (by decide) hrun hquiet
  intro l hl
  rw [hlimit] at hl
  rw [hused, ← Option.some.inj hl]
  decide

end SharedQuota

end PortsBox
