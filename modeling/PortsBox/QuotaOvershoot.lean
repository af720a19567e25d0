import PortsBox.Lib.Overshoot
import PortsBox.QuotaRaces

/-!
# How far a shared quota overshoots

Every connection counts first and compares afterwards, so a user can go over the limit. Within
an hour and with the limit left alone, the excess is what the calls in progress at one time
add, because a call that returned below the limit has seen all that was counted before it.
-/

set_option autoImplicit false

namespace PortsBox

open Word

namespace UserQuota
variable {quota : UserQuota} {m : Nat}

/-- The sum in `used`, before it wraps. -/
def spent (quota : UserQuota) : Nat := quota.settled + quota.hourUsed

theorem used_of_spent {bound : Nat} (h : quota.spent < bound) (hbound : bound ≤ 2 ^ 64) :
    quota.used = quota.spent :=
  wrap_of_lt (h.trans_le hbound)

@[simp] theorem settled_addBucket (direction : Direction) :
    (quota.addBucket m direction).settled = quota.settled := by cases direction <;> rfl

@[simp] theorem metering_addBucket (direction : Direction) :
    (quota.addBucket m direction).metering = quota.metering := by cases direction <;> rfl

@[simp] theorem exhaustedFlag_addBucket (direction : Direction) :
    (quota.addBucket m direction).exhaustedFlag = quota.exhaustedFlag := by cases direction <;> rfl

@[simp] theorem exhausted_addBucket (direction : Direction) :
    (quota.addBucket m direction).exhausted = quota.exhausted := by cases direction <;> rfl

theorem spent_addBucket_le (quota : UserQuota) (m : Nat) (direction : Direction) :
    (quota.addBucket m direction).spent ≤ quota.spent + m := by
  have hmono := @quota.metering.tariff.mono
  have hstep : (quota.addBucket m direction).hourUsed ≤ quota.hourUsed + m := by
    cases direction with
    | upload =>
      calc quota.metering.bill (wrap 64 (quota.hourUpload + m)) quota.hourDownload
          ≤ quota.metering.bill (quota.hourUpload + m) quota.hourDownload :=
            hmono (Nat.mod_le _ _) le_rfl
        _ ≤ quota.metering.bill quota.hourUpload quota.hourDownload + m :=
            quota.metering.tariff.up_le _ _ _
    | download =>
      calc quota.metering.bill quota.hourUpload (wrap 64 (quota.hourDownload + m))
          ≤ quota.metering.bill quota.hourUpload (quota.hourDownload + m) :=
            hmono le_rfl (Nat.mod_le _ _)
        _ ≤ quota.metering.bill quota.hourUpload quota.hourDownload + m :=
            quota.metering.tariff.down_le _ _ _
  unfold spent
  rw [settled_addBucket]
  omega

/-- Where the bill stays in range, so do the counters that it depends on. -/
theorem hourCounter_lt (hroom : quota.spent + m < noLimit) :
    (quota.metering ≠ .download → quota.hourUpload + m < 2 ^ 64) ∧
      quota.hourDownload + m < 2 ^ 64 := by
  have hused : quota.hourUsed + m < 2 ^ 64 - 1 :=
    lt_of_le_of_lt (Nat.add_le_add_right (Nat.le_add_left _ _) m) hroom
  unfold hourUsed at hused
  cases hmetering : quota.metering with
  | max =>
    rw [hmetering] at hused
    have hup : quota.hourUpload ≤ Metering.max.bill quota.hourUpload quota.hourDownload :=
      Nat.le_max_left _ _
    have hdown : quota.hourDownload ≤ Metering.max.bill quota.hourUpload quota.hourDownload :=
      Nat.le_max_right _ _
    omega
  | sum =>
    rw [hmetering, Metering.bill, clamp] at hused
    omega
  | download =>
    rw [hmetering, Metering.bill] at hused
    exact ⟨fun h => absurd rfl h, by omega⟩

theorem bill_addBucket (hroom : quota.spent + m < noLimit) (direction : Direction) (up down : Nat) :
    quota.metering.bill quota.hourUpload down ≤
        quota.metering.bill (quota.addBucket m direction).hourUpload down ∧
      quota.metering.bill up quota.hourDownload ≤
        quota.metering.bill up (quota.addBucket m direction).hourDownload := by
  have hmono := @quota.metering.tariff.mono
  obtain ⟨hup, hdown⟩ := hourCounter_lt hroom
  cases direction with
  | upload =>
    refine ⟨?_, le_rfl⟩
    by_cases hdownload : quota.metering = .download
    · rw [hdownload]
      exact le_rfl
    · apply hmono _ le_rfl
      change quota.hourUpload ≤ wrap 64 (quota.hourUpload + m)
      rw [wrap_of_lt (hup hdownload)]
      exact Nat.le_add_right _ m
  | download =>
    refine ⟨le_rfl, hmono le_rfl ?_⟩
    change quota.hourDownload ≤ wrap 64 (quota.hourDownload + m)
    rw [wrap_of_lt hdown]
    exact Nat.le_add_right _ m

theorem spent_le_addBucket (hroom : quota.spent + m < noLimit) (direction : Direction) :
    quota.spent ≤ (quota.addBucket m direction).spent := by
  obtain ⟨hup, -⟩ := bill_addBucket hroom direction 0 quota.hourDownload
  obtain ⟨-, hdown⟩ :=
    bill_addBucket hroom direction (quota.addBucket m direction).hourUpload 0
  unfold spent hourUsed
  rw [settled_addBucket, metering_addBucket]
  exact Nat.add_le_add_left (hup.trans hdown) _

end UserQuota

namespace SharedQuota

/-! ## Calls by where they are -/

def Call.inProgress : Call → Bool
  | .finished => false
  | _ => true

/-- Past the flag, with its bytes still to count. -/
def Call.due : Call → Bool
  | .consuming _ stage => stage ≠ .readFlag && stage ≠ .readLimit
  | _ => false

/-- Counted, and not compared yet. -/
def Call.counted : Call → Bool
  | .consuming _ .readLimit => true
  | .comparing _ _ _ => true
  | .publishing _ _ _ _ => true
  | _ => false

/-- The calls with a property. -/
def indices (p : Call → Bool) (calls : List Call) : Finset Nat :=
  (Finset.range calls.length).filter fun i => p (calls.getD i .finished)

/-- How many calls are in progress. -/
def busy (shared : SharedQuota) : Nat := (indices Call.inProgress shared.calls).card

/-- Only consumes of at most `n` bytes, at most `k` at a time, all in the hour of the bucket. -/
def Crowd (n k : Nat) (shared : SharedQuota) : Action → Prop
  | .begin (.tryConsumeAt m _ hour) =>
    m ≤ n ∧ hour = shared.quota.bucketHour ∧ shared.busy < k
  | .begin (.setLimit _) => False
  | .act _ => True

instance (n k : Nat) (shared : SharedQuota) : DecidablePred (shared.Crowd n k)
  | .begin (.tryConsumeAt m _ hour) =>
    inferInstanceAs (Decidable (m ≤ n ∧ hour = shared.quota.bucketHour ∧ shared.busy < k))
  | .begin (.setLimit _) => isFalse id
  | .act _ => isTrue trivial

section Indices
variable {p : Call → Bool} {calls : List Call} {i : Nat} {call next : Call}

theorem mem_indices : i ∈ indices p calls ↔ ∃ call, calls[i]? = some call ∧ p call = true := by
  simp only [indices, Finset.mem_filter, Finset.mem_range, List.getD_eq_getElem?_getD]
  constructor
  · rintro ⟨hlt, hp⟩
    exact ⟨calls[i], List.getElem?_eq_getElem hlt, by simpa [hlt] using hp⟩
  · rintro ⟨call, hcall, hp⟩
    obtain ⟨hlt, -⟩ := List.getElem?_eq_some_iff.mp hcall
    exact ⟨hlt, by simpa [hcall] using hp⟩

theorem indices_set (hcall : calls[i]? = some call) :
    indices p (calls.set i next) =
      if p next = true then insert i (indices p calls) else (indices p calls).erase i := by
  obtain ⟨hlt, -⟩ := List.getElem?_eq_some_iff.mp hcall
  apply Finset.ext
  intro j
  rw [mem_indices]
  by_cases hij : i = j
  · subst hij
    by_cases hp : p next = true <;> simp [hlt, hp]
  · have hne : j ≠ i := fun h => hij h.symm
    rw [List.getElem?_set_ne hij, ← mem_indices]
    split <;> simp [hne]

/-- Where a property of the call does not change, its calls do not. -/
theorem indices_set_same (hcall : calls[i]? = some call) (hsame : p next = p call) :
    indices p (calls.set i next) = indices p calls := by
  rw [indices_set hcall, hsame]
  by_cases hp : p call = true
  · rw [if_pos hp]
    exact Finset.insert_eq_of_mem (mem_indices.mpr ⟨call, hcall, hp⟩)
  · rw [if_neg hp]
    apply Finset.erase_eq_of_notMem
    intro hmem
    obtain ⟨other, hother, hpo⟩ := mem_indices.mp hmem
    rw [hcall] at hother
    exact hp (Option.some.inj hother ▸ hpo)

theorem indices_append_of_not (hp : p next = false) :
    indices p (calls ++ [next]) = indices p calls := by
  apply Finset.ext
  intro j
  rw [mem_indices, mem_indices]
  constructor
  · rintro ⟨call, hcall, hpc⟩
    rcases Nat.lt_or_ge j calls.length with hlt | hge
    · rw [List.getElem?_append_left hlt] at hcall
      exact ⟨call, hcall, hpc⟩
    · rw [List.getElem?_append_right hge] at hcall
      obtain rfl := List.mem_singleton.mp (List.mem_of_getElem? hcall)
      rw [hp] at hpc
      cases hpc
  · rintro ⟨call, hcall, hpc⟩
    obtain ⟨hlt, -⟩ := List.getElem?_eq_some_iff.mp hcall
    exact ⟨call, by rwa [List.getElem?_append_left hlt], hpc⟩

theorem card_indices_append_le :
    (indices p (calls ++ [next])).card ≤ (indices p calls).card + 1 := by
  have hsub : indices p (calls ++ [next]) ⊆ insert calls.length (indices p calls) := by
    intro j hj
    obtain ⟨call, hcall, hpc⟩ := mem_indices.mp hj
    rcases Nat.lt_trichotomy j calls.length with hlt | rfl | hgt
    · rw [List.getElem?_append_left hlt] at hcall
      exact Finset.mem_insert_of_mem (mem_indices.mpr ⟨call, hcall, hpc⟩)
    · exact Finset.mem_insert_self _ _
    · rw [List.getElem?_eq_none (by simpa using hgt)] at hcall
      cases hcall
  exact (Finset.card_le_card hsub).trans (Finset.card_insert_le _ _)

/-- A call in progress is due, or counted, or neither. -/
theorem card_due_add_counted (calls : List Call) :
    (indices Call.due calls).card + (indices Call.counted calls).card ≤
      (indices Call.inProgress calls).card := by
  have hdisjoint : Disjoint (indices Call.due calls) (indices Call.counted calls) := by
    apply Finset.disjoint_left.mpr
    intro j hdue hcounted
    obtain ⟨call, hcall, hd⟩ := mem_indices.mp hdue
    obtain ⟨other, hother, hc⟩ := mem_indices.mp hcounted
    obtain rfl : call = other := Option.some.inj (hcall.symm.trans hother)
    cases call with
    | consuming args stage => cases stage <;> simp [Call.due, Call.counted] at hd hc
    | _ => cases hd
  rw [← Finset.card_union_of_disjoint hdisjoint]
  apply Finset.card_le_card
  intro j hj
  rcases Finset.mem_union.mp hj with h | h
  all_goals
    obtain ⟨call, hcall, hp⟩ := mem_indices.mp h
    refine mem_indices.mpr ⟨call, hcall, ?_⟩
    cases call with
    | finished => cases hp
    | _ => rfl

end Indices

/-! ## What one action does -/

/-- What a comparison comes to at least, whatever it has still to load. -/
def Call.reads (quota : UserQuota) : Call → Nat
  | .comparing _ _ (.readDownload settled up) =>
    settled + quota.metering.bill up quota.hourDownload
  | _ => quota.spent

/-- A consume of at most `n` bytes in the hour of the bucket, which goes by the limit. -/
def Call.Sane (limit n : Nat) (quota : UserQuota) : Call → Prop
  | .consuming args stage =>
    args.n ≤ n ∧ args.hour = quota.bucketHour ∧
      stage ∈ [.readFlag, .readHour, .addTotal, .addBucket, .readLimit]
  | .storingLimit _ => False
  | .comparing caller bound stage =>
    caller = .tryConsume ∧ bound = limit ∧
      match stage with
      | .readSettled => True
      | .readUpload settled => settled = quota.settled
      | .readDownload settled up =>
        settled = quota.settled ∧
          ∀ down, quota.metering.bill up down ≤ quota.metering.bill quota.hourUpload down
  | .publishing caller _ exhausted _ =>
    caller = .tryConsume ∧ exhausted = true ∧ limit ≤ quota.spent
  | .finished => True

/-- The bucket, the limit and all that `used` loads are as they were. -/
structure SameCounters (quota after : UserQuota) : Prop where
  settled : after.settled = quota.settled
  upload : after.hourUpload = quota.hourUpload
  download : after.hourDownload = quota.hourDownload
  metering : after.metering = quota.metering
  hour : after.bucketHour = quota.bucketHour
  limit : after.rawLimit = quota.rawLimit

/-- What the next action of a sane call is, and what it leaves. -/
inductive Acts (limit n : Nat) (quota : UserQuota) : Call → UserQuota → Call → Prop where
  | steady {call next : Call} {after : UserQuota} (same : SameCounters quota after)
      (flag : after.exhaustedFlag = quota.exhaustedFlag)
      (channel : after.exhausted = quota.exhausted) (due : next.due = call.due)
      (counted : next.counted = call.counted) (busy : call.inProgress = true)
      (reads : call.reads quota ≤ next.reads after) (sane : next.Sane limit n after)
      (verdict : ∀ caller bound exhausted place,
        call ≠ .publishing caller bound exhausted place ∧
          next ≠ .publishing caller bound exhausted place) :
      Acts limit n quota call after next
  | entered (args : Consume) (flag : quota.exhaustedFlag = false) :
      Acts limit n quota (.consuming args .readFlag) quota (.consuming args .readHour)
  | refused (args : Consume) (flag : quota.exhaustedFlag = true) :
      Acts limit n quota (.consuming args .readFlag) quota .finished
  | counted (args : Consume) :
      Acts limit n quota (.consuming args .addBucket) (quota.addBucket args.n args.direction)
        (.consuming args .readLimit)
  | below (settled up : Nat)
      (hbelow : settled + quota.metering.bill up quota.hourDownload < limit) :
      Acts limit n quota (.comparing .tryConsume limit (.readDownload settled up)) quota .finished
  | reached (settled up : Nat) (hreached : limit ≤ quota.spent) :
      Acts limit n quota (.comparing .tryConsume limit (.readDownload settled up)) quota
        (.publishing .tryConsume limit true .flag)
  | storedFlag (bound : Nat) :
      Acts limit n quota (.publishing .tryConsume bound true .flag)
        { quota with exhaustedFlag := true } (.publishing .tryConsume bound true .channel)
  | storedChannel (bound : Nat) :
      Acts limit n quota (.publishing .tryConsume bound true .channel)
        { quota with exhausted := true } .finished

section Acts
variable {limit n : Nat} {quota after : UserQuota} {call : Call}

theorem SameCounters.rfl : SameCounters quota quota :=
  ⟨.refl _, .refl _, .refl _, .refl _, .refl _, .refl _⟩

theorem SameCounters.spent (h : SameCounters quota after) : after.spent = quota.spent := by
  unfold UserQuota.spent UserQuota.hourUsed
  rw [h.settled, h.upload, h.download, h.metering]

theorem SameCounters.reads (h : SameCounters quota after) (call : Call) :
    call.reads after = call.reads quota := by
  unfold Call.reads
  split
  · rw [h.download, h.metering]
  · exact h.spent

theorem SameCounters.sane (h : SameCounters quota after) (hsane : call.Sane limit n quota) :
    call.Sane limit n after := by
  cases call with
  | consuming args stage =>
    refine ⟨hsane.1, ?_, hsane.2.2⟩
    rw [h.hour]
    exact hsane.2.1
  | storingLimit _ => exact hsane
  | comparing caller bound stage =>
    refine ⟨hsane.1, hsane.2.1, ?_⟩
    cases stage with
    | readSettled => trivial
    | readUpload settled => exact hsane.2.2.trans h.settled.symm
    | readDownload settled up =>
      refine ⟨hsane.2.2.1.trans h.settled.symm, ?_⟩
      rw [h.metering, h.upload]
      exact hsane.2.2.2
  | publishing caller bound exhausted place =>
    refine ⟨hsane.1, hsane.2.1, ?_⟩
    rw [h.spent]
    exact hsane.2.2
  | finished => trivial

theorem reads_le_spent (hsane : call.Sane limit n quota) : call.reads quota ≤ quota.spent := by
  unfold Call.reads
  split
  · obtain ⟨-, -, rfl, hup⟩ := hsane
    exact Nat.add_le_add_left (hup _) _
  · exact le_rfl

/-- Counting keeps what the other calls hold. -/
theorem sane_addBucket {m : Nat} (hroom : quota.spent + m < noLimit) (direction : Direction)
    (hsane : call.Sane limit n quota) :
    call.Sane limit n (quota.addBucket m direction) ∧
      call.reads quota ≤ call.reads (quota.addBucket m direction) := by
  have hspent := UserQuota.spent_le_addBucket hroom direction
  have hbill := UserQuota.bill_addBucket hroom direction
  have hhour : (quota.addBucket m direction).bucketHour = quota.bucketHour := by
    cases direction <;> rfl
  cases call with
  | consuming args stage => exact ⟨⟨hsane.1, hsane.2.1.trans hhour.symm, hsane.2.2⟩, hspent⟩
  | storingLimit _ => exact ⟨hsane, hspent⟩
  | comparing caller bound stage =>
    cases stage with
    | readSettled => exact ⟨hsane, hspent⟩
    | readUpload settled =>
      refine ⟨⟨hsane.1, hsane.2.1, ?_⟩, hspent⟩
      rw [UserQuota.settled_addBucket]
      exact hsane.2.2
    | readDownload settled up =>
      refine ⟨⟨hsane.1, hsane.2.1, ?_, ?_⟩, ?_⟩
      · rw [UserQuota.settled_addBucket]
        exact hsane.2.2.1
      · intro down
        rw [UserQuota.metering_addBucket]
        exact (hsane.2.2.2 down).trans (hbill up down).1
      · simp only [Call.reads, UserQuota.metering_addBucket]
        exact Nat.add_le_add_left (hbill up 0).2 _
  | publishing caller bound exhausted place =>
    exact ⟨⟨hsane.1, hsane.2.1, hsane.2.2.trans hspent⟩, hspent⟩
  | finished => exact ⟨trivial, hspent⟩

theorem act_cases (hsane : call.Sane limit n quota) (hbusy : call ≠ .finished)
    (hlimit : quota.rawLimit = limit) (hset : limit ≠ noLimit) (hrange : quota.spent < 2 ^ 64) :
    Acts limit n quota call (act quota call).1 (act quota call).2 := by
  cases call with
  | consuming args stage =>
    obtain ⟨hn, hhour, hstage⟩ := hsane
    cases stage with
    | readFlag =>
      cases hflag : quota.exhaustedFlag with
      | true =>
        have hact : act quota (.consuming args .readFlag) = (quota, .finished) := by
          simp [act, consume, UserQuota.isExhausted, hflag]
        rw [hact]
        exact .refused args hflag
      | false =>
        have hact : act quota (.consuming args .readFlag) =
            (quota, .consuming args .readHour) := by
          simp [act, consume, UserQuota.isExhausted, hflag]
        rw [hact]
        exact .entered args hflag
    | readHour =>
      have hact : act quota (.consuming args .readHour) =
          (quota, .consuming args .addTotal) := by
        simp [act, consume, hhour]
      rw [hact]
      exact .steady .rfl rfl rfl rfl rfl rfl le_rfl ⟨hn, hhour, by decide⟩ (by simp)
    | addTotal =>
      have hsame : SameCounters quota (quota.addTotal args.n args.direction) := by
        cases args.direction <;> exact ⟨rfl, rfl, rfl, rfl, rfl, rfl⟩
      have hflags : (quota.addTotal args.n args.direction).exhaustedFlag = quota.exhaustedFlag ∧
          (quota.addTotal args.n args.direction).exhausted = quota.exhausted := by
        cases args.direction <;> exact ⟨rfl, rfl⟩
      exact .steady hsame hflags.1 hflags.2 rfl rfl rfl hsame.spent.ge
        ⟨hn, hhour.trans hsame.hour.symm, by decide⟩ (by simp [act, consume])
    | addBucket => exact .counted args
    | readLimit =>
      have hsome : quota.limit = some limit := by
        simp [UserQuota.limit, Option.filter, hlimit, hset]
      have hact : act quota (.consuming args .readLimit) =
          (quota, .comparing .tryConsume limit .readSettled) := by
        simp [act, consume, hsome]
      rw [hact]
      exact .steady .rfl rfl rfl rfl rfl rfl le_rfl ⟨rfl, rfl, trivial⟩ (by simp)
    | _ => simp at hstage
  | storingLimit _ => exact hsane.elim
  | comparing caller bound stage =>
    obtain ⟨rfl, rfl, hseen⟩ := hsane
    cases stage with
    | readSettled =>
      exact .steady .rfl rfl rfl rfl rfl rfl le_rfl ⟨rfl, rfl, rfl⟩ (by simp [act, compare])
    | readUpload settled =>
      obtain rfl : settled = quota.settled := hseen
      exact .steady .rfl rfl rfl rfl rfl rfl le_rfl ⟨rfl, rfl, rfl, fun _ => le_rfl⟩
        (by simp [act, compare])
    | readDownload settled up =>
      have hle : settled + quota.metering.bill up quota.hourDownload ≤ quota.spent := by
        rw [hseen.1]
        exact Nat.add_le_add_left (hseen.2 _) _
      have hwrap := wrap_of_lt (hle.trans_lt hrange)
      by_cases hreached : bound ≤ settled + quota.metering.bill up quota.hourDownload
      · have hact : act quota (.comparing .tryConsume bound (.readDownload settled up)) =
            (quota, .publishing .tryConsume bound true .flag) := by
          simp [act, compare, compared, hwrap, hreached]
        rw [hact]
        exact .reached settled up (hreached.trans hle)
      · have hact : act quota (.comparing .tryConsume bound (.readDownload settled up)) =
            (quota, .finished) := by
          simp [act, compare, compared, hwrap, hreached]
        rw [hact]
        exact .below settled up (not_le.mp hreached)
  | publishing caller bound exhausted place =>
    obtain ⟨rfl, rfl, -⟩ := hsane
    cases place with
    | flag => exact .storedFlag bound
    | channel => exact .storedChannel bound
  | finished => exact absurd rfl hbusy

/-- An action keeps the limit and what the other calls hold, and its own call stays sane. -/
theorem Acts.keeps {next : Call} (h : Acts limit n quota call after next)
    (hroom : ∀ args, call = .consuming args .addBucket → quota.spent + args.n < noLimit)
    (hsane : call.Sane limit n quota) :
    after.rawLimit = quota.rawLimit ∧ next.Sane limit n after ∧ quota.spent ≤ after.spent ∧
      ∀ other : Call, other.Sane limit n quota →
        other.Sane limit n after ∧ other.reads quota ≤ other.reads after := by
  have hsame : SameCounters quota after → next.Sane limit n after →
      after.rawLimit = quota.rawLimit ∧ next.Sane limit n after ∧ quota.spent ≤ after.spent ∧
        ∀ other : Call, other.Sane limit n quota →
          other.Sane limit n after ∧ other.reads quota ≤ other.reads after := by
    intro same hnext
    exact ⟨same.limit, hnext, same.spent.ge,
      fun other hother => ⟨same.sane hother, (same.reads other).ge⟩⟩
  cases h with
  | steady same flag channel due counted busy reads sane verdict => exact hsame same sane
  | entered args flag => exact hsame .rfl ⟨hsane.1, hsane.2.1, by decide⟩
  | refused args flag => exact hsame .rfl trivial
  | counted args =>
    have hkept : ∀ other : Call, other.Sane limit n quota →
        other.Sane limit n (quota.addBucket args.n args.direction) ∧
          other.reads quota ≤ other.reads (quota.addBucket args.n args.direction) :=
      fun other => sane_addBucket (hroom args rfl) args.direction
    refine ⟨?_, ⟨hsane.1, (hkept _ hsane).1.2.1, by decide⟩,
      UserQuota.spent_le_addBucket (hroom args rfl) _, hkept⟩
    cases args.direction <;> rfl
  | below settled up hbelow => exact hsame .rfl trivial
  | reached settled up hreached => exact hsame .rfl ⟨rfl, rfl, hreached⟩
  | storedFlag bound => exact hsame ⟨rfl, rfl, rfl, rfl, rfl, rfl⟩ hsane
  | storedChannel bound => exact hsame ⟨rfl, rfl, rfl, rfl, rfl, rfl⟩ trivial

end Acts

/-! ## What every run keeps -/

/-- What holds at every point of a run: the calls are sane, a stored verdict is right and on its
way to the channel, and what is spent is covered by the calls in progress until the flag is set
and by those past the flag from then on. -/
structure Crowded (limit n k : Nat) (shared : SharedQuota) : Prop where
  raw : shared.quota.rawLimit = limit
  sane : ∀ call ∈ shared.calls, call.Sane limit n shared.quota
  few : shared.busy ≤ k
  flagged : shared.quota.exhaustedFlag = true → limit ≤ shared.quota.spent
  channel : shared.quota.exhausted = true → shared.quota.exhaustedFlag = true
  stored : ∀ bound, .publishing .tryConsume bound true .channel ∈ shared.calls →
    shared.quota.exhaustedFlag = true
  told : shared.quota.exhaustedFlag = true → shared.quota.exhausted = true ∨
    ∃ bound, .publishing .tryConsume bound true .channel ∈ shared.calls
  closed : shared.quota.exhaustedFlag = true →
    shared.quota.spent + n * (indices Call.due shared.calls).card < limit + n * k
  opened : shared.quota.exhaustedFlag = false → ∃ floor ends, floor < limit ∧
    Climb.Covered n ⟨shared.quota.spent, floor, indices Call.counted shared.calls, ends⟩ ∧
    ∀ i call, shared.calls[i]? = some call → call.counted = true →
      ends i ≤ call.reads shared.quota

section Crowded
variable {limit n k : Nat} {shared next : SharedQuota}

theorem Crowded.spent_lt (h : shared.Crowded limit n k) :
    shared.quota.spent + n * (indices Call.due shared.calls).card < limit + n * k := by
  cases hflag : shared.quota.exhaustedFlag with
  | true => exact h.closed hflag
  | false =>
    obtain ⟨floor, ends, hfloor, hcovered, -⟩ := h.opened hflag
    have hlevel := hcovered.level_le
    have hcards := card_due_add_counted shared.calls
    calc shared.quota.spent + n * (indices Call.due shared.calls).card
        ≤ floor + n * (indices Call.counted shared.calls).card +
            n * (indices Call.due shared.calls).card := Nat.add_le_add_right hlevel _
      _ = floor + n * ((indices Call.due shared.calls).card +
            (indices Call.counted shared.calls).card) := by ring
      _ ≤ floor + n * k := by gcongr; exact hcards.trans h.few
      _ < limit + n * k := Nat.add_lt_add_right hfloor _

/-- What `set` leaves at an index: the new call, or another one where it was. -/
theorem getElem?_set_cases {calls : List Call} {i j : Nat} {after other : Call}
    (h : (calls.set i after)[j]? = some other) :
    (j = i ∧ other = after) ∨ (j ≠ i ∧ calls[j]? = some other) := by
  by_cases hji : j = i
  · left
    subst hji
    rw [List.getElem?_set_self'] at h
    obtain ⟨-, -, rfl⟩ := Option.map_eq_some_iff.mp h
    exact ⟨rfl, rfl⟩
  · right
    rw [List.getElem?_set_ne (fun h => hji h.symm)] at h
    exact ⟨hji, h⟩

section Act
variable {i : Nat} {call after : Call} {quota : UserQuota}
variable (h : shared.Crowded limit n k) (hcall : shared.calls[i]? = some call)
variable (hacts : Acts limit n shared.quota call quota after)
include h hcall hacts

theorem Crowded.busy_act : (indices Call.inProgress (shared.calls.set i after)).card ≤ k := by
  have hbusy : call.inProgress = true := by
    cases hacts with
    | steady same flag channel due counted busy reads sane verdict => exact busy
    | _ => rfl
  have hsub : indices Call.inProgress (shared.calls.set i after) ⊆
      indices Call.inProgress shared.calls := by
    rw [indices_set hcall]
    split
    · exact (Finset.insert_eq_of_mem (mem_indices.mpr ⟨call, hcall, hbusy⟩)).subset
    · exact Finset.erase_subset _ _
  exact (Finset.card_le_card hsub).trans h.few

/-- A verdict that is stored is right, and the flag is stored before the channel. -/
theorem Crowded.flags_act (hsane : call.Sane limit n shared.quota)
    (hspent : shared.quota.spent ≤ quota.spent) :
    (quota.exhaustedFlag = true → limit ≤ quota.spent) ∧
      (quota.exhausted = true → quota.exhaustedFlag = true) ∧
      ∀ bound, .publishing .tryConsume bound true .channel ∈ shared.calls.set i after →
        quota.exhaustedFlag = true := by
  have hmem := List.mem_of_getElem? hcall
  have hkept : ∀ bound, .publishing .tryConsume bound true .channel ∈ shared.calls.set i after →
      after ≠ .publishing .tryConsume bound true .channel →
        shared.quota.exhaustedFlag = true := by
    intro bound hbound hne
    rcases List.mem_or_eq_of_mem_set hbound with hold | heq
    · exact h.stored bound hold
    · exact absurd heq.symm hne
  cases hacts with
  | steady same flag channel due counted busy reads sane verdict =>
    rw [flag, channel]
    exact ⟨fun hflag => (h.flagged hflag).trans hspent, h.channel,
      fun bound hb => hkept bound hb (verdict _ _ _ _).2⟩
  | entered args flag => exact ⟨h.flagged, h.channel, fun bound hb => hkept bound hb (by simp)⟩
  | refused args flag => exact ⟨h.flagged, h.channel, fun bound hb => hkept bound hb (by simp)⟩
  | counted args =>
    rw [UserQuota.exhaustedFlag_addBucket, UserQuota.exhausted_addBucket]
    exact ⟨fun hflag => (h.flagged hflag).trans hspent, h.channel,
      fun bound hb => hkept bound hb (by simp)⟩
  | below settled up hbelow =>
    exact ⟨h.flagged, h.channel, fun bound hb => hkept bound hb (by simp)⟩
  | reached settled up hreached =>
    exact ⟨h.flagged, h.channel, fun bound hb => hkept bound hb (by simp)⟩
  | storedFlag bound => exact ⟨fun _ => hsane.2.2, fun _ => rfl, fun _ _ => rfl⟩
  | storedChannel bound =>
    have hflag := h.stored bound hmem
    exact ⟨h.flagged, fun _ => hflag, fun _ _ => hflag⟩

theorem Crowded.told_act (hflag : quota.exhaustedFlag = true) : quota.exhausted = true ∨
    ∃ bound, .publishing .tryConsume bound true .channel ∈ shared.calls.set i after := by
  have hkept : shared.quota.exhaustedFlag = true → quota.exhausted = shared.quota.exhausted →
      (∀ bound, call ≠ .publishing .tryConsume bound true .channel) →
      quota.exhausted = true ∨
        ∃ bound, .publishing .tryConsume bound true .channel ∈ shared.calls.set i after := by
    intro hstored hsame hother
    rcases h.told hstored with hchannel | ⟨bound, hbound⟩
    · exact Or.inl (hsame.trans hchannel)
    · right
      obtain ⟨j, hj⟩ := List.mem_iff_getElem?.mp hbound
      have hne : i ≠ j := by
        rintro rfl
        exact hother bound (Option.some.inj (hcall.symm.trans hj))
      exact ⟨bound, List.mem_iff_getElem?.mpr ⟨j, by rw [List.getElem?_set_ne hne, hj]⟩⟩
  obtain ⟨hlt, -⟩ := List.getElem?_eq_some_iff.mp hcall
  cases hacts with
  | steady same flag channel due counted busy reads sane verdict =>
    exact hkept (flag ▸ hflag) channel fun bound => (verdict _ _ _ _).1
  | entered args flag => exact hkept hflag rfl (by simp)
  | refused args flag => exact hkept hflag rfl (by simp)
  | counted args =>
    rw [UserQuota.exhaustedFlag_addBucket] at hflag
    exact hkept hflag (UserQuota.exhausted_addBucket _) (by simp)
  | below settled up hbelow => exact hkept hflag rfl (by simp)
  | reached settled up hreached => exact hkept hflag rfl (by simp)
  | storedFlag bound => exact Or.inr ⟨bound, List.mem_set hlt _⟩
  | storedChannel bound => exact Or.inl rfl

theorem Crowded.closed_act (hflag : quota.exhaustedFlag = true)
    (hsane : call.Sane limit n shared.quota) :
    quota.spent + n * (indices Call.due (shared.calls.set i after)).card < limit + n * k := by
  cases hacts with
  | steady same flag channel due counted busy reads sane verdict =>
    rw [indices_set_same hcall due, same.spent]
    exact h.closed (flag ▸ hflag)
  | entered args flag =>
    rw [flag] at hflag
    cases hflag
  | refused args flag =>
    rw [indices_set_same hcall (by rfl)]
    exact h.closed flag
  | counted args =>
    have hdue : i ∈ indices Call.due shared.calls := mem_indices.mpr ⟨_, hcall, rfl⟩
    have hcard := Finset.card_erase_add_one hdue
    have hle := shared.quota.spent_addBucket_le args.n args.direction
    have hold := h.spent_lt
    have hset : indices Call.due (shared.calls.set i (.consuming args .readLimit)) =
        (indices Call.due shared.calls).erase i := by
      rw [indices_set hcall, if_neg (by simp [Call.due])]
    rw [← hcard, Nat.mul_succ] at hold
    rw [hset]
    have hn := hsane.1
    omega
  | below settled up hbelow =>
    rw [indices_set_same hcall (by rfl)]
    exact h.closed hflag
  | reached settled up hreached =>
    rw [indices_set_same hcall (by rfl)]
    exact h.closed hflag
  | storedFlag bound =>
    rw [indices_set_same hcall (by rfl)]
    exact h.spent_lt
  | storedChannel bound =>
    rw [indices_set_same hcall (by rfl)]
    exact h.spent_lt

theorem Crowded.opened_act (hflag : quota.exhaustedFlag = false)
    (hsane : call.Sane limit n shared.quota)
    (hreads : ∀ other ∈ shared.calls, other.reads shared.quota ≤ other.reads quota) :
    ∃ floor ends, floor < limit ∧
      Climb.Covered n ⟨quota.spent, floor, indices Call.counted (shared.calls.set i after), ends⟩ ∧
      ∀ j other, (shared.calls.set i after)[j]? = some other → other.counted = true →
        ends j ≤ other.reads quota := by
  have hmem := List.mem_of_getElem? hcall
  -- where the action counts nothing, closes nothing and lowers no reading
  have hsame : shared.quota.exhaustedFlag = false → quota.spent = shared.quota.spent →
      after.counted = call.counted → call.reads shared.quota ≤ after.reads quota →
      ∃ floor ends, floor < limit ∧
        Climb.Covered n
          ⟨quota.spent, floor, indices Call.counted (shared.calls.set i after), ends⟩ ∧
        ∀ j other, (shared.calls.set i after)[j]? = some other → other.counted = true →
          ends j ≤ other.reads quota := by
    intro hoff hspent hcounted hown
    obtain ⟨floor, ends, hfloor, hcovered, hends⟩ := h.opened hoff
    refine ⟨floor, ends, hfloor, ?_, ?_⟩
    · rw [indices_set_same hcall hcounted, hspent]
      exact hcovered
    · intro j other hother hc
      rcases getElem?_set_cases hother with ⟨rfl, rfl⟩ | ⟨-, hold⟩
      · exact (hends j call hcall (hcounted ▸ hc)).trans hown
      · exact (hends j other hold hc).trans (hreads other (List.mem_of_getElem? hold))
  cases hacts with
  | steady same flag channel due counted busy reads sane verdict =>
    exact hsame (flag ▸ hflag) same.spent counted reads
  | entered args flag => exact hsame flag rfl rfl le_rfl
  | refused args flag =>
    rw [flag] at hflag
    cases hflag
  | counted args =>
    rw [UserQuota.exhaustedFlag_addBucket] at hflag
    obtain ⟨floor, ends, hfloor, hcovered, hends⟩ := h.opened hflag
    have hle := shared.quota.spent_addBucket_le args.n args.direction
    have hout : i ∉ indices Call.counted shared.calls := by
      intro hi
      obtain ⟨other, hother, hc⟩ := mem_indices.mp hi
      rw [hcall] at hother
      rw [← Option.some.inj hother] at hc
      cases hc
    have hset : indices Call.counted (shared.calls.set i (.consuming args .readLimit)) =
        insert i (indices Call.counted shared.calls) := by
      rw [indices_set hcall, if_pos (by rfl)]
    refine ⟨floor, Function.update ends i (shared.quota.addBucket args.n args.direction).spent,
      hfloor, ?_, ?_⟩
    · rw [hset]
      exact hcovered.raise hout (hle.trans (Nat.add_le_add_left hsane.1 _))
    · intro j other hother hc
      rcases getElem?_set_cases hother with ⟨rfl, rfl⟩ | ⟨hne, hold⟩
      · rw [Function.update_self]
        exact le_rfl
      · rw [Function.update_of_ne hne]
        exact (hends j other hold hc).trans (hreads other (List.mem_of_getElem? hold))
  | below settled up hbelow =>
    obtain ⟨floor, ends, hfloor, hcovered, hends⟩ := h.opened hflag
    have hend : ends i ≤ settled + shared.quota.metering.bill up shared.quota.hourDownload :=
      hends i _ hcall rfl
    have hset : indices Call.counted (shared.calls.set i .finished) =
        (indices Call.counted shared.calls).erase i := by
      rw [indices_set hcall, if_neg (by decide)]
    refine ⟨max floor (ends i), ends, max_lt hfloor (hend.trans_lt hbelow), ?_, ?_⟩
    · rw [hset]
      exact hcovered.close i
    · intro j other hother hc
      rcases getElem?_set_cases hother with ⟨rfl, rfl⟩ | ⟨-, hold⟩
      · cases hc
      · exact hends j other hold hc
  | reached settled up hreached => exact hsame hflag rfl rfl (reads_le_spent hsane)
  | storedFlag bound => cases hflag
  | storedChannel bound =>
    rw [h.stored bound hmem] at hflag
    cases hflag

end Act

/-- What the next action of one of the calls is. -/
theorem Crowded.acts (h : shared.Crowded limit n k) (hroom : limit + n * k < noLimit) {i : Nat}
    {call : Call} {holder : Option Nat} (hcall : shared.calls[i]? = some call)
    (hlock : lockAfter shared.holder i call = some holder) :
    Acts limit n shared.quota call (act shared.quota call).1 (act shared.quota call).2 := by
  have hbusy : call ≠ .finished := by
    rintro rfl
    cases hlock
  have hspent := h.spent_lt
  have hmax : noLimit < 2 ^ 64 := by decide
  exact act_cases (h.sane call (List.mem_of_getElem? hcall)) hbusy h.raw (by omega) (by omega)

/-- One action of a call keeps it all. -/
theorem Crowded.act (h : shared.Crowded limit n k) (hroom : limit + n * k < noLimit) {i : Nat}
    (hstep : shared.step (.act i) = some next) : next.Crowded limit n k := by
  obtain ⟨call, holder, hcall, hlock, rfl⟩ := act_eq hstep
  have hsane := h.sane call (List.mem_of_getElem? hcall)
  have hspent := h.spent_lt
  have hacts := h.acts hroom hcall hlock
  have hcount : ∀ args, call = .consuming args .addBucket →
      shared.quota.spent + args.n < noLimit := by
    rintro args rfl
    have hdue : 0 < (indices Call.due shared.calls).card :=
      Finset.card_pos.mpr ⟨i, mem_indices.mpr ⟨_, hcall, rfl⟩⟩
    have hn : args.n ≤ n * (indices Call.due shared.calls).card :=
      hsane.1.trans (Nat.le_mul_of_pos_right n hdue)
    omega
  obtain ⟨hraw, hown, hle, hothers⟩ := hacts.keeps hcount hsane
  obtain ⟨hflagged, hchannel, hstored⟩ := h.flags_act hcall hacts hsane hle
  refine ⟨hraw.trans h.raw, ?_, h.busy_act hcall hacts, hflagged, hchannel, hstored,
    h.told_act hcall hacts, fun hflag => h.closed_act hcall hacts hflag hsane,
    fun hflag => h.opened_act hcall hacts hflag hsane
      fun other hother => (hothers other (h.sane other hother)).2⟩
  intro other hother
  rcases List.mem_or_eq_of_mem_set hother with hold | rfl
  · exact (hothers other (h.sane other hold)).1
  · exact hown

/-- So does a consume that begins. -/
theorem Crowded.begin (h : shared.Crowded limit n k) {m : Nat} {direction : Direction} {hour : Int}
    (hadmits : shared.Crowd n k (.begin (.tryConsumeAt m direction hour)))
    (hstep : shared.step (.begin (.tryConsumeAt m direction hour)) = some next) :
    next.Crowded limit n k := by
  obtain rfl := Option.some.inj hstep
  obtain ⟨hn, hhour, hbusy⟩ := hadmits
  have hdue : indices Call.due (shared.calls ++ [(Request.tryConsumeAt m direction hour).call]) =
      indices Call.due shared.calls := indices_append_of_not rfl
  have hcounted :
      indices Call.counted (shared.calls ++ [(Request.tryConsumeAt m direction hour).call]) =
        indices Call.counted shared.calls := indices_append_of_not rfl
  refine ⟨h.raw, ?_, ?_, h.flagged, h.channel, ?_, ?_, ?_, ?_⟩
  · intro call hcall
    rcases List.mem_append.mp hcall with hold | hnew
    · exact h.sane call hold
    · rw [List.mem_singleton.mp hnew]
      exact ⟨hn, hhour, by decide⟩
  · exact card_indices_append_le.trans hbusy
  · intro bound hbound
    rcases List.mem_append.mp hbound with hold | hnew
    · exact h.stored bound hold
    · exact absurd (List.mem_singleton.mp hnew) (by simp [Request.call])
  · intro hflag
    rcases h.told hflag with hchannel | ⟨bound, hbound⟩
    · exact Or.inl hchannel
    · exact Or.inr ⟨bound, List.mem_append_left _ hbound⟩
  · intro hflag
    rw [hdue]
    exact h.closed hflag
  · intro hflag
    obtain ⟨floor, ends, hfloor, hcovered, hends⟩ := h.opened hflag
    refine ⟨floor, ends, hfloor, ?_, ?_⟩
    · rw [hcounted]
      exact hcovered
    · intro j call hcall hc
      rcases Nat.lt_or_ge j shared.calls.length with hlt | hge
      · rw [List.getElem?_append_left hlt] at hcall
        exact hends j call hcall hc
      · rw [List.getElem?_append_right hge] at hcall
        rw [List.mem_singleton.mp (List.mem_of_getElem? hcall)] at hc
        cases hc

theorem Crowded.runs (hroom : limit + n * k < noLimit) {run : List Action} {last : SharedQuota}
    (hrun : Runs (Crowd n k) shared run last) (h : shared.Crowded limit n k) :
    last.Crowded limit n k := by
  induction hrun with
  | nil shared => exact h
  | @cons shared next last action run hadmits hstep _ ih =>
    cases action with
    | begin request =>
      cases request with
      | tryConsumeAt m direction hour => exact ih (h.begin hadmits hstep)
      | setLimit limit => exact hadmits.elim
    | act i => exact ih (h.act hroom hstep)

end Crowded

/-- Before any call, a quota below its limit is not exhausted. -/
theorem Crowded.start {quota : UserQuota} {limit : Nat} (n k : Nat) (hhonest : quota.Honest)
    (hlimit : quota.limit = some limit) (hstart : quota.spent < limit)
    (hrange : limit ≤ noLimit) : Crowded limit n k { quota } := by
  have hmax : noLimit < 2 ^ 64 := by decide
  have hused := UserQuota.used_of_spent hstart (hrange.trans hmax.le)
  have hover : quota.overLimit = false := by
    rw [UserQuota.overLimit, hlimit, Option.any_some, hused]
    exact decide_eq_false (not_le.mpr hstart)
  have hflag : quota.exhaustedFlag = false := hhonest.flag.trans hover
  have hchannel : quota.exhausted = false := hhonest.channel.trans hflag
  have hraw : quota.rawLimit = limit := by
    have hsome := (Option.filter_eq_some_iff.mp hlimit).1
    exact Option.some.inj hsome
  refine ⟨hraw, by simp, Nat.zero_le k, ?_, ?_, by simp, ?_, ?_, ?_⟩
  · intro h
    cases hflag.symm.trans h
  · intro h
    cases hchannel.symm.trans h
  · intro h
    cases hflag.symm.trans h
  · intro h
    cases hflag.symm.trans h
  · intro _
    refine ⟨quota.spent, fun _ => 0, hstart, Climb.Covered.start n _ _, ?_⟩
    intro i call hcall
    cases hcall

section AtRest
variable {limit n k : Nat} {shared : SharedQuota}

theorem Crowded.used_eq (h : shared.Crowded limit n k) (hroom : limit + n * k < noLimit) :
    shared.quota.used = shared.quota.spent ∧ shared.quota.spent < limit + n * k := by
  have hmax : noLimit < 2 ^ 64 := by decide
  have hspent : shared.quota.spent < limit + n * k :=
    lt_of_le_of_lt (Nat.le_add_right _ _) h.spent_lt
  exact ⟨UserQuota.used_of_spent hspent (hroom.le.trans hmax.le), hspent⟩

/-- With no call in progress, flag and channel say exactly whether the limit has been reached. -/
theorem Crowded.at_rest (h : shared.Crowded limit n k) (hquiet : shared.Quiet) :
    shared.quota.isExhausted = decide (limit ≤ shared.quota.spent) ∧
      shared.quota.exhausted = decide (limit ≤ shared.quota.spent) := by
  cases hflag : shared.quota.isExhausted with
  | true =>
    have hchannel : shared.quota.exhausted = true := by
      rcases h.told hflag with hchannel | ⟨bound, hbound⟩
      · exact hchannel
      · cases hquiet _ hbound
    rw [hchannel, decide_eq_true (h.flagged hflag)]
    exact ⟨rfl, rfl⟩
  | false =>
    have hchannel : shared.quota.exhausted = false := by
      cases hc : shared.quota.exhausted with
      | false => rfl
      | true => cases hflag.symm.trans (h.channel hc)
    obtain ⟨floor, ends, hfloor, hcovered, -⟩ := h.opened hflag
    have hnone : indices Call.counted shared.calls = ∅ := by
      apply Finset.eq_empty_of_forall_notMem
      intro i hi
      obtain ⟨call, hcall, hc⟩ := mem_indices.mp hi
      rw [hquiet call (List.mem_of_getElem? hcall)] at hc
      cases hc
    have hlevel := hcovered.level_le
    rw [hnone, Finset.card_empty, Nat.mul_zero, Nat.add_zero] at hlevel
    rw [hchannel, decide_eq_false (not_le.mpr (lt_of_le_of_lt hlevel hfloor))]
    exact ⟨rfl, rfl⟩

end AtRest

/-- Within an hour and under one limit, any number of consumes of at most `n` bytes, at most `k` of
them at a time, in any order of their loads and stores: less than `n * k` bytes go beyond
what is left, no connection is refused before the limit is reached, and whenever no call
is in progress, flag and channel say exactly whether it has been. -/
theorem overshoot_lt {quota : UserQuota} {limit n k : Nat} (hhonest : quota.Honest)
    (hlimit : quota.limit = some limit) (hstart : quota.spent < limit)
    (hroom : limit + n * k < noLimit) {run : List Action} {last : SharedQuota}
    (hrun : Runs (Crowd n k) { quota } run last) :
    last.quota.used < limit + n * k ∧
      (last.quota.isExhausted = true → limit ≤ last.quota.used) ∧
      (last.Quiet → last.quota.isExhausted = decide (limit ≤ last.quota.used) ∧
        last.quota.exhausted = decide (limit ≤ last.quota.used)) := by
  have hlast := (Crowded.start n k hhonest hlimit hstart (by omega)).runs hroom hrun
  obtain ⟨hused, hspent⟩ := hlast.used_eq hroom
  rw [hused]
  exact ⟨hspent, hlast.flagged, hlast.at_rest⟩

/-- Two consumes pass the flag before either has counted, 11 bytes past a limit of 4. -/
def bothPass : List Action :=
  [.begin (.tryConsumeAt 8 .upload 5), .begin (.tryConsumeAt 7 .download 5), .act 0, .act 1] ++
    List.replicate 9 (.act 0) ++ List.replicate 9 (.act 1)

theorem overshoot_lt_bothPass : ∃ last,
    Runs (Crowd 8 2) { quota := .newMeteredAt "a" (some 4) {} .sum 5 } bothPass last ∧
      last.quota.used = 15 ∧ last.quota.used < 4 + 8 * 2 ∧ last.quota.exhausted = true := by
  have hreplay : (replay (fun shared action => decide (shared.Crowd 8 2 action))
      { quota := .newMeteredAt "a" (some 4) {} .sum 5 } bothPass).any
      (fun last => last.Quiet ∧ last.quota.used = 15) = true := by
    decide +kernel
  obtain ⟨last, hlast, hends⟩ := Option.any_eq_true _ _ |>.mp hreplay
  obtain ⟨hquiet, hused⟩ := of_decide_eq_true hends
  have hrun := (runs_of_replay hlast).mono fun _ _ hadmits => of_decide_eq_true hadmits
  obtain ⟨hlt, -, hrest⟩ := overshoot_lt
    (UserQuota.honest_new "a" {} .sum 5 (show some 4 ≠ some noLimit by decide))
    (show _ = some 4 by decide) (by decide) (by decide) hrun
  obtain ⟨-, hchannel⟩ := hrest hquiet
  refine ⟨last, hrun, hused, hlt, ?_⟩
  rw [hchannel, hused]
  rfl

/-! ## The bound is reached -/

theorem Runs.append {Admits : SharedQuota → Action → Prop} {run more : List Action}
    {shared middle last : SharedQuota} (h : Runs Admits shared run middle)
    (hmore : Runs Admits middle more last) : Runs Admits shared (run ++ more) last := by
  induction h with
  | nil shared => exact hmore
  | cons hadmits hstep _ ih => exact .cons hadmits hstep (ih hmore)

/-- A consume that has counted and compared nothing yet. -/
def countOnly (n j : Nat) : List Action :=
  [.begin (.tryConsumeAt n .upload 0), .act j, .act j, .act j, .act j]

theorem busy_le (shared : SharedQuota) : shared.busy ≤ shared.calls.length :=
  (Finset.card_filter_le _ _).trans (Finset.card_range _).le

theorem runs_countOnly {n k : Nat} {shared : SharedQuota} (hbusy : shared.busy < k)
    (hflag : shared.quota.exhaustedFlag = false) (hhour : shared.quota.bucketHour = 0) :
    Runs (Crowd n k) shared (countOnly n shared.calls.length)
      { shared with
        quota := shared.quota.count n .upload
        calls := shared.calls ++ [.consuming ⟨n, .upload, 0⟩ .readLimit] } := by
  refine .cons ⟨le_rfl, hhour.symm, hbusy⟩ (by rfl) ?_
  have hact : ∀ (quota after : UserQuota) (stage next : ConsumeAt),
      act quota (.consuming ⟨n, .upload, 0⟩ stage) = (after, .consuming ⟨n, .upload, 0⟩ next) →
      lockAfter shared.holder shared.calls.length (.consuming ⟨n, .upload, 0⟩ stage) =
        some shared.holder →
      step ⟨quota, shared.holder, shared.calls ++ [.consuming ⟨n, .upload, 0⟩ stage]⟩
          (.act shared.calls.length) =
        some ⟨after, shared.holder, shared.calls ++ [.consuming ⟨n, .upload, 0⟩ next]⟩ := by
    intro quota after stage next hact hlock
    simp [step, hact, hlock]
  refine .cons trivial (hact _ shared.quota .readFlag .readHour ?_ rfl) ?_
  · simp [act, consume, UserQuota.isExhausted, hflag]
  refine .cons trivial (hact _ shared.quota .readHour .addTotal ?_ rfl) ?_
  · simp [act, consume, hhour]
  refine .cons trivial (hact _ (shared.quota.addTotal n .upload) .addTotal .addBucket rfl rfl) ?_
  exact .cons trivial (hact _ _ .addBucket .readLimit rfl rfl) (.nil _)

/-- Where all `k` calls pass the flag one byte below the limit, all but one of their bytes go
beyond it. -/
theorem overshoot_reached (name : String) {limit n k : Nat} (hlimit : 0 < limit)
    (hroom : limit + n * k < noLimit) : ∃ run last,
    Runs (Crowd n k)
        { quota := .newMeteredAt name (some limit) { settled := limit - 1 } .sum 0 } run last ∧
      last.quota.used + 1 = limit + n * k := by
  have hmax : noLimit < 2 ^ 64 := by decide
  have hrounds : ∀ j ≤ k, ∃ run last,
      Runs (Crowd n k)
        { quota := .newMeteredAt name (some limit) { settled := limit - 1 } .sum 0 } run last ∧
      last.calls.length = j ∧ last.quota.exhaustedFlag = false ∧ last.quota.bucketHour = 0 ∧
      last.quota.metering = .sum ∧ last.quota.settled = limit - 1 ∧
      last.quota.hourUpload = n * j ∧ last.quota.hourDownload = 0 := by
    intro j
    induction j with
    | zero =>
      intro _
      have hsettled : wrap 64 (limit - 1 + clamp 64 (0 + 0)) = limit - 1 := by
        rw [clamp_of_lt (by decide)]
        exact wrap_of_lt (by omega)
      refine ⟨[], _, .nil _, rfl, ?_, rfl, rfl, rfl, rfl, rfl⟩
      change decide (limit ≤ wrap 64 (limit - 1 + clamp 64 (0 + 0))) = false
      rw [hsettled]
      exact decide_eq_false (by omega)
    | succ j ih =>
      intro hj
      obtain ⟨run, last, hrun, hlength, hflag, hhour, hmetering, hsettled, hup, hdown⟩ :=
        ih (Nat.le_of_succ_le hj)
      have hbusy : last.busy < k := (hlength ▸ last.busy_le).trans_lt hj
      refine ⟨_, _, hrun.append (runs_countOnly hbusy hflag hhour), ?_, hflag, hhour, hmetering,
        hsettled, ?_, hdown⟩
      · rw [List.length_append, List.length_singleton, hlength]
      · have hle : n * (j + 1) ≤ n * k := Nat.mul_le_mul_left n hj
        change wrap 64 (last.quota.hourUpload + n) = n * (j + 1)
        rw [hup, ← Nat.mul_add_one]
        exact wrap_of_lt (by omega)
  obtain ⟨run, last, hrun, -, -, -, hmetering, hsettled, hup, hdown⟩ := hrounds k le_rfl
  refine ⟨run, last, hrun, ?_⟩
  have hbill : clamp 64 (n * k + 0) = n * k := clamp_of_lt (by omega)
  have hused : wrap 64 (limit - 1 + n * k) = limit - 1 + n * k := wrap_of_lt (by omega)
  rw [UserQuota.used, UserQuota.hourUsed, hmetering, hsettled, hup, hdown, Metering.bill, hbill,
    hused]
  omega

end SharedQuota

end PortsBox
