import PortsBox.EngineLimits
import PortsBox.LedgerBaselines
import PortsBox.ProcessCore

/-!
# No usage below its baseline

The book holds baselines, the quotas hold usage, and the two are stored apart. What
keeps every published user's usage at or above its baseline, in the book and in the
one being saved: a sync reads both at once, traffic and the hour only raise usage,
and `apply` has to set a user up with usage that bills at least the baseline.
-/

set_option autoImplicit false

namespace PortsBox

open Word

/-! ## Usage that is taken over -/

/-- What usage counts as under a metering. -/
def SavedUsage.billedUnder (saved : SavedUsage) (metering : Metering) : Nat :=
  wrap 64 (saved.settled + metering.bill saved.hourUpload saved.hourDownload)

theorem bill_zero (metering : Metering) : metering.bill 0 0 = 0 := by
  cases metering <;> rfl

theorem used_newMeteredAt (name : String) (limit : Option Nat) (saved : SavedUsage)
    (metering : Metering) (hour : Int) :
    (UserQuota.newMeteredAt name limit saved metering hour).used =
      saved.billedUnder metering := by
  unfold UserQuota.newMeteredAt UserQuota.used UserQuota.hourUsed UserQuota.metering
    SavedUsage.billedUnder
  dsimp only
  rw [meteringFrom_meteringCode]
  split
  · rfl
  · rw [bill_zero, Nat.add_zero, wrap_of_lt (wrap_lt 64 _)]

theorem used_setMetering (quota : UserQuota) (metering : Metering) :
    (quota.setMetering metering).used = quota.snapshot.billedUnder metering := by
  have hused : ({ quota with rawMetering := meteringCode metering } : UserQuota).used =
      quota.snapshot.billedUnder metering := by
    unfold UserQuota.used UserQuota.hourUsed UserQuota.metering SavedUsage.billedUnder
    dsimp only
    rw [meteringFrom_meteringCode]
    rfl
  unfold UserQuota.setMetering
  dsimp only
  split
  · exact hused
  · exact hused

theorem used_eq_billedUnder (quota : UserQuota) :
    quota.used = quota.snapshot.billedUnder quota.metering := rfl

theorem Settings.used_setLimit (settings : Settings) (name : String) (quota : UserQuota) :
    (settings.setLimit name quota).used = quota.used :=
  (quota.setLimit_if_ne (settings.limitOf name quota)).2

theorem Settings.used_retune (settings : Settings) (name : String) (quota : UserQuota) :
    (settings.retune name quota).used = quota.snapshot.billedUnder settings.metering := by
  unfold Settings.retune
  rw [Settings.used_setLimit]
  by_cases h : quota.metering ≠ settings.metering
  · rw [if_pos h, used_setMetering]
  · rw [if_neg h, used_eq_billedUnder, not_not.mp h]

theorem Settings.used_create (settings : Settings) (name : String) (hour : Int) :
    (settings.create name hour).used =
      ((settings.saved[name]?).getD {}).billedUnder settings.metering := by
  unfold Settings.create
  rw [Settings.used_setLimit, used_newMeteredAt]

namespace System

/-- What a user that `apply` sets up starts from: the counters it has, the saved ones, or
none. -/
def takenOver (s : System) (settings : Settings) (name : String) : SavedUsage :=
  match getUser s.world.runtime.users name with
  | some ref => (s.world.quotas ref.id).snapshot
  | none => (settings.saved[name]?).getD {}

/-- The usage of an adopted user is what it takes over, billed under the new metering. -/
theorem adoptUser_used (s : System) (env : Env) (settings : Settings) (user : UserConfig) :
    ∃ ref quota next,
      adoptUser env settings s.world.runtime.users s.world user =
        (ref, { s.world with quotas := Function.update s.world.quotas ref.id quota, next }) ∧
      quota.used = (s.takenOver settings user.name).billedUnder settings.metering ∧
      ref.name = user.name ∧
      ((getUser s.world.runtime.users user.name = some ref ∧ next = s.world.next) ∨
        (getUser s.world.runtime.users user.name = none ∧ ref.id = s.world.next ∧
          next = s.world.next + 1)) := by
  obtain ⟨ref, quota, next, hadopt, hname, hcases⟩ :=
    adoptUser_eq env settings s.world.runtime.users s.world user
  refine ⟨ref, quota, next, hadopt, ?_, hname, ?_⟩
  · unfold takenOver
    rcases hcases with ⟨hfound, -, rfl⟩ | ⟨hnone, -, -, rfl⟩
    · rw [hfound]
      exact settings.used_retune _ _
    · rw [hnone]
      exact settings.used_create _ _
  · rcases hcases with ⟨hfound, hnext, -⟩ | ⟨hnone, hid, hnext, -⟩
    · exact .inl ⟨hfound, hnext⟩
    · exact .inr ⟨hnone, hid, hnext⟩

/-! ## The books in play -/

/-- The book, and the one being saved. -/
def books (s : System) : List Book :=
  match s.engine with
  | .saving _ book => [s.book, book]
  | _ => [s.book]

theorem book_mem_books (s : System) : s.book ∈ s.books := by
  unfold books
  split <;> exact List.mem_cons_self

/-- A user's usage is not below its baseline in either book. -/
def Floor (s : System) (ref : QuotaRef) : Prop :=
  ∀ book ∈ s.books, ∀ baseline, book.baselines[ref.name]? = some baseline →
    baseline ≤ (s.world.quotas ref.id).used

/-- The users that an `apply` under way has set up. -/
def adopted (s : System) : List QuotaRef :=
  match s.main with
  | .adopting _ _ _ _ _ done _ => done
  | _ => []

/-- Every config in play has remote accounting active. -/
def Active (s : System) : Prop :=
  s.live.accounting.activeRemote.isSome = true ∧
    match s.main with
    | .idle => True
    | .applied config => config.accounting.activeRemote.isSome = true
    | .adopting _ config _ _ _ _ _ => config.accounting.activeRemote.isSome = true

end System

/-- No limit of the book is the value that means unlimited, and its balances fit. -/
structure Book.Plain (book : Book) : Prop where
  limits : ∀ name limit, book.limit name = some limit → limit < noLimit
  balances : Book.InWord book.balances

namespace System

/-- A book that an operation makes of the current one. -/
structure Changed (s : System) (config : Config) (book : Book) : Prop where
  baselines : Book.Rebased (members s.world config) s.book.baselines book.baselines
  balances : Book.InWord book.balances

structure Floors (s : System) : Prop where
  names : (s.world.runtime.users.map QuotaRef.name).Nodup
  published : ∀ ref ∈ s.world.runtime.users, s.Floor ref
  adopted : ∀ ref ∈ s.adopted, s.Floor ref ∧
    (getUser s.world.runtime.users ref.name = some ref ∨
      getUser s.world.runtime.users ref.name = none)
  plain : s.book.Plain
  balances : ∀ book ∈ s.books, Book.InWord book.balances

variable {s next : System}

theorem mem_members {w : World} {config : Config} {member : Member}
    (h : member ∈ members w config) :
    ∃ ref, getUser w.runtime.users member.name = some ref ∧
      member.used = (w.quotas ref.id).used := by
  unfold members at h
  obtain ⟨ref, href, rfl⟩ := List.mem_map.mp h
  obtain ⟨user, -, hfound⟩ := List.mem_filterMap.mp href
  refine ⟨ref, ?_, rfl⟩
  rw [(getUser_name hfound).2]
  exact hfound

/-- A new book has a published user's own usage as its baseline, or the baseline it had. -/
theorem Changed.floor {config : Config} {book : Book} (h : s.Changed config book) {ref : QuotaRef}
    (hfloor : s.Floor ref)
    (hfound : getUser s.world.runtime.users ref.name = some ref ∨
      getUser s.world.runtime.users ref.name = none)
    (baseline : Nat) (hbaseline : book.baselines[ref.name]? = some baseline) :
    baseline ≤ (s.world.quotas ref.id).used := by
  rcases h.baselines ref.name baseline hbaseline with ⟨member, hmem, hname, rfl⟩ | hbefore
  · obtain ⟨other, hother, hused⟩ := mem_members hmem
    rw [hname] at hother
    rcases hfound with hfound | hfound
    · obtain rfl := Option.some.inj (hfound.symm.trans hother)
      exact hused.le
    · rw [hfound] at hother
      cases hother
  · exact hfloor s.book (book_mem_books s) baseline hbefore

/-- Steps that keep the users and lower no usage, with the books they had or a new one. -/
theorem Floors.of_books (h : s.Floors) (config : Config)
    (husers : next.world.runtime.users = s.world.runtime.users)
    (hadopted : next.adopted = s.adopted)
    (hused : ∀ id, (s.world.quotas id).used ≤ (next.world.quotas id).used)
    (hplain : next.book.Plain)
    (hbooks : ∀ book ∈ next.books, book ∈ s.books ∨ s.Changed config book) : next.Floors := by
  have hfloor : ∀ ref, s.Floor ref → (getUser s.world.runtime.users ref.name = some ref ∨
      getUser s.world.runtime.users ref.name = none) → next.Floor ref := by
    intro ref href hfound book hbook baseline hbaseline
    refine le_trans ?_ (hused ref.id)
    rcases hbooks book hbook with hold | hchanged
    · exact href book hold baseline hbaseline
    · exact hchanged.floor href hfound baseline hbaseline
  refine ⟨?_, ?_, ?_, hplain, ?_⟩
  · rw [husers]
    exact h.names
  · rw [husers]
    intro ref hmem
    exact hfloor ref (h.published ref hmem) (.inl (getUser_of_mem h.names hmem))
  · rw [husers, hadopted]
    intro ref hmem
    obtain ⟨href, hfound⟩ := h.adopted ref hmem
    exact ⟨hfloor ref href hfound, hfound⟩
  · intro book hbook
    rcases hbooks book hbook with hold | hchanged
    · exact h.balances book hold
    · exact hchanged.balances

/-! ## Steps of the engine -/

theorem runOrder_changed {book after : Book} {members : List Member} {now : Int} {order : Order}
    (h : runOrder book members now order = some after) :
    Book.Rebased members book.baselines after.baselines ∧
      (Book.InWord book.balances → Book.InWord after.balances) := by
  cases order with
  | transfer sender receiver amount =>
    dsimp only [runOrder] at h
    split at h
    · rename_i moved entries hmoved
      obtain rfl := Option.some.inj h
      exact ⟨Book.transfer_rebased hmoved, fun hword => Book.inWord_transfer hword hmoved⟩
    · cases h
  | allocate receiver amount =>
    dsimp only [runOrder] at h
    split at h
    · rename_i moved entries hmoved
      obtain rfl := Option.some.inj h
      exact ⟨Book.allocate_rebased hmoved, fun hword => Book.inWord_allocate hword hmoved⟩
    · cases h

/-- A book that the engine starts to save was made of the current one. -/
theorem saving_after {step : EngineStep} (h : s.engineStep step = some next) {config : Config}
    {book : Book} (hsaving : next.engine = .saving config book) :
    next.book = s.book ∧ Book.Rebased (members s.world config) s.book.baselines book.baselines ∧
      (Book.InWord s.book.balances → Book.InWord book.balances) := by
  cases step with
  | fetched result now =>
    unfold engineStep at h
    cases hengine : s.engine with
    | fetching captured =>
      rw [hengine] at h
      cases result with
      | error e =>
        obtain rfl := Option.some.inj h
        cases hsaving
      | ok fetched =>
        dsimp only at h
        split at h
        · obtain rfl := Option.some.inj h
          cases hsaving
        · obtain rfl := Option.some.inj h
          cases hsaving
          exact ⟨rfl, s.book.reconcile_rebased ⟨_, _, _, _⟩,
            fun hword => Book.inWord_sync hword ⟨_, _, _, _⟩⟩
    | _ => simp [hengine] at h
  | compute now =>
    unfold engineStep at h
    cases hengine : s.engine with
    | ordering captured order =>
      rw [hengine] at h
      dsimp only at h
      split at h
      · rename_i changed hrun
        obtain rfl := Option.some.inj h
        cases hsaving
        exact ⟨rfl, runOrder_changed hrun⟩
      · obtain rfl := Option.some.inj h
        cases hsaving
    | _ => simp [hengine] at h
  | _ =>
    unfold engineStep at h
    grind

/-- Only a successful save changes the book. -/
theorem book_after {step : EngineStep} (h : s.engineStep step = some next) :
    next.book = s.book ∨ (step = .saved true ∧ ∃ config, s.engine = .saving config next.book) := by
  cases step with
  | saved ok =>
    unfold engineStep at h
    cases hengine : s.engine with
    | saving config book =>
      rw [hengine] at h
      cases ok with
      | true =>
        obtain rfl := Option.some.inj h
        exact .inr ⟨rfl, config, rfl⟩
      | false =>
        dsimp only at h
        grind
    | _ => simp [hengine] at h
  | _ =>
    unfold engineStep at h
    grind

/-- An engine step changes no user, no main loop and no usage. -/
theorem engineStep_frame {step : EngineStep} (h : s.engineStep step = some next) :
    next.world.runtime.users = s.world.runtime.users ∧ next.main = s.main ∧
      next.live = s.live ∧ ∀ id, (next.world.quotas id).used = (s.world.quotas id).used := by
  rcases engineStep_cases h with
    ⟨-, engine, rfl, -⟩ | ⟨config, book, -, rfl⟩ | ⟨-, rfl⟩ | ⟨-, rfl⟩ | ⟨config, -, -, rfl⟩ |
    ⟨config, -, -, rfl⟩ | ⟨-, rfl⟩ | ⟨-, rfl⟩ | ⟨-, ref, todo, -, rfl⟩
  case inr.inr.inr.inr.inr.inr.inr.inr =>
    refine ⟨rfl, rfl, rfl, ?_⟩
    intro id
    change (Function.update s.world.quotas ref.id _ id).used = _
    by_cases heq : id = ref.id
    · rw [heq, Function.update_self]
      exact (limited_spec s.book ref.name _).2
    · rw [Function.update_of_ne heq]
  all_goals exact ⟨rfl, rfl, rfl, fun _ => rfl⟩

theorem Floors.engineStep (h : s.Floors) {step : EngineStep}
    (hlimits : step = .saved true → ∀ config book, s.engine = .saving config book →
      ∀ name limit, book.limit name = some limit → limit < noLimit)
    (hstep : s.engineStep step = some next) : next.Floors := by
  obtain ⟨husers, hmain, -, hused⟩ := engineStep_frame hstep
  have hadopted : next.adopted = s.adopted := by
    unfold System.adopted
    rw [hmain]
  have hkept : next.book ∈ s.books := by
    rcases book_after hstep with hsame | ⟨-, config, hsaving⟩
    · rw [hsame]
      exact book_mem_books s
    · simp [books, hsaving]
  have hplain : next.book.Plain := by
    rcases book_after hstep with hsame | ⟨hstep, config, hsaving⟩
    · rw [hsame]
      exact h.plain
    · exact ⟨hlimits hstep config next.book hsaving, h.balances next.book hkept⟩
  cases hengine : next.engine with
  | saving config book =>
    obtain ⟨hsame, hrebased, hword⟩ := saving_after hstep hengine
    refine h.of_books config husers hadopted (fun id => (hused id).ge) hplain ?_
    intro other hother
    simp only [books, hengine, hsame, List.mem_cons, List.not_mem_nil, or_false] at hother
    rcases hother with rfl | rfl
    · exact .inl (book_mem_books s)
    · exact .inr ⟨hrebased, hword h.plain.balances⟩
  | _ =>
    refine h.of_books s.live husers hadopted (fun id => (hused id).ge) hplain ?_
    intro other hother
    simp only [books, hengine, List.mem_singleton] at hother
    exact .inl (hother ▸ hkept)

/-! ## Traffic -/

theorem Floors.trafficStep (h : s.Floors) {step : TrafficStep}
    (hallowed : s.Timely (.traffic step)) : (s.trafficStep step).Floors := by
  have hone : ∀ (id : Nat) (quota : UserQuota), (s.world.quotas id).used ≤ quota.used →
      Floors { s with world := s.world.setQuota id quota } := by
    intro id quota hused
    refine h.of_books s.live rfl rfl ?_ h.plain (fun book hbook => .inl hbook)
    intro other
    change _ ≤ (Function.update s.world.quotas id quota other).used
    by_cases heq : other = id
    · rw [heq, Function.update_self]
      exact hused
    · rw [Function.update_of_ne heq]
  cases step with
  | tryConsumeAt id n direction hour =>
    exact hone id _ (UserQuota.used_le_tryConsumeAt hallowed direction hour)
  | rollOverAt id hour =>
    exact hone id _ ((s.world.quotas id).used_rollOverAt hour).ge

/-! ## Steps of the main loop -/

/-- The user set up next takes over usage that bills its baseline. -/
def TakesOverEnough (s : System) : Prop :=
  ∀ env config settings removed added done user todo,
    s.main = .adopting env config settings removed added done (user :: todo) →
    ∀ book ∈ s.books, ∀ baseline, book.baselines[user.name]? = some baseline →
      baseline ≤ (s.takenOver settings user.name).billedUnder settings.metering

theorem Floors.adopt (h : s.Floors) (hinv : s.Inv) (henough : s.TakesOverEnough) {env : Env}
    {config : Config} {settings : Settings} {removed : List RuleSpec}
    {added : List PreparedRule} {done : List QuotaRef} {user : UserConfig}
    {todo : List UserConfig}
    (hmain : s.main = .adopting env config settings removed added done (user :: todo))
    (hnext : next = { s with
      world := (adoptUser env settings s.world.runtime.users s.world user).2
      main := .adopting env config settings removed added
        (done ++ [(adoptUser env settings s.world.runtime.users s.world user).1]) todo }) :
    next.Floors := by
  obtain ⟨ref, quota, fresh, hadopt, hused, hname, hid⟩ := s.adoptUser_used env settings user
  rw [hadopt] at hnext
  subst hnext
  have hadopting : s.Adopting config settings done (user :: todo) := by
    have hmainInv := hinv.main
    unfold MainInv at hmainInv
    rwa [hmain] at hmainInv
  have hdone : ∀ other ∈ done, s.Floor other ∧ (getUser s.world.runtime.users other.name =
      some other ∨ getUser s.world.runtime.users other.name = none) := by
    intro other hother
    apply h.adopted other
    unfold System.adopted
    rwa [hmain]
  -- the object that changes is this user's alone
  have hsame : ∀ other, other ∈ s.world.runtime.users ∨ other ∈ done → other.id = ref.id →
      other = ref := by
    intro other hother heq
    rcases hid with ⟨hfound, -⟩ | ⟨-, hnew, -⟩
    · have hmem := (getUser_name hfound).1
      rcases hother with hother | hother
      · exact List.inj_on_of_nodup_map hinv.distinct.nodup hother hmem heq
      · rcases hadopting.known other hother with hkept | hfree
        · exact List.inj_on_of_nodup_map hinv.distinct.nodup hkept hmem heq
        · exact absurd (heq ▸ List.mem_map_of_mem hmem) hfree
    · rcases hother with hother | hother
      · have hlt := hinv.distinct.fresh other hother
        omega
      · have hlt := hadopting.distinct.fresh other hother
        omega
  have hfloor : ∀ other, (other ∈ s.world.runtime.users ∨ other ∈ done) ∧ s.Floor other ∨
      other = ref → ∀ book ∈ s.books, ∀ baseline, book.baselines[other.name]? = some baseline →
        baseline ≤ (Function.update s.world.quotas ref.id quota other.id).used := by
    intro other hother book hbook baseline hbaseline
    by_cases heq : other.id = ref.id
    · have hother : other = ref := by
        rcases hother with ⟨hmem, -⟩ | hsame
        · exact hsame other hmem heq
        · exact hsame
      rw [heq, Function.update_self, hused]
      apply henough env config settings removed added done user todo hmain book hbook
      rw [← hname, ← hother]
      exact hbaseline
    · rw [Function.update_of_ne heq]
      rcases hother with ⟨-, hold⟩ | rfl
      · exact hold book hbook baseline hbaseline
      · exact absurd rfl heq
  refine ⟨h.names, ?_, ?_, h.plain, h.balances⟩
  · intro other hother
    exact hfloor other (.inl ⟨.inl hother, h.published other hother⟩)
  · intro other hother
    rcases List.mem_append.mp hother with hold | hlast
    · exact ⟨hfloor other (.inl ⟨.inr hold, (hdone other hold).1⟩), (hdone other hold).2⟩
    · obtain rfl := List.mem_singleton.mp hlast
      refine ⟨hfloor other (.inr rfl), ?_⟩
      rw [hname]
      rcases hid with ⟨hfound, -⟩ | ⟨hfound, -⟩
      · exact .inl hfound
      · exact .inr hfound

/-- While users are left to set up, setting one up is the only step. -/
theorem adopt_of_todo {step : MainStep} {env : Env} {config : Config} {settings : Settings}
    {removed : List RuleSpec} {added : List PreparedRule} {done : List QuotaRef}
    {user : UserConfig} {todo : List UserConfig}
    (hmain : s.main = .adopting env config settings removed added done (user :: todo))
    (hstep : s.mainStep step = some next) : step = .adopt := by
  cases step with
  | adopt => rfl
  | publishUsers =>
    unfold mainStep at hstep
    rw [hmain] at hstep
    cases hengine : s.engine <;> simp [hengine] at hstep
  | _ => simp [mainStep, hmain] at hstep

theorem Floors.mainStep (h : s.Floors) (hinv : s.Inv) {step : MainStep}
    (henough : step = .adopt → s.TakesOverEnough) (hstep : s.mainStep step = some next) :
    next.Floors := by
  rcases mainStep_cases hstep with ⟨hmain, binds, rfl⟩ |
    ⟨hmain, env, config, binds, added, saved, rfl, rfl⟩ |
    ⟨env, config, settings, removed, added, done, user, todo, hmain, hnext⟩ |
    ⟨env, config, settings, removed, added, users, hmain, hengine, rfl⟩ |
    ⟨config, hmain, rfl⟩
  -- refused
  · exact h.of_books s.live rfl rfl (fun _ => le_rfl) h.plain (fun book hbook => .inl hbook)
  -- started
  · exact ⟨h.names, h.published, fun ref hmem => absurd hmem List.not_mem_nil, h.plain,
      h.balances⟩
  -- one more user adopted
  · exact h.adopt hinv (henough (adopt_of_todo hmain hstep)) hmain hnext
  -- users published
  · have hadopting : s.Adopting config settings users [] := by
      have hmainInv := hinv.main
      unfold MainInv at hmainInv
      rwa [hmain] at hmainInv
    obtain ⟨hquotas, -, -, husers⟩ := swapRules_frame removed added users s.world
    refine ⟨?_, ?_, fun ref hmem => absurd hmem List.not_mem_nil, h.plain, h.balances⟩
    · have hnodup := hadopting.valid.names
      rw [← hadopting.names, List.map_nil, List.append_nil] at hnodup
      rw [husers]
      exact hnodup
    · rw [husers]
      intro ref hmem
      have hadopted : ref ∈ s.adopted := by
        unfold System.adopted
        rwa [hmain]
      intro book hbook baseline hbaseline
      change baseline ≤ ((swapRules removed added users s.world).quotas ref.id).used
      rw [hquotas]
      exact (h.adopted ref hadopted).1 book hbook baseline hbaseline
  -- config published
  · exact ⟨h.names, h.published, fun ref hmem => absurd hmem List.not_mem_nil, h.plain,
      h.balances⟩

end System

end PortsBox
