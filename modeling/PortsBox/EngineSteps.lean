import PortsBox.EngineCore
import PortsBox.LedgerCalls
import PortsBox.QuotaHardStop

/-!
# What one step of the system can do

How setting a limit and metering traffic change a quota, what adopting a user
changes, and one inversion lemma for each party: what a step of it was and what it
left.
-/

set_option autoImplicit false

namespace PortsBox

open Word

/-! ## Limits and usage of one quota -/

theorem storedLimit_of_ne {limit : Option Nat} (h : limit ≠ some noLimit) :
    storedLimit limit = limit := by
  cases limit with
  | none => rfl
  | some l =>
    have hne : l ≠ noLimit := fun heq => h (congrArg some heq)
    simp [storedLimit, hne]

namespace UserQuota

theorem setLimit_limit (quota : UserQuota) (limit : Option Nat) :
    (quota.setLimit limit).limit = storedLimit limit := by
  cases limit with
  | none => simp [setLimit, UserQuota.limit, storedLimit]
  | some l => rfl

theorem setLimit_used (quota : UserQuota) (limit : Option Nat) :
    (quota.setLimit limit).used = quota.used := rfl

/-- Setting a limit that is not there yet, as both parties do. -/
theorem setLimit_if_ne (quota : UserQuota) (limit : Option Nat) :
    (if quota.limit ≠ limit then quota.setLimit limit else quota).limit = storedLimit limit ∧
      (if quota.limit ≠ limit then quota.setLimit limit else quota).used = quota.used := by
  by_cases heq : quota.limit = limit
  · rw [if_neg (not_not.mpr heq), storedLimit_of_ne (heq ▸ quota.limit_ne_noLimit)]
    exact ⟨heq, rfl⟩
  · rw [if_pos heq]
    exact ⟨quota.setLimit_limit limit, quota.setLimit_used limit⟩

/-- The counters have room for `n` more bytes. -/
def Fits (quota : UserQuota) (n : Nat) : Prop :=
  quota.settled + quota.hourUpload + quota.hourDownload + n < 2 ^ 64

theorem bill_le (metering : Metering) (upload download : Nat) :
    metering.bill upload download ≤ upload + download := by
  cases metering with
  | max => exact Nat.max_le.mpr ⟨Nat.le_add_right _ _, Nat.le_add_left _ _⟩
  | sum =>
    unfold Metering.bill clamp
    dsimp only
    omega
  | download => exact Nat.le_add_left _ _

theorem used_of_fits {quota : UserQuota} (h : quota.Fits 0) :
    quota.used = quota.settled + quota.hourUsed := by
  have hle := bill_le quota.metering quota.hourUpload quota.hourDownload
  apply wrap_of_lt
  unfold Fits at h
  unfold hourUsed
  omega

theorem fits_rollOverAt {quota : UserQuota} {n : Nat} (h : quota.Fits n) (hour : Int) :
    (quota.rollOverAt hour).Fits n := by
  unfold rollOverAt settleTo
  by_cases hhour : quota.bucketHour = hour
  · rw [if_neg (not_not.mpr hhour)]
    exact h
  · rw [if_pos hhour, if_neg hhour]
    have hle := bill_le quota.metering quota.hourUpload quota.hourDownload
    unfold Fits at h ⊢
    rw [wrap_of_lt (by omega)]
    dsimp only
    omega

theorem used_le_count {quota : UserQuota} {n : Nat} (h : quota.Fits n) (direction : Direction) :
    quota.used ≤ (quota.count n direction).used := by
  have hbefore : quota.Fits 0 := by
    unfold Fits at h ⊢
    omega
  unfold Fits at h
  have hup : wrap 64 (quota.hourUpload + n) = quota.hourUpload + n := wrap_of_lt (by omega)
  have hdown : wrap 64 (quota.hourDownload + n) = quota.hourDownload + n := wrap_of_lt (by omega)
  have hafter : (quota.count n direction).Fits 0 := by
    cases direction with
    | upload =>
      unfold Fits count
      dsimp only
      rw [hup]
      omega
    | download =>
      unfold Fits count
      dsimp only
      rw [hdown]
      omega
  rw [used_of_fits hbefore, used_of_fits hafter]
  have hmono : quota.hourUsed ≤ (quota.count n direction).hourUsed := by
    cases direction with
    | upload =>
      change quota.metering.bill _ _ ≤ quota.metering.bill (wrap 64 (quota.hourUpload + n)) _
      rw [hup]
      exact quota.metering.charge_mono
        (Prod.mk_le_mk.mpr ⟨Nat.le_add_right quota.hourUpload n, le_refl quota.hourDownload⟩)
    | download =>
      change quota.metering.bill _ _ ≤ quota.metering.bill _ (wrap 64 (quota.hourDownload + n))
      rw [hdown]
      exact quota.metering.charge_mono
        (Prod.mk_le_mk.mpr ⟨le_refl quota.hourUpload, Nat.le_add_right quota.hourDownload n⟩)
  cases direction <;> exact Nat.add_le_add_left hmono _

theorem used_le_tryConsumeAt {quota : UserQuota} {n : Nat} (h : quota.Fits n)
    (direction : Direction) (hour : Int) :
    quota.used ≤ (quota.tryConsumeAt n direction hour).1.used := by
  have hcount : quota.used ≤ ((quota.rollOverAt hour).count n direction).used := by
    rw [← quota.used_rollOverAt hour]
    exact used_le_count (fits_rollOverAt h hour) direction
  rcases quota.tryConsumeAt_cases n direction hour with ⟨_, heq⟩ | ⟨_, _, heq⟩ | ⟨_, _, heq⟩
  · rw [heq]
  · rw [heq]
    exact hcount
  · rw [heq]
    exact hcount

end UserQuota

/-! ## Adopting a user -/

theorem Settings.setLimit_limit (settings : Settings) (name : String) (quota : UserQuota) :
    (settings.setLimit name quota).limit =
      storedLimit (settings.limitOf name (settings.setLimit name quota)) := by
  obtain ⟨hlimit, hused⟩ := quota.setLimit_if_ne (settings.limitOf name quota)
  have hsame : settings.limitOf name (settings.setLimit name quota) =
      settings.limitOf name quota := by
    unfold Settings.limitOf
    cases settings.remote with
    | none => rfl
    | some limits => exact congrArg (fun used => some ((limits[name]?).getD used)) hused
  rw [hsame]
  exact hlimit

/-- The user keeps its object, retuned, or gets a fresh one. -/
theorem adoptUser_eq (env : Env) (settings : Settings) (current : List QuotaRef) (w : World)
    (user : UserConfig) :
    ∃ ref quota next, adoptUser env settings current w user =
        (ref, { w with quotas := Function.update w.quotas ref.id quota, next }) ∧
      ref.name = user.name ∧
      ((getUser current user.name = some ref ∧ next = w.next ∧
          quota = settings.retune user.name (w.quotas ref.id)) ∨
        (getUser current user.name = none ∧ ref.id = w.next ∧ next = w.next + 1 ∧
          quota = settings.create user.name (env.hour user.name))) := by
  unfold adoptUser
  cases hfound : getUser current user.name with
  | some ref =>
    have hname := (getUser_name hfound).2
    exact ⟨ref, _, _, rfl, hname, Or.inl ⟨rfl, rfl, by rw [hname]⟩⟩
  | none => exact ⟨⟨w.next, user.name⟩, _, _, rfl, rfl, Or.inr ⟨rfl, rfl, rfl, rfl⟩⟩

/-- Its limit is the settings' either way. -/
theorem adoptUser_cases (env : Env) (settings : Settings) (current : List QuotaRef) (w : World)
    (user : UserConfig) :
    ∃ ref quota next, adoptUser env settings current w user =
        (ref, { w with quotas := Function.update w.quotas ref.id quota, next }) ∧
      quota.limit = storedLimit (settings.limitOf ref.name quota) ∧ ref.name = user.name ∧
      ((getUser current user.name = some ref ∧ next = w.next) ∨
        (getUser current user.name = none ∧ ref.id = w.next ∧ next = w.next + 1)) := by
  obtain ⟨ref, quota, next, hadopt, hname, hcases⟩ := adoptUser_eq env settings current w user
  refine ⟨ref, quota, next, hadopt, ?_, hname, ?_⟩
  · rw [hname]
    rcases hcases with ⟨-, -, rfl⟩ | ⟨-, -, -, rfl⟩
    · exact settings.setLimit_limit _ _
    · exact settings.setLimit_limit _ _
  · rcases hcases with ⟨hfound, hnext, -⟩ | ⟨hnone, hid, hnext, -⟩
    · exact Or.inl ⟨hfound, hnext⟩
    · exact Or.inr ⟨hnone, hid, hnext⟩

/-! ## The book -/

theorem limited_spec (book : Book) (name : String) (quota : UserQuota) :
    (System.limited book name quota).limit =
        storedLimit (some (System.limitFor book name quota)) ∧
      (System.limited book name quota).used = quota.used :=
  quota.setLimit_if_ne (some (System.limitFor book name quota))

/-- No order takes the book out of remote accounting. -/
theorem runOrder_migrated {book after : Book} {members : List Member} {now : Int} {order : Order}
    (h : System.runOrder book members now order = some after) :
    after.migrated = book.migrated := by
  cases order with
  | transfer sender receiver amount =>
    dsimp only [System.runOrder] at h
    split at h
    · rename_i moved entries hmoved
      obtain rfl := Option.some.inj h
      obtain ⟨-, rfl⟩ := Book.transfer_ok hmoved
      exact book.join_migrated members
    · cases h
  | allocate receiver amount =>
    dsimp only [System.runOrder] at h
    split at h
    · rename_i moved entries hmoved
      obtain rfl := Option.some.inj h
      obtain ⟨-, names, total, rfl⟩ := Book.allocate_ok hmoved
      exact book.join_migrated members
    · cases h

/-! ## The rest of `apply` -/

/-- Swapping the rules touches no quota and no remote limit. -/
theorem swapRules_frame (removed : List RuleSpec) (added : List PreparedRule)
    (users : List QuotaRef) (w : World) :
    (swapRules removed added users w).quotas = w.quotas ∧
      (swapRules removed added users w).remote = w.remote ∧
      w.next ≤ (swapRules removed added users w).next ∧
      (swapRules removed added users w).runtime.users = users := by
  have hremove : ∀ w : World, (removed.foldl removeRule w).quotas = w.quotas ∧
      (removed.foldl removeRule w).remote = w.remote ∧
      (removed.foldl removeRule w).next = w.next := by
    induction removed with
    | nil => exact fun _ => ⟨rfl, rfl, rfl⟩
    | cons spec removed ih =>
      intro w
      obtain ⟨hquotas, hremote, hnext⟩ := ih (removeRule w spec)
      have hone : (removeRule w spec).quotas = w.quotas ∧
          (removeRule w spec).remote = w.remote ∧ (removeRule w spec).next = w.next := by
        unfold removeRule
        cases w.runtime.rules.lookup spec <;> exact ⟨rfl, rfl, rfl⟩
      exact ⟨hquotas.trans hone.1, hremote.trans hone.2.1, hnext.trans hone.2.2⟩
  have hstart : ∀ w : World, (added.foldl (startFor users) w).quotas = w.quotas ∧
      (added.foldl (startFor users) w).remote = w.remote ∧
      w.next ≤ (added.foldl (startFor users) w).next := by
    induction added with
    | nil => exact fun _ => ⟨rfl, rfl, le_rfl⟩
    | cons rule added ih =>
      intro w
      obtain ⟨hquotas, hremote, hnext⟩ := ih (startFor users w rule)
      have hone : (startFor users w rule).quotas = w.quotas ∧
          (startFor users w rule).remote = w.remote ∧
          w.next ≤ (startFor users w rule).next := by
        unfold startFor
        cases getUser users rule.spec.user with
        | none => exact ⟨rfl, rfl, le_rfl⟩
        | some quota => exact ⟨rfl, rfl, Nat.le_add_right _ _⟩
      exact ⟨hquotas.trans hone.1, hremote.trans hone.2.1, hone.2.2.trans hnext⟩
  obtain ⟨hremoveQuotas, hremoveRemote, hremoveNext⟩ := hremove w
  obtain ⟨hstartQuotas, hstartRemote, hstartNext⟩ := hstart (removed.foldl removeRule w)
  exact ⟨hstartQuotas.trans hremoveQuotas, hstartRemote.trans hremoveRemote,
    hremoveNext ▸ hstartNext, rfl⟩

/-! ## Steps of the main loop -/

namespace System
variable {s next : System}

theorem mainStep_cases {step : MainStep} (h : s.mainStep step = some next) :
    (s.main = .idle ∧ ∃ binds, next = { s with world := { s.world with binds } }) ∨
    (s.main = .idle ∧ ∃ env config binds added saved, step = .start env config ∧
      next = { s with
        world := { s.world with binds }
        main := .adopting env config (settingsOf config s.world saved)
          (removedSpecs s.world.runtime.rules (specsOf config)) added [] config.users }) ∨
    (∃ env config settings removed added done user todo,
      s.main = .adopting env config settings removed added done (user :: todo) ∧
      next = { s with
        world := (adoptUser env settings s.world.runtime.users s.world user).2
        main := .adopting env config settings removed added
          (done ++ [(adoptUser env settings s.world.runtime.users s.world user).1]) todo }) ∨
    (∃ env config settings removed added users,
      s.main = .adopting env config settings removed added users [] ∧
      (∀ todo, s.engine ≠ .setting todo) ∧
      next = { s with world := swapRules removed added users s.world, main := .applied config }) ∨
    (∃ config, s.main = .applied config ∧
      next = { s with live := config, seen := false, main := .idle }) := by
  cases step with
  | start env config =>
    unfold mainStep at h
    cases hmain : s.main with
    | idle =>
      rw [hmain] at h
      dsimp only at h
      cases hgathered : gathered env config s.world with
      | mk binds outcome =>
        rw [hgathered] at h
        cases outcome with
        | error e => exact Or.inl ⟨rfl, binds, (Option.some.inj h).symm⟩
        | ok found =>
          exact Or.inr (Or.inl ⟨rfl, env, config, binds, found.1, found.2, rfl,
            (Option.some.inj h).symm⟩)
    | adopting env config settings removed added done todo => simp [hmain] at h
    | applied config => simp [hmain] at h
  | adopt =>
    unfold mainStep at h
    cases hmain : s.main with
    | idle => simp [hmain] at h
    | adopting env config settings removed added done todo =>
      cases todo with
      | nil => simp [hmain] at h
      | cons user todo =>
        rw [hmain] at h
        exact Or.inr (Or.inr (Or.inl ⟨env, config, settings, removed, added, done, user, todo,
          rfl, (Option.some.inj h).symm⟩))
    | applied config => simp [hmain] at h
  | publishUsers =>
    unfold mainStep at h
    cases hmain : s.main with
    | idle => simp [hmain] at h
    | adopting env config settings removed added done todo =>
      cases todo with
      | cons user todo =>
        rw [hmain] at h
        cases hengine : s.engine <;> simp [hengine] at h
      | nil =>
        have hnot : ∀ todo, s.engine ≠ .setting todo := by
          intro todo heq
          rw [hmain, heq] at h
          cases h
        refine Or.inr (Or.inr (Or.inr (Or.inl
          ⟨env, config, settings, removed, added, done, rfl, hnot, ?_⟩)))
        rw [hmain] at h
        cases hengine : s.engine with
        | setting todo => exact absurd hengine (hnot todo)
        | _ =>
          rw [hengine] at h
          exact (Option.some.inj h).symm.trans (by rw [← hengine])
    | applied config => simp [hmain] at h
  | publishLive =>
    unfold mainStep at h
    cases hmain : s.main with
    | idle => simp [hmain] at h
    | adopting env config settings removed added done todo => simp [hmain] at h
    | applied config =>
      rw [hmain] at h
      exact Or.inr (Or.inr (Or.inr (Or.inr ⟨config, rfl, (Option.some.inj h).symm⟩)))

end System

/-! ## The main loop alone -/

namespace System

theorem steps_append (s : System) (first rest : List Step) :
    s.steps (first ++ rest) = (s.steps first).bind fun next => next.steps rest := by
  induction first generalizing s with
  | nil => rfl
  | cons step first ih =>
    rw [List.cons_append, steps, steps]
    cases s.step step with
    | none => rfl
    | some next => exact ih next

theorem steps_adopt (s : System) (env : Env) (config : Config) (settings : Settings)
    (removed : List RuleSpec) (added : List PreparedRule) (done : List QuotaRef)
    (todo : List UserConfig)
    (hmain : s.main = .adopting env config settings removed added done todo) :
    s.steps (List.replicate todo.length (.main .adopt)) =
      some { s with
        world := (adoptUsers env settings s.world.runtime.users s.world todo).2
        main := .adopting env config settings removed added
          (done ++ (adoptUsers env settings s.world.runtime.users s.world todo).1) [] } := by
  induction todo generalizing s done with
  | nil =>
    change some s = some _
    rw [adoptUsers, List.append_nil, ← hmain]
  | cons user todo ih =>
    have hruntime :
        (adoptUser env settings s.world.runtime.users s.world user).2.runtime = s.world.runtime := by
      obtain ⟨_, _, _, hadopt, _⟩ :=
        adoptUser_cases env settings s.world.runtime.users s.world user
      rw [hadopt]
    have hstep : s.step (.main .adopt) = some { s with
        world := (adoptUser env settings s.world.runtime.users s.world user).2
        main := .adopting env config settings removed added
          (done ++ [(adoptUser env settings s.world.runtime.users s.world user).1]) todo } := by
      unfold step mainStep
      rw [hmain]
    rw [List.length_cons, List.replicate_succ, steps, hstep, Option.bind_some, ih _ _ rfl]
    dsimp only
    rw [hruntime, List.append_assoc]
    rfl

theorem steps_publish {s : System} {env : Env} {config : Config} {settings : Settings}
    {removed : List RuleSpec} {added : List PreparedRule} {users : List QuotaRef}
    (hmain : s.main = .adopting env config settings removed added users [])
    (hengine : ∀ todo, s.engine ≠ .setting todo) :
    s.steps [.main .publishUsers, .main .publishLive] =
      some { s with
        world := swapRules removed added users s.world
        live := config
        seen := false
        main := .idle } := by
  have hpublishUsers : s.step (.main .publishUsers) = some { s with
      world := swapRules removed added users s.world, main := .applied config } := by
    unfold step mainStep
    rw [hmain]
    cases hat : s.engine with
    | setting todo => exact absurd hat (hengine todo)
    | _ => rfl
  rw [steps, hpublishUsers]
  rfl

/-- Undisturbed, the steps of the main loop are one `apply` and the publishing of its config. -/
theorem steps_apply {s : System} {env : Env} {config : Config} {after : World}
    (hmain : s.main = .idle) (hengine : ∀ todo, s.engine ≠ .setting todo)
    (happly : apply env config s.world = .ok () after) :
    s.steps (.main (.start env config) ::
        (List.replicate config.users.length (.main .adopt) ++
          [.main .publishUsers, .main .publishLive])) =
      some { s with world := after, live := config, seen := false } := by
  obtain ⟨binds, added, saved, hgathered, rfl⟩ := apply_installed happly
  have hstart : s.step (.main (.start env config)) = some { s with
      world := { s.world with binds }
      main := .adopting env config (settingsOf config s.world saved)
        (removedSpecs s.world.runtime.rules (specsOf config)) added [] config.users } := by
    unfold step mainStep
    rw [hmain]
    dsimp only
    rw [hgathered]
  rw [steps, hstart, Option.bind_some, steps_append, steps_adopt _ _ _ _ _ _ _ _ rfl,
    Option.bind_some]
  apply (steps_publish ?adopted ?free).trans
  case adopted => rfl
  case free => exact hengine
  rw [← hmain]
  rfl

end System

/-! ## Steps of the engine -/

namespace EngineAt

/-- The config an operation captured. -/
def captured : EngineAt → Option Config
  | fetching config => some config
  | ordering config _ => some config
  | saving config _ => some config
  | limiting config => some config
  | _ => none

/-- Between two operations, or waiting inside one. -/
def Waiting : EngineAt → Prop
  | idle => True
  | fetching _ => True
  | ordering _ _ => True
  | saving _ _ => True
  | _ => False

/-- What the engine relies on where it is. -/
def Sound (book : Book) (users : List QuotaRef) : EngineAt → Prop
  | saving _ saved => book.migrated = true → saved.migrated = true
  | borrowing => book.migrated = true
  | setting todo => book.migrated = true ∧ ∀ ref ∈ todo, ref ∈ users
  | _ => True

end EngineAt

namespace System
variable {s next : System}

theorem engineStep_cases {step : EngineStep} (h : s.engineStep step = some next) :
    (s.engine.Waiting ∧ ∃ engine, next = { s with engine } ∧ engine.Waiting ∧
      engine.Sound s.book s.world.runtime.users ∧
      ∀ config, engine.captured = some config →
        config = s.live ∨ s.engine.captured = some config) ∨
    (∃ config book, s.engine = .saving config book ∧
      next = { s with book, engine := .limiting config }) ∨
    (s.engine = .idle ∧ next = { s with seen := true, engine := .changed }) ∨
    (s.engine = .changed ∧ next = { s with engine := .limiting s.live }) ∨
    (∃ config, s.engine = .limiting config ∧ s.book.migrated = false ∧
      next = { s with engine := .idle }) ∨
    (∃ config, s.engine = .limiting config ∧ s.book.migrated = true ∧
      next = { s with
        world := { s.world with remote := some s.book.limits }
        engine := if config.accounting.activeRemote.isNone then .idle else .borrowing }) ∨
    (s.engine = .borrowing ∧ next = { s with engine := .setting s.world.runtime.users }) ∨
    (s.engine = .setting [] ∧ next = { s with engine := .idle }) ∨
    (step = .setLimit ∧ ∃ ref todo, s.engine = .setting (ref :: todo) ∧
      next = { s with
        world := s.world.setQuota ref.id (limited s.book ref.name (s.world.quotas ref.id))
        engine := .setting todo }) := by
  cases step with
  | sync =>
    unfold engineStep at h
    cases hengine : s.engine with
    | idle =>
      rw [hengine] at h
      dsimp only at h
      left
      refine ⟨trivial, ?_⟩
      split at h
      · obtain rfl := Option.some.inj h
        exact ⟨.idle, by rw [← hengine], trivial, trivial, by simp [EngineAt.captured]⟩
      · split at h
        · obtain rfl := Option.some.inj h
          exact ⟨.idle, by rw [← hengine], trivial, trivial, by simp [EngineAt.captured]⟩
        · refine ⟨.fetching s.live, (Option.some.inj h).symm, trivial, trivial, ?_⟩
          intro config hconfig
          exact Or.inl (Option.some.inj hconfig).symm
    | _ => simp [hengine] at h
  | order order =>
    unfold engineStep at h
    cases hengine : s.engine with
    | idle =>
      rw [hengine] at h
      left
      refine ⟨trivial, .ordering s.live order, (Option.some.inj h).symm, trivial, trivial, ?_⟩
      intro config hconfig
      exact Or.inl (Option.some.inj hconfig).symm
    | _ => simp [hengine] at h
  | fetched result now =>
    unfold engineStep at h
    cases hengine : s.engine with
    | fetching config =>
      rw [hengine] at h
      left
      refine ⟨trivial, ?_⟩
      cases result with
      | error e =>
        exact ⟨.idle, (Option.some.inj h).symm, trivial, trivial, by simp [EngineAt.captured]⟩
      | ok fetched =>
        dsimp only at h
        split at h
        · exact ⟨.idle, (Option.some.inj h).symm, trivial, trivial, by simp [EngineAt.captured]⟩
        · refine ⟨_, (Option.some.inj h).symm, trivial, ?_, fun _ hconfig => Or.inr hconfig⟩
          exact fun _ => s.book.sync_migrated_true
            ⟨fetched.packages, members s.world config, assignments config, now⟩
    | _ => simp [hengine] at h
  | compute now =>
    unfold engineStep at h
    cases hengine : s.engine with
    | ordering config order =>
      rw [hengine] at h
      dsimp only at h
      left
      refine ⟨trivial, ?_⟩
      cases hrun : runOrder s.book (members s.world config) now order with
      | none =>
        rw [hrun] at h
        exact ⟨.idle, (Option.some.inj h).symm, trivial, trivial, by simp [EngineAt.captured]⟩
      | some book =>
        rw [hrun] at h
        refine ⟨.saving config book, (Option.some.inj h).symm, trivial, ?_,
          fun _ hconfig => Or.inr hconfig⟩
        exact fun hmigrated => (runOrder_migrated hrun).trans hmigrated
    | _ => simp [hengine] at h
  | saved ok =>
    unfold engineStep at h
    cases hengine : s.engine with
    | saving config book =>
      rw [hengine] at h
      dsimp only at h
      split at h
      · exact Or.inr (Or.inl ⟨config, book, rfl, (Option.some.inj h).symm⟩)
      · split at h
        · exact Or.inl ⟨trivial, .idle, (Option.some.inj h).symm, trivial, trivial,
            by simp [EngineAt.captured]⟩
        · cases h
    | _ => simp [hengine] at h
  | liveChanged =>
    unfold engineStep at h
    cases hengine : s.engine with
    | idle =>
      rw [hengine] at h
      dsimp only at h
      split at h
      · cases h
      · exact Or.inr (Or.inr (Or.inl ⟨rfl, (Option.some.inj h).symm⟩))
    | _ => simp [hengine] at h
  | readLive =>
    unfold engineStep at h
    cases hengine : s.engine with
    | changed =>
      rw [hengine] at h
      exact Or.inr (Or.inr (Or.inr (Or.inl ⟨rfl, (Option.some.inj h).symm⟩)))
    | _ => simp [hengine] at h
  | setRemote =>
    unfold engineStep at h
    cases hengine : s.engine with
    | limiting config =>
      rw [hengine] at h
      dsimp only at h
      right; right; right; right
      cases hmigrated : s.book.migrated with
      | false =>
        rw [hmigrated] at h
        exact Or.inl ⟨config, rfl, rfl, (Option.some.inj h).symm⟩
      | true =>
        rw [hmigrated] at h
        exact Or.inr (Or.inl ⟨config, rfl, rfl, (Option.some.inj h).symm⟩)
    | _ => simp [hengine] at h
  | borrowUsers =>
    unfold engineStep at h
    cases hengine : s.engine with
    | borrowing =>
      rw [hengine] at h
      right; right; right; right; right; right
      exact Or.inl ⟨rfl, (Option.some.inj h).symm⟩
    | _ => simp [hengine] at h
  | setLimit =>
    unfold engineStep at h
    cases hengine : s.engine with
    | setting todo =>
      rw [hengine] at h
      right; right; right; right; right; right; right
      cases todo with
      | nil => exact Or.inl ⟨rfl, (Option.some.inj h).symm⟩
      | cons ref todo => exact Or.inr ⟨rfl, ref, todo, rfl, (Option.some.inj h).symm⟩
    | _ => simp [hengine] at h

end System

end PortsBox
