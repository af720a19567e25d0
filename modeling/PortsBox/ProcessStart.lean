import PortsBox.EngineLimits
import PortsBox.ProcessCore

/-!
# The first `apply` of a process

It makes an object for every user, with the usage the database holds for the name.
-/

set_option autoImplicit false

namespace PortsBox

theorem gathered_saved {env : Env} {config : Config} {w : World} {binds : List Bind}
    {added : List PreparedRule} {saved : Std.ExtTreeMap String SavedUsage}
    (h : gathered env config w = (binds, .ok (added, saved))) :
    savedFor env w.runtime config = .ok saved := by
  have hsnd : (gathered env config w).2 = .ok (added, saved) := by rw [h]
  obtain ⟨found, -, hload, -⟩ := andThen_ok hsnd
  dsimp only at hload
  cases hsaved : savedFor env w.runtime config with
  | error e =>
    rw [hsaved] at hload
    cases hload
  | ok usage =>
    rw [hsaved] at hload
    obtain ⟨-, rfl⟩ := Prod.mk.inj (Except.ok.inj hload)
    rfl

/-- A first `apply` reads the usage of the database when it has users to add. -/
theorem savedFor_started {Text : Type} {db : Option (StateDb Text)} {env : Env} {config : Config}
    {saved : Std.ExtTreeMap String SavedUsage}
    (h : savedFor (Process.answered db env) { hasDb := db.isSome } config = .ok saved)
    {user : UserConfig} (huser : user ∈ config.users) : saved = Process.savedUsage db := by
  have hnew : config.users.any (fun user => (getUser [] user.name).isNone) = true :=
    List.any_eq_true.mpr ⟨user, huser, rfl⟩
  unfold savedFor at h
  dsimp only at h
  rw [hnew, Bool.and_true] at h
  cases db with
  | none => exact (Except.ok.inj h).symm
  | some opened =>
    rw [Option.isSome_some, if_pos rfl] at h
    unfold Process.answered at h
    dsimp only at h
    cases hload : env.load with
    | error e =>
      rw [hload] at h
      cases h
    | ok found =>
      rw [hload] at h
      exact (Except.ok.inj h).symm

/-- The first `apply` creates every user. -/
theorem adoptUsers_created (env : Env) (settings : Settings) (w : World)
    (users : List UserConfig) :
    ∀ ref ∈ (adoptUsers env settings [] w users).1, ∃ hour,
      (adoptUsers env settings [] w users).2.quotas ref.id = settings.create ref.name hour := by
  induction users generalizing w with
  | nil => exact fun ref hmem => absurd hmem List.not_mem_nil
  | cons user users ih =>
    let after : World := { w with
      quotas := Function.update w.quotas w.next (settings.create user.name (env.hour user.name))
      next := w.next + 1 }
    obtain ⟨-, -, hquotas, -⟩ := System.adoptUsers_fresh env settings after users
    intro ref hmem
    change ref ∈ (⟨w.next, user.name⟩ : QuotaRef) :: (adoptUsers env settings [] after users).1
      at hmem
    rcases List.mem_cons.mp hmem with rfl | htail
    · refine ⟨env.hour user.name, ?_⟩
      change (adoptUsers env settings [] after users).2.quotas w.next = _
      rw [hquotas w.next (Nat.lt_succ_self _)]
      exact Function.update_self _ _ _
    · exact ih after ref htail

theorem removeRule_hasDb (removed : List RuleSpec) (w : World) :
    (removed.foldl removeRule w).runtime.hasDb = w.runtime.hasDb := by
  induction removed generalizing w with
  | nil => rfl
  | cons spec removed ih =>
    have hone : (removeRule w spec).runtime.hasDb = w.runtime.hasDb := by
      unfold removeRule
      cases w.runtime.rules.lookup spec <;> rfl
    exact (ih (removeRule w spec)).trans hone

theorem swapRules_hasDb (removed : List RuleSpec) (added : List PreparedRule)
    (users : List QuotaRef) (w : World) :
    (swapRules removed added users w).runtime.hasDb = w.runtime.hasDb := by
  have hstart : ∀ w : World,
      (added.foldl (startFor users) w).runtime.hasDb = w.runtime.hasDb := by
    induction added with
    | nil => exact fun _ => rfl
    | cons rule added ih =>
      intro w
      have hone : (startFor users w rule).runtime.hasDb = w.runtime.hasDb := by
        unfold startFor
        cases getUser users rule.spec.user <;> rfl
      exact (ih (startFor users w rule)).trans hone
  exact (hstart _).trans (removeRule_hasDb removed w)

/-- Installing a config where nobody is published yet. -/
theorem install_fresh (env : Env) (config : Config) (added : List PreparedRule)
    (saved : Std.ExtTreeMap String SavedUsage) {w : World} (husers : w.runtime.users = []) :
    (install env config added saved w).runtime.users.map QuotaRef.name =
        config.users.map UserConfig.name ∧
      (install env config added saved w).runtime.hasDb = w.runtime.hasDb ∧
      System.Distinct (install env config added saved w).next
        (install env config added saved w).runtime.users ∧
      ∀ ref ∈ (install env config added saved w).runtime.users, ∃ hour,
        (install env config added saved w).quotas ref.id =
          (settingsOf config w saved).create ref.name hour := by
  unfold install
  rw [husers]
  generalize settingsOf config w saved = settings
  obtain ⟨hnames, -⟩ := adoptUsers_refs env settings [] w config.users
  obtain ⟨hruntime, -⟩ := adoptUsers_frame env settings [] w config.users
  have hcreated := adoptUsers_created env settings w config.users
  obtain ⟨-, -, -, -, hdistinct, -⟩ := System.adoptUsers_fresh env settings w config.users
  generalize adoptUsers env settings [] w config.users = adopted at *
  rcases adopted with ⟨users, adoptedWorld⟩
  dsimp only at *
  obtain ⟨hquotas, -, hnext, hpublished⟩ := swapRules_frame
    (removedSpecs w.runtime.rules (specsOf config)) added users adoptedWorld
  rw [hpublished, hquotas, swapRules_hasDb, hruntime]
  refine ⟨hnames, rfl, ⟨hdistinct.nodup, ?_⟩, hcreated⟩
  exact fun ref hmem => (hdistinct.fresh ref hmem).trans_le hnext

/-- The users of a new process are the config's, each with the saved usage of its name. -/
theorem started_users {Text : Type} {db : Option (StateDb Text)} {env : Env} {config : Config}
    {remote : Option (Std.ExtTreeMap String Nat)} {quotas : Nat → UserQuota} {w : World}
    (happly : apply (Process.answered db env) config
      { runtime := { hasDb := db.isSome }, remote, quotas } = .ok () w) :
    ∃ settings : Settings, settings.metering = config.accounting.metering ∧
      (∀ name ∈ config.users.map UserConfig.name,
        settings.saved[name]? = (Process.savedUsage db)[name]?) ∧
      w.runtime.users.map QuotaRef.name = config.users.map UserConfig.name ∧
      w.runtime.hasDb = db.isSome ∧ System.Distinct w.next w.runtime.users ∧
      ∀ ref ∈ w.runtime.users, ∃ hour, w.quotas ref.id = settings.create ref.name hour := by
  obtain ⟨binds, added, saved, hgathered, rfl⟩ := apply_installed happly
  have hsaved := gathered_saved hgathered
  have hinstalled := install_fresh (Process.answered db env) config added saved
    (w := { runtime := { hasDb := db.isSome }, remote, quotas, binds }) rfl
  refine ⟨_, rfl, ?_, hinstalled⟩
  intro name hname
  obtain ⟨user, huser, rfl⟩ := List.mem_map.mp hname
  change saved[user.name]? = _
  rw [savedFor_started hsaved huser]

end PortsBox
