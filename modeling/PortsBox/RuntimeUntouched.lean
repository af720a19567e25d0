import PortsBox.QuotaCore
import PortsBox.RuntimeRuns

/-!
# An `apply` with nothing to start or stop

With the specs and the user names that are in force, `apply` binds nothing, loads
nothing and fails nowhere: it sets the users' limits and metering anew and leaves
rules, tasks, objects and counters as they are.
-/

set_option autoImplicit false

namespace PortsBox

theorem prepared_of_running (env : Env) {rules : HashMap RuleSpec RunningRule}
    {specs : List RuleSpec} (h : ∀ spec ∈ specs, spec ∈ rules) (spare : Spare) :
    prepared env rules specs spare = ([], .ok []) := by
  induction specs with
  | nil => rfl
  | cons spec specs ih =>
    rw [prepared, if_pos (h spec List.mem_cons_self)]
    exact ih fun other hother => h other (List.mem_cons_of_mem spec hother)

theorem savedFor_of_present (env : Env) {runtime : Runtime} {config : Config}
    (h : ∀ user ∈ config.users, (getUser runtime.users user.name).isSome = true) :
    savedFor env runtime config = .ok ∅ := by
  have hnone : config.users.any (fun user => (getUser runtime.users user.name).isNone) = false := by
    rw [List.any_eq_false]
    intro user huser
    rw [← Option.not_isSome, h user huser]
    decide
  unfold savedFor
  rw [hnone, Bool.and_false]
  rfl

theorem UserQuota.snapshot_setLimit (quota : UserQuota) (limit : Option Nat) :
    (quota.setLimit limit).snapshot = quota.snapshot := rfl

theorem UserQuota.snapshot_setMetering (quota : UserQuota) (metering : Metering) :
    (quota.setMetering metering).snapshot = quota.snapshot := by
  unfold UserQuota.setMetering
  dsimp only
  split <;> rfl

/-- New settings leave the counters alone. -/
theorem Settings.snapshot_retune (settings : Settings) (name : String) (quota : UserQuota) :
    (settings.retune name quota).snapshot = quota.snapshot := by
  have hlimit : ∀ quota : UserQuota, (settings.setLimit name quota).snapshot = quota.snapshot := by
    intro quota
    unfold Settings.setLimit
    dsimp only
    split
    · exact quota.snapshot_setLimit _
    · rfl
  unfold Settings.retune
  dsimp only
  rw [hlimit]
  split
  · exact quota.snapshot_setMetering settings.metering
  · rfl

/-- The same world with other limits and meterings. -/
def Retuned (w after : World) : Prop :=
  (∃ quotas, after = { w with quotas }) ∧
    ∀ id, (after.quotas id).snapshot = (w.quotas id).snapshot

theorem Retuned.refl (w : World) : Retuned w w := ⟨⟨w.quotas, rfl⟩, fun _ => rfl⟩

theorem Retuned.trans {w mid after : World} (h : Retuned w mid) (hnext : Retuned mid after) :
    Retuned w after := by
  obtain ⟨⟨quotas, rfl⟩, hsame⟩ := h
  obtain ⟨⟨others, rfl⟩, hlater⟩ := hnext
  exact ⟨⟨others, rfl⟩, fun id => (hlater id).trans (hsame id)⟩

/-- Users that are all present keep their objects. -/
theorem adoptUsers_of_present (env : Env) (settings : Settings) {current refs : List QuotaRef}
    (hnames : (current.map QuotaRef.name).Nodup) (hrefs : ∀ ref ∈ refs, ref ∈ current) (w : World)
    {users : List UserConfig} (husers : refs.map QuotaRef.name = users.map UserConfig.name) :
    (adoptUsers env settings current w users).1 = refs ∧
      Retuned w (adoptUsers env settings current w users).2 := by
  induction users generalizing refs w with
  | nil =>
    rw [List.map_nil, List.map_eq_nil_iff] at husers
    exact ⟨husers.symm, Retuned.refl w⟩
  | cons user users ih =>
    obtain ⟨ref, rest, rfl, hname, hrest⟩ := List.map_eq_cons_iff.mp husers
    have hfound : getUser current user.name = some ref :=
      hname ▸ getUser_of_mem hnames (hrefs ref List.mem_cons_self)
    obtain ⟨hone, hretuned⟩ : (adoptUser env settings current w user).1 = ref ∧
        Retuned w (adoptUser env settings current w user).2 := by
      unfold adoptUser
      rw [hfound]
      refine ⟨rfl, ⟨_, rfl⟩, ?_⟩
      intro id
      dsimp only
      by_cases heq : id = ref.id
      · rw [heq, Function.update_self]
        exact settings.snapshot_retune _ _
      · rw [Function.update_of_ne heq]
    obtain ⟨hothers, hafter⟩ := ih (fun other hother => hrefs other (List.mem_cons_of_mem ref hother))
      (adoptUser env settings current w user).2 hrest
    refine ⟨?_, hretuned.trans hafter⟩
    exact congrArg₂ List.cons hone hothers

theorem removedSpecs_of_running {rules : HashMap RuleSpec RunningRule} {specs : List RuleSpec}
    (h : ∀ spec, spec ∈ rules → spec ∈ specs) : removedSpecs rules specs = [] := by
  rw [removedSpecs, List.filter_eq_nil_iff]
  intro spec hspec
  rw [decide_eq_true_eq]
  exact not_not_intro (h spec (AList.mem_keys.mp hspec))

/-- What is left of a world by an `apply` with nothing to start or stop. -/
structure Untouched (w after : World) : Prop where
  runtime : after.runtime = w.runtime
  tasks : after.tasks = w.tasks
  remote : after.remote = w.remote
  next : after.next = w.next
  binds : after.binds = []
  counters : ∀ id, (after.quotas id).snapshot = (w.quotas id).snapshot

/-- `apply` succeeds without a bind when the specs and the names are those in force. -/
theorem apply_untouched {w : World} {config next : Config} (h : Consistent w (some config))
    (hstarted : w.runtime.started = true) (hvalid : Valid config)
    (hspecs : specsOf next = specsOf config)
    (hnames : next.users.map UserConfig.name = config.users.map UserConfig.name) (env : Env) :
    ∃ after, apply env next w = .ok () after ∧ Untouched w after := by
  have hrules : ∀ spec, spec ∈ w.runtime.rules ↔ spec ∈ specsOf next := by
    intro spec
    rw [hspecs]
    exact h.rules spec
  have husers : w.runtime.users.map QuotaRef.name = next.users.map UserConfig.name :=
    h.users.trans hnames.symm
  have hnodup : (w.runtime.users.map QuotaRef.name).Nodup := by
    rw [husers, hnames]
    exact hvalid.names
  have hpresent : ∀ user ∈ next.users, (getUser w.runtime.users user.name).isSome = true := by
    intro user huser
    have hname : user.name ∈ w.runtime.users.map QuotaRef.name :=
      husers ▸ List.mem_map_of_mem huser
    obtain ⟨ref, href, hsame⟩ := List.mem_map.mp hname
    rw [← hsame, getUser_of_mem hnodup href]
    rfl
  have hgathered : gathered env next w = ([], .ok ([], ∅)) := by
    unfold gathered
    dsimp only
    rw [prepared_of_running env (fun spec hspec => (hrules spec).mpr hspec),
      savedFor_of_present env hpresent]
    rfl
  have hremoved := removedSpecs_of_running fun spec => (hrules spec).mp
  obtain ⟨hrefs, ⟨quotas, hworld⟩, hcounters⟩ :=
    adoptUsers_of_present env (settingsOf next { w with binds := [] } ∅) hnodup (fun _ href => href)
      { w with binds := [] } husers
  refine ⟨install env next [] ∅ { w with binds := [] }, ?_, ?_⟩
  · rw [apply_eq, hgathered]
  · have hinstall : install env next [] ∅ { w with binds := [] } =
        { w with
          quotas
          binds := []
          runtime := { w.runtime with pools := collectPools w.runtime.rules, started := true } } := by
      unfold install swapRules
      dsimp only
      rw [hremoved, hrefs, hworld]
      rfl
    rw [hinstall]
    refine ⟨?_, rfl, rfl, rfl, rfl, ?_⟩
    · rw [← h.pools, ← hstarted]
    · rw [hworld] at hcounters
      exact hcounters

end PortsBox
