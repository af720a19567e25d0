import PortsBox.ProcessFloors
import PortsBox.ProcessStart
import PortsBox.StateFlush
import PortsBox.EngineCommit

/-!
# Usage over removals and restarts

While a user is away its counters are those of its row in the database. Flushes that
succeed write the row when the user leaves and when the process ends, only a user's
own flushes change it, and whoever comes back starts from it, so that it reports the
upload, the download and the usage that it had.
-/

set_option autoImplicit false

namespace PortsBox

open Word WriteBack

/-! ## What a user's counters report -/

structure Usage where
  upload : Nat
  download : Nat
  used : Nat
  deriving DecidableEq, Repr

def UserQuota.usage (quota : UserQuota) : Usage := ⟨quota.upload, quota.download, quota.used⟩

/-- The same of a saved snapshot. -/
def SavedUsage.usageUnder (saved : SavedUsage) (metering : Metering) : Usage :=
  ⟨saved.upload, saved.download, saved.billedUnder metering⟩

/-- The counters are the same and so is how they are billed. -/
structure UserQuota.SameMeter (quota other : UserQuota) : Prop where
  snapshot : quota.snapshot = other.snapshot
  metering : quota.metering = other.metering

section Quota
variable {quota other : UserQuota}

theorem UserQuota.usage_eq (quota : UserQuota) :
    quota.usage = quota.snapshot.usageUnder quota.metering := rfl

theorem UserQuota.SameMeter.usage (h : quota.SameMeter other) : quota.usage = other.usage := by
  rw [quota.usage_eq, other.usage_eq, h.snapshot, h.metering]

theorem UserQuota.setLimit_sameMeter (quota : UserQuota) (limit : Option Nat) :
    (if quota.limit ≠ limit then quota.setLimit limit else quota).SameMeter quota := by
  split
  · exact ⟨rfl, rfl⟩
  · exact ⟨rfl, rfl⟩

theorem Settings.retune_sameMeter (settings : Settings) (name : String)
    (h : quota.metering = settings.metering) : (settings.retune name quota).SameMeter quota := by
  unfold Settings.retune
  rw [if_neg (not_not.mpr h)]
  exact quota.setLimit_sameMeter _

/-- A new user starts from what is saved under its name. -/
theorem Settings.create_usage (settings : Settings) (name : String) (hour : Int) :
    (settings.create name hour).metering = settings.metering ∧
      (settings.create name hour).usage =
        ((settings.saved[name]?).getD {}).usageUnder settings.metering := by
  unfold Settings.create
  have hsame := (UserQuota.newMeteredAt name (settings.quotas.getD name none)
    ((settings.saved[name]?).getD {}) settings.metering hour).setLimit_sameMeter
      (settings.limitOf name (UserQuota.newMeteredAt name (settings.quotas.getD name none)
        ((settings.saved[name]?).getD {}) settings.metering hour))
  refine ⟨hsame.metering.trans (meteringFrom_meteringCode _), hsame.usage.trans ?_⟩
  unfold UserQuota.usage SavedUsage.usageUnder
  rw [used_newMeteredAt]
  rfl

end Quota

namespace System

/-- What a published user reports. -/
def usageOf (s : System) (name : String) : Option Usage :=
  (getUser s.world.runtime.users name).map fun ref => (s.world.quotas ref.id).usage

/-- Where an `apply` under way is: who is new starts from the row of its name. -/
structure TakingOver {Text : Type} (s : System) (db : StateDb Text) (metering : Metering)
    (config : Config) (settings : Settings) (done : List QuotaRef) (todo : List UserConfig) :
    Prop where
  billing : settings.metering = metering
  handled : Handled s.world.next s.world.runtime.users (config.users.map UserConfig.name) done todo
  done : ∀ ref ∈ done, getUser s.world.runtime.users ref.name = some ref ∨
    (getUser s.world.runtime.users ref.name = none ∧
      (s.world.quotas ref.id).metering = metering ∧
      (s.world.quotas ref.id).usage = ((db.usage[ref.name]?).getD {}).usageUnder metering)
  todo : ∀ user ∈ todo, getUser s.world.runtime.users user.name = none →
    settings.saved[user.name]? = db.usage[user.name]?

def Applying {Text : Type} (s : System) (db : StateDb Text) (metering : Metering) : Prop :=
  match s.main with
  | .adopting _ config settings _ _ done todo => s.TakingOver db metering config settings done todo
  | _ => True

/-- Who is published reports what was last known of the name, and who is not is in the database
with it. -/
structure Keeps {Text : Type} (s : System) (db : StateDb Text) (metering : Metering)
    (known : String → Option Usage) : Prop where
  hasDb : s.world.runtime.hasDb = true
  coherent : db.Coherent
  names : (s.world.runtime.users.map QuotaRef.name).Nodup
  distinct : Distinct s.world.next s.world.runtime.users
  metered : ∀ ref ∈ s.world.runtime.users, (s.world.quotas ref.id).metering = metering
  present : ∀ ref ∈ s.world.runtime.users, ∀ usage, known ref.name = some usage →
    (s.world.quotas ref.id).usage = usage
  absent : ∀ name usage, known name = some usage →
    getUser s.world.runtime.users name = none →
      ∃ row, db.usage[name]? = some row ∧ row.usageUnder metering = usage
  applying : s.Applying db metering

section Steps
variable {Text : Type} {s next : System} {db after : StateDb Text} {metering : Metering}
  {known : String → Option Usage}

theorem ne_of_getUser_none {users : List QuotaRef} {name : String}
    (h : getUser users name = none) : ∀ ref ∈ users, ref.name ≠ name := by
  intro ref hmem heq
  unfold getUser at h
  have hnot := List.find?_eq_none.mp h ref (List.mem_reverse.mpr hmem)
  simp [heq] at hnot

/-- An `apply` under way goes on where no unpublished quota changes its meter and no absent user
its row. -/
theorem Applying.kept (h : s.Applying db metering) (hmain : next.main = s.main)
    (hruntime : next.world.runtime = s.world.runtime) (hfresh : next.world.next = s.world.next)
    (hquotas : ∀ id, id ∉ s.world.runtime.users.map QuotaRef.id →
      (next.world.quotas id).SameMeter (s.world.quotas id))
    (hrows : ∀ name, getUser s.world.runtime.users name = none →
      after.usage[name]? = db.usage[name]?) : next.Applying after metering := by
  unfold Applying at h ⊢
  rw [hmain]
  cases hat : s.main with
  | idle => trivial
  | applied config => trivial
  | adopting env config settings removed added done todo =>
    rw [hat] at h
    dsimp only at h ⊢
    refine ⟨h.billing, ?_, ?_, ?_⟩
    · rw [hruntime, hfresh]
      exact h.handled
    · rw [hruntime]
      intro ref hmem
      rcases h.done ref hmem with hpublished | ⟨hnone, hmetering, husage⟩
      · exact Or.inl hpublished
      · have hfree : ref.id ∉ s.world.runtime.users.map QuotaRef.id := by
          rcases h.handled.known ref hmem with hpublished | hfree
          · exact absurd rfl (ne_of_getUser_none hnone ref hpublished)
          · exact hfree
        have hsame := hquotas ref.id hfree
        rw [hrows ref.name hnone]
        exact Or.inr ⟨hnone, hsame.metering.trans hmetering, hsame.usage.trans husage⟩
    · rw [hruntime]
      intro user hmem hnone
      rw [hrows user.name hnone]
      exact h.todo user hmem hnone

/-- Nobody's counters, nor the rows, change. -/
theorem Keeps.of_same (h : s.Keeps db metering known)
    (hruntime : next.world.runtime = s.world.runtime) (hfresh : next.world.next = s.world.next)
    (hmain : next.main = s.main)
    (hquotas : ∀ id, (next.world.quotas id).SameMeter (s.world.quotas id))
    (husage : after.usage = db.usage) (hlast : after.lastFlushed = db.lastFlushed) :
    next.Keeps after metering known := by
  refine ⟨?_, ?_, ?_, ?_, ?_, ?_, ?_, ?_⟩
  · rw [hruntime]
    exact h.hasDb
  · unfold StateDb.Coherent
    rw [husage, hlast]
    exact h.coherent
  · rw [hruntime]
    exact h.names
  · rw [hruntime, hfresh]
    exact h.distinct
  · rw [hruntime]
    intro ref hmem
    exact (hquotas ref.id).metering.trans (h.metered ref hmem)
  · rw [hruntime]
    intro ref hmem usage hknown
    exact (hquotas ref.id).usage.trans (h.present ref hmem usage hknown)
  · rw [hruntime, husage]
    exact h.absent
  · apply h.applying.kept hmain hruntime hfresh (fun id _ => hquotas id)
    intro name _
    rw [husage]

/-- An engine step changes limits only. -/
theorem engineStep_meters {step : EngineStep} (h : s.engineStep step = some next) :
    next.world.runtime = s.world.runtime ∧ next.world.next = s.world.next ∧
      next.main = s.main ∧ ∀ id, (next.world.quotas id).SameMeter (s.world.quotas id) := by
  rcases engineStep_cases h with
    ⟨-, engine, rfl, -⟩ | ⟨config, book, -, rfl⟩ | ⟨-, rfl⟩ | ⟨-, rfl⟩ | ⟨config, -, -, rfl⟩ |
    ⟨config, -, -, rfl⟩ | ⟨-, rfl⟩ | ⟨-, rfl⟩ | ⟨-, ref, todo, -, rfl⟩
  case inr.inr.inr.inr.inr.inr.inr.inr =>
    refine ⟨rfl, rfl, rfl, ?_⟩
    intro id
    change (Function.update s.world.quotas ref.id _ id).SameMeter _
    by_cases heq : id = ref.id
    · rw [heq, Function.update_self]
      exact (s.world.quotas ref.id).setLimit_sameMeter _
    · rw [Function.update_of_ne heq]
      exact ⟨rfl, rfl⟩
  all_goals exact ⟨rfl, rfl, rfl, fun _ => ⟨rfl, rfl⟩⟩

/-! ## Flushes -/

/-- A flush that succeeds writes the snapshots of its users, and no other row. -/
theorem flush_rows (hcoherent : db.Coherent) (w : World) {refs : List QuotaRef}
    (hnames : (refs.map QuotaRef.name).Nodup) :
    (db.flush (.ok ()) (Process.snapshots w refs)).1.Coherent ∧
      (∀ ref ∈ refs, (db.flush (.ok ()) (Process.snapshots w refs)).1.usage[ref.name]? =
        some (w.quotas ref.id).snapshot) ∧
      ∀ name, (∀ ref ∈ refs, ref.name ≠ name) →
        (db.flush (.ok ()) (Process.snapshots w refs)).1.usage[name]? = db.usage[name]? := by
  have hrows : OneEach (Process.snapshots w refs) := by
    apply oneEach_of_nodup
    rw [Process.snapshots, List.map_map]
    exact hnames
  have hok : (db.flush (.ok ()) (Process.snapshots w refs)).2 = .ok () := by
    unfold StateDb.flush
    dsimp only
    split <;> rfl
  obtain ⟨hafter, ⟨-, husage⟩ | ⟨⟨e, herror⟩, -⟩⟩ := hcoherent.flush (.ok ()) hrows
  · refine ⟨hafter, ?_, ?_⟩
    · intro ref hmem
      rw [husage]
      have hrow : (ref.name, (w.quotas ref.id).snapshot) ∈ Process.snapshots w refs :=
        List.mem_map_of_mem hmem
      exact getElem?_putAll_of_mem db.usage hrows hrow
    · intro name hother
      rw [husage]
      apply getElem?_putAll_of_notMem
      intro row hrow
      obtain ⟨ref, hmem, rfl⟩ := List.mem_map.mp hrow
      exact hother ref hmem
  · rw [hok] at herror
    cases herror

/-- A flush of the published users. -/
theorem Keeps.flush (h : s.Keeps db metering known) :
    s.Keeps (db.flush (.ok ()) (Process.snapshots s.world s.world.runtime.users)).1 metering
      known := by
  obtain ⟨hcoherent, -, hother⟩ := flush_rows h.coherent s.world h.names
  have hrow : ∀ name, getUser s.world.runtime.users name = none →
      (db.flush (.ok ()) (Process.snapshots s.world s.world.runtime.users)).1.usage[name]? =
        db.usage[name]? := fun name hnone => hother name (ne_of_getUser_none hnone)
  refine ⟨h.hasDb, hcoherent, h.names, h.distinct, h.metered, h.present, ?_, ?_⟩
  · intro name usage hknown hnone
    rw [hrow name hnone]
    exact h.absent name usage hknown hnone
  · exact h.applying.kept rfl rfl rfl (fun _ _ => ⟨rfl, rfl⟩) hrow

/-! ## Steps of the main loop -/

/-- What `apply` has loaded is the row of everyone it will add. -/
theorem savedFor_absent {env : Env} {config : Config} {saved : Std.ExtTreeMap String SavedUsage}
    {runtime : Runtime} (hasDb : runtime.hasDb = true)
    (h : savedFor (Process.answered (some db) env) runtime config = .ok saved)
    {user : UserConfig} (huser : user ∈ config.users)
    (hnone : getUser runtime.users user.name = none) : saved = db.usage := by
  have hnew : config.users.any (fun user => (getUser runtime.users user.name).isNone) = true :=
    List.any_eq_true.mpr ⟨user, huser, by rw [hnone]; rfl⟩
  unfold savedFor at h
  rw [hnew, hasDb, Bool.and_true, if_pos rfl] at h
  unfold Process.answered at h
  dsimp only at h
  cases hload : env.load with
  | error e =>
    rw [hload] at h
    cases h
  | ok found =>
    rw [hload] at h
    exact (Except.ok.inj h).symm

/-- `apply` has gathered what it needs and starts to set up the users. -/
theorem Keeps.start (h : s.Keeps db metering known) {env : Env} {config : Config}
    {binds : List Bind} {added : List PreparedRule} {saved : Std.ExtTreeMap String SavedUsage}
    (hvalid : Valid config) (hmetering : config.accounting.metering = metering)
    (hgathered : gathered (Process.answered (some db) env) config s.world =
      (binds, .ok (added, saved)))
    (hnext : next = { s with
      world := { s.world with binds }
      main := .adopting (Process.answered (some db) env) config (settingsOf config s.world saved)
        (removedSpecs s.world.runtime.rules (specsOf config)) added [] config.users }) :
    next.Keeps db metering known := by
  subst hnext
  refine ⟨h.hasDb, h.coherent, h.names, h.distinct, h.metered, h.present, h.absent, ?_⟩
  refine ⟨hmetering, ⟨hvalid.names, rfl, ⟨List.nodup_nil, ?_⟩, ?_⟩, ?_, ?_⟩
  · exact fun ref hmem => absurd hmem List.not_mem_nil
  · exact fun ref hmem => absurd hmem List.not_mem_nil
  · exact fun ref hmem => absurd hmem List.not_mem_nil
  · intro user hmem hnone
    change saved[user.name]? = _
    rw [savedFor_absent h.hasDb (gathered_saved hgathered) hmem hnone]

theorem adoptUser_usage (env : Env) (settings : Settings) (current : List QuotaRef) (w : World)
    (user : UserConfig) (hmetered : ∀ ref, getUser current user.name = some ref →
      (w.quotas ref.id).metering = settings.metering) :
    ∃ ref quota fresh, adoptUser env settings current w user =
        (ref, { w with quotas := Function.update w.quotas ref.id quota, next := fresh }) ∧
      ref.name = user.name ∧
      ((getUser current user.name = some ref ∧ fresh = w.next ∧
          quota.SameMeter (w.quotas ref.id)) ∨
        (getUser current user.name = none ∧ ref.id = w.next ∧ fresh = w.next + 1 ∧
          quota.metering = settings.metering ∧ quota.usage =
            ((settings.saved[user.name]?).getD {}).usageUnder settings.metering)) := by
  obtain ⟨ref, quota, fresh, hadopt, hname, hcases⟩ := adoptUser_eq env settings current w user
  refine ⟨ref, quota, fresh, hadopt, hname, ?_⟩
  rcases hcases with ⟨hfound, hfresh, rfl⟩ | ⟨hnone, hid, hfresh, rfl⟩
  · exact Or.inl ⟨hfound, hfresh, settings.retune_sameMeter _ (hmetered ref hfound)⟩
  · obtain ⟨hmetering, husage⟩ := settings.create_usage user.name (env.hour user.name)
    exact Or.inr ⟨hnone, hid, hfresh, hmetering, husage⟩

/-- One more user set up. -/
theorem Keeps.adopt (h : s.Keeps db metering known) {env : Env} {config : Config}
    {settings : Settings} {removed : List RuleSpec} {added : List PreparedRule}
    {done : List QuotaRef} {user : UserConfig} {todo : List UserConfig}
    (hmain : s.main = .adopting env config settings removed added done (user :: todo))
    (hnext : next = { s with
      world := (adoptUser env settings s.world.runtime.users s.world user).2
      main := .adopting env config settings removed added
        (done ++ [(adoptUser env settings s.world.runtime.users s.world user).1]) todo }) :
    next.Keeps db metering known := by
  have htaking : s.TakingOver db metering config settings done (user :: todo) := by
    have happlying := h.applying
    unfold Applying at happlying
    rwa [hmain] at happlying
  have hbilling := htaking.billing
  obtain ⟨ref, quota, fresh, hadopt, hname, hcases⟩ := adoptUser_usage env settings
    s.world.runtime.users s.world user
    (fun ref hfound => (h.metered ref (getUser_name hfound).1).trans hbilling.symm)
  have hid : (getUser s.world.runtime.users user.name = some ref ∧ fresh = s.world.next) ∨
      (getUser s.world.runtime.users user.name = none ∧ ref.id = s.world.next ∧
        fresh = s.world.next + 1) := by
    rcases hcases with ⟨hfound, hfresh, -⟩ | ⟨hnone, hnew, hfresh, -⟩
    · exact Or.inl ⟨hfound, hfresh⟩
    · exact Or.inr ⟨hnone, hnew, hfresh⟩
  obtain ⟨hhandled, hdifferent⟩ := htaking.handled.adopt h.distinct hname hid
  rw [hadopt] at hnext
  subst hnext
  -- a new object is nobody's yet
  have hmeter : ∀ other, other ∈ s.world.runtime.users ∨ other ∈ done →
      UserQuota.SameMeter (Function.update s.world.quotas ref.id quota other.id)
        (s.world.quotas other.id) := by
    intro other hother
    by_cases heq : other.id = ref.id
    · rcases hcases with ⟨-, -, hsame⟩ | ⟨-, hnew, -⟩
      · rw [heq, Function.update_self]
        exact hsame
      · rcases hother with hpublished | hdone
        · have hlt := h.distinct.fresh other hpublished
          omega
        · exact absurd heq (hdifferent other hdone)
    · rw [Function.update_of_ne heq]
      exact ⟨rfl, rfl⟩
  have hle : s.world.next ≤ fresh := by
    rcases hid with ⟨-, hfresh⟩ | ⟨-, -, hfresh⟩
    · exact hfresh.ge
    · omega
  refine ⟨h.hasDb, h.coherent, h.names, ⟨h.distinct.nodup, ?_⟩, ?_, ?_, h.absent, ?_⟩
  · exact fun other hmem => (h.distinct.fresh other hmem).trans_le hle
  · intro other hmem
    exact (hmeter other (Or.inl hmem)).metering.trans (h.metered other hmem)
  · intro other hmem usage hknown
    exact (hmeter other (Or.inl hmem)).usage.trans (h.present other hmem usage hknown)
  · refine ⟨hbilling, hhandled, ?_, ?_⟩
    · intro other hother
      rcases List.mem_append.mp hother with hold | hlast
      · have hsame := hmeter other (Or.inr hold)
        rcases htaking.done other hold with hkept | ⟨hnone, hmetering, husage⟩
        · exact Or.inl hkept
        · exact Or.inr ⟨hnone, hsame.metering.trans hmetering, hsame.usage.trans husage⟩
      · rw [List.mem_singleton.mp hlast, hname]
        rcases hcases with ⟨hfound, -⟩ | ⟨hnone, -, -, hmetering, husage⟩
        · exact Or.inl hfound
        · right
          change _ ∧ (Function.update s.world.quotas ref.id quota ref.id).metering = _ ∧
            (Function.update s.world.quotas ref.id quota ref.id).usage = _
          rw [Function.update_self, husage, hbilling,
            htaking.todo user List.mem_cons_self hnone]
          exact ⟨hnone, hmetering.trans hbilling, rfl⟩
    · exact fun other hother => htaking.todo other (List.mem_cons_of_mem user hother)

/-- The users are published; those who left have been flushed. -/
theorem Keeps.publish (h : s.Keeps db metering known) {env : Env} {config : Config}
    {settings : Settings} {removed : List RuleSpec} {added : List PreparedRule}
    {users : List QuotaRef} (hmain : s.main = .adopting env config settings removed added users [])
    (hnext : next = { s with
      world := swapRules removed added users s.world, main := .applied config }) :
    next.Keeps (db.flush (.ok ()) (Process.snapshots s.world
      (Process.gone s.world.runtime.users users))).1 metering known := by
  have htaking : s.TakingOver db metering config settings users [] := by
    have happlying := h.applying
    unfold Applying at happlying
    rwa [hmain] at happlying
  have hgone : ((Process.gone s.world.runtime.users users).map QuotaRef.name).Nodup :=
    h.names.sublist (List.filter_sublist.map _)
  obtain ⟨hcoherent, hflushed, hother⟩ := flush_rows h.coherent s.world hgone
  obtain ⟨hquotas, -, hfresh, husers⟩ := swapRules_frame removed added users s.world
  have hnames : (users.map QuotaRef.name).Nodup := by
    have hnodup := htaking.handled.nodup
    rwa [← htaking.handled.names, List.map_nil, List.append_nil] at hnodup
  subst hnext
  have hmetered : ∀ ref ∈ users, (s.world.quotas ref.id).metering = metering := by
    intro ref hmem
    rcases htaking.done ref hmem with hkept | ⟨-, hmetering, -⟩
    · exact h.metered ref (getUser_name hkept).1
    · exact hmetering
  refine ⟨?_, hcoherent, ?_, ⟨?_, ?_⟩, ?_, ?_, ?_, trivial⟩
  · exact (swapRules_hasDb removed added users s.world).trans h.hasDb
  · rwa [husers]
  · rw [husers]
    exact htaking.handled.distinct.nodup
  · rw [husers]
    exact fun ref hmem => (htaking.handled.distinct.fresh ref hmem).trans_le hfresh
  · rw [husers]
    dsimp only
    rw [hquotas]
    exact hmetered
  · rw [husers]
    dsimp only
    rw [hquotas]
    intro ref hmem usage hknown
    rcases htaking.done ref hmem with hkept | ⟨hnone, -, husage⟩
    · exact h.present ref (getUser_name hkept).1 usage hknown
    · obtain ⟨row, hrow, hsame⟩ := h.absent ref.name usage hknown hnone
      rw [husage, hrow]
      exact hsame
  · rw [husers]
    intro name usage hknown hnone
    cases hbefore : getUser s.world.runtime.users name with
    | none =>
      obtain ⟨row, hrow, hsame⟩ := h.absent name usage hknown hbefore
      refine ⟨row, ?_, hsame⟩
      rw [hother name, hrow]
      exact fun ref hmem => ne_of_getUser_none hbefore ref (List.mem_of_mem_filter hmem)
    | some ref =>
      obtain ⟨hmem, rfl⟩ := getUser_name hbefore
      refine ⟨(s.world.quotas ref.id).snapshot, ?_, ?_⟩
      · apply hflushed
        exact List.mem_filter.mpr ⟨hmem, by rw [hnone]; rfl⟩
      · rw [← h.metered ref hmem, ← UserQuota.usage_eq]
        exact h.present ref hmem usage hknown

theorem Keeps.mainStep (h : s.Keeps db metering known) {step : MainStep}
    (hstart : ∀ env config, step = .start env config →
      Valid config ∧ config.accounting.metering = metering ∧
        ∃ asked, env = Process.answered (some db) asked)
    (hstep : s.mainStep step = some next) :
    (step ≠ .publishUsers ∧ next.Keeps db metering known) ∨
    (∃ env config settings removed added users, step = .publishUsers ∧
      s.main = .adopting env config settings removed added users [] ∧
      next.Keeps (db.flush (.ok ()) (Process.snapshots s.world
        (Process.gone s.world.runtime.users users))).1 metering known) := by
  have hidle : ∀ binds, s.main = .idle →
      Keeps { s with world := { s.world with binds } } db metering known :=
    fun binds _ => h.of_same rfl rfl rfl (fun _ => ⟨rfl, rfl⟩) rfl rfl
  cases step with
  | start env config =>
    refine Or.inl ⟨by simp, ?_⟩
    obtain ⟨hvalid, hmetering, asked, rfl⟩ := hstart env config rfl
    unfold System.mainStep at hstep
    cases hmain : s.main with
    | adopting env config settings removed added done todo => simp [hmain] at hstep
    | applied config => simp [hmain] at hstep
    | idle =>
      rw [hmain] at hstep
      dsimp only at hstep
      cases hgathered : gathered (Process.answered (some db) asked) config s.world with
      | mk binds outcome =>
        rw [hgathered] at hstep
        cases outcome with
        | error e =>
          obtain rfl := Option.some.inj hstep
          rw [← hmain]
          exact hidle binds hmain
        | ok found => exact h.start hvalid hmetering hgathered (Option.some.inj hstep).symm
  | adopt =>
    refine Or.inl ⟨by simp, ?_⟩
    unfold System.mainStep at hstep
    cases hmain : s.main with
    | idle => simp [hmain] at hstep
    | applied config => simp [hmain] at hstep
    | adopting env config settings removed added done todo =>
      rw [hmain] at hstep
      cases todo with
      | nil => cases hstep
      | cons user todo => exact h.adopt hmain (Option.some.inj hstep).symm
  | publishUsers =>
    right
    rcases mainStep_cases hstep with ⟨hmain, -⟩ | ⟨hmain, -⟩ |
      ⟨env, config, settings, removed, added, done, user, todo, hmain, -⟩ |
      ⟨env, config, settings, removed, added, users, hmain, -, hnext⟩ | ⟨config, hmain, -⟩
    · simp [System.mainStep, hmain] at hstep
    · simp [System.mainStep, hmain] at hstep
    · unfold System.mainStep at hstep
      rw [hmain] at hstep
      cases hengine : s.engine <;> simp [hengine] at hstep
    · exact ⟨env, config, settings, removed, added, users, rfl, hmain, h.publish hmain hnext⟩
    · simp [System.mainStep, hmain] at hstep
  | publishLive =>
    refine Or.inl ⟨by simp, ?_⟩
    unfold System.mainStep at hstep
    cases hmain : s.main with
    | idle => simp [hmain] at hstep
    | adopting env config settings removed added done todo => simp [hmain] at hstep
    | applied config =>
      rw [hmain] at hstep
      obtain rfl := Option.some.inj hstep
      exact ⟨h.hasDb, h.coherent, h.names, h.distinct, h.metered, h.present, h.absent, trivial⟩

/-! ## Traffic -/

/-- What is known of a name from here on: what its user reports, or what was known. -/
def remember (s : System) (known : String → Option Usage) (name : String) : Option Usage :=
  s.usageOf name <|> known name

theorem remember_of_mem (known : String → Option Usage)
    (hnames : (s.world.runtime.users.map QuotaRef.name).Nodup)
    {ref : QuotaRef} (hmem : ref ∈ s.world.runtime.users) :
    s.remember known ref.name = some (s.world.quotas ref.id).usage := by
  rw [remember, usageOf, getUser_of_mem hnames hmem]
  rfl

theorem remember_of_none (known : String → Option Usage) {name : String}
    (h : getUser s.world.runtime.users name = none) :
    s.remember known name = known name := by
  rw [remember, usageOf, h]
  rfl

theorem Keeps.remember (h : s.Keeps db metering known) :
    s.Keeps db metering (s.remember known) := by
  refine ⟨h.hasDb, h.coherent, h.names, h.distinct, h.metered, ?_, ?_, h.applying⟩
  · intro ref hmem usage hknown
    rw [remember_of_mem known h.names hmem] at hknown
    exact Option.some.inj hknown
  · intro name usage hknown hnone
    rw [remember_of_none known hnone] at hknown
    exact h.absent name usage hknown hnone

/-- Traffic of a published user changes what that user reports, and nobody else. -/
theorem Keeps.setQuota (h : s.Keeps db metering known) {ref : QuotaRef}
    (hmem : ref ∈ s.world.runtime.users) {quota : UserQuota}
    (hmetering : quota.metering = (s.world.quotas ref.id).metering)
    (hnext : next = { s with world := s.world.setQuota ref.id quota }) :
    next.Keeps db metering (next.remember known) := by
  subst hnext
  have hother : ∀ id, id ≠ ref.id →
      Function.update s.world.quotas ref.id quota id = s.world.quotas id :=
    fun id hne => Function.update_of_ne hne _ _
  refine ⟨h.hasDb, h.coherent, h.names, h.distinct, ?_, ?_, ?_, ?_⟩
  · intro other hother'
    change (Function.update s.world.quotas ref.id quota other.id).metering = metering
    by_cases heq : other.id = ref.id
    · rw [heq, Function.update_self, hmetering]
      exact h.metered ref hmem
    · rw [hother other.id heq]
      exact h.metered other hother'
  · intro other hother' usage hknown
    have hreported := remember_of_mem known
      (s := { s with world := s.world.setQuota ref.id quota }) h.names hother'
    exact Option.some.inj (hreported.symm.trans hknown)
  · intro name usage hknown hnone
    have hbefore := remember_of_none known
      (s := { s with world := s.world.setQuota ref.id quota }) hnone
    exact h.absent name usage (hbefore.symm.trans hknown) hnone
  · refine h.applying.kept rfl rfl rfl ?_ (fun _ _ => rfl)
    intro id hfree
    have hne : id ≠ ref.id := by
      rintro rfl
      exact hfree (List.mem_map_of_mem hmem)
    change (Function.update s.world.quotas ref.id quota id).SameMeter _
    rw [hother id hne]
    exact ⟨rfl, rfl⟩

end Steps

end System

/-- The quota that the traffic is metered into. -/
def TrafficStep.id : TrafficStep → Nat
  | .tryConsumeAt id _ _ _ => id
  | .rollOverAt id _ => id

theorem System.Keeps.trafficStep {Text : Type} {s : System} {db : StateDb Text}
    {metering : Metering} {known : String → Option Usage} (h : s.Keeps db metering known)
    {step : TrafficStep} (hid : step.id ∈ s.world.runtime.users.map QuotaRef.id) :
    (s.trafficStep step).Keeps db metering ((s.trafficStep step).remember known) := by
  obtain ⟨ref, hmem, heq⟩ := List.mem_map.mp hid
  cases step with
  | tryConsumeAt id n direction hour =>
    obtain rfl : ref.id = id := heq
    exact h.setQuota hmem (UserQuota.metering_tryConsumeAt _ n direction hour) rfl
  | rollOverAt id hour =>
    obtain rfl : ref.id = id := heq
    exact h.setQuota hmem (congrArg meteringFrom (UserQuota.rollOverAt_fields _ hour).1) rfl

/-! ## Runs -/

inductive UsageStep where
  | system (step : Step)
  /-- A round of the flush task. -/
  | flush
  /-- The process flushes everyone, ends, and another one starts with this config. -/
  | restart (env : Env) (config : Config)

namespace UsageStep

/-- Every config was accepted and bills the same way. -/
def Admissible (metering : Metering) : UsageStep → Prop
  | .system (.main (.start _ config)) => Accepted config ∧ config.accounting.metering = metering
  | .restart _ config => Accepted config ∧ config.accounting.metering = metering
  | _ => True

end UsageStep

namespace Process

variable {codec : BookCodec}

/-- A step in which every flush succeeds. -/
def gracefully (p : Process codec.Text) : UsageStep → Option (Process codec.Text)
  | .system step => p.step codec (.system step (.ok ()))
  | .flush => p.step codec (.flush (.ok ()))
  | .restart env config =>
    (p.step codec (.flush (.ok ()))).bind fun flushed => flushed.step codec (.restart env config)

/-- Traffic is that of published users. -/
def Attended (p : Process codec.Text) : UsageStep → Prop
  | .system (.traffic step) => step.id ∈ p.system.world.runtime.users.map QuotaRef.id
  | _ => True

instance (p : Process codec.Text) : DecidablePred p.Attended
  | .system (.traffic step) =>
    inferInstanceAs (Decidable (step.id ∈ p.system.world.runtime.users.map QuotaRef.id))
  | .system (.main _) => isTrue trivial
  | .system (.engine _) => isTrue trivial
  | .flush => isTrue trivial
  | .restart _ _ => isTrue trivial

/-- The processes reached from a start on any database, each with what was last known of every
name: what its user reported when it was published last. -/
inductive Graceful (codec : BookCodec) (metering : Metering) :
    Process codec.Text → (String → Option Usage) → Prop
  | started {db : StateDb codec.Text} {quotas : Nat → UserQuota} {env : Env} {config : Config}
      {p : Process codec.Text} (haccepted : Accepted config)
      (hmetering : config.accounting.metering = metering)
      (hstart : start codec (some db) quotas env config = some p) :
      Graceful codec metering p p.system.usageOf
  | step {p next : Process codec.Text} {known : String → Option Usage} {step : UsageStep}
      (before : Graceful codec metering p known) (hadmissible : step.Admissible metering)
      (hattended : p.Attended step) (hstep : p.gracefully step = some next) :
      Graceful codec metering next (next.system.remember known)

/-- The database is there and the system keeps what is known. -/
def KeepsUsage (p : Process codec.Text) (metering : Metering) (known : String → Option Usage) :
    Prop :=
  ∃ db, p.db = some db ∧ p.system.Keeps db metering known

section Steps
variable {p next : Process codec.Text} {metering : Metering} {known : String → Option Usage}

/-- What a database says of everyone known, a process started on it keeps. -/
theorem keepsUsage_start {db : StateDb codec.Text} {quotas : Nat → UserQuota} {env : Env}
    {config : Config} (haccepted : Accepted config)
    (hmetering : config.accounting.metering = metering)
    (hknown : ∀ name usage, known name = some usage →
      ∃ row, db.usage[name]? = some row ∧ row.usageUnder metering = usage)
    (hstart : start codec (some db) quotas env config = some next) :
    next.KeepsUsage metering known := by
  unfold start at hstart
  cases hload : Engine.load codec (some db) with
  | error e =>
    rw [hload] at hstart
    cases hstart
  | ok engine =>
    rw [hload] at hstart
    dsimp only at hstart
    have hdb : engine.db = some db.reopen := by
      unfold Engine.load at hload
      dsimp only at hload
      cases hbook : db.loadBook codec with
      | error e =>
        rw [hbook] at hload
        cases hload
      | ok book =>
        rw [hbook] at hload
        obtain rfl := Except.ok.inj hload
        rfl
    split at hstart
    · cases hstart
    · rename_i w happly
      obtain rfl := Option.some.inj hstart
      obtain ⟨settings, hsettings, hrows, hnames, hasDb, hdistinct, hcreated⟩ :=
        started_users happly
      refine ⟨db.reopen, hdb, hasDb, db.coherent_reopen, ?_, hdistinct, ?_, ?_, ?_, trivial⟩
      · rw [System.started, hnames]
        exact haccepted.valid.names
      · intro ref hmem
        obtain ⟨hour, hquota⟩ := hcreated ref hmem
        change (w.quotas ref.id).metering = metering
        rw [hquota, (settings.create_usage ref.name hour).1, hsettings, hmetering]
      · intro ref hmem usage husage
        obtain ⟨hour, hquota⟩ := hcreated ref hmem
        obtain ⟨row, hrow, hsame⟩ := hknown ref.name usage husage
        change (w.quotas ref.id).usage = usage
        rw [hquota, (settings.create_usage ref.name hour).2, hsettings, hmetering,
          hrows ref.name (hnames ▸ List.mem_map_of_mem hmem)]
        change ((db.usage[ref.name]?).getD {}).usageUnder metering = usage
        rw [hrow]
        exact hsame
      · exact fun name usage husage _ => hknown name usage husage

/-- After a flush of everyone published the rows say what is known. -/
theorem rows_after_flush {s : System} {db : StateDb codec.Text}
    (h : s.Keeps db metering known) {name : String} {usage : Usage}
    (hknown : known name = some usage) :
    ∃ row, (db.flush (.ok ()) (snapshots s.world s.world.runtime.users)).1.usage[name]? =
      some row ∧ row.usageUnder metering = usage := by
  obtain ⟨-, hflushed, hother⟩ := System.flush_rows h.coherent s.world h.names
  cases hfound : getUser s.world.runtime.users name with
  | none =>
    rw [hother name (System.ne_of_getUser_none hfound)]
    exact h.absent name usage hknown hfound
  | some ref =>
    obtain ⟨hmem, rfl⟩ := getUser_name hfound
    refine ⟨_, hflushed ref hmem, ?_⟩
    rw [← h.metered ref hmem, ← UserQuota.usage_eq]
    exact h.present ref hmem usage hknown

/-- Apart from the flush of those who leave, a step of the system leaves the rows. -/
theorem dbAfter_rows {db : StateDb codec.Text} (hdb : p.db = some db) {step : Step}
    (hother : step ≠ .main .publishUsers) {flushed : Except String Unit}
    {after : Option (StateDb codec.Text)} (h : p.dbAfter codec flushed step = some after) :
    ∃ last, after = some last ∧ last.usage = db.usage ∧ last.lastFlushed = db.lastFlushed := by
  unfold dbAfter at h
  split at h
  · split at h
    · rename_i config book opened hengine hopened
      obtain rfl : db = opened := Option.some.inj (hdb.symm.trans hopened)
      rcases db.saveBook_cases codec (.ok ()) book p.batch with ⟨e, hsave⟩ | ⟨json, -, hsave⟩
      · rw [hsave] at h
        cases h
      · rw [hsave] at h
        obtain rfl := Option.some.inj h
        exact ⟨_, rfl, rfl, rfl⟩
    · obtain rfl := Option.some.inj h
      exact ⟨db, hdb, rfl, rfl⟩
  · exact absurd rfl hother
  · obtain rfl := Option.some.inj h
    exact ⟨db, hdb, rfl, rfl⟩

/-- The database answers a start; the other steps of the main loop are as they are. -/
theorem main_asked {db : StateDb codec.Text} (hdb : p.db = some db) {step : MainStep}
    {system : System} (h : p.system.step (ask p.db (.main step)) = some system) :
    ∃ asked, p.system.mainStep asked = some system ∧
      (asked = .publishUsers ↔ step = .publishUsers) ∧
      ∀ env config, asked = .start env config →
        ∃ before, step = .start before config ∧ env = answered (some db) before := by
  rw [hdb] at h
  cases step with
  | start env config =>
    refine ⟨.start (answered (some db) env) config, h, ?_, ?_⟩
    · constructor <;> (intro heq; cases heq)
    · intro after other heq
      obtain ⟨rfl, rfl⟩ := MainStep.start.inj heq
      exact ⟨env, rfl, rfl⟩
  | adopt =>
    refine ⟨.adopt, h, ?_, ?_⟩
    · constructor <;> (intro heq; cases heq)
    · intro after other heq
      cases heq
  | publishUsers =>
    refine ⟨.publishUsers, h, Iff.rfl, ?_⟩
    intro after other heq
    cases heq
  | publishLive =>
    refine ⟨.publishLive, h, ?_, ?_⟩
    · constructor <;> (intro heq; cases heq)
    · intro after other heq
      cases heq

/-- Traffic aside, no step changes what anybody is known to have used. -/
theorem KeepsUsage.step (h : p.KeepsUsage metering known) {step : UsageStep}
    (hadmissible : step.Admissible metering)
    (hquiet : ∀ traffic, step ≠ .system (.traffic traffic))
    (hstep : p.gracefully step = some next) : next.KeepsUsage metering known := by
  obtain ⟨db, hdb, hkeeps⟩ := h
  cases step with
  | flush =>
    obtain rfl := Option.some.inj hstep
    refine ⟨_, ?_, hkeeps.flush⟩
    rw [hdb]
    rfl
  | restart env config =>
    obtain ⟨haccepted, hmetering⟩ := hadmissible
    have hstart : start codec (some (db.flush (.ok ())
        (snapshots p.system.world p.system.world.runtime.users)).1) p.system.world.quotas env
        config = some next := by
      rw [← hstep]
      unfold gracefully Process.step
      rw [hdb]
      rfl
    exact keepsUsage_start haccepted hmetering
      (fun name usage => rows_after_flush hkeeps) hstart
  | system step =>
    obtain ⟨system, hsystem, hafter⟩ := Option.bind_eq_some_iff.mp hstep
    obtain ⟨after, hdbAfter, rfl⟩ := Option.map_eq_some_iff.mp hafter
    cases step with
    | traffic step => exact absurd rfl (hquiet step)
    | engine step =>
      obtain ⟨hruntime, hfresh, hmain, hmeters⟩ := System.engineStep_meters hsystem
      obtain ⟨last, rfl, husage, hlast⟩ := dbAfter_rows hdb (by nofun) hdbAfter
      exact ⟨last, rfl, hkeeps.of_same hruntime hfresh hmain hmeters husage hlast⟩
    | main step =>
      obtain ⟨asked, hmain, hpublish, hstart⟩ := main_asked hdb hsystem
      have hvalid : ∀ env config, asked = .start env config →
          Valid config ∧ config.accounting.metering = metering ∧
            ∃ before, env = answered (some db) before := by
        intro env config heq
        obtain ⟨before, rfl, henv⟩ := hstart env config heq
        exact ⟨hadmissible.1.valid, hadmissible.2, before, henv⟩
      rcases hkeeps.mainStep hvalid hmain with ⟨hother, hnext⟩ |
        ⟨env, config, settings, removed, added, users, hasked, hat, hnext⟩
      · have hothers : Step.main step ≠ .main .publishUsers := by
          intro heq
          exact hother (hpublish.mpr (Step.main.inj heq))
        obtain ⟨last, rfl, husage, hlast⟩ := dbAfter_rows hdb hothers hdbAfter
        exact ⟨last, rfl, hnext.of_same rfl rfl rfl (fun _ => ⟨rfl, rfl⟩) husage hlast⟩
      · obtain rfl := hpublish.mp hasked
        unfold dbAfter at hdbAfter
        rw [hat, hdb] at hdbAfter
        obtain rfl := Option.some.inj hdbAfter
        exact ⟨_, rfl, hnext⟩

theorem KeepsUsage.trafficStep (h : p.KeepsUsage metering known) {step : TrafficStep}
    (hattended : p.Attended (.system (.traffic step)))
    (hstep : p.gracefully (.system (.traffic step)) = some next) :
    next.KeepsUsage metering (next.system.remember known) := by
  obtain ⟨db, hdb, hkeeps⟩ := h
  change p.systemStep codec (.traffic step) (.ok ()) = some next at hstep
  obtain ⟨system, hsystem, hafter⟩ := Option.bind_eq_some_iff.mp hstep
  obtain ⟨after, hdbAfter, rfl⟩ := Option.map_eq_some_iff.mp hafter
  obtain rfl : p.system.trafficStep step = system := Option.some.inj hsystem
  obtain ⟨last, rfl, husage, hlast⟩ := dbAfter_rows hdb (by nofun) hdbAfter
  have hnext := hkeeps.trafficStep hattended
  exact ⟨last, rfl, hnext.of_same rfl rfl rfl (fun _ => ⟨rfl, rfl⟩) husage hlast⟩

theorem KeepsUsage.remember (h : p.KeepsUsage metering known) :
    p.KeepsUsage metering (p.system.remember known) := by
  obtain ⟨db, hdb, hkeeps⟩ := h
  exact ⟨db, hdb, hkeeps.remember⟩

theorem Graceful.keepsUsage (h : Graceful codec metering p known) :
    p.KeepsUsage metering known := by
  induction h with
  | started haccepted hmetering hstart =>
    rename_i p
    have hnothing : p.KeepsUsage metering fun _ => none := by
      apply keepsUsage_start haccepted hmetering _ hstart
      intro name usage hknown
      cases hknown
    have hall : p.system.remember (fun _ => none) = p.system.usageOf := by
      funext name
      unfold System.remember
      cases p.system.usageOf name <;> rfl
    exact hall ▸ hnothing.remember
  | @step p next known step _ hadmissible hattended hstep ih =>
    by_cases htraffic : ∃ traffic, step = .system (.traffic traffic)
    · obtain ⟨traffic, rfl⟩ := htraffic
      exact ih.trafficStep hattended hstep
    · have hquiet : ∀ traffic, step ≠ .system (.traffic traffic) :=
        fun traffic heq => htraffic ⟨traffic, heq⟩
      exact (ih.step hadmissible hquiet hstep).remember

end Steps

end Process

/-- Over any sequence of flushes that lists no name with two snapshots, the usage table is the
one that writing every listed user of every successful flush leaves. And in every graceful run,
whoever is published after a step other than traffic reports what was last known of the name:
what it reported when it was removed, or when the process ended. -/
theorem usage_survives (codec : BookCodec) :
    (∀ (db : StateDb codec.Text) (calls : List FlushCall),
      (∀ call ∈ calls, OneEach call.users) →
        (db.reopen.flushes calls).1.usage =
          StateDb.written db.usage (calls.zip (db.reopen.flushes calls).2)) ∧
    ∀ (metering : Metering) (p next : Process codec.Text) (known : String → Option Usage)
      (step : UsageStep), Process.Graceful codec metering p known → step.Admissible metering →
      (∀ traffic, step ≠ .system (.traffic traffic)) → p.gracefully step = some next →
        ∀ name before after, known name = some before →
          next.system.usageOf name = some after → after = before := by
  constructor
  · intro db calls hcalls
    exact db.coherent_reopen.flushes hcalls
  · intro metering p next known step hgraceful hadmissible hquiet hstep name before after hbefore
      hafter
    obtain ⟨db, -, hkeeps⟩ := hgraceful.keepsUsage.step hadmissible hquiet hstep
    unfold System.usageOf at hafter
    obtain ⟨ref, hfound, rfl⟩ := Option.map_eq_some_iff.mp hafter
    obtain ⟨hmem, rfl⟩ := getUser_name hfound
    exact hkeeps.present ref hmem before hbefore

/-! ## A user removed and added back -/

namespace Process

variable {codec : BookCodec}

/-- The process a list of steps leads to, with what is known there, if their traffic is that of
published users. -/
def attended (p : Process codec.Text) (known : String → Option Usage) :
    List UsageStep → Option (Process codec.Text × (String → Option Usage))
  | [] => some (p, known)
  | step :: rest =>
    if p.Attended step then
      (p.gracefully step).bind fun next => next.attended (next.system.remember known) rest
    else none

theorem Graceful.attended {metering : Metering} {run : List UsageStep}
    {p last : Process codec.Text} {known knownLast : String → Option Usage}
    (h : Graceful codec metering p known) (hadmissible : ∀ step ∈ run, step.Admissible metering)
    (hrun : p.attended known run = some (last, knownLast)) :
    Graceful codec metering last knownLast := by
  induction run generalizing p known with
  | nil =>
    obtain ⟨rfl, rfl⟩ := Prod.mk.inj (Option.some.inj hrun)
    exact h
  | cons step run ih =>
    rw [Process.attended] at hrun
    split at hrun
    · rename_i hattended
      obtain ⟨next, hstep, hrest⟩ := Option.bind_eq_some_iff.mp hrun
      refine ih (h.step (hadmissible step List.mem_cons_self) hattended hstep) ?_ hrest
      exact fun other hother => hadmissible other (List.mem_cons_of_mem step hother)
    · cases hrun

end Process

def bothUsers : Config where
  users := [{ name := "a", rules := [] }, { name := "b", rules := [] }]

def onlyB : Config where
  users := [{ name := "b", rules := [] }]

/-- User `a` downloads 40 bytes and is removed; the process restarts, and `a` is about to be
added back. -/
def absence : List UsageStep :=
  [.system (.traffic (.tryConsumeAt 0 40 .download 0)), .system (.main (.start freePorts onlyB)),
    .system (.main .adopt), .system (.main .publishUsers), .system (.main .publishLive),
    .restart freePorts onlyB, .system (.main (.start freePorts bothUsers)),
    .system (.main .adopt), .system (.main .adopt)]

/-- What is known of `a` before the users are published, and what is reported before and
after. -/
def absenceEnds : Option (Option Usage × Option Usage × Option Usage) :=
  (Process.start plainCodec (some {}) (fun _ => idleQuota) freePorts bothUsers).bind fun p =>
    (p.attended p.system.usageOf absence).bind fun last =>
      (last.1.gracefully (.system (.main .publishUsers))).map fun next =>
        (last.2 "a", last.1.system.usageOf "a", next.system.usageOf "a")

theorem absence_ends : absenceEnds = some (some ⟨0, 40, 40⟩, none, some ⟨0, 40, 40⟩) := by
  decide +kernel

theorem bothUsers_accepted : Accepted bothUsers := ⟨fun _ => true, bothUsers, rfl⟩

theorem onlyB_accepted : Accepted onlyB := ⟨fun _ => true, onlyB, rfl⟩

theorem absence_admissible : ∀ step ∈ absence, step.Admissible .max := by
  have hboth : Accepted bothUsers ∧ bothUsers.accounting.metering = .max :=
    ⟨bothUsers_accepted, rfl⟩
  have honly : Accepted onlyB ∧ onlyB.accounting.metering = .max := ⟨onlyB_accepted, rfl⟩
  simp [absence, UsageStep.Admissible, hboth, honly]

/-- A flush that is repeated, with another user and without success. -/
def repeatedFlush : List FlushCall :=
  [⟨[("a", { upload := 1 })], .ok ()⟩, ⟨[("a", { upload := 1 }), ("b", {})], .error "locked"⟩]

theorem usage_survives_absence :
    (({} : StateDb Book).reopen.flushes repeatedFlush).1.usage = StateDb.written ∅
        (repeatedFlush.zip (({} : StateDb Book).reopen.flushes repeatedFlush).2) ∧
      ∃ (last next : Process plainCodec.Text) (known : String → Option Usage),
        Process.Graceful plainCodec .max last known ∧ last.system.usageOf "a" = none ∧
          last.gracefully (.system (.main .publishUsers)) = some next ∧
          known "a" = some ⟨0, 40, 40⟩ ∧
          ∀ after, next.system.usageOf "a" = some after → after = ⟨0, 40, 40⟩ := by
  obtain ⟨hflushes, hruns⟩ := usage_survives plainCodec
  constructor
  · apply hflushes {} repeatedFlush
    intro call hcall
    unfold repeatedFlush at hcall
    rcases List.mem_cons.mp hcall with rfl | hlast
    · exact oneEach_of_nodup (by simp)
    · rw [List.mem_singleton.mp hlast]
      exact oneEach_of_nodup (by simp)
  · obtain ⟨first, hstart, hrest⟩ := Option.bind_eq_some_iff.mp absence_ends
    obtain ⟨⟨last, known⟩, hrun, hends⟩ := Option.bind_eq_some_iff.mp hrest
    obtain ⟨next, hstep, hsummary⟩ := Option.map_eq_some_iff.mp hends
    obtain ⟨hknown, hrest⟩ := Prod.mk.inj hsummary
    obtain ⟨haway, -⟩ := Prod.mk.inj hrest
    have hgraceful := (Process.Graceful.started bothUsers_accepted rfl hstart).attended
      absence_admissible hrun
    refine ⟨last, next, known, hgraceful, haway, hstep, hknown, ?_⟩
    intro after hafter
    exact hruns .max last next known (.system (.main .publishUsers)) hgraceful trivial nofun hstep
      "a" ⟨0, 40, 40⟩ after hknown hafter

end PortsBox
