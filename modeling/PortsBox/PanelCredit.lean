import PortsBox.PanelPage
import PortsBox.RuntimeUntouched

/-!
# Crediting a package from the dashboard

The page sends the whole config back to change one list of package ids. For a config
whose fields go through its form, that one list is all that changes: the secret stays,
the rules keep running, and a package that is counted elsewhere is refused.
-/

set_option autoImplicit false

namespace PortsBox

/-! ## The ids of a config -/

/-- The ids in the order `validate_accounting` looks at them. -/
def Config.packageIds (config : Config) : List String :=
  config.accounting.remote.elim [] RemoteConfig.packages ++
    config.users.flatMap UserConfig.packages

theorem refuse_ok {bad : Bool} {e : ConfigError} : refuse bad e = .ok () ↔ bad = false := by
  cases bad <;> simp [refuse]

theorem refuse_bind_ok {α : Type} {bad : Bool} {e : ConfigError} {f : Unit → Except ConfigError α}
    {a : α} : (refuse bad e >>= f) = .ok a ↔ bad = false ∧ f () = .ok a := by
  constructor
  · intro h
    obtain ⟨⟨⟩, hrefuse, h⟩ := bind_ok h
    exact ⟨refuse_ok.mp hrefuse, h⟩
  · intro h
    exact bind_of_ok (refuse_ok.mpr h.1) h.2

theorem checkPackages_ok_iff {seen ids : List String} :
    checkPackages seen ids = .ok () ↔
      (∀ id ∈ ids, isBlank id = false ∧ id ∉ seen) ∧ ids.Nodup := by
  induction ids generalizing seen with
  | nil => simp [checkPackages]
  | cons id ids ih =>
    rw [List.forall_mem_cons, List.nodup_cons]
    constructor
    · intro h
      obtain ⟨⟨⟩, hblank, h⟩ := bind_ok h
      obtain ⟨packages, hnew, h⟩ := bind_ok h
      obtain ⟨hout, rfl⟩ := insertNew_ok hnew
      obtain ⟨hrest, hnodup⟩ := ih.mp h
      refine ⟨⟨⟨refuse_ok.mp hblank, hout⟩, ?_⟩, ?_, hnodup⟩
      · intro other hother
        exact ⟨(hrest other hother).1, fun hseen =>
          (hrest other hother).2 (List.mem_cons_of_mem id hseen)⟩
      · intro hmem
        exact (hrest id hmem).2 List.mem_cons_self
    · rintro ⟨⟨⟨hblank, hout⟩, hrest⟩, hfresh, hnodup⟩
      refine bind_of_ok (refuse_ok.mpr hblank) (bind_of_ok (if_neg hout) (ih.mpr ⟨?_, hnodup⟩))
      intro other hother
      refine ⟨(hrest other hother).1, ?_⟩
      intro hseen
      rcases List.mem_cons.mp hseen with rfl | hseen
      · exact hfresh hother
      · exact (hrest other hother).2 hseen

/-- What the accounting section needs besides its ids. -/
structure Accounting.Sound (accounting : Accounting) : Prop where
  interval : ∀ remote, accounting.remote = some remote → minSyncSecs ≤ remote.intervalSecs
  regions : ∀ remote, accounting.remote = some remote → remote.regions.any isBlank = false
  active : accounting.mode = .remote → ∃ remote, accounting.remote = some remote ∧
    remote.accessKey.isEmpty = false ∧ remote.secretKey.isEmpty = false ∧
      remote.regions.isEmpty = false

theorem Accounting.sound_iff {accounting : Accounting} {remote : RemoteConfig}
    (h : accounting.remote = some remote) :
    accounting.Sound ↔ minSyncSecs ≤ remote.intervalSecs ∧ remote.regions.any isBlank = false ∧
      (accounting.mode = .remote → remote.accessKey.isEmpty = false ∧
        remote.secretKey.isEmpty = false ∧ remote.regions.isEmpty = false) := by
  constructor
  · rintro ⟨hinterval, hregions, hactive⟩
    refine ⟨hinterval remote h, hregions remote h, ?_⟩
    intro hmode
    obtain ⟨other, hother, hkeys⟩ := hactive hmode
    rw [h] at hother
    exact Option.some.inj hother ▸ hkeys
  · rintro ⟨hinterval, hregions, hactive⟩
    refine ⟨?_, ?_, fun hmode => ⟨remote, h, hactive hmode⟩⟩
    · intro other hother
      rw [h] at hother
      exact Option.some.inj hother ▸ hinterval
    · intro other hother
      rw [h] at hother
      exact Option.some.inj hother ▸ hregions

theorem validateAccounting_ok_iff {config : Config} :
    validateAccounting config = .ok () ↔
      checkPackages [] config.packageIds = .ok () ∧ config.accounting.Sound := by
  unfold validateAccounting Config.packageIds
  dsimp only
  cases hpackages : checkPackages [] (config.accounting.remote.elim [] RemoteConfig.packages ++
      config.users.flatMap UserConfig.packages) with
  | error e =>
    constructor
    · intro h
      cases h
    · rintro ⟨h, -⟩
      cases h
  | ok _ =>
    cases hremote : config.accounting.remote with
    | none =>
      cases hmode : config.accounting.mode with
      | offline =>
        refine iff_of_true rfl ⟨rfl, ?_, ?_, ?_⟩
        all_goals simp [hremote, hmode]
      | remote =>
        refine iff_of_false (fun h => ?_) (fun h => ?_)
        · cases h
        · obtain ⟨remote, hsome, -⟩ := h.2.active hmode
          rw [hremote] at hsome
          cases hsome
    | some remote =>
      have hsound := Accounting.sound_iff hremote
      change (refuse _ _ >>= fun _ => refuse _ _ >>= fun _ => _) = Except.ok () ↔ _
      rw [and_iff_right rfl, hsound, refuse_bind_ok, refuse_bind_ok, decide_eq_false_iff_not,
        not_lt]
      by_cases hmode : config.accounting.mode = .remote
      · rw [if_pos hmode]
        dsimp only
        rw [refuse_bind_ok, refuse_ok, Bool.or_eq_false_iff, and_assoc]
        simp [hmode]
      · rw [if_neg hmode]
        simp [hmode]

/-! ## The config with the package -/

section ChangeFirst
variable {α β : Type} {named : α → Bool} {change : α → α}

theorem map_changeFirst_of_same {g : α → β} (h : ∀ x, g (change x) = g x) (items : List α) :
    (changeFirst named change items).map g = items.map g := by
  induction items with
  | nil => rfl
  | cons item items ih =>
    rw [changeFirst]
    split
    · rw [List.map_cons, List.map_cons, h]
    · rw [List.map_cons, List.map_cons, ih]

theorem foldlM_changeFirst {ε σ : Type} {f : σ → α → Except ε σ} (h : ∀ s x, f s (change x) = f s x)
    (items : List α) (s : σ) : (changeFirst named change items).foldlM f s = items.foldlM f s := by
  induction items generalizing s with
  | nil => rfl
  | cons item items ih =>
    rw [changeFirst]
    split
    · rw [List.foldlM_cons, List.foldlM_cons, h]
    · rw [List.foldlM_cons, List.foldlM_cons]
      exact congrArg _ (funext ih)

theorem mem_changeFirst {items : List α} {x : α} (h : x ∈ changeFirst named change items) :
    x ∈ items ∨ ∃ y ∈ items, x = change y := by
  induction items with
  | nil => exact Or.inl h
  | cons item items ih =>
    rw [changeFirst] at h
    split at h
    · rcases List.mem_cons.mp h with rfl | htail
      · exact Or.inr ⟨item, List.mem_cons_self, rfl⟩
      · exact Or.inl (List.mem_cons_of_mem item htail)
    · rcases List.mem_cons.mp h with rfl | htail
      · exact Or.inl List.mem_cons_self
      · rcases ih htail with hold | ⟨y, hy, heq⟩
        · exact Or.inl (List.mem_cons_of_mem item hold)
        · exact Or.inr ⟨y, List.mem_cons_of_mem item hy, heq⟩

end ChangeFirst

theorem pushNew_cases (id : String) (packages : List String) :
    pushNew id packages = packages ∨ (pushNew id packages).Perm (id :: packages) := by
  unfold pushNew
  split
  · exact Or.inl rfl
  · exact Or.inr (List.perm_append_singleton id packages)

theorem changeFirst_packages (name id : String) (users : List UserConfig) :
    changeFirst (fun user : UserConfig => user.name = name) (UserConfig.credit id) users = users ∨
      ((changeFirst (fun user : UserConfig => user.name = name) (UserConfig.credit id)
        users).flatMap UserConfig.packages).Perm (id :: users.flatMap UserConfig.packages) := by
  induction users with
  | nil => exact Or.inl rfl
  | cons user users ih =>
    rw [changeFirst]
    split
    · rcases pushNew_cases id user.packages with hsame | hperm
      · rw [UserConfig.credit, hsame]
        exact Or.inl rfl
      · exact Or.inr (hperm.append_right _)
    · rcases ih with hsame | hperm
      · rw [hsame]
        exact Or.inl rfl
      · right
        rw [List.flatMap_cons, List.flatMap_cons]
        exact (hperm.append_left _).trans List.perm_middle

section Credit
variable {config : Config} {id : String} {choice : Choice}

/-- The package was counted there before, or it is one more. -/
theorem credit_cases (config : Config) (id : String) (choice : Choice) :
    config.credit id choice = config ∨
      (config.credit id choice).packageIds.Perm (id :: config.packageIds) := by
  cases choice with
  | split =>
    unfold Config.packageIds Config.credit
    cases hremote : config.accounting.remote with
    | none => exact Or.inr (List.Perm.refl _)
    | some remote =>
      rcases pushNew_cases id remote.packages with hsame | hperm
      · left
        rcases config with ⟨_, _, _, _, ⟨_, _, _⟩, _, _, _⟩
        dsimp only at hremote ⊢
        rw [Option.getD_some, hsame, hremote]
      · exact Or.inr (hperm.append_right _)
  | user name =>
    rcases changeFirst_packages name id config.users with hsame | hperm
    · left
      unfold Config.credit
      dsimp only
      rw [hsame]
    · exact Or.inr ((hperm.append_left _).trans List.perm_middle)

theorem specsOf_credit : specsOf (config.credit id choice) = specsOf config := by
  cases choice with
  | split => rfl
  | user name =>
    have hspecs : ∀ user : UserConfig,
        ((user.credit id).rules.filter (·.enabled)).map (specOf (user.credit id)) =
          (user.rules.filter (·.enabled)).map (specOf user) := fun _ => rfl
    unfold specsOf Config.credit
    rw [List.flatMap_def, List.flatMap_def, map_changeFirst_of_same hspecs]

theorem names_credit :
    (config.credit id choice).users.map UserConfig.name = config.users.map UserConfig.name := by
  cases choice with
  | split => rfl
  | user name =>
    have hname : ∀ user : UserConfig, (user.credit id).name = user.name := fun _ => rfl
    exact map_changeFirst_of_same hname config.users

theorem Accounting.Sound.credit (h : config.accounting.Sound) :
    (config.credit id choice).accounting.Sound := by
  cases choice with
  | user name => exact h
  | split =>
    cases hremote : config.accounting.remote with
    | none =>
      rw [Accounting.sound_iff rfl]
      unfold Config.credit
      rw [hremote]
      refine ⟨(by decide : 60 ≤ 600), rfl, ?_⟩
      intro hmode
      obtain ⟨remote, hsome, -⟩ := h.active hmode
      rw [hremote] at hsome
      cases hsome
    | some remote =>
      rw [Accounting.sound_iff hremote] at h
      rw [Accounting.sound_iff rfl]
      unfold Config.credit
      rw [hremote]
      exact h

theorem pushNew_ne_nil (id : String) (packages : List String) : pushNew id packages ≠ [] := by
  unfold pushNew
  split
  · next h => exact List.ne_nil_of_mem h
  · simp

theorem Config.Tidy.credit (h : config.Tidy) : (config.credit id choice).Tidy := by
  cases choice with
  | user name =>
    refine ⟨h.totalQuota, ?_, h.remote⟩
    intro user huser
    rcases mem_changeFirst huser with hold | ⟨old, hold, rfl⟩
    · exact h.users user hold
    · exact ⟨(h.users old hold).name, (h.users old hold).quota, (h.users old hold).rules⟩
  | split =>
    refine ⟨h.totalQuota, h.users, ?_⟩
    intro remote hremote
    obtain rfl := Option.some.inj hremote
    refine ⟨?_, Or.inr (Or.inr (Or.inr (Or.inr (pushNew_ne_nil id _))))⟩
    cases hold : config.accounting.remote with
    | none =>
      refine ⟨(by decide : jsTrim "" = ""), ?_, (by decide : 600 < 2 ^ 53)⟩
      intro region hregion
      cases hregion
    | some old =>
      have htidy := (h.remote old hold).1
      exact ⟨htidy.accessKey, htidy.regions, htidy.intervalSecs⟩

/-! ## What `check` says to it -/

/-- A package no one has, or one that is where it should go. -/
def Creditable (config : Config) (id : String) (choice : Choice) : Prop :=
  config.credit id choice = config ∨ isBlank id = false ∧ id ∉ config.packageIds

variable {isSocketAddr : String → Bool}

/-- `validate` down to the accounting section. -/
def validateShape (isSocketAddr : String → Bool) (config : Config) : Except ConfigError Unit := do
  refuse (config.users.isEmpty && config.enabledPanel.isNone) .noUsers
  refuse (config.singleUser && 1 < config.users.length) .singleUser
  refuse (config.stateFile.any (·.flushSecs = 0)) .flushSecs
  let tcpListens ← checkPanel config
  let _ ← config.users.foldlM (checkUser isSocketAddr) { tcpListens }
  return ()

theorem validate_eq (config : Config) : validate isSocketAddr config =
    (validateShape isSocketAddr config >>= fun _ => validateAccounting config) := by
  unfold validate validateShape
  simp only [bind_assoc, pure_bind]

theorem validateShape_credit :
    validateShape isSocketAddr (config.credit id choice) = validateShape isSocketAddr config := by
  cases choice with
  | split => rfl
  | user name =>
    have hsame : ∀ seen (user : UserConfig),
        checkUser isSocketAddr seen (user.credit id) = checkUser isSocketAddr seen user :=
      fun _ _ => rfl
    have hlength : (config.credit id (.user name)).users.length = config.users.length := by
      rw [← @List.length_map _ _ _ UserConfig.name, names_credit, List.length_map]
    have hempty : (config.credit id (.user name)).users.isEmpty = config.users.isEmpty := by
      rw [Bool.eq_iff_iff, List.isEmpty_iff, List.isEmpty_iff, ← List.length_eq_zero_iff, hlength,
        List.length_eq_zero_iff]
    unfold validateShape
    rw [hlength, hempty]
    unfold Config.credit
    simp only [foldlM_changeFirst hsame]
    rfl

theorem checked_credit_iff (h : Checked isSocketAddr config) :
    Checked isSocketAddr (config.credit id choice) ↔ Creditable config id choice := by
  obtain ⟨⟨⟩, hshape, haccounting⟩ := bind_ok (validate_eq config ▸ h.valid)
  obtain ⟨hpackages, hsound⟩ := validateAccounting_ok_iff.mp haccounting
  obtain ⟨hblank, hnodup⟩ := checkPackages_ok_iff.mp hpackages
  rcases credit_cases config id choice with hsame | hperm
  · rw [hsame]
    exact iff_of_true h (Or.inl hsame)
  · have hids : checkPackages [] (config.credit id choice).packageIds = .ok () ↔
        isBlank id = false ∧ id ∉ config.packageIds := by
      rw [checkPackages_ok_iff, hperm.nodup_iff, List.nodup_cons]
      constructor
      · rintro ⟨hall, hfresh, -⟩
        exact ⟨(hall id (hperm.mem_iff.mpr List.mem_cons_self)).1, hfresh⟩
      · rintro ⟨hid, hfresh⟩
        refine ⟨?_, hfresh, hnodup⟩
        intro other hother
        rcases List.mem_cons.mp (hperm.mem_iff.mp hother) with rfl | hold
        · exact ⟨hid, List.not_mem_nil⟩
        · exact hblank other hold
    have hvalid : validate isSocketAddr (config.credit id choice) = .ok () ↔
        isBlank id = false ∧ id ∉ config.packageIds := by
      rw [validate_eq, validateShape_credit, ← hids]
      constructor
      · intro hok
        obtain ⟨_, -, hrest⟩ := bind_ok hok
        exact (validateAccounting_ok_iff.mp hrest).1
      · intro hok
        exact bind_of_ok hshape (validateAccounting_ok_iff.mpr ⟨hok, hsound.credit⟩)
    have hrules : (config.credit id choice).rules = [] := by
      cases choice <;> exact h.rules
    constructor
    · intro hchecked
      exact Or.inr (hvalid.mp hchecked.valid)
    · rintro (hsame | hnew)
      · rw [hsame]
        exact h
      · exact ⟨hvalid.mpr hnew, hrules⟩

/-- The secret that the page does not know comes back from the live config. -/
theorem keepSecret_blank {accounting current : Accounting}
    (hsecret : ∀ remote, accounting.remote = some remote →
      remote.secretKey = current.remote.elim "" RemoteConfig.secretKey) :
    keepSecret { accounting with
      remote := accounting.remote.map fun remote => { remote with secretKey := "" } } current =
        accounting := by
  rcases accounting with ⟨mode, metering, remote⟩
  cases remote with
  | none => rfl
  | some remote =>
    have hremote := hsecret remote rfl
    rcases remote with ⟨provider, accessKey, secretKey, regions, intervalSecs, packages⟩
    dsimp only at hremote
    unfold keepSecret
    cases hcurrent : current.remote with
    | none =>
      rw [hcurrent] at hremote
      rw [hremote]
      rfl
    | some previous =>
      rw [hcurrent] at hremote
      rw [hremote]
      rfl

/-- The save that the page sends asks for the config with the package. -/
theorem edited_credit (live : Live) (fileRaw : String) :
    edited (editOf (live.credit id choice))
      (storeOf (editOf (live.credit id choice)) live.config fileRaw) live.config =
        live.config.credit id choice := by
  have hkept : keepSecret (getConfig (live.credit id choice)).accounting live.config.accounting =
      (live.config.credit id choice).accounting := by
    apply keepSecret_blank
    intro remote hremote
    cases choice with
    | split =>
      obtain rfl := Option.some.inj hremote
      cases live.config.accounting.remote <;> rfl
    | user name =>
      have hsame : live.config.accounting.remote = some remote := hremote
      rw [hsame]
      rfl
  unfold edited storeOf
  rw [show (editOf (live.credit id choice)).accounting =
    some (getConfig (live.credit id choice)).accounting from rfl, Option.getD_some, hkept]
  cases choice <;> rfl

end Credit

/-! ## Running loops -/

/-- The loops of processes: one starts, takes file texts and saves, and traffic and accounting
change quotas and limits in between. -/
inductive Lives {Content : Type} (f : Formats Content) : MainLoop → Prop
  | started {io : FileIo Content} {env : Env} {start : Boot} {raw : String}
      {before disk : Disk Content} {loop : MainLoop} {hasDb : Bool}
      {remote : Option (Std.ExtTreeMap String Nat)} {quotas : Nat → UserQuota}
      (hnew : start.world = { runtime := { hasDb }, remote, quotas })
      (hboot : boot f io env start raw before = (some loop, disk)) : Lives f loop
  | turned {loop : MainLoop} (before : Lives f loop) (io : FileIo Content) (env : Env)
      (change : Change) (disk : Disk Content) : Lives f (turn f io env change loop disk).2.1
  | outside {loop : MainLoop} (before : Lives f loop) (remote : Option (Std.ExtTreeMap String Nat))
      (quotas : Nat → UserQuota) :
      Lives f { loop with world := { loop.world with remote, quotas } }

section Loop
variable {Content : Type} {f : Formats Content}

/-- The live config is checked and in force. -/
structure InForce (f : Formats Content) (loop : MainLoop) : Prop where
  checked : Checked f.isSocketAddr loop.live.config
  consistent : Consistent loop.world (some loop.live.config)
  started : loop.world.runtime.started = true

theorem Checked.valid_config {isSocketAddr : String → Bool} {config : Config}
    (h : Checked isSocketAddr config) : Valid config := validate_ok h.valid

theorem InForce.of_apply {env : Env} {config : Config} {w after : World} {last : Option Config}
    {loop : MainLoop} (hchecked : Checked f.isSocketAddr config) (hbefore : Consistent w last)
    (happly : apply env config w = .ok () after) (hworld : loop.world = after)
    (hconfig : loop.live.config = config) : InForce f loop := by
  obtain ⟨added, happlied, -⟩ := apply_applied hbefore hchecked.valid_config happly
  obtain ⟨binds, added, saved, -, hafter⟩ := apply_installed happly
  refine ⟨hconfig ▸ hchecked, ?_, ?_⟩
  · rw [hworld, hconfig]
    exact happlied.consistent
  · rw [hworld, hafter]
    rfl

theorem InForce.of_same {loop after : MainLoop} (h : InForce f loop)
    (hworld : SameWorld loop.world after.world) (hlive : after.live = loop.live) :
    InForce f after := by
  have hruntime := congrArg World.runtime hworld
  have htasks := congrArg World.tasks hworld
  have hnext := congrArg World.next hworld
  dsimp only at hruntime htasks hnext
  refine ⟨hlive ▸ h.checked, ?_, ?_⟩
  · rw [hlive]
    exact h.consistent.of_same hruntime htasks hnext
  · rw [hruntime]
    exact h.started

theorem effective_checked {io : FileIo Content} {config : Config} {raw : String}
    {disk : Disk Content} (h : Checked f.isSocketAddr config) :
    Checked f.isSocketAddr (effective f io config raw disk).1 := by
  unfold effective
  cases storePathOf config with
  | none => exact h
  | some path =>
    dsimp only
    unfold restore
    cases loadStore f io path disk with
    | none => exact h
    | some store =>
      dsimp only
      split
      · exact h
      cases hcheck : check f.isSocketAddr (store.over config) with
      | error e => exact h
      | ok next => exact finalize_checked hcheck

/-- A start that succeeds has applied the config it runs with. -/
theorem boot_applied {io : FileIo Content} {env : Env} {start : Boot} {raw : String}
    {before disk : Disk Content} {loop : MainLoop}
    (h : boot f io env start raw before = (some loop, disk)) :
    Checked f.isSocketAddr loop.live.config ∧
      apply env loop.live.config start.world = .ok () loop.world := by
  unfold boot at h
  cases hparse : parse f raw with
  | none =>
    rw [hparse] at h
    cases h
  | some config =>
    rw [hparse] at h
    dsimp only at h
    split at h
    · cases h
    split at h
    · cases h
    next happly =>
    split at h
    · cases h
    obtain ⟨hloop, -⟩ := Prod.mk.inj h
    obtain rfl := Option.some.inj hloop
    exact ⟨effective_checked (parse_checked hparse), happly⟩

theorem Lives.inForce {loop : MainLoop} (h : Lives f loop) : InForce f loop := by
  induction h with
  | started hnew hboot =>
    obtain ⟨hchecked, happly⟩ := boot_applied hboot
    rw [hnew] at happly
    exact InForce.of_apply hchecked (Reaches.empty _ _ _).consistent.1 happly rfl rfl
  | @turned loop before io env change disk ih =>
    have hturned := PortsBox.turned f io env change loop disk
    generalize turn f io env change loop disk = outcome at hturned
    cases hturned with
    | rejected hworld => exact ih.of_same hworld rfl
    | reloaded hparse happly =>
      exact InForce.of_apply (parse_checked hparse) ih.consistent happly rfl rfl
    | stopped hstopped => exact ih
    | undone hpath hsubmitted happly => exact ih.of_same (sameWorld_of_refused happly) rfl
    | saved hpath hsubmitted happly =>
      exact InForce.of_apply (finalize_checked hsubmitted.checked) ih.consistent happly rfl rfl
  | outside before remote quotas ih =>
    exact ⟨ih.checked, ih.consistent.of_same rfl rfl rfl, ih.started⟩

/-! ## Credited -/

/-- A live config that the page keeps. -/
structure Live.Tidy (live : Live) : Prop where
  revision : live.revision < 2 ^ 53
  config : live.config.Tidy

theorem Checked.sound {isSocketAddr : String → Bool} {config : Config}
    (h : Checked isSocketAddr config) : config.accounting.Sound := by
  obtain ⟨⟨⟩, -, haccounting⟩ := bind_ok (validate_eq config ▸ h.valid)
  exact (validateAccounting_ok_iff.mp haccounting).2

/-- What the page sends for a package arrives as the edit of the config with the package. -/
theorem sent_credit {isSocketAddr : String → Bool} {live : Live}
    (h : Checked isSocketAddr live.config) (htidy : live.Tidy) (id : String) (choice : Choice) :
    (fromDraft ((openDraft (.ofView (getConfig live))).credit id choice)).bind
      (fun json => json.toEdit.toOption) = some (editOf (live.credit id choice)) := by
  have hmode : (live.config.credit id choice).accounting.remote = none →
      (live.config.credit id choice).accounting.mode = .offline := by
    intro hnone
    cases hmode : (live.config.credit id choice).accounting.mode with
    | offline => rfl
    | remote =>
      have hsound : (live.config.credit id choice).accounting.Sound := h.sound.credit
      obtain ⟨remote, hsome, -⟩ := hsound.active hmode
      rw [hnone] at hsome
      cases hsome
  have hcredit : (live.credit id choice).config.Tidy := htidy.config.credit
  rw [openDraft_credit, fromDraft_openDraft hcredit hmode, Option.bind_some, toEdit_sent hcredit]
  rfl

/-- Crediting a package saves the config with the package and touches nothing that runs, or is
refused and touches nothing at all. -/
theorem credit_package {loop : MainLoop} (hlives : Lives f loop) (htidy : loop.live.Tidy)
    {path : String} (hpath : loop.storePath = some path) {io : FileIo Content}
    (hwrite : io.write = true) (env : Env) (id : String) (choice : Choice) (disk : Disk Content) :
    (Creditable loop.live.config id choice →
      ∃ live world, live = publish loop.live (loop.live.config.credit id choice) true ∧
        Untouched loop.world world ∧
        creditPackage f io env id choice loop disk =
          (.ok live.revision, { loop with world, live },
            withStore f path (editOf (loop.live.credit id choice)) loop disk)) ∧
    (¬ Creditable loop.live.config id choice →
      ∃ e, creditPackage f io env id choice loop disk = (.error (.save (.invalid e)), loop, disk)) := by
  obtain ⟨hchecked, hconsistent, hstarted⟩ := hlives.inForce
  have hput : ∀ result after later,
      save f io env path (editOf (loop.live.credit id choice)) loop disk = (result, after, later) →
        creditPackage f io env id choice loop disk = (result.mapError .save, after, later) := by
    intro result after later hsave
    unfold creditPackage putConfig saved
    dsimp only
    rw [sent_credit hchecked htidy, hpath]
    dsimp only
    rw [hsave]
  have hrevision : (editOf (loop.live.credit id choice)).revision = loop.live.revision := rfl
  have hedited := @edited_credit id choice loop.live loop.fileRaw
  constructor
  · intro hcreditable
    have hnext := (checked_credit_iff hchecked).mpr hcreditable
    obtain ⟨world, happly, huntouched⟩ := apply_untouched hconsistent hstarted hchecked.valid_config
      (@specsOf_credit _ id choice) names_credit env
    have hsave : save f io env path (editOf (loop.live.credit id choice)) loop disk =
        (.ok (publish loop.live (loop.live.config.credit id choice) true).revision,
          { loop with world, live := publish loop.live (loop.live.config.credit id choice) true },
          withStore f path (editOf (loop.live.credit id choice)) loop disk) := by
      unfold save
      dsimp only
      rw [if_neg (not_not_intro hrevision), hedited, hnext.check]
      dsimp only
      unfold writeStore
      rw [if_pos hwrite]
      dsimp only
      rw [happly]
      rfl
    exact ⟨_, world, rfl, huntouched, (hput _ _ _ hsave).trans rfl⟩
  · intro hnot
    cases hcheck : check f.isSocketAddr (loop.live.config.credit id choice) with
    | ok next =>
      have hrules : (loop.live.config.credit id choice).rules = [] := by
        cases choice <;> exact hchecked.rules
      obtain rfl := check_eq hcheck hrules
      exact absurd ((checked_credit_iff hchecked).mp (finalize_checked hcheck)) hnot
    | error e =>
      have hsave : save f io env path (editOf (loop.live.credit id choice)) loop disk =
          (.error (.invalid e), loop, disk) := by
        unfold save
        dsimp only
        rw [if_neg (not_not_intro hrevision), hedited, hcheck]
      exact ⟨e, (hput _ _ _ hsave).trans rfl⟩

end Loop

/-! ## A first package -/

def bootedPanel : Option MainLoop × Disk StoreDoc :=
  boot panelFormats {} freePorts { world := emptyWorld } panelFile fun _ => none

/-- The panel after its first rule was saved. -/
def oneRulePanel : MainLoop :=
  (turn panelFormats {} freePorts (.save (addRule 0)) (bootedPanel.1.getD idleLoop)
    bootedPanel.2).2.1

theorem oneRulePanel_lives : Lives panelFormats oneRulePanel := by
  have hsome : bootedPanel.1 = some (bootedPanel.1.getD idleLoop) := by
    have hisSome : bootedPanel.1.isSome = true := by decide +kernel
    obtain ⟨loop, hloop⟩ := Option.isSome_iff_exists.mp hisSome
    rw [hloop]
    rfl
  have hstarted : Lives panelFormats (bootedPanel.1.getD idleLoop) :=
    @Lives.started _ _ {} freePorts { world := emptyWorld } panelFile (fun _ => none) bootedPanel.2 _
      false none (fun _ => idleQuota) rfl (Prod.ext hsome rfl)
  exact hstarted.turned {} freePorts (.save (addRule 0)) bootedPanel.2

theorem credit_package_first : ∃ live world,
    live = publish oneRulePanel.live (oneRulePanel.live.config.credit "p1" .split) true ∧
      Untouched oneRulePanel.world world ∧
      creditPackage panelFormats {} freePorts "p1" .split oneRulePanel (fun _ => none) =
        (.ok live.revision, { oneRulePanel with world, live },
          withStore panelFormats "panel.json" (editOf (oneRulePanel.live.credit "p1" .split))
            oneRulePanel (fun _ => none)) := by
  have hconfig : oneRulePanel.live.config = { panelConfig with users := (addRule 0).users } := by
    decide +kernel
  have hids : oneRulePanel.live.config.packageIds = [] := by decide +kernel
  have htidy : oneRulePanel.live.config.Tidy := by
    rw [hconfig]
    refine ⟨(fun _ h => by cases h), ?_, (fun _ h => by cases h)⟩
    intro user huser
    obtain rfl := List.mem_singleton.mp huser
    refine ⟨by decide, (fun _ h => by cases h), ?_⟩
    intro rule hrule
    obtain rfl := List.mem_singleton.mp hrule
    exact ⟨by decide, (fun _ h => by cases h), by decide, (fun _ h => by cases h)⟩
  exact (credit_package oneRulePanel_lives ⟨by decide +kernel, htidy⟩ (by decide +kernel) rfl freePorts
    "p1" .split (fun _ => none)).1 (Or.inr ⟨by decide, by rw [hids]; exact List.not_mem_nil⟩)

end PortsBox
