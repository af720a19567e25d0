import PortsBox.EngineSteps

/-!
# Limits follow the live config

The main loop sets every user's limit before it publishes the users, and the engine
sets them all again after each new `Live`. What can go wrong is an `apply_limits`
that still holds a config with active remote accounting: it sets limits that the
main loop has set for a config without, and nothing sets them back. `Inv` is what
holds in every state of a run in which that does not happen.
-/

set_option autoImplicit false

namespace PortsBox

/-- The book decides the limits. -/
def Remote (config : Config) (book : Book) : Prop :=
  config.accounting.activeRemote.isSome ∧ book.migrated = true

/-- The limit is the book's; a user it does not know may use nothing more. -/
def BookLimit (book : Book) (name : String) (quota : UserQuota) : Prop :=
  match book.limit name with
  | some limit => quota.limit = storedLimit (some limit)
  | none => ∃ limit ≤ quota.used, quota.limit = storedLimit (some limit)

/-- The limit is the config's. -/
def ConfigLimit (config : Config) (name : String) (quota : UserQuota) : Prop :=
  quota.limit = storedLimit ((resolveQuotas config).getD name none)

theorem limitFollows_iff (config : Config) (book : Book) (name : String) (quota : UserQuota) :
    LimitFollows config book name quota ↔
      (Remote config book → BookLimit book name quota) ∧
        (¬Remote config book → ConfigLimit config name quota) := by
  unfold LimitFollows
  by_cases h : config.accounting.activeRemote.isSome ∧ book.migrated = true
  · rw [if_pos h]
    exact ⟨fun hbook => ⟨fun _ => hbook, fun hnot => absurd h hnot⟩, fun hboth => hboth.1 h⟩
  · rw [if_neg h]
    exact ⟨fun hconfig => ⟨fun hremote => absurd hremote h, fun _ => hconfig⟩,
      fun hboth => hboth.2 h⟩

theorem bookLimit_limited (book : Book) (name : String) (quota : UserQuota) :
    BookLimit book name (System.limited book name quota) := by
  obtain ⟨hlimit, hused⟩ := limited_spec book name quota
  unfold BookLimit
  unfold System.limitFor at hlimit
  cases hknown : book.limit name with
  | some limit =>
    rw [hknown] at hlimit
    exact hlimit
  | none =>
    rw [hknown] at hlimit
    exact ⟨quota.used, hused.symm.le, hlimit⟩

/-- Traffic may only raise a user's usage. -/
theorem BookLimit.mono {book : Book} {name : String} {quota after : UserQuota}
    (h : BookLimit book name quota) (hlimit : after.limit = quota.limit)
    (hused : quota.used ≤ after.used) : BookLimit book name after := by
  unfold BookLimit at h ⊢
  cases hknown : book.limit name with
  | some limit =>
    rw [hknown] at h
    exact hlimit.trans h
  | none =>
    rw [hknown] at h
    rcases h with ⟨limit, hle, hstored⟩
    exact ⟨limit, hle.trans hused, hlimit.trans hstored⟩

namespace System

/-! ## When the engine is in time -/

/-- The config for which `apply` last set this user's limit, unless an `apply` under way has not
come to the user. -/
def setFor (s : System) (ref : QuotaRef) : Option Config :=
  match s.main with
  | .idle => some s.live
  | .applied config => some config
  | .adopting _ config _ _ _ done _ => if ref ∈ done then some config else none

/-- `apply_limits` sets no limit that `apply` has set for a config without active remote
accounting; and the counters have room for the traffic. -/
def Timely (s : System) : Step → Prop
  | .engine .setLimit => ∀ ref todo, s.engine = .setting (ref :: todo) →
    ∀ config, s.setFor ref = some config → config.accounting.activeRemote.isSome = true
  | .traffic (.tryConsumeAt id n _ _) => (s.world.quotas id).Fits n
  | _ => True

/-! ## The invariant -/

/-- The objects of these users are different, and none is yet to be made. -/
structure Distinct (next : Nat) (users : List QuotaRef) : Prop where
  nodup : (users.map QuotaRef.id).Nodup
  fresh : ∀ ref ∈ users, ref.id < next

/-- The published users are the config's, with the config's limits where the book has none. -/
structure Published (s : System) (config : Config) : Prop where
  valid : Valid config
  names : s.world.runtime.users.map QuotaRef.name = config.users.map UserConfig.name
  limits : ¬Remote config s.book → ∀ ref ∈ s.world.runtime.users,
    ConfigLimit config ref.name (s.world.quotas ref.id)

/-- The same of the users handled so far, while `apply` sets limits. -/
structure Adopting (s : System) (config : Config) (settings : Settings) (done : List QuotaRef)
    (todo : List UserConfig) : Prop where
  valid : Valid config
  names : done.map QuotaRef.name ++ todo.map UserConfig.name = config.users.map UserConfig.name
  distinct : Distinct s.world.next done
  known : ∀ ref ∈ done, ref ∈ s.world.runtime.users ∨
    ref.id ∉ s.world.runtime.users.map QuotaRef.id
  quotas : settings.quotas = resolveQuotas config
  remote : settings.remote.isSome = true → Remote config s.book
  limits : ¬Remote config s.book → ∀ ref ∈ done,
    ConfigLimit config ref.name (s.world.quotas ref.id)

def MainInv (s : System) : Prop :=
  match s.main with
  | .idle => s.Published s.live
  | .applied config => s.Published config
  | .adopting _ config settings _ _ done todo => s.Adopting config settings done todo

/-- The users whose limits the engine has still to set before it is idle again. -/
def left (s : System) : List QuotaRef :=
  match s.engine with
  | .changed => s.world.runtime.users
  | .limiting _ => s.world.runtime.users
  | .borrowing => s.world.runtime.users
  | .setting todo => todo
  | _ => []

structure Inv (s : System) : Prop where
  distinct : Distinct s.world.next s.world.runtime.users
  remote : s.world.remote.isSome = true → s.book.migrated = true
  main : s.MainInv
  captured : s.seen = true → ∀ config, s.engine.captured = some config → config = s.live
  sound : s.engine.Sound s.book s.world.runtime.users
  booked : s.main = .idle → s.seen = true → Remote s.live s.book →
    ∀ ref ∈ s.world.runtime.users, ref ∉ s.left →
      BookLimit s.book ref.name (s.world.quotas ref.id)

/-- The invariant gives what a quiet system should look like. -/
theorem Inv.limitsFollowLive {s : System} (h : s.Inv) (hquiet : s.Quiet) :
    s.LimitsFollowLive := by
  rcases hquiet with ⟨hmain, hengine, hseen⟩
  have hpublished : s.Published s.live := by
    have hinv := h.main
    unfold MainInv at hinv
    rwa [hmain] at hinv
  intro user huser
  obtain ⟨ref, hmem, hname⟩ := List.mem_map.mp
    (hpublished.names ▸ List.mem_map_of_mem huser :
      user.name ∈ s.world.runtime.users.map QuotaRef.name)
  have hnodup : (s.world.runtime.users.map QuotaRef.name).Nodup :=
    hpublished.names ▸ hpublished.valid.names
  refine ⟨ref, hname ▸ getUser_of_mem hnodup hmem, ?_⟩
  rw [limitFollows_iff, ← hname]
  refine ⟨?_, fun hnot => hpublished.limits hnot ref hmem⟩
  intro hremote
  apply h.booked hmain hseen hremote ref hmem
  unfold left
  rw [hengine]
  exact List.not_mem_nil

/-! ## Traffic -/

section Quotas
variable {s next : System}

/-- Steps that change no limit and lower no usage keep the invariant. -/
theorem Inv.of_quotas (h : s.Inv) (quotas : Nat → UserQuota)
    (hnext : next = { s with world := { s.world with quotas } })
    (hlimit : ∀ id, (quotas id).limit = (s.world.quotas id).limit)
    (hused : ∀ id, (s.world.quotas id).used ≤ (quotas id).used) : next.Inv := by
  subst hnext
  refine ⟨h.distinct, h.remote, ?_, h.captured, h.sound, ?_⟩
  · have hinv := h.main
    unfold MainInv at hinv ⊢
    dsimp only
    cases hmain : s.main with
    | idle =>
      rw [hmain] at hinv
      exact ⟨hinv.valid, hinv.names, fun hnot ref hmem =>
        (hlimit ref.id).trans (hinv.limits hnot ref hmem)⟩
    | applied config =>
      rw [hmain] at hinv
      exact ⟨hinv.valid, hinv.names, fun hnot ref hmem =>
        (hlimit ref.id).trans (hinv.limits hnot ref hmem)⟩
    | adopting env config settings removed added done todo =>
      rw [hmain] at hinv
      exact ⟨hinv.valid, hinv.names, hinv.distinct, hinv.known, hinv.quotas, hinv.remote,
        fun hnot ref hmem => (hlimit ref.id).trans (hinv.limits hnot ref hmem)⟩
  · intro hmain hseen hremote ref hmem hleft
    exact (h.booked hmain hseen hremote ref hmem hleft).mono (hlimit ref.id) (hused ref.id)

theorem Inv.trafficStep (h : s.Inv) {step : TrafficStep} (hallowed : s.Timely (.traffic step)) :
    (s.trafficStep step).Inv := by
  have hone : ∀ (id : Nat) (quota : UserQuota), quota.limit = (s.world.quotas id).limit →
      (s.world.quotas id).used ≤ quota.used →
      System.Inv { s with world := s.world.setQuota id quota } := by
    intro id quota hlimit hused
    refine h.of_quotas (Function.update s.world.quotas id quota) rfl ?_ ?_
    · intro other
      by_cases heq : other = id
      · rw [heq, Function.update_self, hlimit]
      · rw [Function.update_of_ne heq]
    · intro other
      by_cases heq : other = id
      · rw [heq, Function.update_self]
        exact hused
      · rw [Function.update_of_ne heq]
  cases step with
  | tryConsumeAt id n direction hour =>
    exact hone id _ ((s.world.quotas id).limit_tryConsumeAt n direction hour)
      (UserQuota.used_le_tryConsumeAt hallowed direction hour)
  | rollOverAt id hour =>
    refine hone id _ ?_ ((s.world.quotas id).used_rollOverAt hour).ge
    obtain ⟨_, hlimit, _⟩ := (s.world.quotas id).rollOverAt_fields hour
    exact congrArg (fun raw => (some raw).filter (· ≠ noLimit)) hlimit

end Quotas

/-! ## The main loop -/

section Main
variable {s next : System}

theorem settingsOf_remote {config : Config} {saved : Std.ExtTreeMap String SavedUsage}
    {w : World} (h : (settingsOf config w saved).remote.isSome = true) :
    config.accounting.activeRemote.isSome = true ∧ w.remote.isSome = true := by
  unfold settingsOf at h
  dsimp only at h
  cases hactive : config.accounting.activeRemote with
  | none => simp [hactive] at h
  | some remote =>
    rw [hactive] at h
    exact ⟨rfl, h⟩

/-- The users an `apply` has handled are different objects, each published or new. -/
structure Handled (fresh : Nat) (users : List QuotaRef) (names : List String)
    (done : List QuotaRef) (todo : List UserConfig) : Prop where
  nodup : names.Nodup
  names : done.map QuotaRef.name ++ todo.map UserConfig.name = names
  distinct : Distinct fresh done
  known : ∀ ref ∈ done, ref ∈ users ∨ ref.id ∉ users.map QuotaRef.id

/-- The user that is adopted next is a new one among those handled. -/
theorem Handled.adopt {fresh after : Nat} {users : List QuotaRef} {names : List String}
    {done : List QuotaRef} {user : UserConfig} {todo : List UserConfig}
    (h : Handled fresh users names done (user :: todo)) (hdistinct : Distinct fresh users)
    {ref : QuotaRef} (hname : ref.name = user.name)
    (hid : (getUser users user.name = some ref ∧ after = fresh) ∨
      (getUser users user.name = none ∧ ref.id = fresh ∧ after = fresh + 1)) :
    Handled after users names (done ++ [ref]) todo ∧ ∀ other ∈ done, other.id ≠ ref.id := by
  have hnewName : ref.name ∉ done.map QuotaRef.name := by
    have hnodup : (done.map QuotaRef.name ++ (user :: todo).map UserConfig.name).Nodup :=
      h.names ▸ h.nodup
    rw [hname]
    intro hmem
    exact (List.nodup_append.mp hnodup).2.2 user.name hmem user.name List.mem_cons_self rfl
  have hle : fresh ≤ after := by
    rcases hid with ⟨_, hafter⟩ | ⟨_, _, hafter⟩
    · exact hafter.ge
    · omega
  have hltAfter : ref.id < after := by
    rcases hid with ⟨hfound, hafter⟩ | ⟨_, hnew, hafter⟩
    · have hlt := hdistinct.fresh ref (getUser_name hfound).1
      omega
    · omega
  have hnewId : ∀ other ∈ done, other.id ≠ ref.id := by
    intro other hother heq
    rcases hid with ⟨hfound, _⟩ | ⟨_, hnew, _⟩
    · obtain ⟨hmem, _⟩ := getUser_name hfound
      rcases h.known other hother with hkept | hfresh
      · have hsame := List.inj_on_of_nodup_map hdistinct.nodup hkept hmem heq
        exact hnewName (hsame ▸ List.mem_map_of_mem hother)
      · exact hfresh (heq ▸ List.mem_map_of_mem hmem)
    · have hlt := h.distinct.fresh other hother
      omega
  refine ⟨⟨h.nodup, ?_, ⟨?_, ?_⟩, ?_⟩, hnewId⟩
  · rw [List.map_append, List.append_assoc, ← h.names, List.map_cons, List.map_cons, List.map_nil,
      hname]
    rfl
  · rw [List.map_append, List.nodup_append]
    refine ⟨h.distinct.nodup, List.nodup_singleton _, ?_⟩
    intro a ha b hb heq
    obtain ⟨other, hother, rfl⟩ := List.mem_map.mp ha
    rw [List.map_singleton, List.mem_singleton] at hb
    exact hnewId other hother (heq.trans hb)
  · intro other hother
    rcases List.mem_append.mp hother with hold | hlast
    · exact (h.distinct.fresh other hold).trans_le hle
    · rwa [List.mem_singleton.mp hlast]
  · intro other hother
    rcases List.mem_append.mp hother with hold | hlast
    · exact h.known other hold
    · rw [List.mem_singleton.mp hlast]
      rcases hid with ⟨hfound, _⟩ | ⟨_, hnew, _⟩
      · exact Or.inl (getUser_name hfound).1
      · right
        intro hmem
        obtain ⟨user, huser, heq⟩ := List.mem_map.mp hmem
        have hlt := hdistinct.fresh user huser
        omega

theorem Adopting.adopt {env : Env} {config : Config} {settings : Settings}
    {removed : List RuleSpec} {added : List PreparedRule} {done : List QuotaRef}
    {user : UserConfig} {todo : List UserConfig}
    (h : s.Adopting config settings done (user :: todo))
    (hdistinct : Distinct s.world.next s.world.runtime.users)
    (hnext : next = { s with
      world := (adoptUser env settings s.world.runtime.users s.world user).2
      main := .adopting env config settings removed added
        (done ++ [(adoptUser env settings s.world.runtime.users s.world user).1]) todo }) :
    next.Adopting config settings
      (done ++ [(adoptUser env settings s.world.runtime.users s.world user).1]) todo := by
  obtain ⟨ref, quota, fresh, hadopt, hlimit, hname, hid⟩ :=
    adoptUser_cases env settings s.world.runtime.users s.world user
  rw [hadopt] at hnext ⊢
  subst hnext
  dsimp only
  have hhandled : Handled s.world.next s.world.runtime.users (config.users.map UserConfig.name)
      done (user :: todo) := ⟨h.valid.names, h.names, h.distinct, h.known⟩
  obtain ⟨hafter, hnewId⟩ := hhandled.adopt hdistinct hname hid
  refine ⟨h.valid, hafter.names, hafter.distinct, hafter.known, h.quotas, h.remote, ?_⟩
  intro hnot other hother
  rcases List.mem_append.mp hother with hold | hlast
  · unfold ConfigLimit
    dsimp only
    rw [Function.update_of_ne (hnewId other hold)]
    exact h.limits hnot other hold
  · rw [List.mem_singleton.mp hlast]
    have hoffline : settings.remote = none := by
      cases hremote : settings.remote with
      | none => rfl
      | some limits => exact absurd (h.remote (by rw [hremote]; rfl)) hnot
    unfold ConfigLimit
    dsimp only
    rw [Function.update_self, hlimit, Settings.limitOf, hoffline, ← h.quotas]

theorem Inv.mainStep (h : s.Inv) {step : MainStep} (hadmissible : (Step.main step).Admissible)
    (hstep : s.mainStep step = some next) : next.Inv := by
  rcases mainStep_cases hstep with ⟨hmain, binds, rfl⟩ |
    ⟨hmain, env, config, binds, added, saved, rfl, rfl⟩ |
    ⟨env, config, settings, removed, added, done, user, todo, hmain, hnext⟩ |
    ⟨env, config, settings, removed, added, users, hmain, hengine, rfl⟩ |
    ⟨config, hmain, rfl⟩
  -- refused
  · refine ⟨h.distinct, h.remote, ?_, h.captured, h.sound, h.booked⟩
    have hinv := h.main
    unfold MainInv at hinv ⊢
    rw [hmain] at hinv
    dsimp only
    rw [hmain]
    exact ⟨hinv.valid, hinv.names, hinv.limits⟩
  -- started
  · refine ⟨h.distinct, h.remote, ?_, h.captured, h.sound, ?_⟩
    · refine ⟨hadmissible.valid, rfl, ⟨List.nodup_nil, by simp⟩, by simp, rfl, ?_, by simp⟩
      intro hsome
      obtain ⟨hactive, hremote⟩ := settingsOf_remote hsome
      exact ⟨hactive, h.remote hremote⟩
    · intro himpossible
      cases himpossible
  -- one more user adopted
  · have hadopting : s.Adopting config settings done (user :: todo) := by
      have hinv := h.main
      unfold MainInv at hinv
      rwa [hmain] at hinv
    have hafter := hadopting.adopt h.distinct hnext
    obtain ⟨ref, quota, fresh, hadopt, _, _, hid⟩ :=
      adoptUser_cases env settings s.world.runtime.users s.world user
    rw [hadopt] at hnext hafter
    have hle : s.world.next ≤ fresh := by
      rcases hid with ⟨_, hfresh⟩ | ⟨_, _, hfresh⟩
      · exact hfresh.ge
      · omega
    subst hnext
    refine ⟨⟨h.distinct.nodup, ?_⟩, h.remote, hafter, h.captured, h.sound, ?_⟩
    · exact fun other hother => (h.distinct.fresh other hother).trans_le hle
    · intro himpossible
      cases himpossible
  -- users published
  · have hadopting : s.Adopting config settings users [] := by
      have hinv := h.main
      unfold MainInv at hinv
      rwa [hmain] at hinv
    obtain ⟨hquotas, hremote, hnext, husers⟩ := swapRules_frame removed added users s.world
    refine ⟨⟨?_, ?_⟩, ?_, ⟨hadopting.valid, ?_, ?_⟩, h.captured, ?_, ?_⟩
    · rw [husers]
      exact hadopting.distinct.nodup
    · rw [husers]
      exact fun ref hmem => (hadopting.distinct.fresh ref hmem).trans_le hnext
    · rw [hremote]
      exact h.remote
    · rw [husers, ← hadopting.names, List.map_nil, List.append_nil]
    · rw [husers, hquotas]
      exact hadopting.limits
    · have hsound := h.sound
      dsimp only
      cases hat : s.engine with
      | setting todo => exact absurd hat (hengine todo)
      | saving captured saved =>
        rw [hat] at hsound
        exact hsound
      | borrowing =>
        rw [hat] at hsound
        exact hsound
      | _ => trivial
    · intro himpossible
      cases himpossible
  -- config published
  · refine ⟨h.distinct, h.remote, ?_, ?_, h.sound, ?_⟩
    · have hinv := h.main
      unfold MainInv at hinv
      rw [hmain] at hinv
      exact ⟨hinv.valid, hinv.names, hinv.limits⟩
    · intro himpossible
      cases himpossible
    · intro _ himpossible
      cases himpossible

end Main

/-! ## The engine -/

section Engine
variable {s next : System}

/-- The main loop's part of the invariant knows the book only through who decides the limits. -/
theorem MainInv.of_book {engine : EngineAt} {seen : Bool} {book : Book}
    {remote : Option (Std.ExtTreeMap String Nat)} (h : s.MainInv)
    (hmigrated : s.book.migrated = true → book.migrated = true) :
    MainInv { s with world := { s.world with remote }, seen, book, engine } := by
  have hremote : ∀ {config : Config}, ¬Remote config book → ¬Remote config s.book :=
    fun hnot hbefore => hnot ⟨hbefore.1, hmigrated hbefore.2⟩
  unfold MainInv at h ⊢
  dsimp only
  cases hmain : s.main with
  | idle =>
    rw [hmain] at h
    exact ⟨h.valid, h.names, fun hnot => h.limits (hremote hnot)⟩
  | applied config =>
    rw [hmain] at h
    exact ⟨h.valid, h.names, fun hnot => h.limits (hremote hnot)⟩
  | adopting env config settings removed added done todo =>
    rw [hmain] at h
    refine ⟨h.valid, h.names, h.distinct, h.known, h.quotas, ?_, ?_⟩
    · exact fun hsome => ⟨(h.remote hsome).1, hmigrated (h.remote hsome).2⟩
    · exact fun hnot => h.limits (hremote hnot)

theorem left_waiting (h : s.engine.Waiting) : s.left = [] := by
  unfold left
  cases hengine : s.engine with
  | idle => rfl
  | fetching config => rfl
  | ordering config order => rfl
  | saving config book => rfl
  | _ =>
    rw [hengine] at h
    exact absurd h id

/-- Setting one user's limit in time: the main loop's part of the invariant stays. -/
theorem Inv.setLimit_main (h : s.Inv) {ref : QuotaRef} {todo : List QuotaRef} {quota : UserQuota}
    (hengine : s.engine = .setting (ref :: todo)) (hallowed : s.Timely (.engine .setLimit)) :
    MainInv { s with world := s.world.setQuota ref.id quota, engine := .setting todo } := by
  have hsound := h.sound
  rw [hengine] at hsound
  rcases hsound with ⟨hmigrated, hpublished⟩
  have hmem := hpublished ref List.mem_cons_self
  have hinv := h.main
  have htimely : ∀ config, s.setFor ref = some config →
      config.accounting.activeRemote.isSome = true := hallowed ref todo hengine
  unfold setFor at htimely
  unfold MainInv at hinv ⊢
  dsimp only
  cases hmain : s.main with
  | idle =>
    rw [hmain] at hinv htimely
    exact ⟨hinv.valid, hinv.names, fun hnot => absurd ⟨htimely _ rfl, hmigrated⟩ hnot⟩
  | applied config =>
    rw [hmain] at hinv htimely
    exact ⟨hinv.valid, hinv.names, fun hnot => absurd ⟨htimely _ rfl, hmigrated⟩ hnot⟩
  | adopting env config settings removed added done rest =>
    rw [hmain] at hinv htimely
    refine ⟨hinv.valid, hinv.names, hinv.distinct, hinv.known, hinv.quotas, hinv.remote, ?_⟩
    intro hnot other hother
    have hnotDone : ref ∉ done := by
      intro hdone
      exact hnot ⟨htimely config (if_pos hdone), hmigrated⟩
    -- so the limit set is not one that `apply` has set
    have hne : other.id ≠ ref.id := by
      intro heq
      rcases hinv.known other hother with hkept | hfresh
      · exact hnotDone (List.inj_on_of_nodup_map h.distinct.nodup hkept hmem heq ▸ hother)
      · exact hfresh (heq ▸ List.mem_map_of_mem hmem)
    unfold ConfigLimit World.setQuota
    dsimp only
    rw [Function.update_of_ne hne]
    exact hinv.limits hnot other hother

theorem Inv.engineStep (h : s.Inv) {step : EngineStep} (hallowed : s.Timely (.engine step))
    (hstep : s.engineStep step = some next) : next.Inv := by
  rcases engineStep_cases hstep with
    ⟨hwaiting, engine, rfl, hafter, hsound, hcaptured⟩ | ⟨config, book, hengine, rfl⟩ |
    ⟨hengine, rfl⟩ | ⟨hengine, rfl⟩ | ⟨config, hengine, hmigrated, rfl⟩ |
    ⟨config, hengine, hmigrated, rfl⟩ | ⟨hengine, rfl⟩ | ⟨hengine, rfl⟩ |
    ⟨rfl, ref, todo, hengine, rfl⟩
  -- waiting
  · refine ⟨h.distinct, h.remote, h.main.of_book id, ?_, hsound, ?_⟩
    · intro hseen config hconfig
      rcases hcaptured config hconfig with hlive | hbefore
      · exact hlive
      · exact h.captured hseen config hbefore
    · intro hmain hseen hremote ref hmem _
      exact h.booked hmain hseen hremote ref hmem (left_waiting hwaiting ▸ List.not_mem_nil)
  -- committed
  · have hsound := h.sound
    rw [hengine] at hsound
    refine ⟨h.distinct, fun hsome => hsound (h.remote hsome), h.main.of_book hsound, ?_, trivial,
      fun _ _ _ ref hmem hleft => absurd hmem hleft⟩
    intro hseen captured hcaptured
    exact h.captured hseen captured (by rw [hengine]; exact hcaptured)
  -- `live.changed()` resolved
  · exact ⟨h.distinct, h.remote, h.main.of_book id, by simp [EngineAt.captured], trivial,
      fun _ _ _ ref hmem hleft => absurd hmem hleft⟩
  -- live config read
  · refine ⟨h.distinct, h.remote, h.main.of_book id, ?_, trivial,
      fun _ _ _ ref hmem hleft => absurd hmem hleft⟩
    intro _ config hconfig
    exact (Option.some.inj hconfig).symm
  -- nothing to apply yet
  · refine ⟨h.distinct, h.remote, h.main.of_book id, by simp [EngineAt.captured], trivial, ?_⟩
    intro _ _ hremote
    exact absurd (hmigrated.symm.trans hremote.2) Bool.false_ne_true
  -- remote limits set
  · refine ⟨h.distinct, fun _ => hmigrated, h.main.of_book id, ?_, ?_, ?_⟩
    · dsimp only
      split <;> simp [EngineAt.captured]
    · dsimp only
      split
      · trivial
      · exact hmigrated
    · intro hmain hseen hremote ref hmem hleft
      dsimp only at hmain hseen hremote hmem
      have hlive := h.captured hseen config (by rw [hengine]; rfl)
      have hactive : config.accounting.activeRemote.isNone = false := by
        rw [hlive, Option.isNone_eq_false_iff]
        exact hremote.1
      unfold left at hleft
      rw [hactive] at hleft
      exact absurd hmem hleft
  -- loop entered
  · have hsound := h.sound
    rw [hengine] at hsound
    exact ⟨h.distinct, h.remote, h.main.of_book id, by simp [EngineAt.captured],
      ⟨hsound, fun _ hmem => hmem⟩, fun _ _ _ ref hmem hleft => absurd hmem hleft⟩
  -- loop left
  · refine ⟨h.distinct, h.remote, h.main.of_book id, by simp [EngineAt.captured], trivial, ?_⟩
    intro hmain hseen hremote ref hmem _
    apply h.booked hmain hseen hremote ref hmem
    unfold left
    rw [hengine]
    exact List.not_mem_nil
  -- one more limit set
  · have hsound := h.sound
    rw [hengine] at hsound
    rcases hsound with ⟨hmigrated, hpublished⟩
    refine ⟨h.distinct, h.remote, h.setLimit_main hengine hallowed, by simp [EngineAt.captured],
      ⟨hmigrated, fun other hmem => hpublished other (List.mem_cons_of_mem ref hmem)⟩, ?_⟩
    intro hmain hseen hremote other hmem hleft
    change BookLimit s.book other.name (Function.update s.world.quotas ref.id _ other.id)
    by_cases heq : other.id = ref.id
    · have hsame := List.inj_on_of_nodup_map h.distinct.nodup hmem
        (hpublished ref List.mem_cons_self) heq
      rw [heq, Function.update_self, hsame]
      exact bookLimit_limited s.book ref.name _
    · rw [Function.update_of_ne heq]
      apply h.booked hmain hseen hremote other hmem
      unfold left
      rw [hengine]
      intro hin
      rcases List.mem_cons.mp hin with hhead | htail
      · exact heq (congrArg QuotaRef.id hhead)
      · exact hleft htail

end Engine

/-! ## Startup -/

/-- The first `apply` makes a fresh object for every user, with the settings' limit. -/
theorem adoptUsers_fresh (env : Env) (settings : Settings) (w : World) (users : List UserConfig) :
    w.next ≤ (adoptUsers env settings [] w users).2.next ∧
      (adoptUsers env settings [] w users).2.remote = w.remote ∧
      (∀ id < w.next, (adoptUsers env settings [] w users).2.quotas id = w.quotas id) ∧
      (∀ ref ∈ (adoptUsers env settings [] w users).1, w.next ≤ ref.id) ∧
      Distinct (adoptUsers env settings [] w users).2.next (adoptUsers env settings [] w users).1 ∧
      ∀ ref ∈ (adoptUsers env settings [] w users).1,
        ((adoptUsers env settings [] w users).2.quotas ref.id).limit = storedLimit
          (settings.limitOf ref.name ((adoptUsers env settings [] w users).2.quotas ref.id)) := by
  induction users generalizing w with
  | nil => exact ⟨le_rfl, rfl, fun _ _ => rfl, by simp [adoptUsers],
      ⟨List.nodup_nil, by simp [adoptUsers]⟩, by simp [adoptUsers]⟩
  | cons user users ih =>
    obtain ⟨ref, quota, next, hadopt, hlimit, _, hid⟩ := adoptUser_cases env settings [] w user
    rcases hid with ⟨hfound, _⟩ | ⟨_, hid, rfl⟩
    · cases hfound
    obtain ⟨hnext, hremote, hquotas, hids, hdistinct, hlimits⟩ :=
      ih { w with quotas := Function.update w.quotas ref.id quota, next := w.next + 1 }
    unfold adoptUsers
    rw [hadopt]
    dsimp only at hnext hremote hquotas hids ⊢
    have hown : (adoptUsers env settings []
        { w with quotas := Function.update w.quotas ref.id quota, next := w.next + 1 }
        users).2.quotas ref.id = quota := by
      rw [hquotas ref.id (by omega), Function.update_self]
    refine ⟨(Nat.le_succ _).trans hnext, hremote, ?_, ?_, ⟨?_, ?_⟩, ?_⟩
    · intro id hlt
      rw [hquotas id (by omega), Function.update_of_ne (by omega)]
    · intro other hother
      rcases List.mem_cons.mp hother with rfl | htail
      · exact hid.ge
      · exact (Nat.le_succ _).trans (hids other htail)
    · rw [List.map_cons, List.nodup_cons]
      refine ⟨?_, hdistinct.nodup⟩
      intro hmem
      obtain ⟨other, hother, heq⟩ := List.mem_map.mp hmem
      have hle := hids other hother
      omega
    · intro other hother
      rcases List.mem_cons.mp hother with rfl | htail
      · omega
      · exact hdistinct.fresh other htail
    · intro other hother
      rcases List.mem_cons.mp hother with rfl | htail
      · rw [hown]
        exact hlimit
      · exact hlimits other htail

theorem limits_lookup (book : Book) (name : String) : book.limits[name]? = book.limit name := by
  unfold Book.limits
  rw [Std.ExtTreeMap.getElem?_filterMap']
  unfold Book.limit
  cases book.baselines[name]? <;> rfl

theorem initialLimits_isSome {book : Book} (h : (initialLimits book).isSome = true) :
    book.migrated = true := by
  unfold initialLimits at h
  split at h
  · assumption
  · cases h

/-- The engine starts with the limits of the first `apply`. -/
theorem inv_started {env : Env} {config : Config} {book : Book} {hasDb : Bool}
    {quotas : Nat → UserQuota} {w : World} (hvalid : Valid config)
    (happly : apply env config { runtime := { hasDb }, remote := initialLimits book, quotas } =
      .ok () w) : (started book config w).Inv := by
  generalize hbefore : ({ runtime := { hasDb }, remote := initialLimits book, quotas } : World) =
    before at happly
  have hcurrent : before.runtime.users = [] := by rw [← hbefore]
  have hinitial : before.remote = initialLimits book := by rw [← hbefore]
  obtain ⟨binds, added, saved, hgathered, rfl⟩ := apply_installed happly
  unfold install
  dsimp only
  rw [hcurrent]
  generalize hsettings : settingsOf config { before with binds } saved = settings
  have hplain : settings.remote.isSome = true → Remote config book := by
    rw [← hsettings]
    intro hsome
    obtain ⟨hactive, hremote⟩ := settingsOf_remote hsome
    exact ⟨hactive, initialLimits_isSome (hinitial ▸ hremote)⟩
  have hbooked : Remote config book → settings.remote = some book.limits := by
    rintro ⟨hactive, hmigrated⟩
    obtain ⟨remote, hremote⟩ := Option.isSome_iff_exists.mp hactive
    rw [← hsettings, settingsOf]
    dsimp only
    rw [hremote, hinitial, initialLimits, if_pos hmigrated]
    rfl
  have hquotas : settings.quotas = resolveQuotas config := by
    rw [← hsettings]
    rfl
  obtain ⟨_, hremote, _, _, hdistinct, hlimits⟩ :=
    adoptUsers_fresh env settings { before with binds } config.users
  obtain ⟨hnames, _⟩ := adoptUsers_refs env settings [] { before with binds } config.users
  generalize adoptUsers env settings [] { before with binds } config.users = adopted at *
  rcases adopted with ⟨users, adoptedWorld⟩
  dsimp only at hremote hdistinct hlimits hnames ⊢
  obtain ⟨hswapQuotas, hswapRemote, hswapNext, hswapUsers⟩ := swapRules_frame
    (removedSpecs before.runtime.rules (specsOf config)) added users adoptedWorld
  refine ⟨⟨?_, ?_⟩, ?_, ⟨hvalid, ?_, ?_⟩, by simp [started, EngineAt.captured], trivial, ?_⟩
  · rw [started, hswapUsers]
    exact hdistinct.nodup
  · rw [started, hswapUsers]
    exact fun ref hmem => (hdistinct.fresh ref hmem).trans_le hswapNext
  · rw [started, hswapRemote, hremote, hinitial]
    exact initialLimits_isSome
  · rw [started, hswapUsers]
    exact hnames
  · rw [started, hswapUsers, hswapQuotas]
    intro hnot ref hmem
    have hoffline : settings.remote = none := by
      cases hsome : settings.remote with
      | none => rfl
      | some limits => exact absurd (hplain (by rw [hsome]; rfl)) hnot
    have hlimit := hlimits ref hmem
    rw [Settings.limitOf, hoffline, hquotas] at hlimit
    exact hlimit
  · rw [started, hswapUsers, hswapQuotas]
    intro _ _ hactive ref hmem _
    have hlimit := hlimits ref hmem
    rw [Settings.limitOf, hbooked hactive] at hlimit
    dsimp only at hlimit ⊢
    rw [limits_lookup] at hlimit
    unfold BookLimit
    cases hknown : book.limit ref.name with
    | some limit =>
      rw [hknown] at hlimit
      exact hlimit
    | none =>
      rw [hknown] at hlimit
      exact ⟨_, le_rfl, hlimit⟩

theorem Inv.step {s next : System} (h : s.Inv) {step : Step} (hadmissible : step.Admissible)
    (hallowed : s.Timely step) (hstep : s.step step = some next) : next.Inv := by
  cases step with
  | main step => exact h.mainStep hadmissible hstep
  | engine step => exact h.engineStep hallowed hstep
  | traffic step =>
    obtain rfl := Option.some.inj hstep
    exact h.trafficStep hallowed

theorem inv_runs {s : System} (h : Runs Timely s) : s.Inv := by
  induction h with
  | started haccepted happly => exact inv_started haccepted.valid happly
  | step _ hadmissible hallowed hstep ih => exact ih.step hadmissible hallowed hstep

end System

/-- In a run without untimely limits, a quiet system's limits follow the live config. -/
theorem limits_follow_live {s : System} (h : Runs System.Timely s) (hquiet : s.Quiet) :
    s.LimitsFollowLive :=
  (System.inv_runs h).limitsFollowLive hquiet

/-- One user with a quota of its own, and remote accounting. -/
def onlineConfig : Config where
  accounting := {
    mode := .remote
    remote := some {
      provider := .volcengine
      accessKey := "ak"
      secretKey := "sk"
      regions := ["r"] } }
  users := [{ name := "a", quota := some 10, rules := [] }]

/-- The same user without remote accounting. -/
def offlineConfig : Config where
  users := [{ name := "a", quota := some 10, rules := [] }]

/-- What startup with `onlineConfig` leaves. -/
def onlineStart : World :=
  match apply freePorts onlineConfig emptyWorld with
  | .ok _ after => after
  | .error _ after => after

theorem onlineConfig_accepted : Accepted onlineConfig := ⟨fun _ => true, onlineConfig, rfl⟩

theorem onlineStart_runs (allowed : System → Step → Prop) :
    Runs allowed (System.started {} onlineConfig onlineStart) := by
  have happly : apply freePorts onlineConfig
      { runtime := { hasDb := false }, remote := initialLimits {}, quotas := fun _ => idleQuota } =
        .ok () onlineStart := rfl
  exact Runs.started onlineConfig_accepted happly

/-- One package of 100 bytes. -/
def listed : Fetched where
  packages := [{
    id := "p"
    name := ""
    region := "r"
    total := 100
    available := 100
    status := effectiveStatus
    expiry := "" }]
  ignored := []

instance (quota : UserQuota) (n : Nat) : Decidable (quota.Fits n) :=
  inferInstanceAs (Decidable (_ < _))

/-- Whether a step is timely. -/
def System.inTime (s : System) : Step → Bool
  | .engine .setLimit =>
    match s.engine with
    | .setting (ref :: _) =>
      (s.setFor ref).all fun config => config.accounting.activeRemote.isSome
    | _ => true
  | .traffic (.tryConsumeAt id n _ _) => decide ((s.world.quotas id).Fits n)
  | _ => true

theorem System.timely_of_inTime {s : System} {step : Step} (h : s.inTime step = true) :
    s.Timely step := by
  unfold System.Timely
  split
  · intro ref todo hengine config hset
    simp only [inTime, hengine, hset, Option.all_some] at h
    exact h
  · exact of_decide_eq_true h
  · trivial

/-- Steps in a row that are all timely. -/
def System.replay (s : System) : List Step → Option System
  | [] => some s
  | step :: rest => if s.inTime step then (s.step step).bind fun next => next.replay rest else none

theorem runs_replay {s last : System} {run : List Step} (h : Runs System.Timely s)
    (hadmissible : ∀ step ∈ run, step.Admissible) (hrun : s.replay run = some last) :
    Runs System.Timely last := by
  induction run generalizing s with
  | nil =>
    obtain rfl := Option.some.inj hrun
    exact h
  | cons step run ih =>
    obtain ⟨htime, hrun⟩ := Option.ite_none_right_eq_some.mp hrun
    obtain ⟨next, hstep, hrest⟩ := Option.bind_eq_some_iff.mp hrun
    apply ih
    · exact h.step (hadmissible step List.mem_cons_self) (System.timely_of_inTime htime) hstep
    · exact fun other hother => hadmissible other (List.mem_cons_of_mem step hother)
    · exact hrest

/-- The same user with another quota. -/
def raisedConfig : Config :=
  { onlineConfig with users := [{ name := "a", quota := some 20, rules := [] }] }

/-- The first sync migrates the book while a reload is applied, and both set the user's limit. -/
def timelySync : List Step := [
  .engine .sync, .traffic (.tryConsumeAt 0 3 .upload 0),
  .main (.start freePorts raisedConfig),
  .engine (.fetched (.ok listed) 0), .main .adopt, .engine (.saved true),
  .engine .setRemote, .engine .borrowUsers, .engine .setLimit, .engine .setLimit,
  .main .publishUsers, .main .publishLive,
  .traffic (.tryConsumeAt 0 4 .download 0),
  .engine .liveChanged, .engine .readLive,
  .engine .setRemote, .engine .borrowUsers, .engine .setLimit, .engine .setLimit]

theorem timelySync_ends :
    ((System.started {} onlineConfig onlineStart).replay timelySync).map (fun s =>
        (s.main, s.engine, s.seen, s.live, s.book.migrated, s.book.limit "a")) =
      some (.idle, .idle, true, raisedConfig, true, some 103) := rfl

/-- The user's limit is the book's, on top of what was used before the migration. -/
theorem limits_follow_live_timelySync :
    ∃ s, Runs System.Timely s ∧ s.Quiet ∧ s.live = raisedConfig ∧
      ∃ ref, getUser s.world.runtime.users "a" = some ref ∧
        (s.world.quotas ref.id).limit = some 103 := by
  obtain ⟨s, hrun, hlast⟩ := Option.map_eq_some_iff.mp timelySync_ends
  simp only [Prod.mk.injEq] at hlast
  obtain ⟨hmain, hengine, hseen, hlive, hmigrated, hlimit⟩ := hlast
  have hadmissible : ∀ step ∈ timelySync, step.Admissible := by
    simp only [timelySync, List.forall_mem_cons, Step.Admissible]
    exact ⟨trivial, trivial, ⟨fun _ => true, raisedConfig, rfl⟩, trivial, trivial, trivial,
      trivial, trivial, trivial, trivial, trivial, trivial, trivial, trivial, trivial, trivial,
      trivial, trivial, trivial, by simp⟩
  have hruns := runs_replay (onlineStart_runs _) hadmissible hrun
  have hquiet : s.Quiet := ⟨hmain, hengine, hseen⟩
  obtain ⟨ref, href, hfollows⟩ := limits_follow_live hruns hquiet
    { name := "a", quota := some 20, rules := [] } (by rw [hlive]; exact List.mem_singleton.mpr rfl)
  refine ⟨s, hruns, hquiet, hlive, ref, href, ?_⟩
  unfold LimitFollows at hfollows
  rw [if_pos ⟨by rw [hlive]; rfl, hmigrated⟩, hlimit] at hfollows
  exact hfollows

theorem reachable_steps {s next : System} {run : List Step} (h : Reachable s)
    (hadmissible : ∀ step ∈ run, step.Admissible) (hrun : s.steps run = some next) :
    Reachable next := by
  induction run generalizing s with
  | nil =>
    obtain rfl := Option.some.inj hrun
    exact h
  | cons step run ih =>
    rw [System.steps, Option.bind_eq_some_iff] at hrun
    rcases hrun with ⟨middle, hstep, hrest⟩
    exact ih (h.step (hadmissible step List.mem_cons_self) trivial hstep)
      (fun other hother => hadmissible other (List.mem_cons_of_mem step hother)) hrest

/-- The first sync waits for the provider while a reload turns remote accounting off. -/
def staleSync : List Step := [
  .engine .sync,
  .main (.start freePorts offlineConfig), .main .adopt, .main .publishUsers, .main .publishLive,
  .engine (.fetched (.ok listed) 0), .engine (.saved true),
  .engine .setRemote, .engine .borrowUsers, .engine .setLimit, .engine .setLimit,
  .engine .liveChanged, .engine .readLive, .engine .setRemote]

theorem staleSync_ends :
    ((System.started {} onlineConfig onlineStart).steps staleSync).map (fun s =>
        (s.main, s.engine, s.seen, s.live, s.world.runtime.users, (s.world.quotas 0).limit)) =
      some (.idle, .idle, true, offlineConfig, [⟨0, "a"⟩], some 100) := rfl

/-- The user ends with the book's limit of 100 bytes instead of its quota of 10, and the engine
has nothing left to do. -/
theorem staleSync_breaks :
    ∃ s, Reachable s ∧ s.Quiet ∧ s.live = offlineConfig ∧ ¬s.LimitsFollowLive := by
  have hends := staleSync_ends
  rw [Option.map_eq_some_iff] at hends
  rcases hends with ⟨s, hrun, hlast⟩
  simp only [Prod.mk.injEq] at hlast
  rcases hlast with ⟨hmain, hengine, hseen, hlive, husers, hlimit⟩
  have hadmissible : ∀ step ∈ staleSync, step.Admissible := by
    simp only [staleSync, List.forall_mem_cons, Step.Admissible]
    exact ⟨trivial, ⟨fun _ => true, offlineConfig, rfl⟩, trivial, trivial, trivial, trivial,
      trivial, trivial, trivial, trivial, trivial, trivial, trivial, trivial, by simp⟩
  refine ⟨s, reachable_steps (onlineStart_runs _) hadmissible hrun, ⟨hmain, hengine, hseen⟩,
    hlive, ?_⟩
  intro hfollows
  obtain ⟨ref, href, hfollows⟩ := hfollows { name := "a", quota := some 10, rules := [] }
    (by rw [hlive]; exact List.mem_singleton.mpr rfl)
  rw [husers] at href
  obtain rfl : (⟨0, "a"⟩ : QuotaRef) = ref := Option.some.inj href
  rw [limitFollows_iff, hlive] at hfollows
  have hten := hfollows.2 fun hremote => Bool.false_ne_true hremote.1
  have hquota : ConfigLimit offlineConfig "a" (s.world.quotas 0) ↔
      (s.world.quotas 0).limit = some 10 := Iff.rfl
  rw [hquota, hlimit] at hten
  cases hten

end PortsBox
