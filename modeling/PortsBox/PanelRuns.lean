import PortsBox.PanelRefusals
import PortsBox.RuntimeRuns

/-!
# Histories of the panel

Starts and stops of the process, file texts and saves that reach its loop, and pages
that clients load, in any order over one disk. Next to the machine runs a record of
where things come from: which save wrote which store, which one the live config goes
back to, and after which ones another file text was accepted.
-/

set_option autoImplicit false

namespace PortsBox

/-- The answer of `get_config`. -/
structure ConfigView where
  revision : Nat
  fromPanel : Bool
  totalQuota : Option Nat
  accounting : Accounting
  secretKeySet : Bool
  singleUser : Bool
  users : List UserConfig
  deriving DecidableEq, Repr

def getConfig (live : Live) : ConfigView where
  revision := live.revision
  fromPanel := live.fromPanel
  totalQuota := live.config.totalQuota
  accounting :=
    { live.config.accounting with
      remote := live.config.accounting.remote.map fun remote => { remote with secretKey := "" } }
  secretKeySet := live.config.accounting.remote.any fun remote => !remote.secretKey.isEmpty
  singleUser := live.config.singleUser
  users := live.config.users

/-- A loaded page, with the config it shows, its process, and the changes that had accepted. -/
structure Page where
  view : ConfigView
  config : Config
  process : Nat
  changes : Nat
  deriving DecidableEq, Repr

structure Trail where
  /-- How many processes have run, and what the present one has accepted. -/
  processes : Nat := 0
  changes : Nat := 0
  pages : List Page := []
  /-- The file text in force at each accepted save. -/
  saves : List String := []
  /-- The save that wrote the store at a path. -/
  wrote : String → Option Nat := fun _ => none
  /-- The save whose changes the live config has. -/
  origin : Option Nat := none
  /-- The saves after which another file text was accepted. -/
  dropped : List Nat := []

structure Machine (Content : Type) where
  disk : Disk Content := fun _ => none
  running : Option MainLoop := none
  trail : Trail := {}

inductive Action (Content : Type) where
  | start (io : FileIo Content) (env : Env) (boot : Boot) (raw : String)
  | stop
  | turn (io : FileIo Content) (env : Env) (change : Change)
  | load

namespace Trail

/-- Without the stores that are gone. -/
def forget {Content : Type} (trail : Trail) (disk : Disk Content) : Trail :=
  { trail with wrote := fun path => (disk path).bind fun _ => trail.wrote path }

/-- A file text is accepted: every save made under another one is dropped. -/
def accept (trail : Trail) (raw : String) : Trail :=
  { trail with
    dropped := trail.dropped ++
      (List.range trail.saves.length).filter fun save => trail.saves[save]? ≠ some raw }

def started (trail : Trail) (loop : MainLoop) : Trail :=
  { trail.accept loop.fileRaw with
    processes := trail.processes + 1
    changes := 0
    origin := if loop.live.fromPanel then loop.storePath.bind trail.wrote else none }

def reloaded (trail : Trail) (raw : String) : Trail :=
  { trail.accept raw with
    changes := trail.changes + 1
    origin := none }

def saved (trail : Trail) (path : Option String) (fileRaw : String) : Trail :=
  { trail with
    changes := trail.changes + 1
    saves := trail.saves ++ [fileRaw]
    wrote := fun other => if some other = path then some trail.saves.length else trail.wrote other
    origin := some trail.saves.length }

def loaded (trail : Trail) (live : Live) : Trail :=
  { trail with
    pages := trail.pages ++
      [⟨getConfig live, live.config, trail.processes, trail.changes⟩] }

/-- The record after a turn. -/
def turned {Content : Type} (trail : Trail) (loop : MainLoop) (change : Change) (accepted : Bool)
    (disk : Disk Content) : Trail :=
  match accepted, change with
  | false, _ => trail.forget disk
  | true, .reload raw => (trail.forget disk).reloaded raw
  | true, .save _ => (trail.forget disk).saved loop.storePath loop.fileRaw

end Trail

section Runs
variable {Content : Type} (f : Formats Content)

def Machine.step (m : Machine Content) : Action Content → Option (Machine Content)
  | .start io env start raw =>
    match m.running with
    | some _ => none
    | none =>
      let (loop, disk) := boot f io env start raw m.disk
      let trail := m.trail.forget disk
      some { disk, running := loop, trail := loop.elim trail trail.started }
  | .stop => m.running.map fun _ =>
    { m with running := none, trail := { m.trail with origin := none } }
  | .turn io env change =>
    match m.running with
    | none => none
    | some loop =>
      let (accepted, after, disk) := turn f io env change loop m.disk
      some { disk, running := some after, trail := m.trail.turned loop change accepted disk }
  | .load =>
    match m.running with
    | none => none
    | some loop => some { m with trail := m.trail.loaded loop.live }

/-- What one action does to the machine. -/
inductive Stepped (m : Machine Content) : Action Content → Machine Content → Prop
  | failed {io : FileIo Content} {env : Env} {start : Boot} {raw : String} {disk : Disk Content}
      (hidle : m.running = none) (hboot : boot f io env start raw m.disk = (none, disk)) :
      Stepped m (.start io env start raw) ⟨disk, none, m.trail.forget disk⟩
  | started {io : FileIo Content} {env : Env} {start : Boot} {raw : String} {disk : Disk Content}
      {loop : MainLoop} (hidle : m.running = none)
      (hboot : boot f io env start raw m.disk = (some loop, disk)) :
      Stepped m (.start io env start raw)
        ⟨disk, some loop, (m.trail.forget disk).started loop⟩
  | stopped {loop : MainLoop} (hrunning : m.running = some loop) :
      Stepped m .stop ⟨m.disk, none, { m.trail with origin := none }⟩
  | turned {io : FileIo Content} {env : Env} {change : Change} {loop : MainLoop}
      {outcome : Bool × MainLoop × Disk Content} (hrunning : m.running = some loop)
      (hturned : Turned f io env loop m.disk change outcome) :
      Stepped m (.turn io env change)
        ⟨outcome.2.2, some outcome.2.1, m.trail.turned loop change outcome.1 outcome.2.2⟩
  | loaded {loop : MainLoop} (hrunning : m.running = some loop) :
      Stepped m .load ⟨m.disk, some loop, m.trail.loaded loop.live⟩

variable {f} in
theorem stepped {m after : Machine Content} {action : Action Content}
    (h : m.step f action = some after) : Stepped f m action after := by
  rcases m with ⟨before, running, trail⟩
  cases action with
  | start io env start raw =>
    cases running with
    | some _ => cases h
    | none =>
      rcases hboot : boot f io env start raw before with ⟨loop, disk⟩
      have hafter : after =
          ⟨disk, loop, loop.elim (trail.forget disk) (trail.forget disk).started⟩ := by
        simp only [Machine.step, hboot, Option.some.injEq] at h
        exact h.symm
      subst hafter
      cases loop with
      | none => exact Stepped.failed rfl hboot
      | some loop => exact Stepped.started rfl hboot
  | stop =>
    cases running with
    | none => cases h
    | some loop =>
      obtain rfl := Option.some.inj h
      exact Stepped.stopped rfl
  | turn io env change =>
    cases running with
    | none => cases h
    | some loop =>
      obtain rfl := Option.some.inj h
      have hturned := turned f io env change loop before
      exact Stepped.turned rfl hturned
  | load =>
    cases running with
    | none => cases h
    | some loop =>
      obtain rfl := Option.some.inj h
      exact Stepped.loaded rfl

/-- A start that succeeds runs what `effective` makes of the file. -/
theorem boot_some {io : FileIo Content} {env : Env} {start : Boot} {raw : String}
    {before disk : Disk Content} {loop : MainLoop}
    (h : boot f io env start raw before = (some loop, disk)) :
    ∃ config, parse f raw = some config ∧ loop.fileRaw = raw ∧
      loop.storePath = storePathOf config ∧ loop.live.revision = 0 ∧
      effective f io config raw before = (loop.live.config, loop.live.fromPanel, disk) := by
  unfold boot at h
  cases hparse : parse f raw with
  | none =>
    rw [hparse] at h
    cases h
  | some config =>
    rw [hparse] at h
    dsimp only at h
    split at h
    · cases h
    split at h
    · cases h
    split at h
    · cases h
    obtain ⟨hloop, rfl⟩ := Prod.mk.inj h
    obtain rfl := Option.some.inj hloop
    exact ⟨config, rfl, rfl, rfl, rfl, rfl⟩

/-- A start that fails leaves the disk alone or as `effective` leaves it. -/
theorem boot_none {io : FileIo Content} {env : Env} {start : Boot} {raw : String}
    {before disk : Disk Content} (h : boot f io env start raw before = (none, disk)) :
    disk = before ∨ ∃ config, parse f raw = some config ∧
      disk = (effective f io config raw before).2.2 := by
  unfold boot at h
  cases hparse : parse f raw with
  | none =>
    rw [hparse] at h
    exact Or.inl (Prod.mk.inj h).2.symm
  | some config =>
    rw [hparse] at h
    dsimp only at h
    split at h
    · exact Or.inl (Prod.mk.inj h).2.symm
    split at h
    · exact Or.inr ⟨config, rfl, (Prod.mk.inj h).2.symm⟩
    split at h
    · exact Or.inr ⟨config, rfl, (Prod.mk.inj h).2.symm⟩
    · cases h

/-- What runs reach from an empty disk, every step of them allowed. -/
inductive Reached (allowed : Machine Content → Action Content → Prop) : Machine Content → Prop
  | empty : Reached allowed {}
  | step {m after : Machine Content} {action : Action Content} (before : Reached allowed m)
      (hallowed : allowed m action) (hstep : m.step f action = some after) :
      Reached allowed after

variable {f} {allowed : Machine Content → Action Content → Prop}

theorem Reached.mono {other : Machine Content → Action Content → Prop}
    (h : ∀ m action, allowed m action → other m action) {m : Machine Content}
    (hreached : Reached f allowed m) : Reached f other m := by
  induction hreached with
  | empty => exact Reached.empty
  | step _ hallowed hstep ih => exact ih.step (h _ _ hallowed) hstep

/-- A whole list of actions, each of them allowed. -/
theorem Reached.run (actions : List (Action Content)) {m after : Machine Content}
    (hallowed : ∀ m, ∀ action ∈ actions, allowed m action) (h : Reached f allowed m)
    (hrun : actions.foldlM (Machine.step f) m = some after) : Reached f allowed after := by
  induction actions generalizing m with
  | nil =>
    obtain rfl := Option.some.inj hrun
    exact h
  | cons action actions ih =>
    rw [List.foldlM_cons] at hrun
    obtain ⟨next, hstep, hrest⟩ := Option.bind_eq_some_iff.mp hrun
    exact ih (fun m action hmem => hallowed m action (List.mem_cons_of_mem _ hmem))
      (h.step (hallowed m action List.mem_cons_self) hstep) hrest

end Runs

/-! ## Given histories -/

/-- The machine after some actions. -/
def machineAfter {Content : Type} (f : Formats Content) (actions : List (Action Content)) :
    Machine Content :=
  (actions.foldlM (Machine.step f) {}).getD {}

/-- Of the first action only what it needs on the empty disk is asked. -/
theorem reached_machineAfter {Content : Type} {f : Formats Content}
    {allowed : Machine Content → Action Content → Prop} {first : Action Content}
    {rest : List (Action Content)} (hfirst : allowed {} first)
    (hrest : ∀ m, ∀ action ∈ rest, allowed m action)
    (h : ((first :: rest).foldlM (Machine.step f) {}).isSome = true) :
    Reached f allowed (machineAfter f (first :: rest)) := by
  obtain ⟨m, hm⟩ := Option.isSome_iff_exists.mp h
  rw [machineAfter, hm]
  rw [List.foldlM_cons] at hm
  obtain ⟨next, hstep, hrun⟩ := Option.bind_eq_some_iff.mp hm
  exact Reached.run rest hrest (Reached.empty.step hfirst hstep) hrun

/-- The loop that runs, if there is one. -/
def loopOf {Content : Type} (m : Machine Content) : MainLoop := m.running.getD idleLoop

theorem running_loopOf {Content : Type} {m : Machine Content} (h : m.running.isSome = true) :
    m.running = some (loopOf m) := by
  obtain ⟨loop, hloop⟩ := Option.isSome_iff_exists.mp h
  rw [loopOf, hloop]
  rfl

/-- A fresh process on a file text. -/
def startFresh (raw : String) : Action StoreDoc := .start {} freePorts { world := emptyWorld } raw

end PortsBox
