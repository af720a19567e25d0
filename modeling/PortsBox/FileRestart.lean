import PortsBox.FileWatch
import PortsBox.PanelRestart

/-!
# Restarts beside the config file

The panel's changes are kept under the text that the loop was handed last, and a start
compares that with the text of the file. They come back when the two were the same at the
save, the file has not changed since, and the store is where the file says.
-/

set_option autoImplicit false

namespace PortsBox

/-- The former store is at hand when a save is refused, and the byte sizes of an edit are below
2 ^ 53. -/
def Move.Restartable {Content : Type} : Move Content → Prop
  | .start io _ _ _ => io.Clears
  | .receive io _ => io.Undoes ∧ io.read = true
  | .save io _ submitted =>
    io.Undoes ∧ io.read = true ∧ SmallSize submitted.totalQuota ∧ SmallUsers submitted.users
  | _ => True

namespace Site
variable {Content : Type} {f : Formats Content} {s after : Site Content}

/-- The machine of a site goes through a history of its own. -/
theorem reached_machine {file : Option String} {history : List (Move Content)}
    (hhistory : Trace.run (step f) { file } history = some s)
    (hallowed : ∀ move ∈ history, move.Restartable) :
    Reached f (fun _ action => PortsBox.Restartable action) s.machine := by
  have hkeeps : Trace.Keeps (step f) Move.Restartable fun s =>
      Reached f (fun _ action => PortsBox.Restartable action) s.machine := by
    intro s move next hmove hstep hreached
    cases moved hstep with
    | edit file => exact hreached
    | start hfile hstarted =>
      refine hreached.step ?_ hstarted
      exact hmove
    | stop hstopped =>
      refine hreached.step ?_ hstopped
      trivial
    | tick hwatch htick => exact hreached
    | settle hwatch hsettle => exact hreached
    | send hwatch hsend => exact hreached
    | receive hwatch hchannel hturn =>
      refine hreached.step ?_ hturn
      refine ⟨hmove.1, hmove.2, ?_⟩
      intro edit hedit
      cases hedit
    | save hsave =>
      refine hreached.step ?_ hsave
      obtain ⟨hundoes, hread, hquota, husers⟩ := hmove
      refine ⟨hundoes, hread, ?_⟩
      intro edit hedit
      obtain rfl := Change.save.inj hedit
      exact ⟨hquota, husers⟩
    | load hload =>
      refine hreached.step ?_ hload
      trivial
  exact hkeeps.run hallowed hhistory .empty

/-- A process that comes up after a stop runs what `effective` makes of the file. -/
theorem restarted {io : FileIo Content} {env : Env} {start : Boot} {noReload : Bool} {raw : String}
    {config : Config} (hfile : s.file = some raw) (hparse : parse f raw = some config)
    (hrun : Trace.run (step f) s [.stop, .start io env start noReload] = some after)
    {next : MainLoop} (hnext : after.machine.running = some next) :
    effective f io config raw s.machine.disk =
      (next.live.config, next.live.fromPanel, after.machine.disk) := by
  obtain ⟨mid, hstop, hrun⟩ := Trace.run_cons hrun
  obtain ⟨last, hstart, hrun⟩ := Trace.run_cons hrun
  obtain rfl := Trace.run_nil hrun
  cases moved hstop with
  | stop hstopped =>
    cases stepped hstopped with
    | stopped hrunning =>
      cases moved hstart with
      | start hread hstarted =>
        obtain rfl := Option.some.inj (hread.symm.trans hfile)
        cases stepped hstarted with
        | failed hidle hboot => cases hnext
        | started hidle hboot =>
          obtain rfl := Option.some.inj hnext
          obtain ⟨other, hother, -, -, -, heffective⟩ := boot_some f hboot
          obtain rfl := Option.some.inj (hother.symm.trans hparse)
          exact heffective

/-- In every history of edits of the file, starts, stops, saves and moves of the watcher: the live
config goes back to a save, and the file has the text it had at that save. If the loop had been
handed that text by then, it leads to the store that the loop kept, and its own addresses are
not those of the saved rules, a restart restores exactly what the panel can change. -/
theorem restart_restores (hf : f.Faithful) {file : Option String} {history : List (Move Content)}
    (hhistory : Trace.run (step f) { file } history = some s)
    (hallowed : ∀ move ∈ history, move.Restartable) {loop : MainLoop}
    (hrunning : s.machine.running = some loop) {save : Nat}
    (horigin : s.machine.trail.origin = some save) (hsince : s.onDisk[save]? = some s.file)
    (hdelivered : s.machine.trail.saves[save]?.map some = s.onDisk[save]?) {raw : String}
    (hfile : s.file = some raw) {config : Config} (hparse : parse f raw = some config)
    (hpath : storePathOf config = loop.storePath)
    (hclear : Clear loop.live.config.users (ownListens config)) {io : FileIo Content}
    (hio : io.Clears) :
    effective f io config raw s.machine.disk =
      (underSections config loop.live.config, true, s.machine.disk) ∧
    ∀ env start noReload after next,
      Trace.run (step f) s [.stop, .start io env start noReload] = some after →
        after.machine.running = some next →
          next.live.config = underSections config loop.live.config ∧
            next.live.fromPanel = true := by
  have hraw : s.machine.trail.saves[save]? = some raw := by
    rw [hsince, hfile] at hdelivered
    obtain ⟨text, htext, heq⟩ := Option.map_eq_some_iff.mp hdelivered
    rw [htext, heq]
  have heffective := effective_of_origin hf (reached_machine hhistory hallowed) hrunning horigin
    hraw hparse hpath hclear hio
  refine ⟨heffective, ?_⟩
  intro env start noReload after next hrun hnext
  have hrestarted := restarted hfile hparse hrun hnext
  rw [heffective] at hrestarted
  obtain ⟨hconfig, hrest⟩ := Prod.mk.inj hrestarted
  exact ⟨hconfig.symm, (Prod.mk.inj hrest).1.symm⟩

end Site

/-! ## Files of a panel -/

/-- The panel's file with a line break at its end. -/
def brokenFile : String := panelFile ++ "\n"

/-- The panel's file with another store path. -/
def movedFile : String := "\x7b\"panel\": \x7b\"enabled\": true, \"path\": \"other.json\"\x7d\x7d"

def movedConfig : Config := { panel := some { enabled := true, path := "other.json" } }

def movingFiles : Formats StoreDoc :=
  documents fun raw =>
    if raw = panelFile ∨ raw = brokenFile then some panelConfig
    else if raw = movedFile then some movedConfig
    else none

theorem freshStart_restartable (noReload : Bool) : (freshStart noReload).Restartable := ⟨rfl, rfl⟩

theorem followedEdit_restartable (raw : String) :
    ∀ move ∈ followedEdit raw, move.Restartable := by
  intro move hmove
  simp only [followedEdit, following, List.mem_cons, List.not_mem_nil, or_false] at hmove
  rcases hmove with rfl | rfl | rfl | rfl | rfl
  case inr.inr.inr.inr => exact ⟨⟨rfl, rfl⟩, rfl⟩
  all_goals trivial

theorem addRule_restartable (revision : Nat) :
    (Move.save {} freePorts (addRule revision) : Move StoreDoc).Restartable := by
  refine ⟨⟨rfl, rfl⟩, rfl, ?_, ?_⟩
  · intro n hn
    cases hn
  · intro user huser n hn
    obtain rfl := List.mem_singleton.mp huser
    cases hn

/-- A reload, a save, and a text that the loop refuses before the file is back at the one of the
save. -/
def savingMoves : List (Move StoreDoc) :=
  freshStart false :: (followedEdit brokenFile ++ .save {} freePorts (addRule 1) ::
    (followedEdit "" ++ [.edit (some brokenFile)]))

theorem savingMoves_restartable : ∀ move ∈ savingMoves, move.Restartable := by
  intro move hmove
  rcases List.mem_cons.mp hmove with rfl | hmove
  · exact freshStart_restartable false
  rcases List.mem_append.mp hmove with hmove | hmove
  · exact followedEdit_restartable brokenFile move hmove
  rcases List.mem_cons.mp hmove with rfl | hmove
  · exact addRule_restartable 1
  rcases List.mem_append.mp hmove with hmove | hmove
  · exact followedEdit_restartable "" move hmove
  · obtain rfl := List.mem_singleton.mp hmove
    trivial

def savedSite : Site StoreDoc := siteAfter movingFiles savingMoves

theorem restart_restores_brokenFile :
    ∃ after next,
      Trace.run (Site.step movingFiles) savedSite [.stop, freshStart false] = some after ∧
      after.machine.running = some next ∧ next.live.fromPanel = true ∧
      next.live.config = underSections panelConfig (loopOf savedSite.machine).live.config ∧
      next.live.config.users = oneRule.users := by
  have hfaithful : movingFiles.Faithful := fun _ => rfl
  have hclear : Clear (loopOf savedSite.machine).live.config.users (ownListens panelConfig) := by
    unfold Clear
    decide +kernel
  have hhistory : Trace.run (Site.step movingFiles) { file := panelFile } savingMoves =
      some savedSite :=
    run_siteAfter (by decide +kernel)
  have hrunning : savedSite.machine.running = some (loopOf savedSite.machine) :=
    running_loopOf (by decide +kernel)
  have horigin : savedSite.machine.trail.origin = some 0 := by decide +kernel
  have hsince : savedSite.onDisk[0]? = some savedSite.file := by decide +kernel
  have hfile : savedSite.file = some brokenFile := by decide +kernel
  have hparse : parse movingFiles brokenFile = some panelConfig := by decide +kernel
  have hio : ({} : FileIo StoreDoc).Clears := ⟨rfl, rfl⟩
  obtain ⟨-, hrestart⟩ := Site.restart_restores hfaithful hhistory savingMoves_restartable hrunning
    horigin hsince (by decide +kernel) hfile hparse (by decide +kernel) hclear hio
  have hsome : ((Trace.run (Site.step movingFiles) savedSite [.stop, freshStart false]).bind
      fun after => after.machine.running).isSome = true := by
    decide +kernel
  obtain ⟨next, hnext⟩ := Option.isSome_iff_exists.mp hsome
  obtain ⟨after, hrun, hnext⟩ := Option.bind_eq_some_iff.mp hnext
  obtain ⟨hconfig, hpanel⟩ := hrestart freePorts { world := emptyWorld } false after next hrun hnext
  refine ⟨after, next, hrun, hnext, hpanel, hconfig, ?_⟩
  rw [hconfig]
  decide +kernel

/-- A save after a reload that moves the store. -/
def movingMoves : List (Move StoreDoc) :=
  freshStart false :: (followedEdit movedFile ++ [.save {} freePorts (addRule 1)])

/-- The saved rule is live, the file has the text of the save, which the loop had been handed,
and a start with it has no users. -/
theorem moved_store_is_lost :
    ∃ (s : Site StoreDoc) (loop : MainLoop) (save : Nat),
      Trace.run (Site.step movingFiles) { file := panelFile } movingMoves = some s ∧
      (∀ move ∈ movingMoves, move.Restartable) ∧
      s.machine.running = some loop ∧ s.machine.trail.origin = some save ∧
      s.onDisk[save]? = some s.file ∧ s.machine.trail.saves[save]? = some movedFile ∧
      s.file = some movedFile ∧ parse movingFiles movedFile = some movedConfig ∧
      (effective movingFiles {} movedConfig movedFile s.machine.disk).1.users ≠
        loop.live.config.users := by
  refine ⟨siteAfter movingFiles movingMoves, _, 0, run_siteAfter (by decide +kernel), ?_,
    running_loopOf (by decide +kernel), ?_, ?_, ?_, ?_, ?_, ?_⟩
  · intro move hmove
    rcases List.mem_cons.mp hmove with rfl | hmove
    · exact freshStart_restartable false
    rcases List.mem_append.mp hmove with hmove | hmove
    · exact followedEdit_restartable movedFile move hmove
    · obtain rfl := List.mem_singleton.mp hmove
      exact addRule_restartable 1
  all_goals decide +kernel

/-- Under `--no-reload`, a save after the file was written goes with the former text, and the next
start drops it. -/
example :
    let s := siteAfter movingFiles
      [freshStart true, .edit (some brokenFile), .save {} freePorts (addRule 0)]
    s.machine.trail.origin = some 0 ∧ s.onDisk[0]? = some s.file ∧
      (effective movingFiles {} panelConfig brokenFile s.machine.disk).1.users = [] := by
  decide +kernel

end PortsBox
