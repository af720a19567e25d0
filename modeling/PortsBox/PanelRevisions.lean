import PortsBox.PanelRuns

/-!
# Revisions

The revision counts the accepted changes of one process, so within it a revision
names one config. The next process counts from zero again.
-/

set_option autoImplicit false

namespace PortsBox

/-- A page is as old as the changes accepted since, and shows the live config when there were
none. -/
structure Page.Fits (page : Page) (processes changes : Nat) (running : Option MainLoop) : Prop where
  revision : page.view.revision = page.changes % 2 ^ 64
  notLater : page.process ≤ processes
  notAhead : page.process = processes → page.changes ≤ changes
  config : page.process = processes → page.changes = changes →
    ∀ loop, running = some loop → page.config = loop.live.config

/-- The revision counts the changes, and the pages fit. -/
structure Counted {Content : Type} (m : Machine Content) : Prop where
  revision : ∀ loop, m.running = some loop → loop.live.revision = m.trail.changes % 2 ^ 64
  pages : ∀ page ∈ m.trail.pages, page.Fits m.trail.processes m.trail.changes m.running

section Revisions
variable {Content : Type} {f : Formats Content}

theorem Page.Fits.stopped {page : Page} {processes changes : Nat} {running : Option MainLoop}
    (h : page.Fits processes changes running) : page.Fits processes changes none :=
  ⟨h.revision, h.notLater, h.notAhead, fun _ _ _ h => nomatch h⟩

theorem Page.Fits.older {page : Page} {processes changes : Nat} {running : Option MainLoop}
    (h : page.Fits processes changes running) (loop : Option MainLoop) :
    page.Fits (processes + 1) 0 loop := by
  have := h.notLater
  refine ⟨h.revision, by omega, ?_, ?_⟩
  · intro hsame
    omega
  · intro hsame
    omega

/-- After a change, no page shows the live config any more. -/
theorem Page.Fits.changed {page : Page} {processes changes : Nat} {running : Option MainLoop}
    (h : page.Fits processes changes running) (loop : Option MainLoop) :
    page.Fits processes (changes + 1) loop := by
  refine ⟨h.revision, h.notLater, ?_, ?_⟩
  · intro hsame
    exact (h.notAhead hsame).trans (Nat.le_succ changes)
  · intro hsame heq
    have := h.notAhead hsame
    omega

theorem Page.Fits.kept {page : Page} {processes changes : Nat} {loop after : MainLoop}
    (h : page.Fits processes changes (some loop)) (hlive : after.live = loop.live) :
    page.Fits processes changes (some after) := by
  refine ⟨h.revision, h.notLater, h.notAhead, ?_⟩
  intro hsame heq other hother
  obtain rfl := Option.some.inj hother
  rw [hlive]
  exact h.config hsame heq loop rfl

theorem Counted.changed {m : Machine Content} (h : Counted m) {loop after : MainLoop}
    (hrunning : m.running = some loop) {config : Config} {fromPanel : Bool}
    (hlive : after.live = publish loop.live config fromPanel) (disk : Disk Content) (trail : Trail)
    (hprocesses : trail.processes = m.trail.processes) (hchanges : trail.changes = m.trail.changes + 1)
    (hpages : trail.pages = m.trail.pages) : Counted ⟨disk, some after, trail⟩ := by
  constructor
  · intro other hother
    obtain rfl := Option.some.inj hother
    have hbefore := h.revision loop hrunning
    simp only [hlive, publish, hchanges, hbefore]
    omega
  · intro page hpage
    dsimp only at hpage ⊢
    rw [hpages] at hpage
    rw [hprocesses, hchanges]
    exact (h.pages page hpage).changed _

theorem Counted.same {m : Machine Content} (h : Counted m) {loop after : MainLoop}
    (hrunning : m.running = some loop) (hlive : after.live = loop.live) (disk : Disk Content)
    (trail : Trail) (hprocesses : trail.processes = m.trail.processes)
    (hchanges : trail.changes = m.trail.changes) (hpages : trail.pages = m.trail.pages) :
    Counted ⟨disk, some after, trail⟩ := by
  constructor
  · intro other hother
    obtain rfl := Option.some.inj hother
    dsimp only
    rw [hlive, hchanges]
    exact h.revision loop hrunning
  · intro page hpage
    dsimp only at hpage ⊢
    rw [hpages] at hpage
    rw [hprocesses, hchanges]
    exact (hrunning ▸ h.pages page hpage).kept hlive

theorem Counted.step {m after : Machine Content} {action : Action Content} (h : Counted m)
    (hstep : m.step f action = some after) : Counted after := by
  cases stepped hstep with
  | failed hidle hboot =>
    refine ⟨(fun _ h => nomatch h), ?_⟩
    intro page hpage
    exact (h.pages page hpage).stopped
  | @started _ _ _ _ _ loop hidle hboot =>
    obtain ⟨config, _, _, _, hrevision, _⟩ := boot_some f hboot
    constructor
    · intro other hother
      obtain rfl := Option.some.inj hother
      exact hrevision
    · intro page hpage
      exact (h.pages page hpage).older _
  | stopped hrunning =>
    refine ⟨(fun _ h => nomatch h), ?_⟩
    intro page hpage
    exact (h.pages page hpage).stopped
  | turned hrunning hturned =>
    cases hturned with
    | rejected hworld =>
      refine h.same hrunning ?_ _ _ ?_ ?_ ?_
      all_goals rfl
    | reloaded hparse happly => exact h.changed hrunning rfl _ _ rfl rfl rfl
    | stopped hstopped => exact h.same hrunning rfl _ _ rfl rfl rfl
    | undone hpath hsubmitted happly =>
      refine h.same hrunning ?_ _ _ ?_ ?_ ?_
      all_goals rfl
    | saved hpath hsubmitted happly => exact h.changed hrunning rfl _ _ rfl rfl rfl
  | @loaded loop hrunning =>
    constructor
    · intro other hother
      exact h.revision other (hrunning.trans hother)
    · intro page hpage
      rcases List.mem_append.mp hpage with hpage | hpage
      · exact hrunning ▸ h.pages page hpage
      · obtain rfl := List.mem_singleton.mp hpage
        refine ⟨h.revision loop hrunning, le_refl _, fun _ => le_refl _, ?_⟩
        intro _ _ other hother
        obtain rfl := Option.some.inj hother
        rfl

theorem Reached.counted {allowed : Machine Content → Action Content → Prop} {m : Machine Content}
    (h : Reached f allowed m) : Counted m := by
  induction h with
  | empty => exact ⟨(fun _ h => nomatch h), (fun _ h => nomatch h)⟩
  | step _ _ hstep ih => exact ih.step hstep

/-- In every history: a save from a page of the same process, with fewer than 2 ^ 64 changes since,
replaces the config that the page shows. -/
theorem save_replaces_shown {m : Machine Content} (h : Reached f (fun _ _ => True) m)
    {loop : MainLoop} (hrunning : m.running = some loop) {page : Page}
    (hpage : page ∈ m.trail.pages) (hprocess : page.process = m.trail.processes)
    (hfew : m.trail.changes < page.changes + 2 ^ 64) (io : FileIo Content) (env : Env)
    (edit : ConfigEdit) (hrevision : edit.revision = page.view.revision)
    (haccepted : (turn f io env (.save edit) loop m.disk).1 = true) :
    loop.live.config = page.config := by
  have hcounted := h.counted
  have hfits := hcounted.pages page hpage
  have hturned := turned f io env (.save edit) loop m.disk
  generalize turn f io env (.save edit) loop m.disk = outcome at hturned haccepted
  cases hturned with
  | stopped hstopped => cases haccepted
  | undone hpath hsubmitted happly => cases haccepted
  | saved hpath hsubmitted happly =>
    have hcurrent := hcounted.revision loop hrunning
    have hle := hfits.notAhead hprocess
    have hsame : page.changes = m.trail.changes := by
      have hshown := hfits.revision
      have hasked := hsubmitted.revision
      omega
    exact (hfits.config hprocess hsame loop hrunning).symm

end Revisions

/-! ## A restart in between -/

/-- A page in a fresh process. -/
def loading : List (Action StoreDoc) := [startFresh panelFile, .load]

/-- A save from the page, then the process comes up anew with what was saved. -/
def restarting : List (Action StoreDoc) :=
  loading ++ [.turn {} freePorts (.save (addRule 0)), .stop, startFresh panelFile]

/-- The first page of a history. -/
def pageOf (m : Machine StoreDoc) : Page :=
  m.trail.pages.headD ⟨getConfig idleLoop.live, panelConfig, 0, 0⟩

theorem save_replaces_shown_once :
    (loopOf (machineAfter panelFormats loading)).live.config =
      (pageOf (machineAfter panelFormats loading)).config :=
  save_replaces_shown (reached_machineAfter trivial (fun _ _ _ => trivial) (by decide +kernel))
    (running_loopOf (by decide +kernel)) (by decide +kernel) (by decide +kernel)
    (by decide +kernel) {} freePorts (addRule 0) (by decide +kernel) (by decide +kernel)

/-- Whoever kept the page over the restart takes the rule away again, with revision 0. -/
def staleEdit : ConfigEdit := { revision := 0, users := [] }

theorem stale_page_overwrites :
    ∃ (m : Machine StoreDoc) (loop : MainLoop) (page : Page),
      Reached panelFormats (fun _ _ => True) m ∧ m.running = some loop ∧
      page ∈ m.trail.pages ∧ staleEdit.revision = page.view.revision ∧
      (turn panelFormats {} freePorts (.save staleEdit) loop m.disk).1 = true ∧
      loop.live.config ≠ page.config := by
  refine ⟨machineAfter panelFormats restarting, _, pageOf (machineAfter panelFormats restarting),
    reached_machineAfter trivial (fun _ _ _ => trivial) (by decide +kernel),
    running_loopOf (by decide +kernel), ?_, ?_, ?_, ?_⟩
  · decide +kernel
  · decide +kernel
  · decide +kernel
  · decide +kernel

end PortsBox
