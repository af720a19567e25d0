import PortsBox.PanelTrail

/-!
# Saves that a file edit has dropped

Once another file text is accepted, the changes of a save stay out of the live
config, as long as no process comes up with its store path away from a store that
an earlier text still leads to.
-/

set_option autoImplicit false

namespace PortsBox

section Dropped
variable {Content : Type} (f : Formats Content)

/-- A store that a start finds: it loads, and the text it was saved under leads to it. -/
def Belongs (disk : Disk Content) (path : String) (store : Store) : Prop :=
  loadStore f {} path disk = some store ∧
    ∃ config, parse f store.base = some config ∧ storePathOf config = some path

/-- What the law needs of an action: a process that comes up has the store path of every store
that belongs where it is. -/
def Careful (m : Machine Content) : Action Content → Prop
  | .start io env start raw =>
    io.Clears ∧ ((boot f io env start raw m.disk).1.isSome = true →
      ∀ config, parse f raw = some config →
        ∀ path store, Belongs f m.disk path store → storePathOf config = some path)
  | .turn io _ _ => io.Undoes
  | .stop | .load => True

variable {f}

theorem Belongs.of_fewer {after before : Disk Content} (h : Fewer after before) {path : String}
    {store : Store} (hbelongs : Belongs f after path store) : Belongs f before path store :=
  ⟨h.loads hbelongs.1, hbelongs.2⟩

/-! ## The invariant -/

/-- No dropped save is live or on the way back. -/
structure Tracked (f : Formats Content) (m : Machine Content) : Prop where
  known : ∀ save ∈ m.trail.dropped, save < m.trail.saves.length
  origin : ∀ save ∈ m.trail.dropped, m.trail.origin ≠ some save
  gone : ∀ save ∈ m.trail.dropped, ∀ path store,
    m.trail.wrote path = some save → ¬ Belongs f m.disk path store
  /-- A loop on the config of the file has no store to load at its path. -/
  clean : ∀ loop, m.running = some loop → loop.live.fromPanel = false →
    ∀ path, loop.storePath = some path → loadStore f {} path m.disk = none
  /-- A store that belongs where it is, is the running loop's. -/
  near : ∀ loop, m.running = some loop →
    ∀ path store, Belongs f m.disk path store → loop.storePath = some path

theorem forget_wrote {trail : Trail} {disk : Disk Content} {path : String} {save : Nat}
    (h : (trail.forget disk).wrote path = some save) : trail.wrote path = some save :=
  (Option.bind_eq_some_iff.mp h).choose_spec.2

theorem mem_accept_dropped {trail : Trail} {raw : String} {save : Nat}
    (h : save ∈ (trail.accept raw).dropped) :
    save ∈ trail.dropped ∨ save < trail.saves.length ∧ trail.saves[save]? ≠ some raw := by
  rcases List.mem_append.mp h with hold | hnew
  · exact Or.inl hold
  · obtain ⟨hlt, hother⟩ := List.mem_filter.mp hnew
    exact Or.inr ⟨List.mem_range.mp hlt, of_decide_eq_true hother⟩

theorem accept_known {trail : Trail} (raw : String)
    (h : ∀ save ∈ trail.dropped, save < trail.saves.length) :
    ∀ save ∈ (trail.accept raw).dropped, save < trail.saves.length := by
  intro save hsave
  rcases mem_accept_dropped hsave with hold | ⟨hlt, _⟩
  · exact h save hold
  · exact hlt

/-- A text is accepted once the only stores left to load are its own. -/
theorem accept_gone {trail : Trail} {raw : String} {disk : Disk Content}
    (hgone : ∀ save ∈ trail.dropped, ∀ path store,
      trail.wrote path = some save → ¬ Belongs f disk path store)
    (hleft : ∀ path store, Belongs f disk path store →
      ∀ save, trail.wrote path = some save → trail.saves[save]? = some raw) :
    ∀ save ∈ (trail.accept raw).dropped, ∀ path store,
      trail.wrote path = some save → ¬ Belongs f disk path store := by
  intro save hsave path store hwrote hbelongs
  rcases mem_accept_dropped hsave with hold | ⟨_, hother⟩
  · exact hgone save hold path store hwrote hbelongs
  · exact hother (hleft path store hbelongs save hwrote)

/-- The stores that are left of fewer are no new ones. -/
theorem Tracked.gone_fewer {m : Machine Content} (h : Tracked f m) {disk : Disk Content}
    (hfewer : Fewer disk m.disk) : ∀ save ∈ m.trail.dropped, ∀ path store,
      (m.trail.forget disk).wrote path = some save → ¬ Belongs f disk path store := by
  intro save hsave path store hwrote hbelongs
  exact h.gone save hsave path store (forget_wrote hwrote) (hbelongs.of_fewer hfewer)

/-- A turn that leaves the live config and adds no store. -/
theorem Tracked.same {m : Machine Content} (h : Tracked f m) {loop after : MainLoop}
    (hrunning : m.running = some loop) (hlive : after.live = loop.live)
    (hpath : after.storePath = loop.storePath) {disk : Disk Content}
    (hfewer : Fewer disk m.disk) : Tracked f ⟨disk, some after, m.trail.forget disk⟩ := by
  refine ⟨h.known, h.origin, h.gone_fewer hfewer, ?_, ?_⟩
  · intro other hother hfrom path hstore
    obtain rfl := Option.some.inj hother
    have hnone := h.clean loop hrunning (hlive ▸ hfrom) path (hpath ▸ hstore)
    rcases hfewer path with hgone | hsame
    · exact loadStore_none hgone
    · rw [loadStore_congr hsame, hnone]
  · intro other hother path store hbelongs
    obtain rfl := Option.some.inj hother
    exact hpath.trans (h.near loop hrunning path store (hbelongs.of_fewer hfewer))

/-- An accepted reload leaves no store that a start could load. -/
theorem dropStore_clean {m : Machine Content} (h : Tracked f m) {loop : MainLoop}
    (hrunning : m.running = some loop) {io : FileIo Content} (hio : io.Undoes) {path : String}
    (hpath : loop.storePath = some path) :
    loadStore f {} path (dropStore io loop m.disk) = none := by
  rw [dropStore, hpath]
  dsimp only
  cases hfrom : loop.live.fromPanel with
  | true => exact loadStore_none (removeStore_self hio.remove path m.disk)
  | false => exact h.clean loop hrunning hfrom path hpath

theorem Tracked.reloaded {m : Machine Content} (h : Tracked f m) {loop after : MainLoop}
    (hrunning : m.running = some loop) {io : FileIo Content} (hio : io.Undoes) (raw : String)
    (hpath : after.storePath = loop.storePath) :
    Tracked f ⟨dropStore io loop m.disk, some after,
      (m.trail.forget (dropStore io loop m.disk)).reloaded raw⟩ := by
  have hfewer := fewer_dropStore io loop m.disk
  have hnone : ∀ path store, ¬ Belongs f (dropStore io loop m.disk) path store := by
    intro path store hbelongs
    have hnear := h.near loop hrunning path store (hbelongs.of_fewer hfewer)
    cases (dropStore_clean h hrunning hio hnear).symm.trans hbelongs.1
  refine ⟨accept_known raw h.known, fun _ _ => nofun, ?_, ?_, ?_⟩
  · exact fun _ _ path store _ => hnone path store
  · intro other hother _ path hstore
    obtain rfl := Option.some.inj hother
    exact dropStore_clean h hrunning hio (hpath ▸ hstore)
  · intro _ _ path store hbelongs
    exact absurd hbelongs (hnone path store)

theorem Tracked.saved {m : Machine Content} (h : Tracked f m) {loop after : MainLoop}
    (hrunning : m.running = some loop) {path : String} (hpath : loop.storePath = some path)
    (edit : ConfigEdit) (hafter : after.storePath = some path)
    (hfrom : after.live.fromPanel = true) :
    Tracked f ⟨withStore f path edit loop m.disk, some after,
      (m.trail.forget (withStore f path edit loop m.disk)).saved loop.storePath loop.fileRaw⟩ := by
  have hother : ∀ other store, other ≠ path →
      Belongs f (withStore f path edit loop m.disk) other store → Belongs f m.disk other store := by
    intro other store hne hbelongs
    exact ⟨(loadStore_congr (withStore_of_ne hne edit loop m.disk)).symm.trans hbelongs.1,
      hbelongs.2⟩
  refine ⟨?_, ?_, ?_, ?_, ?_⟩
  · intro save hsave
    rw [Trail.saved, List.length_append]
    exact (h.known save hsave).trans_le (Nat.le_add_right _ _)
  · intro save hsave heq
    have hlt := h.known save hsave
    obtain rfl := Option.some.inj heq
    exact Nat.lt_irrefl _ hlt
  · intro save hsave other store hwrote hbelongs
    dsimp only [Trail.saved] at hwrote
    rw [hpath] at hwrote
    split at hwrote
    · have hlt := h.known save hsave
      obtain rfl := Option.some.inj hwrote
      exact Nat.lt_irrefl _ hlt
    next hne =>
    exact h.gone save hsave other store (forget_wrote hwrote)
      (hother other store (fun heq => hne (congrArg some heq)) hbelongs)
  · intro _ hsome hno
    obtain rfl := Option.some.inj hsome
    cases hfrom.symm.trans hno
  · intro _ hsome other store hbelongs
    obtain rfl := Option.some.inj hsome
    by_cases heq : other = path
    · rw [hafter, heq]
    · exact hafter.trans (hpath.symm.trans
        (h.near loop hrunning other store (hother other store heq hbelongs)))

/-- A process comes up: what it restores was saved under its text, everything else that a start
could load is away. -/
theorem Tracked.started (hf : f.Faithful) {m : Machine Content} (h : Tracked f m)
    (hwritten : Written f m) {io : FileIo Content} {env : Env} {start : Boot} {raw : String}
    {loop : MainLoop} {disk : Disk Content} (hcareful : Careful f m (.start io env start raw))
    (hboot : boot f io env start raw m.disk = (some loop, disk)) :
    Tracked f ⟨disk, some loop, (m.trail.forget disk).started loop⟩ := by
  obtain ⟨hio, hcareful⟩ := hcareful
  obtain ⟨config, hparse, hraw, hstorePath, _, heffective⟩ := boot_some f hboot
  have hhere := hcareful (by rw [hboot]; rfl) config hparse
  obtain ⟨hfewer, hcases⟩ := effective_cases (f := f) hio config raw m.disk
  rw [heffective] at hfewer hcases
  dsimp only at hfewer hcases
  have hnear : ∀ path store, Belongs f disk path store → loop.storePath = some path :=
    fun path store hbelongs => hstorePath.trans (hhere path store (hbelongs.of_fewer hfewer))
  have hforget := h.gone_fewer hfewer
  rcases hcases with ⟨hfrom, _, hnone⟩ | ⟨path, store, next, hpath, hload, hbase, _, heq⟩
  · have hclean : ∀ path, loop.storePath = some path → loadStore f {} path disk = none :=
      fun path hpath => hnone path (hstorePath.symm.trans hpath)
    have hempty : ∀ path store, ¬ Belongs f disk path store := by
      intro path store hbelongs
      cases (hclean path (hnear path store hbelongs)).symm.trans hbelongs.1
    refine ⟨accept_known _ h.known, ?_, fun _ _ path store _ => hempty path store, ?_, ?_⟩
    · intro save _
      dsimp only [Trail.started]
      rw [hfrom]
      exact nofun
    · intro _ hsome _
      obtain rfl := Option.some.inj hsome
      exact hclean
    · intro _ hsome
      obtain rfl := Option.some.inj hsome
      exact hnear
  · obtain ⟨hnext, hfrom, hdisk⟩ : loop.live.config = next ∧ loop.live.fromPanel = true ∧
        disk = m.disk := by simpa using heq
    subst hdisk
    have hbelongs : Belongs f m.disk path store := ⟨hload, config, hbase ▸ hparse, hpath⟩
    have hsaves : ∀ save, m.trail.wrote path = some save → m.trail.saves[save]? = some raw :=
      fun save hwrote => hbase ▸ hwritten.base hf hwrote hload
    refine ⟨accept_known _ h.known, ?_, ?_, ?_, ?_⟩
    · -- the save that comes back was made under this text
      intro save hsave horigin
      dsimp only [Trail.started] at horigin
      rw [hfrom, if_pos rfl, hstorePath, hpath, Option.bind_some] at horigin
      have hwrote := forget_wrote horigin
      rcases mem_accept_dropped hsave with hold | ⟨_, hother⟩
      · exact h.gone save hold path store hwrote hbelongs
      · exact hother (hraw ▸ hsaves save hwrote)
    · refine accept_gone hforget ?_
      intro other found hfound save hwrote
      obtain rfl : path = other := by
        exact Option.some.inj (hpath.symm.trans (hstorePath.symm.trans (hnear other found hfound)))
      exact hraw ▸ hsaves save (forget_wrote hwrote)
    · intro _ hsome hno
      obtain rfl := Option.some.inj hsome
      cases hfrom.symm.trans hno
    · intro _ hsome
      obtain rfl := Option.some.inj hsome
      exact hnear

theorem Careful.reliable {m : Machine Content} {action : Action Content}
    (h : Careful f m action) : action.Reliable := by
  cases action with
  | start io env start raw => exact h.1
  | stop => trivial
  | turn io env change => exact h
  | load => trivial

theorem Tracked.step (hf : f.Faithful) {m after : Machine Content} {action : Action Content}
    (h : Tracked f m) (hwritten : Written f m) (hcareful : Careful f m action)
    (hstep : m.step f action = some after) : Tracked f after := by
  have hio := hcareful.reliable
  cases stepped hstep with
  | failed hidle hboot =>
    refine ⟨h.known, h.origin, h.gone_fewer (fewer_boot hio hboot), ?_, ?_⟩
    · intro _ hsome
      cases hsome
    · intro _ hsome
      cases hsome
  | started hidle hboot => exact h.started hf hwritten hcareful hboot
  | stopped hrunning =>
    refine ⟨h.known, fun _ _ => nofun, h.gone, ?_, ?_⟩
    · intro _ hsome
      cases hsome
    · intro _ hsome
      cases hsome
  | turned hrunning hturned =>
    cases hturned with
    | rejected hworld =>
      refine h.same hrunning ?_ ?_ (Fewer.refl _)
      all_goals rfl
    | reloaded hparse happly => exact h.reloaded hrunning hio _ rfl
    | stopped hstopped => exact h.same hrunning rfl rfl (Fewer.refl _)
    | undone hpath hsubmitted happly =>
      refine h.same hrunning ?_ ?_ (fewer_undo hio _ _ _ _)
      all_goals rfl
    | saved hpath hsubmitted happly => exact h.saved hrunning hpath _ hpath rfl
  | loaded hrunning => exact ⟨h.known, h.origin, h.gone, hrunning ▸ h.clean, hrunning ▸ h.near⟩

/-- Over any careful history: once another file text was accepted, by a reload or by a start, the
changes of a save never become part of the live config again. -/
theorem dropped_for_good (hf : f.Faithful) {m : Machine Content}
    (h : Reached f (Careful f) m) : ∀ save ∈ m.trail.dropped, m.trail.origin ≠ some save := by
  have hinvariant : Written f m ∧ Tracked f m := by
    induction h with
    | empty =>
      refine ⟨⟨?_, ?_⟩, ⟨?_, ?_, ?_, ?_, ?_⟩⟩
      all_goals simp
    | step _ hcareful hstep ih =>
      exact ⟨ih.1.step hcareful.reliable hstep, ih.2.step hf ih.1 hcareful hstep⟩
  exact hinvariant.2.origin

end Dropped

/-! ## A file without the panel in between -/

/-- A file that turns the panel off. -/
def plainFile : String := "\x7b\"rules\": [\x7b\"listen\": \"0.0.0.0:80\", \"target\": \"t:1\"\x7d]\x7d"

def plainConfig : Config := { rules := [{ listen := .v4 0 80#16, target := "t:1" }] }

def twoFiles : Formats StoreDoc :=
  documents fun raw =>
    if raw = panelFile then some panelConfig
    else if raw = plainFile then some plainConfig
    else none

/-- Only the panel's file leads to a store. -/
theorem twoFiles_path {raw path : String}
    (h : (parse twoFiles raw).bind storePathOf = some path) : path = "panel.json" := by
  by_cases hpanel : raw = panelFile
  · subst hpanel
    have hpath : (parse twoFiles panelFile).bind storePathOf = some "panel.json" := by
      decide +kernel
    exact (Option.some.inj (hpath.symm.trans h)).symm
  by_cases hplain : raw = plainFile
  · subst hplain
    have hnone : (parse twoFiles plainFile).bind storePathOf = none := by decide +kernel
    cases hnone.symm.trans h
  · simp [parse, twoFiles, documents, hpanel, hplain] at h

theorem startFresh_careful (m : Machine StoreDoc) : Careful twoFiles m (startFresh panelFile) := by
  refine ⟨⟨rfl, rfl⟩, ?_⟩
  intro _ config hparse path store hbelongs
  have hfile : (parse twoFiles panelFile).bind storePathOf = some "panel.json" := by decide +kernel
  rw [hparse, Option.bind_some] at hfile
  obtain ⟨-, saved, hsaved, hpath⟩ := hbelongs
  have hsame : path = "panel.json" := by
    apply twoFiles_path
    rw [hsaved, Option.bind_some]
    exact hpath
  rw [hfile, hsame]

/-- A save, a restart that finds its store, and then the file changes under the running process. -/
def reloadingRun : List (Action StoreDoc) :=
  [startFresh panelFile, .turn {} freePorts (.save (addRule 0)), .stop, startFresh panelFile,
   .turn {} freePorts (.reload plainFile)]

theorem dropped_for_good_reload :
    (machineAfter twoFiles (reloadingRun.take 4)).trail.origin = some 0 ∧
      0 ∈ (machineAfter twoFiles reloadingRun).trail.dropped ∧
      (machineAfter twoFiles reloadingRun).trail.origin ≠ some 0 := by
  have hdropped : 0 ∈ (machineAfter twoFiles reloadingRun).trail.dropped := by decide +kernel
  have hfaithful : twoFiles.Faithful := fun _ => rfl
  refine ⟨by decide +kernel, hdropped, dropped_for_good hfaithful ?_ 0 hdropped⟩
  refine reached_machineAfter (startFresh_careful {}) ?_ (by decide +kernel)
  intro m action haction
  simp only [List.mem_cons, List.not_mem_nil, or_false] at haction
  rcases haction with rfl | rfl | rfl | rfl
  · exact ⟨rfl, rfl⟩
  · trivial
  · exact startFresh_careful m
  · exact ⟨rfl, rfl⟩

/-- A save, and back to the panel's file after a run without the panel. -/
def revivingRun : List (Action StoreDoc) :=
  [startFresh panelFile, .turn {} freePorts (.save (addRule 0)), .stop,
   startFresh plainFile, .stop, startFresh panelFile]

theorem plain_start_revives :
    ∃ m : Machine StoreDoc, Reached twoFiles (fun _ action => action.Reliable) m ∧
      ∃ save ∈ m.trail.dropped, m.trail.origin = some save := by
  have hreliable : ∀ action ∈ revivingRun, action.Reliable := by
    intro action haction
    simp only [revivingRun, List.mem_cons, List.not_mem_nil, or_false] at haction
    rcases haction with rfl | rfl | rfl | rfl | rfl | rfl
    all_goals first | trivial | exact ⟨rfl, rfl⟩
  refine ⟨machineAfter twoFiles revivingRun, reached_machineAfter ?_ ?_ (by decide +kernel), 0, ?_, ?_⟩
  · exact hreliable _ List.mem_cons_self
  · exact fun _ action haction => hreliable action (List.mem_cons_of_mem _ haction)
  · decide +kernel
  · decide +kernel

end PortsBox
