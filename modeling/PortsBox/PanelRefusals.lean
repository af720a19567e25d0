import PortsBox.PanelStore

/-!
# Refused saves and reloads

A save writes the store before it applies the config and takes the write back when
the runtime refuses. What comes of it: everything is as before, unless there was a
store that could not be read, which is then gone.
-/

set_option autoImplicit false

namespace PortsBox

/-- The same world but for the log of binds. -/
def SameWorld (w after : World) : Prop := { after with binds := w.binds } = w

theorem SameWorld.refl (w : World) : SameWorld w w := rfl

theorem sameWorld_of_refused {env : Env} {config : Config} {w after : World} {e : ApplyError}
    (h : apply env config w = .error e after) : SameWorld w after := by
  obtain ⟨hruntime, hquotas, htasks, hremote, hnext, _⟩ := apply_refused env config h
  rcases w with ⟨runtime, remote, quotas, tasks, next, binds⟩
  rcases after with ⟨_, _, _, _, _, _⟩
  dsimp only at hruntime hquotas htasks hremote hnext
  subst hruntime hquotas htasks hremote hnext
  rfl

/-- What a request meets: the file system, what `apply` asks for, and the request itself. -/
inductive Change where
  | reload (raw : String)
  | save (edit : ConfigEdit)

section Turn
variable {Content : Type} (f : Formats Content) (io : FileIo Content) (env : Env)

/-- One turn of the loop, and whether the change was accepted. -/
def turn (change : Change) (loop : MainLoop) (disk : Disk Content) :
    Bool × MainLoop × Disk Content :=
  match change with
  | .reload raw => reloaded f io env raw loop disk
  | .save edit =>
    let (result, loop, disk) := saved f io env edit loop disk
    (result.isOk, loop, disk)

variable {f io env} {loop : MainLoop} {disk : Disk Content}

/-! ## The ways through a turn -/

theorem reload_cases (f : Formats Content) (env : Env) (world : World) (raw : String) :
    (∃ after, SameWorld world after ∧ reload f env world raw = (none, after)) ∨
      (∃ next after, parse f raw = some next ∧ apply env next world = .ok () after ∧
        reload f env world raw = (some next, after)) := by
  unfold reload
  cases parse f raw with
  | none => exact Or.inl ⟨world, SameWorld.refl world, rfl⟩
  | some next =>
    cases happly : apply env next world with
    | error e after =>
      refine Or.inl ⟨after, sameWorld_of_refused happly, ?_⟩
      simp only [happly]
    | ok _ after =>
      refine Or.inr ⟨next, after, rfl, happly, ?_⟩
      simp only [happly]

/-- The store files after an accepted reload. -/
def dropStore (io : FileIo Content) (loop : MainLoop) (disk : Disk Content) : Disk Content :=
  match loop.storePath with
  | some path => if loop.live.fromPanel then removeStore io path disk else disk
  | none => disk

/-- A reload keeps all but the text, or takes the config of the file and drops the store. -/
theorem reloaded_cases (f : Formats Content) (io : FileIo Content) (env : Env) (raw : String)
    (loop : MainLoop) (disk : Disk Content) :
    (∃ world, SameWorld loop.world world ∧
        reloaded f io env raw loop disk =
          (false, { loop with fileRaw := raw, world }, disk)) ∨
      (∃ next world, parse f raw = some next ∧ apply env next loop.world = .ok () world ∧
        reloaded f io env raw loop disk =
          (true, { loop with fileRaw := raw, world, live := publish loop.live next false },
            dropStore io loop disk)) := by
  unfold reloaded
  dsimp only
  rcases reload_cases f env loop.world raw with ⟨world, hworld, heq⟩ | ⟨next, world, hparse, happly, heq⟩
  · refine Or.inl ⟨world, hworld, ?_⟩
    rw [heq]
  · refine Or.inr ⟨next, world, hparse, happly, ?_⟩
    rw [heq]
    rfl

/-- What a save needs to get as far as the runtime. -/
structure Submitted (f : Formats Content) (io : FileIo Content) (edit : ConfigEdit)
    (loop : MainLoop) (next : Config) : Prop where
  revision : edit.revision = loop.live.revision
  checked : check f.isSocketAddr
    (edited edit (storeOf edit loop.live.config loop.fileRaw) loop.live.config) = .ok next
  written : io.write = true

/-- The disk with the store of an edit. -/
def withStore (f : Formats Content) (path : String) (edit : ConfigEdit) (loop : MainLoop)
    (disk : Disk Content) : Disk Content :=
  Function.update disk path
    (some (f.encode (.ofStore (storeOf edit loop.live.config loop.fileRaw))))

/-- A save stops early and does nothing, or it writes, and the runtime decides. -/
theorem save_cases (f : Formats Content) (io : FileIo Content) (env : Env) (path : String)
    (edit : ConfigEdit) (loop : MainLoop) (disk : Disk Content) :
    (∃ e, save f io env path edit loop disk = (.error e, loop, disk) ∧
        ∀ next, ¬ Submitted f io edit loop next) ∨
      (∃ next e world, Submitted f io edit loop next ∧
        apply env next loop.world = .error e world ∧
        save f io env path edit loop disk =
          (.error (.refused e), { loop with world },
            undo io path (readFile io path disk) (withStore f path edit loop disk))) ∨
      (∃ next world, Submitted f io edit loop next ∧
        apply env next loop.world = .ok () world ∧
        save f io env path edit loop disk =
          (.ok (publish loop.live next true).revision,
            { loop with world, live := publish loop.live next true },
            withStore f path edit loop disk)) := by
  unfold save
  dsimp only
  by_cases hrevision : edit.revision = loop.live.revision
  · rw [if_neg (not_not_intro hrevision)]
    cases hcheck : check f.isSocketAddr
        (edited edit (storeOf edit loop.live.config loop.fileRaw) loop.live.config) with
    | error e =>
      refine Or.inl ⟨_, rfl, ?_⟩
      rintro next ⟨_, hchecked, _⟩
      cases hcheck.symm.trans hchecked
    | ok next =>
      unfold writeStore
      cases hwrite : io.write with
      | false =>
        refine Or.inl ⟨_, rfl, ?_⟩
        rintro next ⟨_, _, hwritten⟩
        cases hwrite.symm.trans hwritten
      | true =>
        cases happly : apply env next loop.world with
        | error e world =>
          refine Or.inr (Or.inl ⟨next, e, world, ⟨hrevision, hcheck, hwrite⟩, happly, ?_⟩)
          simp only [if_true, happly]
          rfl
        | ok _ world =>
          refine Or.inr (Or.inr ⟨next, world, ⟨hrevision, hcheck, hwrite⟩, happly, ?_⟩)
          simp only [if_true, happly]
          rfl
  · rw [if_pos hrevision]
    refine Or.inl ⟨_, rfl, ?_⟩
    rintro next ⟨h, _, _⟩
    exact hrevision h

/-- What one turn does to the loop and the disk. -/
inductive Turned (f : Formats Content) (io : FileIo Content) (env : Env) (loop : MainLoop)
    (disk : Disk Content) : Change → Bool × MainLoop × Disk Content → Prop
  | rejected {raw : String} {world : World} (hworld : SameWorld loop.world world) :
      Turned f io env loop disk (.reload raw) (false, { loop with fileRaw := raw, world }, disk)
  | reloaded {raw : String} {next : Config} {world : World} (hparse : parse f raw = some next)
      (happly : apply env next loop.world = .ok () world) :
      Turned f io env loop disk (.reload raw)
        (true, { loop with fileRaw := raw, world, live := publish loop.live next false },
          dropStore io loop disk)
  | stopped {edit : ConfigEdit}
      (hstopped : ∀ path next, loop.storePath = some path → ¬ Submitted f io edit loop next) :
      Turned f io env loop disk (.save edit) (false, loop, disk)
  | undone {edit : ConfigEdit} {path : String} {next : Config} {e : ApplyError} {world : World}
      (hpath : loop.storePath = some path) (hsubmitted : Submitted f io edit loop next)
      (happly : apply env next loop.world = .error e world) :
      Turned f io env loop disk (.save edit)
        (false, { loop with world },
          undo io path (readFile io path disk) (withStore f path edit loop disk))
  | saved {edit : ConfigEdit} {path : String} {next : Config} {world : World}
      (hpath : loop.storePath = some path) (hsubmitted : Submitted f io edit loop next)
      (happly : apply env next loop.world = .ok () world) :
      Turned f io env loop disk (.save edit)
        (true, { loop with world, live := publish loop.live next true },
          withStore f path edit loop disk)

theorem turned (f : Formats Content) (io : FileIo Content) (env : Env) (change : Change)
    (loop : MainLoop) (disk : Disk Content) :
    Turned f io env loop disk change (turn f io env change loop disk) := by
  cases change with
  | reload raw =>
    rcases reloaded_cases f io env raw loop disk with
      ⟨world, hworld, heq⟩ | ⟨next, world, hparse, happly, heq⟩
    · rw [turn, heq]
      exact Turned.rejected hworld
    · rw [turn, heq]
      exact Turned.reloaded hparse happly
  | save edit =>
    unfold turn saved
    dsimp only
    cases hpath : loop.storePath with
    | none =>
      refine Turned.stopped ?_
      intro path next hsome
      cases hpath.symm.trans hsome
    | some path =>
      dsimp only
      rcases save_cases f io env path edit loop disk with
        ⟨e, heq, hstopped⟩ | ⟨next, e, world, hsubmitted, happly, heq⟩ |
        ⟨next, world, hsubmitted, happly, heq⟩
      · rw [heq]
        exact Turned.stopped fun _ next _ => hstopped next
      · rw [heq]
        exact Turned.undone hpath hsubmitted happly
      · rw [heq]
        exact Turned.saved hpath hsubmitted happly

/-! ## Refused -/

/-- The live config, the runtime and every store file are what they were. -/
structure Unchanged (loop : MainLoop) (disk : Disk Content) (after : MainLoop)
    (diskAfter : Disk Content) : Prop where
  live : after.live = loop.live
  world : SameWorld loop.world after.world
  storePath : after.storePath = loop.storePath
  disk : diskAfter = disk

/-- There is a store and it cannot be read, when the save has got so far that it needs it back. -/
def LosesStore (f : Formats Content) (io : FileIo Content) (env : Env) (change : Change)
    (loop : MainLoop) (disk : Disk Content) : Prop :=
  ∃ path edit next e world, change = .save edit ∧ loop.storePath = some path ∧
    disk path ≠ none ∧ io.read = false ∧ Submitted f io edit loop next ∧
    apply env next loop.world = .error e world

theorem undo_withStore (path : String) (edit : ConfigEdit) (hputBack : io.putBack = .ok ())
    (hremove : io.remove = true) :
    undo io path (readFile io path disk) (withStore f path edit loop disk) =
      if io.read then disk else Function.update disk path none := by
  unfold undo readFile withStore removeStore
  rw [hputBack, hremove]
  cases hread : io.read with
  | false => simp
  | true =>
    cases hdisk : disk path with
    | none =>
      simp only [if_true, Function.update_idem]
      rw [← hdisk, Function.update_eq_self]
    | some content =>
      simp only [if_true, Function.update_idem]
      rw [← hdisk, Function.update_eq_self]

/-- A refused change leaves everything as it was, given that the former store can be put back,
unless there was one that could not be read. -/
theorem refused_unchanged_iff (change : Change)
    (hrefused : (turn f io env change loop disk).1 = false) (hputBack : io.putBack = .ok ())
    (hremove : io.remove = true) :
    Unchanged loop disk (turn f io env change loop disk).2.1 (turn f io env change loop disk).2.2 ↔
      ¬ LosesStore f io env change loop disk := by
  have hturned := turned f io env change loop disk
  generalize turn f io env change loop disk = outcome at hturned hrefused ⊢
  cases hturned with
  | rejected hworld =>
    refine iff_of_true ⟨rfl, hworld, rfl, rfl⟩ ?_
    rintro ⟨_, _, _, _, _, h, _⟩
    cases h
  | reloaded hparse happly => cases hrefused
  | stopped hstopped =>
    refine iff_of_true ⟨rfl, SameWorld.refl _, rfl, rfl⟩ ?_
    rintro ⟨path, _, next, _, _, hedit, hpath, _, _, hsubmitted, _⟩
    obtain rfl := Change.save.inj hedit
    exact hstopped path next hpath hsubmitted
  | @undone edit path next e world hpath hsubmitted happly =>
    rw [undo_withStore path edit hputBack hremove]
    constructor
    · rintro ⟨_, _, _, hdisk⟩ ⟨_, _, _, _, _, _, hsome, hthere, hread, _⟩
      obtain rfl := Option.some.inj (hpath.symm.trans hsome)
      rw [hread, if_neg Bool.false_ne_true] at hdisk
      exact hthere ((congrFun hdisk path).symm.trans (Function.update_self path none disk))
    · intro hkept
      refine ⟨rfl, sameWorld_of_refused happly, rfl, ?_⟩
      dsimp only
      cases hread : io.read with
      | true => rfl
      | false =>
        have hgone : disk path = none := by
          by_contra hthere
          exact hkept ⟨path, edit, next, e, world, rfl, hpath, hthere, hread, hsubmitted, happly⟩
        rw [if_neg Bool.false_ne_true, ← hgone, Function.update_eq_self]
  | saved hpath hsubmitted happly => cases hrefused

end Turn

/-! ## A port in use -/

/-- A file with the panel and nothing else. -/
def panelFile : String := "\x7b\"panel\": \x7b\"enabled\": true\x7d\x7d"

def panelConfig : Config := { panel := some { enabled := true } }

/-- Documents stand for their texts. -/
def documents (files : String → Option Config) : Formats StoreDoc where
  isSocketAddr _ := false
  readConfig := files
  encode := id
  decode := some

def panelFormats : Formats StoreDoc :=
  documents fun raw => if raw = panelFile then some panelConfig else none

def addRule (revision : Nat) : ConfigEdit := { revision, users := oneRule.users }

/-- The loop after a start with the panel's file. -/
def idleLoop : MainLoop where
  world := emptyWorld
  live := { config := panelConfig, revision := 0, fromPanel := false }
  fileRaw := panelFile
  storePath := some "panel.json"

/-- What a former save has left. -/
def oldStore : StoreDoc :=
  { base := panelFile, totalQuota := none, accounting := some {}, singleUser := some false,
    users := [] }

def oldDisk : Disk StoreDoc := fun path => if path = "panel.json" then some oldStore else none

/-- The port is taken, the save is refused, and the store is put back. -/
theorem refused_unchanged_readable :
    Unchanged idleLoop oldDisk
      (turn panelFormats {} udpInUse (.save (addRule 0)) idleLoop oldDisk).2.1
      (turn panelFormats {} udpInUse (.save (addRule 0)) idleLoop oldDisk).2.2 := by
  refine (refused_unchanged_iff (.save (addRule 0)) (by decide +kernel) rfl rfl).mpr ?_
  rintro ⟨_, _, _, _, _, _, _, _, hread, _⟩
  cases hread

/-- The same with a store that cannot be read: the save is refused and the store is gone. -/
theorem refused_loses_unreadable :
    (turn panelFormats { read := false } udpInUse (.save (addRule 0)) idleLoop oldDisk).1 = false ∧
      ¬ Unchanged idleLoop oldDisk
        (turn panelFormats { read := false } udpInUse (.save (addRule 0)) idleLoop oldDisk).2.1
        (turn panelFormats { read := false } udpInUse (.save (addRule 0)) idleLoop oldDisk).2.2 := by
  refine ⟨by decide +kernel, ?_⟩
  intro h
  have hgone : (turn panelFormats { read := false } udpInUse (.save (addRule 0)) idleLoop
      oldDisk).2.2 "panel.json" = none := by decide +kernel
  have hthere : oldDisk "panel.json" = some oldStore := by decide +kernel
  rw [h.disk, hthere] at hgone
  cases hgone

end PortsBox
