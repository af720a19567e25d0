import PortsBox.Lib.Lockstep
import PortsBox.PanelTrail

/-!
# The secret key stays secret

Two installations whose files differ in the secret keys of the remote, both set or both
empty, get the same requests. Everything the panel computes goes by whether there is a
key, so the clients get the same answers, over starts, reloads, saves and restarts.
-/

set_option autoImplicit false

namespace PortsBox

/-! ## Configs but for the key -/

/-- Whether there is a key. -/
def maskKey (key : String) : String := if key.isEmpty then "" else "*"

def Accounting.masked (accounting : Accounting) : Accounting :=
  { accounting with
    remote := accounting.remote.map fun remote =>
      { remote with secretKey := maskKey remote.secretKey } }

def Config.masked (config : Config) : Config :=
  { config with accounting := config.accounting.masked }

theorem maskKey_isEmpty (key : String) : (maskKey key).isEmpty = key.isEmpty := by
  unfold maskKey
  split
  · next h => exact h.symm ▸ rfl
  · next h => exact (Bool.eq_false_iff.mpr h).symm ▸ rfl

theorem maskKey_maskKey (key : String) : maskKey (maskKey key) = maskKey key := by
  rw [maskKey, maskKey_isEmpty]
  rfl

section Check
variable {isSocketAddr : String → Bool}

theorem validateAccounting_masked (config : Config) :
    validateAccounting config.masked = validateAccounting config := by
  rcases config with ⟨_, _, _, _, ⟨mode, metering, remote⟩, _, _, _⟩
  unfold validateAccounting Config.masked Accounting.masked
  cases remote with
  | none => rfl
  | some remote => simp only [Option.map_some, Option.elim_some, maskKey_isEmpty]

theorem validate_masked (config : Config) :
    validate isSocketAddr config.masked = validate isSocketAddr config := by
  unfold validate
  rw [validateAccounting_masked]
  rfl

theorem foldShorthand_masked (config : Config) :
    foldShorthand config.masked = (foldShorthand config).map Config.masked := by
  unfold foldShorthand
  change (if config.rules.isEmpty then _ else if !config.users.isEmpty then _ else _) = _
  split
  · rfl
  · split
    · rfl
    · rfl

theorem finalize_masked (config : Config) :
    finalize isSocketAddr config.masked = (finalize isSocketAddr config).map Config.masked := by
  unfold finalize
  rw [foldShorthand_masked]
  cases foldShorthand config with
  | error e => rfl
  | ok folded =>
    change (validate isSocketAddr folded.masked >>= fun _ => pure folded.masked) =
      Except.map Config.masked (validate isSocketAddr folded >>= fun _ => pure folded)
    rw [validate_masked]
    cases validate isSocketAddr folded <;> rfl

end Check

theorem settingsOf_masked (config : Config) (w : World) (saved : Std.ExtTreeMap String SavedUsage) :
    settingsOf config.masked w saved = settingsOf config w saved := by
  have hactive : (config.masked.accounting.activeRemote.bind fun _ => w.remote) =
      config.accounting.activeRemote.bind fun _ => w.remote := by
    unfold Config.masked Accounting.masked Accounting.activeRemote
    cases config.accounting.remote with
    | none => rfl
    | some remote =>
      dsimp only [Option.map_some]
      by_cases hmode : config.accounting.mode = .remote <;> simp [Option.filter, hmode]
  unfold settingsOf
  rw [hactive]
  rfl

/-- The runtime never looks at the key. -/
theorem apply_masked (env : Env) (config : Config) : apply env config.masked = apply env config := by
  have hinstall : ∀ added saved, install env config.masked added saved = install env config added saved := by
    intro added saved
    funext w
    unfold install
    rw [settingsOf_masked]
    rfl
  unfold apply
  simp only [hinstall]
  rfl

theorem getConfig_masked (live : Live) :
    getConfig { live with config := live.config.masked } = getConfig live := by
  unfold getConfig Config.masked Accounting.masked
  cases live.config.accounting.remote with
  | none => rfl
  | some remote => simp [maskKey_isEmpty]

theorem keepSecret_masked (edited current : Accounting) :
    (keepSecret edited.masked current.masked).masked = (keepSecret edited current).masked := by
  rcases edited with ⟨mode, metering, remote⟩
  rcases current with ⟨_, _, previous⟩
  unfold keepSecret Accounting.masked
  cases remote with
  | none => rfl
  | some remote =>
    cases previous with
    | none => simp [maskKey_maskKey]
    | some previous =>
      simp only [Option.map_some, maskKey_isEmpty]
      split
      · simp [maskKey_maskKey]
      · simp [maskKey_maskKey]

/-! ## Installations alike -/

section Alike
variable {Content : Type} (f : Formats Content) (other : String → String)

/-- Two stores under two texts, with another key. -/
structure StoreAlike (a b : Store) : Prop where
  base : b.base = other a.base
  totalQuota : b.totalQuota = a.totalQuota
  accounting : b.accounting.map Accounting.masked = a.accounting.map Accounting.masked
  singleUser : b.singleUser = a.singleUser
  users : b.users = a.users

def storeIn (content : Content) : Option Store :=
  (f.decode content).bind fun doc => doc.toStore.toOption

def ContentAlike (x y : Content) : Prop :=
  Option.Rel (StoreAlike other) (storeIn f x) (storeIn f y)

def DiskAlike (disk second : Disk Content) : Prop :=
  ∀ path, Option.Rel (ContentAlike f other) (disk path) (second path)

structure LoopAlike (loop second : MainLoop) : Prop where
  world : second.world = loop.world
  config : second.live.config.masked = loop.live.config.masked
  revision : second.live.revision = loop.live.revision
  fromPanel : second.live.fromPanel = loop.live.fromPanel
  fileRaw : second.fileRaw = other loop.fileRaw
  storePath : second.storePath = loop.storePath

structure MachineAlike (m second : Machine Content) : Prop where
  disk : DiskAlike f other m.disk second.disk
  running : Option.Rel (LoopAlike other) m.running second.running

/-- What a failed write back leaves. -/
inductive LeftAlike : Except (Option Content) Unit → Except (Option Content) Unit → Prop
  | ok : LeftAlike (.ok ()) (.ok ())
  | error {left right : Option Content} (h : Option.Rel (ContentAlike f other) left right) :
      LeftAlike (.error left) (.error right)

structure IoAlike (io second : FileIo Content) : Prop where
  read : second.read = io.read
  write : second.write = io.write
  putBack : LeftAlike f other io.putBack second.putBack
  remove : second.remove = io.remove

/-- The same request; a text of the file is the text with the other key. -/
inductive ActionAlike : Action Content → Action Content → Prop
  | start {io second : FileIo Content} (hio : IoAlike f other io second) (env : Env) (boot : Boot)
      (raw : String) : ActionAlike (.start io env boot raw) (.start second env boot (other raw))
  | stop : ActionAlike .stop .stop
  | reload {io second : FileIo Content} (hio : IoAlike f other io second) (env : Env)
      (raw : String) :
      ActionAlike (.turn io env (.reload raw)) (.turn second env (.reload (other raw)))
  | save {io second : FileIo Content} (hio : IoAlike f other io second) (env : Env)
      (edit : ConfigEdit) : ActionAlike (.turn io env (.save edit)) (.turn second env (.save edit))
  | load : ActionAlike .load .load

/-- The files of one installation and of the other. -/
structure Conceals : Prop where
  injective : Function.Injective other
  reads : ∀ raw, (f.readConfig (other raw)).map Config.masked =
    (f.readConfig raw).map Config.masked

/-! ## Answers -/

/-- What a client gets. -/
inductive Answer where
  | silent
  | page (view : ConfigView)
  | saved (result : Except SaveError Nat)

def Machine.answer (m : Machine Content) : Action Content → Answer
  | .load => m.running.elim .silent fun loop => .page (getConfig loop.live)
  | .turn io env (.save edit) =>
    m.running.elim .silent fun loop => .saved (PortsBox.saved f io env edit loop m.disk).1
  | _ => .silent

def Machine.serve (m : Machine Content) (action : Action Content) :
    Option (Answer × Machine Content) :=
  (m.step f action).map fun after => (m.answer f action, after)

/-! ## Each operation -/

variable {f other}

theorem rel_of_map_eq {α β : Type} {g : α → β} {x y : Option α} (h : y.map g = x.map g) :
    Option.Rel (fun a b => g b = g a) x y := by
  cases x with
  | none =>
    obtain rfl := Option.map_eq_none_iff.mp h
    exact Option.Rel.none
  | some a =>
    obtain ⟨b, rfl, hb⟩ := Option.map_eq_some_iff.mp h
    exact Option.Rel.some hb

/-- The configs of two texts. -/
theorem parse_alike (hother : Conceals f other) (raw : String) :
    Option.Rel (fun config second => second.masked = config.masked) (parse f raw)
      (parse f (other raw)) := by
  have hmasked : ∀ x : Option Config,
      (x.bind fun config => (finalize f.isSocketAddr config).toOption).map Config.masked =
        (x.map Config.masked).bind fun config => (finalize f.isSocketAddr config).toOption := by
    intro x
    cases x with
    | none => rfl
    | some config =>
      rw [Option.bind_some, Option.map_some, Option.bind_some, finalize_masked]
      cases finalize f.isSocketAddr config <;> rfl
  apply rel_of_map_eq
  unfold parse
  rw [hmasked, hmasked, hother.reads]

theorem check_alike {isSocketAddr : String → Bool} {config second : Config}
    (h : second.masked = config.masked) :
    (check isSocketAddr second).map Config.masked = (check isSocketAddr config).map Config.masked := by
  unfold check
  rw [← finalize_masked, ← finalize_masked, h]

theorem apply_alike {config second : Config} (h : second.masked = config.masked) (env : Env) :
    apply env second = apply env config := by
  rw [← apply_masked env second, h, apply_masked]

theorem getConfig_alike {live second : Live} (hconfig : second.config.masked = live.config.masked)
    (hrevision : second.revision = live.revision) (hfrom : second.fromPanel = live.fromPanel) :
    getConfig second = getConfig live := by
  rw [← getConfig_masked second, ← getConfig_masked live, hconfig, hrevision, hfrom]

/-! ### Files -/

theorem DiskAlike.update {disk second : Disk Content} (h : DiskAlike f other disk second)
    (path : String) {x y : Option Content} (hcontent : Option.Rel (ContentAlike f other) x y) :
    DiskAlike f other (Function.update disk path x) (Function.update second path y) := by
  intro place
  by_cases heq : place = path
  · rw [heq, Function.update_self, Function.update_self]
    exact hcontent
  · rw [Function.update_of_ne heq, Function.update_of_ne heq]
    exact h place

theorem DiskAlike.removeStore {disk second : Disk Content} (h : DiskAlike f other disk second)
    {io jo : FileIo Content} (hio : IoAlike f other io jo) (path : String) :
    DiskAlike f other (removeStore io path disk) (removeStore jo path second) := by
  unfold PortsBox.removeStore
  rw [hio.remove]
  split
  · exact h.update path Option.Rel.none
  · exact h

theorem DiskAlike.readFile {disk second : Disk Content} (h : DiskAlike f other disk second)
    {io jo : FileIo Content} (hio : IoAlike f other io jo) (path : String) :
    Option.Rel (ContentAlike f other) (readFile io path disk) (readFile jo path second) := by
  unfold PortsBox.readFile
  rw [hio.read]
  split
  · exact h path
  · exact Option.Rel.none

theorem DiskAlike.loadStore {disk second : Disk Content} (h : DiskAlike f other disk second)
    {io jo : FileIo Content} (hio : IoAlike f other io jo) (path : String) :
    Option.Rel (StoreAlike other) (loadStore f io path disk) (loadStore f jo path second) := by
  have hload : ∀ (io : FileIo Content) (disk : Disk Content),
      PortsBox.loadStore f io path disk = (PortsBox.readFile io path disk).bind (storeIn f) := by
    intro io disk
    unfold PortsBox.loadStore storeIn
    cases PortsBox.readFile io path disk with
    | none => rfl
    | some content =>
      rw [Option.bind_some, Option.bind_some]
      cases f.decode content <;> rfl
  rw [hload, hload]
  have hread := h.readFile hio path
  revert hread
  generalize PortsBox.readFile io path disk = x
  generalize PortsBox.readFile jo path second = y
  intro hread
  cases hread with
  | none => exact Option.Rel.none
  | some hcontent => exact hcontent

theorem DiskAlike.undo {disk second : Disk Content} (h : DiskAlike f other disk second)
    {io jo : FileIo Content} (hio : IoAlike f other io jo) (path : String) {x y : Option Content}
    (hcontent : Option.Rel (ContentAlike f other) x y) :
    DiskAlike f other (undo io path x disk) (undo jo path y second) := by
  have hleft := hio.putBack
  unfold PortsBox.undo
  cases hcontent with
  | none => exact h.removeStore hio path
  | some hsome =>
    revert hleft
    generalize io.putBack = left
    generalize jo.putBack = right
    intro hleft
    cases hleft with
    | ok => exact h.update path (Option.Rel.some hsome)
    | error herror => exact h.update path herror

/-- Stores alike are written as contents alike. -/
theorem StoreAlike.encode (hf : f.Faithful) {a b : Store} (h : StoreAlike other a b) :
    ContentAlike f other (f.encode (.ofStore a)) (f.encode (.ofStore b)) := by
  unfold ContentAlike storeIn
  rw [hf, hf, Option.bind_some, Option.bind_some]
  unfold StoreDoc.toStore StoreDoc.ofStore
  dsimp only
  rw [h.totalQuota, h.users]
  cases readSize (a.totalQuota.map serializeSize) with
  | error e => exact Option.Rel.none
  | ok totalQuota =>
    cases hread : (a.users.map UserDoc.ofUser).mapM UserDoc.toUser with
    | error e =>
      change Option.Rel _ (Except.toOption (_ >>= fun _ => _)) (Except.toOption (_ >>= fun _ => _))
      exact Option.Rel.none
    | ok users => exact Option.Rel.some ⟨h.base, rfl, h.accounting, h.singleUser, rfl⟩

theorem masked_getD (accounting : Option Accounting) (default : Accounting) :
    (accounting.getD default).masked =
      (accounting.map Accounting.masked).getD default.masked := by
  cases accounting <;> rfl

theorem over_alike {a b : Store} (h : StoreAlike other a b) {file second : Config}
    (hfile : second.masked = file.masked) : (b.over second).masked = (a.over file).masked := by
  rcases file with ⟨stateFile, api, panel, totalQuota, accounting, rules, users, singleUser⟩
  rcases second with ⟨_, _, _, _, secondAccounting, _, _, _⟩
  simp only [Config.masked, Config.mk.injEq] at hfile
  obtain ⟨rfl, rfl, rfl, rfl, haccounting, rfl, rfl, rfl⟩ := hfile
  have hover : (b.accounting.getD secondAccounting).masked =
      (a.accounting.getD accounting).masked := by
    rw [masked_getD, masked_getD, h.accounting, haccounting]
  unfold Store.over Config.masked
  dsimp only
  rw [hover, h.totalQuota, h.singleUser, h.users]

theorem storePathOf_alike {config second : Config} (h : second.masked = config.masked) :
    storePathOf second = storePathOf config := by
  have hpanel := congrArg Config.panel h
  change second.panel = config.panel at hpanel
  unfold storePathOf Config.enabledPanel
  rw [hpanel]

/-! ### Starts -/

theorem restore_alike (hother : Conceals f other) {io jo : FileIo Content}
    (hio : IoAlike f other io jo) {file second : Config} (hfile : second.masked = file.masked)
    (raw path : String) {disk secondDisk : Disk Content}
    (hdisk : DiskAlike f other disk secondDisk) :
    Option.Rel (fun config second => second.masked = config.masked)
        (restore f io file raw path disk).1
        (restore f jo second (other raw) path secondDisk).1 ∧
      DiskAlike f other (restore f io file raw path disk).2
        (restore f jo second (other raw) path secondDisk).2 := by
  have hload := hdisk.loadStore hio path
  have hremoved := hdisk.removeStore hio path
  unfold restore
  revert hload
  generalize loadStore f io path disk = x
  generalize loadStore f jo path secondDisk = y
  intro hload
  cases hload with
  | none => exact ⟨Option.Rel.none, hdisk⟩
  | @some a b hstore =>
    have hbase : b.base ≠ other raw ↔ a.base ≠ raw := by
      rw [hstore.base]
      exact not_congr hother.injective.eq_iff
    dsimp only
    by_cases hraw : a.base ≠ raw
    · rw [if_pos hraw, if_pos (hbase.mpr hraw)]
      exact ⟨Option.Rel.none, hremoved⟩
    · rw [if_neg hraw, if_neg (mt hbase.mp hraw)]
      have hcheck := @check_alike f.isSocketAddr _ _ (over_alike hstore hfile)
      revert hcheck
      generalize check f.isSocketAddr (a.over file) = x
      generalize check f.isSocketAddr (b.over second) = y
      intro hcheck
      cases x with
      | error e =>
        cases y with
        | error e' => exact ⟨Option.Rel.none, hremoved⟩
        | ok next => cases hcheck
      | ok next =>
        cases y with
        | error e => cases hcheck
        | ok next' => exact ⟨Option.Rel.some (Except.ok.inj hcheck), hdisk⟩

theorem effective_alike (hother : Conceals f other) {io jo : FileIo Content}
    (hio : IoAlike f other io jo) {config second : Config}
    (hconfig : second.masked = config.masked) (raw : String) {disk secondDisk : Disk Content}
    (hdisk : DiskAlike f other disk secondDisk) :
    (effective f jo second (other raw) secondDisk).1.masked =
        (effective f io config raw disk).1.masked ∧
      (effective f jo second (other raw) secondDisk).2.1 =
        (effective f io config raw disk).2.1 ∧
      DiskAlike f other (effective f io config raw disk).2.2
        (effective f jo second (other raw) secondDisk).2.2 := by
  unfold effective
  rw [storePathOf_alike hconfig]
  cases storePathOf config with
  | none => exact ⟨hconfig, rfl, hdisk⟩
  | some path =>
    obtain ⟨hstored, hafter⟩ := restore_alike hother hio hconfig raw path hdisk
    dsimp only
    revert hstored hafter
    generalize restore f io config raw path disk = x
    generalize restore f jo second (other raw) path secondDisk = y
    intro hstored hafter
    rcases x with ⟨stored, after⟩
    rcases y with ⟨stored', after'⟩
    cases hstored with
    | none => exact ⟨hconfig, rfl, hafter⟩
    | some hsame => exact ⟨hsame, rfl, hafter⟩

theorem boot_alike (hother : Conceals f other) {io jo : FileIo Content}
    (hio : IoAlike f other io jo) (env : Env) (start : Boot) (raw : String)
    {disk second : Disk Content} (hdisk : DiskAlike f other disk second) :
    Option.Rel (LoopAlike other) (boot f io env start raw disk).1
        (boot f jo env start (other raw) second).1 ∧
      DiskAlike f other (boot f io env start raw disk).2
        (boot f jo env start (other raw) second).2 := by
  have hparse := parse_alike hother raw
  unfold boot
  revert hparse
  generalize parse f raw = x
  generalize parse f (other raw) = y
  intro hparse
  cases hparse with
  | none => exact ⟨Option.Rel.none, hdisk⟩
  | @some config secondConfig hconfig =>
    obtain ⟨heffective, hfrom, hafter⟩ := effective_alike hother hio hconfig raw hdisk
    dsimp only
    split
    · exact ⟨Option.Rel.none, hdisk⟩
    rw [apply_alike heffective]
    cases apply env (effective f io config raw disk).1 start.world with
    | error e w => exact ⟨Option.Rel.none, hafter⟩
    | ok _ w =>
      dsimp only
      split
      · exact ⟨Option.Rel.none, hafter⟩
      · exact ⟨Option.Rel.some ⟨rfl, heffective, rfl, hfrom, rfl, storePathOf_alike hconfig⟩, hafter⟩

/-! ### Turns -/

theorem LoopAlike.publish {loop second : MainLoop} (h : LoopAlike other loop second) {world : World}
    {config next : Config} (hconfig : next.masked = config.masked) (fromPanel : Bool) {raw : String} :
    LoopAlike other
      { loop with world, fileRaw := raw, live := publish loop.live config fromPanel }
      { second with world, fileRaw := other raw, live := publish second.live next fromPanel } := by
  refine ⟨rfl, hconfig, ?_, rfl, rfl, h.storePath⟩
  unfold PortsBox.publish
  rw [h.revision]

theorem reloaded_alike (hother : Conceals f other) {io jo : FileIo Content}
    (hio : IoAlike f other io jo) (env : Env) (raw : String) {loop second : MainLoop}
    (hloop : LoopAlike other loop second) {disk secondDisk : Disk Content}
    (hdisk : DiskAlike f other disk secondDisk) :
    LoopAlike other (reloaded f io env raw loop disk).2.1
        (reloaded f jo env (other raw) second secondDisk).2.1 ∧
      DiskAlike f other (reloaded f io env raw loop disk).2.2
        (reloaded f jo env (other raw) second secondDisk).2.2 := by
  have hparse := parse_alike hother raw
  unfold reloaded reload
  dsimp only
  rw [hloop.world]
  revert hparse
  generalize parse f raw = x
  generalize parse f (other raw) = y
  intro hparse
  cases hparse with
  | none =>
    exact ⟨⟨rfl, hloop.config, hloop.revision, hloop.fromPanel, rfl, hloop.storePath⟩, hdisk⟩
  | @some config next hconfig =>
    dsimp only
    rw [apply_alike hconfig]
    cases apply env config loop.world with
    | error e w =>
      exact ⟨⟨rfl, hloop.config, hloop.revision, hloop.fromPanel, rfl, hloop.storePath⟩, hdisk⟩
    | ok _ w =>
      refine ⟨hloop.publish hconfig false, ?_⟩
      dsimp only
      rw [hloop.storePath, hloop.fromPanel]
      cases loop.storePath with
      | none => exact hdisk
      | some path =>
        dsimp only
        split
        · exact hdisk.removeStore hio path
        · exact hdisk

theorem StoreAlike.of_edit (edit : ConfigEdit) {config second : Config}
    (hconfig : second.masked = config.masked) (fileRaw : String) :
    StoreAlike other (storeOf edit config fileRaw) (storeOf edit second (other fileRaw)) := by
  have haccounting := congrArg Config.accounting hconfig
  change second.accounting.masked = config.accounting.masked at haccounting
  refine ⟨rfl, rfl, ?_, rfl, rfl⟩
  unfold storeOf
  rw [Option.map_some, Option.map_some, ← keepSecret_masked, masked_getD, haccounting, ← masked_getD,
    keepSecret_masked]

theorem edited_alike (edit : ConfigEdit) {a b : Store} (h : StoreAlike other a b)
    {config second : Config} (hconfig : second.masked = config.masked) :
    (edited edit b second).masked = (edited edit a config).masked := by
  rcases config with ⟨stateFile, api, panel, totalQuota, accounting, rules, users, singleUser⟩
  rcases second with ⟨_, _, _, _, secondAccounting, _, _, _⟩
  simp only [Config.masked, Config.mk.injEq] at hconfig
  obtain ⟨rfl, rfl, rfl, rfl, -, rfl, rfl, rfl⟩ := hconfig
  unfold edited Config.masked
  dsimp only
  rw [masked_getD, masked_getD, h.accounting, h.totalQuota, h.users]

theorem saved_alike (hf : f.Faithful) {io jo : FileIo Content} (hio : IoAlike f other io jo)
    (env : Env) (edit : ConfigEdit) {loop second : MainLoop} (hloop : LoopAlike other loop second)
    {disk secondDisk : Disk Content} (hdisk : DiskAlike f other disk secondDisk) :
    (saved f jo env edit second secondDisk).1 = (saved f io env edit loop disk).1 ∧
      LoopAlike other (saved f io env edit loop disk).2.1
        (saved f jo env edit second secondDisk).2.1 ∧
      DiskAlike f other (saved f io env edit loop disk).2.2
        (saved f jo env edit second secondDisk).2.2 := by
  unfold saved
  rw [hloop.storePath]
  cases loop.storePath with
  | none => exact ⟨rfl, hloop, hdisk⟩
  | some path =>
    have hstore := @StoreAlike.of_edit other edit _ _ hloop.config loop.fileRaw
    have hcheck := @check_alike f.isSocketAddr _ _ (edited_alike edit hstore hloop.config)
    unfold save
    dsimp only
    rw [hloop.revision, hloop.fileRaw]
    by_cases hrevision : edit.revision ≠ loop.live.revision
    · rw [if_pos hrevision, if_pos hrevision]
      exact ⟨rfl, hloop, hdisk⟩
    rw [if_neg hrevision, if_neg hrevision]
    revert hcheck
    generalize check f.isSocketAddr
      (edited edit (storeOf edit loop.live.config loop.fileRaw) loop.live.config) = x
    generalize check f.isSocketAddr
      (edited edit (storeOf edit second.live.config (other loop.fileRaw)) second.live.config) = y
    intro hcheck
    cases x with
    | error e =>
      cases y with
      | error e' =>
        obtain rfl := Except.error.inj hcheck
        exact ⟨rfl, hloop, hdisk⟩
      | ok next => cases hcheck
    | ok next =>
      cases y with
      | error e => cases hcheck
      | ok next' =>
        have hnext := Except.ok.inj hcheck
        have hwritten := hdisk.update path (Option.Rel.some (hstore.encode hf))
        dsimp only
        unfold writeStore
        rw [hio.write]
        by_cases hwrite : io.write = true
        · rw [if_pos hwrite, if_pos hwrite]
          dsimp only
          rw [hloop.world, apply_alike hnext]
          cases apply env next loop.world with
          | error e w =>
            refine ⟨rfl, ⟨rfl, hloop.config, hloop.revision, hloop.fromPanel, rfl, hloop.storePath⟩, ?_⟩
            exact hwritten.undo hio path (hdisk.readFile hio path)
          | ok _ w =>
            refine ⟨?_, hloop.publish hnext true, hwritten⟩
            dsimp only
            unfold publish
            rw [hloop.revision]
        · rw [if_neg hwrite, if_neg hwrite]
          exact ⟨rfl, hloop, hdisk⟩

/-! ## Runs -/

theorem serve_alike (hf : f.Faithful) (hother : Conceals f other) :
    Lockstep.InStep (MachineAlike f other) (ActionAlike f other) (Machine.serve f)
      (Machine.serve f) := by
  intro m n a b hm haction
  obtain ⟨hdisk, hrunning⟩ := hm
  rcases m with ⟨disk, running, trail⟩
  rcases n with ⟨secondDisk, secondRunning, secondTrail⟩
  dsimp only at hdisk hrunning
  unfold Machine.serve
  cases haction with
  | start hio env start raw =>
    cases hrunning with
    | some _ => exact Option.Rel.none
    | none =>
      obtain ⟨hloop, hafter⟩ := boot_alike hother hio env start raw hdisk
      exact Option.Rel.some ⟨rfl, hafter, hloop⟩
  | stop =>
    cases hrunning with
    | none => exact Option.Rel.none
    | some _ => exact Option.Rel.some ⟨rfl, hdisk, Option.Rel.none⟩
  | reload hio env raw =>
    cases hrunning with
    | none => exact Option.Rel.none
    | some hloop =>
      obtain ⟨hafter, hlater⟩ := reloaded_alike hother hio env raw hloop hdisk
      exact Option.Rel.some ⟨rfl, hlater, Option.Rel.some hafter⟩
  | save hio env edit =>
    cases hrunning with
    | none => exact Option.Rel.none
    | some hloop =>
      obtain ⟨hresult, hafter, hlater⟩ := saved_alike hf hio env edit hloop hdisk
      exact Option.Rel.some ⟨congrArg Answer.saved hresult.symm, hlater, Option.Rel.some hafter⟩
  | load =>
    cases hrunning with
    | none => exact Option.Rel.none
    | some hloop =>
      have hview := getConfig_alike hloop.config hloop.revision hloop.fromPanel
      exact Option.Rel.some ⟨congrArg Answer.page hview.symm, hdisk, Option.Rel.some hloop⟩

/-- No client can tell two installations apart that differ in the secret key. -/
theorem secret_concealed (hf : f.Faithful) (hother : Conceals f other)
    {actions seconds : List (Action Content)}
    (h : List.Forall₂ (ActionAlike f other) actions seconds) :
    Lockstep.answers (Machine.serve f) {} actions =
      Lockstep.answers (Machine.serve f) {} seconds :=
  (serve_alike hf hother).answers_eq h ⟨fun _ => Option.Rel.none, Option.Rel.none⟩

end Alike

/-! ## Two keys -/

/-- The panel with one rule and a remote. -/
def keyedConfig (key : String) : Config where
  panel := some { enabled := true }
  accounting :=
    { mode := .remote
      remote := some
        { provider := .volcengine, accessKey := "id", secretKey := key, regions := ["cn"] } }
  users := oneRule.users

def twoKeys : Formats StoreDoc :=
  documents fun raw =>
    if raw = "first" then some (keyedConfig "k1")
    else if raw = "second" then some (keyedConfig "k2")
    else none

def otherKey (raw : String) : String :=
  if raw = "first" then "second" else if raw = "second" then "first" else raw

/-- A start, a look at the page, a save of another rule without the key, and another look. -/
def keyedRun (raw : String) : List (Action StoreDoc) :=
  [startFresh raw, .load, .turn {} freePorts (.save (addRule 0)), .load]

theorem conceals_twoKeys : Conceals twoKeys otherKey := by
  constructor
  · apply Function.Involutive.injective
    intro raw
    unfold otherKey
    by_cases hfirst : raw = "first"
    · subst hfirst
      decide
    · by_cases hsecond : raw = "second"
      · subst hsecond
        decide
      · simp [hfirst, hsecond]
  · intro raw
    by_cases hfirst : raw = "first"
    · subst hfirst
      decide
    · by_cases hsecond : raw = "second"
      · subst hsecond
        decide
      · simp [otherKey, hfirst, hsecond]

theorem secret_concealed_twoKeys :
    Lockstep.answers (Machine.serve twoKeys) {} (keyedRun "first") =
        Lockstep.answers (Machine.serve twoKeys) {} (keyedRun "second") ∧
      (Lockstep.answers (Machine.serve twoKeys) {} (keyedRun "first")).length = 4 := by
  have hio : IoAlike twoKeys otherKey {} {} := ⟨rfl, rfl, LeftAlike.ok, rfl⟩
  refine ⟨secret_concealed (fun _ => rfl) conceals_twoKeys ?_, by decide +kernel⟩
  refine .cons (.start hio _ _ "first") (.cons .load (.cons (.save hio _ _) (.cons .load .nil)))

end PortsBox
