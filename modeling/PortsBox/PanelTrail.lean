import PortsBox.ConfigListens
import PortsBox.PanelRuns

/-!
# Stores on the disk

While removing stores and putting them back succeeds, every store file is the one
that an accepted save wrote, under the text that was in force then. A start loads it
or clears it away.
-/

set_option autoImplicit false

namespace PortsBox

/-- A start can read the store that is there, and remove it. -/
structure FileIo.Clears {Content : Type} (io : FileIo Content) : Prop where
  read : io.read = true
  remove : io.remove = true

/-- A refused save can put back what it has read, or remove what it has written. -/
structure FileIo.Undoes {Content : Type} (io : FileIo Content) : Prop where
  putBack : io.putBack = .ok ()
  remove : io.remove = true

section Stores
variable {Content : Type} {f : Formats Content}

theorem loadStore_readable {io : FileIo Content} (hread : io.read = true) (path : String)
    (disk : Disk Content) : loadStore f io path disk = loadStore f {} path disk := by
  unfold loadStore readFile
  rw [hread]

theorem loadStore_congr {before after : Disk Content} {path : String}
    (h : after path = before path) : loadStore f {} path after = loadStore f {} path before := by
  simp only [loadStore, readFile, if_true, h]

theorem loadStore_none {disk : Disk Content} {path : String} (h : disk path = none) :
    loadStore f {} path disk = none := by
  simp [loadStore, readFile, h]

/-- Fewer files, the rest as they were. -/
def Fewer (after before : Disk Content) : Prop :=
  ∀ path, after path = none ∨ after path = before path

theorem Fewer.refl (disk : Disk Content) : Fewer disk disk := fun _ => Or.inr rfl

theorem fewer_removeStore (io : FileIo Content) (path : String) (disk : Disk Content) :
    Fewer (removeStore io path disk) disk := by
  intro other
  unfold removeStore
  split
  · by_cases h : other = path
    · exact Or.inl (by rw [h, Function.update_self])
    · exact Or.inr (Function.update_of_ne h none disk)
  · exact Or.inr rfl

theorem removeStore_self {io : FileIo Content} (hremove : io.remove = true) (path : String)
    (disk : Disk Content) : removeStore io path disk path = none := by
  rw [removeStore, hremove, if_pos rfl, Function.update_self]

theorem Fewer.loads {after before : Disk Content} (h : Fewer after before) {path : String}
    {store : Store} (hload : loadStore f {} path after = some store) :
    loadStore f {} path before = some store := by
  rcases h path with hnone | hsame
  · cases (loadStore_none hnone).symm.trans hload
  · rw [← hload, loadStore_congr hsame]

/-- What a start does to the stores: it restores the one that was saved under this very text, or
there is none to load at its path afterwards. -/
theorem effective_cases {io : FileIo Content} (hio : io.Clears) (config : Config) (raw : String)
    (disk : Disk Content) :
    Fewer (effective f io config raw disk).2.2 disk ∧
      (((effective f io config raw disk).2.1 = false ∧
          (effective f io config raw disk).1 = config ∧
          ∀ path, storePathOf config = some path →
            loadStore f {} path (effective f io config raw disk).2.2 = none) ∨
        ∃ path store next, storePathOf config = some path ∧
          loadStore f {} path disk = some store ∧ store.base = raw ∧
          check f.isSocketAddr (store.over config) = .ok next ∧
          effective f io config raw disk = (next, true, disk)) := by
  unfold effective
  cases hpath : storePathOf config with
  | none => exact ⟨Fewer.refl disk, Or.inl ⟨rfl, rfl, fun _ h => nomatch h⟩⟩
  | some path =>
    have hself : ∀ disk : Disk Content,
        (∀ other, some path = some other → loadStore f {} other disk = none) ↔
          loadStore f {} path disk = none := by
      intro disk
      constructor
      · intro h
        exact h path rfl
      · rintro h other heq
        exact Option.some.inj heq ▸ h
    dsimp only
    unfold restore
    rw [loadStore_readable hio.read]
    cases hload : loadStore f {} path disk with
    | none => exact ⟨Fewer.refl disk, Or.inl ⟨rfl, rfl, (hself disk).mpr hload⟩⟩
    | some store =>
      have hremoved := loadStore_none (f := f) (removeStore_self hio.remove path disk)
      dsimp only
      split
      · exact ⟨fewer_removeStore io path disk, Or.inl ⟨rfl, rfl, (hself _).mpr hremoved⟩⟩
      next hbase =>
      cases hcheck : check f.isSocketAddr (store.over config) with
      | error e =>
        exact ⟨fewer_removeStore io path disk, Or.inl ⟨rfl, rfl, (hself _).mpr hremoved⟩⟩
      | ok next =>
        exact ⟨Fewer.refl disk, Or.inr ⟨path, store, next, rfl, hload, not_not.mp hbase, hcheck, rfl⟩⟩

/-- What the store format promises: a document is read back as it was written. -/
def Formats.Faithful (f : Formats Content) : Prop := ∀ doc, f.decode (f.encode doc) = some doc

theorem ok_of_toOption {ε α : Type} {x : Except ε α} {a : α} (h : x.toOption = some a) :
    x = .ok a := by
  cases x with
  | error e => cases h
  | ok b => rw [Option.some.inj h]

theorem toStore_base {doc : StoreDoc} {store : Store} (h : doc.toStore = .ok store) :
    store.base = doc.base := by
  obtain ⟨_, _, h⟩ := bind_ok h
  obtain ⟨_, _, h⟩ := bind_ok h
  obtain rfl := Except.ok.inj h
  rfl

theorem loadStore_encoded (hf : f.Faithful) {disk : Disk Content} {path : String} {store : Store}
    (h : disk path = some (f.encode (.ofStore store))) :
    loadStore f {} path disk = (StoreDoc.ofStore store).toStore.toOption := by
  simp only [loadStore, readFile, if_true, h, Option.bind_some, hf (.ofStore store)]

/-- Every store file comes from a save. -/
structure Written (f : Formats Content) (m : Machine Content) : Prop where
  recorded : ∀ path, m.disk path ≠ none → m.trail.wrote path ≠ none
  wrote : ∀ path save, m.trail.wrote path = some save →
    ∃ store, m.disk path = some (f.encode (.ofStore store)) ∧
      m.trail.saves[save]? = some store.base

/-- A store that loads has the base of the save that wrote it. -/
theorem Written.base (hf : f.Faithful) {m : Machine Content} (h : Written f m) {path : String}
    {save : Nat} {loaded : Store} (hwrote : m.trail.wrote path = some save)
    (hload : loadStore f {} path m.disk = some loaded) :
    m.trail.saves[save]? = some loaded.base := by
  obtain ⟨store, hdisk, hbase⟩ := h.wrote path save hwrote
  rw [loadStore_encoded hf hdisk] at hload
  rw [hbase, toStore_base (ok_of_toOption hload)]
  rfl

theorem Written.fewer {m : Machine Content} (h : Written f m) {disk : Disk Content}
    (hfewer : Fewer disk m.disk) (running : Option MainLoop) {trail : Trail}
    (hwrote : trail.wrote = (m.trail.forget disk).wrote) (hsaves : trail.saves = m.trail.saves) :
    Written f ⟨disk, running, trail⟩ := by
  constructor
  · intro path hthere
    dsimp only at hthere ⊢
    rw [hwrote]
    rcases hfewer path with hnone | hsame
    · exact absurd hnone hthere
    · obtain ⟨content, hcontent⟩ := Option.ne_none_iff_exists'.mp hthere
      simp only [Trail.forget, hcontent, Option.bind_some]
      exact h.recorded path (hsame ▸ hthere)
  · intro path save hsave
    dsimp only at hsave ⊢
    rw [hwrote] at hsave
    obtain ⟨content, hcontent, hbefore⟩ := Option.bind_eq_some_iff.mp hsave
    obtain ⟨store, hdisk, hbase⟩ := h.wrote path save hbefore
    refine ⟨store, ?_, ?_⟩
    · rcases hfewer path with hnone | hsame
      · cases hnone.symm.trans hcontent
      · rw [hsame, hdisk]
    · rw [hsaves, hbase]

theorem fewer_dropStore (io : FileIo Content) (loop : MainLoop) (disk : Disk Content) :
    Fewer (dropStore io loop disk) disk := by
  unfold dropStore
  split
  · split
    · exact fewer_removeStore io _ disk
    · exact Fewer.refl disk
  · exact Fewer.refl disk

theorem fewer_boot {io : FileIo Content} (hio : io.Clears) {env : Env} {start : Boot}
    {raw : String} {before disk : Disk Content} {loop : Option MainLoop}
    (h : boot f io env start raw before = (loop, disk)) : Fewer disk before := by
  cases loop with
  | none =>
    rcases boot_none f h with rfl | ⟨config, _, rfl⟩
    · exact Fewer.refl _
    · exact (effective_cases hio config raw before).1
  | some loop =>
    obtain ⟨config, _, _, _, _, heffective⟩ := boot_some f h
    have hfewer : Fewer (effective f io config raw before).2.2 before :=
      (effective_cases hio config raw before).1
    rw [heffective] at hfewer
    exact hfewer

/-- A refused save has put its store back, or taken it away. -/
theorem fewer_undo {io : FileIo Content} (hio : io.Undoes) (path : String) (edit : ConfigEdit)
    (loop : MainLoop) (disk : Disk Content) :
    Fewer (undo io path (readFile io path disk) (withStore f path edit loop disk)) disk := by
  rw [undo_withStore path edit hio.putBack hio.remove]
  split
  · exact Fewer.refl disk
  · intro other
    by_cases h : other = path
    · exact Or.inl (by rw [h, Function.update_self])
    · exact Or.inr (Function.update_of_ne h none disk)

theorem withStore_self (path : String) (edit : ConfigEdit) (loop : MainLoop) (disk : Disk Content) :
    withStore f path edit loop disk path =
      some (f.encode (.ofStore (storeOf edit loop.live.config loop.fileRaw))) :=
  Function.update_self ..

theorem withStore_of_ne {path other : String} (h : other ≠ path) (edit : ConfigEdit)
    (loop : MainLoop) (disk : Disk Content) :
    withStore f path edit loop disk other = disk other :=
  Function.update_of_ne h ..

/-- What an action does to the stores succeeds, but for the write of a new one. -/
def Action.Reliable : Action Content → Prop
  | .start io _ _ _ => io.Clears
  | .turn io _ _ => io.Undoes
  | .stop | .load => True

theorem Written.saved {m : Machine Content} (h : Written f m) (path : String) (edit : ConfigEdit)
    (loop after : MainLoop) (hpath : loop.storePath = some path) :
    Written f ⟨withStore f path edit loop m.disk, some after,
      (m.trail.forget (withStore f path edit loop m.disk)).saved loop.storePath loop.fileRaw⟩ := by
  rw [hpath]
  constructor
  · intro other hthere
    dsimp only [Trail.saved, Trail.forget] at hthere ⊢
    by_cases hother : other = path
    · rw [if_pos (congrArg some hother)]
      exact Option.some_ne_none _
    · rw [withStore_of_ne hother] at hthere ⊢
      obtain ⟨content, hcontent⟩ := Option.ne_none_iff_exists'.mp hthere
      rw [if_neg (mt Option.some.inj hother), hcontent, Option.bind_some]
      exact h.recorded other hthere
  · intro other save hsave
    dsimp only [Trail.saved, Trail.forget] at hsave ⊢
    by_cases hother : other = path
    · rw [if_pos (congrArg some hother)] at hsave
      obtain rfl := Option.some.inj hsave
      subst hother
      exact ⟨_, withStore_self other edit loop m.disk, List.getElem?_concat_length ..⟩
    · rw [if_neg (mt Option.some.inj hother), withStore_of_ne hother] at hsave
      obtain ⟨_, _, hbefore⟩ := Option.bind_eq_some_iff.mp hsave
      obtain ⟨store, hdisk, hbase⟩ := h.wrote other save hbefore
      refine ⟨store, (withStore_of_ne hother ..).trans hdisk, ?_⟩
      obtain ⟨hlt, _⟩ := List.getElem?_eq_some_iff.mp hbase
      exact (List.getElem?_append_left hlt).trans hbase

theorem Written.step {m after : Machine Content} {action : Action Content} (h : Written f m)
    (hio : action.Reliable) (hstep : m.step f action = some after) : Written f after := by
  cases stepped hstep with
  | failed hidle hboot => exact h.fewer (fewer_boot hio hboot) _ rfl rfl
  | started hidle hboot => exact h.fewer (fewer_boot hio hboot) _ rfl rfl
  | stopped hrunning => exact ⟨h.recorded, h.wrote⟩
  | turned hrunning hturned =>
    cases hturned with
    | rejected hworld => exact h.fewer (Fewer.refl _) _ rfl rfl
    | reloaded hparse happly => exact h.fewer (fewer_dropStore _ _ _) _ rfl rfl
    | stopped hstopped => exact h.fewer (Fewer.refl _) _ rfl rfl
    | undone hpath hsubmitted happly => exact h.fewer (fewer_undo hio _ _ _ _) _ rfl rfl
    | saved hpath hsubmitted happly => exact h.saved _ _ _ _ hpath
  | loaded hrunning => exact ⟨h.recorded, h.wrote⟩

end Stores

end PortsBox
