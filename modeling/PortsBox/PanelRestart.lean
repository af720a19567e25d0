import PortsBox.ConfigSections
import PortsBox.PanelTrail

/-!
# Saves over a restart

The store that the live config goes back to holds exactly its users and settings, so
a start with the text it was saved under restores them, as long as that text leads
to this store and leaves its rules their addresses.
-/

set_option autoImplicit false

namespace PortsBox

/-! ## Byte sizes that come back -/

/-- A size whose text in the store is exact. -/
def SmallSize (size : Option Nat) : Prop := ∀ n, size = some n → n < 2 ^ 53

def SmallUsers (users : List UserConfig) : Prop := ∀ user ∈ users, SmallSize user.quota

theorem readSize_serialized {size : Option Nat} (h : SmallSize size) :
    readSize (size.map serializeSize) = .ok size := by
  cases size with
  | none => rfl
  | some n =>
    rw [Option.map_some, readSize, deserialize_serialize (h n rfl)]
    rfl

theorem toUser_ofUser {user : UserConfig} (h : SmallSize user.quota) :
    (UserDoc.ofUser user).toUser = .ok user :=
  bind_of_ok (readSize_serialized h) rfl

theorem toUsers_ofUsers {users : List UserConfig} (h : SmallUsers users) :
    (users.map UserDoc.ofUser).mapM UserDoc.toUser = .ok users := by
  induction users with
  | nil => rfl
  | cons user users ih =>
    rw [List.map_cons, List.mapM_cons]
    refine bind_of_ok (toUser_ofUser (h user List.mem_cons_self)) ?_
    exact bind_of_ok (ih fun other hother => h other (List.mem_cons_of_mem user hother)) rfl

/-- A store as `save` writes it. -/
structure Store.Complete (store : Store) : Prop where
  totalQuota : SmallSize store.totalQuota
  users : SmallUsers store.users
  accounting : store.accounting.isSome = true
  singleUser : store.singleUser.isSome = true

theorem Store.Complete.round_trip {store : Store} (h : store.Complete) :
    (StoreDoc.ofStore store).toStore = .ok store :=
  bind_of_ok (readSize_serialized h.totalQuota) (bind_of_ok (toUsers_ofUsers h.users) rfl)

/-! ## Configs that were checked -/

/-- What `check` and `parse` return. -/
structure Checked (isSocketAddr : String → Bool) (config : Config) : Prop where
  valid : validate isSocketAddr config = .ok ()
  rules : config.rules = []

theorem finalize_checked {isSocketAddr : String → Bool} {raw config : Config}
    (h : finalize isSocketAddr raw = .ok config) : Checked isSocketAddr config := by
  obtain ⟨folded, hfold, h⟩ := bind_ok h
  obtain ⟨⟨⟩, hvalid, h⟩ := bind_ok h
  obtain rfl := Except.ok.inj h
  refine ⟨hvalid, ?_⟩
  unfold foldShorthand at hfold
  split at hfold
  · next hempty =>
    obtain rfl := Except.ok.inj hfold
    exact List.isEmpty_iff.mp hempty
  · split at hfold
    · cases hfold
    · obtain rfl := Except.ok.inj hfold
      rfl

theorem Checked.check {isSocketAddr : String → Bool} {config : Config}
    (h : Checked isSocketAddr config) : PortsBox.check isSocketAddr config = .ok config := by
  have hfold : foldShorthand config = .ok config := by
    rw [foldShorthand, h.rules]
    rfl
  exact bind_of_ok hfold (bind_of_ok h.valid rfl)

/-- Without the shorthand, `check` returns its argument. -/
theorem check_eq {isSocketAddr : String → Bool} {config next : Config}
    (h : check isSocketAddr config = .ok next) (hrules : config.rules = []) : next = config := by
  obtain ⟨folded, hfold, h⟩ := bind_ok h
  obtain ⟨⟨⟩, _, h⟩ := bind_ok h
  obtain rfl := Except.ok.inj h
  rw [foldShorthand, hrules] at hfold
  exact (Except.ok.inj hfold).symm

/-! ## The store of the live config -/

/-- The store holds what the panel can change of the config. -/
structure Agrees (store : Store) (config : Config) : Prop where
  totalQuota : store.totalQuota = config.totalQuota
  accounting : store.accounting = some config.accounting
  singleUser : store.singleUser = some config.singleUser
  users : store.users = config.users

theorem Agrees.over {store : Store} {config : Config} (h : Agrees store config) (file : Config) :
    store.over file = underSections file config := by
  rw [Store.over, underSections, h.totalQuota, h.accounting, h.singleUser, h.users]
  rfl

theorem agrees_over {store : Store} (h : store.Complete) (file : Config) :
    Agrees store (store.over file) := by
  obtain ⟨accounting, haccounting⟩ := Option.isSome_iff_exists.mp h.accounting
  obtain ⟨singleUser, hsingle⟩ := Option.isSome_iff_exists.mp h.singleUser
  refine ⟨rfl, ?_, ?_, rfl⟩
  · rw [Store.over, haccounting]
    rfl
  · rw [Store.over, hsingle]
    rfl

theorem agrees_edited (edit : ConfigEdit) (current : Config) (fileRaw : String) :
    Agrees (storeOf edit current fileRaw) (edited edit (storeOf edit current fileRaw) current) :=
  ⟨rfl, rfl, rfl, rfl⟩

section Restart
variable {Content : Type} {f : Formats Content}

theorem parse_checked {raw : String} {config : Config} (h : parse f raw = some config) :
    Checked f.isSocketAddr config := by
  obtain ⟨_, _, hfinalize⟩ := Option.bind_eq_some_iff.mp h
  exact finalize_checked (ok_of_toOption hfinalize)

/-- What the law needs of an action: the former store is at hand when a save is refused, and the
byte sizes of an edit are below 2 ^ 53. -/
def Restartable : Action Content → Prop
  | .start io _ _ _ => io.Clears
  | .turn io _ change => io.Undoes ∧ io.read = true ∧
      ∀ edit, change = .save edit → SmallSize edit.totalQuota ∧ SmallUsers edit.users
  | .stop | .load => True

theorem Restartable.reliable {action : Action Content} (h : Restartable action) :
    action.Reliable := by
  cases action with
  | start io env start raw => exact h
  | stop => trivial
  | turn io env change => exact h.1
  | load => trivial

/-- The stores are complete, the live config is checked, and the store it goes back to is there. -/
structure Kept (f : Formats Content) (m : Machine Content) : Prop where
  stores : ∀ path content, m.disk path = some content →
    ∃ store : Store, content = f.encode (.ofStore store) ∧ store.Complete
  live : ∀ loop, m.running = some loop → Checked f.isSocketAddr loop.live.config
  origin : ∀ loop, m.running = some loop → ∀ save, m.trail.origin = some save →
    ∃ path store, loop.storePath = some path ∧ loadStore f {} path m.disk = some store ∧
      m.trail.saves[save]? = some store.base ∧ Agrees store loop.live.config

theorem Kept.load (hf : f.Faithful) {m : Machine Content} (h : Kept f m) {path : String}
    {store : Store} (hload : loadStore f {} path m.disk = some store) : store.Complete := by
  cases hdisk : m.disk path with
  | none => cases (loadStore_none hdisk).symm.trans hload
  | some content =>
    obtain ⟨written, rfl, hcomplete⟩ := h.stores path content hdisk
    rw [loadStore_encoded hf hdisk, hcomplete.round_trip] at hload
    exact Option.some.inj hload ▸ hcomplete

theorem Kept.fewer {m : Machine Content} (h : Kept f m) {disk : Disk Content}
    (hfewer : Fewer disk m.disk) : ∀ path content, disk path = some content →
      ∃ store : Store, content = f.encode (.ofStore store) ∧ store.Complete := by
  intro path content hcontent
  rcases hfewer path with hnone | hsame
  · cases hnone.symm.trans hcontent
  · exact h.stores path content (hsame.symm.trans hcontent)

theorem Kept.same {m : Machine Content} (h : Kept f m) {loop after : MainLoop}
    (hrunning : m.running = some loop) (hlive : after.live = loop.live)
    (hpath : after.storePath = loop.storePath) {disk : Disk Content} (hdisk : disk = m.disk) :
    Kept f ⟨disk, some after, m.trail.forget disk⟩ := by
  subst hdisk
  refine ⟨h.stores, ?_, ?_⟩
  · intro other hother
    obtain rfl := Option.some.inj hother
    exact hlive ▸ h.live loop hrunning
  · intro other hother save hsave
    obtain rfl := Option.some.inj hother
    rw [hlive, hpath]
    exact h.origin loop hrunning save hsave

theorem Kept.started (hf : f.Faithful) {m : Machine Content} (h : Kept f m)
    (hwritten : Written f m) {io : FileIo Content} (hio : io.Clears) {env : Env} {start : Boot}
    {raw : String} {loop : MainLoop} {disk : Disk Content}
    (hboot : boot f io env start raw m.disk = (some loop, disk)) :
    Kept f ⟨disk, some loop, (m.trail.forget disk).started loop⟩ := by
  obtain ⟨config, hparse, _, hstorePath, _, heffective⟩ := boot_some f hboot
  have hchecked := parse_checked hparse
  obtain ⟨hfewer, hcases⟩ := effective_cases (f := f) hio config raw m.disk
  rw [heffective] at hfewer hcases
  dsimp only at hfewer hcases
  refine ⟨h.fewer hfewer, ?_, ?_⟩
  · intro other hother
    obtain rfl := Option.some.inj hother
    rcases hcases with ⟨_, hconfig, _⟩ | ⟨path, store, next, _, _, _, hcheck, heq⟩
    · exact hconfig ▸ hchecked
    · exact (Prod.mk.inj heq).1 ▸ finalize_checked hcheck
  · intro other hother save horigin
    obtain rfl := Option.some.inj hother
    dsimp only [Trail.started] at horigin
    rcases hcases with ⟨hfrom, _⟩ | ⟨path, store, next, hpath, hload, _, hcheck, heq⟩
    · rw [hfrom] at horigin
      cases horigin
    · obtain ⟨hnext, hfrom, hdisk⟩ : loop.live.config = next ∧ loop.live.fromPanel = true ∧
          disk = m.disk := by simpa using heq
      subst hdisk
      rw [hfrom, if_pos rfl, hstorePath, hpath, Option.bind_some] at horigin
      obtain ⟨_, _, hwrote⟩ := Option.bind_eq_some_iff.mp horigin
      have hover := check_eq hcheck hchecked.rules
      refine ⟨path, store, hstorePath.trans hpath, hload, hwritten.base hf hwrote hload, ?_⟩
      rw [hnext, hover]
      exact agrees_over (h.load hf hload) config

theorem Kept.saved (hf : f.Faithful) {m : Machine Content} (h : Kept f m) {loop : MainLoop}
    (hrunning : m.running = some loop) {io : FileIo Content} {path : String} {edit : ConfigEdit}
    {next : Config} (hpath : loop.storePath = some path)
    (hsubmitted : Submitted f io edit loop next) (hquota : SmallSize edit.totalQuota)
    (husers : SmallUsers edit.users) (world : World) :
    Kept f ⟨withStore f path edit loop m.disk,
      some { loop with world, live := publish loop.live next true },
      (m.trail.forget (withStore f path edit loop m.disk)).saved loop.storePath loop.fileRaw⟩ := by
  have hcomplete : (storeOf edit loop.live.config loop.fileRaw).Complete :=
    ⟨hquota, husers, rfl, rfl⟩
  have hnext := check_eq hsubmitted.checked (h.live loop hrunning).rules
  refine ⟨?_, ?_, ?_⟩
  · intro other content hcontent
    by_cases hother : other = path
    · subst hother
      exact ⟨_, Option.some.inj (hcontent.symm.trans (withStore_self other edit loop m.disk)),
        hcomplete⟩
    · exact h.stores other content ((withStore_of_ne hother edit loop m.disk).symm.trans hcontent)
  · intro other hother
    obtain rfl := Option.some.inj hother
    exact finalize_checked hsubmitted.checked
  · intro other hother save hsave
    obtain rfl := Option.some.inj hother
    obtain rfl := Option.some.inj hsave
    refine ⟨path, storeOf edit loop.live.config loop.fileRaw, hpath, ?_, ?_, ?_⟩
    · rw [loadStore_encoded hf (withStore_self path edit loop m.disk), hcomplete.round_trip]
      rfl
    · exact List.getElem?_concat_length ..
    · dsimp only [publish]
      rw [hnext]
      exact agrees_edited edit loop.live.config loop.fileRaw

theorem Kept.step (hf : f.Faithful) {m after : Machine Content} {action : Action Content}
    (h : Kept f m) (hwritten : Written f m) (hallowed : Restartable action)
    (hstep : m.step f action = some after) : Kept f after := by
  cases stepped hstep with
  | failed hidle hboot =>
    refine ⟨h.fewer (fewer_boot hallowed hboot), ?_, ?_⟩
    · intro _ hsome
      cases hsome
    · intro _ hsome
      cases hsome
  | started hidle hboot => exact h.started hf hwritten hallowed hboot
  | stopped hrunning =>
    refine ⟨h.stores, ?_, ?_⟩
    · intro _ hsome
      cases hsome
    · intro _ hsome
      cases hsome
  | @turned io env change loop _ hrunning hturned =>
    obtain ⟨hundoes, hread, hsmall⟩ := hallowed
    cases hturned with
    | rejected hworld =>
      refine h.same hrunning ?_ ?_ rfl
      all_goals rfl
    | reloaded hparse happly =>
      refine ⟨h.fewer (fewer_dropStore _ _ _), ?_, ?_⟩
      · intro other hother
        obtain rfl := Option.some.inj hother
        exact parse_checked hparse
      · intro _ _ _ hsome
        cases hsome
    | stopped hstopped => exact h.same hrunning rfl rfl rfl
    | @undone edit path _ _ _ hpath hsubmitted happly =>
      have hback : undo io path (readFile io path m.disk) (withStore f path edit loop m.disk) =
          m.disk := by
        rw [undo_withStore path edit hundoes.putBack hundoes.remove, hread, if_pos rfl]
      refine h.same hrunning ?_ ?_ hback
      all_goals rfl
    | saved hpath hsubmitted happly =>
      obtain ⟨hquota, husers⟩ := hsmall _ rfl
      exact h.saved hf hrunning hpath hsubmitted hquota husers _
  | loaded hrunning => exact ⟨h.stores, hrunning ▸ h.live, hrunning ▸ h.origin⟩

/-- Over any history: the live config goes back to a save, and a process starts with the text that
was in force then. If the text leads to the store that the loop kept and its own addresses are
not those of the saved rules, the start restores exactly what the panel can change. -/
theorem effective_of_origin (hf : f.Faithful) {m : Machine Content}
    (h : Reached f (fun _ action => Restartable action) m) {loop : MainLoop}
    (hrunning : m.running = some loop) {save : Nat} (horigin : m.trail.origin = some save)
    {raw : String} (hraw : m.trail.saves[save]? = some raw) {file : Config}
    (hparse : parse f raw = some file) (hpath : storePathOf file = loop.storePath)
    (hclear : Clear loop.live.config.users (ownListens file)) {io : FileIo Content}
    (hio : io.Clears) :
    effective f io file raw m.disk = (underSections file loop.live.config, true, m.disk) := by
  have hinvariant : Written f m ∧ Kept f m := by
    clear hrunning horigin hraw
    induction h with
    | empty =>
      refine ⟨⟨?_, ?_⟩, ⟨?_, ?_, ?_⟩⟩
      all_goals simp
    | step _ hallowed hstep ih =>
      exact ⟨ih.1.step hallowed.reliable hstep, ih.2.step hf ih.1 hallowed hstep⟩
  obtain ⟨path, store, hstorePath, hload, hsave, hagrees⟩ :=
    hinvariant.2.origin loop hrunning save horigin
  have hbase : store.base = raw := Option.some.inj (hsave.symm.trans hraw)
  have hfile := parse_checked hparse
  have hpanel : file.enabledPanel.isSome = true := by
    have hsome : (storePathOf file).isSome = true := by rw [hpath, hstorePath]; rfl
    rwa [storePathOf, Option.isSome_map] at hsome
  have hvalid := validate_underSections hfile.valid hpanel
    (hinvariant.2.live loop hrunning).valid hclear
  have hcheck : check f.isSocketAddr (store.over file) =
      .ok (underSections file loop.live.config) := by
    rw [hagrees.over]
    exact Checked.check ⟨hvalid, hfile.rules⟩
  unfold effective
  rw [hpath, hstorePath]
  dsimp only
  unfold restore
  rw [loadStore_readable hio.read, hload]
  dsimp only
  rw [if_neg (not_not_intro hbase), hcheck]
  rfl

end Restart

end PortsBox
