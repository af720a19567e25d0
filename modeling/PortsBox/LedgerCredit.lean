import PortsBox.LedgerStages

/-!
# A package is credited at most once

A record's credit is written once and never changed, so only the sync that
writes it can produce Credit entries for the package. Fetched lists may repeat
ids and amounts may be anything.
-/

set_option autoImplicit false

namespace PortsBox

open Word Accounts MapSum
open Std (ExtTreeMap)

/-! ## The Credit entries of a sync -/

theorem expiries_kind {now : Int} {balances : BTreeMap Int} {rows : List (String × Nat)}
    {entry : Entry} (h : entry ∈ expiries now balances rows) : entry.kind = .expiry := by
  induction rows generalizing balances with
  | nil => exact absurd h List.not_mem_nil
  | cons row rows ih =>
    rcases List.mem_append.mp h with hexpiry | hrest
    · obtain ⟨loss, _, rfl⟩ := List.mem_map.mp hexpiry
      rfl
    · exact ih hrest

/-- A list with distinct keys holds the values of one key in at most one place. -/
theorem flatMap_of_key {V W : Type} (rows : List (String × V)) (f : String × V → List W)
    (hkeys : (rows.map Prod.fst).Nodup) {row : String × V} (hmem : row ∈ rows)
    (hother : ∀ other ∈ rows, other.1 ≠ row.1 → f other = []) : rows.flatMap f = f row := by
  induction rows with
  | nil => simp at hmem
  | cons head rows ih =>
    rw [List.map_cons, List.nodup_cons] at hkeys
    rw [List.flatMap_cons]
    rcases List.mem_cons.mp hmem with rfl | htail
    · have hrest : rows.flatMap f = [] := by
        apply List.flatMap_eq_nil_iff.mpr
        intro other hin
        apply hother other (List.mem_cons_of_mem _ hin)
        intro heq
        exact hkeys.1 (heq ▸ List.mem_map_of_mem hin)
      rw [hrest, List.append_nil]
    · have hhead : f head = [] := by
        apply hother head List.mem_cons_self
        intro heq
        exact hkeys.1 (heq ▸ List.mem_map_of_mem htail)
      rw [hhead, List.nil_append]
      exact ih hkeys.2 htail fun other hin => hother other (List.mem_cons_of_mem _ hin)

namespace Book

variable (book : Book) (s : Sync) (id : String)

/-- The Credit entries one call writes. -/
def creditsIn : List Entry := (book.sync s).2.filter fun entry => entry.kind = .credit

/-- Those for one package. -/
def creditsFor : List Entry := (book.creditsIn s).filter fun entry => entry.package = some id

theorem migration_creditsIn (h : book.migrated = false) : book.creditsIn s = [] := by
  rw [creditsIn, sync, reconcile, if_neg (by simp [h]), List.filter_eq_nil_iff]
  intro entry hmem
  obtain ⟨opening, _, rfl⟩ := List.mem_map.mp hmem
  simp [migrationEntry]

theorem sweepExclusive_snd (book : Book) (members : List Member) (assignments : Assignments)
    (now : Int) :
    ∀ entry ∈ (book.sweepExclusive members assignments now).2, entry.kind = .allocate := by
  intro entry hmem
  unfold sweepExclusive at hmem
  split at hmem
  · simp only [sweepTo] at hmem
    split at hmem
    · obtain rfl := List.mem_singleton.mp hmem
      rfl
    · simp at hmem
  · simp at hmem

/-- Of everything a sync writes only the crediting loop's entries are Credit entries. -/
theorem creditsIn_eq (h : book.migrated = true) :
    book.creditsIn s =
      creditEntries s.assignments (names s) s.now (book.arrived s).toList := by
  have hcredits : (creditEntries s.assignments (names s) s.now (book.arrived s).toList).filter
      (fun entry => entry.kind = .credit) =
        creditEntries s.assignments (names s) s.now (book.arrived s).toList := by
    apply List.filter_eq_self.mpr
    intro entry hmem
    obtain ⟨row, _, hrow⟩ := List.mem_flatMap.mp hmem
    obtain ⟨payee, _, rfl⟩ := List.mem_map.mp hrow
    simp [creditEntry]
  have hexpiries : ((expiries s.now (book.afterCharges s)
      (forfeited s.packages book.packages)).filter fun entry => entry.kind = .credit) = [] := by
    apply List.filter_eq_nil_iff.mpr
    intro entry hmem
    simp [expiries_kind hmem]
  have hsweep : (((book.calibrateSync s).1.sweepExclusive s.members s.assignments s.now).2.filter
      fun entry => entry.kind = .credit) = [] := by
    apply List.filter_eq_nil_iff.mpr
    intro entry hmem
    simp [sweepExclusive_snd _ _ _ _ entry hmem]
  rw [creditsIn, sync_snd book s h, calibrateSync_snd, List.filter_append, List.filter_append,
    hcredits, hexpiries, hsweep, List.append_nil, List.append_nil]

theorem filter_creditEntry (now : Int) (row : String) (payees : List (String × Nat)) :
    ((payees.map (creditEntry now row)).filter fun entry => entry.package = some id) =
      if row = id then payees.map (creditEntry now row) else [] := by
  by_cases hid : row = id
  · rw [if_pos hid]
    apply List.filter_eq_self.mpr
    intro entry hmem
    obtain ⟨payee, _, rfl⟩ := List.mem_map.mp hmem
    simp [creditEntry, hid]
  · rw [if_neg hid]
    apply List.filter_eq_nil_iff.mpr
    intro entry hmem
    obtain ⟨payee, _, rfl⟩ := List.mem_map.mp hmem
    simp [creditEntry, hid]

theorem nodup_keys_toList (records : BTreeMap PackageRecord) :
    (records.toList.map Prod.fst).Nodup := by
  rw [ExtTreeMap.map_fst_toList_eq_keys]
  exact ExtTreeMap.nodup_keys

/-- One entry for each payee of the package's record. -/
theorem creditsFor_of_record (h : book.migrated = true) {record : PackageRecord}
    (hrecord : (book.arrived s)[id]? = some record) :
    book.creditsFor s id =
      (payeesOf s.assignments (names s) (id, record)).map (creditEntry s.now id) := by
  have hmem : (id, record) ∈ (book.arrived s).toList := mem_toList.mpr hrecord
  have hrow := flatMap_of_key (book.arrived s).toList
    (fun row => ((payeesOf s.assignments (names s) row).map (creditEntry s.now row.1)).filter
      fun entry => entry.package = some id)
    (nodup_keys_toList _) hmem (by
      intro other _ hne
      rw [filter_creditEntry, if_neg hne])
  rw [creditsFor, creditsIn_eq book s h, creditEntries, List.filter_flatMap, hrow,
    filter_creditEntry, if_pos rfl]

theorem creditsFor_of_unrecorded (h : book.migrated = true)
    (hrecord : (book.arrived s)[id]? = none) : book.creditsFor s id = [] := by
  rw [creditsFor, creditsIn_eq book s h, creditEntries, List.filter_flatMap,
    List.flatMap_eq_nil_iff]
  intro row hmem
  rw [filter_creditEntry, if_neg]
  rintro rfl
  rw [mem_toList.mp hmem] at hrecord
  simp at hrecord

/-! ## The credit of a record -/

def creditOf : Option Credit := book.packages[id]?.bind PackageRecord.credit

variable {book s id}

/-- A credit once given is kept. -/
theorem creditOf_sync (h : book.migrated = true) {credit : Credit}
    (hcredit : book.creditOf id = some credit) : (book.sync s).1.creditOf id = some credit := by
  obtain ⟨old, hold, holdCredit⟩ := Option.bind_eq_some_iff.mp hcredit
  have harrived : ∃ record, (book.arrived s)[id]? = some record := by
    rw [arrived, arrivals_lookup, hold]
    cases fetchedPackage s.packages id <;> exact ⟨_, rfl⟩
  rcases harrived with ⟨record, hrecord⟩
  have hkept : record.credit = some credit := (arrivals_credit hrecord).trans hcredit
  have hskip : creditDue s.assignments (names s) id record = none := by
    rcases creditNow_cases s.assignments (names s) id record with hnone | ⟨hempty, _⟩
    · rw [creditDue, hnone]
      rfl
    · simp [hkept] at hempty
  rw [creditOf, sync_packages s h, creditRecords_lookup, hrecord]
  simp [PackageRecord.credited_credit, hskip, hkept]

theorem creditOf_syncs (h : book.migrated = true) {credit : Credit}
    (hcredit : book.creditOf id = some credit) (run : List Sync) :
    (book.syncs run).creditOf id = some credit := by
  induction run generalizing book with
  | nil => exact hcredit
  | cons s run ih => exact ih (sync_migrated s h) (creditOf_sync h hcredit)

/-- A call that writes Credit entries for a package finds it without a credit, gives it one,
and pays its whole total: to its owner, or split over the members. -/
theorem creditsFor_ne_nil (hcredits : book.creditsFor s id ≠ []) :
    book.migrated = true ∧ book.creditOf id = none ∧
      ∃ record, (book.sync s).1.packages[id]? = some record ∧ record.credit.isSome = true ∧
        ((∃ owner ∈ names s, s.assignments.owners[id]? = some owner ∧
            book.creditsFor s id = [creditEntry s.now id (owner, record.package.total)]) ∨
          (names s ≠ [] ∧ book.creditsFor s id =
            ((names s).zip (splitEvenly record.package.total (names s).length)).map
              (creditEntry s.now id))) := by
  have hmigrated : book.migrated = true := by
    by_contra hnot
    apply hcredits
    rw [creditsFor, migration_creditsIn book s (by simpa using hnot)]
    rfl
  cases hrecord : (book.arrived s)[id]? with
  | none => exact absurd (creditsFor_of_unrecorded book s id hmigrated hrecord) hcredits
  | some record =>
    have hentries := creditsFor_of_record book s id hmigrated hrecord
    have hafter : (book.sync s).1.packages[id]? =
        some (record.credited s.assignments (names s) id) := by
      rw [sync_packages s hmigrated, creditRecords_lookup, hrecord]
      rfl
    have hbefore := arrivals_credit hrecord
    unfold payeesOf at hentries
    rcases creditNow_cases s.assignments (names s) id record with
      hnone | ⟨hempty, _, ⟨owner, hmember, howner, huser⟩ | ⟨hnames, _, hsplit⟩⟩
    · rw [hnone] at hentries
      exact absurd hentries hcredits
    · rw [huser] at hentries
      refine ⟨hmigrated, hbefore.symm.trans hempty, _, hafter, ?_, ?_⟩
      · simp [PackageRecord.credited_credit, creditDue, huser]
      · rw [PackageRecord.credited_package]
        exact Or.inl ⟨owner, hmember, howner, hentries⟩
    · rw [hsplit] at hentries
      refine ⟨hmigrated, hbefore.symm.trans hempty, _, hafter, ?_, ?_⟩
      · simp [PackageRecord.credited_credit, creditDue, hsplit]
      · rw [PackageRecord.credited_package]
        exact Or.inr ⟨hnames, hentries⟩

/-- A package with a credit gets no Credit entry any more. -/
theorem creditsFor_of_credit {credit : Credit} (hcredit : book.creditOf id = some credit) :
    book.creditsFor s id = [] := by
  by_contra hcredits
  obtain ⟨_, hnone, _⟩ := creditsFor_ne_nil hcredits
  simp [hcredit] at hnone

/-! ## Runs from the empty book -/

theorem syncs_append (book : Book) (pre rest : List Sync) :
    book.syncs (pre ++ rest) = (book.syncs pre).syncs rest := List.foldl_append

/-- Every package of the first fetch is recorded as migrated. -/
theorem creditOf_migration (h : book.migrated = false) {package : Package}
    (hmem : package ∈ s.packages) :
    (book.sync s).1.creditOf package.id = some .migration := by
  rw [creditOf, sync, reconcile, if_neg (by simp [h]), migrate]
  dsimp only
  rw [foldl_migrated_lookup]
  cases hfetched : fetchedPackage s.packages package.id with
  | some fetched => rfl
  | none => exact absurd rfl (fetchedPackage_eq_none_iff.mp hfetched package hmem)

theorem syncs_of_cons (book : Book) (s : Sync) (run : List Sync) :
    book.syncs (s :: run) = (book.sync s).1.syncs run := rfl

/-- A run's book is migrated as soon as there was a call. -/
theorem syncs_migrated_of_ne_nil (book : Book) {run : List Sync} (hrun : run ≠ []) :
    (book.syncs run).migrated = true := by
  cases run with
  | nil => exact absurd rfl hrun
  | cons s run =>
    rw [syncs_of_cons]
    exact migrated_syncs run (sync_migrated_true book s)

/-- From the empty book a credit given at any point of a run stays for the rest of it. -/
theorem creditOf_run (pre rest : List Sync) {credit : Credit}
    (h : (({} : Book).syncs pre).creditOf id = some credit) :
    (({} : Book).syncs (pre ++ rest)).creditOf id = some credit := by
  have hne : pre ≠ [] := by
    rintro rfl
    simp [creditOf, syncs] at h
  rw [syncs_append]
  exact creditOf_syncs (syncs_migrated_of_ne_nil _ hne) h rest

end Book

end PortsBox
