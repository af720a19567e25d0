import PortsBox.LedgerEntries

/-!
# Credits over a run

A package is credited in one sync at most, with its whole total, to its owner or to all
members, and what its Credit entries say is what the balances of the book get for it: the
rest of the change is what the other entries say, less the user's charges.
-/

set_option autoImplicit false

namespace PortsBox

open Word Accounts

namespace Book

/-! ## The entries of one package -/

theorem amountFor_posted_filter (user : String) (p : Entry → Bool) (entries : List Entry) :
    amountFor user (posted entries) =
      amountFor user (posted (entries.filter p)) +
        amountFor user (posted (entries.filter fun entry => !p entry)) := by
  induction entries with
  | nil => rfl
  | cons entry entries ih =>
    have hcons : posted (entry :: entries) = (entry.user, entry.amount) :: posted entries := rfl
    rw [hcons, amountFor_cons, ih]
    cases hp : p entry with
    | true =>
      rw [List.filter_cons_of_pos hp, List.filter_cons_of_neg (by simp [hp])]
      change _ = amountFor user ((entry.user, entry.amount) :: posted _) + _
      rw [amountFor_cons]
      omega
    | false =>
      rw [List.filter_cons_of_neg (by simp [hp]), List.filter_cons_of_pos (by simp [hp])]
      change _ = _ + amountFor user ((entry.user, entry.amount) :: posted _)
      rw [amountFor_cons]
      omega

/-- A Credit entry for a package. -/
def isCreditFor (id : String) (entry : Entry) : Bool :=
  entry.package = some id && entry.kind = .credit

/-- What else a sync does to a balance: its other entries, less the user's charges. -/
def elsewhere (book : Book) (s : Sync) (id user : String) : Int :=
  amountFor user (posted ((book.sync s).2.filter fun entry => !isCreditFor id entry)) -
    book.charged user (.reconcile s)

section Sync
variable {book : Book} {s : Sync}

theorem creditsFor_eq_filter (book : Book) (s : Sync) (id : String) :
    book.creditsFor s id = (book.sync s).2.filter (isCreditFor id) := by
  rw [creditsFor, creditsIn, List.filter_filter]
  rfl

/-- A balance changes by the credits of a package and what else there is. -/
theorem getD_sync_credits (hmigrated : book.migrated = true) (hwords : Words 64 book.balances)
    (hnames : (s.members.map Member.name).Nodup) (id user : String) :
    (book.sync s).1.balances.getD user 0 =
      swrap 64 (book.balances.getD user 0 +
        (amountFor user (posted (book.creditsFor s id)) + book.elsewhere s id user)) := by
  have hcall := @getD_call book (fresh_of_migrated hmigrated) hwords (.reconcile s) hnames user
  have hsplit := amountFor_posted_filter user (isCreditFor id) (book.sync s).2
  change (book.sync s).1.balances.getD user 0 = _ at hcall
  rw [hcall, written, hsplit, ← creditsFor_eq_filter, elsewhere]
  congr 1
  omega

theorem words_syncs {run : List Sync} (hwords : Words 64 book.balances) :
    Words 64 (book.syncs run).balances := by
  induction run generalizing book with
  | nil => exact hwords
  | cons s run ih => exact ih (words_sync hwords s)

end Sync

/-! ## Runs from the empty book -/

theorem creditEntries_user (now : Int) (id : String) (names : List String) (shares : List Nat)
    (h : shares.length = names.length) :
    ((names.zip shares).map (creditEntry now id)).map Entry.user = names := by
  rw [List.map_map]
  exact List.map_fst_zip h.ge

theorem creditEntries_amount (now : Int) (id : String) (names : List String) {total : Nat}
    (hnames : names ≠ []) (h : total < 2 ^ 63) :
    (((names.zip (splitEvenly total names.length)).map (creditEntry now id)).map
      Entry.amount).sum = total := by
  have hsum := splitEvenly_sum (show total < 2 ^ 64 by omega) (List.length_pos_iff.mpr hnames)
  have hzip : (names.zip (splitEvenly total names.length)).map Prod.snd =
      splitEvenly total names.length := List.map_snd_zip (by simp)
  have hlt : ((names.zip (splitEvenly total names.length)).map Prod.snd).sum < 2 ^ 63 := by
    rw [hzip, hsum]
    exact h
  have hamount := amount_gains hlt
  rw [hzip, hsum] at hamount
  rw [List.map_map, ← hamount, gains, amount, List.map_map]
  rfl

/-- Over every run from the empty book: a credit never changes; a package recorded at the
migration never gets Credit entries; no package gets them in two calls; and where it gets them
they go to its owner, a member, or one to each member, add up to its total, and every balance
of the book after the call has what they say, beside what the other entries say and less the
user's charges. -/
theorem credited_once (run : List Sync)
    (hnames : ∀ s ∈ run, (s.members.map Member.name).Nodup) :
    (∀ (pre rest : List Sync) (id : String) (credit : Credit), run = pre ++ rest →
      (({} : Book).syncs pre).creditOf id = some credit →
      (({} : Book).syncs run).creditOf id = some credit) ∧
    (∀ (first s : Sync) (rest pre post : List Sync) (package : Package), run = first :: rest →
      run = pre ++ s :: post → package ∈ first.packages →
      (({} : Book).syncs pre).creditsFor s package.id = []) ∧
    (∀ (pre mid post : List Sync) (s later : Sync) (id : String),
      run = pre ++ s :: (mid ++ later :: post) →
      (({} : Book).syncs pre).creditsFor s id ≠ [] →
      (({} : Book).syncs (pre ++ s :: mid)).creditsFor later id = []) ∧
    (∀ (pre post : List Sync) (s : Sync) (id : String), run = pre ++ s :: post →
      let book := ({} : Book).syncs pre
      let credits := book.creditsFor s id
      credits ≠ [] →
      ∃ record, (book.sync s).1.packages[id]? = some record ∧ record.credit.isSome = true ∧
        ((∃ owner ∈ names s, s.assignments.owners[id]? = some owner ∧
            credits.map Entry.user = [owner]) ∨
          (credits.map Entry.user = names s ∧ (names s).Nodup)) ∧
        (record.package.total < 2 ^ 63 →
          (credits.map Entry.amount).sum = record.package.total) ∧
        ∀ user,
          let change := amountFor user (posted credits) + book.elsewhere s id user
          (book.sync s).1.balances.getD user 0 = swrap 64 (book.balances.getD user 0 + change) ∧
            (FitsWord (book.balances.getD user 0 + change) →
              (book.sync s).1.balances.getD user 0 - book.balances.getD user 0 = change)) := by
  refine ⟨?_, ?_, ?_, ?_⟩
  · rintro pre rest id credit rfl hcredit
    exact creditOf_run pre rest hcredit
  · rintro first s rest pre post package rfl hsplit hmem
    cases pre with
    | nil =>
      rw [creditsFor, migration_creditsIn _ s rfl]
      rfl
    | cons _ pre =>
      obtain ⟨rfl, _⟩ := List.cons.inj hsplit
      have hcredit : (({} : Book).syncs [first]).creditOf package.id = some .migration :=
        creditOf_migration rfl hmem
      exact creditsFor_of_credit (creditOf_run [first] pre hcredit)
  · rintro pre mid post s later id rfl hcredits
    obtain ⟨_, _, record, hafter, hcredit, _⟩ := creditsFor_ne_nil hcredits
    obtain ⟨credit, hcredit⟩ := Option.isSome_iff_exists.mp hcredit
    have hgiven : (({} : Book).syncs (pre ++ [s])).creditOf id = some credit := by
      rw [syncs_append]
      change ((({} : Book).syncs pre).sync s).1.creditOf id = some credit
      rw [creditOf, hafter]
      exact hcredit
    have hlater := creditOf_run (pre ++ [s]) mid hgiven
    rw [List.append_assoc] at hlater
    exact creditsFor_of_credit hlater
  · rintro pre post s id rfl book credits hcredits
    obtain ⟨hmigrated, _, record, hafter, hcredit, hentries⟩ := creditsFor_ne_nil hcredits
    have hbalances := getD_sync_credits hmigrated (words_syncs (words_empty 64))
      (hnames s (by simp)) id
    refine ⟨record, hafter, hcredit, ?_, ?_, ?_⟩
    · rcases hentries with ⟨owner, hmember, howner, hentries⟩ | ⟨_, hentries⟩
      · exact Or.inl ⟨owner, hmember, howner, congrArg (List.map Entry.user) hentries⟩
      · refine Or.inr ⟨?_, hnames s (by simp)⟩
        rw [← creditEntries_user s.now id (names s) _ (splitEvenly_length record.package.total _)]
        exact congrArg (List.map Entry.user) hentries
    · intro htotal
      rcases hentries with ⟨owner, _, _, hentries⟩ | ⟨hne, hentries⟩
      · change (List.map Entry.amount (creditsFor _ s id)).sum = _
        rw [hentries]
        simp [creditEntry, signed_of_lt htotal]
      · rw [← creditEntries_amount s.now id (names s) hne htotal]
        exact congrArg (fun entries => (entries.map Entry.amount).sum) hentries
    · intro user change
      refine ⟨hbalances user, ?_⟩
      intro hfits
      rw [hbalances user, swrap_of_bounds (by decide) hfits.1 hfits.2]
      exact add_sub_cancel_left _ _

def creditMembers : List Member := [⟨"a", 0, some 1⟩, ⟨"b", 0, some 1⟩]

def listedPackage : Package := ⟨"q", "", "", 5, 5, "Effective", ""⟩

/-- A package split over two users. -/
def splitSync : Sync := ⟨[listedPackage], creditMembers, { split := {"q"} }, 1⟩

/-- The same package with an owner. -/
def ownedSync : Sync :=
  ⟨[listedPackage], creditMembers, { owners := (∅ : BTreeMap String).insert "q" "a" }, 2⟩

/-- Nothing at the migration; then the package, twice. -/
def creditRun : List Sync := [⟨[], creditMembers, {}, 0⟩, splitSync, ownedSync]

/-- Of its 5 the first user gets 3, and the owner nothing more. -/
theorem credited_once_creditRun :
    (({} : Book).syncs (creditRun.take 2)).creditsFor ownedSync "q" = [] ∧
      (({} : Book).syncs (creditRun.take 2)).balances.getD "a" 0 -
        (({} : Book).syncs (creditRun.take 1)).balances.getD "a" 0 = 3 := by
  obtain ⟨-, -, honce, hpaid⟩ := credited_once creditRun (by decide)
  have hcredits : (({} : Book).syncs (creditRun.take 1)).creditsFor splitSync "q" ≠ [] := by
    decide +kernel
  refine ⟨honce (creditRun.take 1) [] [] splitSync ownedSync "q" rfl hcredits, ?_⟩
  obtain ⟨record, -, -, -, -, hbalances⟩ := hpaid (creditRun.take 1) [ownedSync] splitSync "q" rfl
    hcredits
  exact ((hbalances "a").2 (by decide +kernel)).trans (by decide +kernel)

end Book

end PortsBox
