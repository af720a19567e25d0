import PortsBox.EngineOps
import PortsBox.EngineLimits

/-!
# Ledger commits are all or nothing

Between two calls the book, the queue of recent entries, the remote limits and the
database agree: the database holds the book, the queue is the end of the ledger table
and the limits are the book's. A refused call leaves the four as they were; one that
succeeds moves them together, so a restart loads what the engine has.
-/

set_option autoImplicit false

namespace PortsBox

/-! ## What a call does -/

/-- No user's limit changes meanwhile. -/
def Meanwhile.LeavesLimits (meanwhile : Meanwhile) : Prop :=
  ∀ w id, ((meanwhile.run w).quotas id).limit = (w.quotas id).limit

namespace Accounts

variable {codec : BookCodec}

/-- The operation of the book succeeds, with this book and these entries. -/
def Booked (s : Accounts codec.Text) (env : Surroundings) (config : Config) (changed : Book)
    (batch : List Entry) : EngineCall → Prop
  | .sync => ∃ remote fetched, config.accounting.activeRemote = some remote ∧
    env.fetch remote = .ok fetched ∧
    s.engine.book.reconcile fetched.packages (members (env.fetching.run s.world) config)
      (assignments config) env.now = (changed, batch)
  | .transfer sender receiver amount =>
    s.engine.book.transfer (members s.world config) sender receiver amount env.now =
      (changed, .ok batch)
  | .allocate receiver amount =>
    s.engine.book.allocate (members s.world config) receiver amount env.now =
      (changed, .ok batch)

/-- What a refused call leaves. The limits of the users are as before unless another task sets
one meanwhile. -/
structure AsBefore (s : Accounts codec.Text) (env : Surroundings) (engine : Engine codec.Text)
    (w : World) : Prop where
  book : engine.book = s.engine.book
  entries : engine.entries = s.engine.entries
  db : engine.db = s.engine.db
  remote : w.remote = s.world.remote
  limits : env.fetching.LeavesLimits → env.saving.LeavesLimits →
    ∀ id, (w.quotas id).limit = (s.world.quotas id).limit

/-- What a successful call leaves: the book and the limits of the operation, and in the database
the same book, the ledger longer by its entries, and a queue that is the ledger's end. -/
structure Committed (s : Accounts codec.Text) (changed : Book) (batch : List Entry)
    (engine : Engine codec.Text) (w : World) : Prop where
  book : engine.book = changed
  remote : w.remote = some changed.limits
  db : engine.db.isSome = s.engine.db.isSome
  saved : ∀ db, engine.db = some db → db.loadBook codec = .ok (some changed)
  ledger : ∀ before after, s.engine.db = some before → engine.db = some after →
    after.ledger.entries = before.ledger.entries ++ batch ∧
      after.ledger.rows.length = before.ledger.rows.length + batch.length
  queue : ∀ db, engine.db = some db → engine.entries = db.ledger.entries.rtake recentLimit ∧
    engine.entries.length = min recentLimit db.ledger.rows.length
  restart : ∀ db, engine.db = some db → Engine.load codec (some db) =
    .ok { db := some db.reopen, book := engine.book, entries := engine.entries }
  restartLimits : initialLimits engine.book = w.remote

end Accounts

/-! ## The invariant -/

/-- A database and an engine hold the same ledger. -/
structure StateDb.Holds {codec : BookCodec} (db : StateDb codec.Text) (current : Book)
    (queue : List Entry) : Prop where
  book : ∃ saved, db.loadBook codec = .ok saved ∧ saved.getD {} = current
  readable : db.ledger.Readable
  queue : queue = db.ledger.entries.rtake recentLimit

/-- The ledger is the same wherever it is kept. -/
structure Accounts.Agree {codec : BookCodec} (s : Accounts codec.Text) : Prop where
  remote : s.world.remote = initialLimits s.engine.book
  stored : ∀ db, s.engine.db = some db → db.Holds s.engine.book s.engine.entries

section Databases

variable {codec : BookCodec} {db : StateDb codec.Text} {book : Book} {entries : List Entry}

/-- Loading a database gives the engine it agrees with. -/
theorem StateDb.Holds.load (h : db.Holds book entries) :
    Engine.load codec (some db) = .ok { db := some db.reopen, book, entries } := by
  obtain ⟨saved, hsaved, rfl⟩ := h.book
  have hentries : db.recentEntries recentLimit = entries := by
    rw [h.queue]
    exact LedgerTable.recent_eq h.readable recentLimit
  simp only [Engine.load, hsaved, hentries]

theorem StateDb.Holds.reopen (h : db.Holds book entries) : db.reopen.Holds book entries :=
  ⟨h.book, h.readable, h.queue⟩

theorem StateDb.holds_new : ({} : StateDb codec.Text).Holds {} [] where
  book := ⟨none, rfl, rfl⟩
  readable := by
    intro row hrow
    cases hrow
  queue := (List.rtake_nil _).symm

/-- The database after a save agrees with the engine after `keep`. -/
theorem StateDb.Holds.saved (hcodec : codec.RoundTrips) (h : db.Holds book entries)
    {after : Book} {json : codec.Text} (hjson : codec.toString after = .ok json)
    (more : List Entry) :
    ({ db with book := some json, ledger := db.ledger.insertAll more } :
      StateDb codec.Text).Holds after (Window.pushAll recentLimit entries more) where
  book := by
    refine ⟨some after, ?_, rfl⟩
    simp only [StateDb.loadBook, hcodec after json hjson]
  readable := LedgerTable.readable_insertAll h.readable more
  queue := by
    rw [h.queue, Window.pushAll_rtake (by decide), LedgerTable.entries_insertAll]

theorem LedgerTable.length_entries {table : LedgerTable} (h : table.Readable) :
    table.entries.length = table.rows.length := List.filterMap_length_eq_length.mpr h

end Databases

/-! ## One call -/

namespace Engine

variable {codec : BookCodec}

@[simp] theorem applyLimits_remote (engine : Engine codec.Text) (config : Config) (w : World) :
    (engine.applyLimits config w).remote =
      if engine.book.migrated then some engine.book.limits else w.remote := by
  have hloop : ∀ (users : List QuotaRef) (w : World),
      (users.foldl (fun w ref => w.setQuota ref.id
        (System.limited engine.book ref.name (w.quotas ref.id))) w).remote = w.remote := by
    intro users
    induction users with
    | nil => exact fun _ => rfl
    | cons ref users ih => exact fun w => ih _
  unfold applyLimits
  cases engine.book.migrated with
  | false => rfl
  | true =>
    cases config.accounting.activeRemote.isNone with
    | true => rfl
    | false => exact hloop _ _

/-- A commit either changes nothing or moves the book, the queue and the database together. -/
theorem commit_cases (save : SaveTask) (engine : Engine codec.Text) (book : Book)
    (entries : List Entry) :
    (∃ e, engine.commit codec save book entries = (engine, .error e)) ∨
    (engine.db = none ∧
      engine.commit codec save book entries = (engine.keep book entries, .ok ())) ∨
    ∃ db json, engine.db = some db ∧ codec.toString book = .ok json ∧
      engine.commit codec save book entries =
        ({ engine with
            db := some { db with book := some json, ledger := db.ledger.insertAll entries }
          }.keep book entries, .ok ()) := by
  cases hdb : engine.db with
  | none =>
    refine .inr (.inl ⟨rfl, ?_⟩)
    simp only [commit, hdb]
  | some db =>
    cases save with
    | panicked e =>
      refine .inl ⟨.saveTaskFailed e, ?_⟩
      simp only [commit, hdb]
    | ended tx =>
      rcases db.saveBook_cases codec tx book entries with ⟨e, hsave⟩ | ⟨json, hjson, hsave⟩
      · refine .inl ⟨.cannotSave e, ?_⟩
        simp only [commit, hdb, hsave]
      · refine .inr (.inr ⟨db, json, rfl, hjson, ?_⟩)
        simp only [commit, hdb, hsave]

end Engine

/-- A call that changed none of the places the ledger is kept in. -/
structure Engine.SameLedger {Text : Type} (before after : Engine Text) : Prop where
  book : after.book = before.book
  entries : after.entries = before.entries
  db : after.db = before.db

/-- A call that committed a book and its entries. -/
structure Engine.Moved {codec : BookCodec} (before after : Engine codec.Text) (changed : Book)
    (batch : List Entry) : Prop where
  book : after.book = changed
  entries : after.entries = Window.pushAll recentLimit before.entries batch
  db : (before.db = none ∧ after.db = none) ∨
    ∃ db json, before.db = some db ∧ codec.toString changed = .ok json ∧
      after.db = some { db with book := some json, ledger := db.ledger.insertAll batch }

/-- The world after the waits of a call that have passed. -/
inductive Waited (env : Surroundings) (w : World) : World → Prop
  | none : Waited env w w
  | fetching : Waited env w (env.fetching.run w)
  | saving {fetched : World} (h : fetched = w ∨ fetched = env.fetching.run w) :
      Waited env w (env.saving.run fetched)

namespace Waited

variable {env : Surroundings} {w after : World}

theorem remote (h : Waited env w after) : after.remote = w.remote := by
  cases h with
  | none => rfl
  | fetching => exact env.fetching.run_remote w
  | saving h =>
    rw [env.saving.run_remote]
    rcases h with rfl | rfl
    · rfl
    · exact env.fetching.run_remote w

theorem limit (h : Waited env w after) (hfetching : env.fetching.LeavesLimits)
    (hsaving : env.saving.LeavesLimits) (id : Nat) :
    (after.quotas id).limit = (w.quotas id).limit := by
  cases h with
  | none => rfl
  | fetching => exact hfetching w id
  | saving h =>
    rw [hsaving]
    rcases h with rfl | rfl
    · rfl
    · exact hfetching w id

end Waited

namespace Engine

variable {codec : BookCodec} (env : Surroundings) (engine : Engine codec.Text) (w : World)
  (config : Config)

theorem settle_cases (changed : Book) (batch : List Entry) :
    (∃ e, engine.settle codec env w config changed batch =
      (engine, env.saving.run w, .error e)) ∨
    ∃ after, engine.Moved after changed batch ∧ engine.settle codec env w config changed batch =
      (after, after.applyLimits config (env.saving.run w), .ok ()) := by
  rcases engine.commit_cases env.save changed batch with ⟨e, hcommit⟩ | ⟨hdb, hcommit⟩ |
    ⟨db, json, hdb, hjson, hcommit⟩
  · refine .inl ⟨e, ?_⟩
    simp only [settle, hcommit]
  · refine .inr ⟨engine.keep changed batch, ⟨rfl, rfl, .inl ⟨hdb, hdb⟩⟩, ?_⟩
    simp only [settle, hcommit]
  · refine .inr ⟨{ engine with
        db := some { db with book := some json, ledger := db.ledger.insertAll batch } }.keep
      changed batch, ⟨rfl, rfl, .inr ⟨db, json, hdb, hjson, rfl⟩⟩, ?_⟩
    simp only [settle, hcommit]

theorem syncWith_cases (remote : RemoteConfig) :
    (∃ e after w', engine.syncWith codec env w config remote = (after, w', .error e) ∧
      engine.SameLedger after ∧ Waited env w w') ∨
    ∃ fetched after w', env.fetch remote = .ok fetched ∧
      engine.Moved after
        (engine.book.reconcile fetched.packages (members (env.fetching.run w) config)
          (assignments config) env.now).1
        (engine.book.reconcile fetched.packages (members (env.fetching.run w) config)
          (assignments config) env.now).2 ∧
      Waited env w w' ∧
      engine.syncWith codec env w config remote =
        (after, after.applyLimits config w', .ok ()) := by
  unfold syncWith
  split
  · exact .inl ⟨_, _, _, rfl, ⟨rfl, rfl, rfl⟩, .none⟩
  · cases hfetch : env.fetch remote with
    | error e => exact .inl ⟨_, _, _, rfl, ⟨rfl, rfl, rfl⟩, .fetching⟩
    | ok fetched =>
      dsimp only
      split
      · exact .inl ⟨_, _, _, rfl, ⟨rfl, rfl, rfl⟩, .fetching⟩
      · rcases settle_cases env { engine with ignored := fetched.ignored } (env.fetching.run w)
          config
          (engine.book.reconcile fetched.packages (members (env.fetching.run w) config)
            (assignments config) env.now).1
          (engine.book.reconcile fetched.packages (members (env.fetching.run w) config)
            (assignments config) env.now).2 with ⟨e, hsettle⟩ | ⟨after, hmoved, hsettle⟩
        · exact .inl ⟨e, _, _, hsettle, ⟨rfl, rfl, rfl⟩, .saving (.inr rfl)⟩
        · exact .inr ⟨fetched, after, _, rfl, ⟨hmoved.book, hmoved.entries, hmoved.db⟩,
            .saving (.inr rfl), hsettle⟩

theorem manual_cases (answer : Book × Except LedgerError (List Entry)) :
    (∃ e w', engine.manual codec env w config answer = (engine, w', .error e) ∧
      Waited env w w') ∨
    ∃ changed batch after w', answer = (changed, .ok batch) ∧
      engine.Moved after changed batch ∧ Waited env w w' ∧
      engine.manual codec env w config answer = (after, after.applyLimits config w', .ok ()) := by
  obtain ⟨changed, result⟩ := answer
  cases result with
  | error e => exact .inl ⟨_, w, rfl, .none⟩
  | ok batch =>
    rcases settle_cases env engine w config changed batch with
      ⟨e, hsettle⟩ | ⟨after, hmoved, hsettle⟩
    · exact .inl ⟨e, _, hsettle, .saving (.inl rfl)⟩
    · exact .inr ⟨changed, batch, after, _, rfl, hmoved, .saving (.inl rfl), hsettle⟩

end Engine

namespace Accounts

variable {codec : BookCodec} {s : Accounts codec.Text} {env : Surroundings} {config : Config}
  {engine : Engine codec.Text} {w : World} {result : Except EngineError Unit}

theorem manual_ends {answer : Book × Except LedgerError (List Entry)}
    (hmigrated : ∀ changed batch, answer = (changed, .ok batch) → changed.migrated = true)
    (h : s.engine.manual codec env s.world config answer = (engine, w, result)) :
    (∃ e, result = .error e ∧ s.engine.SameLedger engine ∧ Waited env s.world w) ∨
    ∃ changed batch w', result = .ok () ∧ answer = (changed, .ok batch) ∧
      changed.migrated = true ∧ s.engine.Moved engine changed batch ∧ Waited env s.world w' ∧
      w = engine.applyLimits config w' := by
  rcases s.engine.manual_cases env s.world config answer with
    ⟨e, w', hcall, hwaited⟩ | ⟨changed, batch, after, w', hanswer, hmoved, hwaited, hcall⟩
  · rw [hcall] at h
    obtain ⟨rfl, rfl, rfl⟩ := h
    exact .inl ⟨e, rfl, ⟨rfl, rfl, rfl⟩, hwaited⟩
  · rw [hcall] at h
    obtain ⟨rfl, rfl, rfl⟩ := h
    exact .inr ⟨changed, batch, w', rfl, hanswer, hmigrated _ _ hanswer, hmoved, hwaited, rfl⟩

/-- A call that fails has changed no ledger; one that succeeds has committed what the operation
of the book returned, and then applied the limits. -/
theorem call_cases {call : EngineCall}
    (h : s.call codec env config call = (engine, w, result)) :
    (∃ e, result = .error e ∧ s.engine.SameLedger engine ∧ Waited env s.world w) ∨
    ∃ changed batch w', result = .ok () ∧ s.Booked env config changed batch call ∧
      changed.migrated = true ∧ s.engine.Moved engine changed batch ∧ Waited env s.world w' ∧
      w = engine.applyLimits config w' := by
  cases call with
  | sync =>
    simp only [Accounts.call, Engine.sync] at h
    cases hremote : config.accounting.activeRemote with
    | none =>
      rw [hremote] at h
      obtain ⟨rfl, rfl, rfl⟩ := h
      exact .inl ⟨_, rfl, ⟨rfl, rfl, rfl⟩, .none⟩
    | some remote =>
      rw [hremote] at h
      dsimp only at h
      rcases Engine.syncWith_cases env { s.engine with lastAttempt := some env.attempt } s.world
        config remote with ⟨e, after, w', hsync, hsame, hwaited⟩ |
        ⟨fetched, after, w', hfetch, hmoved, hwaited, hsync⟩
      · rw [hsync] at h
        obtain ⟨rfl, rfl, rfl⟩ := h
        exact .inl ⟨e, rfl, ⟨hsame.book, hsame.entries, hsame.db⟩, hwaited⟩
      · rw [hsync] at h
        obtain ⟨rfl, rfl, rfl⟩ := h
        refine .inr ⟨_, _, w', rfl, ⟨remote, fetched, hremote, hfetch, rfl⟩, ?_,
          ⟨hmoved.book, hmoved.entries, hmoved.db⟩, hwaited, rfl⟩
        exact Book.sync_migrated_true s.engine.book ⟨_, _, _, _⟩
  | transfer sender receiver amount =>
    refine manual_ends ?_ h
    intro changed batch hanswer
    obtain ⟨hmigrated, rfl⟩ := Book.transfer_ok hanswer
    exact (Book.join_migrated _ _).trans hmigrated
  | allocate receiver amount =>
    refine manual_ends ?_ h
    intro changed batch hanswer
    obtain ⟨hmigrated, names, total, rfl⟩ := Book.allocate_ok hanswer
    exact (Book.join_migrated _ _).trans hmigrated

/-! ## Every run -/

theorem Agree.sameLedger (h : s.Agree) (hsame : s.engine.SameLedger engine)
    (hwaited : Waited env s.world w) : Agree ⟨engine, w⟩ where
  remote := by
    change w.remote = initialLimits engine.book
    rw [hwaited.remote, h.remote, hsame.book]
  stored := by
    intro db hdb
    change engine.db = some db at hdb
    change db.Holds engine.book engine.entries
    rw [hsame.book, hsame.entries]
    exact h.stored db (hsame.db ▸ hdb)

/-- The database after a commit holds what the engine keeps. -/
theorem Agree.moved (hcodec : codec.RoundTrips) (h : s.Agree) {changed : Book}
    {batch : List Entry} (hmoved : s.engine.Moved engine changed batch) (db : StateDb codec.Text)
    (hdb : engine.db = some db) : db.Holds changed engine.entries := by
  rcases hmoved.db with ⟨-, hnone⟩ | ⟨before, json, hbefore, hjson, hafter⟩
  · rw [hnone] at hdb
    cases hdb
  · obtain rfl := Option.some.inj (hafter.symm.trans hdb)
    rw [hmoved.entries]
    exact (h.stored before hbefore).saved hcodec hjson batch

theorem applied_remote (engine : Engine codec.Text) (config : Config) {w : World}
    (h : w.remote = initialLimits engine.book ∨ engine.book.migrated = true) :
    (engine.applyLimits config w).remote = initialLimits engine.book := by
  rw [Engine.applyLimits_remote]
  cases hmigrated : engine.book.migrated with
  | true =>
    rw [initialLimits, hmigrated]
    rfl
  | false =>
    rcases h with h | h
    · rw [h, initialLimits, hmigrated]
      rfl
    · rw [hmigrated] at h
      cases h

theorem Agree.call (hcodec : codec.RoundTrips) (h : s.Agree) {call : EngineCall}
    (hcall : s.call codec env config call = (engine, w, result)) : Agree ⟨engine, w⟩ := by
  rcases call_cases hcall with ⟨e, -, hsame, hwaited⟩ |
    ⟨changed, batch, w', -, -, hmigrated, hmoved, -, rfl⟩
  · exact h.sameLedger hsame hwaited
  · constructor
    · exact applied_remote engine config (.inr (hmoved.book ▸ hmigrated))
    · intro db hdb
      have hholds := h.moved hcodec hmoved db hdb
      change db.Holds engine.book engine.entries
      rw [hmoved.book]
      exact hholds

/-- A process starts in agreement with a database that agrees with anything. -/
theorem Agree.of_starts {db : Option (StateDb codec.Text)}
    (hdb : ∀ stored, db = some stored → ∃ book entries, stored.Holds book entries)
    (hstarts : s.Starts codec db) : s.Agree := by
  obtain ⟨hload, hremote⟩ := hstarts
  refine ⟨hremote, ?_⟩
  intro stored hstored
  cases db with
  | none =>
    rw [← Except.ok.inj hload] at hstored
    cases hstored
  | some opened =>
    obtain ⟨book, entries, hholds⟩ := hdb opened rfl
    rw [hholds.load] at hload
    rw [← Except.ok.inj hload] at hstored ⊢
    obtain rfl := Option.some.inj hstored
    exact hholds.reopen

/-- In every run, between calls, the ledger is the same wherever it is kept. -/
theorem agree_reached (hcodec : codec.RoundTrips) (h : Reached codec s) : s.Agree := by
  induction h with
  | fresh hdb hstarts =>
    refine Agree.of_starts ?_ hstarts
    intro stored hstored
    rcases hdb with rfl | rfl
    · cases hstored
    · obtain rfl := Option.some.inj hstored
      exact ⟨_, _, StateDb.holds_new⟩
  | call _ env config call hcall ih => exact ih.call hcodec hcall
  | others _ meanwhile ih =>
    refine ⟨?_, ih.stored⟩
    exact (meanwhile.run_remote _).trans ih.remote
  | @liveChanged s _ config ih => exact ⟨applied_remote s.engine config (.inl ih.remote), ih.stored⟩
  | restart _ hstarts ih =>
    refine Agree.of_starts ?_ hstarts
    intro stored hstored
    exact ⟨_, _, ih.stored stored hstored⟩

theorem asBefore_of_sameLedger (hsame : s.engine.SameLedger engine)
    (hwaited : Waited env s.world w) : s.AsBefore env engine w :=
  ⟨hsame.book, hsame.entries, hsame.db, hwaited.remote,
    fun hfetching hsaving => hwaited.limit hfetching hsaving⟩

theorem committed_of_moved (hcodec : codec.RoundTrips) (h : s.Agree) {changed : Book}
    {batch : List Entry} (hmigrated : changed.migrated = true)
    (hmoved : s.engine.Moved engine changed batch) {w' : World} :
    s.Committed changed batch engine (engine.applyLimits config w') where
  book := hmoved.book
  remote := by
    rw [Engine.applyLimits_remote, hmoved.book, hmigrated]
    rfl
  db := by
    rcases hmoved.db with ⟨hbefore, hafter⟩ | ⟨db, json, hbefore, -, hafter⟩
    · rw [hbefore, hafter]
    · rw [hbefore, hafter]
      rfl
  saved := by
    intro db hdb
    rcases hmoved.db with ⟨-, hnone⟩ | ⟨before, json, -, hjson, hafter⟩
    · rw [hnone] at hdb
      cases hdb
    · obtain rfl := Option.some.inj (hafter.symm.trans hdb)
      simp only [StateDb.loadBook, hcodec changed json hjson]
  ledger := by
    intro before after hbefore hafter
    rcases hmoved.db with ⟨hnone, -⟩ | ⟨db, json, hdb, -, hnext⟩
    · rw [hnone] at hbefore
      cases hbefore
    · obtain rfl := Option.some.inj (hdb.symm.trans hbefore)
      obtain rfl := Option.some.inj (hnext.symm.trans hafter)
      have hreadable := (h.stored db hdb).readable
      have hentries := LedgerTable.entries_insertAll db.ledger batch
      refine ⟨hentries, ?_⟩
      change (db.ledger.insertAll batch).rows.length = _
      rw [← LedgerTable.length_entries (LedgerTable.readable_insertAll hreadable batch), hentries,
        List.length_append, LedgerTable.length_entries hreadable]
  queue := by
    intro db hdb
    have hholds := h.moved hcodec hmoved db hdb
    refine ⟨hholds.queue, ?_⟩
    rw [hholds.queue, Window.length_rtake, LedgerTable.length_entries hholds.readable]
  restart := by
    intro db hdb
    have hholds := h.moved hcodec hmoved db hdb
    rw [hholds.load, hmoved.book]
  restartLimits :=
    (applied_remote engine config (.inr (hmoved.book ▸ hmigrated))).symm

/-- Ledger commits are all or nothing, in every run and whatever the provider answers and the
database refuses, and a restart after a commit sees the same ledger. -/
theorem commits_all_or_nothing (hcodec : codec.RoundTrips) (h : Reached codec s)
    (env : Surroundings) (config : Config) (call : EngineCall)
    (hcall : s.call codec env config call = (engine, w, result)) :
    match result with
    | .error _ => s.AsBefore env engine w
    | .ok () => ∃ changed batch, s.Booked env config changed batch call ∧
        s.Committed changed batch engine w := by
  have hagree := agree_reached hcodec h
  rcases call_cases hcall with ⟨e, rfl, hsame, hwaited⟩ |
    ⟨changed, batch, w', rfl, hbooked, hmigrated, hmoved, -, rfl⟩
  · exact asBefore_of_sameLedger hsame hwaited
  · exact ⟨changed, batch, hbooked, committed_of_moved hcodec hagree hmigrated hmoved⟩

end Accounts

/-- A codec whose text is the book itself. -/
def plainCodec : BookCodec where
  Text := Book
  toString := .ok
  fromStr := .ok

theorem plainCodec_roundTrips : plainCodec.RoundTrips := by
  intro book text h
  exact h.symm

/-- Nothing else happens meanwhile. -/
def Meanwhile.nothing : Meanwhile := ⟨id, fun _ => rfl⟩

/-- The provider lists one package and the database takes the save. -/
def calmSurroundings : Surroundings where
  fetch _ := .ok listed
  fetching := .nothing
  save := .ended (.ok ())
  saving := .nothing
  attempt := 0
  now := 0

/-- A process on a new database, with the one user of `onlineConfig`. -/
def freshAccounts : Accounts plainCodec.Text where
  engine := { db := some {}, book := {}, entries := [] }
  world := onlineStart

theorem commits_all_or_nothing_first_sync :
    ∃ engine w changed batch,
      freshAccounts.call plainCodec calmSurroundings onlineConfig .sync = (engine, w, .ok ()) ∧
      freshAccounts.Booked calmSurroundings onlineConfig changed batch .sync ∧
      freshAccounts.Committed changed batch engine w := by
  have hreached : Accounts.Reached plainCodec freshAccounts := .fresh (.inr rfl) ⟨rfl, rfl⟩
  have hcall : freshAccounts.call plainCodec calmSurroundings onlineConfig .sync =
      (_, _, .ok ()) := rfl
  obtain ⟨changed, batch, hbooked, hcommitted⟩ := Accounts.commits_all_or_nothing
    plainCodec_roundTrips hreached calmSurroundings onlineConfig .sync hcall
  exact ⟨_, _, changed, batch, hcall, hbooked, hcommitted⟩

end PortsBox
