import PortsBox.EngineCommit
import PortsBox.ProcessFloors
import PortsBox.ProcessStart

/-!
# What a user can spend between syncs

In every run in which `apply`, at start-up too, only sets users up with usage that
bills their baselines, in which no counter overflows and no limit reaches the value
that means unlimited, what a limit leaves is at most the balance, and it is what
`transfer` counts as spendable.
-/

set_option autoImplicit false

namespace PortsBox

/-! ## Startup -/

/-- The first `apply` gives every user usage that bills its baseline. -/
theorem System.floors_started {Text : Type} {db : Option (StateDb Text)} {env : Env}
    {config : Config} {book : Book} {quotas : Nat → UserQuota} {w : World}
    (hvalid : Valid config) (hplain : book.Plain)
    (henough : ∀ user ∈ config.users, ∀ baseline, book.baselines[user.name]? = some baseline →
      baseline ≤ (((Process.savedUsage db)[user.name]?).getD {}).billedUnder
        config.accounting.metering)
    (happly : apply (Process.answered db env) config
      { runtime := { hasDb := db.isSome }, remote := initialLimits book, quotas } = .ok () w) :
    (System.started book config w).Floors := by
  obtain ⟨settings, hmetering, hrows, hnames, -, -, hcreated⟩ := started_users happly
  refine ⟨?_, ?_, fun ref hmem => absurd hmem List.not_mem_nil, hplain, ?_⟩
  · rw [System.started, hnames]
    exact hvalid.names
  · intro ref hmem other hother baseline hbaseline
    obtain rfl := List.mem_singleton.mp hother
    obtain ⟨user, huser, hname⟩ := List.mem_map.mp
      (hnames ▸ List.mem_map_of_mem hmem : ref.name ∈ config.users.map UserConfig.name)
    obtain ⟨hour, hquota⟩ := hcreated ref hmem
    change baseline ≤ (w.quotas ref.id).used
    rw [hquota, settings.used_create, hmetering, hrows ref.name
      (hnames ▸ List.mem_map_of_mem hmem), ← hname]
    apply henough user huser
    rw [hname]
    exact hbaseline
  · intro other hother
    obtain rfl := List.mem_singleton.mp hother
    exact hplain.balances

/-! ## Remote accounting stays active -/

namespace System
variable {s next : System}

theorem Active.timely (h : s.Active) {ref : QuotaRef} {config : Config}
    (hset : s.setFor ref = some config) : config.accounting.activeRemote.isSome = true := by
  obtain ⟨hlive, hmain⟩ := h
  unfold setFor at hset
  cases hat : s.main with
  | idle =>
    rw [hat] at hset
    exact Option.some.inj hset ▸ hlive
  | applied applied =>
    rw [hat] at hset hmain
    exact Option.some.inj hset ▸ hmain
  | adopting env adopting settings removed added done todo =>
    rw [hat] at hset hmain
    dsimp only at hset
    split at hset
    · exact Option.some.inj hset ▸ hmain
    · cases hset

theorem Active.mainStep (h : s.Active) {step : MainStep}
    (hconfig : ∀ env config, step = .start env config →
      config.accounting.activeRemote.isSome = true)
    (hstep : s.mainStep step = some next) : next.Active := by
  obtain ⟨hlive, hmain⟩ := h
  rcases mainStep_cases hstep with ⟨hat, binds, rfl⟩ |
    ⟨hat, env, config, binds, added, saved, hstart, rfl⟩ |
    ⟨env, config, settings, removed, added, done, user, todo, hat, rfl⟩ |
    ⟨env, config, settings, removed, added, users, hat, -, rfl⟩ |
    ⟨config, hat, rfl⟩
  · exact ⟨hlive, hmain⟩
  · exact ⟨hlive, hconfig env config hstart⟩
  · rw [hat] at hmain
    exact ⟨hlive, hmain⟩
  · rw [hat] at hmain
    exact ⟨hlive, hmain⟩
  · rw [hat] at hmain
    exact ⟨hmain, trivial⟩

end System

/-! ## Every run -/

theorem Book.plain_default : ({} : Book).Plain where
  limits := by
    intro name limit h
    cases h
  balances := by
    intro name
    exact Int.pow_pos (by decide)

theorem StateDb.flush_book {Text : Type} (tx : Except String Unit) (db : StateDb Text)
    (users : List (String × SavedUsage)) : (db.flush tx users).1.book = db.book := by
  unfold flush
  dsimp only
  split
  · rfl
  · cases tx <;> rfl

namespace Process

variable {codec : BookCodec}

/-- Usage that is taken over bills at least the baseline; counters and limits stay below
`u64::MAX`. -/
def Kept (p : Process codec.Text) : ProcessStep → Prop
  | .system (.main .adopt) _ => p.system.TakesOverEnough
  | .restart _ config => ∀ engine, Engine.load codec p.db = .ok engine →
    ∀ user ∈ config.users, ∀ baseline, engine.book.baselines[user.name]? = some baseline →
      baseline ≤ (((savedUsage p.db)[user.name]?).getD {}).billedUnder config.accounting.metering
  | .system (.engine (.saved true)) _ => ∀ config book, p.system.engine = .saving config book →
    ∀ name limit, book.limit name = some limit → limit < noLimit
  | .system (.traffic (.tryConsumeAt id n _ _)) _ => (p.system.world.quotas id).Fits n
  | _ => True

/-- The book that is stored, if any, reads as one with plain limits. -/
def StoresPlain (db : Option (StateDb codec.Text)) : Prop :=
  ∀ opened text, db = some opened → opened.book = some text →
    ∃ book, codec.fromStr text = .ok book ∧ book.Plain

structure Inv (p : Process codec.Text) : Prop where
  runs : PortsBox.Runs System.Timely p.system
  active : p.system.Active
  floors : p.system.Floors
  stored : StoresPlain p.db

section Steps
variable {p next : Process codec.Text}

/-- A flush leaves the stored book. -/
theorem StoresPlain.flush {db : Option (StateDb codec.Text)} (h : StoresPlain db)
    (tx : Except String Unit) (users : List (String × SavedUsage)) :
    StoresPlain (db.map fun opened => (opened.flush tx users).1) := by
  intro flushed text hflushed hbook
  obtain ⟨opened, hopened, rfl⟩ := Option.map_eq_some_iff.mp hflushed
  rw [StateDb.flush_book] at hbook
  exact h opened text hopened hbook

theorem load_plain {db : Option (StateDb codec.Text)} (h : StoresPlain db)
    {engine : Engine codec.Text} (hload : Engine.load codec db = .ok engine) :
    engine.book.Plain ∧ StoresPlain engine.db := by
  cases db with
  | none =>
    obtain rfl := Except.ok.inj hload
    exact ⟨Book.plain_default, h⟩
  | some opened =>
    have hreopened : StoresPlain (some opened.reopen) := by
      intro again text hagain hbook
      obtain rfl := Option.some.inj hagain
      exact h opened text rfl hbook
    unfold Engine.load StateDb.loadBook at hload
    dsimp only at hload
    cases hbook : opened.book with
    | none =>
      rw [hbook] at hload
      obtain rfl := Except.ok.inj hload
      exact ⟨Book.plain_default, hreopened⟩
    | some text =>
      obtain ⟨book, hread, hplain⟩ := h opened text rfl hbook
      rw [hbook] at hload
      dsimp only at hload
      rw [hread] at hload
      obtain rfl := Except.ok.inj hload
      exact ⟨hplain, hreopened⟩

/-- Without a stored book the engine starts with an empty one. -/
theorem load_first {db : Option (StateDb codec.Text)}
    (hdb : ∀ opened, db = some opened → opened.book = none) {engine : Engine codec.Text}
    (hload : Engine.load codec db = .ok engine) : engine.book = {} := by
  cases db with
  | none =>
    obtain rfl := Except.ok.inj hload
    rfl
  | some opened =>
    unfold Engine.load StateDb.loadBook at hload
    dsimp only at hload
    rw [hdb opened rfl] at hload
    obtain rfl := Except.ok.inj hload
    rfl

/-- A new process starts with the invariant when the usage it takes over is enough. -/
theorem inv_start {db : Option (StateDb codec.Text)} {quotas : Nat → UserQuota} {env : Env}
    {config : Config} (hconfig : RemoteConfigured config) (hstored : StoresPlain db)
    (henough : ∀ engine, Engine.load codec db = .ok engine → ∀ user ∈ config.users,
      ∀ baseline, engine.book.baselines[user.name]? = some baseline →
        baseline ≤ (((savedUsage db)[user.name]?).getD {}).billedUnder config.accounting.metering)
    (hstart : start codec db quotas env config = some p) : p.Inv := by
  unfold start at hstart
  cases hload : Engine.load codec db with
  | error e =>
    rw [hload] at hstart
    cases hstart
  | ok engine =>
    rw [hload] at hstart
    dsimp only at hstart
    obtain ⟨hplain, hreopened⟩ := load_plain hstored hload
    split at hstart
    · cases hstart
    · rename_i w happly
      obtain rfl := Option.some.inj hstart
      exact {
        runs := .started hconfig.accepted happly
        active := ⟨hconfig.active, trivial⟩
        floors := System.floors_started hconfig.accepted.valid hplain (henough engine hload) happly
        stored := hreopened }

/-- Whatever a step does to the database, the stored book is one with plain limits. -/
theorem Inv.stored_after (hcodec : codec.RoundTrips) (h : p.Inv) {step : Step}
    {flushed : Except String Unit} {db : Option (StateDb codec.Text)}
    (hkept : p.Kept (.system step flushed)) (hdb : p.dbAfter codec flushed step = some db) :
    StoresPlain db := by
  unfold dbAfter at hdb
  split at hdb
  -- a successful save
  · split at hdb
    · rename_i config book opened hengine hopened
      rcases opened.saveBook_cases codec (.ok ()) book p.batch with ⟨e, hsave⟩ | ⟨json, hjson, hsave⟩
      · rw [hsave] at hdb
        cases hdb
      · rw [hsave] at hdb
        obtain rfl := Option.some.inj hdb
        intro saved text hsaved hbook
        obtain rfl := Option.some.inj hsaved
        obtain rfl := Option.some.inj hbook
        refine ⟨book, hcodec book json hjson, hkept config book hengine, ?_⟩
        refine h.floors.balances book ?_
        simp [System.books, hengine]
    · obtain rfl := Option.some.inj hdb
      exact h.stored
  -- the flush of the users that `apply` drops
  · split at hdb
    · obtain rfl := Option.some.inj hdb
      exact h.stored.flush flushed _
    · obtain rfl := Option.some.inj hdb
      exact h.stored
  · obtain rfl := Option.some.inj hdb
    exact h.stored

/-- The database's answer changes neither which step of the main loop it is nor its config. -/
theorem ask_main {Text : Type} (db : Option (StateDb Text)) {step : MainStep}
    (hstep : ∀ env config, step = .start env config → RemoteConfigured config) :
    ∃ asked, ask db (.main step) = .main asked ∧ (Step.main asked).Admissible ∧
      (asked = .adopt → step = .adopt) ∧
      ∀ env config, asked = .start env config →
        config.accounting.activeRemote.isSome = true := by
  cases step with
  | start env config =>
    have hconfig := hstep env config rfl
    refine ⟨.start (answered db env) config, rfl, hconfig.accepted, ?_, ?_⟩
    · intro heq
      cases heq
    · intro env' config' heq
      obtain ⟨-, rfl⟩ := MainStep.start.inj heq
      exact hconfig.active
  | adopt =>
    refine ⟨.adopt, rfl, trivial, fun _ => rfl, ?_⟩
    intro env config heq
    cases heq
  | publishUsers =>
    refine ⟨.publishUsers, rfl, trivial, ?_, ?_⟩
    · intro heq
      cases heq
    · intro env config heq
      cases heq
  | publishLive =>
    refine ⟨.publishLive, rfl, trivial, ?_, ?_⟩
    · intro heq
      cases heq
    · intro env config heq
      cases heq

theorem Inv.systemStep (hcodec : codec.RoundTrips) (h : p.Inv) {step : Step}
    {flushed : Except String Unit} (hadmissible : (ProcessStep.system step flushed).Admissible)
    (hkept : p.Kept (.system step flushed))
    (hstep : p.systemStep codec step flushed = some next) : next.Inv := by
  unfold Process.systemStep at hstep
  obtain ⟨system, hsystem, hrest⟩ := Option.bind_eq_some_iff.mp hstep
  obtain ⟨db, hdb, rfl⟩ := Option.map_eq_some_iff.mp hrest
  have hinv := System.inv_runs h.runs
  have hstored := h.stored_after hcodec hkept hdb
  cases step with
  | engine step =>
    have hadmissible : (Step.engine step).Admissible := trivial
    have htimely : p.system.Timely (.engine step) := by
      cases step with
      | setLimit => exact fun _ _ _ _ hset => h.active.timely hset
      | _ => trivial
    have hruns := PortsBox.Runs.step h.runs hadmissible htimely hsystem
    obtain ⟨-, hmain, hlive, -⟩ := System.engineStep_frame hsystem
    refine ⟨hruns, ?_, ?_, hstored⟩
    · unfold System.Active
      dsimp only
      rw [hmain, hlive]
      exact h.active
    · refine h.floors.engineStep ?_ hsystem
      rintro rfl
      exact hkept
  | traffic step =>
    have htimely : p.system.Timely (.traffic step) := by
      cases step with
      | tryConsumeAt id n direction hour => exact hkept
      | rollOverAt id hour => trivial
    have hadmissible : (Step.traffic step).Admissible := trivial
    have hruns := PortsBox.Runs.step h.runs hadmissible htimely hsystem
    obtain rfl := Option.some.inj hsystem
    refine ⟨hruns, ?_, h.floors.trafficStep htimely, hstored⟩
    cases step <;> exact h.active
  | main step =>
    have hconfigured : ∀ env config, step = .start env config → RemoteConfigured config := by
      rintro env config rfl
      exact hadmissible
    obtain ⟨asked, hask, haccepted, hadopt, hconfig⟩ := ask_main p.db hconfigured
    rw [hask] at hsystem
    have htimely : p.system.Timely (.main asked) := trivial
    have hruns := PortsBox.Runs.step h.runs haccepted htimely hsystem
    have hmain : p.system.mainStep asked = some system := hsystem
    have hactive : system.Active := h.active.mainStep hconfig hmain
    have hfloors : system.Floors := by
      refine h.floors.mainStep hinv ?_ hmain
      intro heq
      obtain rfl := hadopt heq
      exact hkept
    exact ⟨hruns, hactive, hfloors, hstored⟩

theorem Inv.step (hcodec : codec.RoundTrips) (h : p.Inv) {step : ProcessStep}
    (hadmissible : step.Admissible) (hkept : p.Kept step) (hstep : p.step codec step = some next) :
    next.Inv := by
  cases step with
  | system step flushed => exact h.systemStep hcodec hadmissible hkept hstep
  | flush tx =>
    obtain rfl := Option.some.inj hstep
    exact ⟨h.runs, h.active, h.floors, h.stored.flush tx _⟩
  | restart env config => exact inv_start hadmissible h.stored hkept hstep

end Steps

theorem inv_runs (hcodec : codec.RoundTrips) {p : Process codec.Text} (h : Runs codec Kept p) :
    p.Inv := by
  induction h with
  | @started db quotas env config p hdb hconfig hstart =>
    refine inv_start hconfig ?_ ?_ hstart
    · intro opened text hopened hbook
      rw [hdb opened hopened] at hbook
      cases hbook
    · intro engine hload user _ baseline hbaseline
      rw [load_first hdb hload] at hbaseline
      cases hbaseline
  | step _ hadmissible hkept hstep ih => exact ih.step hcodec hadmissible hkept hstep

end Process

/-- Every configured user that the book knows has used at least its baseline; what its limit
leaves is at most its balance, and just what `transfer` counts as spendable. -/
def System.SpendsWithinBalance (s : System) : Prop :=
  ∀ user ∈ s.live.users, ∀ baseline, s.book.baselines[user.name]? = some baseline →
    ∃ ref left, getUser s.world.runtime.users user.name = some ref ∧
      baseline ≤ (s.world.quotas ref.id).used ∧
      (s.world.quotas ref.id).remaining = some left ∧
      left ≤ (max (s.book.balances.getD user.name 0) 0).toNat ∧
      (left : Int) =
        max (s.book.spendable ⟨user.name, (s.world.quotas ref.id).used, some left⟩) 0

/-- In every run in which usage that is taken over bills its baseline and nothing overflows, a
quiet system lets no user spend more than the balance of the last sync. -/
theorem spends_within_balance {codec : BookCodec} (hcodec : codec.RoundTrips)
    {p : Process codec.Text} (h : Process.Runs codec Process.Kept p) (hquiet : p.system.Quiet)
    (hmigrated : p.system.book.migrated = true) : p.system.SpendsWithinBalance := by
  have hinv := Process.inv_runs hcodec h
  intro user huser baseline hbaseline
  obtain ⟨ref, hfound, hfollows⟩ := limits_follow_live hinv.runs hquiet user huser
  obtain ⟨hmem, hname⟩ := getUser_name hfound
  have hfloor : baseline ≤ (p.system.world.quotas ref.id).used := by
    apply hinv.floors.published ref hmem p.system.book (System.book_mem_books _)
    rw [hname]
    exact hbaseline
  obtain ⟨limit, hlimit⟩ : ∃ limit, p.system.book.limit user.name = some limit := by
    unfold Book.limit
    rw [hbaseline]
    exact ⟨_, rfl⟩
  have hbound := hinv.floors.plain.limits user.name limit hlimit
  have hset : (p.system.world.quotas ref.id).limit = some limit := by
    unfold LimitFollows at hfollows
    rw [if_pos ⟨hinv.active.1, hmigrated⟩, hlimit] at hfollows
    exact hfollows.trans (storedLimit_of_ne (by simpa using hbound.ne))
  have hleft : (p.system.world.quotas ref.id).remaining =
      some (limit - (p.system.world.quotas ref.id).used) := by
    unfold UserQuota.remaining
    rw [hset]
    rfl
  obtain ⟨hbalance, hspendable⟩ := Book.left_eq_spendable hbaseline hlimit hbound
    hinv.floors.plain.balances hfloor (some (limit - (p.system.world.quotas ref.id).used))
  exact ⟨ref, _, hfound, hfloor, hleft, hbalance, hspendable⟩

/-! ## Runs that keep the condition, and runs that do not -/

namespace Process

variable {codec : BookCodec}

/-- The rows that a user called `name` is set up with bill its baseline in every book. -/
def enough (books : List Book) (name : String) (saved : SavedUsage) (metering : Metering) : Bool :=
  books.all fun book => (book.baselines[name]?).all (· ≤ saved.billedUnder metering)

/-- `Kept`, computed. -/
def keeps (p : Process codec.Text) : ProcessStep → Bool
  | .system (.main .adopt) _ =>
    match p.system.main with
    | .adopting _ _ settings _ _ _ (user :: _) =>
      enough p.system.books user.name (p.system.takenOver settings user.name) settings.metering
    | _ => true
  | .restart _ config =>
    match Engine.load codec p.db with
    | .ok engine => config.users.all fun user =>
        enough [engine.book] user.name (((savedUsage p.db)[user.name]?).getD {})
          config.accounting.metering
    | .error _ => true
  | .system (.engine (.saved true)) _ =>
    match p.system.engine with
    | .saving _ book => book.limits.toList.all fun row => row.2 < noLimit
    | _ => true
  | .system (.traffic (.tryConsumeAt id n _ _)) _ =>
    let quota := p.system.world.quotas id
    quota.settled + quota.hourUpload + quota.hourDownload + n < 2 ^ 64
  | _ => true

theorem enough_iff {books : List Book} {name : String} {saved : SavedUsage} {metering : Metering} :
    enough books name saved metering = true ↔ ∀ book ∈ books, ∀ baseline,
      book.baselines[name]? = some baseline → baseline ≤ saved.billedUnder metering := by
  simp [enough, Option.all_eq_true]

theorem kept_of_keeps {p : Process codec.Text} {step : ProcessStep} (h : p.keeps step = true) :
    p.Kept step := by
  unfold keeps at h
  split at h
  · intro env config settings removed added done user todo hmain
    rw [hmain] at h
    exact enough_iff.mp h
  · intro engine hload user huser baseline hbaseline
    rw [hload] at h
    exact enough_iff.mp (List.all_eq_true.mp h user huser) engine.book
      (List.mem_singleton.mpr rfl) baseline hbaseline
  · intro config book hengine name limit hlimit
    rw [hengine] at h
    have hrow : (name, limit) ∈ book.limits.toList := by
      rw [Std.ExtTreeMap.mem_toList_iff_getElem?_eq_some, System.limits_lookup]
      exact hlimit
    exact of_decide_eq_true (List.all_eq_true.mp h _ hrow)
  · simp only [decide_eq_true_eq] at h
    exact h
  · rename_i hadopt hrestart hsaved hconsume
    unfold Kept
    split
    · exact absurd rfl (hadopt _)
    · exact absurd rfl (hrestart _ _)
    · exact absurd rfl (hsaved _)
    · exact absurd rfl (hconsume _ _ _ _ _)
    · trivial

/-- Steps in a row, as long as each keeps the condition. -/
def keptSteps (p : Process codec.Text) : List ProcessStep → Option (Process codec.Text)
  | [] => some p
  | step :: rest =>
    if p.keeps step then (p.step codec step).bind fun next => next.keptSteps rest else none

theorem runs_keptSteps {p next : Process codec.Text} {run : List ProcessStep}
    (h : Runs codec Kept p) (hadmissible : ∀ step ∈ run, step.Admissible)
    (hrun : p.keptSteps run = some next) : Runs codec Kept next := by
  induction run generalizing p with
  | nil =>
    obtain rfl := Option.some.inj hrun
    exact h
  | cons step run ih =>
    unfold keptSteps at hrun
    split at hrun
    · rename_i hkeeps
      rcases Option.bind_eq_some_iff.mp hrun with ⟨middle, hstep, hrest⟩
      exact ih (h.step (hadmissible step List.mem_cons_self) (kept_of_keeps hkeeps) hstep)
        (fun other hother => hadmissible other (List.mem_cons_of_mem step hother)) hrest
    · cases hrun

theorem runs_steps {p next : Process codec.Text} {run : List ProcessStep}
    (h : Runs codec (fun _ _ => True) p) (hadmissible : ∀ step ∈ run, step.Admissible)
    (hrun : p.steps codec run = some next) : Runs codec (fun _ _ => True) next := by
  induction run generalizing p with
  | nil =>
    obtain rfl := Option.some.inj hrun
    exact h
  | cons step run ih =>
    rcases Option.bind_eq_some_iff.mp hrun with ⟨middle, hstep, hrest⟩
    exact ih (h.step (hadmissible step List.mem_cons_self) trivial hstep)
      (fun other hother => hadmissible other (List.mem_cons_of_mem step hother)) hrest

end Process

/-- `onlineConfig` with upload and download both billed. -/
def sumConfig : Config :=
  { onlineConfig with accounting := { onlineConfig.accounting with metering := .sum } }

/-- One package with this much left. -/
def listedWith (available : Nat) : Fetched where
  packages := [{
    id := "p"
    name := ""
    region := "r"
    total := 100
    available
    status := effectiveStatus
    expiry := "" }]
  ignored := []

def engineSteps (steps : List EngineStep) : List ProcessStep :=
  steps.map fun step => .system (.engine step) (.ok ())

/-- A sync with one user, up to the last limit. -/
def syncSteps (available : Nat) : List ProcessStep :=
  engineSteps [.sync, .fetched (.ok (listedWith available)) 0, .saved true, .setRemote,
    .borrowUsers, .setLimit, .setLimit]

/-- 30 bytes up and 20 down within the hour. -/
def meterSteps : List ProcessStep :=
  [.system (.traffic (.tryConsumeAt 0 30 .upload 0)) (.ok ()),
    .system (.traffic (.tryConsumeAt 0 20 .download 0)) (.ok ())]

/-- A reload, and the engine's reaction to it. -/
def reloadSteps (config : Config) : List ProcessStep :=
  [MainStep.start freePorts config, .adopt, .publishUsers, .publishLive].map
      (fun step => .system (.main step) (.ok ())) ++
    engineSteps [.liveChanged, .readLive, .setRemote, .borrowUsers, .setLimit, .setLimit]

/-- The first process, on a new database. -/
def firstProcess : Option (Process plainCodec.Text) :=
  Process.start plainCodec (some {}) (fun _ => idleQuota) freePorts sumConfig

/-- What is looked at in the last state, for the user of the first quota. -/
structure Summary where
  quiet : Bool
  migrated : Bool
  configured : List String
  published : List QuotaRef
  used : Nat
  baseline : Option Nat
  remaining : Option Nat
  deriving DecidableEq, Repr

def Process.summary (p : Process plainCodec.Text) : Summary where
  quiet :=
    match p.system.main, p.system.engine with
    | .idle, .idle => p.system.seen
    | _, _ => false
  migrated := p.system.book.migrated
  configured := p.system.live.users.map UserConfig.name
  published := p.system.world.runtime.users
  used := (p.system.world.quotas 0).used
  baseline := p.system.book.baselines["a"]?
  remaining := (p.system.world.quotas 0).remaining

/-- The second sync puts the baseline at 50; a reload that bills by the larger direction then
reads 30. -/
theorem reload_ends :
    (firstProcess.bind fun p => (p.steps plainCodec (syncSteps 100 ++ meterSteps ++ syncSteps 50 ++
      reloadSteps onlineConfig)).map Process.summary) =
      some ⟨true, true, ["a"], [⟨0, "a"⟩], 30, some 50, some 70⟩ := by
  decide +kernel

/-- The same after a crash before the usage is flushed. -/
theorem crash_ends :
    (firstProcess.bind fun p => (p.steps plainCodec (syncSteps 100 ++ meterSteps ++ syncSteps 50 ++
      [.restart freePorts sumConfig])).map Process.summary) =
      some ⟨true, true, ["a"], [⟨0, "a"⟩], 0, some 50, some 100⟩ := by
  decide +kernel

/-- With a flush before it, a restart takes over what the baseline stands for. -/
theorem flushed_ends :
    (firstProcess.bind fun p => (p.keptSteps (syncSteps 100 ++ meterSteps ++ syncSteps 50 ++
      [.flush (.ok ()), .restart freePorts sumConfig] ++ reloadSteps sumConfig)).map
        Process.summary) =
      some ⟨true, true, ["a"], [⟨0, "a"⟩], 50, some 50, some 50⟩ := by
  decide +kernel

theorem sumConfig_remote : RemoteConfigured sumConfig :=
  ⟨⟨fun _ => true, sumConfig, rfl⟩, rfl⟩

theorem onlineConfig_remote : RemoteConfigured onlineConfig := ⟨onlineConfig_accepted, rfl⟩

theorem admissible_syncs : ∀ step ∈ syncSteps 100 ++ meterSteps ++ syncSteps 50,
    step.Admissible := by
  simp [syncSteps, meterSteps, engineSteps, ProcessStep.Admissible]

theorem admissible_reload {config : Config} (h : RemoteConfigured config) :
    ∀ step ∈ reloadSteps config, step.Admissible := by
  simpa [reloadSteps, engineSteps, ProcessStep.Admissible] using h

/-- A last state that looks like this is quiet. -/
theorem Process.quiet_of_summary {p : Process plainCodec.Text}
    (h : p.summary.quiet = true) : p.system.Quiet := by
  unfold summary at h
  dsimp only at h
  split at h
  · exact ⟨by assumption, by assumption, h⟩
  · cases h

/-- The first process starts a run. -/
theorem runs_firstProcess {allowed : Process plainCodec.Text → ProcessStep → Prop}
    {p : Process plainCodec.Text} (h : firstProcess = some p) :
    Process.Runs plainCodec allowed p := by
  refine Process.Runs.started ?_ sumConfig_remote h
  intro opened hopened
  obtain rfl := Option.some.inj hopened
  rfl

/-- A run that ends with a usage below the baseline breaks the bound. -/
theorem overspends_of_run {run : List ProcessStep} {used baseline : Nat} {remaining : Option Nat}
    (hadmissible : ∀ step ∈ run, step.Admissible)
    (hends : (firstProcess.bind fun p => (p.steps plainCodec run).map Process.summary) =
      some ⟨true, true, ["a"], [⟨0, "a"⟩], used, some baseline, remaining⟩)
    (hlt : used < baseline) :
    ∃ p : Process plainCodec.Text, Process.Runs plainCodec (fun _ _ => True) p ∧
      p.system.Quiet ∧ p.system.book.migrated = true ∧ ¬p.system.SpendsWithinBalance := by
  obtain ⟨first, hfirst, hmap⟩ := Option.bind_eq_some_iff.mp hends
  obtain ⟨last, hrun, hlast⟩ := Option.map_eq_some_iff.mp hmap
  have hquiet : last.system.Quiet := Process.quiet_of_summary (by rw [hlast])
  obtain ⟨-, hmigrated, hconfigured, hpublished, hused, hbaseline, -⟩ := Summary.mk.inj hlast
  refine ⟨last, Process.runs_steps (runs_firstProcess hfirst) hadmissible hrun, hquiet,
    hmigrated, ?_⟩
  intro hspends
  obtain ⟨user, huser, hname⟩ := List.mem_map.mp
    (hconfigured ▸ List.mem_singleton.mpr rfl : "a" ∈ last.system.live.users.map UserConfig.name)
  obtain ⟨ref, left, hfound, hfloor, -⟩ := hspends user huser baseline (hname ▸ hbaseline)
  rw [hpublished, hname] at hfound
  obtain rfl : (⟨0, "a"⟩ : QuotaRef) = ref := Option.some.inj hfound
  rw [hused] at hfloor
  omega

/-- The limit leaves 70 bytes of a balance of 50. -/
theorem spends_over_balance :
    ∃ p : Process plainCodec.Text, Process.Runs plainCodec (fun _ _ => True) p ∧
      p.system.Quiet ∧ p.system.book.migrated = true ∧ ¬p.system.SpendsWithinBalance := by
  refine overspends_of_run ?_ reload_ends (by decide)
  intro step hstep
  rcases List.mem_append.mp hstep with hsync | hreload
  · exact admissible_syncs step hsync
  · exact admissible_reload onlineConfig_remote step hreload

/-- The same after a crash: the saved baseline counts from usage that was never flushed. -/
theorem spends_over_balance_after_crash :
    ∃ p : Process plainCodec.Text, Process.Runs plainCodec (fun _ _ => True) p ∧
      p.system.Quiet ∧ p.system.book.migrated = true ∧ ¬p.system.SpendsWithinBalance := by
  refine overspends_of_run ?_ crash_ends (by decide)
  intro step hstep
  rcases List.mem_append.mp hstep with hsync | hrestart
  · exact admissible_syncs step hsync
  · obtain rfl := List.mem_singleton.mp hrestart
    exact sumConfig_remote

/-- With the flush, the run keeps the condition and the bound holds at its end. -/
theorem spends_within_balance_flushed :
    ∃ p : Process plainCodec.Text, p.system.Quiet ∧ p.system.book.migrated = true ∧
      p.system.book.baselines["a"]? = some 50 ∧ p.system.SpendsWithinBalance := by
  obtain ⟨first, hfirst, hmap⟩ := Option.bind_eq_some_iff.mp flushed_ends
  obtain ⟨last, hrun, hlast⟩ := Option.map_eq_some_iff.mp hmap
  have hadmissible : ∀ step ∈ syncSteps 100 ++ meterSteps ++ syncSteps 50 ++
      [.flush (.ok ()), .restart freePorts sumConfig] ++ reloadSteps sumConfig,
      step.Admissible := by
    intro step hstep
    rcases List.mem_append.mp hstep with hbefore | hreload
    · rcases List.mem_append.mp hbefore with hsync | hrestart
      · exact admissible_syncs step hsync
      · rcases List.mem_cons.mp hrestart with rfl | hrestart
        · trivial
        · obtain rfl := List.mem_singleton.mp hrestart
          exact sumConfig_remote
    · exact admissible_reload sumConfig_remote step hreload
  have hquiet : last.system.Quiet := Process.quiet_of_summary (by rw [hlast])
  obtain ⟨-, hmigrated, -, -, -, hbaseline, -⟩ := Summary.mk.inj hlast
  have hruns := Process.runs_keptSteps (runs_firstProcess hfirst) hadmissible hrun
  exact ⟨last, hquiet, hmigrated, hbaseline,
    spends_within_balance plainCodec_roundTrips hruns hquiet hmigrated⟩

end PortsBox
