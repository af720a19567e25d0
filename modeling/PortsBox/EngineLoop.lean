import PortsBox.EngineCommit

/-!
# The engine's loop

`run` waits for the next sync to be due, for a new `Live` and for commands of the panel, and
serves one of them at a time. While a call runs, time passes, configs are published and
commands arrive. The status that the panel reads is the current ledger between any two
calls, commands are answered in the order they were sent, and a sync stays scheduled
as the config says, unless a config that would reschedule it is replaced before the loop
has seen it. Instants are in milliseconds.
-/

set_option autoImplicit false

namespace PortsBox

/-- `RETRY`, in seconds. -/
def retrySecs : Nat := 60

/-- What the panel reads. -/
structure Status where
  mode : Mode
  provider : Option Provider
  regions : List String
  migrated : Bool
  lastAttempt : Option Int
  lastError : Option EngineError
  syncedAt : Option Int
  remaining : Nat
  unallocated : Int
  consumed : Nat
  metered : Nat
  balances : BTreeMap Int
  packages : List PackageRecord
  ignored : List Package
  entries : List Entry

/-- The status that `publish` sends. -/
def Engine.status {Text : Type} (engine : Engine Text) (config : Config) : Status where
  mode := config.accounting.mode
  provider := config.accounting.remote.map (·.provider)
  regions := config.accounting.remote.elim [] (·.regions)
  migrated := engine.book.migrated
  lastAttempt := engine.lastAttempt
  lastError := engine.lastError
  syncedAt := if engine.book.migrated then some engine.book.syncedAt else none
  remaining := engine.book.remaining
  unallocated := engine.book.unallocated
  consumed := engine.book.consumed
  metered := engine.book.metered
  balances := engine.book.balances
  packages := engine.book.packages.values
  ignored := engine.ignored
  entries := engine.entries.reverse

/-- The part of a config that reschedules the sync when it changes. -/
structure WatchedConfig where
  accounting : Accounting
  singleUser : Bool
  owners : List (String × List String)
  deriving DecidableEq, Repr

/-- `Watched::of` -/
def WatchedConfig.of (config : Config) : WatchedConfig where
  accounting := config.accounting
  singleUser := config.singleUser
  owners := config.users.map fun user => (user.name, user.packages)

/-- What else happens while a call runs. -/
structure Busy where
  env : Surroundings
  took : Nat
  published : List Config
  sent : List EngineCall

/-- The loop between two calls. `queue` has the commands sent and not received yet, with those
that wait for room in the channel, and `answered` the ones that were replied to. -/
structure EngineLoop (Text : Type) where
  accounts : Accounts Text
  status : Status
  watched : WatchedConfig
  next : Option Nat
  live : Config
  seen : Bool
  now : Nat
  queue : List EngineCall
  answered : List (EngineCall × Except EngineError Unit)

inductive LoopStep where
  | pass (span : Nat)
  | others (meanwhile : Meanwhile)
  | publishLive (config : Config)
  | send (call : EngineCall)
  /-- The arms of the `select!`. -/
  | due (busy : Busy)
  | liveChanged
  | command (busy : Busy)

/-- The commands that a step sends. -/
def LoopStep.sends : LoopStep → List EngineCall
  | .send call => [call]
  | .due busy | .command busy => busy.sent
  | _ => []

namespace EngineLoop

/-- What `run` starts with. -/
def start {Text : Type} (accounts : Accounts Text) (config : Config) (now : Nat) :
    EngineLoop Text where
  accounts
  status := accounts.engine.status config
  watched := .of config
  next := config.accounting.activeRemote.map fun _ => now
  live := config
  seen := true
  now
  queue := []
  answered := []

section Loop
variable {Text : Type}

def replaceLive (s : EngineLoop Text) (config : Config) : EngineLoop Text :=
  { s with live := config, seen := false }

def meanwhile (s : EngineLoop Text) (busy : Busy) : EngineLoop Text :=
  let s := busy.published.foldl replaceLive s
  { s with now := s.now + busy.took, queue := s.queue ++ busy.sent }

/-- `publish` reads the config that is live then. -/
def publish (s : EngineLoop Text) : EngineLoop Text :=
  { s with status := s.accounts.engine.status s.live }

/-- How long to wait after a sync. -/
def waitSecs (remote : RemoteConfig) : Except EngineError Unit → Nat
  | .ok () => remote.intervalSecs
  | .error _ => min retrySecs remote.intervalSecs

def nextSync (s : EngineLoop Text) (result : Except EngineError Unit) : Option Nat :=
  s.live.accounting.activeRemote.map fun remote => s.now + 1000 * waitSecs remote result

end Loop

variable (codec : BookCodec)

/-- A call with what happens meanwhile: a sync always publishes and reschedules, a manual
operation publishes when it succeeds. -/
def runCall (s : EngineLoop codec.Text) (busy : Busy) (call : EngineCall) :
    EngineLoop codec.Text × Except EngineError Unit :=
  let (engine, world, result) := s.accounts.call codec busy.env s.live call
  let s := { s with accounts := ⟨engine, world⟩ }.meanwhile busy
  match call, result with
  | .sync, result => ({ s.publish with next := s.nextSync result }, result)
  | _, .ok () => (s.publish, .ok ())
  | _, .error e => (s, .error e)

def step (s : EngineLoop codec.Text) : LoopStep → Option (EngineLoop codec.Text)
  | .pass span =>
    if ∀ due ∈ s.next, s.now + span ≤ due then some { s with now := s.now + span } else none
  | .others meanwhile =>
    some { s with accounts := ⟨s.accounts.engine, meanwhile.run s.accounts.world⟩ }
  | .publishLive config => some (s.replaceLive config)
  | .send call => some { s with queue := s.queue ++ [call] }
  | .due busy =>
    match s.next with
    | some due => if due ≤ s.now then some (s.runCall codec busy .sync).1 else none
    | none => none
  | .liveChanged =>
    if s.seen then none
    else
      let now := WatchedConfig.of s.live
      let s := { s with seen := true }
      let s :=
        if now ≠ s.watched then
          { s with
            watched := now
            next := s.live.accounting.activeRemote.map fun _ => s.now }
        else s
      let engine := s.accounts.engine
      some { s with accounts := ⟨engine, engine.applyLimits s.live s.accounts.world⟩ }.publish
  | .command busy =>
    match s.queue with
    | call :: queue =>
      let (s, result) := { s with queue }.runCall codec busy call
      some { s with answered := s.answered ++ [(call, result)] }
    | [] => none

/-- A run all of whose steps are admitted. -/
inductive Runs (Admits : EngineLoop codec.Text → LoopStep → Prop) :
    EngineLoop codec.Text → List LoopStep → EngineLoop codec.Text → Prop where
  | nil (s : EngineLoop codec.Text) : Runs Admits s [] s
  | cons {s next last : EngineLoop codec.Text} {step : LoopStep} {run : List LoopStep} :
      Admits s step → s.step codec step = some next → Runs Admits next run last →
        Runs Admits s (step :: run) last

/-! ## What a call leaves -/

section Calls
variable {codec}
variable {s after next : EngineLoop codec.Text} {busy : Busy} {call : EngineCall}
variable {result : Except EngineError Unit}

/-- The error that a result leaves in `last_error`. -/
def errorOf : Except EngineError Unit → Option EngineError
  | .ok () => none
  | .error e => some e

theorem lastError_settle (env : Surroundings) (engine : Engine codec.Text) (w : World)
    (config : Config) (book : Book) (entries : List Entry) :
    (engine.settle codec env w config book entries).1.lastError = engine.lastError := by
  rcases engine.commit_cases env.save book entries with ⟨e, hcommit⟩ | ⟨-, hcommit⟩ |
      ⟨db, json, -, -, hcommit⟩
  all_goals
    simp only [Engine.settle, hcommit]
    try rfl

/-- A sync keeps its error, a manual operation leaves the last one. -/
theorem lastError_call {env : Surroundings} {config : Config} {engine : Engine codec.Text}
    {w : World} (h : s.accounts.call codec env config call = (engine, w, result)) :
    engine.lastError = if call = .sync then errorOf result else s.accounts.engine.lastError := by
  have hmanual : ∀ answer, s.accounts.engine.manual codec env s.accounts.world config answer =
      (engine, w, result) → engine.lastError = s.accounts.engine.lastError := by
    rintro ⟨book, answer⟩ hanswer
    cases answer with
    | error e => exact congrArg (·.1.lastError) hanswer.symm
    | ok entries =>
      have hsettle := lastError_settle env s.accounts.engine s.accounts.world config book entries
      rw [← hsettle]
      exact congrArg (·.1.lastError) hanswer.symm
  have hnoted : ∀ out : Engine codec.Text × World × Except EngineError Unit,
      Engine.noted out = (engine, w, result) → engine.lastError = errorOf result := by
    rintro ⟨before, w', answer⟩ hout
    cases answer with
    | ok _ =>
      obtain ⟨rfl, hrest⟩ := Prod.mk.inj hout
      obtain ⟨-, rfl⟩ := Prod.mk.inj hrest
      rfl
    | error e =>
      obtain ⟨rfl, hrest⟩ := Prod.mk.inj hout
      obtain ⟨-, rfl⟩ := Prod.mk.inj hrest
      rfl
  cases call with
  | sync =>
    rw [if_pos rfl]
    have hsync : s.accounts.engine.sync codec env s.accounts.world config =
      (engine, w, result) := h
    rw [Engine.sync] at hsync
    split at hsync
    · exact hnoted _ hsync
    · exact hnoted _ hsync
  | transfer sender receiver amount =>
    rw [if_neg (by simp)]
    exact hmanual _ h
  | allocate receiver amount =>
    rw [if_neg (by simp)]
    exact hmanual _ h

theorem foldl_replaceLive (published : List Config) (s : EngineLoop codec.Text) :
    published.foldl replaceLive s =
      { s with
        live := published.getLast?.getD s.live
        seen := s.seen && published.isEmpty } := by
  induction published generalizing s with
  | nil => simp
  | cons config published ih =>
    rw [List.foldl_cons, ih, List.getLast?_cons]
    simp [replaceLive]

/-- A manual operation that is refused leaves the engine as it was. -/
theorem engine_of_error {env : Surroundings} {config : Config} {engine : Engine codec.Text}
    {w : World} {e : EngineError} (hcall : call ≠ .sync)
    (h : s.accounts.call codec env config call = (engine, w, .error e)) :
    engine = s.accounts.engine := by
  have hmanual : ∀ answer, s.accounts.engine.manual codec env s.accounts.world config answer =
      (engine, w, .error e) → engine = s.accounts.engine := by
    intro answer hanswer
    rcases s.accounts.engine.manual_cases env s.accounts.world config answer with
      ⟨e', w', hends, -⟩ | ⟨changed, batch, after, w', -, -, -, hends⟩
    · rw [hends] at hanswer
      exact (congrArg Prod.fst hanswer).symm
    · rw [hends] at hanswer
      cases hanswer
  cases call with
  | sync => exact absurd rfl hcall
  | transfer sender receiver amount => exact hmanual _ h
  | allocate receiver amount => exact hmanual _ h

/-- What a call leaves of the loop. -/
structure Called (s : EngineLoop codec.Text) (busy : Busy) (call : EngineCall)
    (after : EngineLoop codec.Text) (result : Except EngineError Unit) : Prop where
  accounts : s.accounts.call codec busy.env s.live call =
    (after.accounts.engine, after.accounts.world, result)
  watched : after.watched = s.watched
  live : after.live = busy.published.getLast?.getD s.live
  seen : after.seen = (s.seen && busy.published.isEmpty)
  now : after.now = s.now + busy.took
  queue : after.queue = s.queue ++ busy.sent
  answered : after.answered = s.answered
  status : after.status = after.accounts.engine.status after.live ∨
    after.status = s.status ∧ after.accounts.engine = s.accounts.engine
  next : after.next = (if call = .sync then after.nextSync result else s.next)
  lastError : after.accounts.engine.lastError =
    (if call = .sync then errorOf result else s.accounts.engine.lastError)

theorem called_runCall (h : s.runCall codec busy call = (after, result)) :
    s.Called busy call after result := by
  unfold runCall at h
  cases hcall : s.accounts.call codec busy.env s.live call with
  | mk engine rest =>
    obtain ⟨world, answer⟩ := rest
    rw [hcall] at h
    simp only [meanwhile, foldl_replaceLive] at h
    have hdone : ∀ status next, (⟨⟨engine, world⟩, status, s.watched, next,
          busy.published.getLast?.getD s.live, s.seen && busy.published.isEmpty,
          s.now + busy.took, s.queue ++ busy.sent, s.answered⟩, answer) = (after, result) →
        (status = engine.status (busy.published.getLast?.getD s.live) ∨
          status = s.status ∧ engine = s.accounts.engine) →
        (next = if call = .sync then after.nextSync result else s.next) →
        s.Called busy call after result := by
      intro status next heq hstatus hnext
      obtain ⟨rfl, rfl⟩ := Prod.mk.inj heq
      exact ⟨hcall, rfl, rfl, rfl, rfl, rfl, rfl, hstatus, hnext, lastError_call hcall⟩
    cases call with
    | sync =>
      refine hdone _ _ h (.inl rfl) ?_
      obtain ⟨rfl, rfl⟩ := Prod.mk.inj h
      rfl
    | transfer sender receiver amount =>
      cases answer with
      | ok _ => exact hdone _ _ h (.inl rfl) rfl
      | error e => exact hdone _ _ h (.inr ⟨rfl, engine_of_error (by simp) hcall⟩) rfl
    | allocate receiver amount =>
      cases answer with
      | ok _ => exact hdone _ _ h (.inl rfl) rfl
      | error e => exact hdone _ _ h (.inr ⟨rfl, engine_of_error (by simp) hcall⟩) rfl

theorem due_eq (h : s.step codec (.due busy) = some next) :
    (∃ due, s.next = some due ∧ due ≤ s.now) ∧ ∃ result, s.Called busy .sync next result := by
  simp only [step] at h
  split at h
  · rename_i due hdue
    obtain ⟨hle, heq⟩ := Option.ite_none_right_eq_some.mp h
    obtain rfl := Option.some.inj heq
    exact ⟨⟨due, hdue, hle⟩, _, called_runCall rfl⟩
  · cases h

theorem command_eq (h : s.step codec (.command busy) = some next) :
    ∃ call queue after result, s.queue = call :: queue ∧
      Called { s with queue } busy call after result ∧
      next = { after with answered := after.answered ++ [(call, result)] } := by
  simp only [step] at h
  split at h
  · rename_i call queue hqueue
    obtain rfl := Option.some.inj h
    exact ⟨call, queue, _, _, hqueue, called_runCall rfl, rfl⟩
  · cases h

/-- What a new `Live` leaves of the loop. -/
structure Noticed (s after : EngineLoop codec.Text) : Prop where
  unseen : s.seen = false
  accounts : after.accounts =
    ⟨s.accounts.engine, s.accounts.engine.applyLimits s.live s.accounts.world⟩
  status : after.status = s.accounts.engine.status s.live
  watched : after.watched = .of s.live
  next : after.next = if WatchedConfig.of s.live = s.watched then s.next
    else s.live.accounting.activeRemote.map fun _ => s.now
  live : after.live = s.live
  seen : after.seen = true
  now : after.now = s.now
  queue : after.queue = s.queue
  answered : after.answered = s.answered

theorem noticed_liveChanged (h : s.step codec .liveChanged = some next) : s.Noticed next := by
  obtain ⟨hunseen, heq⟩ := Option.ite_none_left_eq_some.mp h
  obtain rfl := Option.some.inj heq
  have hoff : s.seen = false := by simpa using hunseen
  by_cases hsame : WatchedConfig.of s.live = s.watched
  · refine ⟨hoff, ?_, ?_, ?_, ?_, ?_, ?_, ?_, ?_, ?_⟩ <;> simp [publish, hsame]
  · refine ⟨hoff, ?_, ?_, ?_, ?_, ?_, ?_, ?_, ?_, ?_⟩ <;> simp [publish, hsame]

end Calls

/-! ## The status -/

section Status
variable {codec}
variable {s after next : EngineLoop codec.Text} {busy : Busy} {call : EngineCall}
variable {result : Except EngineError Unit}

/-- The status is that of the engine, and of the live config once the loop has seen it. -/
structure Current (s : EngineLoop codec.Text) : Prop where
  agree : s.accounts.Agree
  status : ∃ config, s.status = s.accounts.engine.status config ∧
    (s.seen = true → config = s.live)

theorem Current.called (hcodec : codec.RoundTrips) (h : s.Current)
    (hcalled : s.Called busy call after result) : after.Current := by
  refine ⟨h.agree.call hcodec hcalled.accounts, ?_⟩
  rcases hcalled.status with hstatus | ⟨hstatus, hengine⟩
  · exact ⟨after.live, hstatus, fun _ => rfl⟩
  · obtain ⟨config, hconfig, hlive⟩ := h.status
    refine ⟨config, ?_, ?_⟩
    · rw [hstatus, hengine]
      exact hconfig
    · intro hseen
      rw [hcalled.seen, Bool.and_eq_true, List.isEmpty_iff] at hseen
      rw [hcalled.live, hseen.2]
      exact hlive hseen.1

theorem Current.step (hcodec : codec.RoundTrips) (h : s.Current) {step : LoopStep}
    (hstep : s.step codec step = some next) : next.Current := by
  cases step with
  | pass span =>
    obtain ⟨-, heq⟩ := Option.ite_none_right_eq_some.mp hstep
    obtain rfl := Option.some.inj heq
    exact ⟨h.agree, h.status⟩
  | others meanwhile =>
    obtain rfl := Option.some.inj hstep
    exact ⟨⟨(meanwhile.run_remote _).trans h.agree.remote, h.agree.stored⟩, h.status⟩
  | publishLive config =>
    obtain rfl := Option.some.inj hstep
    obtain ⟨shown, hshown, -⟩ := h.status
    refine ⟨h.agree, shown, hshown, ?_⟩
    intro hseen
    cases hseen
  | send call =>
    obtain rfl := Option.some.inj hstep
    exact ⟨h.agree, h.status⟩
  | due busy =>
    obtain ⟨-, result, hcalled⟩ := due_eq hstep
    exact h.called hcodec hcalled
  | liveChanged =>
    have hnoticed := noticed_liveChanged hstep
    have hremote := Accounts.applied_remote s.accounts.engine s.live (.inl h.agree.remote)
    constructor
    · rw [hnoticed.accounts]
      exact ⟨hremote, h.agree.stored⟩
    · refine ⟨s.live, ?_, fun _ => hnoticed.live.symm⟩
      rw [hnoticed.status, hnoticed.accounts]
  | command busy =>
    obtain ⟨call, queue, after, result, -, hcalled, rfl⟩ := command_eq hstep
    have hpopped : Current { s with queue } := ⟨h.agree, h.status⟩
    have hafter := hpopped.called hcodec hcalled
    exact ⟨hafter.agree, hafter.status⟩

/-- Every command sent is either answered or queued, in the order they were sent. -/
theorem queue_step {step : LoopStep} (hstep : s.step codec step = some next) :
    next.answered.map (·.1) ++ next.queue = s.answered.map (·.1) ++ s.queue ++ step.sends := by
  cases step with
  | pass span =>
    obtain ⟨-, heq⟩ := Option.ite_none_right_eq_some.mp hstep
    obtain rfl := Option.some.inj heq
    exact (List.append_nil _).symm
  | others meanwhile =>
    obtain rfl := Option.some.inj hstep
    exact (List.append_nil _).symm
  | publishLive config =>
    obtain rfl := Option.some.inj hstep
    exact (List.append_nil _).symm
  | send call =>
    obtain rfl := Option.some.inj hstep
    exact (List.append_assoc ..).symm
  | due busy =>
    obtain ⟨-, result, hcalled⟩ := due_eq hstep
    rw [hcalled.answered, hcalled.queue]
    exact (List.append_assoc ..).symm
  | liveChanged =>
    have hnoticed := noticed_liveChanged hstep
    rw [hnoticed.answered, hnoticed.queue]
    exact (List.append_nil _).symm
  | command busy =>
    obtain ⟨call, queue, after, result, hqueue, hcalled, rfl⟩ := command_eq hstep
    simp only [hcalled.answered, hcalled.queue, hqueue, LoopStep.sends, List.map_append,
      List.map_cons, List.map_nil, List.append_assoc, List.cons_append, List.nil_append]

theorem queue_runs {Admits : EngineLoop codec.Text → LoopStep → Prop} {run : List LoopStep}
    {last : EngineLoop codec.Text} (hrun : Runs codec Admits s run last) :
    last.answered.map (·.1) ++ last.queue =
      s.answered.map (·.1) ++ s.queue ++ run.flatMap LoopStep.sends := by
  induction hrun with
  | nil s => exact (List.append_nil _).symm
  | cons _ hstep _ ih =>
    rw [ih, queue_step hstep, List.flatMap_cons]
    exact List.append_assoc ..

theorem Current.runs (hcodec : codec.RoundTrips) {Admits : EngineLoop codec.Text → LoopStep → Prop}
    {run : List LoopStep} {last : EngineLoop codec.Text} (hrun : Runs codec Admits s run last)
    (h : s.Current) : last.Current := by
  induction hrun with
  | nil s => exact h
  | cons _ hstep _ ih => exact ih (h.step hcodec hstep)

end Status

variable {codec}

/-- In every run of the loop, at every point between two calls: the panel reads the status of the
engine as it is, and of the live config once the loop has seen it; a process that starts
on the database as it is shows the same, but for what only this process has met; and the
commands sent so far are the answered ones followed by the queued ones, in order. -/
theorem panel_current (hcodec : codec.RoundTrips) {accounts : Accounts codec.Text}
    (hreached : accounts.Reached codec) {config : Config} {now : Nat} {run : List LoopStep}
    {last : EngineLoop codec.Text}
    (hrun : Runs codec (fun _ _ => True) (start accounts config now) run last) :
    (∃ shown, last.status = last.accounts.engine.status shown ∧
      (last.seen = true → shown = last.live) ∧
      ∀ db, last.accounts.engine.db = some db → ∃ loaded, Engine.load codec (some db) = .ok loaded ∧
        last.status = { loaded.status shown with
          lastAttempt := last.status.lastAttempt
          lastError := last.status.lastError
          ignored := last.status.ignored }) ∧
    run.flatMap LoopStep.sends = last.answered.map (·.1) ++ last.queue := by
  have hstart : (start accounts config now).Current :=
    ⟨Accounts.agree_reached hcodec hreached, config, rfl, fun _ => rfl⟩
  have hlast := hstart.runs hcodec hrun
  obtain ⟨shown, hshown, hlive⟩ := hlast.status
  refine ⟨⟨shown, hshown, hlive, ?_⟩, (queue_runs hrun).symm⟩
  intro db hdb
  refine ⟨_, (hlast.agree.stored db hdb).load, ?_⟩
  rw [hshown]
  rfl

/-! ## The schedule -/

/-- The time to wait at most, after a sync with this error. -/
def waitAfter (remote : RemoteConfig) (lastError : Option EngineError) : Nat :=
  1000 * if lastError.isSome then min retrySecs remote.intervalSecs else remote.intervalSecs

/-- The next sync is scheduled as a config wants it. -/
def Fits (accounting : Accounting) (lastError : Option EngineError) (now : Nat)
    (next : Option Nat) : Prop :=
  match accounting.activeRemote with
  | none => next = none
  | some remote => ∃ due, next = some due ∧ due ≤ now + waitAfter remote lastError

/-- Every config that is replaced, but the last, is one that would not reschedule the sync. -/
def NothingMissed {Text : Type} (s : EngineLoop Text) (published : List Config) : Prop :=
  ∀ config ∈ (s.live :: published).dropLast, WatchedConfig.of config = s.watched

/-- No config that would reschedule the sync is replaced before the loop has seen it. -/
def Attentive (s : EngineLoop codec.Text) : LoopStep → Prop
  | .publishLive config => s.NothingMissed [config]
  | .due busy | .command busy => s.NothingMissed busy.published
  | _ => True

/-- The sync is scheduled as the config seen last wants it, or as a new one does. -/
structure Scheduled (s : EngineLoop codec.Text) : Prop where
  watched : s.seen = true → s.watched = .of s.live
  next : Fits s.watched.accounting s.accounts.engine.lastError s.now s.next ∨
    WatchedConfig.of s.live ≠ s.watched ∧
      Fits s.live.accounting s.accounts.engine.lastError s.now s.next

section Schedule
variable {s after next : EngineLoop codec.Text} {busy : Busy} {call : EngineCall}
variable {result : Except EngineError Unit}

theorem Fits.later {accounting : Accounting} {lastError : Option EngineError} {now later : Nat}
    {due : Option Nat} (h : Fits accounting lastError now due) (hle : now ≤ later) :
    Fits accounting lastError later due := by
  unfold Fits at h ⊢
  split
  · rename_i hnone
    rw [hnone] at h
    exact h
  · rename_i remote hsome
    rw [hsome] at h
    obtain ⟨at', hdue, hbound⟩ := h
    exact ⟨at', hdue, hbound.trans (Nat.add_le_add_right hle _)⟩

theorem fits_now (accounting : Accounting) (lastError : Option EngineError) (now : Nat) :
    Fits accounting lastError now (accounting.activeRemote.map fun _ => now) := by
  unfold Fits
  split
  · rename_i hnone
    rw [hnone]
    rfl
  · rename_i remote hsome
    rw [hsome]
    exact ⟨now, rfl, Nat.le_add_right _ _⟩

theorem fits_nextSync (s : EngineLoop codec.Text) (result : Except EngineError Unit) :
    Fits s.live.accounting (errorOf result) s.now (s.nextSync result) := by
  unfold Fits nextSync
  split
  · rename_i hnone
    rw [hnone]
    rfl
  · rename_i remote hsome
    rw [hsome]
    refine ⟨_, rfl, ?_⟩
    cases result <;> exact le_rfl

theorem Scheduled.called (h : s.Scheduled) (hmissed : s.NothingMissed busy.published)
    (hcalled : s.Called busy call after result) : after.Scheduled := by
  constructor
  · intro hseen
    rw [hcalled.seen, Bool.and_eq_true, List.isEmpty_iff] at hseen
    rw [hcalled.watched, hcalled.live, hseen.2]
    exact h.watched hseen.1
  · by_cases hsync : call = .sync
    · have hnext := hcalled.next
      have herror := hcalled.lastError
      rw [if_pos hsync] at hnext herror
      have hfits := fits_nextSync after result
      rw [hnext, herror]
      by_cases hsame : WatchedConfig.of after.live = after.watched
      · left
        rw [← hsame]
        exact hfits
      · exact Or.inr ⟨hsame, hfits⟩
    · have hnext := hcalled.next
      have herror := hcalled.lastError
      rw [if_neg hsync] at hnext herror
      have hle : s.now ≤ after.now := by
        rw [hcalled.now]
        exact Nat.le_add_right _ _
      rw [hnext, herror, hcalled.watched]
      rcases h.next with hfits | ⟨hother, hfits⟩
      · exact Or.inl (hfits.later hle)
      · right
        -- the live config has not been seen, so it is the last one published
        have hempty : busy.published = [] := by
          cases hpublished : busy.published with
          | nil => rfl
          | cons config rest =>
            rw [hpublished] at hmissed
            exact absurd (hmissed s.live (by simp)) hother
        have hlive : after.live = s.live := by
          rw [hcalled.live, hempty]
          rfl
        rw [hlive]
        exact ⟨hother, hfits.later hle⟩

theorem Scheduled.step (h : s.Scheduled) {step : LoopStep} (hadmits : s.Attentive step)
    (hstep : s.step codec step = some next) : next.Scheduled := by
  cases step with
  | pass span =>
    obtain ⟨-, heq⟩ := Option.ite_none_right_eq_some.mp hstep
    obtain rfl := Option.some.inj heq
    refine ⟨h.watched, ?_⟩
    rcases h.next with hfits | ⟨hother, hfits⟩
    · exact Or.inl (hfits.later (Nat.le_add_right _ _))
    · exact Or.inr ⟨hother, hfits.later (Nat.le_add_right _ _)⟩
  | others meanwhile =>
    obtain rfl := Option.some.inj hstep
    exact ⟨h.watched, h.next⟩
  | publishLive config =>
    obtain rfl := Option.some.inj hstep
    have hsame : WatchedConfig.of s.live = s.watched := hadmits s.live (by simp)
    constructor
    · intro hseen
      cases hseen
    · rcases h.next with hfits | ⟨hother, -⟩
      · exact Or.inl hfits
      · exact absurd hsame hother
  | send call =>
    obtain rfl := Option.some.inj hstep
    exact ⟨h.watched, h.next⟩
  | due busy =>
    obtain ⟨-, result, hcalled⟩ := due_eq hstep
    exact h.called hadmits hcalled
  | liveChanged =>
    have hnoticed := noticed_liveChanged hstep
    constructor
    · intro _
      rw [hnoticed.watched, hnoticed.live]
    · left
      rw [hnoticed.watched, hnoticed.accounts, hnoticed.now, hnoticed.next]
      by_cases hsame : WatchedConfig.of s.live = s.watched
      · rw [if_pos hsame]
        rcases h.next with hfits | ⟨hother, -⟩
        · rw [hsame]
          exact hfits
        · exact absurd hsame hother
      · rw [if_neg hsame]
        exact fits_now s.live.accounting _ s.now
  | command busy =>
    obtain ⟨call, queue, after, result, -, hcalled, rfl⟩ := command_eq hstep
    have hpopped : Scheduled { s with queue } := ⟨h.watched, h.next⟩
    have hafter := hpopped.called hadmits hcalled
    exact ⟨hafter.watched, hafter.next⟩

theorem Scheduled.runs {run : List LoopStep} {last : EngineLoop codec.Text}
    (hrun : Runs codec Attentive s run last) (h : s.Scheduled) : last.Scheduled := by
  induction hrun with
  | nil s => exact h
  | cons hadmits hstep _ ih => exact ih (h.step hadmits hstep)

end Schedule

/-- In every run of the loop in which no config that would reschedule the sync is replaced unseen:
once the loop has seen the live config, a sync is scheduled exactly where a remote is active, no
later than its interval from now, or than a minute where the last sync failed. -/
theorem sync_scheduled {accounts : Accounts codec.Text} {config : Config} {now : Nat}
    {run : List LoopStep} {last : EngineLoop codec.Text}
    (hrun : Runs codec Attentive (start accounts config now) run last) (hseen : last.seen = true) :
    Fits last.live.accounting last.accounts.engine.lastError last.now last.next := by
  have hstart : (start accounts config now).Scheduled :=
    ⟨fun _ => rfl, Or.inl (fits_now config.accounting _ now)⟩
  have hlast := hstart.runs hrun
  rcases hlast.next with hfits | ⟨hother, -⟩
  · rw [hlast.watched hseen] at hfits
    exact hfits
  · exact absurd (hlast.watched hseen).symm hother

/-! ## A first sync -/

def quietly (published : List Config) (sent : List EngineCall) : Busy :=
  ⟨calmSurroundings, 1000, published, sent⟩

/-- The first sync, during which the panel sends an allocation and the remote is switched off. -/
def firstSync : List LoopStep :=
  [.due (quietly [{ onlineConfig with accounting := {} }] [.allocate none none])]

/-- The allocation is answered before the loop looks at the config. -/
theorem panel_current_allocation : ∃ last loaded,
    Runs plainCodec (fun _ _ => True) (start freshAccounts onlineConfig 0)
        (firstSync ++ [.command (quietly [] []), .liveChanged]) last ∧
      last.status = last.accounts.engine.status { onlineConfig with accounting := {} } ∧
      Engine.load plainCodec last.accounts.engine.db = .ok loaded ∧
      last.status.balances = loaded.book.balances ∧ last.queue = [] ∧
      [EngineCall.allocate none none] = last.answered.map (·.1) ++ last.queue := by
  have hreached : freshAccounts.Reached plainCodec := .fresh (.inr rfl) ⟨rfl, rfl⟩
  have hrun : Runs plainCodec (fun _ _ => True) (start freshAccounts onlineConfig 0)
      (firstSync ++ [.command (quietly [] []), .liveChanged]) _ :=
    .cons trivial rfl (.cons trivial rfl (.cons trivial rfl (.nil _)))
  obtain ⟨⟨shown, hshown, hlive, hstored⟩, hqueue⟩ :=
    panel_current plainCodec_roundTrips hreached hrun
  obtain rfl := hlive rfl
  obtain ⟨loaded, hload, hstatus⟩ := hstored _ rfl
  exact ⟨_, loaded, hrun, hshown, hload, congrArg Status.balances hstatus, rfl, hqueue⟩

/-- The remote that syncs every minute. -/
def minutely : Config :=
  { onlineConfig with
    accounting := {
      mode := .remote
      remote := onlineConfig.accounting.remote.map fun remote =>
        { remote with intervalSecs := 60 } } }

/-- Two configs are published during the first sync, and only the last of them reschedules. -/
theorem sync_scheduled_minutely : ∃ last due,
    Runs plainCodec Attentive (start freshAccounts onlineConfig 0)
        [.due (quietly [{ onlineConfig with totalQuota := some 5 }, minutely] []), .liveChanged,
         .due (quietly [] [])] last ∧
      last.live = minutely ∧ last.next = some due ∧ due ≤ 2000 + 1000 * 60 := by
  have hquiet : ∀ s : EngineLoop plainCodec.Text, s.NothingMissed [] := by
    intro s config hconfig
    cases hconfig
  have hmissed : (start freshAccounts onlineConfig 0).NothingMissed
      [{ onlineConfig with totalQuota := some 5 }, minutely] := by
    intro config hconfig
    rcases List.mem_cons.mp hconfig with rfl | hconfig
    · rfl
    · obtain rfl := List.mem_singleton.mp hconfig
      rfl
  have hrun : Runs plainCodec Attentive (start freshAccounts onlineConfig 0)
      [.due (quietly [{ onlineConfig with totalQuota := some 5 }, minutely] []), .liveChanged,
       .due (quietly [] [])] _ :=
    .cons hmissed rfl (.cons trivial rfl (.cons (hquiet _) rfl (.nil _)))
  obtain ⟨due, hdue, hbound⟩ := sync_scheduled hrun rfl
  exact ⟨_, due, hrun, rfl, hdue, hbound⟩

/-- Where the remote is switched on again before the loop has seen that it was off, no sync is
scheduled, and none ever will be without a command or another change of the accounting. -/
theorem unscheduled_firstSync : ∃ last,
    Runs plainCodec (fun _ _ => True) (start freshAccounts onlineConfig 0)
        (firstSync ++ [.command (quietly [onlineConfig] []), .liveChanged]) last ∧
      last.seen = true ∧ last.live.accounting.activeRemote.isSome ∧ last.next = none :=
  ⟨_, .cons trivial rfl (.cons trivial rfl (.cons trivial rfl (.nil _))), rfl, rfl, rfl⟩

end EngineLoop

end PortsBox
