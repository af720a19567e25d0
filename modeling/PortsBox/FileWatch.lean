import PortsBox.Lib.Trace
import PortsBox.PanelDropped

/-!
# The watched config file

`watch_config` beside the loop. Other programs write the file; the watcher polls it, reads a
changed text once more after a while, and queues it for the loop, which takes it between
the panel's saves. The loop is never handed the text it has, and once the file stays as
it is, the loop has its text after a few moves, over any stops and starts.
-/

set_option autoImplicit false

namespace PortsBox

/-- Where `watch_config` stands: at its ticker, before the second reading, or at `send`. -/
inductive WatchPlace where
  | polling
  | settling (raw : String)
  | sending (raw : String)
  deriving DecidableEq, Repr

/-- The capacity of the channel that the watcher sends to. -/
def reloadCapacity : Nat := 1

structure FileWatch where
  last : String
  place : WatchPlace := .polling
  channel : List String := []
  /-- Whether the loop accepted the text that it was handed last; no code reads it. -/
  accepted : Bool := true
  deriving DecidableEq, Repr

namespace FileWatch

/-- A poll. It is no step where it leaves everything as it is: the file cannot be read, or has the
text of the last reading. -/
def tick (watch : FileWatch) (file : Option String) : Option FileWatch :=
  match watch.place, file with
  | .polling, some raw =>
    if raw = watch.last then none else some { watch with place := .settling raw }
  | _, _ => none

/-- The second reading. -/
def settle (watch : FileWatch) (file : Option String) : Option FileWatch :=
  match watch.place with
  | .settling raw =>
    if file = some raw then some { watch with last := raw, place := .sending raw }
    else some { watch with place := .polling }
  | _ => none

def send (watch : FileWatch) : Option FileWatch :=
  match watch.place with
  | .sending raw =>
    if watch.channel.length < reloadCapacity then
      some { watch with place := .polling, channel := watch.channel ++ [raw] }
    else none
  | _ => none

/-- The texts between the second reading and the loop. -/
def queued (watch : FileWatch) : List String :=
  match watch.place with
  | .sending raw => watch.channel ++ [raw]
  | _ => watch.channel

/-- How many moves there are at most while the file has a text. -/
def left (text : String) (watch : FileWatch) : Nat :=
  watch.channel.length +
    match watch.place with
    | .polling => if watch.last = text then 0 else 4
    | .settling raw => if raw = text then 3 else if watch.last = text then 1 else 5
    | .sending _ => if watch.last = text then 2 else 6

/-- The watcher and the loop: no text is handed over twice, the last one queued is the last one
read, and a config that was not saved from the panel is the one of the file. -/
structure Followed {Content : Type} (f : Formats Content) (watch : FileWatch) (loop : MainLoop) :
    Prop where
  room : watch.channel.length ≤ reloadCapacity
  settling : ∀ raw, watch.place = .settling raw → raw ≠ watch.last
  last : watch.queued.getLast?.getD loop.fileRaw = watch.last
  changes : (loop.fileRaw :: watch.queued).IsChain (· ≠ ·)
  live : watch.accepted = true → loop.live.fromPanel = false →
    parse f loop.fileRaw = some loop.live.config

section Follows
variable {Content : Type} {f : Formats Content} {watch after : FileWatch} {loop : MainLoop}

/-- What is not the panel's is the file's. -/
theorem effective_file {io : FileIo Content} {config next : Config} {raw : String}
    {before disk : Disk Content} (h : effective f io config raw before = (next, false, disk)) :
    next = config := by
  unfold effective at h
  cases hpath : storePathOf config with
  | none =>
    rw [hpath] at h
    exact (Prod.mk.inj h).1.symm
  | some path =>
    rw [hpath] at h
    dsimp only at h
    obtain ⟨hnext, hrest⟩ := Prod.mk.inj h
    have hnone := Option.isNone_iff_eq_none.mp
      (Option.isSome_eq_false_iff.mp (Prod.mk.inj hrest).1)
    rw [hnone] at hnext
    exact hnext.symm

/-! ## Moves of the watcher -/

theorem tick_eq {file : Option String} (h : watch.tick file = some after) :
    ∃ raw, watch.place = .polling ∧ file = some raw ∧ raw ≠ watch.last ∧
      after = { watch with place := .settling raw } := by
  unfold tick at h
  split at h
  · next raw hplace =>
    obtain ⟨hne, heq⟩ := (Option.ite_none_left_eq_some ..).mp h
    exact ⟨raw, hplace, rfl, hne, (Option.some.inj heq).symm⟩
  · cases h

theorem settle_eq {file : Option String} (h : watch.settle file = some after) :
    ∃ raw, watch.place = .settling raw ∧
      ((file = some raw ∧ after = { watch with last := raw, place := .sending raw }) ∨
        (file ≠ some raw ∧ after = { watch with place := .polling })) := by
  unfold settle at h
  split at h
  · next raw hplace =>
    refine ⟨raw, hplace, ?_⟩
    split at h
    · next hsame => exact Or.inl ⟨hsame, (Option.some.inj h).symm⟩
    · next hchanged => exact Or.inr ⟨hchanged, (Option.some.inj h).symm⟩
  · cases h

theorem send_eq (h : watch.send = some after) :
    ∃ raw, watch.place = .sending raw ∧ watch.channel.length < reloadCapacity ∧
      after = { watch with place := .polling, channel := watch.channel ++ [raw] } := by
  unfold send at h
  split at h
  · next raw hplace =>
    obtain ⟨hroom, heq⟩ := Option.ite_none_right_eq_some.mp h
    exact ⟨raw, hplace, hroom, (Option.some.inj heq).symm⟩
  · cases h

theorem queued_cons {raw : String} {channel : List String}
    (hchannel : watch.channel = raw :: channel) (accepted : Bool) :
    watch.queued = raw :: queued { watch with channel, accepted } := by
  unfold queued
  rw [hchannel]
  cases watch.place <;> rfl

namespace Followed

/-- The next text for the loop is another one than it has. -/
theorem head_ne (h : Followed f watch loop) : watch.channel.head? ≠ some loop.fileRaw := by
  intro hhead
  obtain ⟨channel, hchannel⟩ := List.head?_eq_some_iff.mp hhead
  have hchanges := h.changes
  rw [queued_cons hchannel watch.accepted] at hchanges
  exact (List.isChain_cons_cons.mp hchanges).1 rfl

theorem tick (h : Followed f watch loop) {file : Option String}
    (htick : watch.tick file = some after) : Followed f after loop := by
  obtain ⟨raw, hplace, -, hne, rfl⟩ := tick_eq htick
  have hqueued : watch.queued = watch.channel := by
    rw [queued, hplace]
  refine ⟨h.room, ?_, ?_, ?_, h.live⟩
  · intro other hother
    cases hother
    exact hne
  · exact hqueued ▸ h.last
  · exact hqueued ▸ h.changes

theorem settle (h : Followed f watch loop) {file : Option String}
    (hsettle : watch.settle file = some after) : Followed f after loop := by
  obtain ⟨raw, hplace, hcases⟩ := settle_eq hsettle
  have hqueued : watch.queued = watch.channel := by
    rw [queued, hplace]
  have hlast := h.last
  have hchanges := h.changes
  rw [hqueued] at hlast hchanges
  rcases hcases with ⟨-, rfl⟩ | ⟨-, rfl⟩
  · have hlater : (loop.fileRaw :: watch.channel ++ [raw]).IsChain (· ≠ ·) := by
      apply List.isChain_append.mpr
      refine ⟨hchanges, List.isChain_singleton raw, ?_⟩
      -- the last text before is the one of the last reading
      intro before hbefore next hnext
      rw [List.getLast?_cons, hlast] at hbefore
      obtain rfl := Option.some.inj hbefore
      obtain rfl := Option.some.inj hnext
      exact (h.settling raw hplace).symm
    refine ⟨h.room, ?_, congrArg (·.getD loop.fileRaw) List.getLast?_concat, hlater, h.live⟩
    intro other hother
    cases hother
  · refine ⟨h.room, ?_, hlast, hchanges, h.live⟩
    intro other hother
    cases hother

theorem send (h : Followed f watch loop) (hsend : watch.send = some after) :
    Followed f after loop := by
  obtain ⟨raw, hplace, hroom, rfl⟩ := send_eq hsend
  have hqueued : watch.queued = watch.channel ++ [raw] := by
    rw [queued, hplace]
  refine ⟨?_, ?_, hqueued ▸ h.last, hqueued ▸ h.changes, h.live⟩
  · rw [List.length_append]
    exact hroom
  · intro other hother
    cases hother

/-- The loop takes a text and makes of it what it can. -/
theorem receive (h : Followed f watch loop) {raw : String} {channel : List String}
    (hchannel : watch.channel = raw :: channel) {io : FileIo Content} {env : Env}
    {disk : Disk Content} {outcome : Bool × MainLoop × Disk Content}
    (hturned : Turned f io env loop disk (.reload raw) outcome) :
    Followed f { watch with channel, accepted := outcome.1 } outcome.2.1 := by
  have hqueued := queued_cons hchannel outcome.1
  have hroom := h.room
  have hlast := h.last
  have hchanges := h.changes
  rw [hchannel, List.length_cons] at hroom
  rw [hqueued, List.getLast?_cons, Option.getD_some] at hlast
  rw [hqueued] at hchanges
  have htext : outcome.2.1.fileRaw = raw := by
    cases hturned <;> rfl
  refine ⟨Nat.le_of_succ_le hroom, h.settling, htext ▸ hlast, htext ▸ hchanges.tail, ?_⟩
  intro haccepted hfile
  rw [htext]
  cases hturned with
  | rejected hworld => cases haccepted
  | reloaded hparse happly => exact hparse

theorem saved (h : Followed f watch loop) {edit : ConfigEdit} {io : FileIo Content} {env : Env}
    {disk : Disk Content} {outcome : Bool × MainLoop × Disk Content}
    (hturned : Turned f io env loop disk (.save edit) outcome) :
    Followed f watch outcome.2.1 := by
  cases hturned with
  | stopped hstopped => exact h
  | undone hpath hsubmitted happly => exact ⟨h.room, h.settling, h.last, h.changes, h.live⟩
  | saved hpath hsubmitted happly =>
    refine ⟨h.room, h.settling, h.last, h.changes, ?_⟩
    intro _ hfile
    cases hfile

theorem started {io : FileIo Content} {env : Env} {start : Boot} {raw : String}
    {before disk : Disk Content} (hboot : boot f io env start raw before = (some loop, disk)) :
    Followed f { last := raw } loop := by
  obtain ⟨config, hparse, htext, -, -, heffective⟩ := boot_some f hboot
  refine ⟨Nat.zero_le _, ?_, htext, List.isChain_singleton _, ?_⟩
  · intro other hother
    cases hother
  · intro _ hfile
    rw [hfile] at heffective
    rw [htext, hparse, effective_file heffective]

end Followed

/-! ## How many moves are left -/

theorem left_tick {text : String} (htick : watch.tick (some text) = some after) :
    after.left text + 1 ≤ watch.left text := by
  obtain ⟨raw, hplace, hraw, hne, rfl⟩ := tick_eq htick
  obtain rfl := Option.some.inj hraw
  simp only [left, hplace, if_neg hne.symm, if_true]
  omega

theorem left_settle {text : String} (hsettle : watch.settle (some text) = some after) :
    after.left text + 1 ≤ watch.left text := by
  obtain ⟨raw, hplace, ⟨hraw, rfl⟩ | ⟨hraw, rfl⟩⟩ := settle_eq hsettle
  · obtain rfl := Option.some.inj hraw
    simp only [left, hplace, if_true]
    omega
  · have hne : raw ≠ text := fun heq => hraw (congrArg some heq.symm)
    simp only [left, hplace, if_neg hne]
    split <;> omega

theorem left_send {text : String} (hsend : watch.send = some after) :
    after.left text + 1 ≤ watch.left text := by
  obtain ⟨raw, hplace, -, rfl⟩ := send_eq hsend
  simp only [left, hplace, List.length_append, List.length_singleton]
  split <;> omega

theorem left_receive {text raw : String} {channel : List String} {accepted : Bool}
    (hchannel : watch.channel = raw :: channel) :
    left text { watch with channel, accepted } + 1 ≤ watch.left text := by
  simp only [left, hchannel, List.length_cons]
  omega

theorem Followed.left_le (h : Followed f watch loop) (text : String) : watch.left text ≤ 7 := by
  have hroom : watch.channel.length ≤ 1 := h.room
  unfold left
  split
  · split <;> omega
  · split
    · omega
    · split <;> omega
  · split <;> omega

end Follows

end FileWatch

/-- The machine with the config file and the watcher of the process that runs. -/
structure Site (Content : Type) where
  file : Option String
  machine : Machine Content := {}
  /-- There is none under `--no-reload`. -/
  watch : Option FileWatch := none
  /-- What the file had at each accepted save; no code reads it. -/
  onDisk : List (Option String) := []

inductive Move (Content : Type) where
  /-- Another program writes the file, or makes it unreadable. -/
  | edit (file : Option String)
  | start (io : FileIo Content) (env : Env) (boot : Boot) (noReload : Bool)
  | stop
  | tick
  | settle
  | send
  | receive (io : FileIo Content) (env : Env)
  | save (io : FileIo Content) (env : Env) (edit : ConfigEdit)
  | load

/-- A move on the way of a text to the loop. -/
def Move.follows {Content : Type} : Move Content → Bool
  | .tick | .settle | .send | .receive _ _ => true
  | _ => false

/-- A move that leaves the file alone. -/
def Move.Keeps {Content : Type} : Move Content → Prop
  | .edit _ => False
  | _ => True

namespace Site
variable {Content : Type} (f : Formats Content)

/-- Whether the loop accepts a change. -/
def accepts (io : FileIo Content) (env : Env) (change : Change) (m : Machine Content) : Bool :=
  m.running.any fun loop => (turn f io env change loop m.disk).1

/-- `reload_rx` -/
def receive (io : FileIo Content) (env : Env) (s : Site Content) (watch : FileWatch) :
    Option (Site Content) :=
  match watch.channel with
  | [] => none
  | raw :: channel => do
    let machine ← s.machine.step f (.turn io env (.reload raw))
    let accepted := accepts f io env (.reload raw) s.machine
    return { s with machine, watch := some { watch with channel, accepted } }

def step (s : Site Content) : Move Content → Option (Site Content)
  | .edit file => some { s with file }
  | .start io env start noReload => do
    let raw ← s.file
    let machine ← s.machine.step f (.start io env start raw)
    let watch := if noReload then none else machine.running.map fun _ => { last := raw }
    return { s with machine, watch }
  | .stop => do
    let machine ← s.machine.step f .stop
    return { s with machine, watch := none }
  | .tick => do
    let watch ← s.watch
    let watch ← watch.tick s.file
    return { s with watch := some watch }
  | .settle => do
    let watch ← s.watch
    let watch ← watch.settle s.file
    return { s with watch := some watch }
  | .send => do
    let watch ← s.watch
    let watch ← watch.send
    return { s with watch := some watch }
  | .receive io env => do
    let watch ← s.watch
    s.receive f io env watch
  | .save io env edit => do
    let machine ← s.machine.step f (.turn io env (.save edit))
    let accepted := accepts f io env (.save edit) s.machine
    return { s with machine, onDisk := if accepted then s.onDisk ++ [s.file] else s.onDisk }
  | .load => do
    let machine ← s.machine.step f .load
    return { s with machine }

variable {f} {s next : Site Content}

/-- What a move does. -/
inductive Moved (f : Formats Content) (s : Site Content) : Move Content → Site Content → Prop
  | edit (file : Option String) : Moved f s (.edit file) { s with file }
  | start {io : FileIo Content} {env : Env} {start : Boot} {noReload : Bool} {raw : String}
      {machine : Machine Content} (hfile : s.file = some raw)
      (hstep : s.machine.step f (.start io env start raw) = some machine) :
      Moved f s (.start io env start noReload)
        { s with
          machine
          watch := if noReload then none else machine.running.map fun _ => { last := raw } }
  | stop {machine : Machine Content} (hstep : s.machine.step f .stop = some machine) :
      Moved f s .stop { s with machine, watch := none }
  | tick {watch after : FileWatch} (hwatch : s.watch = some watch)
      (htick : watch.tick s.file = some after) : Moved f s .tick { s with watch := some after }
  | settle {watch after : FileWatch} (hwatch : s.watch = some watch)
      (hsettle : watch.settle s.file = some after) :
      Moved f s .settle { s with watch := some after }
  | send {watch after : FileWatch} (hwatch : s.watch = some watch)
      (hsend : watch.send = some after) : Moved f s .send { s with watch := some after }
  | receive {io : FileIo Content} {env : Env} {watch : FileWatch} {raw : String}
      {channel : List String} {machine : Machine Content} (hwatch : s.watch = some watch)
      (hchannel : watch.channel = raw :: channel)
      (hstep : s.machine.step f (.turn io env (.reload raw)) = some machine) :
      Moved f s (.receive io env)
        { s with
          machine
          watch := some { watch with
            channel, accepted := accepts f io env (.reload raw) s.machine } }
  | save {io : FileIo Content} {env : Env} {edit : ConfigEdit} {machine : Machine Content}
      (hstep : s.machine.step f (.turn io env (.save edit)) = some machine) :
      Moved f s (.save io env edit)
        { s with
          machine
          onDisk :=
            if accepts f io env (.save edit) s.machine then s.onDisk ++ [s.file] else s.onDisk }
  | load {machine : Machine Content} (hstep : s.machine.step f .load = some machine) :
      Moved f s .load { s with machine }

theorem moved {move : Move Content} (h : s.step f move = some next) : Moved f s move next := by
  cases move with
  | edit file =>
    obtain rfl := Option.some.inj h
    exact .edit file
  | start io env start noReload =>
    obtain ⟨raw, hfile, h⟩ := Option.bind_eq_some_iff.mp h
    obtain ⟨machine, hstep, h⟩ := Option.bind_eq_some_iff.mp h
    obtain rfl := Option.some.inj h
    exact .start hfile hstep
  | stop =>
    obtain ⟨machine, hstep, h⟩ := Option.bind_eq_some_iff.mp h
    obtain rfl := Option.some.inj h
    exact .stop hstep
  | tick =>
    obtain ⟨watch, hwatch, h⟩ := Option.bind_eq_some_iff.mp h
    obtain ⟨after, htick, h⟩ := Option.bind_eq_some_iff.mp h
    obtain rfl := Option.some.inj h
    exact .tick hwatch htick
  | settle =>
    obtain ⟨watch, hwatch, h⟩ := Option.bind_eq_some_iff.mp h
    obtain ⟨after, hsettle, h⟩ := Option.bind_eq_some_iff.mp h
    obtain rfl := Option.some.inj h
    exact .settle hwatch hsettle
  | send =>
    obtain ⟨watch, hwatch, h⟩ := Option.bind_eq_some_iff.mp h
    obtain ⟨after, hsend, h⟩ := Option.bind_eq_some_iff.mp h
    obtain rfl := Option.some.inj h
    exact .send hwatch hsend
  | receive io env =>
    obtain ⟨watch, hwatch, h⟩ := Option.bind_eq_some_iff.mp h
    unfold receive at h
    split at h
    · cases h
    · next raw channel hchannel =>
      obtain ⟨machine, hstep, h⟩ := Option.bind_eq_some_iff.mp h
      obtain rfl := Option.some.inj h
      exact .receive hwatch hchannel hstep
  | save io env edit =>
    obtain ⟨machine, hstep, h⟩ := Option.bind_eq_some_iff.mp h
    obtain rfl := Option.some.inj h
    exact .save hstep
  | load =>
    obtain ⟨machine, hstep, h⟩ := Option.bind_eq_some_iff.mp h
    obtain rfl := Option.some.inj h
    exact .load hstep

/-- A watcher runs beside a loop, and follows it. -/
def Sound (f : Formats Content) (s : Site Content) : Prop :=
  ∀ watch, s.watch = some watch →
    ∃ loop, s.machine.running = some loop ∧ watch.Followed f loop

/-- A move of the watcher's own. -/
theorem Sound.watched (h : s.Sound f) {watch after : FileWatch} (hwatch : s.watch = some watch)
    (hfollowed : ∀ loop, watch.Followed f loop → after.Followed f loop) :
    Sound f { s with watch := some after } := by
  intro other hother
  obtain rfl := Option.some.inj hother
  obtain ⟨loop, hrunning, hbefore⟩ := h watch hwatch
  exact ⟨loop, hrunning, hfollowed loop hbefore⟩

theorem turn_running {m after : Machine Content} {io : FileIo Content} {env : Env}
    {change : Change} {loop : MainLoop} (hrunning : m.running = some loop)
    (h : m.step f (.turn io env change) = some after) :
    ∃ outcome, Turned f io env loop m.disk change outcome ∧
      after.running = some outcome.2.1 ∧ accepts f io env change m = outcome.1 := by
  refine ⟨turn f io env change loop m.disk, turned .., ?_, ?_⟩
  · simp only [Machine.step, hrunning, Option.some.injEq] at h
    subst h
    rfl
  · rw [accepts, hrunning, Option.any_some]

/-- A move keeps the watcher with the loop. -/
theorem Sound.step (h : s.Sound f) {move : Move Content} (hstep : s.step f move = some next) :
    next.Sound f := by
  cases moved hstep with
  | edit file => exact h
  | @start _ _ _ noReload _ _ hfile hstarted =>
    intro watch hwatch
    obtain ⟨-, hwatch⟩ := (Option.ite_none_left_eq_some ..).mp hwatch
    cases stepped hstarted with
    | failed hidle hboot => cases hwatch
    | started hidle hboot =>
      obtain rfl := Option.some.inj hwatch
      exact ⟨_, rfl, .started hboot⟩
  | stop hstopped =>
    intro watch hwatch
    cases hwatch
  | tick hwatch htick => exact h.watched hwatch fun loop hloop => hloop.tick htick
  | settle hwatch hsettle => exact h.watched hwatch fun loop hloop => hloop.settle hsettle
  | send hwatch hsend => exact h.watched hwatch fun loop hloop => hloop.send hsend
  | receive hwatch hchannel hturn =>
    intro other hother
    obtain rfl := Option.some.inj hother
    obtain ⟨loop, hrunning, hfollowed⟩ := h _ hwatch
    obtain ⟨outcome, hturned, hafter, haccepted⟩ := turn_running hrunning hturn
    exact ⟨_, hafter, haccepted ▸ hfollowed.receive hchannel hturned⟩
  | save hsave =>
    intro watch hwatch
    obtain ⟨loop, hrunning, hfollowed⟩ := h watch hwatch
    obtain ⟨outcome, hturned, hafter, -⟩ := turn_running hrunning hsave
    exact ⟨_, hafter, hfollowed.saved hturned⟩
  | load hload =>
    cases stepped hload with
    | loaded hrunning => exact hrunning ▸ h

/-! ## A file that stays as it is -/

/-- How many moves there are at most while the file has a text. -/
def left (text : String) (s : Site Content) : Nat := s.watch.elim 0 (FileWatch.left text)

/-- Nothing is on its way to the loop. -/
def AtRest (f : Formats Content) (s : Site Content) : Prop :=
  ∀ move, move.follows = true → s.step f move = none

theorem Sound.left_le (h : s.Sound f) (text : String) : s.left text ≤ 7 := by
  unfold left
  cases hwatch : s.watch with
  | none => exact Nat.zero_le 7
  | some watch =>
    obtain ⟨loop, -, hfollowed⟩ := h watch hwatch
    exact hfollowed.left_le text

theorem left_some {watch : FileWatch} (hwatch : s.watch = some watch) (text : String) :
    s.left text = watch.left text := by
  rw [left, hwatch]
  rfl

theorem left_start (noReload : Bool) (running : Option MainLoop) {text : String} :
    (if noReload then none else running.map fun _ => ({ last := text } : FileWatch)).elim 0
      (FileWatch.left text) = 0 := by
  cases noReload with
  | true => rfl
  | false => cases running <;> simp [FileWatch.left]

theorem keeps_text (text : String) :
    Trace.Keeps (step f) Move.Keeps (fun s => s.Sound f ∧ s.file = some text) := by
  intro s move next hkeeps hstep hs
  refine ⟨hs.1.step hstep, ?_⟩
  cases moved hstep with
  | edit file => exact hkeeps.elim
  | _ => exact hs.2

theorem spends_text (text : String) :
    Trace.Spends (step f) Move.Keeps (fun s => s.Sound f ∧ s.file = some text) Move.follows
      (left text) := by
  intro s move next hkeeps hstep hs
  obtain ⟨hsound, hfile⟩ := hs
  cases moved hstep with
  | edit file => exact hkeeps.elim
  | start hread hstarted =>
    -- a new watcher begins with the text that the file has
    obtain rfl := Option.some.inj (hread.symm.trans hfile)
    exact (left_start _ _).trans_le (Nat.zero_le _)
  | stop hstopped => exact Nat.zero_le _
  | tick hwatch htick =>
    rw [left_some hwatch]
    exact FileWatch.left_tick (hfile ▸ htick)
  | settle hwatch hsettle =>
    rw [left_some hwatch]
    exact FileWatch.left_settle (hfile ▸ hsettle)
  | send hwatch hsend =>
    rw [left_some hwatch]
    exact FileWatch.left_send hsend
  | receive hwatch hchannel hturn =>
    rw [left_some hwatch]
    exact FileWatch.left_receive hchannel
  | save hsave => exact le_rfl
  | load hload => exact le_rfl

theorem AtRest.still (hrest : s.AtRest f) (hsound : s.Sound f) {text : String}
    (hfile : s.file = some text) {watch : FileWatch} (hwatch : s.watch = some watch) :
    watch.place = .polling ∧ watch.channel = [] ∧ watch.last = text := by
  obtain ⟨loop, hrunning, hfollowed⟩ := hsound watch hwatch
  have hchannel : watch.channel = [] := by
    cases hchannel : watch.channel with
    | nil => rfl
    | cons raw channel =>
      have hnone := hrest (.receive {} freePorts) rfl
      simp [step, receive, hwatch, hrunning, hchannel, Machine.step] at hnone
  have htick : watch.tick s.file = none := by
    have hnone := hrest .tick rfl
    cases htick : watch.tick s.file with
    | none => rfl
    | some after => simp [step, hwatch, htick] at hnone
  have hsettle : watch.settle s.file = none := by
    have hnone := hrest .settle rfl
    cases hsettle : watch.settle s.file with
    | none => rfl
    | some after => simp [step, hwatch, hsettle] at hnone
  have hsend : watch.send = none := by
    have hnone := hrest .send rfl
    cases hsend : watch.send with
    | none => rfl
    | some after => simp [step, hwatch, hsend] at hnone
  cases hplace : watch.place with
  | polling =>
    refine ⟨rfl, hchannel, ?_⟩
    by_contra hne
    simp [FileWatch.tick, hplace, hfile, Ne.symm hne] at htick
  | settling raw =>
    by_cases hsame : s.file = some raw
    · simp [FileWatch.settle, hplace, hsame] at hsettle
    · simp [FileWatch.settle, hplace, hsame] at hsettle
  | sending raw => simp [FileWatch.send, hplace, hchannel, reloadCapacity] at hsend

theorem atRest_of_still {text : String} (hfile : s.file = some text) {watch : FileWatch}
    (hwatch : s.watch = some watch) (hplace : watch.place = .polling)
    (hchannel : watch.channel = []) (hlast : watch.last = text) : s.AtRest f := by
  intro move hmove
  cases move with
  | tick => simp [step, hwatch, hfile, FileWatch.tick, hplace, hlast]
  | settle => simp [step, hwatch, FileWatch.settle, hplace]
  | send => simp [step, hwatch, FileWatch.send, hplace]
  | receive io env => simp [step, hwatch, receive, hchannel]
  | _ => cases hmove

/-- At rest no move is left. -/
theorem AtRest.left_eq (hrest : s.AtRest f) (hsound : s.Sound f) {text : String}
    (hfile : s.file = some text) : s.left text = 0 := by
  cases hwatch : s.watch with
  | none =>
    rw [left, hwatch]
    rfl
  | some watch =>
    obtain ⟨hplace, hchannel, hlast⟩ := hrest.still hsound hfile hwatch
    rw [left_some hwatch, FileWatch.left, hplace, hchannel, List.length_nil, Nat.zero_add]
    exact if_pos hlast

/-- In every history of edits, starts, stops, saves and moves of the watcher, the loop is never
handed the text it has. While the file stays as it is, there are at most seven moves of the
watcher, none from a state at rest, and at rest the loop has the text of the file; unless it
refused that text or the panel has saved since, it runs the config of the file. -/
theorem file_followed {file : Option String} {history : List (Move Content)}
    (hhistory : Trace.run (step f) { file } history = some s) :
    (∀ watch loop, s.watch = some watch → s.machine.running = some loop →
      watch.channel.head? ≠ some loop.fileRaw) ∧
    ∀ text moves last, s.file = some text → (∀ move ∈ moves, move.Keeps) →
      Trace.run (step f) s moves = some last →
        moves.countP Move.follows ≤ 7 ∧
        (s.AtRest f → moves.countP Move.follows = 0) ∧
        (last.AtRest f → ∀ watch loop, last.watch = some watch →
          last.machine.running = some loop → loop.fileRaw = text ∧
            (watch.accepted = true → loop.live.fromPanel = false →
              parse f text = some loop.live.config)) := by
  have hsound : s.Sound f := by
    have hkeeps : Trace.Keeps (step f) (fun _ => True) (Sound f) := by
      intro s move next _ hstep hs
      exact hs.step hstep
    exact hkeeps.run (fun _ _ => trivial) hhistory nofun
  constructor
  · intro watch loop hwatch hrunning
    obtain ⟨other, hother, hfollowed⟩ := hsound watch hwatch
    obtain rfl := Option.some.inj (hrunning.symm.trans hother)
    exact hfollowed.head_ne
  · intro text moves last hfile hkeeps hrun
    have hcount := (spends_text text).run (keeps_text text) hkeeps hrun ⟨hsound, hfile⟩
    obtain ⟨hlast, hlastFile⟩ := (keeps_text text).run hkeeps hrun ⟨hsound, hfile⟩
    refine ⟨?_, ?_, ?_⟩
    · have hle := hsound.left_le text
      omega
    · intro hrest
      have hzero := hrest.left_eq hsound hfile
      omega
    · intro hrest watch loop hwatch hrunning
      obtain ⟨hplace, hchannel, htext⟩ := hrest.still hlast hlastFile hwatch
      obtain ⟨other, hother, hfollowed⟩ := hlast watch hwatch
      obtain rfl := Option.some.inj (hrunning.symm.trans hother)
      have hraw := hfollowed.last
      rw [FileWatch.queued, hplace, hchannel] at hraw
      have heq : loop.fileRaw = text := hraw.trans htext
      exact ⟨heq, heq ▸ hfollowed.live⟩

end Site

/-! ## Given files -/

def freshStart (noReload : Bool) : Move StoreDoc :=
  .start {} freePorts { world := emptyWorld } noReload

/-- The moves that carry the text of the file to the loop. -/
def following : List (Move StoreDoc) := [.tick, .settle, .send, .receive {} freePorts]

def followedEdit (raw : String) : List (Move StoreDoc) := .edit (some raw) :: following

/-- The site after some moves, from the panel's file. -/
def siteAfter (f : Formats StoreDoc) (moves : List (Move StoreDoc)) : Site StoreDoc :=
  (Trace.run (Site.step f) { file := panelFile } moves).getD { file := none }

theorem run_siteAfter {f : Formats StoreDoc} {moves : List (Move StoreDoc)}
    (h : (Trace.run (Site.step f) { file := panelFile } moves).isSome = true) :
    Trace.run (Site.step f) { file := panelFile } moves = some (siteAfter f moves) := by
  obtain ⟨s, hs⟩ := Option.isSome_iff_exists.mp h
  rw [siteAfter, hs]
  rfl

/-- The panel's file is replaced under the running process. -/
def replacedSite : Site StoreDoc := siteAfter twoFiles [freshStart false, .edit (some plainFile)]

def followedSite : Site StoreDoc :=
  (Trace.run (Site.step twoFiles) replacedSite following).getD replacedSite

theorem file_followed_plainFile :
    following.countP Move.follows ≤ 7 ∧
      (loopOf followedSite.machine).fileRaw = plainFile ∧
      parse twoFiles plainFile = some (loopOf followedSite.machine).live.config := by
  have hhistory : Trace.run (Site.step twoFiles) { file := panelFile }
      [freshStart false, .edit (some plainFile)] = some replacedSite :=
    run_siteAfter (by decide +kernel)
  have hrun : Trace.run (Site.step twoFiles) replacedSite following = some followedSite := by
    have hsome : (Trace.run (Site.step twoFiles) replacedSite following).isSome = true := by
      decide +kernel
    obtain ⟨last, hlast⟩ := Option.isSome_iff_exists.mp hsome
    rw [followedSite, hlast]
    rfl
  have hkeeps : ∀ move ∈ following, move.Keeps := by
    intro move hmove
    simp only [following, List.mem_cons, List.not_mem_nil, or_false] at hmove
    rcases hmove with rfl | rfl | rfl | rfl
    all_goals trivial
  have hwatch : followedSite.watch = some { last := plainFile } := by decide +kernel
  have hrest : followedSite.AtRest twoFiles :=
    Site.atRest_of_still (by decide +kernel) hwatch rfl rfl rfl
  obtain ⟨hcount, -, hfollowed⟩ :=
    (Site.file_followed hhistory).2 plainFile following followedSite (by decide +kernel) hkeeps hrun
  obtain ⟨htext, hconfig⟩ := hfollowed hrest _ _ hwatch (running_loopOf (by decide +kernel))
  exact ⟨hcount, htext, hconfig rfl (by decide +kernel)⟩

end PortsBox
