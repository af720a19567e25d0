import PortsBox.Lib.Trace
import PortsBox.Lib.Watch
import PortsBox.PoolCore
import PortsBox.QuotaRaces

/-!
# Who is told that it is over

The relay tasks of one rule, each waiting in its `select!` for the quota to run out, for the
rule to be stopped and, for a UDP session, for the active target to move. The loads and stores
of consumes and of limit changes, health changes, a stop and the polls of the tasks come in
any order. Where no poll can go on, no task is left whose user's channel says exhausted or
whose rule is stopped, and every session is on the active target.
-/

set_option autoImplicit false

namespace PortsBox

namespace SharedQuota

/-- What an action of a call sends: a consume `send_replace`s, `set_limit` sends a change only. -/
def send (exhausted : Watched Bool) : Call → Watched Bool
  | .publishing .tryConsume _ verdict .channel => ⟨verdict, exhausted.version + 1⟩
  | .publishing .setLimit _ verdict .channel => exhausted.replace verdict
  | _ => exhausted

theorem follows_send (exhausted : Watched Bool) (call : Call) :
    exhausted.Follows (send exhausted call) := by
  unfold send
  split
  · exact exhausted.follows_send _
  · exact exhausted.follows_replace _
  · exact .refl _

/-- What is sent is what the quota's channel holds. -/
theorem value_send (quota : UserQuota) (version : Nat) (call : Call) :
    (send ⟨quota.exhausted, version⟩ call).value = (act quota call).1.exhausted := by
  cases call with
  | consuming args stage =>
    cases stage with
    | addTotal => cases hd : args.direction <;> simp [send, act, consume, UserQuota.addTotal, hd]
    | addBucket => cases hd : args.direction <;> simp [send, act, consume, UserQuota.addBucket, hd]
    | _ => rfl
  | publishing caller limit verdict place =>
    cases place with
    | flag => cases caller <;> rfl
    | channel =>
      cases caller with
      | tryConsume => rfl
      | setLimit => exact Watched.value_replace _ _
  | _ => rfl

end SharedQuota

/-- Why a relay task ended; `other` is every way that the waits have no part in. -/
inductive Ending where
  | drained
  | removed
  | moved
  | other
  deriving DecidableEq, Repr

/-- A relay task in its `select!`. A TCP connection waits for no target. -/
structure RelayTask where
  index : Option Nat
  drained : Waiter
  moved : Waiter
  ended : Option Ending
  deriving DecidableEq, Repr

/-- A task that has not been polled yet. -/
def RelayTask.begin (index : Option Nat) : RelayTask := ⟨index, .checking, .checking, none⟩

/-- The branches of the `select!` that the waits are. -/
inductive Branch where
  | drained
  | removed
  | moved
  deriving DecidableEq, Repr

instance : Fintype Branch where
  elems := {.drained, .removed, .moved}
  complete branch := by cases branch <;> simp

/-- A rule with its quota and pool, how often each has sent something, and its relay tasks. -/
structure LiveRule where
  shared : SharedQuota
  sent : Nat
  pool : TargetPool
  switched : Nat
  stopped : Bool
  tasks : List RelayTask

inductive LiveStep where
  | quota (action : SharedQuota.Action)
  | pool (call : PoolCall)
  /-- The sender of the stop channel is dropped. -/
  | stop
  | relay (index : Option Nat)
  | poll (i : Nat) (branch : Branch)
  /-- End of stream, an error, an idle session or a refused consume. -/
  | finish (i : Nat)
  deriving DecidableEq, Repr

namespace LiveRule

def exhausted (rule : LiveRule) : Watched Bool := ⟨rule.shared.quota.exhausted, rule.sent⟩

def active (rule : LiveRule) : Watched Nat := ⟨rule.pool.active, rule.switched⟩

/-- The version of the `exhausted` channel after an action. -/
def sentAfter (rule : LiveRule) : SharedQuota.Action → Nat
  | .begin _ => rule.sent
  | .act i =>
    match rule.shared.calls[i]? with
    | some call => (SharedQuota.send rule.exhausted call).version
    | none => rule.sent

/-- A poll of one branch. -/
def pollTask (rule : LiveRule) (task : RelayTask) : Branch → Option RelayTask
  | .drained => do
    let next ← task.drained.poll id rule.exhausted
    pure { task with drained := next, ended := if next = .done then some .drained else none }
  | .removed => if rule.stopped then some { task with ended := some .removed } else none
  | .moved => do
    let index ← task.index
    let next ← task.moved.poll (· != index) rule.active
    pure { task with moved := next, ended := if next = .done then some .moved else none }

def step (rule : LiveRule) : LiveStep → Option LiveRule
  | .quota action => do
    let shared ← rule.shared.step action
    pure { rule with shared, sent := rule.sentAfter action }
  | .pool call =>
    let pool := rule.pool.call call
    some { rule with pool, switched := (rule.active.replace pool.active).version }
  | .stop => some { rule with stopped := true }
  | .relay index => some { rule with tasks := rule.tasks ++ [.begin index] }
  | .poll i branch => do
    let task ← rule.tasks[i]?
    if task.ended = none then
      let next ← rule.pollTask task branch
      pure { rule with tasks := rule.tasks.set i next }
    else none
  | .finish i => do
    let task ← rule.tasks[i]?
    if task.ended = none then
      pure { rule with tasks := rule.tasks.set i { task with ended := some .other } }
    else none

/-- No task can go on without something being sent. -/
def AtRest (rule : LiveRule) : Prop := ∀ i branch, rule.step (.poll i branch) = none

def start (quota : UserQuota) (pool : TargetPool) : LiveRule := ⟨{ quota }, 0, pool, 0, false, []⟩

/-! ## What every run keeps -/

/-- A task that has not ended waits in both places, and has missed nothing. -/
structure Sound (exhausted : Watched Bool) (active : Watched Nat) (task : RelayTask) : Prop where
  drained : task.drained.Sound id exhausted
  drainedOn : task.drained ≠ .done
  moved : ∀ index, task.index = some index → task.moved.Sound (· != index) active
  movedOn : task.moved ≠ .done

/-- What holds at every point of a run. -/
def Live (rule : LiveRule) : Prop :=
  ∀ task ∈ rule.tasks, task.ended = none → Sound rule.exhausted rule.active task

/-- What the rule is like where a task ends. -/
def Warrants (rule : LiveRule) (task : RelayTask) : Ending → Prop
  | .drained => rule.shared.quota.exhausted = true
  | .removed => rule.stopped = true
  | .moved => ∃ index, task.index = some index ∧ rule.pool.active ≠ index
  | .other => True

theorem sound_begin (exhausted : Watched Bool) (active : Watched Nat) (index : Option Nat) :
    Sound exhausted active (.begin index) :=
  ⟨trivial, by simp [RelayTask.begin], fun _ _ => trivial, by simp [RelayTask.begin]⟩

section Steps
variable {exhausted after : Watched Bool} {active moved : Watched Nat} {task next : RelayTask}
variable {rule : LiveRule} {branch : Branch}

theorem Sound.follows (h : Sound exhausted active task) (hexhausted : exhausted.Follows after)
    (hactive : active.Follows moved) : Sound after moved task :=
  ⟨h.drained.follows hexhausted, h.drainedOn, fun index hi => (h.moved index hi).follows hactive,
    h.movedOn⟩

/-- A task that waits on after a poll has missed nothing. -/
theorem Sound.poll (h : Sound rule.exhausted rule.active task)
    (hpoll : rule.pollTask task branch = some next) (halive : next.ended = none) :
    Sound rule.exhausted rule.active next := by
  cases branch with
  | drained =>
    obtain ⟨waiter, hwaiter, heq⟩ := Option.bind_eq_some_iff.mp hpoll
    obtain rfl := Option.some.inj heq
    have hon : waiter ≠ .done := by
      intro hdone
      simp [hdone] at halive
    exact ⟨Waiter.Sound.poll hwaiter, hon, h.moved, h.movedOn⟩
  | removed =>
    obtain ⟨-, heq⟩ := Option.ite_none_right_eq_some.mp hpoll
    obtain rfl := Option.some.inj heq
    cases halive
  | moved =>
    obtain ⟨index, hindex, hrest⟩ := Option.bind_eq_some_iff.mp hpoll
    obtain ⟨waiter, hwaiter, heq⟩ := Option.bind_eq_some_iff.mp hrest
    obtain rfl := Option.some.inj heq
    have hon : waiter ≠ .done := by
      intro hdone
      simp [hdone] at halive
    refine ⟨h.drained, h.drainedOn, ?_, hon⟩
    intro other hother
    obtain rfl : index = other := Option.some.inj (hindex.symm.trans hother)
    exact Waiter.Sound.poll hwaiter

/-- A poll ends a task for a reason that is there. -/
theorem warrants_poll {ending : Ending} (hpoll : rule.pollTask task branch = some next)
    (hended : next.ended = some ending) : rule.Warrants next ending := by
  cases branch with
  | drained =>
    obtain ⟨waiter, hwaiter, heq⟩ := Option.bind_eq_some_iff.mp hpoll
    obtain rfl := Option.some.inj heq
    obtain ⟨hdone, hending⟩ := Option.ite_none_right_eq_some.mp hended
    obtain rfl := Option.some.inj hending
    rw [hdone] at hwaiter
    exact Waiter.poll_done hwaiter
  | removed =>
    obtain ⟨hstopped, heq⟩ := Option.ite_none_right_eq_some.mp hpoll
    obtain rfl := Option.some.inj heq
    obtain rfl := Option.some.inj hended
    exact hstopped
  | moved =>
    obtain ⟨index, hindex, hrest⟩ := Option.bind_eq_some_iff.mp hpoll
    obtain ⟨waiter, hwaiter, heq⟩ := Option.bind_eq_some_iff.mp hrest
    obtain rfl := Option.some.inj heq
    obtain ⟨hdone, hending⟩ := Option.ite_none_right_eq_some.mp hended
    obtain rfl := Option.some.inj hending
    rw [hdone] at hwaiter
    exact ⟨index, hindex, bne_iff_ne.mp (Waiter.poll_done hwaiter)⟩

/-- The versions are those of what is sent. -/
theorem follows_quota {action : SharedQuota.Action} {shared : SharedQuota}
    (hstep : rule.shared.step action = some shared) :
    rule.exhausted.Follows ⟨shared.quota.exhausted, rule.sentAfter action⟩ := by
  cases action with
  | begin request =>
    obtain rfl := Option.some.inj hstep
    exact .refl _
  | act i =>
    obtain ⟨call, holder, hcall, -, rfl⟩ := SharedQuota.act_eq hstep
    have hsent : rule.sentAfter (.act i) = (SharedQuota.send rule.exhausted call).version := by
      rw [sentAfter, hcall]
    rw [hsent, ← SharedQuota.value_send rule.shared.quota rule.sent call]
    exact SharedQuota.follows_send rule.exhausted call

theorem follows_pool (call : PoolCall) : rule.active.Follows
    ⟨(rule.pool.call call).active, (rule.active.replace (rule.pool.call call).active).version⟩ := by
  rw [← Watched.replace_eq]
  exact rule.active.follows_replace _

end Steps

section Live
variable {rule next : LiveRule}

/-- What a poll does. -/
theorem poll_eq {i : Nat} {branch : Branch} (hstep : rule.step (.poll i branch) = some next) :
    ∃ task after, rule.tasks[i]? = some task ∧ task.ended = none ∧
      rule.pollTask task branch = some after ∧
      next = { rule with tasks := rule.tasks.set i after } := by
  obtain ⟨task, htask, hrest⟩ := Option.bind_eq_some_iff.mp hstep
  obtain ⟨halive, hrest⟩ := Option.ite_none_right_eq_some.mp hrest
  obtain ⟨after, hafter, heq⟩ := Option.bind_eq_some_iff.mp hrest
  exact ⟨task, after, htask, halive, hafter, (Option.some.inj heq).symm⟩

theorem finish_eq {i : Nat} (hstep : rule.step (.finish i) = some next) :
    ∃ task, rule.tasks[i]? = some task ∧
      next = { rule with tasks := rule.tasks.set i { task with ended := some .other } } := by
  obtain ⟨task, htask, hrest⟩ := Option.bind_eq_some_iff.mp hstep
  obtain ⟨-, heq⟩ := Option.ite_none_right_eq_some.mp hrest
  exact ⟨task, htask, (Option.some.inj heq).symm⟩

/-- A task that changes: what is known of the others stays. -/
theorem Live.set (h : rule.Live) (i : Nat) {task : RelayTask}
    (hsound : task.ended = none → Sound rule.exhausted rule.active task) :
    Live { rule with tasks := rule.tasks.set i task } := by
  intro other hother
  rcases List.mem_or_eq_of_mem_set hother with hold | rfl
  · exact h other hold
  · exact hsound

theorem Live.step (h : rule.Live) {s : LiveStep} (hstep : rule.step s = some next) :
    next.Live := by
  cases s with
  | quota action =>
    obtain ⟨shared, hshared, heq⟩ := Option.bind_eq_some_iff.mp hstep
    obtain rfl := Option.some.inj heq
    intro task htask halive
    exact (h task htask halive).follows (follows_quota hshared) (.refl _)
  | pool call =>
    obtain rfl := Option.some.inj hstep
    intro task htask halive
    exact (h task htask halive).follows (.refl _) (follows_pool call)
  | stop =>
    obtain rfl := Option.some.inj hstep
    exact h
  | relay index =>
    obtain rfl := Option.some.inj hstep
    intro task htask halive
    rcases List.mem_append.mp htask with hold | hnew
    · exact h task hold halive
    · rw [List.mem_singleton.mp hnew]
      exact sound_begin _ _ index
  | poll i branch =>
    obtain ⟨task, after, htask, halive, hpoll, rfl⟩ := poll_eq hstep
    apply h.set i
    exact (h task (List.mem_of_getElem? htask) halive).poll hpoll
  | finish i =>
    obtain ⟨task, -, rfl⟩ := finish_eq hstep
    apply h.set i
    intro halive
    cases halive

/-- A task that has ended had ended before the step, or the rule was such that it ends. -/
theorem ended_step {s : LiveStep} {i : Nat} {task : RelayTask} {ending : Ending}
    (hended : task.ended = some ending) (hstep : rule.step s = some next)
    (hnext : next.tasks[i]? = some task) :
    rule.tasks[i]? = some task ∨ rule.Warrants task ending := by
  have hset : ∀ j other, (rule.tasks.set j other)[i]? = some task →
      rule.tasks[i]? = some task ∨ other = task := by
    intro j other hother
    rw [List.getElem?_set] at hother
    split at hother
    · right
      exact Option.some.inj (Option.ite_none_right_eq_some.mp hother).2
    · exact Or.inl hother
  cases s with
  | quota action =>
    obtain ⟨shared, -, heq⟩ := Option.bind_eq_some_iff.mp hstep
    obtain rfl := Option.some.inj heq
    exact Or.inl hnext
  | pool call =>
    obtain rfl := Option.some.inj hstep
    exact Or.inl hnext
  | stop =>
    obtain rfl := Option.some.inj hstep
    exact Or.inl hnext
  | relay index =>
    obtain rfl := Option.some.inj hstep
    rcases Nat.lt_or_ge i rule.tasks.length with hlt | hge
    · exact Or.inl ((List.getElem?_append_left hlt).symm.trans hnext)
    · have hnew := List.mem_of_getElem? ((List.getElem?_append_right hge).symm.trans hnext)
      rw [List.mem_singleton.mp hnew] at hended
      cases hended
  | poll j branch =>
    obtain ⟨before, after, -, -, hpoll, rfl⟩ := poll_eq hstep
    rcases hset j after hnext with hold | rfl
    · exact Or.inl hold
    · exact Or.inr (warrants_poll hpoll hended)
  | finish j =>
    obtain ⟨before, -, rfl⟩ := finish_eq hstep
    rcases hset j _ hnext with hold | rfl
    · exact Or.inl hold
    · right
      obtain rfl := Option.some.inj hended
      trivial

/-- At rest no branch of a task that has not ended can go on. -/
theorem atRest_iff : rule.AtRest ↔
    ∀ task ∈ rule.tasks, task.ended = none → ∀ branch, rule.pollTask task branch = none := by
  constructor
  · intro hrest task htask halive branch
    obtain ⟨i, hi⟩ := List.mem_iff_getElem?.mp htask
    have hnone := hrest i branch
    simp only [LiveRule.step, hi, Option.bind_eq_bind, Option.bind_some, halive, if_true] at hnone
    cases hpoll : rule.pollTask task branch with
    | none => rfl
    | some after =>
      rw [hpoll] at hnone
      cases hnone
  · intro hblocked i branch
    cases hstep : rule.step (.poll i branch) with
    | none => rfl
    | some after =>
      obtain ⟨task, polled, htask, halive, hpoll, -⟩ := poll_eq hstep
      rw [hblocked task (List.mem_of_getElem? htask) halive branch] at hpoll
      cases hpoll

instance : Decidable rule.AtRest := decidable_of_iff _ atRest_iff.symm

/-- A task that has not ended and cannot go on has none of the reasons to end. -/
theorem Sound.blocked {task : RelayTask} (h : Sound rule.exhausted rule.active task)
    (hblocked : ∀ branch, rule.pollTask task branch = none) :
    rule.exhausted.value = false ∧ rule.stopped = false ∧
      ∀ index, task.index = some index → rule.active.value = index := by
  refine ⟨?_, ?_, ?_⟩
  · apply h.drained.blocked _ h.drainedOn
    cases hpoll : task.drained.poll id rule.exhausted with
    | none => rfl
    | some waiter =>
      have := hblocked .drained
      simp [pollTask, hpoll] at this
  · by_contra hstopped
    have := hblocked .removed
    simp [pollTask, hstopped] at this
  · intro index hindex
    apply bne_eq_false_iff_eq.mp
    apply (h.moved index hindex).blocked _ h.movedOn
    cases hpoll : task.moved.poll (· != index) rule.active with
    | none => rfl
    | some waiter =>
      have := hblocked .moved
      simp [pollTask, hindex, hpoll] at this

end Live

/-! ## Coming to rest -/

/-- How many polls a task can still make before something is sent. -/
def left (rule : LiveRule) (task : RelayTask) : Nat :=
  match task.ended with
  | none => 1 + task.drained.left rule.exhausted + task.moved.left rule.active
  | some _ => 0

theorem left_pollTask {rule : LiveRule} {task after : RelayTask} {branch : Branch}
    (halive : task.ended = none) (hpoll : rule.pollTask task branch = some after) :
    rule.left after < rule.left task := by
  have hleft : rule.left task =
      1 + task.drained.left rule.exhausted + task.moved.left rule.active := by
    rw [left, halive]
  have hended : ∀ ending, after.ended = some ending → rule.left after < rule.left task := by
    intro ending hending
    rw [hleft, left, hending]
    dsimp only
    omega
  cases branch with
  | drained =>
    obtain ⟨waiter, hwaiter, heq⟩ := Option.bind_eq_some_iff.mp hpoll
    obtain rfl := Option.some.inj heq
    by_cases hdone : waiter = .done
    · exact hended .drained (if_pos hdone)
    · have hlt := Waiter.left_poll hwaiter
      rw [hleft, left, if_neg hdone]
      dsimp only
      omega
  | removed =>
    obtain ⟨-, heq⟩ := Option.ite_none_right_eq_some.mp hpoll
    obtain rfl := Option.some.inj heq
    exact hended .removed rfl
  | moved =>
    obtain ⟨index, -, hrest⟩ := Option.bind_eq_some_iff.mp hpoll
    obtain ⟨waiter, hwaiter, heq⟩ := Option.bind_eq_some_iff.mp hrest
    obtain rfl := Option.some.inj heq
    by_cases hdone : waiter = .done
    · exact hended .moved (if_pos hdone)
    · have hlt := Waiter.left_poll hwaiter
      rw [hleft, left, if_neg hdone]
      dsimp only
      omega

theorem sum_map_set_lt {α : Type} (f : α → Nat) {l : List α} {i : Nat} {a b : α}
    (ha : l[i]? = some a) (hlt : f b < f a) : ((l.set i b).map f).sum < (l.map f).sum := by
  induction l generalizing i with
  | nil => cases ha
  | cons x l ih =>
    cases i with
    | zero =>
      obtain rfl : x = a := Option.some.inj ha
      exact Nat.add_lt_add_right hlt _
    | succ i => exact Nat.add_lt_add_left (ih ha) _

/-- How many polls the tasks can still make. -/
def pollsLeft (rule : LiveRule) : Nat := (rule.tasks.map rule.left).sum

theorem pollsLeft_le (rule : LiveRule) : rule.pollsLeft ≤ 5 * rule.tasks.length := by
  have hbound : (rule.tasks.map rule.left).sum ≤ (rule.tasks.map rule.left).length • 5 := by
    apply List.sum_le_card_nsmul
    intro x hx
    obtain ⟨task, -, rfl⟩ := List.mem_map.mp hx
    have hd := task.drained.left_le rule.exhausted
    have hm := task.moved.left_le rule.active
    unfold left
    split <;> omega
  rw [List.length_map, smul_eq_mul, Nat.mul_comm] at hbound
  exact hbound

/-- A step that is a poll. -/
def Polls : LiveStep → Prop
  | .poll _ _ => True
  | _ => False

theorem spends_polls :
    Trace.Spends step Polls (fun _ => True) (fun _ => true) pollsLeft := by
  intro rule s next hpolls hstep _
  cases s with
  | poll i branch =>
    obtain ⟨task, after, htask, halive, hpoll, rfl⟩ := poll_eq hstep
    exact Nat.succ_le_of_lt (sum_map_set_lt rule.left htask (left_pollTask halive hpoll))
  | _ => exact hpolls.elim

/-- In every run of loads and stores of the quota, health changes, a stop and polls: a task that
has ended did so where the reason was there; where no poll can go on, a task that has not
ended has a user whose channel does not say exhausted and a running rule, and a session
is on the active target; and that takes no more than five polls a task. -/
theorem none_left_behind {quota : UserQuota} {pool : TargetPool} {run : List LiveStep}
    {last : LiveRule} (hrun : Trace.run step (start quota pool) run = some last) :
    (∀ task ∈ last.tasks, ∀ ending, task.ended = some ending → ∃ before after mid,
      run = before ++ after ∧ Trace.run step (start quota pool) before = some mid ∧
        mid.Warrants task ending) ∧
    (last.AtRest → ∀ task ∈ last.tasks, task.ended = none →
      last.exhausted.value = false ∧ last.stopped = false ∧
      ∀ index, task.index = some index → last.active.value = index) ∧
    ∀ polls after, (∀ s ∈ polls, Polls s) → Trace.run step last polls = some after →
      polls.length ≤ 5 * last.tasks.length := by
  refine ⟨?_, ?_, ?_⟩
  · intro task htask ending hended
    obtain ⟨i, hi⟩ := List.mem_iff_getElem?.mp htask
    have hreason := Trace.reason (p := fun rule : LiveRule => rule.tasks[i]? = some task)
      (fun rule s next hstep hnext => ended_step hended hstep hnext) hrun hi
    rcases hreason with hbegin | hreason
    · cases hbegin
    · exact hreason
  · intro hrest task htask halive
    have hlive : last.Live := by
      have hkeeps : Trace.Keeps step (fun _ => True) Live := by
        intro rule s next _ hstep h
        exact h.step hstep
      exact hkeeps.run (fun _ _ => trivial) hrun nofun
    exact (hlive task htask halive).blocked (atRest_iff.mp hrest task htask halive)
  · intro polls after hpolls hafter
    have hkeeps : Trace.Keeps step Polls fun _ => True := fun _ _ _ _ _ _ => trivial
    have hspent := spends_polls.run hkeeps hpolls hafter trivial
    have hle := last.pollsLeft_le
    rw [List.countP_true] at hspent
    omega

/-- A session waits for both and its target goes down. -/
def failover : List LiveStep :=
  [.relay (some 0), .relay none, .relay (some 0), .poll 0 .drained, .poll 0 .moved,
    .poll 1 .drained, .pool (.markDown 0), .poll 0 .moved, .poll 0 .moved]

/-- Then a connection uses up the quota. -/
def drain : List LiveStep :=
  .quota (.begin (.tryConsumeAt 8 .upload 5)) :: (List.replicate 10 (.quota (.act 0)) ++
    [.poll 1 .drained, .poll 1 .drained, .poll 2 .drained])

/-- Once the limit is raised another session begins. -/
def raise : List LiveStep :=
  .quota (.begin (.setLimit (some 100))) :: (List.replicate 6 (.quota (.act 1)) ++
    [.relay (some 1), .poll 3 .drained, .poll 3 .moved])

theorem none_left_behind_failoverThenRaise : ∃ last,
    Trace.run step (start (.newMeteredAt "a" (some 4) {} .sum 5)
        (.new ["p:1", "f:1"] (by decide) none)) (failover ++ drain ++ raise) = some last ∧
      last.tasks.map (·.ended) = [some .moved, some .drained, some .drained, none] ∧
      last.AtRest ∧ ∃ task ∈ last.tasks, task.index = some 1 ∧ last.exhausted.value = false ∧
        last.stopped = false ∧ last.active.value = 1 := by
  have hreplay : ((Trace.run step (start (.newMeteredAt "a" (some 4) {} .sum 5)
      (.new ["p:1", "f:1"] (by decide) none)) (failover ++ drain ++ raise)).any fun last =>
        last.tasks.map (·.ended) = [some .moved, some .drained, some .drained, none] ∧
          last.AtRest ∧ ∃ task ∈ last.tasks, task.ended = none ∧ task.index = some 1) = true := by
    decide +kernel
  obtain ⟨last, hrun, hends⟩ := Option.any_eq_true _ _ |>.mp hreplay
  obtain ⟨hended, hrest, task, htask, halive, hindex⟩ := of_decide_eq_true hends
  obtain ⟨-, hleft, -⟩ := none_left_behind hrun
  obtain ⟨hexhausted, hstopped, hmoved⟩ := hleft hrest task htask halive
  exact ⟨last, hrun, hended, hrest, task, htask, hindex, hexhausted, hstopped, hmoved 1 hindex⟩

end LiveRule

end PortsBox
