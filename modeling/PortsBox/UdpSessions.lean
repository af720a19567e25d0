import PortsBox.Lib.Table
import PortsBox.UdpCore

/-!
# The slots and the tasks of a relay

What one step does to the session map and the tasks is said once, in `Change`.
From it, every slot has its task: an opening slot exactly one that is opening, an
open slot the downstream task of its own session.
-/

set_option autoImplicit false

namespace PortsBox.Relay

open List (getElem?_set)

/-- What a step may do to the slots and the tasks. -/
inductive Change (r next : Relay) : Step → Prop
  | same {step : Step} (hsessions : next.sessions = r.sessions) (htasks : next.tasks = r.tasks) :
      Change r next step
  | queued {step : Step} (peer : SocketAddr) (pending : List Packet) (packet : Packet)
      (hslot : r.sessions.lookup peer = some (.opening pending))
      (hsessions : next.sessions =
        r.sessions.insert peer (.opening (pushPending pending packet)))
      (htasks : next.tasks = r.tasks) : Change r next step
  | spawned {step : Step} (packet : Packet) (hslot : r.sessions.lookup packet.peer = none)
      (hroom : r.sessions.entries.length < r.maxSessions)
      (hsessions : next.sessions = r.sessions.insert packet.peer (.opening [packet]))
      (htasks : next.tasks = r.tasks ++ [{ peer := packet.peer, stage := .connecting }]) :
      Change r next step
  | moved {step : Step} (i : Nat) (peer : SocketAddr) (old new : Stage)
      (htask : r.tasks[i]? = some { peer, stage := old }) (hactor : step.task = some i)
      (hopening : new.isOpening = old.isOpening) (hrelaying : new.isRelaying = old.isRelaying)
      (hfailed : new = .failed → i ∈ next.history.failed) (hsessions : next.sessions = r.sessions)
      (htasks : next.tasks = r.tasks.set i { peer, stage := new }) : Change r next step
  | taken {step : Step} (i : Nat) (peer : SocketAddr) (pending : List Packet)
      (htask : r.tasks[i]? = some { peer, stage := .sending [] }) (hactor : step.task = some i)
      (hslot : r.sessions.lookup peer = some (.opening pending))
      (hsessions : next.sessions = r.sessions.insert peer (.opening []))
      (htasks : next.tasks = r.tasks.set i { peer, stage := .sending pending }) :
      Change r next step
  | opened {step : Step} (i : Nat) (peer : SocketAddr)
      (htask : r.tasks[i]? = some { peer, stage := .sending [] }) (hactor : step.task = some i)
      (hslot : ∀ packet pending,
        r.sessions.lookup peer ≠ some (.opening (packet :: pending)))
      (hsessions : next.sessions = r.sessions.insert peer (.opened i))
      (htasks : next.tasks = r.tasks.set i { peer, stage := .relaying }) : Change r next step
  | gaveUp (i : Nat) (peer : SocketAddr)
      (htask : r.tasks[i]? = some { peer, stage := .failed })
      (hsessions : next.sessions = r.sessions.erase peer)
      (htasks : next.tasks = r.tasks.set i { peer, stage := .ended }) : Change r next (.giveUp i)
  | closed (i : Nat) (peer : SocketAddr)
      (htask : r.tasks[i]? = some { peer, stage := .closing })
      (hsessions : next.sessions = (r.removeOpen peer i).sessions)
      (htasks : next.tasks = r.tasks.set i { peer, stage := .ended }) : Change r next (.close i)
  | shed (i : Nat) (packet : Packet) (rest : List Packet)
      (hshard : r.shard = .shedding i packet rest)
      (hsessions : next.sessions = (r.removeOpen packet.peer i).sessions)
      (htasks : next.tasks = r.tasks) : Change r next .shed

@[simp] theorem removeOpen_tasks (r : Relay) (peer : SocketAddr) (i : Nat) :
    (r.removeOpen peer i).tasks = r.tasks := by
  unfold removeOpen
  split <;> rfl

@[simp] theorem removeOpen_maxSessions (r : Relay) (peer : SocketAddr) (i : Nat) :
    (r.removeOpen peer i).maxSessions = r.maxSessions := by
  unfold removeOpen
  split <;> rfl

theorem change_of_dispatch (r : Relay) (packet : Packet) (rest : List Packet) (step : Step) :
    Change r (r.dispatch packet rest) step ∧
      (r.dispatch packet rest).maxSessions = r.maxSessions := by
  unfold dispatch
  cases hslot : r.sessions.lookup packet.peer with
  | none =>
    by_cases hfull : r.sessions.entries.length ≥ r.maxSessions
    · simp only [hslot, hfull, if_true]
      exact ⟨.same rfl rfl, trivial⟩
    · simp only [hslot, hfull, if_false]
      exact ⟨.spawned packet hslot (by omega) rfl rfl, trivial⟩
  | some slot =>
    cases slot with
    | opening pending =>
      simp only [hslot]
      exact ⟨.queued packet.peer pending packet hslot rfl rfl, trivial⟩
    | opened session =>
      simp only [hslot]
      exact ⟨.same rfl rfl, trivial⟩

theorem change_of_shardStep {r next : Relay} {step : Step} (h : r.shardStep step = some next) :
    Change r next step ∧ next.maxSessions = r.maxSessions := by
  cases step with
  | recv batch exhausted =>
    simp only [shardStep] at h
    split at h
    · obtain rfl := Option.some.inj h
      exact ⟨.same rfl rfl, rfl⟩
    · cases h
  | dispatch =>
    simp only [shardStep] at h
    split at h
    · obtain rfl := Option.some.inj h
      exact change_of_dispatch r _ _ _
    · cases h
  | forward outcome =>
    simp only [shardStep] at h
    split at h
    · obtain rfl := Option.some.inj h
      exact ⟨.same rfl rfl, rfl⟩
    · cases h
  | shed =>
    simp only [shardStep] at h
    split at h
    case h_1 session packet rest hshard =>
      obtain rfl := Option.some.inj h
      exact ⟨.shed session packet rest hshard rfl (removeOpen_tasks _ _ _),
        removeOpen_maxSessions _ _ _⟩
    case h_2 => cases h
  | stop =>
    obtain rfl := Option.some.inj h
    exact ⟨.same rfl rfl, rfl⟩
  | connected | collect | flush | giveUp | finish | close => cases h

theorem change_of_taskStep {r next : Relay} {i : Nat} {task : SessionTask} {step : Step}
    (htask : r.tasks[i]? = some task) (hactor : step.task = some i)
    (h : r.taskStep i task step = some next) :
    Change r next step ∧ next.maxSessions = r.maxSessions := by
  rcases task with ⟨peer, stage⟩
  cases step with
  | recv | dispatch | forward | shed | stop => cases hactor
  | connected j ok =>
    simp only [taskStep] at h
    split at h
    case h_1 =>
      split at h
      · obtain rfl := Option.some.inj h
        exact ⟨.moved i peer _ (.sending []) htask hactor rfl rfl (fun h => nomatch h) rfl rfl, rfl⟩
      · obtain rfl := Option.some.inj h
        exact ⟨.moved i peer _ .failed htask hactor rfl rfl (fun _ => List.mem_concat_self) rfl rfl,
          rfl⟩
    case h_2 => cases h
  | collect j =>
    simp only [taskStep] at h
    split at h
    case h_1 =>
      split at h
      case h_1 packet pending hslot =>
        obtain rfl := Option.some.inj h
        exact ⟨.taken i peer (packet :: pending) htask hactor hslot rfl rfl, rfl⟩
      case h_2 hslot =>
        obtain rfl := Option.some.inj h
        exact ⟨.opened i peer htask hactor hslot rfl rfl, rfl⟩
    case h_2 => cases h
  | flush j outcome =>
    simp only [taskStep] at h
    split at h
    case h_1 packet rest =>
      split at h
      · obtain rfl := Option.some.inj h
        exact ⟨.moved i peer _ .failed htask hactor rfl rfl (fun _ => List.mem_concat_self) rfl rfl,
          rfl⟩
      · obtain rfl := Option.some.inj h
        exact ⟨.moved i peer _ (.sending rest) htask hactor rfl rfl (fun h => nomatch h) rfl rfl,
          rfl⟩
    case h_2 => cases h
  | giveUp j =>
    obtain rfl := Option.some.inj hactor
    simp only [taskStep] at h
    split at h
    case h_1 =>
      obtain rfl := Option.some.inj h
      exact ⟨.gaveUp _ peer htask rfl rfl, rfl⟩
    case h_2 => cases h
  | finish j =>
    simp only [taskStep] at h
    split at h
    case h_1 =>
      obtain rfl := Option.some.inj h
      exact ⟨.moved i peer _ .closing htask hactor rfl rfl (fun h => nomatch h) rfl rfl, rfl⟩
    case h_2 => cases h
  | close j =>
    obtain rfl := Option.some.inj hactor
    simp only [taskStep] at h
    split at h
    case h_1 =>
      obtain rfl := Option.some.inj h
      exact ⟨.closed _ peer htask rfl (by simp [setStage]), removeOpen_maxSessions _ _ _⟩
    case h_2 => cases h

theorem change_of_step {r next : Relay} {step : Step} (h : r.step step = some next) :
    Change r next step ∧ next.maxSessions = r.maxSessions := by
  unfold Relay.step at h
  cases hactor : step.task with
  | none =>
    rw [hactor] at h
    exact change_of_shardStep h
  | some i =>
    rw [hactor] at h
    obtain ⟨task, htask, h⟩ := Option.bind_eq_some_iff.mp h
    exact change_of_taskStep htask hactor h

/-! ## Every slot has its task -/

/-- The slots and the tasks speak of the same sessions. -/
structure SlotsAgree (maxSessions : Nat) (r : Relay) : Prop where
  max : r.maxSessions = maxSessions
  size : r.sessions.entries.length ≤ r.maxSessions
  slot : ∀ {i peer}, r.Opens i peer → ∃ pending, r.sessions.lookup peer = some (.opening pending)
  opener : ∀ {peer pending}, r.sessions.lookup peer = some (.opening pending) →
    ∃ i, r.Opens i peer
  unique : ∀ {i j peer}, r.Opens i peer → r.Opens j peer → i = j
  session : ∀ {peer i}, r.sessions.lookup peer = some (.opened i) →
    ∃ stage, r.tasks[i]? = some { peer, stage } ∧ stage.isRelaying = true

theorem Opens.of_same {r next : Relay} (htasks : next.tasks = r.tasks) {i : Nat}
    {peer : SocketAddr} : next.Opens i peer ↔ r.Opens i peer := by
  unfold Opens
  rw [htasks]

/-- What a replaced stage does to who opens what. -/
theorem opens_set {r next : Relay} {i : Nat} {peer : SocketAddr} {old new : Stage}
    (htask : r.tasks[i]? = some { peer, stage := old })
    (htasks : next.tasks = r.tasks.set i { peer, stage := new }) {j : Nat} {other : SocketAddr} :
    next.Opens j other ↔
      if j = i then other = peer ∧ new.isOpening = true else r.Opens j other := by
  have hlt : i < r.tasks.length := (List.getElem?_eq_some_iff.mp htask).1
  unfold Opens
  rw [htasks]
  by_cases hj : j = i
  · subst hj
    rw [List.getElem?_set_self hlt, if_pos rfl]
    constructor
    · rintro ⟨stage, h, hopening⟩
      obtain ⟨rfl, rfl⟩ := SessionTask.mk.inj (Option.some.inj h)
      exact ⟨rfl, hopening⟩
    · rintro ⟨rfl, hopening⟩
      exact ⟨new, rfl, hopening⟩
  · rw [List.getElem?_set_ne (fun h => hj h.symm), if_neg hj]

theorem opens_append {r next : Relay} {peer : SocketAddr}
    (htasks : next.tasks = r.tasks ++ [{ peer, stage := .connecting }]) {j : Nat}
    {other : SocketAddr} :
    next.Opens j other ↔ r.Opens j other ∨ (j = r.tasks.length ∧ other = peer) := by
  unfold Opens
  rw [htasks]
  rcases Nat.lt_trichotomy j r.tasks.length with hlt | rfl | hgt
  · rw [List.getElem?_append_left hlt]
    constructor
    · exact Or.inl
    · rintro (h | ⟨rfl, -⟩)
      · exact h
      · omega
  · rw [List.getElem?_concat_length, List.getElem?_eq_none (Nat.le_refl _)]
    constructor
    · rintro ⟨stage, h, -⟩
      exact Or.inr ⟨rfl, (SessionTask.mk.inj (Option.some.inj h)).1.symm⟩
    · rintro (⟨_, h, -⟩ | ⟨-, rfl⟩)
      · cases h
      · exact ⟨.connecting, rfl, rfl⟩
  · rw [List.getElem?_eq_none (by simp only [List.length_append, List.length_singleton]; omega),
      List.getElem?_eq_none (Nat.le_of_lt hgt)]
    constructor
    · rintro ⟨_, h, -⟩
      cases h
    · rintro (⟨_, h, -⟩ | ⟨rfl, -⟩)
      · cases h
      · omega

/-! ### Looking slots up after a change -/

theorem lookup_removeOpen (r : Relay) (peer other : SocketAddr) (i : Nat) :
    (r.removeOpen peer i).sessions.lookup other =
      if other = peer ∧ r.sessions.lookup peer = some (.opened i) then none
      else r.sessions.lookup other := by
  unfold removeOpen
  by_cases hown : r.sessions.lookup peer = some (.opened i)
  · simp only [hown, if_true, and_true]
    exact Table.lookup_erase_of r.sessions peer other
  · simp only [hown, if_false, and_false]

/-! ### The slots and the tasks keep agreeing -/

variable {maxSessions : Nat} {r next : Relay}

/-- The tasks with a session still have it. -/
def KeepsSessions (r next : Relay) : Prop :=
  ∀ {i : Nat} {peer : SocketAddr} {stage : Stage}, r.tasks[i]? = some { peer, stage } →
    stage.isRelaying = true →
    ∃ now : Stage, next.tasks[i]? = some { peer, stage := now } ∧ now.isRelaying = true

theorem SlotsAgree.kept (h : SlotsAgree maxSessions r) (hmax : next.maxSessions = r.maxSessions)
    (hsessions : next.sessions = r.sessions)
    (hopens : ∀ {i peer}, next.Opens i peer ↔ r.Opens i peer) (hkeeps : KeepsSessions r next) :
    SlotsAgree maxSessions next where
  max := hmax.trans h.max
  size := by
    rw [hsessions, hmax]
    exact h.size
  slot := by
    intro i peer hi
    rw [hsessions]
    exact h.slot (hopens.mp hi)
  opener := by
    intro peer pending hslot
    rw [hsessions] at hslot
    obtain ⟨i, hi⟩ := h.opener hslot
    exact ⟨i, hopens.mpr hi⟩
  unique := by
    intro i j peer hi hj
    exact h.unique (hopens.mp hi) (hopens.mp hj)
  session := by
    intro peer i hslot
    rw [hsessions] at hslot
    obtain ⟨stage, htask, hstage⟩ := h.session hslot
    exact hkeeps htask hstage

/-- A new queue in an opening slot. -/
theorem SlotsAgree.queued (h : SlotsAgree maxSessions r) {peer : SocketAddr}
    {pending queue : List Packet} (hslot : r.sessions.lookup peer = some (.opening pending))
    (hmax : next.maxSessions = r.maxSessions)
    (hsessions : next.sessions = r.sessions.insert peer (.opening queue))
    (hopens : ∀ {i other}, next.Opens i other ↔ r.Opens i other)
    (hkeeps : KeepsSessions r next) :
    SlotsAgree maxSessions next where
  max := hmax.trans h.max
  size := by
    rw [hsessions, hmax, Table.length_insert_of_some hslot]
    exact h.size
  slot := by
    intro i other hi
    rw [hsessions, Table.lookup_insert_of]
    by_cases hother : other = peer
    · exact ⟨queue, if_pos hother⟩
    · rw [if_neg hother]
      exact h.slot (hopens.mp hi)
  opener := by
    intro other queued hother
    rw [hsessions, Table.lookup_insert_of] at hother
    by_cases heq : other = peer
    · subst heq
      obtain ⟨i, hi⟩ := h.opener hslot
      exact ⟨i, hopens.mpr hi⟩
    · rw [if_neg heq] at hother
      obtain ⟨i, hi⟩ := h.opener hother
      exact ⟨i, hopens.mpr hi⟩
  unique := by
    intro i j other hi hj
    exact h.unique (hopens.mp hi) (hopens.mp hj)
  session := by
    intro other i hother
    rw [hsessions, Table.lookup_insert_of] at hother
    by_cases heq : other = peer
    · rw [if_pos heq] at hother
      cases hother
    · rw [if_neg heq] at hother
      obtain ⟨stage, htask, hstage⟩ := h.session hother
      exact hkeeps htask hstage

theorem SlotsAgree.spawned (h : SlotsAgree maxSessions r) {peer : SocketAddr}
    {pending : List Packet} (hslot : r.sessions.lookup peer = none)
    (hroom : r.sessions.entries.length < r.maxSessions)
    (hmax : next.maxSessions = r.maxSessions)
    (hsessions : next.sessions = r.sessions.insert peer (.opening pending))
    (htasks : next.tasks = r.tasks ++ [{ peer, stage := .connecting }]) :
    SlotsAgree maxSessions next where
  max := hmax.trans h.max
  size := by
    rw [hsessions, hmax, Table.length_insert_of_none hslot]
    omega
  slot := by
    intro i other hi
    rw [hsessions, Table.lookup_insert_of]
    by_cases hother : other = peer
    · exact ⟨pending, if_pos hother⟩
    · rw [if_neg hother]
      rcases (opens_append htasks).mp hi with hold | ⟨-, hnew⟩
      · exact h.slot hold
      · exact absurd hnew hother
  opener := by
    intro other queued hother
    rw [hsessions, Table.lookup_insert_of] at hother
    by_cases heq : other = peer
    · exact ⟨r.tasks.length, (opens_append htasks).mpr (Or.inr ⟨rfl, heq⟩)⟩
    · rw [if_neg heq] at hother
      obtain ⟨i, hi⟩ := h.opener hother
      exact ⟨i, (opens_append htasks).mpr (Or.inl hi)⟩
  unique := by
    -- the new peer had no slot, so nobody was opening it
    have hnobody : ∀ i, ¬ r.Opens i peer := by
      intro i hi
      obtain ⟨_, hsome⟩ := h.slot hi
      rw [hslot] at hsome
      cases hsome
    intro i j other hi hj
    rcases (opens_append htasks).mp hi with hold | ⟨rfl, rfl⟩
    · rcases (opens_append htasks).mp hj with hold' | ⟨rfl, rfl⟩
      · exact h.unique hold hold'
      · exact absurd hold (hnobody i)
    · rcases (opens_append htasks).mp hj with hold' | ⟨rfl, -⟩
      · exact absurd hold' (hnobody j)
      · rfl
  session := by
    intro other i hother
    rw [hsessions, Table.lookup_insert_of] at hother
    by_cases heq : other = peer
    · rw [if_pos heq] at hother
      cases hother
    · rw [if_neg heq] at hother
      obtain ⟨stage, htask, hstage⟩ := h.session hother
      refine ⟨stage, ?_, hstage⟩
      rw [htasks, List.getElem?_append_left (List.getElem?_eq_some_iff.mp htask).1]
      exact htask

/-- A stage that is replaced by another that opens and relays as it did. -/
theorem opens_moved {i : Nat} {peer : SocketAddr} {old new : Stage}
    (htask : r.tasks[i]? = some { peer, stage := old }) (hopening : new.isOpening = old.isOpening)
    (htasks : next.tasks = r.tasks.set i { peer, stage := new }) {j : Nat} {other : SocketAddr} :
    next.Opens j other ↔ r.Opens j other := by
  rw [opens_set htask htasks]
  by_cases hj : j = i
  · subst hj
    rw [if_pos rfl, hopening]
    constructor
    · rintro ⟨rfl, hold⟩
      exact ⟨old, htask, hold⟩
    · rintro ⟨stage, h, hold⟩
      obtain ⟨rfl, rfl⟩ := SessionTask.mk.inj (Option.some.inj (htask.symm.trans h))
      exact ⟨rfl, hold⟩
  · rw [if_neg hj]

theorem keepsSessions_of_same (htasks : next.tasks = r.tasks) : KeepsSessions r next := by
  intro i peer stage htask hstage
  rw [htasks]
  exact ⟨stage, htask, hstage⟩

/-- Replacing the stage of a task that keeps its session, if it has one. -/
theorem keepsSessions_set {i : Nat} {peer : SocketAddr} {old new : Stage}
    (htask : r.tasks[i]? = some { peer, stage := old })
    (hrelaying : old.isRelaying = true → new.isRelaying = true)
    (htasks : next.tasks = r.tasks.set i { peer, stage := new }) : KeepsSessions r next := by
  have hlt : i < r.tasks.length := (List.getElem?_eq_some_iff.mp htask).1
  intro j other stage hother hstage
  rw [htasks]
  by_cases hj : j = i
  · subst hj
    obtain ⟨rfl, rfl⟩ := SessionTask.mk.inj (Option.some.inj (htask.symm.trans hother))
    exact ⟨new, List.getElem?_set_self hlt, hrelaying hstage⟩
  · refine ⟨stage, ?_, hstage⟩
    rw [List.getElem?_set_ne (fun h => hj h.symm)]
    exact hother

/-- A task whose stage changes without it opening anything afterwards. -/
theorem opens_left {i : Nat} {peer : SocketAddr} {old new : Stage}
    (htask : r.tasks[i]? = some { peer, stage := old }) (hnew : new.isOpening = false)
    (htasks : next.tasks = r.tasks.set i { peer, stage := new }) {j : Nat} {other : SocketAddr} :
    next.Opens j other ↔ j ≠ i ∧ r.Opens j other := by
  rw [opens_set htask htasks]
  by_cases hj : j = i
  · simp [hj, hnew]
  · simp [hj]

/-- The opening task stops opening, and its slot is no longer a queue. -/
theorem SlotsAgree.left (h : SlotsAgree maxSessions r) {i : Nat} {peer : SocketAddr}
    {old new : Stage} (htask : r.tasks[i]? = some { peer, stage := old })
    (hold : old.isOpening = true) (hnew : new.isOpening = false)
    (hmax : next.maxSessions = r.maxSessions)
    (hsize : next.sessions.entries.length ≤ r.sessions.entries.length)
    (hothers : ∀ other, other ≠ peer → next.sessions.lookup other = r.sessions.lookup other)
    (htasks : next.tasks = r.tasks.set i { peer, stage := new })
    (hslot : next.sessions.lookup peer = none ∨
      next.sessions.lookup peer = some (.opened i) ∧ new.isRelaying = true) :
    SlotsAgree maxSessions next where
  max := hmax.trans h.max
  size := by
    rw [hmax]
    exact hsize.trans h.size
  slot := by
    intro j other hj
    obtain ⟨hne, hopens⟩ := (opens_left htask hnew htasks).mp hj
    by_cases hother : other = peer
    · subst hother
      exact absurd (h.unique hopens ⟨old, htask, hold⟩) hne
    · rw [hothers other hother]
      exact h.slot hopens
  opener := by
    intro other pending hlookup
    by_cases heq : other = peer
    · subst heq
      rcases hslot with hnone | ⟨hopened, -⟩
      · cases hnone.symm.trans hlookup
      · cases hopened.symm.trans hlookup
    · rw [hothers other heq] at hlookup
      obtain ⟨j, hj⟩ := h.opener hlookup
      refine ⟨j, (opens_left htask hnew htasks).mpr ⟨?_, hj⟩⟩
      rintro rfl
      obtain ⟨stage, hstage, -⟩ := hj
      exact heq (SessionTask.mk.inj (Option.some.inj (hstage.symm.trans htask))).1
  unique := by
    intro j k other hj hk
    exact h.unique ((opens_left htask hnew htasks).mp hj).2
      ((opens_left htask hnew htasks).mp hk).2
  session := by
    intro other j hlookup
    by_cases heq : other = peer
    · subst heq
      rcases hslot with hnone | ⟨hopened, hrelaying⟩
      · cases hnone.symm.trans hlookup
      · obtain rfl := Slot.opened.inj (Option.some.inj (hopened.symm.trans hlookup))
        rw [htasks]
        exact ⟨new, List.getElem?_set_self (List.getElem?_eq_some_iff.mp htask).1, hrelaying⟩
    · rw [hothers other heq] at hlookup
      obtain ⟨stage, hj, hstage⟩ := h.session hlookup
      refine keepsSessions_set htask ?_ htasks hj hstage
      intro hrelaying
      cases old <;> cases hold <;> cases hrelaying

/-- The session is open: its slot changes hands from the opening task to the session. -/
theorem SlotsAgree.opened (h : SlotsAgree maxSessions r) {i : Nat} {peer : SocketAddr}
    {old : Stage} (htask : r.tasks[i]? = some { peer, stage := old })
    (hold : old.isOpening = true) (hmax : next.maxSessions = r.maxSessions)
    (hsessions : next.sessions = r.sessions.insert peer (.opened i))
    (htasks : next.tasks = r.tasks.set i { peer, stage := .relaying }) :
    SlotsAgree maxSessions next := by
  obtain ⟨_, hslot⟩ := h.slot ⟨old, htask, hold⟩
  refine h.left htask hold rfl hmax ?_ ?_ htasks (Or.inr ⟨?_, rfl⟩)
  · rw [hsessions, Table.length_insert_of_some hslot]
  · intro other hother
    rw [hsessions, Table.lookup_insert_of, if_neg hother]
  · rw [hsessions, Table.lookup_insert_of, if_pos rfl]

/-- The opening task gives its slot up. -/
theorem SlotsAgree.gaveUp (h : SlotsAgree maxSessions r) {i : Nat} {peer : SocketAddr}
    {old : Stage} (htask : r.tasks[i]? = some { peer, stage := old })
    (hold : old.isOpening = true) (hmax : next.maxSessions = r.maxSessions)
    (hsessions : next.sessions = r.sessions.erase peer)
    (htasks : next.tasks = r.tasks.set i { peer, stage := .ended }) :
    SlotsAgree maxSessions next := by
  refine h.left htask hold rfl hmax ?_ ?_ htasks (Or.inl ?_)
  · rw [hsessions]
    exact Table.length_erase_le _ _
  · intro other hother
    rw [hsessions, Table.lookup_erase_of, if_neg hother]
  · rw [hsessions, Table.lookup_erase_of, if_pos rfl]

/-- `remove_open` by the shard loop or by the session's own task. -/
theorem SlotsAgree.removed (h : SlotsAgree maxSessions r) {i : Nat} {peer : SocketAddr}
    (hmax : next.maxSessions = r.maxSessions)
    (hsessions : next.sessions = (r.removeOpen peer i).sessions)
    (hopens : ∀ {j other}, next.Opens j other ↔ r.Opens j other)
    (hkeeps : ∀ {j other stage}, r.tasks[j]? = some (SessionTask.mk other stage) →
      stage.isRelaying = true → j ≠ i → next.tasks[j]? = some { peer := other, stage })
    (howner : ∀ {other stage}, r.tasks[i]? = some (SessionTask.mk other stage) →
      other = peer ∨ next.tasks[i]? = r.tasks[i]?) :
    SlotsAgree maxSessions next where
  max := hmax.trans h.max
  size := by
    rw [hsessions, hmax]
    unfold removeOpen
    split
    · exact le_trans (Table.length_erase_le _ _) h.size
    · exact h.size
  slot := by
    intro j other hj
    obtain ⟨pending, hslot⟩ := h.slot (hopens.mp hj)
    refine ⟨pending, ?_⟩
    rw [hsessions, lookup_removeOpen]
    rw [if_neg ?_]
    · exact hslot
    · rintro ⟨rfl, hown⟩
      rw [hslot] at hown
      cases hown
  opener := by
    intro other pending hslot
    rw [hsessions, lookup_removeOpen] at hslot
    split at hslot
    · cases hslot
    · obtain ⟨j, hj⟩ := h.opener hslot
      exact ⟨j, hopens.mpr hj⟩
  unique := by
    intro j k other hj hk
    exact h.unique (hopens.mp hj) (hopens.mp hk)
  session := by
    intro other j hslot
    rw [hsessions, lookup_removeOpen] at hslot
    split at hslot
    · cases hslot
    case isFalse hother =>
      obtain ⟨stage, hj, hstage⟩ := h.session hslot
      by_cases hji : j = i
      · subst hji
        rcases howner hj with rfl | hsame
        · exact absurd ⟨rfl, hslot⟩ hother
        · exact ⟨stage, hsame.trans hj, hstage⟩
      · exact ⟨stage, hkeeps hj hstage hji, hstage⟩

theorem slotsAgree_start (maxSessions : Nat) : SlotsAgree maxSessions { maxSessions } where
  max := rfl
  size := Nat.zero_le _
  slot := by
    rintro i peer ⟨_, h, -⟩
    cases h
  opener := by
    intro peer pending h
    cases h
  unique := by
    rintro i j peer ⟨_, h, -⟩
    cases h
  session := by
    intro peer i h
    cases h

/-- What a step does keeps every slot with its task. -/
theorem SlotsAgree.change {step : Step} (h : SlotsAgree maxSessions r)
    (hchange : Change r next step) (hmax : next.maxSessions = r.maxSessions) :
    SlotsAgree maxSessions next := by
  cases hchange with
  | same hsessions htasks =>
    exact h.kept hmax hsessions (Opens.of_same htasks) (keepsSessions_of_same htasks)
  | queued peer pending packet hslot hsessions htasks =>
    exact h.queued hslot hmax hsessions (Opens.of_same htasks) (keepsSessions_of_same htasks)
  | spawned packet hslot hroom hsessions htasks =>
    exact h.spawned hslot hroom hmax hsessions htasks
  | moved i peer old new htask _ hopening hrelaying _ hsessions htasks =>
    exact h.kept hmax hsessions (opens_moved htask hopening htasks)
      (keepsSessions_set htask (fun hold => hrelaying.trans hold) htasks)
  | taken i peer pending htask _ hslot hsessions htasks =>
    have hopening : (Stage.sending pending).isOpening = (Stage.sending []).isOpening := rfl
    refine h.queued hslot hmax hsessions (opens_moved htask hopening htasks)
      (keepsSessions_set htask ?_ htasks)
    intro hrelaying
    cases hrelaying
  | opened i peer htask _ _ hsessions htasks => exact h.opened htask rfl hmax hsessions htasks
  | gaveUp i peer htask hsessions htasks => exact h.gaveUp htask rfl hmax hsessions htasks
  | closed i peer htask hsessions htasks =>
    have hopening : Stage.ended.isOpening = Stage.closing.isOpening := rfl
    refine h.removed hmax hsessions (opens_moved htask hopening htasks) ?_ ?_
    · intro j other stage hj _ hne
      rw [htasks, List.getElem?_set_ne (fun heq => hne heq.symm)]
      exact hj
    · intro other stage hother
      exact Or.inl (SessionTask.mk.inj (Option.some.inj (hother.symm.trans htask))).1
  | shed i packet rest _ hsessions htasks =>
    refine h.removed hmax hsessions (Opens.of_same htasks) ?_ ?_
    · intro j other stage hj _ _
      rw [htasks]
      exact hj
    · intro other stage _
      exact Or.inr (by rw [htasks])

theorem Reachable.steps {steps : List Step} (h : Reachable maxSessions r)
    (hsteps : r.steps steps = some next) : Reachable maxSessions next := by
  induction steps generalizing r with
  | nil =>
    obtain rfl := Option.some.inj hsteps
    exact h
  | cons step rest ih =>
    obtain ⟨middle, hstep, hrest⟩ := Option.bind_eq_some_iff.mp hsteps
    exact ih (h.step hstep) hrest

theorem slotsAgree_of_reachable (h : Reachable maxSessions r) : SlotsAgree maxSessions r := by
  induction h with
  | start => exact slotsAgree_start maxSessions
  | step _ hstep ih =>
    obtain ⟨hchange, hmax⟩ := change_of_step hstep
    exact ih.change hchange hmax

/-! ## Who changes a slot -/

/-- The task or session a step belongs to. -/
def Step.owner (r : Relay) (step : Step) : Option Nat :=
  match step, r.shard with
  | .shed, .shedding session _ _ => some session
  | _, _ => step.task

/-- Only its own task replaces or removes an opening slot; others add to its queue. -/
theorem opening_kept (h : SlotsAgree maxSessions r) {step : Step} (hstep : r.step step = some next)
    {peer : SocketAddr} {pending : List Packet}
    (hslot : r.sessions.lookup peer = some (.opening pending)) {i : Nat} (hi : r.Opens i peer)
    (hother : step.task ≠ some i) :
    ∃ queue, next.sessions.lookup peer = some (.opening queue) ∧ pending <+: queue := by
  have hkept : ∀ s, s = r.sessions → ∃ queue,
      AList.lookup peer s = some (.opening queue) ∧ pending <+: queue := by
    rintro s rfl
    exact ⟨pending, hslot, List.prefix_refl _⟩
  -- a slot that belongs to another task is another peer's
  have hpeer : ∀ {j other stage}, r.tasks[j]? = some (SessionTask.mk other stage) →
      stage.isOpening = true → step.task = some j → peer ≠ other := by
    rintro j other stage htask hopening hactor rfl
    exact hother (hactor.trans (congrArg some (h.unique ⟨stage, htask, hopening⟩ hi)))
  rcases (change_of_step hstep).1 with
    ⟨hsessions, -⟩ | ⟨other, queued, packet, hqueued, hsessions, -⟩ | ⟨packet, hnone, -, hsessions, -⟩ |
    ⟨j, other, old, new, htask, hactor, -, -, -, hsessions, -⟩ |
    ⟨j, other, queued, htask, hactor, -, hsessions, -⟩ | ⟨j, other, htask, hactor, -, hsessions, -⟩ |
    ⟨j, other, htask, hsessions, -⟩ | ⟨j, other, htask, hsessions, -⟩ |
    ⟨j, packet, rest, -, hsessions, -⟩
  · exact hkept _ hsessions
  · rw [hsessions, Table.lookup_insert_of]
    by_cases heq : peer = other
    · subst heq
      obtain rfl := Slot.opening.inj (Option.some.inj (hslot.symm.trans hqueued))
      refine ⟨_, if_pos rfl, ?_⟩
      unfold pushPending
      split
      · exact List.prefix_append _ _
      · exact List.prefix_refl _
    · rw [if_neg heq]
      exact hkept _ rfl
  · rw [hsessions, Table.lookup_insert_of, if_neg ?_]
    · exact hkept _ rfl
    · rintro rfl
      rw [hslot] at hnone
      cases hnone
  · exact hkept _ hsessions
  · rw [hsessions, Table.lookup_insert_of, if_neg (hpeer htask rfl hactor)]
    exact hkept _ rfl
  · rw [hsessions, Table.lookup_insert_of, if_neg (hpeer htask rfl hactor)]
    exact hkept _ rfl
  · rw [hsessions, Table.lookup_erase_of, if_neg (hpeer htask rfl rfl)]
    exact hkept _ rfl
  · rw [hsessions, lookup_removeOpen, if_neg ?_]
    · exact hkept _ rfl
    · rintro ⟨rfl, hopened⟩
      rw [hslot] at hopened
      cases hopened
  · rw [hsessions, lookup_removeOpen, if_neg ?_]
    · exact hkept _ rfl
    · rintro ⟨rfl, hopened⟩
      rw [hslot] at hopened
      cases hopened

/-- A slot that a step removes is that of the task or session the step belongs to. -/
theorem removed_own {step : Step} (hstep : r.step step = some next) {peer : SocketAddr}
    {slot : Slot} (hslot : r.sessions.lookup peer = some slot)
    (hgone : next.sessions.lookup peer = none) :
    ∃ i, step.owner r = some i ∧ (slot = .opened i ∨ r.Opens i peer) := by
  have hstays : next.sessions ≠ r.sessions := by
    intro heq
    rw [heq, hslot] at hgone
    cases hgone
  have hinsert : ∀ other new, next.sessions ≠ r.sessions.insert other new := by
    intro other new heq
    rw [heq, Table.lookup_insert_of] at hgone
    split at hgone
    · cases hgone
    · rw [hslot] at hgone
      cases hgone
  have hremoved : ∀ other i, next.sessions = (r.removeOpen other i).sessions →
      slot = .opened i := by
    intro other i heq
    rw [heq, lookup_removeOpen] at hgone
    split at hgone
    case isTrue hown =>
      rcases hown with ⟨rfl, hown⟩
      exact Option.some.inj (hslot.symm.trans hown)
    case isFalse =>
      rw [hslot] at hgone
      cases hgone
  rcases (change_of_step hstep).1 with
    ⟨hsessions, -⟩ | ⟨other, queued, packet, -, hsessions, -⟩ | ⟨packet, -, -, hsessions, -⟩ |
    ⟨j, other, old, new, -, -, -, -, -, hsessions, -⟩ | ⟨j, other, queued, -, -, -, hsessions, -⟩ |
    ⟨j, other, -, -, -, hsessions, -⟩ | ⟨j, other, htask, hsessions, -⟩ |
    ⟨j, other, htask, hsessions, -⟩ | ⟨j, packet, rest, hshard, hsessions, -⟩
  · exact absurd hsessions hstays
  · exact absurd hsessions (hinsert _ _)
  · exact absurd hsessions (hinsert _ _)
  · exact absurd hsessions hstays
  · exact absurd hsessions (hinsert _ _)
  · exact absurd hsessions (hinsert _ _)
  · refine ⟨j, rfl, Or.inr ?_⟩
    rw [hsessions, Table.lookup_erase_of] at hgone
    split at hgone
    case isTrue heq =>
      subst heq
      exact ⟨.failed, htask, rfl⟩
    case isFalse =>
      rw [hslot] at hgone
      cases hgone
  · exact ⟨j, rfl, Or.inl (hremoved _ _ hsessions)⟩
  · refine ⟨j, ?_, Or.inl (hremoved _ _ hsessions)⟩
    simp only [Step.owner, hshard]

end PortsBox.Relay
