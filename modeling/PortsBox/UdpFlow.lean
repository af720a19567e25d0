import PortsBox.UdpSessions

/-!
# Where the packets of a UDP session are

A packet waits in a queue, in the batch its task has taken, or in the hands of the
shard loop. `Flow` says once where each step moves packets, between these places
and the history.
-/

set_option autoImplicit false

namespace PortsBox.Relay

variable {maxSessions : Nat} {r next : Relay}

/-! ## Where a packet waits -/

theorem held_of_some {i : Nat} {peer : SocketAddr} {stage : Stage}
    (h : r.tasks[i]? = some { peer, stage }) :
    r.held i = stage.batch ++ if stage.isOpening then r.queueOf peer else [] := by
  unfold held
  rw [h]

theorem held_of_none {i : Nat} (h : r.tasks[i]? = none) : r.held i = [] := by
  unfold held
  rw [h]

theorem held_of_same {i : Nat} (htask : next.tasks[i]? = r.tasks[i]?)
    (hqueue : ∀ peer, r.Opens i peer → next.queueOf peer = r.queueOf peer) :
    next.held i = r.held i := by
  cases h : r.tasks[i]? with
  | none => rw [held_of_none h, held_of_none (htask.trans h)]
  | some task =>
    rcases task with ⟨peer, stage⟩
    rw [held_of_some h, held_of_some (htask.trans h)]
    by_cases hopening : stage.isOpening = true
    · rw [hqueue peer ⟨stage, h, hopening⟩]
    · rw [if_neg hopening, if_neg hopening]

theorem queueOf_of_opening {peer : SocketAddr} {pending : List Packet}
    (h : r.sessions.lookup peer = some (.opening pending)) : r.queueOf peer = pending := by
  unfold queueOf
  rw [h]

theorem queueOf_congr {peer : SocketAddr}
    (h : next.sessions.lookup peer = r.sessions.lookup peer) :
    next.queueOf peer = r.queueOf peer := by
  unfold queueOf
  rw [h]

theorem queueOf_removeOpen {peer : SocketAddr} {i : Nat}
    (hsessions : next.sessions = (r.removeOpen peer i).sessions)
    (other : SocketAddr) : next.queueOf other = r.queueOf other := by
  unfold queueOf
  rw [hsessions, lookup_removeOpen]
  by_cases h : other = peer ∧ r.sessions.lookup peer = some (.opened i)
  · rw [if_pos h, h.1, h.2]
  · rw [if_neg h]

theorem opener_opens {i : Nat} {peer : SocketAddr} (h : r.Opens i peer) :
    r.Opens (r.opener peer) peer := by
  obtain ⟨stage, htask, hopening⟩ := h
  have hex : ∃ task ∈ r.tasks, (task.peer == peer && task.stage.isOpening) = true :=
    ⟨_, List.mem_of_getElem? htask, by simp [hopening]⟩
  have hlt := List.findIdx_lt_length.mpr hex
  have hfound := List.findIdx_getElem (w := hlt)
  simp only [Bool.and_eq_true, beq_iff_eq] at hfound
  refine ⟨_, ?_, hfound.2⟩
  apply (List.getElem?_eq_getElem hlt).trans
  exact congrArg (fun other => some (SessionTask.mk other _)) hfound.1

/-! ## What a step does to the packets -/

/-- The steps sorted by the packets they move. -/
inductive Flow (r next : Relay) : Prop
  | still (arrivals : Nat) (failed : List Nat)
      (hhistory : next.history =
        { r.history with arrivals, failed := r.history.failed ++ failed })
      (hheld : ∀ i, next.held i = r.held i)
      (hflight : ∀ i, next.inFlight i = r.inFlight i ∨ next.inFlight i = [])
  | gaveUp (i : Nat) (peer : SocketAddr) (htask : r.tasks[i]? = some { peer, stage := .failed })
      (hhistory : next.history = r.history) (hheld : ∀ j, j ≠ i → next.held j = r.held j)
      (hgone : next.held i = []) (hflight : ∀ j, next.inFlight j = r.inFlight j)
  | flushed (i : Nat) (packet : Packet) (rest : List Packet) (outcome : Forwarded)
      (hhistory : next.history =
        { forward r.history i packet outcome with
          failed := r.history.failed ++ if outcome = .failed then [i] else [] })
      (hheld : ∀ j, j ≠ i → next.held j = r.held j) (hfirst : r.held i = packet :: rest)
      (hrest : if outcome = .failed then (next.held i).Sublist rest else next.held i = rest)
      (hflight : ∀ j, next.inFlight j = r.inFlight j)
  | forwarded (i : Nat) (packet : Packet) (rest : List Packet) (outcome : Forwarded)
      (hshard : r.shard = .forwarding i packet rest)
      (hhistory : next.history = forward r.history i packet outcome)
      (hheld : ∀ j, next.held j = r.held j) (hflight : ∀ j, next.inFlight j = [])
  | received (packet : Packet)
      (hhistory : next.history =
        { r.history with dispatched := r.history.dispatched ++ [packet] })
      (hheld : ∀ i, next.held i = r.held i) (hbefore : ∀ i, r.inFlight i = [])
      (hflight : ∀ i, next.inFlight i = [] ∨
        next.inFlight i = [packet] ∧ r.sessions.lookup packet.peer = some (.opened i))
  | queued (i : Nat) (packet : Packet) (hopens : r.Opens i packet.peer)
      (hhistory : next.history =
        { r.history with
          dispatched := r.history.dispatched ++ [packet]
          offered := r.history.offered ++ [(i, packet)] })
      (hheld : ∀ j, j ≠ i → next.held j = r.held j) (hlast : next.held i = r.held i ++ [packet])
      (hbefore : ∀ j, r.inFlight j = []) (hflight : ∀ j, next.inFlight j = [])
  | overflowed (i : Nat) (packet : Packet) (pending : List Packet)
      (hslot : r.sessions.lookup packet.peer = some (.opening pending))
      (hfull : maxPendingPackets ≤ pending.length)
      (hhistory : next.history =
        { r.history with
          dispatched := r.history.dispatched ++ [packet]
          offered := r.history.offered ++ [(i, packet)]
          overflowed := r.history.overflowed ++ [(packet, pending.length)] })
      (hheld : ∀ j, next.held j = r.held j) (hbefore : ∀ j, r.inFlight j = [])
      (hflight : ∀ j, next.inFlight j = [])
  | spawned (packet : Packet)
      (hhistory : next.history =
        { r.history with
          dispatched := r.history.dispatched ++ [packet]
          offered := r.history.offered ++ [(r.tasks.length, packet)] })
      (htasks : next.tasks = r.tasks ++ [{ peer := packet.peer, stage := .connecting }])
      (hheld : ∀ j, j ≠ r.tasks.length → next.held j = r.held j)
      (hfirst : next.held r.tasks.length = [packet]) (hbefore : ∀ j, r.inFlight j = [])
      (hflight : ∀ j, next.inFlight j = [])

theorem flow_of_dispatch (h : SlotsAgree maxSessions r) {packet : Packet} {rest : List Packet}
    (hshard : r.shard = .dispatching (packet :: rest)) : Flow r (r.dispatch packet rest) := by
  have hbefore : ∀ i, r.inFlight i = [] := by
    intro i
    unfold inFlight
    rw [hshard]
  unfold dispatch
  cases hslot : r.sessions.lookup packet.peer with
  | none =>
    by_cases hfull : r.sessions.entries.length ≥ r.maxSessions
    · simp only [hslot, hfull, if_true]
      refine .received packet ?_ (fun i => rfl) hbefore (fun i => Or.inl rfl)
      simp only [note, hslot, hfull, if_true]
    · simp only [hslot, hfull, if_false]
      refine .spawned packet ?_ rfl ?_ ?_ hbefore (fun i => rfl)
      · simp only [note, hslot, hfull, if_false]
      · intro j hj
        apply held_of_same
        · by_cases hlt : j < r.tasks.length
          · exact List.getElem?_append_left hlt
          · rw [List.getElem?_eq_none (Nat.le_of_not_lt hlt), List.getElem?_eq_none]
            simp only [List.length_append, List.length_singleton]
            omega
        · intro peer hopens
          apply queueOf_congr
          apply AList.lookup_insert_ne
          rintro rfl
          obtain ⟨_, hsome⟩ := h.slot hopens
          rw [hslot] at hsome
          cases hsome
      · rw [held_of_some List.getElem?_concat_length]
        exact queueOf_of_opening (AList.lookup_insert _)
  | some slot =>
    cases slot with
    | opened session =>
      simp only [hslot]
      refine .received packet ?_ (fun i => rfl) hbefore ?_
      · simp only [note, hslot]
      · intro i
        by_cases hi : session = i
        · subst hi
          exact Or.inr ⟨by simp [inFlight], hslot⟩
        · exact Or.inl (by simp [inFlight, hi])
    | opening pending =>
      simp only [hslot]
      obtain ⟨_, hsome⟩ := h.opener hslot
      have hopens := opener_opens hsome
      have hother : ∀ j peer, r.Opens j peer → j ≠ r.opener packet.peer → peer ≠ packet.peer := by
        rintro j _ hj hne rfl
        exact hne (h.unique hj hopens)
      by_cases hroom : pending.length < maxPendingPackets
      · refine .queued (r.opener packet.peer) packet hopens ?_ ?_ ?_ hbefore (fun i => rfl)
        · simp only [note, hslot, hroom, if_true]
        · intro j hj
          refine held_of_same ?_ ?_
          · rfl
          intro peer hpeer
          apply queueOf_congr
          exact AList.lookup_insert_ne (hother j peer hpeer hj)
        · obtain ⟨stage, htask, hopening⟩ := hopens
          rw [held_of_some htask, hopening, if_pos rfl, queueOf_of_opening hslot,
            List.append_assoc]
          refine Eq.trans (@held_of_some _ _ packet.peer stage ?_) ?_
          · exact htask
          · rw [hopening, if_pos rfl, queueOf_of_opening (AList.lookup_insert _), pushPending,
              if_pos hroom]
      · refine .overflowed (r.opener packet.peer) packet pending hslot (by omega) ?_ ?_ hbefore
          (fun i => rfl)
        · simp only [note, hslot, hroom, if_false]
        · intro j
          refine held_of_same ?_ ?_
          · rfl
          intro peer _
          apply queueOf_congr
          rw [Table.lookup_insert_of]
          by_cases hpeer : peer = packet.peer
          · rw [if_pos hpeer, hpeer, hslot, pushPending, if_neg hroom]
          · rw [if_neg hpeer]

theorem inFlight_of_same (h : next.shard = r.shard) (i : Nat) : next.inFlight i = r.inFlight i := by
  unfold inFlight
  rw [h]

theorem flow_of_shardStep (h : SlotsAgree maxSessions r) {step : Step}
    (hstep : r.shardStep step = some next) : Flow r next := by
  cases step with
  | recv batch exhausted =>
    simp only [shardStep] at hstep
    split at hstep
    · obtain rfl := Option.some.inj hstep
      refine .still (r.history.arrivals + batch.length) [] ?_ (fun i => rfl) (fun i => Or.inr rfl)
      rw [List.append_nil]
    · cases hstep
  | dispatch =>
    simp only [shardStep] at hstep
    split at hstep
    case h_1 packet rest hshard =>
      obtain rfl := Option.some.inj hstep
      exact flow_of_dispatch h hshard
    case h_2 => cases hstep
  | forward outcome =>
    simp only [shardStep] at hstep
    split at hstep
    case h_1 session packet rest hshard =>
      obtain rfl := Option.some.inj hstep
      refine .forwarded session packet rest outcome hshard rfl (fun j => rfl) ?_
      intro j
      unfold inFlight
      split
      case h_1 heq =>
        -- both outcomes leave `forward`
        split at heq
        · cases heq
        · cases heq
      case h_2 => rfl
    case h_2 => cases hstep
  | shed =>
    simp only [shardStep] at hstep
    split at hstep
    case h_1 session packet rest hshard =>
      obtain rfl := Option.some.inj hstep
      refine .still r.history.arrivals [] ?_ ?_ (fun i => Or.inr rfl)
      · simp only [List.append_nil]
        unfold removeOpen
        split <;> rfl
      · intro i
        refine held_of_same ?_ ?_
        · simp
        · intro peer _
          exact queueOf_removeOpen rfl peer
    case h_2 => cases hstep
  | stop =>
    obtain rfl := Option.some.inj hstep
    refine .still r.history.arrivals [] ?_ (fun i => rfl) (fun i => Or.inr rfl)
    rw [List.append_nil]
  | connected | collect | flush | giveUp | finish | close => cases hstep

/-- The tasks that do not take the step hold what they held. -/
theorem held_set_other {i j : Nat} {task : SessionTask} (hne : j ≠ i)
    (htasks : next.tasks = r.tasks.set i task)
    (hqueue : ∀ peer, r.Opens j peer → next.queueOf peer = r.queueOf peer) :
    next.held j = r.held j := by
  apply held_of_same ?_ hqueue
  rw [htasks]
  exact List.getElem?_set_ne (fun heq => hne heq.symm)

theorem held_set_self {i : Nat} {peer : SocketAddr} {old new : Stage}
    (htask : r.tasks[i]? = some { peer, stage := old })
    (htasks : next.tasks = r.tasks.set i { peer, stage := new }) :
    next.held i = new.batch ++ if new.isOpening then next.queueOf peer else [] := by
  apply held_of_some
  rw [htasks]
  exact List.getElem?_set_self (List.getElem?_eq_some_iff.mp htask).1

/-- No task's packets change where the one that takes the step keeps its own. -/
theorem held_set_still {i : Nat} {peer : SocketAddr} {old new : Stage}
    (htask : r.tasks[i]? = some { peer, stage := old })
    (htasks : next.tasks = r.tasks.set i { peer, stage := new })
    (hself : (new.batch ++ if new.isOpening then next.queueOf peer else []) =
      old.batch ++ if old.isOpening then r.queueOf peer else [])
    (hothers : ∀ k ≠ i, ∀ other, r.Opens k other → next.queueOf other = r.queueOf other) (k : Nat) :
    next.held k = r.held k := by
  by_cases hk : k = i
  · subst hk
    rw [held_set_self htask htasks, held_of_some htask]
    exact hself
  · exact held_set_other hk htasks (hothers k hk)

theorem SlotsAgree.other_peer (h : SlotsAgree maxSessions r) {i j : Nat} {peer other : SocketAddr}
    (hi : r.Opens i peer) (hj : r.Opens j other) (hne : j ≠ i) : other ≠ peer := by
  rintro rfl
  exact hne (h.unique hj hi)

theorem flow_of_taskStep (h : SlotsAgree maxSessions r) {i : Nat} {task : SessionTask} {step : Step}
    (htask : r.tasks[i]? = some task) (hactor : step.task = some i)
    (hstep : r.taskStep i task step = some next) : Flow r next := by
  rcases task with ⟨peer, stage⟩
  cases step with
  | recv | dispatch | forward | shed | stop => cases hactor
  | connected j ok =>
    simp only [taskStep] at hstep
    split at hstep
    case h_1 =>
      have hstill : ∀ new : Stage, new.batch = [] → new.isOpening = true → ∀ k,
          (r.setStage i peer new).held k = r.held k := by
        intro new hbatch hopening
        refine @held_set_still r (r.setStage i peer new) i peer _ new htask rfl ?_
          (fun _ _ _ _ => rfl)
        rw [hbatch, hopening]
        rfl
      split at hstep
      · obtain rfl := Option.some.inj hstep
        refine .still r.history.arrivals [] ?_ (hstill _ rfl rfl) (fun k => Or.inl rfl)
        rw [List.append_nil]
        rfl
      · obtain rfl := Option.some.inj hstep
        exact .still r.history.arrivals [i] rfl (hstill .failed rfl rfl) (fun k => Or.inl rfl)
    case h_2 => cases hstep
  | collect j =>
    simp only [taskStep] at hstep
    split at hstep
    case h_1 =>
      have hopens : r.Opens i peer := ⟨_, htask, rfl⟩
      split at hstep
      case h_1 packet pending hslot =>
        obtain rfl := Option.some.inj hstep
        refine .still r.history.arrivals [] ?_ (held_set_still htask rfl ?_ ?_) (fun k => Or.inl rfl)
        · rw [List.append_nil]
          rfl
        · rw [queueOf_of_opening hslot]
          change _ ++ queueOf _ peer = _
          rw [queueOf_of_opening (AList.lookup_insert _)]
          exact List.append_nil _
        · intro k hk other hother
          exact queueOf_congr (AList.lookup_insert_ne (h.other_peer hopens hother hk))
      case h_2 hslot =>
        obtain rfl := Option.some.inj hstep
        refine .still r.history.arrivals [] ?_ (held_set_still htask rfl ?_ ?_) (fun k => Or.inl rfl)
        · rw [List.append_nil]
          rfl
        · obtain ⟨pending, hsome⟩ := h.slot hopens
          rw [queueOf_of_opening hsome]
          cases pending with
          | nil => rfl
          | cons packet pending => exact absurd hsome (hslot packet pending)
        · intro k hk other hother
          exact queueOf_congr (AList.lookup_insert_ne (h.other_peer hopens hother hk))
    case h_2 => cases hstep
  | flush j outcome =>
    simp only [taskStep] at hstep
    split at hstep
    case h_1 packet rest =>
      have hfirst : r.held i = packet :: (rest ++ r.queueOf peer) := held_of_some htask
      split at hstep
      case isTrue hfailed =>
        obtain rfl := Option.some.inj hstep
        refine .flushed i packet (rest ++ r.queueOf peer) outcome ?_ ?_ hfirst ?_ (fun k => rfl)
        · simp only [hfailed, if_true]
          rfl
        · intro k hk
          exact held_set_other hk rfl (fun _ _ => rfl)
        · rw [if_pos hfailed, held_set_self htask rfl]
          exact List.sublist_append_right _ _
      case isFalse hsent =>
        obtain rfl := Option.some.inj hstep
        refine .flushed i packet (rest ++ r.queueOf peer) outcome ?_ ?_ hfirst ?_ (fun k => rfl)
        · simp only [hsent, if_false, List.append_nil]
          cases outcome <;> rfl
        · intro k hk
          exact held_set_other hk rfl (fun _ _ => rfl)
        · rw [if_neg hsent, held_set_self htask rfl]
          rfl
    case h_2 => cases hstep
  | giveUp j =>
    simp only [taskStep] at hstep
    split at hstep
    case h_1 =>
      obtain rfl := Option.some.inj hstep
      refine .gaveUp i peer htask rfl ?_ ?_ (fun k => rfl)
      · intro k hk
        apply held_set_other hk rfl
        intro other hother
        exact queueOf_congr
          (AList.lookup_erase_ne (h.other_peer ⟨_, htask, rfl⟩ hother hk))
      · exact Eq.trans (@held_set_self _ _ i peer _ .ended htask rfl) rfl
    case h_2 => cases hstep
  | finish j =>
    simp only [taskStep] at hstep
    split at hstep
    case h_1 =>
      obtain rfl := Option.some.inj hstep
      refine .still r.history.arrivals [] ?_ (held_set_still htask rfl rfl (fun _ _ _ _ => rfl))
        (fun k => Or.inl rfl)
      rw [List.append_nil]
      rfl
    case h_2 => cases hstep
  | close j =>
    simp only [taskStep] at hstep
    split at hstep
    case h_1 =>
      obtain rfl := Option.some.inj hstep
      refine .still r.history.arrivals [] ?_ ?_ ?_
      · rw [List.append_nil]
        unfold removeOpen
        split <;> rfl
      · refine @held_set_still r _ i peer _ .ended htask ?_ rfl ?_
        · simp [setStage]
        · intro k _ other _
          exact queueOf_removeOpen rfl other
      · intro k
        apply Or.inl
        apply inFlight_of_same
        unfold removeOpen
        split <;> rfl
    case h_2 => cases hstep

theorem flow_of_step (h : SlotsAgree maxSessions r) {step : Step}
    (hstep : r.step step = some next) : Flow r next := by
  unfold Relay.step at hstep
  cases hactor : step.task with
  | none =>
    rw [hactor] at hstep
    exact flow_of_shardStep h hstep
  | some i =>
    rw [hactor] at hstep
    obtain ⟨task, htask, hstep⟩ := Option.bind_eq_some_iff.mp hstep
    exact flow_of_taskStep h htask hactor hstep

end PortsBox.Relay
