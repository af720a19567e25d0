import PortsBox.UdpFlow

/-!
# The order of a UDP session

The packets that went through a task, followed by those it holds, are the packets of
its peer in the order of their arrival: a step takes some out or adds the newest at
the end. Arrival numbers grow, so nothing is sent twice.
-/

set_option autoImplicit false

namespace PortsBox.Relay

variable {maxSessions : Nat} {r next : Relay}

/-! ## Order -/

/-- The packets that went through a task, in the order of its sends. -/
def trail (r : Relay) (i : Nat) : List Packet := r.sendsOf i ++ (r.held i ++ r.inFlight i)

structure InOrder (r : Relay) : Prop where
  trail : ∀ {i peer stage}, r.tasks[i]? = some { peer, stage } →
    (r.trail i).Sublist (r.dispatchedFrom peer)
  known : ∀ send ∈ r.history.sends, send.session < r.tasks.length
  flying : ∀ {i packet}, packet ∈ r.inFlight i →
    ∃ stage, r.tasks[i]? = some { peer := packet.peer, stage } ∧ stage.isOpening = false

theorem dispatchedFrom_append {packet : Packet}
    (h : next.history.dispatched = r.history.dispatched ++ [packet]) (peer : SocketAddr) :
    next.dispatchedFrom peer =
      r.dispatchedFrom peer ++ if packet.peer = peer then [packet] else [] := by
  unfold dispatchedFrom
  rw [h, List.filter_append]
  by_cases hpeer : packet.peer = peer
  · simp [hpeer]
  · simp [hpeer]

theorem dispatchedFrom_of_same (h : next.history.dispatched = r.history.dispatched)
    (peer : SocketAddr) : next.dispatchedFrom peer = r.dispatchedFrom peer := by
  unfold dispatchedFrom
  rw [h]

theorem sendsOf_of_same (h : next.history.sends = r.history.sends) (i : Nat) :
    next.sendsOf i = r.sendsOf i := by
  unfold sendsOf
  rw [h]

theorem sendsOf_other {i j : Nat} {packet : Packet} {outcome : Forwarded} (hne : j ≠ i)
    (h : next.history.sends = (forward r.history i packet outcome).sends) :
    next.sendsOf j = r.sendsOf j := by
  unfold sendsOf
  rw [h]
  cases outcome with
  | refused => rfl
  | sent | failed => simp [forward, List.filter_append, Ne.symm hne]

theorem sendsOf_self {i : Nat} {packet : Packet} {outcome : Forwarded}
    (h : next.history.sends = (forward r.history i packet outcome).sends) :
    (next.sendsOf i).Sublist (r.sendsOf i ++ [packet]) := by
  unfold sendsOf
  rw [h]
  cases outcome with
  | refused => exact List.sublist_append_left _ _
  | sent | failed => simp [forward, List.filter_append]

@[simp] theorem forward_dispatched (h : History) (i : Nat) (packet : Packet) (outcome : Forwarded) :
    (forward h i packet outcome).dispatched = h.dispatched := by
  cases outcome <;> rfl

@[simp] theorem forward_offered (h : History) (i : Nat) (packet : Packet) (outcome : Forwarded) :
    (forward h i packet outcome).offered = h.offered := by
  cases outcome <;> rfl

@[simp] theorem forward_overflowed (h : History) (i : Nat) (packet : Packet)
    (outcome : Forwarded) : (forward h i packet outcome).overflowed = h.overflowed := by
  cases outcome <;> rfl

@[simp] theorem forward_failed (h : History) (i : Nat) (packet : Packet) (outcome : Forwarded) :
    (forward h i packet outcome).failed = h.failed := by
  cases outcome <;> rfl

/-- Nothing went through a task that is not there yet. -/
theorem InOrder.trail_nil (h : InOrder r) {i : Nat} (hnone : r.tasks[i]? = none) :
    r.trail i = [] := by
  have hsends : r.sendsOf i = [] := by
    unfold sendsOf
    rw [List.map_eq_nil_iff, List.filter_eq_nil_iff]
    intro send hsend heq
    have hlt := h.known send hsend
    rw [List.getElem?_eq_none_iff] at hnone
    have := eq_of_beq heq
    omega
  have hflight : r.inFlight i = [] := by
    rw [List.eq_nil_iff_forall_not_mem]
    intro packet hmem
    obtain ⟨stage, htask, -⟩ := h.flying hmem
    rw [hnone] at htask
    cases htask
  unfold Relay.trail
  rw [hsends, held_of_none hnone, hflight]
  rfl

/-- An open session has nothing queued. -/
theorem held_of_relaying {i : Nat} {peer : SocketAddr} {stage : Stage}
    (htask : r.tasks[i]? = some { peer, stage }) (hstage : stage.isOpening = false) :
    r.held i = [] := by
  rw [held_of_some htask, hstage]
  cases stage with
  | sending rest => cases hstage
  | connecting | failed | relaying | closing | ended => rfl

/-- The packets of a task stay in order, and new ones join at the end. -/
theorem InOrder.trail_step (h : InOrder r) (hagree : SlotsAgree maxSessions r)
    (hflow : Flow r next) {i : Nat} {peer : SocketAddr} {stage : Stage}
    (hnow : next.tasks[i]? = some { peer, stage })
    (hsame : ∀ {other old}, r.tasks[i]? = some (SessionTask.mk other old) → other = peer) :
    (next.trail i).Sublist (next.dispatchedFrom peer) := by
  have htrail : (r.trail i).Sublist (r.dispatchedFrom peer) := by
    cases htask : r.tasks[i]? with
    | none =>
      rw [h.trail_nil htask]
      exact List.nil_sublist _
    | some task =>
      rcases task with ⟨other, old⟩
      obtain rfl := hsame htask
      exact h.trail htask
  unfold Relay.trail at htrail ⊢
  cases hflow with
  | still arrivals failed hhistory hheld hflight =>
    have hdispatched : next.history.dispatched = r.history.dispatched := by rw [hhistory]
    have hsends : next.history.sends = r.history.sends := by rw [hhistory]
    rw [dispatchedFrom_of_same hdispatched, sendsOf_of_same hsends, hheld]
    refine List.Sublist.trans ?_ htrail
    rcases hflight i with hstays | hnone
    · rw [hstays]
    · rw [hnone]
      exact List.Sublist.append_left (List.Sublist.append_left (List.nil_sublist _) _) _
  | gaveUp j _ _ hhistory hheld hgone hflight =>
    have hdispatched : next.history.dispatched = r.history.dispatched := by rw [hhistory]
    have hsends : next.history.sends = r.history.sends := by rw [hhistory]
    rw [dispatchedFrom_of_same hdispatched, sendsOf_of_same hsends, hflight]
    refine List.Sublist.trans ?_ htrail
    by_cases hj : i = j
    · subst hj
      rw [hgone]
      exact List.Sublist.append_left (List.sublist_append_right _ _) _
    · rw [hheld i hj]
  | flushed j packet rest outcome hhistory hheld hfirst hrest hflight =>
    have hdispatched : next.history.dispatched = r.history.dispatched := by
      rw [hhistory]
      exact forward_dispatched _ _ _ _
    have hsends : next.history.sends = (forward r.history j packet outcome).sends := by
      rw [hhistory]
    rw [dispatchedFrom_of_same hdispatched, hflight]
    refine List.Sublist.trans ?_ htrail
    by_cases hj : i = j
    · subst hj
      have hleft : (next.held i).Sublist rest := by
        split at hrest
        · exact hrest
        · rw [hrest]
      -- the head of what it held becomes the last of what it sent
      rw [hfirst, ← List.append_assoc]
      refine (List.Sublist.append ((sendsOf_self hsends).append hleft)
        (List.Sublist.refl _)).trans ?_
      rw [List.append_assoc, List.append_assoc]
      exact List.Sublist.refl _
    · rw [sendsOf_other hj hsends, hheld i hj]
  | forwarded j packet rest outcome hshard hhistory hheld hflight =>
    have hdispatched : next.history.dispatched = r.history.dispatched := by
      rw [hhistory]
      exact forward_dispatched _ _ _ _
    have hsends : next.history.sends = (forward r.history j packet outcome).sends := by
      rw [hhistory]
    rw [dispatchedFrom_of_same hdispatched, hheld, hflight]
    refine List.Sublist.trans ?_ htrail
    by_cases hj : i = j
    · subst hj
      have hflying : r.inFlight i = [packet] := by simp [inFlight, hshard]
      obtain ⟨now, htask, hopened⟩ := h.flying (hflying ▸ List.mem_singleton.mpr rfl)
      rw [held_of_relaying htask hopened, hflying, List.nil_append, List.nil_append,
        List.append_nil]
      exact sendsOf_self hsends
    · rw [sendsOf_other hj hsends]
      exact List.Sublist.append_left (List.Sublist.append_left (List.nil_sublist _) _) _
  | received packet hhistory hheld hbefore hflight =>
    have hdispatched : next.history.dispatched = r.history.dispatched ++ [packet] := by
      rw [hhistory]
    have hsends : next.history.sends = r.history.sends := by rw [hhistory]
    rw [dispatchedFrom_append hdispatched, sendsOf_of_same hsends, hheld]
    rw [hbefore, List.append_nil] at htrail
    rcases hflight i with hnone | ⟨hflying, hslot⟩
    · rw [hnone, List.append_nil]
      exact htrail.trans (List.sublist_append_left _ _)
    · obtain ⟨now, htask, -⟩ := hagree.session hslot
      rw [hflying, if_pos (hsame htask), ← List.append_assoc]
      exact htrail.append (List.Sublist.refl _)
  | queued j packet hopens hhistory hheld hlast hbefore hflight =>
    have hdispatched : next.history.dispatched = r.history.dispatched ++ [packet] := by
      rw [hhistory]
    have hsends : next.history.sends = r.history.sends := by rw [hhistory]
    rw [dispatchedFrom_append hdispatched, sendsOf_of_same hsends, hflight, List.append_nil]
    rw [hbefore, List.append_nil] at htrail
    by_cases hj : i = j
    · subst hj
      obtain ⟨now, htask, -⟩ := hopens
      rw [hlast, if_pos (hsame htask), ← List.append_assoc]
      exact htrail.append (List.Sublist.refl _)
    · rw [hheld i hj]
      exact htrail.trans (List.sublist_append_left _ _)
  | overflowed j packet pending _ _ hhistory hheld hbefore hflight =>
    have hdispatched : next.history.dispatched = r.history.dispatched ++ [packet] := by
      rw [hhistory]
    have hsends : next.history.sends = r.history.sends := by rw [hhistory]
    rw [dispatchedFrom_append hdispatched, sendsOf_of_same hsends, hheld, hflight,
      List.append_nil]
    rw [hbefore, List.append_nil] at htrail
    exact htrail.trans (List.sublist_append_left _ _)
  | spawned packet hhistory htasks hheld hfirst hbefore hflight =>
    have hdispatched : next.history.dispatched = r.history.dispatched ++ [packet] := by
      rw [hhistory]
    have hsends : next.history.sends = r.history.sends := by rw [hhistory]
    rw [dispatchedFrom_append hdispatched, sendsOf_of_same hsends, hflight, List.append_nil]
    rw [hbefore, List.append_nil] at htrail
    by_cases hi : i = r.tasks.length
    · subst hi
      rw [htasks, List.getElem?_concat_length] at hnow
      have hpeer := (SessionTask.mk.inj (Option.some.inj hnow)).1
      rw [hfirst, if_pos hpeer]
      exact ((List.sublist_append_left _ _).trans htrail).append (List.Sublist.refl _)
    · rw [hheld i hi]
      exact htrail.trans (List.sublist_append_left _ _)

/-- Tasks keep their peers. -/
theorem task_before {step : Step} (h : Change r next step) {i : Nat} {peer : SocketAddr}
    {stage : Stage} (hnow : next.tasks[i]? = some { peer, stage }) {other : SocketAddr} {old : Stage}
    (hold : r.tasks[i]? = some { peer := other, stage := old }) : other = peer := by
  have hkept : ∀ {tasks}, next.tasks = tasks → tasks[i]? = r.tasks[i]? → other = peer := by
    rintro _ rfl heq
    exact (SessionTask.mk.inj (Option.some.inj (hold.symm.trans (heq.symm.trans hnow)))).1
  have hset : ∀ {j other' stage' new}, r.tasks[j]? = some (SessionTask.mk other' stage') →
      next.tasks = r.tasks.set j (SessionTask.mk other' new) → other = peer := by
    intro j other' stage' new htask htasks
    by_cases hj : j = i
    · subst hj
      rw [htasks, List.getElem?_set_self (List.getElem?_eq_some_iff.mp htask).1] at hnow
      rw [htask] at hold
      exact (SessionTask.mk.inj (Option.some.inj hold)).1.symm.trans
        (SessionTask.mk.inj (Option.some.inj hnow)).1
    · exact hkept htasks (List.getElem?_set_ne hj)
  cases h with
  | same _ htasks | queued _ _ _ _ _ htasks | shed _ _ _ _ _ htasks =>
    exact hkept htasks rfl
  | spawned _ _ _ _ htasks =>
    exact hkept htasks (List.getElem?_append_left (List.getElem?_eq_some_iff.mp hold).1)
  | moved _ _ _ _ htask _ _ _ _ _ htasks => exact hset htask htasks
  | taken _ _ _ htask _ _ _ htasks | opened _ _ htask _ _ _ htasks => exact hset htask htasks
  | gaveUp _ _ htask _ htasks | closed _ _ htask _ htasks => exact hset htask htasks

/-- A task that is not opening keeps its peer and never opens again. -/
theorem task_after {step : Step} (h : Change r next step) {i : Nat} {peer : SocketAddr}
    {stage : Stage} (hold : r.tasks[i]? = some { peer, stage }) (hstage : stage.isOpening = false) :
    ∃ now : Stage, next.tasks[i]? = some { peer, stage := now } ∧ now.isOpening = false := by
  have hkept : ∀ {tasks}, next.tasks = tasks → tasks[i]? = r.tasks[i]? →
      ∃ now : Stage, next.tasks[i]? = some { peer, stage := now } ∧ now.isOpening = false := by
    rintro _ rfl heq
    exact ⟨stage, heq.trans hold, hstage⟩
  have hset : ∀ {j : Nat} {other : SocketAddr} {old new : Stage},
      r.tasks[j]? = some { peer := other, stage := old } →
      (old.isOpening = false → new.isOpening = false) →
      next.tasks = r.tasks.set j { peer := other, stage := new } →
      ∃ now : Stage, next.tasks[i]? = some { peer, stage := now } ∧ now.isOpening = false := by
    intro j other old new htask hnew htasks
    by_cases hj : j = i
    · subst hj
      obtain ⟨rfl, rfl⟩ := SessionTask.mk.inj (Option.some.inj (htask.symm.trans hold))
      refine ⟨new, ?_, hnew hstage⟩
      rw [htasks]
      exact List.getElem?_set_self (List.getElem?_eq_some_iff.mp htask).1
    · exact hkept htasks (List.getElem?_set_ne hj)
  cases h with
  | same _ htasks | queued _ _ _ _ _ htasks | shed _ _ _ _ _ htasks =>
    exact hkept htasks rfl
  | spawned _ _ _ _ htasks =>
    exact hkept htasks (List.getElem?_append_left (List.getElem?_eq_some_iff.mp hold).1)
  | moved _ _ _ _ htask _ hopening _ _ _ htasks =>
    exact hset htask (fun h => hopening.trans h) htasks
  | taken _ _ _ htask _ _ _ htasks => exact hset htask (fun hold => nomatch hold) htasks
  | opened _ _ htask _ _ _ htasks => exact hset htask (fun _ => rfl) htasks
  | gaveUp _ _ htask _ htasks | closed _ _ htask _ htasks =>
    exact hset htask (fun _ => rfl) htasks

theorem length_le_of_change {step : Step} (h : Change r next step) :
    r.tasks.length ≤ next.tasks.length := by
  cases h with
  | same _ htasks | queued _ _ _ _ _ htasks | shed _ _ _ _ _ htasks => rw [htasks]
  | spawned _ _ _ _ htasks =>
    rw [htasks, List.length_append]
    exact Nat.le_add_right _ _
  | moved _ _ _ _ _ _ _ _ _ _ htasks | taken _ _ _ _ _ _ _ htasks | opened _ _ _ _ _ _ htasks
  | gaveUp _ _ _ _ htasks | closed _ _ _ _ htasks => rw [htasks, List.length_set]

theorem mem_forward_sends {h : History} {i : Nat} {packet : Packet} {outcome : Forwarded}
    {send : Send} (hsend : send ∈ (forward h i packet outcome).sends) :
    send ∈ h.sends ∨ send.session = i := by
  cases outcome with
  | refused => exact Or.inl hsend
  | sent | failed =>
    rcases List.mem_append.mp hsend with hold | hnew
    · exact Or.inl hold
    · rw [List.mem_singleton.mp hnew]
      exact Or.inr rfl

theorem lt_of_held {i : Nat} {packet : Packet} (h : packet ∈ r.held i) : i < r.tasks.length := by
  by_contra hge
  rw [held_of_none (List.getElem?_eq_none (Nat.le_of_not_lt hge))] at h
  cases h

theorem InOrder.step (h : InOrder r) (hagree : SlotsAgree maxSessions r) {step : Step}
    (hstep : r.step step = some next) : InOrder next where
  trail := by
    intro i peer stage hnow
    exact h.trail_step hagree (flow_of_step hagree hstep) hnow
      (fun hold => task_before (change_of_step hstep).1 hnow hold)
  known := by
    have hlength := length_le_of_change (change_of_step hstep).1
    have hold : ∀ send ∈ r.history.sends, send.session < next.tasks.length := by
      intro send hsend
      exact lt_of_lt_of_le (h.known send hsend) hlength
    intro send hsend
    rcases flow_of_step hagree hstep with
      ⟨_, _, hhistory, -, -⟩ | ⟨_, _, -, hhistory, -, -, -⟩ |
      ⟨i, packet, rest, outcome, hhistory, -, hfirst, -, -⟩ |
      ⟨i, packet, rest, outcome, hshard, hhistory, -, -⟩ | ⟨_, hhistory, -, -, -⟩ |
      ⟨_, _, -, hhistory, -, -, -, -⟩ | ⟨_, _, _, -, -, hhistory, -, -, -⟩ |
      ⟨_, hhistory, -, -, -, -, -⟩
    all_goals rw [hhistory] at hsend
    · exact hold send hsend
    · exact hold send hsend
    · rcases mem_forward_sends hsend with hbefore | hself
      · exact hold send hbefore
      · rw [hself]
        exact lt_of_lt_of_le (lt_of_held (hfirst ▸ List.mem_cons_self)) hlength
    · rcases mem_forward_sends hsend with hbefore | hself
      · exact hold send hbefore
      · have hflying : packet ∈ r.inFlight i := by simp [inFlight, hshard]
        obtain ⟨_, htask, -⟩ := h.flying hflying
        rw [hself]
        exact lt_of_lt_of_le (List.getElem?_eq_some_iff.mp htask).1 hlength
    · exact hold send hsend
    · exact hold send hsend
    · exact hold send hsend
    · exact hold send hsend
  flying := by
    intro i packet hmem
    have hstays : packet ∈ r.inFlight i →
        ∃ stage, next.tasks[i]? = some { peer := packet.peer, stage } ∧
          stage.isOpening = false := by
      intro hbefore
      obtain ⟨stage, htask, hopened⟩ := h.flying hbefore
      exact task_after (change_of_step hstep).1 htask hopened
    rcases flow_of_step hagree hstep with
      ⟨_, _, -, -, hflight⟩ | ⟨_, _, -, -, -, -, hflight⟩ | ⟨_, _, _, _, -, -, -, -, hflight⟩ |
      ⟨_, _, _, _, -, -, -, hflight⟩ | ⟨_, -, -, -, hflight⟩ | ⟨_, _, -, -, -, -, -, hflight⟩ |
      ⟨_, _, _, -, -, -, -, -, hflight⟩ | ⟨_, -, -, -, -, -, hflight⟩
    · rcases hflight i with hsame | hnone
      · exact hstays (hsame ▸ hmem)
      · rw [hnone] at hmem
        cases hmem
    · exact hstays (hflight i ▸ hmem)
    · exact hstays (hflight i ▸ hmem)
    · rw [hflight] at hmem
      cases hmem
    · rcases hflight i with hnone | ⟨hflying, hslot⟩
      · rw [hnone] at hmem
        cases hmem
      · rw [hflying] at hmem
        obtain rfl := List.mem_singleton.mp hmem
        obtain ⟨stage, htask, hstage⟩ := hagree.session hslot
        refine task_after (change_of_step hstep).1 htask ?_
        cases stage <;> cases hstage <;> rfl
    · rw [hflight] at hmem
      cases hmem
    · rw [hflight] at hmem
      cases hmem
    · rw [hflight] at hmem
      cases hmem

theorem inOrder_start (maxSessions : Nat) : InOrder { maxSessions } where
  trail := by
    intro i peer stage h
    cases h
  known := by
    intro send h
    cases h
  flying := by
    intro i packet h
    cases h

theorem inOrder_of_reachable (h : Reachable maxSessions r) : InOrder r := by
  induction h with
  | start => exact inOrder_start maxSessions
  | step before hstep ih => exact ih.step (slotsAgree_of_reachable before) hstep

/-! ## Arrival numbers -/

/-- The packets of the last batch that the shard loop has not dispatched. -/
def waiting (r : Relay) : List Packet :=
  match r.shard with
  | .dispatching rest | .forwarding _ _ rest | .shedding _ _ rest => rest
  | .stopped => []

theorem waiting_of_same (h : next.shard = r.shard) : next.waiting = r.waiting := by
  unfold waiting
  rw [h]

/-- The packets are dispatched in the order they were received in. -/
structure Numbered (r : Relay) : Prop where
  sorted : (r.history.dispatched ++ r.waiting).Pairwise (·.number < ·.number)
  below : ∀ packet ∈ r.history.dispatched ++ r.waiting, packet.number < r.history.arrivals

theorem numbered_spec (first : Nat) (batch : List (SocketAddr × List UInt8 × Nat)) :
    (numbered first batch).Pairwise (·.number < ·.number) ∧
      ∀ packet ∈ numbered first batch,
        first ≤ packet.number ∧ packet.number < first + batch.length := by
  induction batch generalizing first with
  | nil => exact ⟨List.Pairwise.nil, fun _ h => nomatch h⟩
  | cons row batch ih =>
    rcases row with ⟨peer, data, stride⟩
    obtain ⟨hsorted, hrange⟩ := ih (first + 1)
    constructor
    · refine List.pairwise_cons.mpr ⟨?_, hsorted⟩
      intro packet hmem
      exact (hrange packet hmem).1
    · intro packet hmem
      rw [List.length_cons]
      rcases List.mem_cons.mp hmem with rfl | hrest
      · exact ⟨Nat.le_refl _, by simp only; omega⟩
      · have := hrange packet hrest
        omega

theorem Numbered.of_sublist (h : Numbered r)
    (hsublist : (next.history.dispatched ++ next.waiting).Sublist
      (r.history.dispatched ++ r.waiting))
    (harrivals : r.history.arrivals ≤ next.history.arrivals) : Numbered next where
  sorted := h.sorted.sublist hsublist
  below := by
    intro packet hmem
    exact lt_of_lt_of_le (h.below packet (hsublist.subset hmem)) harrivals

/-- A task leaves the shard loop and what it has dispatched alone. -/
theorem shard_of_taskStep {i : Nat} {task : SessionTask} {step : Step}
    (hstep : r.taskStep i task step = some next) :
    next.waiting = r.waiting ∧ next.history.arrivals = r.history.arrivals ∧
      next.history.dispatched = r.history.dispatched := by
  have hremove : ∀ peer, (r.removeOpen peer i).shard = r.shard ∧
      (r.removeOpen peer i).history = r.history := by
    intro peer
    unfold removeOpen
    split
    · exact ⟨rfl, rfl⟩
    · exact ⟨rfl, rfl⟩
  have hforward : ∀ packet outcome,
      (forward r.history i packet outcome).arrivals = r.history.arrivals := by
    intro packet outcome
    cases outcome <;> rfl
  cases step with
  | recv | dispatch | forward | shed | stop => cases hstep
  | connected | collect =>
    simp only [taskStep] at hstep
    split at hstep
    · split at hstep
      · obtain rfl := Option.some.inj hstep
        exact ⟨rfl, rfl, rfl⟩
      · obtain rfl := Option.some.inj hstep
        exact ⟨rfl, rfl, rfl⟩
    · cases hstep
  | flush j outcome =>
    simp only [taskStep] at hstep
    split at hstep
    · split at hstep
      · obtain rfl := Option.some.inj hstep
        exact ⟨rfl, hforward _ _, forward_dispatched _ _ _ _⟩
      · obtain rfl := Option.some.inj hstep
        exact ⟨rfl, hforward _ _, forward_dispatched _ _ _ _⟩
    · cases hstep
  | giveUp | finish =>
    simp only [taskStep] at hstep
    split at hstep
    · obtain rfl := Option.some.inj hstep
      exact ⟨rfl, rfl, rfl⟩
    · cases hstep
  | close j =>
    simp only [taskStep] at hstep
    split at hstep
    · obtain rfl := Option.some.inj hstep
      obtain ⟨hshard, hhistory⟩ := hremove task.peer
      exact ⟨waiting_of_same hshard, congrArg History.arrivals hhistory,
        congrArg History.dispatched hhistory⟩
    · cases hstep

theorem waiting_of_shard {rest : List Packet} (h : r.shard = .dispatching rest) :
    r.waiting = rest := by
  unfold waiting
  rw [h]

theorem Numbered.shardStep (h : Numbered r) {step : Step}
    (hstep : r.shardStep step = some next) : Numbered next := by
  cases step with
  | recv batch exhausted =>
    simp only [Relay.shardStep] at hstep
    split at hstep
    case h_1 hshard =>
      obtain rfl := Option.some.inj hstep
      have hbefore : r.history.dispatched ++ r.waiting = r.history.dispatched := by
        rw [waiting_of_shard hshard, List.append_nil]
      obtain ⟨hsorted, hrange⟩ := numbered_spec r.history.arrivals batch
      have hdispatched : r.history.dispatched.Pairwise (·.number < ·.number) := hbefore ▸ h.sorted
      have hbelow : ∀ packet ∈ r.history.dispatched, packet.number < r.history.arrivals := by
        intro packet hmem
        exact h.below packet (hbefore.symm ▸ hmem)
      cases exhausted with
      | true =>
        apply h.of_sublist
        · rw [hbefore]
          change (r.history.dispatched ++ []).Sublist _
          rw [List.append_nil]
        · exact Nat.le_add_right _ _
      | false =>
        constructor
        · apply List.pairwise_append.mpr
          refine ⟨hdispatched, hsorted, ?_⟩
          intro packet hmem other hother
          exact lt_of_lt_of_le (hbelow packet hmem) (hrange other hother).1
        · intro packet hmem
          rcases List.mem_append.mp hmem with hold | hnew
          · exact lt_of_lt_of_le (hbelow packet hold) (Nat.le_add_right _ _)
          · exact (hrange packet hnew).2
    case h_2 => cases hstep
  | dispatch =>
    simp only [Relay.shardStep] at hstep
    split at hstep
    case h_1 packet rest hshard =>
      obtain rfl := Option.some.inj hstep
      have hdispatched : (r.dispatch packet rest).history = r.note packet := by
        unfold dispatch
        simp only
        split
        · rfl
        · rfl
        · split <;> rfl
      have hnote : (r.note packet).dispatched = r.history.dispatched ++ [packet] ∧
          (r.note packet).arrivals = r.history.arrivals := by
        unfold note
        split
        · exact ⟨rfl, rfl⟩
        · simp only
          split <;> exact ⟨rfl, rfl⟩
        · split <;> exact ⟨rfl, rfl⟩
      have hwaiting : (r.dispatch packet rest).waiting = rest := by
        unfold dispatch
        simp only
        split
        · rfl
        · rfl
        · split <;> rfl
      apply h.of_sublist
      · rw [hdispatched, hnote.1, hwaiting, waiting_of_shard hshard, List.append_assoc]
        exact List.Sublist.refl _
      · rw [hdispatched, hnote.2]
    case h_2 => cases hstep
  | forward outcome =>
    simp only [Relay.shardStep] at hstep
    split at hstep
    case h_1 session packet rest hshard =>
      obtain rfl := Option.some.inj hstep
      have hwaiting : r.waiting = rest := by
        unfold waiting
        rw [hshard]
      apply h.of_sublist
      · simp only [forward_dispatched, hwaiting]
        apply List.Sublist.append_left
        unfold waiting
        by_cases hfailed : outcome = .failed
        · simp only [hfailed, if_true]
          exact List.Sublist.refl _
        · simp only [hfailed, if_false]
          exact List.Sublist.refl _
      · cases outcome <;> exact Nat.le_refl _
    case h_2 => cases hstep
  | shed =>
    simp only [Relay.shardStep] at hstep
    split at hstep
    case h_1 session packet rest hshard =>
      obtain rfl := Option.some.inj hstep
      have hwaiting : r.waiting = rest := by
        unfold waiting
        rw [hshard]
      have hhistory : (r.removeOpen packet.peer session).history = r.history := by
        unfold removeOpen
        split <;> rfl
      apply h.of_sublist
      · rw [hwaiting]
        simp only [hhistory]
        exact List.Sublist.refl _
      · simp only [hhistory, le_refl]
    case h_2 => cases hstep
  | stop =>
    obtain rfl := Option.some.inj hstep
    apply h.of_sublist
    · exact List.Sublist.append_left (List.nil_sublist _) _
    · exact Nat.le_refl _
  | connected | collect | flush | giveUp | finish | close => cases hstep

theorem Numbered.step (h : Numbered r) {step : Step} (hstep : r.step step = some next) :
    Numbered next := by
  unfold Relay.step at hstep
  cases hactor : step.task with
  | none =>
    rw [hactor] at hstep
    exact h.shardStep hstep
  | some i =>
    rw [hactor] at hstep
    obtain ⟨task, -, hstep⟩ := Option.bind_eq_some_iff.mp hstep
    obtain ⟨hwaiting, harrivals, hdispatched⟩ := shard_of_taskStep hstep
    apply h.of_sublist
    · rw [hwaiting, hdispatched]
    · rw [harrivals]

theorem numbered_of_reachable (h : Reachable maxSessions r) : Numbered r := by
  induction h with
  | start => exact ⟨List.Pairwise.nil, fun _ h => nomatch h⟩
  | step _ hstep ih => exact ih.step hstep

end PortsBox.Relay
