import PortsBox.UdpOrder

/-!
# Nothing is lost silently

A packet that met an opening slot is still waiting, or it was sent, or the history has
the reason. With the order of the sends and the owners of the slots this is the
contract of a relay.
-/

set_option autoImplicit false

namespace PortsBox.Relay

variable {maxSessions : Nat} {r next : Relay}

/-! ## Nothing is lost silently -/

/-- Why a packet that met an opening slot is no longer waiting in it. -/
def Accounted (h : History) (i : Nat) (packet : Packet) : Prop :=
  (∃ queued, maxPendingPackets ≤ queued ∧ (packet, queued) ∈ h.overflowed) ∨
    packet ∈ h.refused ∨ { session := i, packet, ok := true } ∈ h.sends ∨ i ∈ h.failed

structure Recorded (r : Relay) : Prop where
  fate : ∀ {i packet}, (i, packet) ∈ r.history.offered →
    Accounted r.history i packet ∨ packet ∈ r.held i
  failed : ∀ {i peer}, r.tasks[i]? = some { peer, stage := .failed } → i ∈ r.history.failed

theorem Accounted.mono {h h' : History} {i : Nat} {packet : Packet} (hold : Accounted h i packet)
    (hoverflowed : h.overflowed ⊆ h'.overflowed) (hrefused : h.refused ⊆ h'.refused)
    (hsends : h.sends ⊆ h'.sends) (hfailed : h.failed ⊆ h'.failed) : Accounted h' i packet := by
  rcases hold with ⟨queued, hfull, hmem⟩ | hmem | hmem | hmem
  · exact Or.inl ⟨queued, hfull, hoverflowed hmem⟩
  · exact Or.inr (Or.inl (hrefused hmem))
  · exact Or.inr (Or.inr (Or.inl (hsends hmem)))
  · exact Or.inr (Or.inr (Or.inr (hfailed hmem)))

theorem subset_forward (h : History) (i : Nat) (packet : Packet) (outcome : Forwarded) :
    h.refused ⊆ (forward h i packet outcome).refused ∧
      h.sends ⊆ (forward h i packet outcome).sends := by
  cases outcome with
  | refused => exact ⟨List.subset_append_left _ _, List.Subset.refl _⟩
  | sent | failed => exact ⟨List.Subset.refl _, List.subset_append_left _ _⟩

theorem accounted_flow (hflow : Flow r next) {i : Nat} {packet : Packet}
    (h : Accounted r.history i packet) : Accounted next.history i packet := by
  have hself : ∀ l : List Packet, l ⊆ l := List.Subset.refl
  cases hflow with
  | still _ _ hhistory =>
    rw [hhistory]
    exact h.mono (List.Subset.refl _) (hself _) (List.Subset.refl _) (List.subset_append_left _ _)
  | gaveUp _ _ _ hhistory =>
    rw [hhistory]
    exact h
  | flushed j other _ outcome hhistory =>
    obtain ⟨hrefused, hsends⟩ := subset_forward r.history j other outcome
    rw [hhistory]
    refine h.mono ?_ hrefused hsends (List.subset_append_left _ _)
    rw [forward_overflowed]
    exact List.Subset.refl _
  | forwarded j other _ outcome _ hhistory =>
    obtain ⟨hrefused, hsends⟩ := subset_forward r.history j other outcome
    rw [hhistory]
    refine h.mono ?_ hrefused hsends ?_
    · rw [forward_overflowed]
      exact List.Subset.refl _
    · rw [forward_failed]
      exact List.Subset.refl _
  | received _ hhistory | queued _ _ _ hhistory | spawned _ hhistory =>
    rw [hhistory]
    exact h
  | overflowed _ _ _ _ _ hhistory =>
    rw [hhistory]
    exact h.mono (List.subset_append_left _ _) (hself _) (List.Subset.refl _) (List.Subset.refl _)

/-- A packet that stops waiting has a reason. -/
theorem held_flow (hflow : Flow r next) (hfailed : ∀ {i peer},
    r.tasks[i]? = some (SessionTask.mk peer .failed) → i ∈ r.history.failed) {i : Nat}
    {packet : Packet} (h : packet ∈ r.held i) :
    Accounted next.history i packet ∨ packet ∈ next.held i := by
  cases hflow with
  | still _ _ _ hheld | received _ _ hheld | overflowed _ _ _ _ _ _ hheld
  | forwarded _ _ _ _ _ _ hheld =>
    exact Or.inr (hheld i ▸ h)
  | gaveUp j peer htask hhistory hheld =>
    by_cases hi : i = j
    · subst hi
      rw [hhistory]
      exact Or.inl (Or.inr (Or.inr (Or.inr (hfailed htask))))
    · exact Or.inr (hheld i hi ▸ h)
  | flushed j other rest outcome hhistory hheld hfirst hrest =>
    by_cases hi : i = j
    · subst hi
      by_cases hout : outcome = .failed
      · rw [hhistory, if_pos hout]
        exact Or.inl (Or.inr (Or.inr (Or.inr List.mem_concat_self)))
      · rw [if_neg hout] at hrest
        rw [hfirst] at h
        rcases List.mem_cons.mp h with rfl | hlater
        · refine Or.inl ?_
          rw [hhistory]
          cases outcome with
          | refused => exact Or.inr (Or.inl List.mem_concat_self)
          | sent => exact Or.inr (Or.inr (Or.inl List.mem_concat_self))
          | failed => exact absurd rfl hout
        · exact Or.inr (hrest ▸ hlater)
    · exact Or.inr (hheld i hi ▸ h)
  | queued j other _ _ hheld hlast =>
    by_cases hi : i = j
    · subst hi
      rw [hlast]
      exact Or.inr (List.mem_append_left _ h)
    · exact Or.inr (hheld i hi ▸ h)
  | spawned other _ _ hheld =>
    exact Or.inr (hheld i (Nat.ne_of_lt (lt_of_held h)) ▸ h)

/-- A packet that a step offers to an opening slot is queued, or the queue was full. -/
theorem offered_flow (hflow : Flow r next) {i : Nat} {packet : Packet}
    (h : (i, packet) ∈ next.history.offered) :
    (i, packet) ∈ r.history.offered ∨ Accounted next.history i packet ∨ packet ∈ next.held i := by
  cases hflow with
  | still _ _ hhistory | gaveUp _ _ _ hhistory | received _ hhistory =>
    rw [hhistory] at h
    exact Or.inl h
  | flushed _ _ _ _ hhistory | forwarded _ _ _ _ _ hhistory =>
    rw [hhistory] at h
    simp only [forward_offered] at h
    exact Or.inl h
  | queued j other _ hhistory _ hlast =>
    rw [hhistory] at h
    rcases List.mem_append.mp h with hold | hnew
    · exact Or.inl hold
    · obtain ⟨rfl, rfl⟩ := Prod.mk.inj (List.mem_singleton.mp hnew)
      rw [hlast]
      exact Or.inr (Or.inr List.mem_concat_self)
  | overflowed j other pending _ hfull hhistory =>
    rw [hhistory] at h ⊢
    rcases List.mem_append.mp h with hold | hnew
    · exact Or.inl hold
    · obtain ⟨rfl, rfl⟩ := Prod.mk.inj (List.mem_singleton.mp hnew)
      exact Or.inr (Or.inl (Or.inl ⟨pending.length, hfull, List.mem_concat_self⟩))
  | spawned other hhistory _ _ hfirst =>
    rw [hhistory] at h
    rcases List.mem_append.mp h with hold | hnew
    · exact Or.inl hold
    · obtain ⟨rfl, rfl⟩ := Prod.mk.inj (List.mem_singleton.mp hnew)
      rw [hfirst]
      exact Or.inr (Or.inr (List.mem_singleton.mpr rfl))

theorem failed_subset (hflow : Flow r next) : r.history.failed ⊆ next.history.failed := by
  cases hflow with
  | still _ _ hhistory | flushed _ _ _ _ hhistory =>
    rw [hhistory]
    exact List.subset_append_left _ _
  | gaveUp _ _ _ hhistory | received _ hhistory | queued _ _ _ hhistory
  | overflowed _ _ _ _ _ hhistory | spawned _ hhistory =>
    rw [hhistory]
    exact List.Subset.refl _
  | forwarded _ _ _ _ _ hhistory =>
    rw [hhistory, forward_failed]
    exact List.Subset.refl _

theorem Recorded.step (h : Recorded r) (hagree : SlotsAgree maxSessions r) {step : Step}
    (hstep : r.step step = some next) : Recorded next where
  fate := by
    intro i packet hoffered
    have hflow := flow_of_step hagree hstep
    rcases offered_flow hflow hoffered with hold | hnew
    · rcases h.fate hold with haccounted | hheld
      · exact Or.inl (accounted_flow hflow haccounted)
      · exact held_flow hflow h.failed hheld
    · exact hnew
  failed := by
    intro i peer hnow
    have hsubset := failed_subset (flow_of_step hagree hstep)
    have hkept : ∀ {tasks}, next.tasks = tasks → tasks[i]? = r.tasks[i]? →
        i ∈ next.history.failed := by
      rintro _ rfl heq
      exact hsubset (h.failed (heq.symm.trans hnow))
    have hset : ∀ {j : Nat} {other : SocketAddr} {old new : Stage},
        r.tasks[j]? = some { peer := other, stage := old } →
        next.tasks = r.tasks.set j { peer := other, stage := new } →
        (new = .failed → j ∈ next.history.failed) → i ∈ next.history.failed := by
      intro j other old new htask htasks hnew
      by_cases hj : j = i
      · subst hj
        rw [htasks, List.getElem?_set_self (List.getElem?_eq_some_iff.mp htask).1] at hnow
        exact hnew (SessionTask.mk.inj (Option.some.inj hnow)).2
      · exact hkept htasks (List.getElem?_set_ne hj)
    rcases (change_of_step hstep).1 with
      ⟨-, htasks⟩ | ⟨_, _, _, -, -, htasks⟩ | ⟨packet, -, -, -, htasks⟩ |
      ⟨_, _, _, _, htask, -, -, -, hfailed, -, htasks⟩ | ⟨_, _, _, htask, -, -, -, htasks⟩ |
      ⟨_, _, htask, -, -, -, htasks⟩ | ⟨_, _, htask, -, htasks⟩ | ⟨_, _, htask, -, htasks⟩ |
      ⟨_, _, _, -, -, htasks⟩
    · exact hkept htasks rfl
    · exact hkept htasks rfl
    · rcases Nat.lt_or_ge i r.tasks.length with hlt | hge
      · exact hkept htasks (List.getElem?_append_left hlt)
      · rw [htasks, List.getElem?_append_right hge, List.getElem?_singleton] at hnow
        split at hnow
        · cases hnow
        · cases hnow
    · exact hset htask htasks hfailed
    · exact hset htask htasks (fun h => nomatch h)
    · exact hset htask htasks (fun h => nomatch h)
    · exact hset htask htasks (fun h => nomatch h)
    · exact hset htask htasks (fun h => nomatch h)
    · exact hkept htasks rfl

theorem recorded_of_reachable (h : Reachable maxSessions r) : Recorded r := by
  induction h with
  | start => exact ⟨(fun h => nomatch h), (fun h => nomatch h)⟩
  | step before hstep ih => exact ih.step (slotsAgree_of_reachable before) hstep

/-! ## The contract of a relay -/

theorem sends_in_order (h : Reachable maxSessions r) {i : Nat} {peer : SocketAddr} {stage : Stage}
    (htask : r.tasks[i]? = some { peer, stage }) :
    (r.sendsOf i).Sublist (r.dispatchedFrom peer) :=
  (List.sublist_append_left _ _).trans ((inOrder_of_reachable h).trail htask)

theorem dispatched_sorted (h : Reachable maxSessions r) :
    r.history.dispatched.Pairwise (·.number < ·.number) :=
  (numbered_of_reachable h).sorted.sublist (List.sublist_append_left _ _)

theorem sends_nodup (h : Reachable maxSessions r) {i : Nat} {peer : SocketAddr} {stage : Stage}
    (htask : r.tasks[i]? = some { peer, stage }) : (r.sendsOf i).Nodup := by
  have hsublist : (r.sendsOf i).Sublist r.history.dispatched :=
    (sends_in_order h htask).trans List.filter_sublist
  apply ((dispatched_sorted h).sublist hsublist).imp
  rintro packet _ hlt rfl
  exact Nat.lt_irrefl _ hlt

/-- Whatever the order of the steps: an opening slot has one task, which alone takes it away;
a session sends a peer's packets in the order they came, each once; a packet that met an
opening slot is waiting, sent or accounted for; a slot is removed by its own task or session;
and the map stays within its limit. -/
theorem relay_contract (h : Reachable maxSessions r) :
    (∀ peer pending, r.sessions.lookup peer = some (.opening pending) →
      ∃! i, r.Opens i peer) ∧
    (∀ step next, r.step step = some next → ∀ peer pending i,
      r.sessions.lookup peer = some (.opening pending) → r.Opens i peer → step.task ≠ some i →
      ∃ queue, next.sessions.lookup peer = some (.opening queue) ∧ pending <+: queue) ∧
    (∀ i peer stage, r.tasks[i]? = some { peer, stage } →
      (r.sendsOf i).Sublist (r.dispatchedFrom peer) ∧ (r.sendsOf i).Nodup ∧
        (r.sendsOf i).Pairwise (·.number < ·.number)) ∧
    (∀ i packet, (i, packet) ∈ r.history.offered →
      Accounted r.history i packet ∨ packet ∈ r.held i) ∧
    (∀ step next, r.step step = some next → ∀ peer slot,
      r.sessions.lookup peer = some slot → next.sessions.lookup peer = none →
      ∃ i, step.owner r = some i ∧ (slot = .opened i ∨ r.Opens i peer)) ∧
    r.sessions.entries.length ≤ maxSessions := by
  have hagree := slotsAgree_of_reachable h
  refine ⟨?_, ?_, ?_, ?_, ?_, ?_⟩
  · intro peer pending hslot
    obtain ⟨i, hi⟩ := hagree.opener hslot
    exact ⟨i, hi, fun j hj => hagree.unique hj hi⟩
  · intro step next hstep peer pending i hslot hi hother
    exact opening_kept hagree hstep hslot hi hother
  · intro i peer stage htask
    have horder := sends_in_order h htask
    refine ⟨horder, sends_nodup h htask, ?_⟩
    exact (dispatched_sorted h).sublist (horder.trans List.filter_sublist)
  · intro i packet hoffered
    exact (recorded_of_reachable h).fate hoffered
  · intro step next hstep peer slot hslot hgone
    exact removed_own hstep hslot hgone
  · exact hagree.max ▸ hagree.size

/-- Three packets of one client: two are queued while the session opens, the third is sent by
the shard loop. -/
def threePackets (peer : SocketAddr) : List Step :=
  [.recv [(peer, [1], 1), (peer, [2], 1)] false, .dispatch, .dispatch, .connected 0 true,
    .collect 0, .flush 0 .sent, .flush 0 .sent, .collect 0, .recv [(peer, [3], 1)] false,
    .dispatch, .forward .sent]

theorem relay_contract_three_packets :
    ∃ r, Relay.steps { maxSessions := 1 } (threePackets (.v4 0x0a000001#32 4000#16)) = some r ∧
      (r.sendsOf 0).map Packet.data = [[1], [2], [3]] ∧
      (r.sendsOf 0).Pairwise (·.number < ·.number) := by
  have hrun : (Relay.steps { maxSessions := 1 } (threePackets (.v4 0x0a000001#32 4000#16))).map
      (fun r => (r.tasks, (r.sendsOf 0).map Packet.data)) =
      some ([{ peer := .v4 0x0a000001#32 4000#16, stage := .relaying }], [[1], [2], [3]]) := by
    decide +kernel
  obtain ⟨r, hr, hfound⟩ := Option.map_eq_some_iff.mp hrun
  obtain ⟨htasks, hdata⟩ := Prod.mk.inj hfound
  have htask : r.tasks[0]? = some { peer := .v4 0x0a000001#32 4000#16, stage := .relaying } := by
    rw [htasks]
    rfl
  refine ⟨r, hr, hdata, ?_⟩
  exact ((relay_contract (Reachable.start.steps hr)).2.2.1 0 _ _ htask).2.2

end PortsBox.Relay
