import PortsBox.UdpSessions

/-!
# The session limit of a listener

Each relay bounds its own map by its share of the limit. As long as the shard loop
never removes the entry of a session that is still relayed, the map has one entry
for each live session, and the shares add up to the limit exactly when the number
of shards divides it.
-/

set_option autoImplicit false

namespace PortsBox

namespace Relay

variable {maxSessions : Nat} {r next : Relay}

/-- The step does not remove the entry of a session whose send failed: its own downstream task
has done so already. -/
def KeepsEntries (r : Relay) (step : Step) : Prop :=
  ∀ session packet rest, step = .shed → r.shard = .shedding session packet rest →
    r.sessions.lookup packet.peer ≠ some (.opened session)

/-- Every session that is still relayed has its slot. -/
structure NoOrphans (r : Relay) : Prop where
  slot : ∀ {i peer stage}, r.tasks[i]? = some { peer, stage } → stage.isRelaying = true →
    r.sessions.lookup peer = some (.opened i)
  count : r.tasks.countP (fun task => task.stage.isRelaying) =
    Table.countBy (fun slot => !slot.isOpening) r.sessions

theorem countP_set_stage {i : Nat} {peer : SocketAddr} {old new : Stage}
    (htask : r.tasks[i]? = some { peer, stage := old }) :
    (r.tasks.set i { peer, stage := new }).countP (fun task => task.stage.isRelaying) +
        old.isRelaying.toNat =
      r.tasks.countP (fun task => task.stage.isRelaying) + new.isRelaying.toNat := by
  obtain ⟨hlt, hget⟩ := List.getElem?_eq_some_iff.mp htask
  have hnat : ∀ b : Bool, (if b = true then 1 else 0) = b.toNat := by
    intro b
    cases b <;> rfl
  have hpos : old.isRelaying.toNat ≤ r.tasks.countP (fun task => task.stage.isRelaying) := by
    cases hold : old.isRelaying with
    | false => exact Nat.zero_le _
    | true => exact List.countP_pos_iff.mpr ⟨_, List.mem_of_getElem? htask, hold⟩
  rw [List.countP_set hlt, hget]
  simp only [hnat]
  omega

/-- The tasks that relay after the step relayed before it. -/
def RelaysNoMore (r next : Relay) : Prop :=
  ∀ {i : Nat} {peer : SocketAddr} {stage : Stage}, next.tasks[i]? = some { peer, stage } →
    stage.isRelaying = true →
    ∃ old : Stage, r.tasks[i]? = some { peer, stage := old } ∧ old.isRelaying = true

theorem relaysNoMore_of_same (htasks : next.tasks = r.tasks) : RelaysNoMore r next := by
  intro i peer stage htask hstage
  exact ⟨stage, htasks ▸ htask, hstage⟩

theorem relaysNoMore_set {i : Nat} {peer : SocketAddr} {old new : Stage}
    (htask : r.tasks[i]? = some { peer, stage := old })
    (htasks : next.tasks = r.tasks.set i { peer, stage := new })
    (hnew : new.isRelaying = true → old.isRelaying = true) : RelaysNoMore r next := by
  intro j other stage hnow hstage
  rw [htasks] at hnow
  by_cases hj : i = j
  · subst hj
    rw [List.getElem?_set_self (List.getElem?_eq_some_iff.mp htask).1] at hnow
    obtain ⟨rfl, rfl⟩ := SessionTask.mk.inj (Option.some.inj hnow)
    exact ⟨old, htask, hnew hstage⟩
  · rw [List.getElem?_set_ne hj] at hnow
    exact ⟨stage, hnow, hstage⟩

theorem relaysNoMore_append {peer : SocketAddr}
    (htasks : next.tasks = r.tasks ++ [{ peer, stage := .connecting }]) : RelaysNoMore r next := by
  intro i other stage hnow hstage
  rw [htasks] at hnow
  rcases Nat.lt_or_ge i r.tasks.length with hlt | hge
  · rw [List.getElem?_append_left hlt] at hnow
    exact ⟨stage, hnow, hstage⟩
  · rw [List.getElem?_append_right hge, List.getElem?_singleton] at hnow
    split at hnow
    · obtain ⟨-, rfl⟩ := SessionTask.mk.inj (Option.some.inj hnow)
      cases hstage
    · cases hnow

/-- An opening slot gets a new queue, or a free one is taken. -/
theorem NoOrphans.queued (h : NoOrphans r) {peer : SocketAddr} {queue : List Packet}
    (hslot : ∀ i, r.sessions.lookup peer ≠ some (.opened i))
    (hsessions : next.sessions = r.sessions.insert peer (.opening queue))
    (hrelays : RelaysNoMore r next)
    (hcount : next.tasks.countP (fun task => task.stage.isRelaying) =
      r.tasks.countP fun task => task.stage.isRelaying) : NoOrphans next where
  slot := by
    intro i other stage htask hstage
    obtain ⟨old, hold, hrelaying⟩ := hrelays htask hstage
    have hopened := h.slot hold hrelaying
    rw [hsessions, Table.lookup_insert_of, if_neg ?_]
    · exact hopened
    · rintro rfl
      exact hslot i hopened
  count := by
    have hinsert := Table.countBy_insert (fun slot => !slot.isOpening) r.sessions peer
      (.opening queue)
    have hshare : Table.share (fun slot => !slot.isOpening) r.sessions peer = 0 := by
      cases hlookup : r.sessions.lookup peer with
      | none => exact Table.share_of_none hlookup
      | some slot =>
        cases slot with
        | opening pending => exact Table.share_of_some hlookup
        | opened i => exact absurd hlookup (hslot i)
    rw [hshare] at hinsert
    rw [hcount, h.count, hsessions]
    exact hinsert.symm

theorem NoOrphans.kept (h : NoOrphans r) (hsessions : next.sessions = r.sessions)
    (hrelays : RelaysNoMore r next)
    (hcount : next.tasks.countP (fun task => task.stage.isRelaying) =
      r.tasks.countP fun task => task.stage.isRelaying) : NoOrphans next where
  slot := by
    intro i other stage htask hstage
    obtain ⟨old, hold, hrelaying⟩ := hrelays htask hstage
    rw [hsessions]
    exact h.slot hold hrelaying
  count := by rw [hcount, h.count, hsessions]

theorem NoOrphans.opened (h : NoOrphans r) (hagree : SlotsAgree maxSessions r) {i : Nat}
    {peer : SocketAddr} (htask : r.tasks[i]? = some { peer, stage := .sending [] })
    (hsessions : next.sessions = r.sessions.insert peer (.opened i))
    (htasks : next.tasks = r.tasks.set i { peer, stage := .relaying }) : NoOrphans next := by
  obtain ⟨pending, hslot⟩ := hagree.slot ⟨_, htask, rfl⟩
  constructor
  · intro j other stage hnow hstage
    rw [hsessions, Table.lookup_insert_of]
    rw [htasks] at hnow
    by_cases hj : i = j
    · subst hj
      rw [List.getElem?_set_self (List.getElem?_eq_some_iff.mp htask).1] at hnow
      obtain ⟨rfl, -⟩ := SessionTask.mk.inj (Option.some.inj hnow)
      rw [if_pos rfl]
    · rw [List.getElem?_set_ne hj] at hnow
      have hopened := h.slot hnow hstage
      rw [if_neg ?_]
      · exact hopened
      · rintro rfl
        rw [hslot] at hopened
        cases hopened
  · have hset := @countP_set_stage r i peer _ .relaying htask
    have hinsert := Table.countBy_insert (fun slot => !slot.isOpening) r.sessions peer (.opened i)
    rw [Table.share_of_some hslot] at hinsert
    rw [htasks, hsessions]
    have hcount := h.count
    change _ + 0 = _ + 1 at hset
    change _ + 0 = _ + 1 at hinsert
    omega

theorem NoOrphans.gaveUp (h : NoOrphans r) (hagree : SlotsAgree maxSessions r) {i : Nat}
    {peer : SocketAddr} (htask : r.tasks[i]? = some { peer, stage := .failed })
    (hsessions : next.sessions = r.sessions.erase peer)
    (htasks : next.tasks = r.tasks.set i { peer, stage := .ended }) : NoOrphans next := by
  obtain ⟨pending, hslot⟩ := hagree.slot ⟨_, htask, rfl⟩
  constructor
  · intro j other stage hnow hstage
    obtain ⟨old, hold, hrelaying⟩ := relaysNoMore_set htask htasks (fun h => nomatch h) hnow hstage
    have hopened := h.slot hold hrelaying
    rw [hsessions, Table.lookup_erase_of, if_neg ?_]
    · exact hopened
    · rintro rfl
      rw [hslot] at hopened
      cases hopened
  · have hset := @countP_set_stage r i peer _ .ended htask
    have herase := Table.countBy_erase (fun slot => !slot.isOpening) r.sessions peer
    rw [Table.share_of_some hslot] at herase
    rw [htasks, hsessions]
    have hcount := h.count
    change _ + 0 = _ + 0 at hset
    change _ + 0 = _ at herase
    omega

theorem NoOrphans.closed (h : NoOrphans r) {i : Nat} {peer : SocketAddr}
    (htask : r.tasks[i]? = some { peer, stage := .closing })
    (hsessions : next.sessions = (r.removeOpen peer i).sessions)
    (htasks : next.tasks = r.tasks.set i { peer, stage := .ended }) : NoOrphans next := by
  have hslot : r.sessions.lookup peer = some (.opened i) := h.slot htask rfl
  have herased : next.sessions = r.sessions.erase peer := by
    rw [hsessions]
    unfold removeOpen
    rw [if_pos hslot]
  constructor
  · intro j other stage hnow hstage
    rw [herased, Table.lookup_erase_of]
    rw [htasks] at hnow
    by_cases hj : i = j
    · subst hj
      rw [List.getElem?_set_self (List.getElem?_eq_some_iff.mp htask).1] at hnow
      obtain ⟨-, rfl⟩ := SessionTask.mk.inj (Option.some.inj hnow)
      cases hstage
    · rw [List.getElem?_set_ne hj] at hnow
      have hopened := h.slot hnow hstage
      rw [if_neg ?_]
      · exact hopened
      · rintro rfl
        rw [hslot] at hopened
        exact hj (Slot.opened.inj (Option.some.inj hopened))
  · have hset := @countP_set_stage r i peer _ .ended htask
    have herase := Table.countBy_erase (fun slot => !slot.isOpening) r.sessions peer
    rw [Table.share_of_some hslot] at herase
    rw [htasks, herased]
    have hcount := h.count
    change _ + 1 = _ + 0 at hset
    change _ + 1 = _ at herase
    omega

theorem NoOrphans.change {step : Step} (h : NoOrphans r) (hagree : SlotsAgree maxSessions r)
    (hkeeps : KeepsEntries r step) (hchange : Change r next step) : NoOrphans next := by
  have hset : ∀ {i : Nat} {peer : SocketAddr} {old new : Stage},
      r.tasks[i]? = some { peer, stage := old } →
      next.tasks = r.tasks.set i { peer, stage := new } → new.isRelaying = old.isRelaying →
      next.tasks.countP (fun task => task.stage.isRelaying) =
        r.tasks.countP fun task => task.stage.isRelaying := by
    intro i peer old new htask htasks hsame
    have := @countP_set_stage r i peer _ new htask
    rw [htasks]
    rw [hsame] at this
    omega
  cases hchange with
  | same hsessions htasks =>
    exact h.kept hsessions (relaysNoMore_of_same htasks) (by rw [htasks])
  | queued peer pending packet hslot hsessions htasks =>
    refine h.queued ?_ hsessions (relaysNoMore_of_same htasks) (by rw [htasks])
    intro i hopened
    rw [hslot] at hopened
    cases hopened
  | spawned packet hslot _ hsessions htasks =>
    refine h.queued ?_ hsessions (relaysNoMore_append htasks) ?_
    · intro i hopened
      rw [hslot] at hopened
      cases hopened
    · rw [htasks, List.countP_append]
      rfl
  | moved i peer old new htask _ _ hrelaying _ hsessions htasks =>
    exact h.kept hsessions (relaysNoMore_set htask htasks (fun hnew => hrelaying ▸ hnew))
      (hset htask htasks hrelaying)
  | taken i peer pending htask _ hslot hsessions htasks =>
    refine h.queued ?_ hsessions (relaysNoMore_set htask htasks (fun hnew => nomatch hnew))
      (hset htask htasks rfl)
    intro j hopened
    rw [hslot] at hopened
    cases hopened
  | opened i peer htask _ _ hsessions htasks => exact h.opened hagree htask hsessions htasks
  | gaveUp i peer htask hsessions htasks => exact h.gaveUp hagree htask hsessions htasks
  | closed i peer htask hsessions htasks => exact h.closed htask hsessions htasks
  | shed i packet rest hshard hsessions htasks =>
    refine h.kept ?_ (relaysNoMore_of_same htasks) (by rw [htasks])
    rw [hsessions]
    unfold removeOpen
    rw [if_neg (hkeeps i packet rest rfl hshard)]

theorem noOrphans_start (maxSessions : Nat) : NoOrphans { maxSessions } where
  slot := by
    intro i peer stage h
    cases h
  count := rfl

theorem change_empty {step : Step} (h : Change r next step) (htasks : r.tasks = [])
    (hsessions : r.sessions = ∅) (hmax : r.maxSessions = 0) :
    next.tasks = [] ∧ next.sessions = ∅ := by
  have hnone : ∀ {i : Nat} {task : SessionTask}, r.tasks[i]? ≠ some task := by
    intro i task
    rw [htasks]
    exact fun h => nomatch h
  cases h with
  | same hs ht => exact ⟨ht.trans htasks, hs.trans hsessions⟩
  | queued peer pending _ hslot =>
    rw [hsessions] at hslot
    cases hslot
  | spawned _ _ hroom => omega
  | moved _ _ _ _ htask | taken _ _ _ htask | opened _ _ htask | gaveUp _ _ htask
  | closed _ _ htask => exact absurd htask hnone
  | shed i packet _ _ hs ht =>
    refine ⟨ht.trans htasks, hs.trans ?_⟩
    unfold removeOpen
    rw [if_neg, hsessions]
    rw [hsessions]
    exact fun h => nomatch h

/-- Without orphans the live sessions are the entries of the map. -/
theorem NoOrphans.live_eq (h : NoOrphans r) : r.live = r.sessions.entries.length := by
  have hsplit := List.length_eq_countP_add_countP (fun entry : Sigma fun _ : SocketAddr => Slot =>
    entry.2.isOpening) (l := r.sessions.entries)
  have hcount := h.count
  unfold live
  rw [hcount, hsplit]
  congr 1
  apply List.countP_congr
  intro entry _
  simp

/-! ## Filling a relay -/

/-- A client address for each number. -/
def client (n : Nat) : SocketAddr := .v6 (BitVec.ofNat 128 n) 4000#16 0#32 0#32

theorem client_injective {n m : Nat} (hn : n < 2 ^ 128) (hm : m < 2 ^ 128)
    (h : client n = client m) : n = m := by
  have hip := congrArg BitVec.toNat (SocketAddr.v6.inj h).1
  rwa [BitVec.toNat_ofNat, BitVec.toNat_ofNat, Nat.mod_eq_of_lt hn, Nat.mod_eq_of_lt hm] at hip

theorem steps_append (r : Relay) (first rest : List Step) :
    r.steps (first ++ rest) = (r.steps first).bind fun next => next.steps rest := by
  induction first generalizing r with
  | nil => rfl
  | cons step first ih =>
    simp only [List.cons_append, steps, Option.bind_assoc]
    congr 1
    funext next
    exact ih next

/-- A packet from a client without a slot opens one while there is room. -/
theorem open_one {peer : SocketAddr} (hshard : r.shard = .dispatching [])
    (hslot : r.sessions.lookup peer = none) (hroom : r.sessions.entries.length < r.maxSessions) :
    ∃ next packet, r.steps [.recv [(peer, [], 0)] false, .dispatch] = some next ∧
      next.shard = .dispatching [] ∧ next.maxSessions = r.maxSessions ∧
      next.sessions = r.sessions.insert peer (.opening [packet]) ∧ next.live = r.live + 1 := by
  let packet : Packet := { number := r.history.arrivals, peer, data := [], stride := 0 }
  let received : Relay :=
    { r with
      shard := .dispatching [packet]
      history.arrivals := r.history.arrivals + 1 }
  have hfull : ¬ r.sessions.entries.length ≥ r.maxSessions := by omega
  have hnext : received.dispatch packet [] =
      { received with
        history := received.note packet
        shard := .dispatching []
        sessions := r.sessions.insert peer (.opening [packet])
        tasks := r.tasks ++ [{ peer, stage := .connecting }] } := by
    simp only [dispatch, received, packet, hslot, hfull, if_false]
  refine ⟨received.dispatch packet [], packet, ?_, ?_, ?_, ?_, ?_⟩
  · have hrecv : r.step (.recv [(peer, [], 0)] false) = some received := by
      simp only [Relay.step, Step.task, shardStep, hshard, numbered, Bool.false_eq_true, if_false,
        List.length_singleton]
      rfl
    have hdispatch : received.step .dispatch = some (received.dispatch packet []) := rfl
    simp only [steps, hrecv, Option.bind_some, hdispatch]
  · rw [hnext]
  · rw [hnext]
  · rw [hnext]
  · have hinsert := Table.countBy_insert Slot.isOpening r.sessions peer (.opening [packet])
    rw [Table.share_of_none hslot] at hinsert
    rw [hnext]
    unfold live
    simp only [List.countP_append, List.countP_singleton, Stage.isRelaying, Bool.false_eq_true,
      if_false]
    change Table.countBy Slot.isOpening _ + _ = Table.countBy Slot.isOpening _ + _ + 1
    change _ + 0 = _ + 1 at hinsert
    omega

/-- From a relay with an empty map, sessions until it is as full as asked. -/
theorem fill {start : Relay} (hidle : start.shard = .dispatching [])
    (hempty : start.sessions = ∅) (first n : Nat) (hn : n ≤ start.maxSessions)
    (hfirst : first + n ≤ 2 ^ 128) :
    ∃ steps r, start.steps steps = some r ∧ (∀ step ∈ steps, step ≠ .shed) ∧
      r.shard = .dispatching [] ∧ r.maxSessions = start.maxSessions ∧
      r.sessions.entries.length = n ∧ r.live = start.live + n ∧
      ∀ peer, r.sessions.lookup peer ≠ none → ∃ i < n, peer = client (first + i) := by
  induction n with
  | zero =>
    refine ⟨[], start, rfl, ?_, hidle, rfl, ?_, rfl, ?_⟩
    · intro step h
      cases h
    · rw [hempty]
      rfl
    · intro peer h
      rw [hempty] at h
      exact absurd rfl h
  | succ n ih =>
    obtain ⟨steps, r, hsteps, hshed, hshard, hmax, hlength, hlive, hpeers⟩ :=
      ih (by omega) (by omega)
    have hslot : r.sessions.lookup (client (first + n)) = none := by
      by_contra hsome
      obtain ⟨i, hi, heq⟩ := hpeers _ hsome
      have := client_injective (by omega) (by omega) heq
      omega
    obtain ⟨next, packet, hnext, hshard', hmax', hsessions, hlive'⟩ :=
      open_one hshard hslot (by omega)
    refine ⟨steps ++ [.recv [(client (first + n), [], 0)] false, .dispatch], next, ?_, ?_,
      hshard', hmax'.trans hmax, ?_, ?_, ?_⟩
    · rw [steps_append, hsteps]
      exact hnext
    · intro step hmem
      rcases List.mem_append.mp hmem with hold | hnew
      · exact hshed step hold
      · rcases List.mem_pair.mp hnew with rfl | rfl
        · exact fun h => nomatch h
        · exact fun h => nomatch h
    · rw [hsessions, Table.length_insert_of_none hslot, hlength]
    · rw [hlive', hlive, Nat.add_assoc]
    · intro peer hsome
      rw [hsessions, Table.lookup_insert_of] at hsome
      by_cases hpeer : peer = client (first + n)
      · exact ⟨n, by omega, hpeer⟩
      · rw [if_neg hpeer] at hsome
        obtain ⟨i, hi, heq⟩ := hpeers peer hsome
        exact ⟨i, by omega, heq⟩

/-- A session is open, a send on it fails, and its downstream task has not noticed. -/
def orphaning : List Step :=
  [.recv [(client 0, [], 0)] false, .dispatch, .connected 0 true, .collect 0, .flush 0 .sent,
    .collect 0, .recv [(client 0, [], 0)] false, .dispatch, .forward .failed, .shed]

theorem orphan {maxSessions : Nat} (h : 1 ≤ maxSessions) :
    ∃ r, Relay.steps { maxSessions } orphaning = some r ∧ r.shard = .dispatching [] ∧
      r.sessions = ∅ ∧ r.maxSessions = maxSessions ∧ r.live = 1 := by
  obtain ⟨n, rfl⟩ := Nat.exists_eq_add_of_le' h
  exact ⟨_, rfl, rfl, rfl, rfl, rfl⟩

end Relay

/-! ## The listener -/

namespace Listener

/-- The listeners reached by steps of its relays that each satisfy a condition. -/
inductive Runs (allowed : Relay → Relay.Step → Prop) (shards maxSessions : Nat) : Listener → Prop
  | serve : Runs allowed shards maxSessions (.serve shards maxSessions)
  | step {l next : Listener} {k : Nat} {r : Relay} {step : Relay.Step}
      (before : Runs allowed shards maxSessions l) (hrelay : l.shards[k]? = some r)
      (hallowed : allowed r step) (hstep : l.step k step = some next) :
      Runs allowed shards maxSessions next

variable {shards maxSessions : Nat} {l next : Listener}

theorem step_eq {k : Nat} {r : Relay} {step : Relay.Step} (hrelay : l.shards[k]? = some r)
    (hstep : l.step k step = some next) :
    ∃ after, r.step step = some after ∧ next.shards = l.shards.set k after := by
  unfold Listener.step at hstep
  rw [hrelay] at hstep
  obtain ⟨after, hafter, heq⟩ := Option.map_eq_some_iff.mp hstep
  exact ⟨after, hafter, by rw [← heq]⟩

/-- Every relay of a run without orphans keeps its slots and has none. -/
theorem relays_of_runs (h : Runs Relay.KeepsEntries shards maxSessions l) :
    l.shards.length = shards ∧ ∀ r ∈ l.shards,
      Relay.SlotsAgree (perShard maxSessions shards) r ∧ Relay.NoOrphans r := by
  induction h with
  | serve =>
    constructor
    · exact List.length_replicate
    · intro r hr
      obtain rfl := List.eq_of_mem_replicate hr
      exact ⟨Relay.slotsAgree_start _, Relay.noOrphans_start _⟩
  | step _ hrelay hallowed hstep ih =>
    obtain ⟨hlength, hrelays⟩ := ih
    obtain ⟨after, hafter, hshards⟩ := step_eq hrelay hstep
    obtain ⟨hagree, horphans⟩ := hrelays _ (List.mem_of_getElem? hrelay)
    obtain ⟨hchange, hmax⟩ := Relay.change_of_step hafter
    rw [hshards]
    constructor
    · rw [List.length_set, hlength]
    · intro r hr
      rcases List.mem_or_eq_of_mem_set hr with hold | rfl
      · exact hrelays r hold
      · exact ⟨hagree.change hchange hmax, horphans.change hagree hallowed hchange⟩

theorem live_le (h : Runs Relay.KeepsEntries shards maxSessions l) :
    l.live ≤ shards * perShard maxSessions shards := by
  obtain ⟨hlength, hrelays⟩ := relays_of_runs h
  have hbound : ∀ n ∈ l.shards.map Relay.live, n ≤ perShard maxSessions shards := by
    intro n hn
    obtain ⟨r, hr, rfl⟩ := List.mem_map.mp hn
    obtain ⟨hagree, horphans⟩ := hrelays r hr
    rw [horphans.live_eq]
    exact hagree.max ▸ hagree.size
  have hsum := List.sum_le_card_nsmul (l.shards.map Relay.live) _ hbound
  rw [List.length_map, hlength, smul_eq_mul] at hsum
  exact hsum

theorem shares_of_dvd (hshards : 1 ≤ shards) (hdvd : shards ∣ maxSessions) :
    shards * perShard maxSessions shards = maxSessions := by
  obtain ⟨n, rfl⟩ := hdvd
  have hshare : perShard (shards * n) shards = n := by
    unfold perShard
    rw [Nat.max_eq_left hshards, Nat.add_sub_assoc hshards, Nat.mul_add_div hshards,
      Nat.div_eq_of_lt (by omega), Nat.add_zero]
  rw [hshare]

/-- The shares are rounded up. -/
theorem le_shares (hshards : 1 ≤ shards) :
    maxSessions ≤ shards * perShard maxSessions shards := by
  have hmod := Nat.div_add_mod (maxSessions + shards - 1) shards
  have hlt := Nat.mod_lt (maxSessions + shards - 1) hshards
  unfold perShard
  rw [Nat.max_eq_left hshards]
  omega

theorem lt_shares_of_not_dvd (hshards : 1 ≤ shards) (hdvd : ¬ shards ∣ maxSessions) :
    maxSessions < shards * perShard maxSessions shards := by
  have hround : maxSessions ≤ shards * perShard maxSessions shards := le_shares hshards
  rcases Nat.lt_or_eq_of_le hround with hlt | heq
  · exact hlt
  · exact absurd ⟨_, heq⟩ hdvd

/-- One relay runs while the others stay as they are. -/
theorem Runs.relay {allowed : Relay → Relay.Step → Prop} {before rest : List Relay}
    {r after : Relay} {steps : List Relay.Step}
    (h : Runs allowed shards maxSessions { shards := before ++ r :: rest })
    (hsteps : r.steps steps = some after) (hallowed : ∀ step ∈ steps, ∀ r, allowed r step) :
    Runs allowed shards maxSessions { shards := before ++ after :: rest } := by
  induction steps generalizing r with
  | nil =>
    obtain rfl := Option.some.inj hsteps
    exact h
  | cons step steps ih =>
    obtain ⟨middle, hstep, hmore⟩ := Option.bind_eq_some_iff.mp hsteps
    have hrelay : (before ++ r :: rest)[before.length]? = some r := by simp
    have hnext : Listener.step { shards := before ++ r :: rest } before.length step =
        some { shards := before ++ middle :: rest } := by
      unfold Listener.step
      rw [hrelay, Option.bind_some, hstep]
      simp
    exact ih (h.step hrelay (hallowed step List.mem_cons_self r) hnext) hmore
      (fun other hother => hallowed other (List.mem_cons_of_mem _ hother))

/-- The step condition of `KeepsEntries`, met by every step but a `shed`. -/
theorem keepsEntries_of_ne {step : Relay.Step} (h : step ≠ .shed) (r : Relay) :
    Relay.KeepsEntries r step := by
  intro session packet rest heq
  exact absurd heq h

theorem Runs.relays {allowed : Relay → Relay.Step → Prop}
    (hallowed : ∀ step ≠ .shed, ∀ r, allowed r step) {before rest : List Relay} {start : Relay}
    (h : Runs allowed shards maxSessions
      { shards := before ++ List.replicate rest.length start })
    (hrest : ∀ r ∈ rest, ∃ steps, start.steps steps = some r ∧ ∀ step ∈ steps, step ≠ .shed) :
    Runs allowed shards maxSessions { shards := before ++ rest } := by
  induction rest generalizing before with
  | nil => exact h
  | cons r rest ih =>
    obtain ⟨steps, hsteps, hshed⟩ := hrest r List.mem_cons_self
    have hone := h.relay hsteps (fun step hmem r => hallowed step (hshed step hmem) r)
    rw [List.append_cons] at hone
    rw [List.append_cons]
    exact ih hone (fun other hother => hrest other (List.mem_cons_of_mem _ hother))

theorem shares_le (hshards : 1 ≤ shards) (hsmall : shards < 2 ^ 64)
    (hlimit : maxSessions < 2 ^ 64) : shards * perShard maxSessions shards < 2 ^ 65 := by
  have hmod := Nat.mul_div_le (maxSessions + shards - 1) shards
  unfold perShard
  rw [Nat.max_eq_left hshards]
  omega

/-- New relays that are as full as their share allows, each with clients of its own. -/
theorem full_relays {share : Nat} (k : Nat) (hclients : k * share ≤ 2 ^ 128) :
    ∃ rest : List Relay, rest.length = k ∧ (rest.map Relay.live).sum = k * share ∧
      ∀ r ∈ rest, ∃ steps, Relay.steps { maxSessions := share } steps = some r ∧
        ∀ step ∈ steps, step ≠ .shed := by
  induction k with
  | zero => exact ⟨[], rfl, by simp, fun r h => nomatch h⟩
  | succ k ih =>
    rw [Nat.succ_mul] at hclients
    obtain ⟨rest, hlength, hsum, hrest⟩ := ih (by omega)
    obtain ⟨steps, r, hsteps, hshed, -, -, -, hlive, -⟩ :=
      @Relay.fill { maxSessions := share } rfl rfl (k * share) share (Nat.le_refl _) hclients
    refine ⟨r :: rest, by simp [hlength], ?_, ?_⟩
    · rw [List.map_cons, List.sum_cons, hlive, hsum, Nat.succ_mul]
      change 0 + share + _ = _
      omega
    · intro other hother
      rcases List.mem_cons.mp hother with rfl | hmem
      · exact ⟨steps, hsteps, hshed⟩
      · exact hrest other hmem

theorem runs_full (hclients : shards * perShard maxSessions shards ≤ 2 ^ 128) :
    ∃ l, Runs Relay.KeepsEntries shards maxSessions l ∧
      l.live = shards * perShard maxSessions shards := by
  obtain ⟨rest, hlength, hsum, hrest⟩ := full_relays shards hclients
  have hserve : Runs Relay.KeepsEntries shards maxSessions
      { shards := [] ++
          List.replicate rest.length { maxSessions := perShard maxSessions shards } } := by
    rw [hlength]
    exact Runs.serve
  have hkeeps : ∀ step ≠ .shed, ∀ r, Relay.KeepsEntries r step :=
    fun step hstep r => keepsEntries_of_ne hstep r
  exact ⟨{ shards := [] ++ rest }, hserve.relays hkeeps hrest, hsum⟩

/-- Any order of steps. -/
abbrev Reachable : Nat → Nat → Listener → Prop := Runs fun _ _ => True

/-- One orphan is enough: its slot is free for another session. -/
theorem reachable_over (hshards : 1 ≤ shards) (hshare : 1 ≤ perShard maxSessions shards)
    (hclients : shards * perShard maxSessions shards ≤ 2 ^ 128) :
    ∃ l, Reachable shards maxSessions l ∧
      l.live = shards * perShard maxSessions shards + 1 := by
  obtain ⟨k, rfl⟩ := Nat.exists_eq_add_of_le' hshards
  let share := perShard maxSessions (k + 1)
  have hsplit : (k + 1) * share = k * share + share := Nat.succ_mul k share
  have hroom : k * share + share ≤ 2 ^ 128 := hsplit ▸ hclients
  obtain ⟨orphaned, hsteps, hshard, hempty, hmax, hlive⟩ := Relay.orphan hshare
  obtain ⟨more, first, hmore, -, -, -, -, hfull, -⟩ :=
    Relay.fill hshard hempty (k * share) share (Nat.le_of_eq hmax.symm) hroom
  obtain ⟨rest, rfl, hsum, hrest⟩ := full_relays k (le_trans (Nat.le_add_right _ _) hroom)
  have hserve : Reachable (rest.length + 1) maxSessions
      { shards := [] ++
          { maxSessions := share } :: List.replicate rest.length { maxSessions := share } } :=
    Runs.serve
  have hfirst : Relay.steps { maxSessions := share } (Relay.orphaning ++ more) = some first := by
    rw [Relay.steps_append, hsteps]
    exact hmore
  have hone := hserve.relay hfirst (fun _ _ _ => trivial)
  have hall : Reachable (rest.length + 1) maxSessions { shards := [first] ++ rest } :=
    Runs.relays (fun _ _ _ => trivial) hone hrest
  refine ⟨_, hall, ?_⟩
  change (([first] ++ rest).map Relay.live).sum = _
  rw [List.map_append, List.sum_append, hsum]
  change first.live + 0 + rest.length * share = (rest.length + 1) * share + 1
  omega

/-- Without room for a session there is none. -/
theorem live_eq_zero (h : Reachable shards 0 l) : l.live = 0 := by
  have hempty : ∀ r ∈ l.shards, r.tasks = [] ∧ r.sessions = ∅ ∧ r.maxSessions = 0 := by
    induction h with
    | serve =>
      intro r hr
      obtain rfl := List.eq_of_mem_replicate hr
      refine ⟨rfl, rfl, ?_⟩
      exact Nat.div_eq_of_lt (by omega)
    | step _ hrelay _ hstep ih =>
      obtain ⟨after, hafter, hshards⟩ := step_eq hrelay hstep
      obtain ⟨htasks, hsessions, hmax⟩ := ih _ (List.mem_of_getElem? hrelay)
      obtain ⟨hchange, hsame⟩ := Relay.change_of_step hafter
      rw [hshards]
      intro r hr
      rcases List.mem_or_eq_of_mem_set hr with hold | rfl
      · exact ih r hold
      · exact ⟨(Relay.change_empty hchange htasks hsessions hmax).1,
          (Relay.change_empty hchange htasks hsessions hmax).2, hsame.trans hmax⟩
  unfold Listener.live
  apply List.sum_eq_zero
  intro n hn
  obtain ⟨r, hr, rfl⟩ := List.mem_map.mp hn
  obtain ⟨htasks, hsessions, -⟩ := hempty r hr
  unfold Relay.live
  rw [htasks, hsessions]
  rfl

theorem Runs.mono {allowed more : Relay → Relay.Step → Prop}
    (hmore : ∀ r step, allowed r step → more r step) (h : Runs allowed shards maxSessions l) :
    Runs more shards maxSessions l := by
  induction h with
  | serve => exact .serve
  | step _ hrelay hallowed hstep ih => exact ih.step hrelay (hmore _ _ hallowed) hstep

/-- The sessions of an address stay within the limit in every run that keeps the entries of
relayed sessions, exactly when the number of shards divides the limit; and when one entry may
go, no limit but zero holds. -/
theorem live_le_iff {shards maxSessions : Nat} (hshards : 1 ≤ shards) (hsmall : shards < 2 ^ 64)
    (hlimit : maxSessions < 2 ^ 64) :
    ((∀ l, Runs Relay.KeepsEntries shards maxSessions l → l.live ≤ maxSessions) ↔
      shards ∣ maxSessions) ∧
    ((∀ l, Reachable shards maxSessions l → l.live ≤ maxSessions) ↔ maxSessions = 0) := by
  have hclients : shards * perShard maxSessions shards ≤ 2 ^ 128 := by
    have := shares_le hshards hsmall hlimit
    omega
  have hround : maxSessions ≤ shards * perShard maxSessions shards := le_shares hshards
  constructor
  · constructor
    · intro hall
      by_contra hdvd
      have hlt := lt_shares_of_not_dvd hshards hdvd
      obtain ⟨l, hl, hlive⟩ := runs_full hclients
      have := hall l hl
      omega
    · intro hdvd l hl
      have := live_le hl
      rw [shares_of_dvd hshards hdvd] at this
      exact this
  · constructor
    · intro hall
      by_contra hpos
      have hshare : 1 ≤ perShard maxSessions shards := by
        by_contra hzero
        rw [Nat.lt_one_iff.mp (Nat.lt_of_not_le hzero)] at hround
        omega
      obtain ⟨l, hl, hlive⟩ := reachable_over hshards hshare hclients
      have := hall l hl
      omega
    · rintro rfl l hl
      exact Nat.le_of_eq (live_eq_zero hl)

/-- The sockets of a machine with eight cores. -/
theorem live_le_eight_shards : 8 ∣ PortsBox.maxSessions ∧
    ∀ l, Runs Relay.KeepsEntries 8 PortsBox.maxSessions l → l.live ≤ PortsBox.maxSessions := by
  have hdvd : 8 ∣ PortsBox.maxSessions := by decide
  exact ⟨hdvd, (live_le_iff (by decide) (by decide) (by decide)).1.mpr hdvd⟩

/-- With three sockets the program lets an address have two sessions more than its limit. -/
theorem live_exceeds_limit :
    ∃ l, Reachable 3 PortsBox.maxSessions l ∧ l.live = PortsBox.maxSessions + 2 := by
  obtain ⟨l, hl, hlive⟩ := @runs_full 3 PortsBox.maxSessions (by decide)
  exact ⟨l, hl.mono (fun _ _ _ => trivial), hlive⟩

end Listener

end PortsBox
