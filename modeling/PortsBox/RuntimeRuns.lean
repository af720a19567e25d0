import PortsBox.RuntimeReconcile

/-!
# Runs of `apply`

A refused `apply` changes nothing, and traffic and accounting touch no rule, so
every world that applies reach is consistent with the last config that was
applied. `Reconciled` says so in the words of the config.
-/

set_option autoImplicit false

namespace PortsBox

/-! ## Runs -/

/-- The worlds that applies reach, with the last config that was applied. `outside` is what
traffic and accounting do: they change quotas and remote limits. -/
inductive Reaches : World → Option Config → Prop
  | empty (hasDb : Bool) (remote : Option (Std.ExtTreeMap String Nat)) (quotas : Nat → UserQuota) :
      Reaches { runtime := { hasDb }, remote, quotas } none
  | applied {env : Env} {config : Config} {w after : World} {last : Option Config}
      (before : Reaches w last) (haccepted : Accepted config)
      (happly : apply env config w = .ok () after) : Reaches after (some config)
  | refused {env : Env} {config : Config} {w after : World} {last : Option Config}
      {e : ApplyError} (before : Reaches w last) (haccepted : Accepted config)
      (happly : apply env config w = .error e after) : Reaches after last
  | outside {w : World} {last : Option Config} (before : Reaches w last)
      (remote : Option (Std.ExtTreeMap String Nat)) (quotas : Nat → UserQuota) :
      Reaches { w with remote, quotas } last

/-- Only the rules, their tasks, what is published and the fresh ids matter. -/
theorem Consistent.of_same {w after : World} {last : Option Config} (h : Consistent w last)
    (hruntime : after.runtime = w.runtime) (htasks : after.tasks = w.tasks)
    (hnext : after.next = w.next) : Consistent after last := by
  rcases h with ⟨⟨hsockets, hfresh, hstops, htasksOf, howned⟩, hrules, husers, hpools⟩
  refine ⟨⟨?_, ?_, ?_, ?_, ?_⟩, ?_, ?_, ?_⟩
  all_goals simp only [hruntime, htasks, hnext]
  all_goals assumption

theorem apply_applied {env : Env} {config : Config} {w after : World} {last : Option Config}
    (h : Consistent w last) (hvalid : Valid config) (happly : apply env config w = .ok () after) :
    ∃ added, Applied config added w after ∧
      (prepared env w.runtime.rules (specsOf config)
        (spareOf w.runtime.rules (removedSpecs w.runtime.rules (specsOf config)))).2 =
          .ok added := by
  obtain ⟨binds, added, saved, hgathered, rfl⟩ := apply_installed happly
  have hprepared := gathered_ok hgathered
  obtain ⟨hspecs, hcomplete⟩ := prepared_ok hprepared
  have hlogged : Consistent { w with binds } last := h.of_same rfl rfl rfl
  obtain ⟨hconsistent, hkeptRules, hkeptUsers, hadded⟩ :
      Applied config added { w with binds } (install env config added saved { w with binds }) :=
    install_applied hvalid hlogged.running hspecs hcomplete
  exact ⟨added, ⟨hconsistent, hkeptRules, hkeptUsers, hadded⟩, hprepared⟩

theorem Reaches.consistent {w : World} {last : Option Config} (h : Reaches w last) :
    Consistent w last ∧ ∀ config, last = some config → Valid config := by
  induction h with
  | empty hasDb remote quotas =>
    refine ⟨⟨⟨?_, ?_, ?_, ?_, ?_⟩, ?_, rfl, rfl⟩, by simp⟩
    all_goals simp
  | applied before haccepted happly ih =>
    obtain ⟨added, hafter, _⟩ := apply_applied ih.1 haccepted.valid happly
    refine ⟨hafter.consistent, ?_⟩
    intro config heq
    exact Option.some.inj heq ▸ haccepted.valid
  | refused before haccepted happly ih =>
    obtain ⟨hruntime, _, htasks, _, hnext, _⟩ := apply_refused _ _ happly
    exact ⟨ih.1.of_same hruntime htasks hnext, ih.2⟩
  | outside before remote quotas ih => exact ⟨ih.1.of_same rfl rfl rfl, ih.2⟩

/-! ## What a reader sees -/

/-- The running rule of this spec owns the socket. -/
def HeldBy (w : World) (spec : RuleSpec) (bind : Bind) : Prop :=
  ∃ rule, w.runtime.rules.lookup spec = some rule ∧ spec.listen = bind.2 ∧
    match bind.1 with
    | .tcp => rule.tcp.isSome = true
    | .udp => rule.udp.isSome = true

/-- The runtime after an apply, in the words of its config. -/
structure Reconciled (w : World) (last : Option Config) : Prop where
  rules : w.runtime.rules.keys.Perm (last.elim [] specsOf)
  sockets : ∀ spec rule, w.runtime.rules.lookup spec = some rule →
    rule.tcp.isSome = spec.protocol.isTcp ∧ rule.udp.isSome = spec.protocol.isUdp
  owners : ∀ bind a b, HeldBy w a bind → HeldBy w b bind → a = b
  pools : ∀ key pool, w.runtime.pools.lookup key = some pool ↔
    ∃ spec rule, w.runtime.rules.lookup spec = some rule ∧
      key = (spec.listen, spec.protocol) ∧ rule.pool = pool
  onePoolEach : w.runtime.pools.entries.length = w.runtime.rules.entries.length
  users : w.runtime.users.map QuotaRef.name = last.elim [] fun c => c.users.map UserConfig.name
  metered : ∀ spec rule, w.runtime.rules.lookup spec = some rule →
    ∃ quota, getUser w.runtime.users spec.user = some quota ∧ quota ∈ w.runtime.users ∧
      w.tasks.filter (·.stop = rule.stop) = tasksOf spec rule quota
  tasks : ∀ task ∈ w.tasks, ∃ spec rule, w.runtime.rules.lookup spec = some rule ∧
    task.stop = rule.stop

theorem oneRule_accepted : Accepted oneRule := ⟨fun _ => true, oneRule, rfl⟩

theorem oneRule_reaches : Reaches oneRuleRunning (some oneRule) := by
  have happly : apply freePorts oneRule emptyWorld = .ok () oneRuleRunning := rfl
  exact Reaches.applied (Reaches.empty false none fun _ => idleQuota) oneRule_accepted happly

end PortsBox
