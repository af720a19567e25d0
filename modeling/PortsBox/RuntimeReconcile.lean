import PortsBox.RuntimeApply

/-!
# The running rules follow the config

`Running` is what holds of the rules, their stop channels and their tasks while
rules are removed and started one by one; `Consistent` is what every `apply`
leaves.
-/

set_option autoImplicit false

namespace PortsBox

/-! ## What was prepared -/

theorem socketFor_ok {S : Type} {transport : Transport} {bind : SocketAddr → Except String S}
    {error : SocketAddr → String → ApplyError} {listen : SocketAddr} {uses : Bool}
    {spare socket : Option S}
    (h : (socketFor transport bind error listen uses spare).2 = .ok socket) :
    socket.isSome = uses := by
  unfold socketFor at h
  cases uses with
  | false =>
    obtain rfl := Except.ok.inj h
    rfl
  | true =>
    cases spare with
    | some s =>
      obtain rfl := Except.ok.inj h
      rfl
    | none =>
      dsimp only at h
      cases hbind : bind listen with
      | error e =>
        rw [hbind] at h
        cases h
      | ok s =>
        rw [hbind] at h
        obtain rfl := Except.ok.inj h
        rfl

theorem andThen_ok {α β : Type} {o : Outcome α} {f : α → Outcome β} {b : β}
    (h : (o.andThen f).2 = .ok b) :
    ∃ a, o.2 = .ok a ∧ (f a).2 = .ok b ∧ (o.andThen f).1 = o.1 ++ (f a).1 := by
  unfold Outcome.andThen at h ⊢
  cases hresult : o.2 with
  | error e =>
    rw [hresult] at h
    cases h
  | ok a =>
    rw [hresult] at h
    exact ⟨a, rfl, h, rfl⟩

/-- A prepared rule has the sockets its protocol needs. -/
def PreparedRule.Complete (rule : PreparedRule) : Prop :=
  rule.tcp.isSome = rule.spec.protocol.isTcp ∧ rule.udp.isSome = rule.spec.protocol.isUdp

theorem prepared_ok {env : Env} {rules : HashMap RuleSpec RunningRule} {specs : List RuleSpec}
    {spare : Spare} {added : List PreparedRule}
    (h : (prepared env rules specs spare).2 = .ok added) :
    added.map PreparedRule.spec = specs.filter (· ∉ rules) ∧ ∀ rule ∈ added, rule.Complete := by
  induction specs generalizing spare added with
  | nil =>
    obtain rfl := Except.ok.inj h
    exact ⟨rfl, by simp⟩
  | cons spec specs ih =>
    unfold prepared at h
    by_cases hrunning : spec ∈ rules
    · rw [if_pos hrunning] at h
      rw [List.filter_cons_of_neg (by simpa using hrunning)]
      exact ih h
    · rw [if_neg hrunning] at h
      obtain ⟨tcp, htcp, h, _⟩ := andThen_ok h
      obtain ⟨udp, hudp, h, _⟩ := andThen_ok h
      obtain ⟨rest, hrest, h, _⟩ := andThen_ok h
      obtain rfl := Except.ok.inj h
      obtain ⟨hspecs, hcomplete⟩ := ih hrest
      rw [List.filter_cons_of_pos (by simpa using hrunning), List.map_cons, hspecs]
      refine ⟨rfl, ?_⟩
      intro rule hmem
      rcases List.mem_cons.mp hmem with rfl | htail
      · exact ⟨socketFor_ok htcp, socketFor_ok hudp⟩
      · exact hcomplete rule htail

theorem gathered_ok {env : Env} {config : Config} {w : World} {binds : List Bind}
    {added : List PreparedRule} {saved : Std.ExtTreeMap String SavedUsage}
    (h : gathered env config w = (binds, .ok (added, saved))) :
    (prepared env w.runtime.rules (specsOf config)
        (spareOf w.runtime.rules (removedSpecs w.runtime.rules (specsOf config)))).2 =
      .ok added := by
  have hsnd : (gathered env config w).2 = .ok (added, saved) := by rw [h]
  obtain ⟨found, hfound, hload, _⟩ := andThen_ok hsnd
  dsimp only at hload
  cases hsaved : savedFor env w.runtime config with
  | error e =>
    rw [hsaved] at hload
    cases hload
  | ok usage =>
    rw [hsaved] at hload
    obtain ⟨rfl, _⟩ := Prod.mk.inj (Except.ok.inj hload)
    exact hfound

/-! ## Users -/

theorem getUser_name {users : List QuotaRef} {name : String} {ref : QuotaRef}
    (h : getUser users name = some ref) : ref ∈ users ∧ ref.name = name :=
  ⟨List.mem_reverse.mp (List.mem_of_find?_eq_some h), by simpa using List.find?_some h⟩

theorem getUser_of_mem {users : List QuotaRef} (hnames : (users.map QuotaRef.name).Nodup)
    {ref : QuotaRef} (h : ref ∈ users) : getUser users ref.name = some ref := by
  cases hfound : getUser users ref.name with
  | none =>
    have hnone := List.find?_eq_none.mp hfound ref (List.mem_reverse.mpr h)
    simp at hnone
  | some other =>
    obtain ⟨hmem, hname⟩ := getUser_name hfound
    rw [List.inj_on_of_nodup_map hnames hmem h hname]

/-- Adopting the users changes their quotas and hands out new ids, nothing else. -/
theorem adoptUsers_frame (env : Env) (settings : Settings) (current : List QuotaRef) (w : World)
    (users : List UserConfig) :
    (adoptUsers env settings current w users).2.runtime = w.runtime ∧
      (adoptUsers env settings current w users).2.tasks = w.tasks ∧
      w.next ≤ (adoptUsers env settings current w users).2.next := by
  induction users generalizing w with
  | nil => exact ⟨rfl, rfl, le_rfl⟩
  | cons user users ih =>
    have hone : (adoptUser env settings current w user).2.runtime = w.runtime ∧
        (adoptUser env settings current w user).2.tasks = w.tasks ∧
        w.next ≤ (adoptUser env settings current w user).2.next := by
      unfold adoptUser
      cases getUser current user.name with
      | some ref => exact ⟨rfl, rfl, le_rfl⟩
      | none => exact ⟨rfl, rfl, Nat.le_succ _⟩
    obtain ⟨hruntime, htasks, hnext⟩ := ih (adoptUser env settings current w user).2
    exact ⟨hruntime.trans hone.1, htasks.trans hone.2.1, hone.2.2.trans hnext⟩

/-- The published users are the config's, in order; one that was there keeps its object. -/
theorem adoptUsers_refs (env : Env) (settings : Settings) (current : List QuotaRef) (w : World)
    (users : List UserConfig) :
    (adoptUsers env settings current w users).1.map QuotaRef.name =
        users.map UserConfig.name ∧
      ∀ name ref, name ∈ users.map UserConfig.name → getUser current name = some ref →
        ref ∈ (adoptUsers env settings current w users).1 := by
  induction users generalizing w with
  | nil => exact ⟨rfl, by simp⟩
  | cons user users ih =>
    obtain ⟨hnames, hkept⟩ := ih (adoptUser env settings current w user).2
    have hone : (adoptUser env settings current w user).1.name = user.name ∧
        ∀ ref, getUser current user.name = some ref →
          (adoptUser env settings current w user).1 = ref := by
      unfold adoptUser
      cases hfound : getUser current user.name with
      | some found =>
        refine ⟨(getUser_name hfound).2, ?_⟩
        intro ref href
        exact Option.some.inj href
      | none =>
        refine ⟨rfl, ?_⟩
        intro ref href
        cases href
    constructor
    · exact congrArg₂ List.cons hone.1 hnames
    · intro name ref hmem hfound
      rcases List.mem_cons.mp hmem with rfl | htail
      · exact List.mem_cons.mpr (Or.inl (hone.2 ref hfound).symm)
      · exact List.mem_cons.mpr (Or.inr (hkept name ref htail hfound))

/-! ## Rules while they are removed and started -/

/-- Every running rule has its sockets, a stop channel of its own, and exactly the tasks of its
spec, metering into its owner's quota; and there are no other tasks. -/
structure Running (owner : String → Option QuotaRef) (w : World) : Prop where
  sockets : ∀ spec rule, w.runtime.rules.lookup spec = some rule →
    rule.tcp.isSome = spec.protocol.isTcp ∧ rule.udp.isSome = spec.protocol.isUdp
  fresh : ∀ spec rule, w.runtime.rules.lookup spec = some rule → rule.stop < w.next
  stops : ∀ a b ra rb, w.runtime.rules.lookup a = some ra → w.runtime.rules.lookup b = some rb →
    ra.stop = rb.stop → a = b
  tasks : ∀ spec rule, w.runtime.rules.lookup spec = some rule →
    ∃ quota, owner spec.user = some quota ∧
      w.tasks.filter (·.stop = rule.stop) = tasksOf spec rule quota
  owned : ∀ task ∈ w.tasks, ∃ spec rule, w.runtime.rules.lookup spec = some rule ∧
    task.stop = rule.stop

theorem tasksOf_stop {spec : RuleSpec} {rule : RunningRule} {quota : QuotaRef} {task : Task}
    (h : task ∈ tasksOf spec rule quota) : task.stop = rule.stop := by
  unfold tasksOf at h
  simp only [List.mem_append, List.mem_map] at h
  rcases h with (hprobe | ⟨listener, _, rfl⟩) | ⟨endpoints, _, rfl⟩
  · split at hprobe
    · rw [List.mem_singleton.mp hprobe]
    · simp at hprobe
  · rfl
  · rfl

section Removal
variable {owner : String → Option QuotaRef} {w : World}

theorem removeRule_lookup (w : World) (spec other : RuleSpec) :
    (removeRule w spec).runtime.rules.lookup other =
      if other = spec then none else w.runtime.rules.lookup other := by
  unfold removeRule
  cases hrule : w.runtime.rules.lookup spec with
  | some rule =>
    by_cases heq : other = spec
    · rw [if_pos heq, heq]
      exact AList.lookup_erase spec _
    · rw [if_neg heq]
      exact AList.lookup_erase_ne heq
  | none =>
    by_cases heq : other = spec
    · rw [if_pos heq, heq]
      exact hrule
    · rw [if_neg heq]

theorem removeRule_frame (w : World) (spec : RuleSpec) :
    (removeRule w spec).next = w.next ∧
      (removeRule w spec).runtime.users = w.runtime.users := by
  unfold removeRule
  cases w.runtime.rules.lookup spec <;> exact ⟨rfl, rfl⟩

theorem Running.removeRule (h : Running owner w) (spec : RuleSpec) :
    Running owner (removeRule w spec) := by
  cases hrule : w.runtime.rules.lookup spec with
  | none =>
    have hsame : PortsBox.removeRule w spec = w := by
      unfold PortsBox.removeRule
      rw [hrule]
    rwa [hsame]
  | some gone =>
    have hlookup : ∀ {other : RuleSpec} {rule : RunningRule},
        (PortsBox.removeRule w spec).runtime.rules.lookup other = some rule →
          other ≠ spec ∧ w.runtime.rules.lookup other = some rule := by
      intro other rule hother
      rw [removeRule_lookup] at hother
      split at hother
      · cases hother
      · exact ⟨by assumption, hother⟩
    have htasks : (PortsBox.removeRule w spec).tasks = w.tasks.filter (·.stop ≠ gone.stop) := by
      unfold PortsBox.removeRule
      rw [hrule]
    have hnext := (removeRule_frame w spec).1
    refine ⟨?_, ?_, ?_, ?_, ?_⟩
    · exact fun other rule hother => h.sockets other rule (hlookup hother).2
    · intro other rule hother
      rw [hnext]
      exact h.fresh other rule (hlookup hother).2
    · exact fun a b ra rb ha hb => h.stops a b ra rb (hlookup ha).2 (hlookup hb).2
    · intro other rule hother
      obtain ⟨hne, hold⟩ := hlookup hother
      obtain ⟨quota, howner, hfilter⟩ := h.tasks other rule hold
      refine ⟨quota, howner, ?_⟩
      rw [htasks, List.filter_filter, ← hfilter]
      apply List.filter_congr
      intro task _
      by_cases hstop : task.stop = rule.stop
      · have hgone : rule.stop ≠ gone.stop := fun heq => hne (h.stops other spec rule gone hold hrule heq)
        simp [hstop, hgone]
      · simp [hstop]
    · intro task hmem
      rw [htasks, List.mem_filter] at hmem
      obtain ⟨other, rule, hold, hstop⟩ := h.owned task hmem.1
      refine ⟨other, rule, ?_, hstop⟩
      rw [removeRule_lookup, if_neg]
      · exact hold
      · rintro rfl
        rw [hrule, Option.some.injEq] at hold
        rw [hstop, hold] at hmem
        simp at hmem

theorem foldl_removeRule (removed : List RuleSpec) (h : Running owner w) :
    Running owner (removed.foldl removeRule w) ∧
      (removed.foldl removeRule w).runtime.users = w.runtime.users ∧
      ∀ spec, (removed.foldl removeRule w).runtime.rules.lookup spec =
        if spec ∈ removed then none else w.runtime.rules.lookup spec := by
  induction removed generalizing w with
  | nil => exact ⟨h, rfl, fun spec => by simp⟩
  | cons gone removed ih =>
    obtain ⟨hrunning, husers, hlookup⟩ := ih (h.removeRule gone)
    refine ⟨hrunning, husers.trans (removeRule_frame w gone).2, ?_⟩
    intro spec
    change (removed.foldl removeRule (PortsBox.removeRule w gone)).runtime.rules.lookup spec = _
    rw [hlookup, removeRule_lookup]
    by_cases heq : spec = gone <;> by_cases hmem : spec ∈ removed <;> simp [heq, hmem]

end Removal

/-- Only the owners of running rules matter. -/
theorem Running.congr {owner next : String → Option QuotaRef} {w : World} (h : Running owner w)
    (hsame : ∀ spec rule quota, w.runtime.rules.lookup spec = some rule →
      owner spec.user = some quota → next spec.user = some quota) : Running next w := by
  refine ⟨h.sockets, h.fresh, h.stops, ?_, h.owned⟩
  intro spec rule hrule
  obtain ⟨quota, howner, hfilter⟩ := h.tasks spec rule hrule
  exact ⟨quota, hsame spec rule quota hrule howner, hfilter⟩

section Start
variable {owner : String → Option QuotaRef} {w : World} {rule : PreparedRule} {quota : QuotaRef}

/-- The running rule that `start` makes. -/
def startedRule (w : World) (rule : PreparedRule) : RunningRule where
  stop := w.next
  pool := ⟨w.next + 1, rule.spec.user, rule.spec.targets,
    if rule.spec.hasFallback && !rule.spec.protocol.isTcp then some rule.spec.checkSecs else none⟩
  tcp := rule.tcp
  udp := rule.udp

theorem start_rules (w : World) (rule : PreparedRule) (quota : QuotaRef) :
    (start w rule quota).runtime.rules =
      w.runtime.rules.insert rule.spec (startedRule w rule) := rfl

theorem start_tasks (w : World) (rule : PreparedRule) (quota : QuotaRef) :
    (start w rule quota).tasks = w.tasks ++ tasksOf rule.spec (startedRule w rule) quota := rfl

theorem Running.start (h : Running owner w) (hnew : rule.spec ∉ w.runtime.rules)
    (hcomplete : rule.Complete) (howner : owner rule.spec.user = some quota) :
    Running owner (start w rule quota) := by
  have hlookup : ∀ {spec : RuleSpec} {running : RunningRule},
      (PortsBox.start w rule quota).runtime.rules.lookup spec = some running →
        (spec = rule.spec ∧ running = startedRule w rule) ∨
          (spec ≠ rule.spec ∧ w.runtime.rules.lookup spec = some running) := by
    intro spec running hspec
    rw [start_rules] at hspec
    by_cases heq : spec = rule.spec
    · rw [heq, AList.lookup_insert, Option.some.injEq] at hspec
      exact Or.inl ⟨heq, hspec.symm⟩
    · rw [AList.lookup_insert_ne heq] at hspec
      exact Or.inr ⟨heq, hspec⟩
  have hold : ∀ task ∈ w.tasks, task.stop ≠ w.next := by
    intro task hmem heq
    obtain ⟨spec, running, hspec, hstop⟩ := h.owned task hmem
    have hlt := h.fresh spec running hspec
    omega
  refine ⟨?_, ?_, ?_, ?_, ?_⟩
  · intro spec running hspec
    rcases hlookup hspec with ⟨rfl, rfl⟩ | ⟨_, hspec⟩
    · exact hcomplete
    · exact h.sockets spec running hspec
  · intro spec running hspec
    change running.stop < w.next + 2
    rcases hlookup hspec with ⟨rfl, rfl⟩ | ⟨_, hspec⟩
    · change w.next < w.next + 2
      omega
    · have hlt := h.fresh spec running hspec
      omega
  · intro a b ra rb ha hb hstop
    rcases hlookup ha with ⟨rfl, rfl⟩ | ⟨_, ha⟩ <;> rcases hlookup hb with ⟨rfl, rfl⟩ | ⟨_, hb⟩
    · rfl
    · have hlt := h.fresh b rb hb
      change w.next = rb.stop at hstop
      omega
    · have hlt := h.fresh a ra ha
      change ra.stop = w.next at hstop
      omega
    · exact h.stops a b ra rb ha hb hstop
  · intro spec running hspec
    rw [start_tasks, List.filter_append]
    rcases hlookup hspec with ⟨rfl, rfl⟩ | ⟨_, hspec⟩
    · refine ⟨quota, howner, ?_⟩
      have hnone : (w.tasks.filter fun task => task.stop = (startedRule w rule).stop) = [] := by
        apply List.filter_eq_nil_iff.mpr
        intro task hmem
        simpa [startedRule] using hold task hmem
      have hall : ((tasksOf rule.spec (startedRule w rule) quota).filter
          fun task => task.stop = (startedRule w rule).stop) =
            tasksOf rule.spec (startedRule w rule) quota := by
        apply List.filter_eq_self.mpr
        intro task hmem
        simpa using tasksOf_stop hmem
      rw [hnone, hall, List.nil_append]
    · obtain ⟨previous, hprevious, hfilter⟩ := h.tasks spec running hspec
      refine ⟨previous, hprevious, ?_⟩
      have hnone : ((tasksOf rule.spec (startedRule w rule) quota).filter
          fun task => task.stop = running.stop) = [] := by
        apply List.filter_eq_nil_iff.mpr
        intro task hmem
        have hstop := tasksOf_stop hmem
        have hlt := h.fresh spec running hspec
        change task.stop = w.next at hstop
        simp only [decide_eq_true_eq]
        omega
      rw [hnone, List.append_nil, hfilter]
  · intro task hmem
    rw [start_tasks] at hmem
    rcases List.mem_append.mp hmem with hin | hin
    · obtain ⟨spec, running, hspec, hstop⟩ := h.owned task hin
      refine ⟨spec, running, ?_, hstop⟩
      rw [start_rules, AList.lookup_insert_ne]
      · exact hspec
      · rintro rfl
        rw [AList.lookup_eq_none.mpr hnew] at hspec
        cases hspec
    · exact ⟨rule.spec, startedRule w rule, AList.lookup_insert _, tasksOf_stop hin⟩

end Start

/-- Starting prepared rules keeps what runs, and adds exactly these with their sockets. -/
theorem foldl_startFor {users : List QuotaRef} {w : World} (added : List PreparedRule)
    (h : Running (getUser users) w) (hspecs : (added.map PreparedRule.spec).Nodup)
    (hnew : ∀ rule ∈ added, rule.spec ∉ w.runtime.rules)
    (hcomplete : ∀ rule ∈ added, rule.Complete)
    (howner : ∀ rule ∈ added, (getUser users rule.spec.user).isSome = true) :
    Running (getUser users) (added.foldl (startFor users) w) ∧
      (added.foldl (startFor users) w).runtime.users = w.runtime.users ∧
      (∀ spec, spec ∉ added.map PreparedRule.spec →
        (added.foldl (startFor users) w).runtime.rules.lookup spec =
          w.runtime.rules.lookup spec) ∧
      ∀ rule ∈ added, ∃ running,
        (added.foldl (startFor users) w).runtime.rules.lookup rule.spec = some running ∧
          running.tcp = rule.tcp ∧ running.udp = rule.udp := by
  induction added generalizing w with
  | nil => exact ⟨h, rfl, fun _ _ => rfl, by simp⟩
  | cons rule added ih =>
    obtain ⟨quota, hquota⟩ := Option.isSome_iff_exists.mp (howner rule List.mem_cons_self)
    have hstart : startFor users w rule = start w rule quota := by
      unfold startFor
      rw [hquota]
    rw [List.map_cons, List.nodup_cons] at hspecs
    have hnotHead : ∀ other ∈ added, other.spec ≠ rule.spec := fun other hother heq =>
      hspecs.1 (heq ▸ List.mem_map_of_mem hother)
    have hrunning := h.start (hnew rule List.mem_cons_self) (hcomplete rule List.mem_cons_self)
      hquota
    obtain ⟨hlast, husers, hkept, hadded⟩ := ih hrunning hspecs.2
      (fun other hother => by
        rw [start_rules, AList.mem_insert]
        rintro (heq | hmem)
        · exact hnotHead other hother heq
        · exact hnew other (List.mem_cons_of_mem rule hother) hmem)
      (fun other hother => hcomplete other (List.mem_cons_of_mem rule hother))
      (fun other hother => howner other (List.mem_cons_of_mem rule hother))
    rw [List.foldl_cons, hstart]
    refine ⟨hlast, husers, ?_, ?_⟩
    · intro spec hspec
      rw [List.map_cons, List.mem_cons, not_or] at hspec
      rw [hkept spec hspec.2, start_rules, AList.lookup_insert_ne hspec.1]
    · intro other hother
      rcases List.mem_cons.mp hother with rfl | htail
      · refine ⟨startedRule w other, ?_, rfl, rfl⟩
        rw [hkept other.spec hspecs.1, start_rules, AList.lookup_insert]
      · exact hadded other htail

/-! ## Consistent worlds -/

/-- The world is what an `apply` of the config leaves, up to traffic. -/
structure Consistent (w : World) (config : Option Config) : Prop where
  running : Running (getUser w.runtime.users) w
  rules : ∀ spec, spec ∈ w.runtime.rules ↔ spec ∈ config.elim [] specsOf
  users : w.runtime.users.map QuotaRef.name = config.elim [] fun c => c.users.map UserConfig.name
  pools : w.runtime.pools = collectPools w.runtime.rules

theorem mem_removedSpecs {rules : HashMap RuleSpec RunningRule} {specs : List RuleSpec}
    {spec : RuleSpec} : spec ∈ removedSpecs rules specs ↔ spec ∈ rules ∧ spec ∉ specs := by
  rw [removedSpecs, List.mem_filter, AList.mem_keys, decide_eq_true_eq]

/-- What a successful `apply` leaves, from what it found. -/
structure Applied (config : Config) (added : List PreparedRule) (w after : World) : Prop where
  consistent : Consistent after (some config)
  keptRules : ∀ spec, spec ∈ specsOf config → spec ∈ w.runtime.rules →
    after.runtime.rules.lookup spec = w.runtime.rules.lookup spec
  keptUsers : ∀ name quota, name ∈ config.users.map UserConfig.name →
    getUser w.runtime.users name = some quota → getUser after.runtime.users name = some quota
  addedRules : ∀ rule ∈ added, ∃ running,
    after.runtime.rules.lookup rule.spec = some running ∧
      running.tcp = rule.tcp ∧ running.udp = rule.udp

theorem install_applied {env : Env} {config : Config} {w : World} {added : List PreparedRule}
    {saved : Std.ExtTreeMap String SavedUsage} (hvalid : Valid config)
    (h : Running (getUser w.runtime.users) w)
    (hspecs : added.map PreparedRule.spec = (specsOf config).filter (· ∉ w.runtime.rules))
    (hcomplete : ∀ rule ∈ added, rule.Complete) :
    Applied config added w (install env config added saved w) := by
  unfold install swapRules
  dsimp only
  have hframe := adoptUsers_frame env (settingsOf config w saved) w.runtime.users w config.users
  have hrefs := adoptUsers_refs env (settingsOf config w saved) w.runtime.users w config.users
  generalize hadopted : adoptUsers env (settingsOf config w saved) w.runtime.users w
    config.users = adopted at hframe hrefs ⊢
  rcases adopted with ⟨users, adoptedWorld⟩
  rcases hframe with ⟨hruntime, htasks, hnext⟩
  rcases hrefs with ⟨hnames, hkept⟩
  dsimp only at hruntime htasks hnext hnames hkept ⊢
  have hnodup : (users.map QuotaRef.name).Nodup := hnames ▸ hvalid.names
  have hkeptUsers : ∀ name quota, name ∈ config.users.map UserConfig.name →
      getUser w.runtime.users name = some quota → getUser users name = some quota := by
    intro name quota hname hquota
    have hmem := getUser_of_mem hnodup (hkept name quota hname hquota)
    rwa [(getUser_name hquota).2] at hmem
  -- the rules that stay are in the config, and so are their owners
  have hadoptedRunning : Running (getUser w.runtime.users) adoptedWorld := by
    refine ⟨?_, ?_, ?_, ?_, ?_⟩
    · rw [hruntime]
      exact h.sockets
    · rw [hruntime]
      exact fun spec rule hrule => (h.fresh spec rule hrule).trans_le hnext
    · rw [hruntime]
      exact h.stops
    · rw [hruntime, htasks]
      exact h.tasks
    · rw [hruntime, htasks]
      exact h.owned
  obtain ⟨hremoved, _, hlookup⟩ := foldl_removeRule
    (removedSpecs w.runtime.rules (specsOf config)) hadoptedRunning
  rw [hruntime] at hlookup
  generalize (removedSpecs w.runtime.rules (specsOf config)).foldl removeRule adoptedWorld =
    removedWorld at hremoved hlookup ⊢
  have hstays : ∀ spec rule, removedWorld.runtime.rules.lookup spec = some rule →
      spec ∈ specsOf config := by
    intro spec rule hrule
    by_contra hnot
    rw [hlookup] at hrule
    have hwas : spec ∈ w.runtime.rules := by
      split at hrule
      · cases hrule
      · exact AList.lookup_isSome.mp (by rw [hrule]; rfl)
    rw [if_pos (mem_removedSpecs.mpr ⟨hwas, hnot⟩)] at hrule
    cases hrule
  have hsamed : ∀ spec, spec ∈ specsOf config →
      removedWorld.runtime.rules.lookup spec = w.runtime.rules.lookup spec := by
    intro spec hspec
    rw [hlookup, if_neg]
    exact fun hmem => (mem_removedSpecs.mp hmem).2 hspec
  have hnextRunning : Running (getUser users) removedWorld :=
    hremoved.congr fun spec rule quota hrule hquota =>
      hkeptUsers spec.user quota (owner_of_spec (hstays spec rule hrule)) hquota
  have hmemAdded : ∀ rule ∈ added, rule.spec ∈ specsOf config ∧
      rule.spec ∉ w.runtime.rules := by
    intro rule hrule
    have hmem := List.mem_map_of_mem (f := PreparedRule.spec) hrule
    rw [hspecs, List.mem_filter, decide_eq_true_eq] at hmem
    exact hmem
  obtain ⟨hrunning, _, hkeptRules, haddedRules⟩ := foldl_startFor added hnextRunning
    (hspecs ▸ hvalid.specs_nodup.filter _)
    (fun rule hrule hmem => by
      obtain ⟨hspec, hnew⟩ := hmemAdded rule hrule
      rw [← AList.lookup_isSome, hsamed rule.spec hspec, AList.lookup_isSome] at hmem
      exact hnew hmem)
    hcomplete
    (fun rule hrule => by
      obtain ⟨quota, hmem, hname⟩ := List.mem_map.mp
        (hnames ▸ owner_of_spec (hmemAdded rule hrule).1 :
          rule.spec.user ∈ users.map QuotaRef.name)
      rw [← hname, getUser_of_mem hnodup hmem]
      rfl)
  generalize added.foldl (startFor users) removedWorld = last at hrunning hkeptRules haddedRules ⊢
  have hold : ∀ spec ∈ specsOf config, spec ∈ w.runtime.rules →
      last.runtime.rules.lookup spec = w.runtime.rules.lookup spec := by
    intro spec hspec hwas
    rw [hkeptRules spec, hsamed spec hspec]
    rw [hspecs, List.mem_filter, decide_eq_true_eq]
    exact fun hmem => hmem.2 hwas
  refine ⟨⟨?_, ?_, hnames, rfl⟩, hold, hkeptUsers, haddedRules⟩
  · exact ⟨hrunning.sockets, hrunning.fresh, hrunning.stops, hrunning.tasks, hrunning.owned⟩
  · intro spec
    change spec ∈ last.runtime.rules ↔ spec ∈ specsOf config
    constructor
    · intro hmem
      by_cases hadded : spec ∈ added.map PreparedRule.spec
      · obtain ⟨rule, hrule, rfl⟩ := List.mem_map.mp hadded
        exact (hmemAdded rule hrule).1
      · rw [← AList.lookup_isSome, hkeptRules spec hadded] at hmem
        obtain ⟨rule, hrule⟩ := Option.isSome_iff_exists.mp hmem
        exact hstays spec rule hrule
    · intro hspec
      by_cases hwas : spec ∈ w.runtime.rules
      · rw [← AList.lookup_isSome, hold spec hspec hwas, AList.lookup_isSome]
        exact hwas
      · have hadded : spec ∈ added.map PreparedRule.spec := by
          rw [hspecs, List.mem_filter, decide_eq_true_eq]
          exact ⟨hspec, hwas⟩
        obtain ⟨rule, hrule, rfl⟩ := List.mem_map.mp hadded
        obtain ⟨running, hrunningRule, _⟩ := haddedRules rule hrule
        rw [← AList.lookup_isSome, hrunningRule]
        rfl

end PortsBox
