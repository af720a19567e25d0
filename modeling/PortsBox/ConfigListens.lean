import PortsBox.RuntimeCore

/-!
# What an accepted config promises the runtime

User names are distinct, and no two enabled rules listen on one address with one
transport. The sets that `validate` fills are followed through its loops.
-/

set_option autoImplicit false

namespace PortsBox

universe u v w

/-! ## Loops that may fail -/

theorem bind_ok {ε : Type u} {α β : Type v} {x : Except ε α} {f : α → Except ε β} {b : β}
    (h : (x >>= f) = .ok b) : ∃ a, x = .ok a ∧ f a = .ok b := by
  cases x with
  | error e => cases h
  | ok a => exact ⟨a, rfl, h⟩

/-- A property of the elements handled so far and the state holds after the loop. -/
theorem foldlM_ok {ε σ : Type u} {α : Type v} {f : σ → α → Except ε σ}
    {P : List α → σ → Prop}
    (hstep : ∀ done x s next, P done s → f s x = .ok next → P (done ++ [x]) next)
    (xs done : List α) {s last : σ} (h : P done s) (hrun : xs.foldlM f s = .ok last) :
    P (done ++ xs) last := by
  induction xs generalizing done s with
  | nil =>
    obtain rfl : s = last := Except.ok.inj hrun
    rwa [List.append_nil]
  | cons x xs ih =>
    rw [List.foldlM_cons] at hrun
    obtain ⟨next, hx, hrest⟩ := bind_ok hrun
    have hlast := ih (done ++ [x]) (hstep done x s next h hx) hrest
    rwa [List.append_assoc] at hlast

theorem insertNew_ok {α : Type} [DecidableEq α] {set next : List α} {x : α} {e : ConfigError}
    (h : insertNew set x e = .ok next) : x ∉ set ∧ next = x :: set := by
  unfold insertNew at h
  split at h
  · cases h
  · exact ⟨by assumption, (Except.ok.inj h).symm⟩

theorem insertWhen_ok {α : Type} [DecidableEq α] {uses : Bool} {set next : List α} {x : α}
    {e : ConfigError} (h : insertWhen uses set x e = .ok next) (hset : set.Nodup) :
    next = (if uses then [x] else []) ++ set ∧ next.Nodup := by
  cases uses with
  | false =>
    obtain rfl : set = next := Except.ok.inj h
    exact ⟨rfl, hset⟩
  | true =>
    obtain ⟨hnew, rfl⟩ := insertNew_ok h
    exact ⟨rfl, List.nodup_cons.mpr ⟨hnew, hset⟩⟩

/-! ## Rules -/

/-- The TCP address of an enabled rule that has one. -/
def tcpOf (rule : Rule) : List SocketAddr :=
  if rule.enabled && rule.protocol.isTcp then [rule.listen] else []

def udpOf (rule : Rule) : List SocketAddr :=
  if rule.enabled && rule.protocol.isUdp then [rule.listen] else []

def Seen.Distinct (seen : Seen) : Prop :=
  seen.names.Nodup ∧ seen.tcpListens.Nodup ∧ seen.udpListens.Nodup

section Check
variable {isSocketAddr : String → Bool}

theorem checkRule_ok {user : String} {seen next : Seen} {rule : Rule}
    (h : checkRule isSocketAddr user seen rule = .ok next) (hseen : seen.Distinct) :
    next.names = seen.names ∧ next.tcpListens = tcpOf rule ++ seen.tcpListens ∧
      next.udpListens = udpOf rule ++ seen.udpListens ∧ next.Distinct := by
  unfold checkRule at h
  cases henabled : rule.enabled with
  | false =>
    simp only [henabled, Bool.not_false, if_true, Except.ok.injEq] at h
    subst h
    simp [tcpOf, udpOf, henabled, hseen]
  | true =>
    rw [henabled, if_neg (by simp)] at h
    obtain ⟨_, _, h⟩ := bind_ok h
    obtain ⟨_, _, h⟩ := bind_ok h
    obtain ⟨_, _, h⟩ := bind_ok h
    obtain ⟨_, _, h⟩ := bind_ok h
    obtain ⟨_, _, h⟩ := bind_ok h
    obtain ⟨tcpListens, htcp, h⟩ := bind_ok h
    obtain ⟨udpListens, hudp, h⟩ := bind_ok h
    obtain rfl := Except.ok.inj h
    obtain ⟨htcpNext, htcpNodup⟩ := insertWhen_ok htcp hseen.2.1
    obtain ⟨hudpNext, hudpNodup⟩ := insertWhen_ok hudp hseen.2.2
    refine ⟨rfl, ?_, ?_, hseen.1, htcpNodup, hudpNodup⟩
    · rw [tcpOf, henabled, Bool.true_and]
      exact htcpNext
    · rw [udpOf, henabled, Bool.true_and]
      exact hudpNext

/-- The sets after some users, from the sets before. -/
def SeenAfter (start : Seen) (users : List UserConfig) (seen : Seen) : Prop :=
  seen.names = (users.map UserConfig.name).reverse ++ start.names ∧
    seen.tcpListens = (users.flatMap fun user => user.rules.flatMap tcpOf).reverse ++
      start.tcpListens ∧
    seen.udpListens = (users.flatMap fun user => user.rules.flatMap udpOf).reverse ++
      start.udpListens ∧
    seen.Distinct

theorem checkUser_ok {start seen next : Seen} {users : List UserConfig} {user : UserConfig}
    (hseen : SeenAfter start users seen) (h : checkUser isSocketAddr seen user = .ok next) :
    SeenAfter start (users ++ [user]) next := by
  rcases hseen with ⟨hnames, htcp, hudp, hdistinct⟩
  obtain ⟨_, _, h⟩ := bind_ok h
  obtain ⟨names, hnew, h⟩ := bind_ok h
  obtain ⟨hfresh, rfl⟩ := insertNew_ok hnew
  have hrules : next.names = user.name :: seen.names ∧
      next.tcpListens = (user.rules.flatMap tcpOf).reverse ++ seen.tcpListens ∧
      next.udpListens = (user.rules.flatMap udpOf).reverse ++ seen.udpListens ∧
      next.Distinct := by
    have hloop := foldlM_ok (f := checkRule isSocketAddr user.name)
      (P := fun done s => s.names = user.name :: seen.names ∧
        s.tcpListens = (done.flatMap tcpOf).reverse ++ seen.tcpListens ∧
        s.udpListens = (done.flatMap udpOf).reverse ++ seen.udpListens ∧ s.Distinct)
      (fun done rule s later hdone hrule => by
        rcases hdone with ⟨hn, ht, hu, hd⟩
        obtain ⟨hn', ht', hu', hd'⟩ := checkRule_ok hrule hd
        refine ⟨hn'.trans hn, ?_, ?_, hd'⟩
        · have hone : (tcpOf rule).reverse = tcpOf rule := by
            unfold tcpOf
            split <;> rfl
          simp [ht', ht, List.flatMap_append, hone]
        · have hone : (udpOf rule).reverse = udpOf rule := by
            unfold udpOf
            split <;> rfl
          simp [hu', hu, List.flatMap_append, hone])
      user.rules [] (s := { seen with names := user.name :: seen.names })
      ⟨rfl, rfl, rfl, List.nodup_cons.mpr ⟨hfresh, hdistinct.1⟩, hdistinct.2.1, hdistinct.2.2⟩ h
    exact hloop
  refine ⟨?_, ?_, ?_, hrules.2.2.2⟩
  · simp [hrules.1, hnames]
  · simp [hrules.2.1, htcp]
  · simp [hrules.2.2.1, hudp]

/-! ## Accepted configs -/

def tcpSpecs (config : Config) : List RuleSpec := (specsOf config).filter (·.protocol.isTcp)

def udpSpecs (config : Config) : List RuleSpec := (specsOf config).filter (·.protocol.isUdp)

/-- What the runtime relies on. -/
structure Valid (config : Config) : Prop where
  names : (config.users.map UserConfig.name).Nodup
  tcp : ((tcpSpecs config).map RuleSpec.listen).Nodup
  udp : ((udpSpecs config).map RuleSpec.listen).Nodup

/-- The addresses `validate` collects for a transport are those of the specs that use it. -/
theorem listens_eq (uses : Protocol → Bool) (users : List UserConfig) :
    (users.flatMap fun user => user.rules.flatMap fun rule =>
        if rule.enabled && uses rule.protocol then [rule.listen] else []) =
      ((users.flatMap fun user => (user.rules.filter (·.enabled)).map (specOf user)).filter
        fun spec => uses spec.protocol).map RuleSpec.listen := by
  have hrules : ∀ (user : UserConfig) (rules : List Rule),
      (rules.flatMap fun rule =>
          if rule.enabled && uses rule.protocol then [rule.listen] else []) =
        (((rules.filter (·.enabled)).map (specOf user)).filter
          fun spec => uses spec.protocol).map RuleSpec.listen := by
    intro user rules
    induction rules with
    | nil => rfl
    | cons rule rules ih =>
      rw [List.flatMap_cons, ih]
      cases henabled : rule.enabled <;> cases huses : uses rule.protocol <;>
        simp [henabled, huses, specOf]
  induction users with
  | nil => rfl
  | cons user users ih =>
    rw [List.flatMap_cons, List.flatMap_cons, List.filter_append, List.map_append, ih,
      hrules user]

theorem checkPanel_ok {config : Config} {tcpListens : List SocketAddr}
    (h : checkPanel config = .ok tcpListens) : tcpListens.Nodup := by
  have hapi : (config.api.elim [] fun api => [api.listen]).Nodup := by
    cases config.api <;> simp
  unfold checkPanel at h
  dsimp only at h
  split at h
  · obtain rfl := Except.ok.inj h
    exact hapi
  · obtain ⟨_, _, h⟩ := bind_ok h
    obtain ⟨hnew, rfl⟩ := insertNew_ok h
    exact List.nodup_cons.mpr ⟨hnew, hapi⟩

theorem validate_ok {config : Config} (h : validate isSocketAddr config = .ok ()) :
    Valid config := by
  obtain ⟨_, _, h⟩ := bind_ok h
  obtain ⟨_, _, h⟩ := bind_ok h
  obtain ⟨_, _, h⟩ := bind_ok h
  obtain ⟨tcpListens, hpanel, h⟩ := bind_ok h
  obtain ⟨seen, husers, _⟩ := bind_ok h
  have hstart : SeenAfter { tcpListens } [] { tcpListens } :=
    ⟨rfl, rfl, rfl, List.nodup_nil, checkPanel_ok hpanel, List.nodup_nil⟩
  obtain ⟨hnames, htcp, hudp, hdistinct⟩ :=
    foldlM_ok (fun done user s next => checkUser_ok) config.users [] hstart husers
  rw [Seen.Distinct, hnames, htcp, hudp, List.nil_append] at hdistinct
  refine ⟨?_, ?_, ?_⟩
  · exact List.nodup_reverse.mp hdistinct.1.of_append_left
  · have htcpNodup := List.nodup_reverse.mp hdistinct.2.1.of_append_left
    exact listens_eq Protocol.isTcp config.users ▸ htcpNodup
  · have hudpNodup := List.nodup_reverse.mp hdistinct.2.2.of_append_left
    exact listens_eq Protocol.isUdp config.users ▸ hudpNodup

end Check

/-- Accepted by `config::check`: what it returned for some config. -/
def Accepted (config : Config) : Prop :=
  ∃ (isSocketAddr : String → Bool) (raw : Config), check isSocketAddr raw = .ok config

theorem Accepted.valid {config : Config} (h : Accepted config) : Valid config := by
  rcases h with ⟨isSocketAddr, raw, hcheck⟩
  obtain ⟨folded, _, hcheck⟩ := bind_ok hcheck
  obtain ⟨_, hvalid, hcheck⟩ := bind_ok hcheck
  obtain rfl := Except.ok.inj hcheck
  exact validate_ok hvalid

/-! ## Specs -/

theorem Protocol.isTcp_or_isUdp (protocol : Protocol) :
    protocol.isTcp = true ∨ protocol.isUdp = true := by
  cases protocol <;> simp [Protocol.isTcp, Protocol.isUdp]

theorem Valid.specs_nodup {config : Config} (h : Valid config) : (specsOf config).Nodup := by
  rw [List.nodup_iff_count_le_one]
  intro spec
  rcases spec.protocol.isTcp_or_isUdp with htcp | hudp
  · have hcount := List.nodup_iff_count_le_one.mp h.tcp.of_map spec
    have hkeep := List.count_filter (p := fun s : RuleSpec => s.protocol.isTcp)
      (l := specsOf config) htcp
    exact hkeep ▸ hcount
  · have hcount := List.nodup_iff_count_le_one.mp h.udp.of_map spec
    have hkeep := List.count_filter (p := fun s : RuleSpec => s.protocol.isUdp)
      (l := specsOf config) hudp
    exact hkeep ▸ hcount

theorem owner_of_spec {config : Config} {spec : RuleSpec} (h : spec ∈ specsOf config) :
    spec.user ∈ config.users.map UserConfig.name := by
  obtain ⟨user, huser, hrule⟩ := List.mem_flatMap.mp h
  obtain ⟨rule, _, rfl⟩ := List.mem_map.mp hrule
  exact List.mem_map.mpr ⟨user, huser, rfl⟩

end PortsBox
