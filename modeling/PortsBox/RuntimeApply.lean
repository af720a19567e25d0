import PortsBox.ConfigListens

/-!
# `apply` as a function of its answers

Up to its last failure point `apply` only writes the log of issued binds, so its
outcome is a log and a result; then `install` runs on the world it started from.
A refused `apply` therefore leaves everything as it was.
-/

set_option autoImplicit false

namespace PortsBox

/-! ## Actions that only log -/

def World.log (w : World) (binds : List Bind) : World := { w with binds := w.binds ++ binds }

/-- The binds an action issues, and how it ends. -/
abbrev Outcome (α : Type) := List Bind × Except ApplyError α

def Outcome.andThen {α β : Type} (o : Outcome α) (f : α → Outcome β) : Outcome β :=
  match o.2 with
  | .error e => (o.1, .error e)
  | .ok a => (o.1 ++ (f a).1, (f a).2)

def Outcome.result {α : Type} (o : Outcome α) (w : World) : EStateM.Result ApplyError World α :=
  match o.2 with
  | .error e => .error e (w.log o.1)
  | .ok a => .ok a (w.log o.1)

/-- The action has this outcome in every world. -/
def Logs {α : Type} (m : Apply α) (o : Outcome α) : Prop := ∀ w, m w = o.result w

section Logs
variable {α β : Type}

@[simp] theorem World.log_nil (w : World) : w.log [] = w := by simp [World.log]

@[simp] theorem World.log_log (w : World) (binds more : List Bind) :
    (w.log binds).log more = w.log (binds ++ more) := by simp [World.log]

theorem logs_pure (a : α) : Logs (pure a) ([], .ok a) := by
  intro w
  rw [Outcome.result, World.log_nil]
  rfl

theorem logs_throw (e : ApplyError) : Logs (throw e : Apply α) ([], .error e) := by
  intro w
  rw [Outcome.result, World.log_nil]
  rfl

theorem Logs.bind {m : Apply α} {f : α → Apply β} {o : Outcome α} {g : α → Outcome β}
    (hm : Logs m o) (hf : ∀ a, Logs (f a) (g a)) : Logs (m >>= f) (o.andThen g) := by
  intro w
  change EStateM.bind m f w = _
  rw [EStateM.bind, hm w, Outcome.result, Outcome.andThen]
  cases o.2 with
  | error e => rfl
  | ok a =>
    change f a (w.log o.1) = _
    rw [hf a, Outcome.result, Outcome.result, World.log_log]

end Logs

/-! ## The outcome of the preparation -/

/-- How one transport of a new rule gets its socket. -/
def socketFor {S : Type} (transport : Transport) (bind : SocketAddr → Except String S)
    (error : SocketAddr → String → ApplyError) (listen : SocketAddr) (uses : Bool)
    (spare : Option S) : Outcome (Option S) :=
  match uses, spare with
  | false, _ => ([], .ok none)
  | true, some socket => ([], .ok (some socket))
  | true, none =>
    ([(transport, listen)],
      match bind listen with
      | .error e => .error (error listen e)
      | .ok socket => .ok (some socket))

def tcpFor (env : Env) (spec : RuleSpec) (spare : Option TcpListener) :
    Outcome (Option TcpListener) :=
  socketFor .tcp env.bindTcp .bindTcp spec.listen spec.protocol.isTcp spare

def udpFor (env : Env) (spec : RuleSpec) (spare : Option UdpEndpoints) :
    Outcome (Option UdpEndpoints) :=
  socketFor .udp env.bindUdp .bindUdp spec.listen spec.protocol.isUdp spare

def Spare.erase (spare : Spare) (listen : SocketAddr) : Spare where
  tcp := AList.erase listen spare.tcp
  udp := AList.erase listen spare.udp

def prepared (env : Env) (rules : HashMap RuleSpec RunningRule) :
    List RuleSpec → Spare → Outcome (List PreparedRule)
  | [], _ => ([], .ok [])
  | spec :: specs, spare =>
    if spec ∈ rules then prepared env rules specs spare
    else
      (tcpFor env spec (spare.tcp.lookup spec.listen)).andThen fun tcp =>
        (udpFor env spec (spare.udp.lookup spec.listen)).andThen fun udp =>
          (prepared env rules specs (spare.erase spec.listen)).andThen fun rest =>
            ([], .ok (⟨spec, tcp, udp⟩ :: rest))

theorem takeSocket_logs {S : Type} (transport : Transport)
    (bind : SocketAddr → Except String S) (error : SocketAddr → String → ApplyError)
    (listen : SocketAddr) (uses : Bool) (spare : Option S) :
    Logs (takeSocket transport bind error listen uses spare)
      (socketFor transport bind error listen uses spare) := by
  cases uses with
  | false => exact logs_pure none
  | true =>
    cases spare with
    | some socket => exact logs_pure (some socket)
    | none =>
      intro w
      unfold takeSocket socketFor bindSocket
      cases hbind : bind listen <;> rfl

theorem prepare_logs (env : Env) (rules : HashMap RuleSpec RunningRule)
    (specs : List RuleSpec) (spare : Spare) :
    Logs (prepare env rules specs spare) (prepared env rules specs spare) := by
  induction specs generalizing spare with
  | nil => exact logs_pure []
  | cons spec specs ih =>
    unfold prepare prepared
    split
    · exact ih spare
    · apply (takeSocket_logs .tcp env.bindTcp .bindTcp spec.listen _ _).bind
      intro tcp
      apply (takeSocket_logs .udp env.bindUdp .bindUdp spec.listen _ _).bind
      intro udp
      apply (ih (spare.erase spec.listen)).bind
      intro rest
      exact logs_pure _

/-! ## The outcome of `apply` -/

def savedFor (env : Env) (runtime : Runtime) (config : Config) :
    Except ApplyError (Std.ExtTreeMap String SavedUsage) :=
  if runtime.hasDb && config.users.any (fun user => (getUser runtime.users user.name).isNone) then
    match env.load with
    | .error e => .error (.load e)
    | .ok saved => .ok saved
  else .ok ∅

theorem loadSaved_logs (env : Env) (runtime : Runtime) (config : Config) :
    Logs (loadSaved env runtime config) ([], savedFor env runtime config) := by
  unfold loadSaved savedFor
  dsimp only
  split
  · cases env.load with
    | error e => exact logs_throw _
    | ok saved => exact logs_pure _
  · exact logs_pure _

/-- The sockets and the saved usage `apply` gets hold of before it changes anything. -/
def gathered (env : Env) (config : Config) (w : World) :
    Outcome (List PreparedRule × Std.ExtTreeMap String SavedUsage) :=
  let rules := w.runtime.rules
  let specs := specsOf config
  (prepared env rules specs (spareOf rules (removedSpecs rules specs))).andThen fun added =>
    ([], (savedFor env w.runtime config).map fun saved => (added, saved))

theorem apply_eq (env : Env) (config : Config) (w : World) :
    apply env config w =
      match gathered env config w with
      | (binds, .error e) => .error e { w with binds }
      | (binds, .ok (added, saved)) =>
        .ok () (install env config added saved { w with binds }) := by
  have hclear : ∀ binds, World.log { w with binds := [] } binds = { w with binds } := fun _ => rfl
  have hprepare := prepare_logs env w.runtime.rules (specsOf config)
    (spareOf w.runtime.rules (removedSpecs w.runtime.rules (specsOf config)))
    { w with binds := [] }
  have hload := fun binds => loadSaved_logs env w.runtime config { w with binds }
  change EStateM.bind (prepare env w.runtime.rules (specsOf config)
    (spareOf w.runtime.rules (removedSpecs w.runtime.rules (specsOf config))))
    (fun added => EStateM.bind (loadSaved env w.runtime config)
      fun saved => modify (install env config added saved)) { w with binds := [] } = _
  rw [EStateM.bind, hprepare, Outcome.result, gathered, Outcome.andThen]
  generalize prepared env w.runtime.rules (specsOf config)
    (spareOf w.runtime.rules (removedSpecs w.runtime.rules (specsOf config))) = o
  rcases o with ⟨binds, outcome⟩
  cases outcome with
  | error e => rfl
  | ok added =>
    dsimp only
    rw [hclear, EStateM.bind, hload, Outcome.result]
    cases savedFor env w.runtime config with
    | error e => simp [World.log, Except.map]
    | ok saved =>
      simp only [World.log, List.append_nil, Except.map]
      rfl

/-- An `apply` that succeeds installs what it has gathered. -/
theorem apply_installed {env : Env} {config : Config} {w after : World}
    (h : apply env config w = .ok () after) :
    ∃ binds added saved, gathered env config w = (binds, .ok (added, saved)) ∧
      after = install env config added saved { w with binds } := by
  rw [apply_eq] at h
  cases hgathered : gathered env config w with
  | mk binds outcome =>
    rw [hgathered] at h
    cases outcome with
    | error e => cases h
    | ok found =>
      rcases found with ⟨added, saved⟩
      exact ⟨binds, added, saved, rfl, (EStateM.Result.ok.inj h).2.symm⟩

/-- An `apply` that fails changes nothing but the log, and a later one starts its log anew. -/
theorem apply_refused (env : Env) (config : Config) {w after : World} {e : ApplyError}
    (h : apply env config w = .error e after) :
    after.runtime = w.runtime ∧ after.quotas = w.quotas ∧ after.tasks = w.tasks ∧
      after.remote = w.remote ∧ after.next = w.next ∧
      ∀ laterEnv later, apply laterEnv later after = apply laterEnv later w := by
  rw [apply_eq] at h
  obtain ⟨binds, rfl⟩ : ∃ binds, after = { w with binds } := by
    cases hgathered : gathered env config w with
    | mk binds outcome =>
      rw [hgathered] at h
      cases outcome with
      | error e => exact ⟨binds, (EStateM.Result.error.inj h).2.symm⟩
      | ok found => cases h
  exact ⟨rfl, rfl, rfl, rfl, rfl, fun _ _ => rfl⟩

/-- One user with one rule for both transports. -/
def oneRule : Config where
  users := [{ name := "a", rules := [{ listen := .v4 0 80#16, target := "t:1" }] }]

/-- The rule beside another one of its user. -/
def twoRules : Config where
  users := [{ name := "a", rules :=
    [{ listen := .v4 0 80#16, target := "t:1" }, { listen := .v4 0 81#16, target := "t:2" }] }]

/-- Every bind succeeds. -/
def freePorts : Env where
  bindTcp _ := .ok ⟨1⟩
  bindUdp _ := .ok ⟨2⟩
  load := .ok ∅
  hour _ := 0

/-- TCP binds, UDP does not. -/
def udpInUse : Env where
  bindTcp _ := .ok ⟨7⟩
  bindUdp _ := .error "address in use"
  load := .ok ∅
  hour _ := 0

def idleQuota : UserQuota := UserQuota.newMeteredAt "" none {} .max 0

def emptyWorld : World where
  quotas _ := idleQuota

/-- What `oneRule` leaves on a fresh start. -/
def oneRuleRunning : World :=
  match apply freePorts oneRule emptyWorld with
  | .ok _ after => after
  | .error _ after => after

/-- The rule that runs stays as it is when another one cannot be bound. -/
theorem apply_refused_udpInUse :
    ∃ e after, apply udpInUse twoRules oneRuleRunning = .error e after ∧
      after.runtime = oneRuleRunning.runtime ∧ after.quotas = oneRuleRunning.quotas ∧
      after.tasks = oneRuleRunning.tasks ∧ oneRuleRunning.tasks ≠ [] ∧
      apply freePorts twoRules after = apply freePorts twoRules oneRuleRunning := by
  refine ⟨_, _, rfl, ?_⟩
  obtain ⟨hruntime, hquotas, htasks, -, -, hlater⟩ := apply_refused udpInUse twoRules
    (w := oneRuleRunning) rfl
  exact ⟨hruntime, hquotas, htasks, by decide +kernel, hlater freePorts twoRules⟩

end PortsBox
