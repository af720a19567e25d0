import PortsBox.QuotaCore

/-!
# The config and its check

The sections of a config, `finalize` with everything it validates in the order
it does, and the quotas a config gives its users. A file path is its text and a
byte size its number of bytes. Whether a target is a socket address is a
parameter: such a target also splits into host and port.
-/

set_option autoImplicit false

namespace PortsBox

inductive SocketAddr where
  | v4 (ip : BitVec 32) (port : BitVec 16)
  | v6 (ip : BitVec 128) (port : BitVec 16) (flowinfo scopeId : BitVec 32)
  deriving DecidableEq, Repr

inductive Protocol where
  | both
  | tcp
  | udp
  deriving DecidableEq, Repr

def Protocol.isTcp : Protocol → Bool
  | both => true
  | tcp => true
  | udp => false

def Protocol.isUdp : Protocol → Bool
  | both => true
  | tcp => false
  | udp => true

structure Rule where
  listen : SocketAddr
  target : String
  fallback : List String := []
  checkSecs : Nat := 10
  protocol : Protocol := .both
  enabled : Bool := true
  tag : Option String := none
  deriving DecidableEq, Repr

structure UserConfig where
  name : String
  quota : Option Nat := none
  packages : List String := []
  rules : List Rule
  deriving DecidableEq, Repr

structure StateFileConfig where
  enabled : Bool := true
  path : String := "state.db"
  flushSecs : Nat := 10
  deriving DecidableEq, Repr

structure ApiConfig where
  listen : SocketAddr
  token : Option String := none
  deriving DecidableEq, Repr

structure PanelConfig where
  enabled : Bool := false
  listen : SocketAddr := .v4 0x7f000001#32 8888#16
  token : String := ""
  username : String := ""
  password : String := ""
  path : String := "panel.json"
  deriving DecidableEq, Repr

inductive Mode where
  | offline
  | remote
  deriving DecidableEq, Repr

inductive Provider where
  | volcengine
  deriving DecidableEq, Repr

structure RemoteConfig where
  provider : Provider
  accessKey : String := ""
  secretKey : String := ""
  regions : List String := []
  intervalSecs : Nat := 600
  packages : List String := []
  deriving DecidableEq, Repr

structure Accounting where
  mode : Mode := .offline
  metering : Metering := .max
  remote : Option RemoteConfig := none
  deriving DecidableEq, Repr

def Accounting.activeRemote (accounting : Accounting) : Option RemoteConfig :=
  accounting.remote.filter fun _ => accounting.mode = .remote

structure Config where
  stateFile : Option StateFileConfig := none
  api : Option ApiConfig := none
  panel : Option PanelConfig := none
  totalQuota : Option Nat := none
  accounting : Accounting := {}
  rules : List Rule := []
  users : List UserConfig := []
  singleUser : Bool := false
  deriving DecidableEq, Repr

def Config.enabledPanel (config : Config) : Option PanelConfig :=
  config.panel.filter (·.enabled)

/-! ## Errors -/

inductive TargetError where
  | missingPort
  | invalidPort
  | emptyHost
  deriving DecidableEq, Repr

inductive ConfigError where
  | rulesAndUsers
  | noUsers
  | singleUser
  | flushSecs
  | panelLogin
  | duplicateTcp (listen : SocketAddr)
  | duplicateUdp (listen : SocketAddr)
  | emptyName
  | duplicateName (name : String)
  | emptyTarget (user : String)
  | emptyFallback (user : String)
  | badTarget (user target : String) (e : TargetError)
  | checkSecs (user : String)
  | emptyTag (user : String)
  | emptyPackage
  | duplicatePackage (id : String)
  | intervalSecs
  | emptyRegion
  | remoteMissing
  | remoteKeys
  | remoteRegions
  deriving DecidableEq, Repr

def minSyncSecs : Nat := 60

/-- The texts of the errors; `quoted` and `address` stand for `{:?}` of a string and `{}` of a
socket address. -/
def ConfigError.message (quoted : String → String) (address : SocketAddr → String) :
    ConfigError → String
  | rulesAndUsers => "top-level rules and users cannot both be set"
  | noUsers => "config has no users or rules; add some or enable the panel"
  | singleUser => "single-user mode allows only one user"
  | flushSecs => "state_file flush_secs must be at least 1"
  | panelLogin => "panel username and password must be set together"
  | duplicateTcp listen => "duplicate TCP listen address " ++ address listen
  | duplicateUdp listen => "duplicate UDP listen address " ++ address listen
  | emptyName => "user name cannot be empty"
  | duplicateName name => "duplicate user name " ++ quoted name
  | emptyTarget user => "user " ++ quoted user ++ ": rule target cannot be empty"
  | emptyFallback user => "user " ++ quoted user ++ ": rule fallback target cannot be empty"
  | badTarget user target .missingPort =>
    "user " ++ quoted user ++ ": target " ++ quoted target ++ " is missing a port"
  | badTarget user target .invalidPort =>
    "user " ++ quoted user ++ ": target " ++ quoted target ++ " has an invalid port"
  | badTarget user target .emptyHost =>
    "user " ++ quoted user ++ ": target " ++ quoted target ++ " has an empty host"
  | checkSecs user => "user " ++ quoted user ++ ": rule check_secs must be at least 1"
  | emptyTag user => "user " ++ quoted user ++ ": rule tag cannot be empty"
  | emptyPackage => "traffic package id cannot be empty"
  | duplicatePackage id => "traffic package " ++ quoted id ++ " is listed more than once"
  | intervalSecs => "remote interval_secs must be at least " ++ toString minSyncSecs
  | emptyRegion => "remote region cannot be empty"
  | remoteMissing => "remote accounting needs a remote section"
  | remoteKeys => "remote accounting needs access_key and secret_key"
  | remoteRegions => "remote accounting needs at least one region"

/-! ## Targets -/

/-- `str::parse::<u16>`: an optional plus sign, then at least one digit. -/
def parsePort (digits : List Char) : Option Nat :=
  let digits := match digits with
    | '+' :: rest => rest
    | digits => digits
  if digits.isEmpty || !digits.all Char.isDigit then none
  else
    let port := digits.foldl (fun n c => 10 * n + (c.toNat - '0'.toNat)) 0
    if port < 2 ^ 16 then some port else none

def splitTarget (target : String) : Except TargetError (String × Nat) :=
  let (port, rest) := target.toList.reverse.span (· ≠ ':')
  match rest with
  | [] => .error .missingPort
  | _ :: host =>
    match parsePort port.reverse with
    | none => .error .invalidPort
    | some port =>
      if host.isEmpty then .error .emptyHost else .ok (String.ofList host.reverse, port)

/-- The characters `str::trim` removes. -/
def isWhitespace (c : Char) : Bool :=
  let n := c.toNat
  (9 ≤ n && n ≤ 13) || n = 0x20 || n = 0x85 || n = 0xa0 || n = 0x1680 ||
    (0x2000 ≤ n && n ≤ 0x200a) || n = 0x2028 || n = 0x2029 || n = 0x202f || n = 0x205f ||
    n = 0x3000

/-- `str::trim` -/
def trim (text : List Char) : List Char :=
  ((text.dropWhile isWhitespace).reverse.dropWhile isWhitespace).reverse

/-- `text.trim().is_empty()` -/
def isBlank (text : String) : Bool := text.toList.all isWhitespace

/-! ## Validation -/

def refuse (bad : Bool) (e : ConfigError) : Except ConfigError Unit :=
  if bad then .error e else .ok ()

/-- `!set.insert(x)` as a refusal, and the set with `x` in it. -/
def insertNew {α : Type} [DecidableEq α] (set : List α) (x : α) (e : ConfigError) :
    Except ConfigError (List α) :=
  if x ∈ set then .error e else .ok (x :: set)

/-- `uses && !set.insert(x)` as a refusal, and the set after it. -/
def insertWhen {α : Type} [DecidableEq α] (uses : Bool) (set : List α) (x : α)
    (e : ConfigError) : Except ConfigError (List α) :=
  if uses then insertNew set x e else .ok set

/-- The sets of names and listen addresses seen so far. -/
structure Seen where
  names : List String := []
  tcpListens : List SocketAddr := []
  udpListens : List SocketAddr := []

section Check
variable (isSocketAddr : String → Bool)

def checkTarget (target : String) : Except TargetError Unit :=
  if isSocketAddr target then .ok ()
  else (splitTarget target).map fun _ => ()

def checkTargets (user : String) : List String → Except ConfigError Unit
  | [] => .ok ()
  | target :: targets =>
    match checkTarget isSocketAddr target with
    | .error e => .error (.badTarget user target e)
    | .ok () => checkTargets user targets

def checkRule (user : String) (seen : Seen) (rule : Rule) : Except ConfigError Seen :=
  if !rule.enabled then .ok seen
  else do
    refuse rule.target.isEmpty (.emptyTarget user)
    refuse (rule.fallback.any String.isEmpty) (.emptyFallback user)
    checkTargets isSocketAddr user (rule.target :: rule.fallback)
    refuse (rule.checkSecs = 0) (.checkSecs user)
    refuse (rule.tag = some "") (.emptyTag user)
    let tcpListens ← insertWhen rule.protocol.isTcp seen.tcpListens rule.listen
      (.duplicateTcp rule.listen)
    let udpListens ← insertWhen rule.protocol.isUdp seen.udpListens rule.listen
      (.duplicateUdp rule.listen)
    return { seen with tcpListens, udpListens }

def checkUser (seen : Seen) (user : UserConfig) : Except ConfigError Seen := do
  refuse user.name.isEmpty .emptyName
  let names ← insertNew seen.names user.name (.duplicateName user.name)
  user.rules.foldlM (checkRule isSocketAddr user.name) { seen with names }

def checkPackages : List String → List String → Except ConfigError Unit
  | _, [] => .ok ()
  | packages, id :: ids => do
    refuse (isBlank id) .emptyPackage
    let packages ← insertNew packages id (.duplicatePackage id)
    checkPackages packages ids

def validateAccounting (config : Config) : Except ConfigError Unit := do
  let accounting := config.accounting
  let shared := accounting.remote.elim [] RemoteConfig.packages
  let owned := config.users.flatMap UserConfig.packages
  checkPackages [] (shared ++ owned)
  match accounting.remote with
  | none => .ok ()
  | some remote => do
    refuse (remote.intervalSecs < minSyncSecs) .intervalSecs
    refuse (remote.regions.any isBlank) .emptyRegion
  if accounting.mode = .remote then
    match accounting.remote with
    | none => .error .remoteMissing
    | some remote => do
      refuse (remote.accessKey.isEmpty || remote.secretKey.isEmpty) .remoteKeys
      refuse remote.regions.isEmpty .remoteRegions
  else .ok ()

/-- The TCP addresses of the API and the panel. -/
def checkPanel (config : Config) : Except ConfigError (List SocketAddr) :=
  let tcpListens := config.api.elim [] fun api => [api.listen]
  match config.enabledPanel with
  | none => .ok tcpListens
  | some panel => do
    refuse (panel.username.isEmpty != panel.password.isEmpty) .panelLogin
    insertNew tcpListens panel.listen (.duplicateTcp panel.listen)

def validate (config : Config) : Except ConfigError Unit := do
  refuse (config.users.isEmpty && config.enabledPanel.isNone) .noUsers
  refuse (config.singleUser && 1 < config.users.length) .singleUser
  refuse (config.stateFile.any (·.flushSecs = 0)) .flushSecs
  let tcpListens ← checkPanel config
  let _ ← config.users.foldlM (checkUser isSocketAddr) { tcpListens }
  validateAccounting config

/-- Folds the single-user shorthand into `users`. -/
def foldShorthand (config : Config) : Except ConfigError Config :=
  if config.rules.isEmpty then .ok config
  else if !config.users.isEmpty then .error .rulesAndUsers
  else
    .ok { config with
      rules := []
      users := [{ name := "default", rules := config.rules }]
      singleUser := true }

def finalize (config : Config) : Except ConfigError Config := do
  let config ← foldShorthand config
  validate isSocketAddr config
  return config

def check (config : Config) : Except ConfigError Config := finalize isSocketAddr config

end Check

/-- The effective quota of each user: its own, or an even share of `total_quota`. -/
def resolveQuotas (config : Config) : Std.ExtTreeMap String (Option Nat) :=
  let unset := config.users.countP (·.quota.isNone)
  let share := (config.totalQuota.filter fun _ => 0 < unset).map (· / unset)
  config.users.foldl (fun quotas user => quotas.insert user.name (user.quota.or share)) ∅

end PortsBox
