import PortsBox.RuntimeCore
import PortsBox.Lib.Table

/-!
# Who may use the panel

The router of the panel: the token gate, the login, the sessions behind the
cookie. A request is served as a whole, with two readings of the clock: `now` for
the gate, `later` for its handler. What the other handlers answer is not here,
they leave the sessions alone.
-/

set_option autoImplicit false

namespace PortsBox

/-! ## Text -/

/-- `HeaderValue::to_str`: tabs and visible ASCII. -/
def toStr (value : List UInt8) : Option (List Char) :=
  if value.all fun byte => byte == 9 || (32 ≤ byte && byte < 127) then
    some (value.map fun byte => Char.ofNat byte.toNat)
  else none

def cookieName : List Char := "ports_box_session".toList

def hexDigit (n : Nat) : Char := "0123456789abcdef".toList.getD n '0'

/-- `format!("{byte:02x}")` of each byte. -/
def hexText (bytes : List UInt8) : List Char :=
  bytes.flatMap fun byte => [hexDigit (byte.toNat / 16), hexDigit (byte.toNat % 16)]

/-- Looks at every byte, whichever differ. -/
def tokenMatches (given expected : String) : Bool :=
  let given := given.toUTF8.data.toList
  let expected := expected.toUTF8.data.toList
  given.length == expected.length &&
    (given.zip expected).foldl (fun acc pair => acc ||| (pair.1 ^^^ pair.2)) 0 == 0

theorem foldl_or_eq_zero (pairs : List (UInt8 × UInt8)) (acc : UInt8) :
    pairs.foldl (fun acc pair => acc ||| (pair.1 ^^^ pair.2)) acc = 0 ↔
      acc = 0 ∧ ∀ pair ∈ pairs, pair.1 = pair.2 := by
  induction pairs generalizing acc with
  | nil => simp
  | cons pair pairs ih =>
    rw [List.foldl_cons, ih, UInt8.or_eq_zero_iff, UInt8.xor_eq_zero_iff, and_assoc,
      List.forall_mem_cons]

theorem eq_of_zip_eq {α : Type} {as bs : List α} (hlength : as.length = bs.length)
    (h : ∀ pair ∈ as.zip bs, pair.1 = pair.2) : as = bs :=
  calc
    as = (as.zip bs).map Prod.fst := (List.map_fst_zip hlength.le).symm
    _ = (as.zip bs).map Prod.snd := List.map_congr_left h
    _ = bs := List.map_snd_zip hlength.ge

theorem eq_of_mem_zip_self {α : Type} {as : List α} {pair : α × α} (h : pair ∈ as.zip as) :
    pair.1 = pair.2 := by
  induction as with
  | nil => cases h
  | cons a as ih =>
    rcases List.mem_cons.mp h with rfl | h
    · rfl
    · exact ih h

/-- The comparison is equality. -/
theorem tokenMatches_iff (given expected : String) :
    tokenMatches given expected = true ↔ given = expected := by
  simp only [tokenMatches, Bool.and_eq_true, beq_iff_eq, foldl_or_eq_zero, true_and]
  constructor
  · rintro ⟨hlength, hsame⟩
    have hbytes := eq_of_zip_eq hlength hsame
    exact String.toByteArray_inj.mp (ByteArray.ext (Array.toList_inj.mp hbytes))
  · rintro rfl
    refine ⟨rfl, ?_⟩
    intro pair hpair
    exact eq_of_mem_zip_self hpair

/-! ## State -/

def PanelConfig.hasToken (panel : PanelConfig) : Bool := !panel.token.isEmpty

def PanelConfig.hasLogin (panel : PanelConfig) : Bool :=
  !panel.username.isEmpty && !panel.password.isEmpty

structure Session where
  expires : Nat
  loggedIn : Bool
  deriving DecidableEq, Repr

/-- Seven days, in the seconds of the clock. -/
def sessionTtl : Nat := 7 * 24 * 3600

abbrev SessionId := List Char

structure PanelState where
  credentials : PanelConfig
  sessions : HashMap SessionId Session

inductive Method where
  | get | head | post | put | other
  deriving DecidableEq, Repr

structure Login where
  username : String
  password : String
  deriving DecidableEq, Repr

/-- `query` and `body` are what the extractors of the handlers make of them. A
body that is no `Login` is refused with a status. -/
structure Request where
  method : Method
  path : String
  query : HashMap String String
  cookies : List (List UInt8)
  body : Except Nat Login

inductive Handler where
  | root | dashboard | login | logout
  | status | getConfig | putConfig | ledger | sync | transfer | allocate | testRemote
  deriving DecidableEq, Repr

inductive Response where
  | status (code : Nat)
  | redirect (cookie : Option SessionId)
  | page
  | noContent (cookie : Option SessionId)
  /-- Whatever the handler answers. -/
  | answered (handler : Handler)
  deriving DecidableEq, Repr

/-- The session id of the first cookie of that name. -/
def cookieId (request : Request) : Option SessionId :=
  ((request.cookies.filterMap toStr).flatMap (·.splitOn ';')).findSome? fun pair =>
    ((trim pair).dropPrefix? cookieName).bind (·.dropPrefix? ['='])

namespace PanelState

def session (state : PanelState) (now : Nat) (request : Request) :
    Option (SessionId × Bool) × PanelState :=
  match cookieId request with
  | none => (none, state)
  | some id =>
    let sessions := Table.retain (fun session => now < session.expires) state.sessions
    ((sessions.lookup id).map fun session => (id, session.loggedIn), { state with sessions })

def passesGate (state : PanelState) (session : Option (SessionId × Bool)) : Bool :=
  session.isSome || !state.credentials.hasToken

/-- The id comes from 32 bytes of the system's random source. -/
def openSession (state : PanelState) (later : Nat) (random : List UInt8) (loggedIn : Bool) :
    SessionId × PanelState :=
  let id := hexText random
  (id, { state with
    sessions := state.sessions.insert id { expires := later + sessionTtl, loggedIn } })

def remove (state : PanelState) (id : SessionId) : PanelState :=
  { state with sessions := state.sessions.erase id }

end PanelState

/-! ## Handlers -/

/-- A request with the moments it is looked at and the random bytes drawn for it. -/
structure Arrival where
  request : Request
  now : Nat
  later : Nat
  random : List UInt8

namespace Panel

def enter (state : PanelState) (session : Option (SessionId × Bool)) (arrival : Arrival) :
    Option (Response × PanelState) :=
  match (arrival.request.query.lookup "token").filter fun _ => state.credentials.hasToken with
  | none => none
  | some given =>
    if !tokenMatches given state.credentials.token then none
    else if session.isNone then
      let (id, state) :=
        state.openSession arrival.later arrival.random (!state.credentials.hasLogin)
      some (.redirect (some id), state)
    else some (.redirect none, state)

/-- `root` and `dashboard`, which differ in what they show behind the gate. -/
def entrance (shown : Response) (state : PanelState) (arrival : Arrival) :
    Response × PanelState :=
  let (session, state) := state.session arrival.now arrival.request
  match enter state session arrival with
  | some response => response
  | none => if state.passesGate session then (shown, state) else (.status 404, state)

def root : PanelState → Arrival → Response × PanelState := entrance (.redirect none)

def dashboard : PanelState → Arrival → Response × PanelState := entrance .page

def loginPath : String := "/dashboard/api/login"
def logoutPath : String := "/dashboard/api/logout"

/-- In front of every route of the API, whatever the method. -/
def guard (state : PanelState) (arrival : Arrival)
    (next : PanelState → Response × PanelState) : Response × PanelState :=
  let isOpen := arrival.request.path == loginPath || arrival.request.path == logoutPath
  let (session, state) := state.session arrival.now arrival.request
  if !state.passesGate session then (.status 404, state)
  else
    let loggedIn := !state.credentials.hasLogin || session.any (·.2)
    if !loggedIn && !isOpen then (.status 401, state) else next state

def login (state : PanelState) (arrival : Arrival) : Response × PanelState :=
  match arrival.request.body with
  | .error code => (.status code, state)
  | .ok login =>
    if !state.credentials.hasLogin then (.status 404, state)
    else
      let username := tokenMatches login.username state.credentials.username
      let password := tokenMatches login.password state.credentials.password
      if !(username && password) then (.status 401, state)
      else
        let (session, state) := state.session arrival.later arrival.request
        let state := session.elim state fun (id, _) => state.remove id
        let (id, state) := state.openSession arrival.later arrival.random true
        (.noContent (some id), state)

def logout (state : PanelState) (arrival : Arrival) : Response × PanelState :=
  let (session, state) := state.session arrival.later arrival.request
  match session with
  | none => (.noContent none, state)
  | some (id, _) =>
    if !state.credentials.hasLogin then (.noContent none, state.remove id)
    else
      match state.sessions.lookup id with
      | none => (.noContent none, state)
      | some session =>
        (.noContent none,
          { state with sessions := state.sessions.insert id { session with loggedIn := false } })

/-! ## Routes -/

/-- `get` takes `HEAD` as well. -/
def get (handler : Handler) : Method → Option Handler
  | .get | .head => some handler
  | .post | .put | .other => none

def post (handler : Handler) : Method → Option Handler
  | .post => some handler
  | .get | .head | .put | .other => none

/-- `get(..).put(..)`. -/
def getPut (read write : Handler) : Method → Option Handler
  | .put => some write
  | method => get read method

def apiRoutes : List (String × (Method → Option Handler)) :=
  [(loginPath, post .login), (logoutPath, post .logout),
   ("/dashboard/api/status", get .status),
   ("/dashboard/api/config", getPut .getConfig .putConfig),
   ("/dashboard/api/ledger", get .ledger),
   ("/dashboard/api/sync", post .sync),
   ("/dashboard/api/transfer", post .transfer),
   ("/dashboard/api/allocate", post .allocate),
   ("/dashboard/api/remote/test", post .testRemote)]

def pageRoutes : List (String × (Method → Option Handler)) :=
  [("/", get .root), ("/dashboard", get .dashboard)]

/-- The handler a request is routed to. -/
def handlerOf (request : Request) : Option Handler :=
  ((pageRoutes ++ apiRoutes).lookup request.path).bind fun handlers => handlers request.method

def run (handler : Handler) (state : PanelState) (arrival : Arrival) : Response × PanelState :=
  match handler with
  | .root => root state arrival
  | .dashboard => dashboard state arrival
  | .login => login state arrival
  | .logout => logout state arrival
  | handler => (.answered handler, state)

/-- A route of the path is found, with this method or not. -/
def route (handlers : Method → Option Handler) (arrival : Arrival) (state : PanelState) :
    Response × PanelState :=
  match handlers arrival.request.method with
  | none => (.status 405, state)
  | some handler => run handler state arrival

/-- `router`. The guard is a layer around the routes of the API only. -/
def handle (state : PanelState) (arrival : Arrival) : Response × PanelState :=
  match pageRoutes.lookup arrival.request.path with
  | some handlers => route handlers arrival state
  | none =>
    match apiRoutes.lookup arrival.request.path with
    | some handlers => guard state arrival (route handlers arrival)
    | none => (.status 404, state)

end Panel

end PortsBox
