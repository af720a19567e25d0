import PortsBox.ConfigListens
import PortsBox.PanelAccess

/-!
# What a session proves

Every session in the table goes back to the exchange that issued it, and a logged
in one to a login with both credentials. This holds after any requests; the gate
and the guard then let nobody else in.
-/

set_option autoImplicit false

namespace PortsBox

/-- A request and what it was answered. -/
structure Exchange where
  arrival : Arrival
  response : Response

namespace Exchange

/-- The session id in the cookie that the answer sets. -/
def issued (exchange : Exchange) : Option SessionId :=
  match exchange.response with
  | .redirect cookie | .noContent cookie => cookie
  | .status _ | .page | .answered _ => none

def expiry (exchange : Exchange) : Nat := exchange.arrival.later + sessionTtl

/-- A login with both correct credentials. -/
def IsLogin (credentials : PanelConfig) (exchange : Exchange) : Prop :=
  Panel.handlerOf exchange.arrival.request = some .login ∧
    exchange.arrival.request.body = .ok ⟨credentials.username, credentials.password⟩

/-- The session with this id went through `logout`. -/
def LogsOut (id : SessionId) (exchange : Exchange) : Prop :=
  cookieId exchange.arrival.request = some id ∧
    Panel.handlerOf exchange.arrival.request = some .logout ∧
    exchange.response = .noContent none

/-- The session with this id was replaced by a login, or logged out where there is no login to
go back to. -/
def Removes (credentials : PanelConfig) (id : SessionId) (exchange : Exchange) : Prop :=
  (cookieId exchange.arrival.request = some id ∧ ∃ new, exchange.response = .noContent (some new)) ∨
    (credentials.hasLogin = false ∧ exchange.LogsOut id)

end Exchange

namespace Panel

def start (credentials : PanelConfig) : PanelState := { credentials, sessions := ∅ }

/-- One request after another. -/
def serve (credentials : PanelConfig) (arrivals : List Arrival) : List Exchange × PanelState :=
  arrivals.foldl
    (fun (past, state) arrival =>
      let (response, state) := handle state arrival
      (past ++ [{ arrival, response }], state))
    ([], start credentials)

/-- The request carries an issued session that nothing has removed and that has not expired. -/
def Carries (credentials : PanelConfig) (past : List Exchange) (arrival : Arrival) : Prop :=
  ∃ id before issue after, cookieId arrival.request = some id ∧
    past = before ++ issue :: after ∧ issue.issued = some id ∧ arrival.now < issue.expiry ∧
    ∀ exchange ∈ after, ¬ exchange.Removes credentials id

/-- It carries one that a login with both credentials got, and no logout since. -/
def CarriesLogin (credentials : PanelConfig) (past : List Exchange) (arrival : Arrival) : Prop :=
  ∃ id before issue after, cookieId arrival.request = some id ∧
    past = before ++ issue :: after ∧ issue.issued = some id ∧ issue.IsLogin credentials ∧
    arrival.now < issue.expiry ∧
    ∀ exchange ∈ after, ¬ exchange.Removes credentials id ∧ ¬ exchange.LogsOut id

/-- `/` or `/dashboard` with the correct token. -/
def EntersByToken (credentials : PanelConfig) (request : Request) : Prop :=
  (handlerOf request = some .root ∨ handlerOf request = some .dashboard) ∧
    request.query.lookup "token" = some credentials.token

end Panel

/-! ## Looking a session up -/

namespace PanelState

/-- The session under an id that has not expired. -/
def live (state : PanelState) (now : Nat) (id : SessionId) : Option Session :=
  (state.sessions.lookup id).filter fun session => now < session.expires

variable (state : PanelState) (now : Nat) (request : Request)

@[simp] theorem session_credentials : (state.session now request).2.credentials = state.credentials := by
  unfold session
  cases cookieId request <;> rfl

theorem lookup_session (id : SessionId) :
    (state.session now request).2.sessions.lookup id = state.sessions.lookup id ∨
      (state.session now request).2.sessions.lookup id = state.live now id := by
  unfold session
  cases cookieId request with
  | none => exact Or.inl rfl
  | some _ => exact Or.inr (Table.lookup_retain _ _ _)

theorem session_live (id : SessionId) :
    (state.session now request).2.live now id = state.live now id := by
  rcases lookup_session state now request id with h | h
  · rw [live, h, live]
  · rw [live, h, live, Option.filter_filter]
    simp

variable {state now request}

theorem lookup_of_session {id : SessionId} {found : Session}
    (h : (state.session now request).2.sessions.lookup id = some found) :
    state.sessions.lookup id = some found := by
  rcases lookup_session state now request id with hsame | hlive
  · rw [← hsame, h]
  · rw [hlive, live, Option.filter_eq_some_iff] at h
    exact h.1

/-- What `session` returns is in the table, live. -/
theorem session_some {id : SessionId} {loggedIn : Bool}
    (h : (state.session now request).1 = some (id, loggedIn)) :
    cookieId request = some id ∧ ∃ found, state.sessions.lookup id = some found ∧
      now < found.expires ∧ found.loggedIn = loggedIn := by
  unfold session at h
  cases hcookie : cookieId request with
  | none =>
    rw [hcookie] at h
    cases h
  | some carried =>
    rw [hcookie] at h
    obtain ⟨found, hfound, hpair⟩ := Option.map_eq_some_iff.mp h
    obtain ⟨rfl, rfl⟩ := Prod.mk.inj hpair
    rw [Table.lookup_retain, Option.filter_eq_some_iff, decide_eq_true_iff] at hfound
    exact ⟨rfl, found, hfound.1, hfound.2, rfl⟩

/-- After it, the cookie's session is in the table only if it was returned. -/
theorem session_none {id : SessionId} (hcookie : cookieId request = some id)
    (h : (state.session now request).1 = none) :
    (state.session now request).2.sessions.lookup id = none := by
  unfold session at h ⊢
  rw [hcookie] at h ⊢
  exact Option.map_eq_none_iff.mp h

end PanelState

namespace Panel

/-! ## What one exchange does to the table -/

/-- An entry after the exchange: just issued, or there before and not touched. -/
def Explained (state : PanelState) (exchange : Exchange) (id : SessionId) (found : Session) : Prop :=
  (exchange.issued = some id ∧ found.expires = exchange.expiry ∧
    (state.credentials.hasLogin = true → found.loggedIn = true →
      exchange.IsLogin state.credentials)) ∨
  ∃ old, state.sessions.lookup id = some old ∧ found.expires = old.expires ∧
    ¬ exchange.Removes state.credentials id ∧
    (found.loggedIn = true → old.loggedIn = true ∧
      (state.credentials.hasLogin = true → ¬ exchange.LogsOut id))

variable {state : PanelState} {arrival : Arrival} {id : SessionId} {found : Session}

theorem Explained.of_session {now : Nat} {request : Request} {exchange : Exchange}
    (h : Explained (state.session now request).2 exchange id found) :
    Explained state exchange id found := by
  unfold Explained at h
  rw [PanelState.session_credentials] at h
  rcases h with h | ⟨old, hold, h⟩
  · exact Or.inl h
  · exact Or.inr ⟨old, PanelState.lookup_of_session hold, h⟩

/-- An answer that neither `login` nor `logout` gives changes no entry. -/
theorem Explained.kept {exchange : Exchange} (hfound : state.sessions.lookup id = some found)
    (hresponse : ∀ cookie, exchange.response ≠ .noContent cookie) :
    Explained state exchange id found := by
  refine Or.inr ⟨found, hfound, rfl, ?_, ?_⟩
  · rintro (⟨_, new, h⟩ | ⟨_, _, _, h⟩)
    · exact hresponse _ h
    · exact hresponse _ h
  · intro hin
    refine ⟨hin, ?_⟩
    rintro _ ⟨_, _, h⟩
    exact hresponse _ h

/-- An entry after `openSession`: the new one, or an older one under another id. -/
theorem lookup_openSession {loggedIn : Bool}
    (h : (state.openSession arrival.later arrival.random loggedIn).2.sessions.lookup id = some found) :
    (hexText arrival.random = id ∧
        found = { expires := arrival.later + sessionTtl, loggedIn }) ∨
      state.sessions.lookup id = some found := by
  rw [PanelState.openSession, Table.lookup_insert_of] at h
  split at h
  · next heq => exact Or.inl ⟨heq.symm, (Option.some.inj h).symm⟩
  · exact Or.inr h

/-- The correct token is the only way through `enter`. -/
theorem enter_cases {session : Option (SessionId × Bool)} {response : Response} {next : PanelState}
    (h : enter state session arrival = some (response, next)) :
    arrival.request.query.lookup "token" = some state.credentials.token ∧
      ((response = .redirect none ∧ next = state) ∨
        (response = .redirect (some (hexText arrival.random)) ∧
          next = (state.openSession arrival.later arrival.random
            (!state.credentials.hasLogin)).2)) := by
  unfold enter at h
  cases hgiven : (arrival.request.query.lookup "token").filter fun _ => state.credentials.hasToken with
  | none =>
    rw [hgiven] at h
    cases h
  | some given =>
    rw [hgiven] at h
    obtain ⟨hgiven, _⟩ := Option.filter_eq_some_iff.mp hgiven
    dsimp only at h
    split at h
    · cases h
    next hmatch =>
    rw [Bool.not_eq_true, Bool.not_eq_false', tokenMatches_iff] at hmatch
    subst hmatch
    refine ⟨hgiven, ?_⟩
    split at h
    · obtain ⟨rfl, rfl⟩ := Prod.mk.inj (Option.some.inj h)
      exact Or.inr ⟨rfl, rfl⟩
    · obtain ⟨rfl, rfl⟩ := Prod.mk.inj (Option.some.inj h)
      exact Or.inl ⟨rfl, rfl⟩

theorem entrance_explained {shown : Response} (hshown : ∀ cookie, shown ≠ .noContent cookie)
    (h : (entrance shown state arrival).2.sessions.lookup id = some found) :
    Explained state ⟨arrival, (entrance shown state arrival).1⟩ id found := by
  have hsession : ∀ {exchange : Exchange},
      Explained (state.session arrival.now arrival.request).2 exchange id found →
        Explained state exchange id found := Explained.of_session
  unfold entrance at h ⊢
  apply hsession
  generalize state.session arrival.now arrival.request = looked at h ⊢
  rcases looked with ⟨session, state⟩
  dsimp only at h ⊢
  cases henter : enter state session arrival with
  | none =>
    rw [henter] at h
    dsimp only at h ⊢
    split at h
    · next hpass => exact (if_pos hpass).symm ▸ Explained.kept h hshown
    · next hpass => exact (if_neg hpass).symm ▸ Explained.kept h (fun _ => Response.noConfusion)
  | some answer =>
    rcases answer with ⟨response, next⟩
    rw [henter] at h
    rcases (enter_cases henter).2 with ⟨rfl, rfl⟩ | ⟨rfl, rfl⟩
    · exact Explained.kept h (fun _ => Response.noConfusion)
    · rcases lookup_openSession h with ⟨rfl, rfl⟩ | hold
      · refine Or.inl ⟨rfl, rfl, ?_⟩
        intro hlogin hin
        rw [hlogin] at hin
        cases hin
      · exact Explained.kept hold (fun _ => Response.noConfusion)

/-- The table once a right login has dropped the session it came with. -/
def relogged (state : PanelState) (arrival : Arrival) : PanelState :=
  (state.session arrival.later arrival.request).1.elim
    (state.session arrival.later arrival.request).2
    fun carried => (state.session arrival.later arrival.request).2.remove carried.1

theorem lookup_relogged (h : (relogged state arrival).sessions.lookup id = some found) :
    state.sessions.lookup id = some found ∧ cookieId arrival.request ≠ some id := by
  unfold relogged at h
  cases hsession : (state.session arrival.later arrival.request).1 with
  | none =>
    rw [hsession] at h
    refine ⟨PanelState.lookup_of_session h, ?_⟩
    intro hcookie
    cases h.symm.trans (PanelState.session_none hcookie hsession)
  | some carried =>
    rcases carried with ⟨carried, loggedIn⟩
    rw [hsession] at h
    change ((state.session _ _).2.sessions.erase carried).lookup id = _ at h
    rw [Table.lookup_erase_of] at h
    split at h
    · cases h
    next hne =>
    refine ⟨PanelState.lookup_of_session h, ?_⟩
    intro hcookie
    exact hne (Option.some.inj (hcookie.symm.trans (PanelState.session_some hsession).1))

/-- Either a plain refusal, or both credentials were right. -/
theorem login_cases (state : PanelState) (arrival : Arrival) :
    (∃ code, login state arrival = (.status code, state)) ∨
      (arrival.request.body = .ok ⟨state.credentials.username, state.credentials.password⟩ ∧
        login state arrival = (.noContent (some (hexText arrival.random)),
          ((relogged state arrival).openSession arrival.later arrival.random true).2)) := by
  unfold login
  cases hbody : arrival.request.body with
  | error code => exact Or.inl ⟨code, rfl⟩
  | ok given =>
    dsimp only
    split
    · exact Or.inl ⟨404, rfl⟩
    split
    · exact Or.inl ⟨401, rfl⟩
    next hright =>
    rw [Bool.not_eq_true, Bool.not_eq_false', Bool.and_eq_true, tokenMatches_iff,
      tokenMatches_iff] at hright
    rcases given with ⟨username, password⟩
    obtain ⟨rfl, rfl⟩ := hright
    exact Or.inr ⟨rfl, rfl⟩

theorem login_explained (hrouted : handlerOf arrival.request = some .login)
    (h : (login state arrival).2.sessions.lookup id = some found) :
    Explained state ⟨arrival, (login state arrival).1⟩ id found := by
  rcases login_cases state arrival with ⟨code, heq⟩ | ⟨hbody, heq⟩
  · rw [heq] at h ⊢
    exact Explained.kept h (fun _ => Response.noConfusion)
  · rw [heq] at h ⊢
    rcases lookup_openSession h with ⟨rfl, rfl⟩ | hold
    · exact Or.inl ⟨rfl, rfl, fun _ _ => ⟨hrouted, hbody⟩⟩
    · obtain ⟨hold, hcookie⟩ := lookup_relogged hold
      refine Or.inr ⟨found, hold, rfl, ?_, ?_⟩
      · rintro (⟨h, _⟩ | ⟨_, h, _⟩)
        · exact hcookie h
        · exact hcookie h
      · intro hin
        exact ⟨hin, fun _ hout => hcookie hout.1⟩

theorem logout_response (state : PanelState) (arrival : Arrival) :
    (logout state arrival).1 = .noContent none := by
  unfold logout
  dsimp only
  cases (state.session arrival.later arrival.request).1 with
  | none => rfl
  | some carried =>
    dsimp only
    split
    · rfl
    · split <;> rfl

theorem logout_explained (h : (logout state arrival).2.sessions.lookup id = some found) :
    Explained state ⟨arrival, (logout state arrival).1⟩ id found := by
  -- a session that did not come with the request is out of reach
  have hother : cookieId arrival.request ≠ some id → state.sessions.lookup id = some found →
      Explained state ⟨arrival, (logout state arrival).1⟩ id found := by
    intro hcookie hfound
    refine Or.inr ⟨found, hfound, rfl, ?_, ?_⟩
    · rintro (⟨h, _⟩ | ⟨_, h, _⟩)
      · exact hcookie h
      · exact hcookie h
    · intro hin
      exact ⟨hin, fun _ hout => hcookie hout.1⟩
  rw [logout_response] at hother ⊢
  unfold logout at h
  dsimp only at h
  cases hsession : (state.session arrival.later arrival.request).1 with
  | none =>
    rw [hsession] at h
    refine hother ?_ (PanelState.lookup_of_session h)
    intro hcookie
    cases h.symm.trans (PanelState.session_none hcookie hsession)
  | some carried =>
    rcases carried with ⟨carried, loggedIn⟩
    have hcookie := (PanelState.session_some hsession).1
    rw [hsession, PanelState.session_credentials] at h
    dsimp only at h
    split at h
    · change ((state.session _ _).2.sessions.erase carried).lookup id = _ at h
      rw [Table.lookup_erase_of] at h
      split at h
      · cases h
      next hne =>
      refine hother ?_ (PanelState.lookup_of_session h)
      intro hsame
      exact hne (Option.some.inj (hsame.symm.trans hcookie))
    next hlogin =>
    split at h
    · next hgone =>
      refine hother ?_ (PanelState.lookup_of_session h)
      intro hsame
      obtain rfl := Option.some.inj (hcookie.symm.trans hsame)
      cases h.symm.trans hgone
    · next old hold =>
      dsimp only at h
      rw [Table.lookup_insert_of] at h
      split at h
      · next heq =>
        subst heq
        obtain rfl := Option.some.inj h
        refine Or.inr ⟨old, PanelState.lookup_of_session hold, rfl, ?_, fun hin => nomatch hin⟩
        rintro (⟨_, new, h⟩ | ⟨hno, _⟩)
        · cases h
        · exact hlogin (by rw [hno]; rfl)
      · next hne =>
        refine hother ?_ (PanelState.lookup_of_session h)
        intro hsame
        exact hne (Option.some.inj (hsame.symm.trans hcookie))

theorem run_explained {handler : Handler} (hrouted : handlerOf arrival.request = some handler)
    (h : (run handler state arrival).2.sessions.lookup id = some found) :
    Explained state ⟨arrival, (run handler state arrival).1⟩ id found := by
  cases handler with
  | root => exact entrance_explained (fun _ => Response.noConfusion) h
  | dashboard => exact entrance_explained (fun _ => Response.noConfusion) h
  | login => exact login_explained hrouted h
  | logout => exact logout_explained h
  | status | getConfig | putConfig | ledger | sync | transfer | allocate | testRemote =>
    exact Explained.kept h (fun _ => Response.noConfusion)

/-! ## The guard and the gate -/

/-- The session the request came with, as `guard` sees it. -/
abbrev seen (state : PanelState) (arrival : Arrival) : Option (SessionId × Bool) :=
  (state.session arrival.now arrival.request).1

/-- The table after the guard or an entrance has looked at it. -/
abbrev looked (state : PanelState) (arrival : Arrival) : PanelState :=
  (state.session arrival.now arrival.request).2

/-- What `guard` lets through, and what it answers otherwise. -/
theorem guard_cases (state : PanelState) (arrival : Arrival)
    (next : PanelState → Response × PanelState) :
    (∃ code, guard state arrival next = (.status code, looked state arrival)) ∨
      (guard state arrival next = next (looked state arrival) ∧
        (state.credentials.hasLogin = false ∨ (∃ id, seen state arrival = some (id, true)) ∨
          arrival.request.path = loginPath ∨ arrival.request.path = logoutPath)) := by
  unfold guard
  dsimp only
  split
  · exact Or.inl ⟨404, rfl⟩
  split
  · exact Or.inl ⟨401, rfl⟩
  next hin =>
  refine Or.inr ⟨rfl, ?_⟩
  rw [PanelState.session_credentials] at hin
  cases hlogin : state.credentials.hasLogin with
  | false => exact Or.inl rfl
  | true =>
    cases hseen : seen state arrival with
    | none => exact Or.inr (Or.inr (by simpa [hlogin, hseen, or_iff_not_imp_left] using hin))
    | some carried =>
      rcases carried with ⟨id, loggedIn⟩
      cases loggedIn with
      | true => exact Or.inr (Or.inl ⟨id, rfl⟩)
      | false => exact Or.inr (Or.inr (by simpa [hlogin, hseen, or_iff_not_imp_left] using hin))

theorem guard_shut (htoken : state.credentials.hasToken = true) (hseen : seen state arrival = none)
    (next : PanelState → Response × PanelState) :
    guard state arrival next = (.status 404, looked state arrival) := by
  unfold guard
  dsimp only
  rw [if_pos]
  rw [PanelState.passesGate, PanelState.session_credentials, htoken]
  simpa using hseen

theorem entrance_shut {shown : Response} (htoken : state.credentials.hasToken = true)
    (hseen : seen state arrival = none)
    (hgiven : arrival.request.query.lookup "token" ≠ some state.credentials.token) :
    entrance shown state arrival = (.status 404, looked state arrival) := by
  unfold entrance
  dsimp only
  cases henter : enter (looked state arrival) (seen state arrival) arrival with
  | some answer =>
    have hright := (enter_cases henter).1
    rw [PanelState.session_credentials] at hright
    exact absurd hright hgiven
  | none =>
    dsimp only
    rw [if_neg]
    rw [PanelState.passesGate, PanelState.session_credentials, htoken]
    simpa using hseen

theorem page_handler {path : String} {method : Method} {handlers : Method → Option Handler}
    {handler : Handler} (hroute : pageRoutes.lookup path = some handlers)
    (h : handlers method = some handler) : handler = .root ∨ handler = .dashboard := by
  obtain ⟨_, _, hroutes, _⟩ := List.lookup_eq_some_iff.mp hroute
  have hmem : (path, handlers) ∈ pageRoutes := by
    rw [hroutes]
    exact List.mem_append_right _ List.mem_cons_self
  simp only [pageRoutes, List.mem_cons, Prod.mk.injEq, List.not_mem_nil, or_false] at hmem
  rcases hmem with ⟨_, rfl⟩ | ⟨_, rfl⟩
  · cases method <;> cases h <;> simp
  · cases method <;> cases h <;> simp

/-- Which of the three ways a request takes through the router. -/
theorem handle_cases (state : PanelState) (arrival : Arrival) :
    (∃ handlers, pageRoutes.lookup arrival.request.path = some handlers ∧
        handlerOf arrival.request = handlers arrival.request.method ∧
        handle state arrival = route handlers arrival state) ∨
      (∃ handlers, apiRoutes.lookup arrival.request.path = some handlers ∧
        handlerOf arrival.request = handlers arrival.request.method ∧
        handle state arrival = guard state arrival (route handlers arrival)) ∨
      (handlerOf arrival.request = none ∧ handle state arrival = (.status 404, state)) := by
  unfold handle handlerOf
  rw [List.lookup_append]
  cases hpage : pageRoutes.lookup arrival.request.path with
  | some handlers => exact Or.inl ⟨handlers, rfl, rfl, rfl⟩
  | none =>
    cases hapi : apiRoutes.lookup arrival.request.path with
    | some handlers => exact Or.inr (Or.inl ⟨handlers, rfl, rfl, rfl⟩)
    | none => exact Or.inr (Or.inr ⟨rfl, rfl⟩)

theorem route_explained {handlers : Method → Option Handler}
    (hrouted : handlerOf arrival.request = handlers arrival.request.method)
    (h : (route handlers arrival state).2.sessions.lookup id = some found) :
    Explained state ⟨arrival, (route handlers arrival state).1⟩ id found := by
  unfold route at h ⊢
  cases hhandler : handlers arrival.request.method with
  | none =>
    rw [hhandler] at h
    exact Explained.kept h (fun _ => Response.noConfusion)
  | some handler =>
    rw [hhandler] at h
    exact run_explained (hrouted.trans hhandler) h

/-- The entries after any exchange. -/
theorem handle_explained (h : (handle state arrival).2.sessions.lookup id = some found) :
    Explained state ⟨arrival, (handle state arrival).1⟩ id found := by
  rcases handle_cases state arrival with
    ⟨handlers, _, hrouted, heq⟩ | ⟨handlers, _, hrouted, heq⟩ | ⟨_, heq⟩
  · rw [heq] at h ⊢
    exact route_explained hrouted h
  · rw [heq] at h ⊢
    rcases guard_cases state arrival (route handlers arrival) with ⟨code, heq⟩ | ⟨heq, _⟩
    · rw [heq] at h ⊢
      exact Explained.kept (PanelState.lookup_of_session h) (fun _ => Response.noConfusion)
    · rw [heq] at h ⊢
      exact (route_explained hrouted h).of_session
  · rw [heq] at h ⊢
    exact Explained.kept h (fun _ => Response.noConfusion)

theorem handler_of_loginPath {request : Request} {handler : Handler}
    (hpath : request.path = loginPath) (h : handlerOf request = some handler) :
    handler = .login := by
  have hroute : (pageRoutes ++ apiRoutes).lookup loginPath = some (post .login) := by
    simp [pageRoutes, apiRoutes, List.lookup_cons, loginPath]
  rw [handlerOf, hpath, hroute] at h
  cases hmethod : request.method <;> rw [hmethod] at h <;> cases h
  rfl

theorem handler_of_logoutPath {request : Request} {handler : Handler}
    (hpath : request.path = logoutPath) (h : handlerOf request = some handler) :
    handler = .logout := by
  have hroute : (pageRoutes ++ apiRoutes).lookup logoutPath = some (post .logout) := by
    simp [pageRoutes, apiRoutes, List.lookup_cons, loginPath, logoutPath]
  rw [handlerOf, hpath, hroute] at h
  cases hmethod : request.method <;> rw [hmethod] at h <;> cases h
  rfl

theorem entrance_answer {shown : Response} {handler : Handler}
    (hshown : shown ≠ .answered handler) :
    (entrance shown state arrival).1 ≠ .answered handler := by
  unfold entrance
  dsimp only
  split
  · next answer henter =>
    rcases answer with ⟨response, next⟩
    rcases (enter_cases henter).2 with ⟨rfl, _⟩ | ⟨rfl, _⟩
    · exact Response.noConfusion
    · exact Response.noConfusion
  · split
    · exact hshown
    · exact Response.noConfusion

/-- Only the other handlers of the API answer on their own. -/
theorem run_answered {handler answering : Handler}
    (h : (run handler state arrival).1 = .answered answering) :
    handler ≠ .root ∧ handler ≠ .dashboard ∧ handler ≠ .login ∧ handler ≠ .logout := by
  refine ⟨?_, ?_, ?_, ?_⟩
  · rintro rfl
    exact absurd h (entrance_answer Response.noConfusion)
  · rintro rfl
    exact absurd h (entrance_answer Response.noConfusion)
  · rintro rfl
    rcases login_cases state arrival with ⟨code, heq⟩ | ⟨_, heq⟩
    · rw [run, heq] at h
      cases h
    · rw [run, heq] at h
      cases h
  · rintro rfl
    rw [run, logout_response] at h
    cases h

/-- A handler of the API that answers has passed the guard logged in. -/
theorem seen_of_answered {handler : Handler} (hlogin : state.credentials.hasLogin = true)
    (h : (handle state arrival).1 = .answered handler) :
    ∃ id, seen state arrival = some (id, true) := by
  have hroute : ∀ handlers (at' : PanelState),
      handlerOf arrival.request = handlers arrival.request.method →
      (route handlers arrival at').1 = .answered handler →
      ∃ routed, handlerOf arrival.request = some routed ∧
        routed ≠ .root ∧ routed ≠ .dashboard ∧ routed ≠ .login ∧ routed ≠ .logout := by
    intro handlers at' hrouted hanswer
    unfold route at hanswer
    cases hhandler : handlers arrival.request.method with
    | none =>
      rw [hhandler] at hanswer
      cases hanswer
    | some routed =>
      rw [hhandler] at hanswer
      exact ⟨routed, hrouted.trans hhandler, run_answered hanswer⟩
  rcases handle_cases state arrival with
    ⟨handlers, hpage, hrouted, heq⟩ | ⟨handlers, _, hrouted, heq⟩ | ⟨_, heq⟩
  · rw [heq] at h
    obtain ⟨routed, hsome, hroot, hdashboard, _⟩ := hroute handlers state hrouted h
    rcases page_handler hpage (hrouted.symm.trans hsome) with hpage | hpage
    · exact absurd hpage hroot
    · exact absurd hpage hdashboard
  · rw [heq] at h
    rcases guard_cases state arrival (route handlers arrival) with ⟨code, heq⟩ | ⟨heq, hpass⟩
    · rw [heq] at h
      cases h
    rw [heq] at h
    obtain ⟨routed, hsome, _, _, hnotLogin, hnotLogout⟩ := hroute handlers _ hrouted h
    rcases hpass with hno | hseen | hpath | hpath
    · rw [hlogin] at hno
      cases hno
    · exact hseen
    · exact absurd (handler_of_loginPath hpath hsome) hnotLogin
    · exact absurd (handler_of_logoutPath hpath hsome) hnotLogout
  · rw [heq] at h
    cases h

/-- The gate: a request with neither a session nor the token finds nothing. -/
theorem handle_shut {handler : Handler} (htoken : state.credentials.hasToken = true)
    (hrouted : handlerOf arrival.request = some handler) (hseen : seen state arrival = none)
    (hentry : ¬ EntersByToken state.credentials arrival.request) :
    handle state arrival = (.status 404, looked state arrival) := by
  rcases handle_cases state arrival with
    ⟨handlers, hpage, hsame, heq⟩ | ⟨handlers, _, hsame, heq⟩ | ⟨hnone, _⟩
  · have hhandler := hsame.symm.trans hrouted
    rw [heq, route, hhandler]
    rcases page_handler hpage hhandler with rfl | rfl
    · exact entrance_shut htoken hseen fun hgiven => hentry ⟨Or.inl hrouted, hgiven⟩
    · exact entrance_shut htoken hseen fun hgiven => hentry ⟨Or.inr hrouted, hgiven⟩
  · rw [heq]
    exact guard_shut htoken hseen _
  · cases hnone.symm.trans hrouted

/-! ## Any requests -/

/-- Where a session comes from. -/
def Backed (credentials : PanelConfig) (past : List Exchange) (id : SessionId)
    (session : Session) : Prop :=
  ∃ before issue after, past = before ++ issue :: after ∧ issue.issued = some id ∧
    session.expires = issue.expiry ∧
    (∀ exchange ∈ after, ¬ exchange.Removes credentials id) ∧
    (credentials.hasLogin = true → session.loggedIn = true →
      issue.IsLogin credentials ∧ ∀ exchange ∈ after, ¬ exchange.LogsOut id)

/-- Every session has a past. -/
def Sound (credentials : PanelConfig) (past : List Exchange) (state : PanelState) : Prop :=
  state.credentials = credentials ∧
    ∀ id session, state.sessions.lookup id = some session → Backed credentials past id session

@[simp] theorem openSession_credentials (later : Nat) (random : List UInt8) (loggedIn : Bool) :
    (state.openSession later random loggedIn).2.credentials = state.credentials := rfl

theorem entrance_credentials (shown : Response) :
    (entrance shown state arrival).2.credentials = state.credentials := by
  unfold entrance
  dsimp only
  split
  · next answer henter =>
    rcases answer with ⟨response, next⟩
    rcases (enter_cases henter).2 with ⟨_, rfl⟩ | ⟨_, rfl⟩
    · exact PanelState.session_credentials _ _ _
    · exact PanelState.session_credentials _ _ _
  · split
    · exact PanelState.session_credentials _ _ _
    · exact PanelState.session_credentials _ _ _

theorem login_credentials : (login state arrival).2.credentials = state.credentials := by
  rcases login_cases state arrival with ⟨_, heq⟩ | ⟨_, heq⟩
  · rw [heq]
  · rw [heq, openSession_credentials, relogged]
    cases (state.session arrival.later arrival.request).1 with
    | none => exact PanelState.session_credentials _ _ _
    | some _ => exact PanelState.session_credentials _ _ _

theorem logout_credentials : (logout state arrival).2.credentials = state.credentials := by
  have hlooked := PanelState.session_credentials state arrival.later arrival.request
  unfold logout
  dsimp only
  split
  · exact hlooked
  split
  · exact hlooked
  split
  · exact hlooked
  · exact hlooked

theorem route_credentials (handlers : Method → Option Handler) :
    (route handlers arrival state).2.credentials = state.credentials := by
  unfold route
  cases handlers arrival.request.method with
  | none => rfl
  | some handler =>
    cases handler with
    | root => exact entrance_credentials _
    | dashboard => exact entrance_credentials _
    | login => exact login_credentials
    | logout => exact logout_credentials
    | status | getConfig | putConfig | ledger | sync | transfer | allocate | testRemote => rfl

theorem handle_credentials : (handle state arrival).2.credentials = state.credentials := by
  rcases handle_cases state arrival with
    ⟨handlers, _, _, heq⟩ | ⟨handlers, _, _, heq⟩ | ⟨_, heq⟩
  · rw [heq]
    exact route_credentials handlers
  · rw [heq]
    rcases guard_cases state arrival (route handlers arrival) with ⟨_, heq⟩ | ⟨heq, _⟩
    · rw [heq]
      exact PanelState.session_credentials _ _ _
    · rw [heq, route_credentials]
      exact PanelState.session_credentials _ _ _
  · rw [heq]

theorem Sound.handle {credentials : PanelConfig} {past : List Exchange}
    (h : Sound credentials past state) (arrival : Arrival) :
    Sound credentials (past ++ [⟨arrival, (handle state arrival).1⟩]) (handle state arrival).2 := by
  obtain ⟨rfl, hbacked⟩ := h
  refine ⟨handle_credentials, ?_⟩
  intro id session hsession
  rcases handle_explained hsession with ⟨hissued, hexpires, hin⟩ | ⟨old, hold, hexpires, hkept, hin⟩
  · refine ⟨past, _, [], rfl, hissued, hexpires, (fun _ h => nomatch h), ?_⟩
    intro hlogin hloggedIn
    exact ⟨hin hlogin hloggedIn, fun _ h => nomatch h⟩
  · obtain ⟨before, issue, after, rfl, hissued, hexpiry, hafter, hback⟩ := hbacked id old hold
    refine ⟨before, issue, after ++ [_], by rw [List.append_assoc, List.cons_append], hissued,
      hexpires.trans hexpiry, ?_, ?_⟩
    · exact List.forall_mem_append.mpr ⟨hafter, List.forall_mem_singleton.mpr hkept⟩
    · intro hlogin hloggedIn
      obtain ⟨hwas, hout⟩ := hin hloggedIn
      obtain ⟨hissue, hstayed⟩ := hback hlogin hwas
      exact ⟨hissue, List.forall_mem_append.mpr
        ⟨hstayed, List.forall_mem_singleton.mpr (hout hlogin)⟩⟩

theorem sound_serve (credentials : PanelConfig) (arrivals : List Arrival) :
    Sound credentials (serve credentials arrivals).1 (serve credentials arrivals).2 := by
  induction arrivals using List.reverseRecOn with
  | nil => exact ⟨rfl, fun _ _ h => nomatch h⟩
  | append_singleton arrivals arrival ih =>
    rw [serve, List.foldl_append]
    exact ih.handle arrival

/-- Whoever is seen carries a session. -/
theorem Sound.carries {credentials : PanelConfig} {past : List Exchange} {loggedIn : Bool}
    (h : Sound credentials past state) (hseen : seen state arrival = some (id, loggedIn)) :
    Carries credentials past arrival := by
  obtain ⟨hcookie, session, hsession, hlive, _⟩ := PanelState.session_some hseen
  obtain ⟨before, issue, after, hpast, hissued, hexpires, hkept, _⟩ := h.2 id session hsession
  exact ⟨id, before, issue, after, hcookie, hpast, hissued, by omega, hkept⟩

theorem Sound.carriesLogin {credentials : PanelConfig} {past : List Exchange}
    (h : Sound credentials past state) (hlogin : credentials.hasLogin = true)
    (hseen : seen state arrival = some (id, true)) : CarriesLogin credentials past arrival := by
  obtain ⟨hcookie, session, hsession, hlive, hin⟩ := PanelState.session_some hseen
  obtain ⟨before, issue, after, hpast, hissued, hexpires, hkept, hback⟩ := h.2 id session hsession
  obtain ⟨hissue, hout⟩ := hback hlogin hin
  exact ⟨id, before, issue, after, hcookie, hpast, hissued, hissue, by omega,
    fun exchange hmem => ⟨hkept exchange hmem, hout exchange hmem⟩⟩

theorem hasToken_of_ne {credentials : PanelConfig} (h : credentials.token ≠ "") :
    credentials.hasToken = true := by
  simpa [PanelConfig.hasToken, String.isEmpty_iff] using h

end Panel

/-- Half a login is not accepted. -/
theorem hasLogin_of_valid {isSocketAddr : String → Bool} {config : Config} {panel : PanelConfig}
    (hvalid : validate isSocketAddr config = .ok ()) (hpanel : config.enabledPanel = some panel)
    (hset : panel.username ≠ "" ∨ panel.password ≠ "") : panel.hasLogin = true := by
  obtain ⟨_, _, h⟩ := bind_ok hvalid
  obtain ⟨_, _, h⟩ := bind_ok h
  obtain ⟨_, _, h⟩ := bind_ok h
  obtain ⟨_, hcheck, _⟩ := bind_ok h
  unfold checkPanel at hcheck
  rw [hpanel] at hcheck
  obtain ⟨_, hrefuse, _⟩ := bind_ok hcheck
  have hboth : panel.username.isEmpty = panel.password.isEmpty := by
    unfold refuse at hrefuse
    split at hrefuse
    · cases hrefuse
    · next h => simpa using h
  rw [Bool.eq_iff_iff, String.isEmpty_iff, String.isEmpty_iff] at hboth
  have hnames : panel.username ≠ "" ∧ panel.password ≠ "" := by
    rcases hset with h | h
    · exact ⟨h, mt hboth.mpr h⟩
    · exact ⟨mt hboth.mp h, h⟩
  simpa [PanelConfig.hasLogin, String.isEmpty_iff] using hnames

namespace Panel

/-- Whatever was asked before, at any moment. With a token, a request that comes without a live
session and is no entrance with the token is answered 404, and every live session stays as it is.
With a login, no other handler of the API runs but for a request with a session that a login with
both credentials got, not logged out and not expired. -/
theorem access_control {isSocketAddr : String → Bool} {config : Config} {credentials : PanelConfig}
    (hvalid : validate isSocketAddr config = .ok ())
    (hpanel : config.enabledPanel = some credentials) (arrivals : List Arrival)
    (arrival : Arrival) :
    (credentials.token ≠ "" → ∀ handler, handlerOf arrival.request = some handler →
      ¬ Carries credentials (serve credentials arrivals).1 arrival →
      ¬ EntersByToken credentials arrival.request →
      (handle (serve credentials arrivals).2 arrival).1 = .status 404 ∧
        ∀ id, (handle (serve credentials arrivals).2 arrival).2.live arrival.now id =
          (serve credentials arrivals).2.live arrival.now id) ∧
    (credentials.username ≠ "" ∨ credentials.password ≠ "" →
      ∀ handler, (handle (serve credentials arrivals).2 arrival).1 = .answered handler →
        CarriesLogin credentials (serve credentials arrivals).1 arrival) := by
  have hsound := sound_serve credentials arrivals
  generalize (serve credentials arrivals).1 = past at *
  generalize (serve credentials arrivals).2 = state at *
  have hcredentials := hsound.1
  constructor
  · intro htoken handler hrouted hcarries hentry
    have hseen : seen state arrival = none := by
      cases hseen : seen state arrival with
      | none => rfl
      | some carried => exact absurd (hsound.carries hseen) hcarries
    rw [handle_shut (hcredentials ▸ hasToken_of_ne htoken) hrouted hseen (hcredentials ▸ hentry)]
    exact ⟨rfl, PanelState.session_live state arrival.now arrival.request⟩
  · intro hset handler hanswer
    have hlogin := hasLogin_of_valid hvalid hpanel hset
    obtain ⟨id, hseen⟩ := seen_of_answered (hcredentials ▸ hlogin) hanswer
    exact hsound.carriesLogin hlogin hseen

/-! ## One login -/

/-- A token and a login, and a panel that nobody has used yet. -/
def guardedPanel : PanelConfig :=
  { enabled := true, token := "secret", username := "admin", password := "pw" }

def cookieOf (random : List UInt8) : List UInt8 :=
  ("theme=dark; ports_box_session=" ++ String.ofList (hexText random)).toUTF8.data.toList

/-- In with the token, then the login with the session that got. -/
def loggingIn : List Arrival :=
  [{ request :=
      { method := .get, path := "/", query := (∅ : HashMap String String).insert "token" "secret",
        cookies := [], body := .error 415 }
     now := 0, later := 0, random := [1, 2] },
   { request :=
      { method := .post, path := loginPath, query := ∅, cookies := [cookieOf [1, 2]],
        body := .ok ⟨"admin", "pw"⟩ }
     now := 1, later := 1, random := [3, 4] }]

def askStatus (cookies : List (List UInt8)) (now : Nat) : Arrival :=
  { request :=
      { method := .get, path := "/dashboard/api/status", query := ∅, cookies,
        body := .error 415 }
    now, later := now, random := [] }

/-- Logged in, the status is there, and it proves the login; without the cookie it is not. -/
theorem access_control_one_login :
    ((handle (serve guardedPanel loggingIn).2 (askStatus [cookieOf [3, 4]] 2)).1 =
        .answered .status ∧
      CarriesLogin guardedPanel (serve guardedPanel loggingIn).1
        (askStatus [cookieOf [3, 4]] 2)) ∧
    (handle (serve guardedPanel loggingIn).2 (askStatus [] 2)).1 = .status 404 := by
  have haccess := @access_control (fun _ => true) { panel := some guardedPanel } guardedPanel
    (by decide +kernel) (by decide +kernel) loggingIn
  have hanswer : (handle (serve guardedPanel loggingIn).2 (askStatus [cookieOf [3, 4]] 2)).1 =
      .answered .status := by decide +kernel
  refine ⟨⟨hanswer, ?_⟩, ?_⟩
  · exact (haccess _).2 (Or.inl (by decide)) .status hanswer
  · refine ((haccess _).1 (by decide) .status (by decide +kernel) ?_ ?_).1
    · rintro ⟨id, _, _, _, hcookie, _⟩
      cases hcookie
    · rintro ⟨_, htoken⟩
      cases htoken

end Panel

end PortsBox
