import PortsBox.ConfigListens

/-!
# The same users under other sections

A config is checked against its own `api` and `panel` addresses. Users that pass
under one file's sections pass under another's, given that none of their TCP rules
listens on an address of those.
-/

set_option autoImplicit false

namespace PortsBox

universe u v

theorem bind_of_ok {ε : Type u} {α β : Type v} {x : Except ε α} {f : α → Except ε β} {a : α}
    {b : β} (h : x = .ok a) (hrest : f a = .ok b) : (x >>= f) = .ok b := by
  rw [h]
  exact hrest

/-- Two loops in step with each other. -/
theorem foldlM_rel {ε σ : Type u} {α : Type v} {f : σ → α → Except ε σ} {R : σ → σ → Prop}
    (xs : List α) (hstep : ∀ x ∈ xs, ∀ s t next, R s t → f s x = .ok next →
      ∃ other, f t x = .ok other ∧ R next other)
    {s t last : σ} (h : R s t) (hrun : xs.foldlM f s = .ok last) :
    ∃ other, xs.foldlM f t = .ok other ∧ R last other := by
  induction xs generalizing s t with
  | nil =>
    obtain rfl : s = last := Except.ok.inj hrun
    exact ⟨t, rfl, h⟩
  | cons x xs ih =>
    rw [List.foldlM_cons] at hrun
    obtain ⟨next, hx, hrest⟩ := bind_ok hrun
    obtain ⟨other, hother, hnext⟩ := hstep x List.mem_cons_self s t next h hx
    obtain ⟨last', hlast, hR⟩ :=
      ih (fun y hy => hstep y (List.mem_cons_of_mem x hy)) hnext hrest
    refine ⟨last', ?_, hR⟩
    rw [List.foldlM_cons]
    exact bind_of_ok hother hlast

/-- The TCP addresses that a config's own sections take. -/
def ownListens (config : Config) : List SocketAddr :=
  config.api.elim [] (fun api => [api.listen]) ++
    config.enabledPanel.elim [] (fun panel => [panel.listen])

/-- No enabled TCP rule of these users listens on one of the addresses. -/
def Clear (users : List UserConfig) (listens : List SocketAddr) : Prop :=
  ∀ user ∈ users, ∀ rule ∈ user.rules, ∀ listen ∈ tcpOf rule, listen ∉ listens

/-- The same sets but for the addresses that were there first. -/
structure Shifted (before after : List SocketAddr) (s t : Seen) : Prop where
  names : t.names = s.names
  udp : t.udpListens = s.udpListens
  tcp : ∃ seen, s.tcpListens = seen ++ before ∧ t.tcpListens = seen ++ after

section Check
variable {isSocketAddr : String → Bool} {before after : List SocketAddr}

theorem insertNew_of_notMem {α : Type} [DecidableEq α] {set : List α} {x : α} (e : ConfigError)
    (h : x ∉ set) : insertNew set x e = .ok (x :: set) := if_neg h

theorem insertWhen_shifted {s t : Seen} (h : Shifted before after s t) {rule : Rule}
    (henabled : rule.enabled = true) (hclear : ∀ listen ∈ tcpOf rule, listen ∉ after)
    {e : ConfigError} {next : List SocketAddr}
    (hinsert : insertWhen rule.protocol.isTcp s.tcpListens rule.listen e = .ok next) :
    ∃ other, insertWhen rule.protocol.isTcp t.tcpListens rule.listen e = .ok other ∧
      ∃ seen, next = seen ++ before ∧ other = seen ++ after := by
  obtain ⟨seen, hs, ht⟩ := h.tcp
  cases htcp : rule.protocol.isTcp with
  | false =>
    rw [htcp] at hinsert
    obtain rfl := Except.ok.inj hinsert
    exact ⟨_, rfl, seen, hs, ht⟩
  | true =>
    rw [htcp] at hinsert
    obtain ⟨hnew, rfl⟩ := insertNew_ok hinsert
    have hfree : rule.listen ∉ after := by
      apply hclear
      simp [tcpOf, henabled, htcp]
    have hother : rule.listen ∉ t.tcpListens := by
      rw [hs, List.mem_append, not_or] at hnew
      rw [ht, List.mem_append, not_or]
      exact ⟨hnew.1, hfree⟩
    refine ⟨_, insertNew_of_notMem e hother, rule.listen :: seen, ?_, ?_⟩
    · rw [hs, List.cons_append]
    · rw [ht, List.cons_append]

theorem checkRule_shifted {user : String} {rule : Rule}
    (hclear : ∀ listen ∈ tcpOf rule, listen ∉ after) (s t next : Seen)
    (h : Shifted before after s t) (hcheck : checkRule isSocketAddr user s rule = .ok next) :
    ∃ other, checkRule isSocketAddr user t rule = .ok other ∧ Shifted before after next other := by
  unfold checkRule at hcheck ⊢
  cases henabled : rule.enabled with
  | false =>
    simp only [henabled, Bool.not_false, if_true, Except.ok.injEq] at hcheck
    subst hcheck
    exact ⟨t, rfl, h⟩
  | true =>
    rw [henabled, if_neg (by simp)] at hcheck
    rw [if_neg (by simp)]
    obtain ⟨⟨⟩, htarget, hcheck⟩ := bind_ok hcheck
    obtain ⟨⟨⟩, hfallback, hcheck⟩ := bind_ok hcheck
    obtain ⟨⟨⟩, htargets, hcheck⟩ := bind_ok hcheck
    obtain ⟨⟨⟩, hsecs, hcheck⟩ := bind_ok hcheck
    obtain ⟨⟨⟩, htag, hcheck⟩ := bind_ok hcheck
    obtain ⟨tcpListens, htcp, hcheck⟩ := bind_ok hcheck
    obtain ⟨udpListens, hudp, hcheck⟩ := bind_ok hcheck
    obtain rfl := Except.ok.inj hcheck
    obtain ⟨other, hother, hseen⟩ := insertWhen_shifted h henabled hclear htcp
    rw [← h.udp] at hudp
    refine ⟨{ t with tcpListens := other, udpListens }, ?_, h.names, rfl, hseen⟩
    rw [htarget, hfallback, htargets, hsecs, htag, hother, hudp]
    rfl

theorem checkUser_shifted {user : UserConfig}
    (hclear : ∀ rule ∈ user.rules, ∀ listen ∈ tcpOf rule, listen ∉ after) (s t next : Seen)
    (h : Shifted before after s t) (hcheck : checkUser isSocketAddr s user = .ok next) :
    ∃ other, checkUser isSocketAddr t user = .ok other ∧ Shifted before after next other := by
  unfold checkUser at hcheck ⊢
  obtain ⟨⟨⟩, hname, hcheck⟩ := bind_ok hcheck
  obtain ⟨names, hnew, hcheck⟩ := bind_ok hcheck
  have hnamed : Shifted before after { s with names } { t with names } := ⟨rfl, h.udp, h.tcp⟩
  obtain ⟨other, hother, hnext⟩ := foldlM_rel user.rules
    (fun rule hrule s t next => checkRule_shifted (hclear rule hrule) s t next) hnamed hcheck
  refine ⟨other, ?_, hnext⟩
  rw [← h.names] at hnew
  exact bind_of_ok hname (bind_of_ok hnew hother)

theorem checkPanel_listens {config : Config} {listens : List SocketAddr}
    (h : checkPanel config = .ok listens) : ∀ listen ∈ listens, listen ∈ ownListens config := by
  unfold checkPanel at h
  intro listen hlisten
  unfold ownListens
  cases hpanel : config.enabledPanel with
  | none =>
    rw [hpanel] at h
    obtain rfl := Except.ok.inj h
    exact List.mem_append_left _ hlisten
  | some panel =>
    rw [hpanel] at h
    obtain ⟨_, _, h⟩ := bind_ok h
    obtain ⟨_, rfl⟩ := insertNew_ok h
    rcases List.mem_cons.mp hlisten with rfl | hlisten
    · exact List.mem_append_right _ List.mem_cons_self
    · exact List.mem_append_left _ hlisten

/-- The `api`, `panel` and `state_file` of one config with the rest of another. -/
def underSections (file config : Config) : Config :=
  { file with
    totalQuota := config.totalQuota
    accounting := config.accounting
    singleUser := config.singleUser
    users := config.users }

/-- What passes under its own sections passes under those of a valid file with the panel on. -/
theorem validate_underSections {file config : Config}
    (hfile : validate isSocketAddr file = .ok ()) (hpanel : file.enabledPanel.isSome = true)
    (hconfig : validate isSocketAddr config = .ok ())
    (hclear : Clear config.users (ownListens file)) :
    validate isSocketAddr (underSections file config) = .ok () := by
  unfold validate at hfile hconfig ⊢
  obtain ⟨⟨⟩, _, hfile⟩ := bind_ok hfile
  obtain ⟨⟨⟩, _, hfile⟩ := bind_ok hfile
  obtain ⟨⟨⟩, hflush, hfile⟩ := bind_ok hfile
  obtain ⟨listens, hlistens, _⟩ := bind_ok hfile
  obtain ⟨⟨⟩, _, hconfig⟩ := bind_ok hconfig
  obtain ⟨⟨⟩, hsingle, hconfig⟩ := bind_ok hconfig
  obtain ⟨⟨⟩, _, hconfig⟩ := bind_ok hconfig
  obtain ⟨before, _, hconfig⟩ := bind_ok hconfig
  obtain ⟨seen, husers, haccounting⟩ := bind_ok hconfig
  have hstep : ∀ user ∈ config.users, ∀ s t next, Shifted before listens s t →
      checkUser isSocketAddr s user = .ok next →
      ∃ other, checkUser isSocketAddr t user = .ok other ∧ Shifted before listens next other := by
    intro user huser
    apply checkUser_shifted
    intro rule hrule listen hlisten hin
    exact hclear user huser rule hrule listen hlisten (checkPanel_listens hlistens listen hin)
  have hstart : Shifted before listens { tcpListens := before } { tcpListens := listens } :=
    ⟨rfl, rfl, [], rfl, rfl⟩
  obtain ⟨other, hother, _⟩ := foldlM_rel config.users hstep hstart husers
  have hnone : refuse ((underSections file config).users.isEmpty &&
      (underSections file config).enabledPanel.isNone) .noUsers = .ok () := by
    change refuse (_ && file.enabledPanel.isNone) _ = _
    rw [Option.isNone_eq_false_iff.mpr hpanel, Bool.and_false]
    rfl
  exact bind_of_ok hnone (bind_of_ok hsingle (bind_of_ok hflush (bind_of_ok hlistens
    (bind_of_ok hother haccounting))))

end Check

end PortsBox
