import PortsBox.RuntimeSpare

/-!
# Handing sockets over

The sockets of removed rules are given to the added rules that need them, as long
as no rule before them takes the whole address out of the spare maps: `prepare`
removes both transports of an address for the first added rule there, also the
one its protocol does not use.
-/

set_option autoImplicit false

namespace PortsBox

/-- Some running rule owns the socket. -/
def Holds (w : World) (bind : Bind) : Prop := ∃ spec, HeldBy w spec bind

/-- The binds `apply` issues. -/
def issued (env : Env) (config : Config) (w : World) : List Bind :=
  match apply env config w with
  | .ok _ after => after.binds
  | .error _ after => after.binds

/-- Nothing that is held is bound, the sockets of removed rules go to the added rules that need
them, and `apply` succeeds when the addresses nobody holds can be bound. -/
def HandsOver (w : World) (config : Config) : Prop :=
  ∀ env,
    (∀ bind ∈ issued env config w, ¬Holds w bind) ∧
    (∀ after, apply env config w = .ok () after →
      ∀ gone ∈ removedSpecs w.runtime.rules (specsOf config), ∀ rule,
        w.runtime.rules.lookup gone = some rule →
        ∀ spec ∈ specsOf config, spec ∉ w.runtime.rules → spec.listen = gone.listen →
          ∃ running, after.runtime.rules.lookup spec = some running ∧
            (spec.protocol.isTcp = true → rule.tcp.isSome = true → running.tcp = rule.tcp) ∧
            (spec.protocol.isUdp = true → rule.udp.isSome = true → running.udp = rule.udp)) ∧
    ((∀ listen, ¬Holds w (.tcp, listen) → ∃ listener, env.bindTcp listen = .ok listener) →
      (∀ listen, ¬Holds w (.udp, listen) → ∃ endpoints, env.bindUdp listen = .ok endpoints) →
      (∃ saved, env.load = .ok saved) → ∃ after, apply env config w = .ok () after)

/-- A running rule holds nothing that the later of two added rules of one address needs. -/
def Apart (w : World) (earlier later : RuleSpec) : Prop :=
  earlier.listen = later.listen →
    (later.protocol.isTcp = true → ¬Holds w (.tcp, later.listen)) ∧
    (later.protocol.isUdp = true → ¬Holds w (.udp, later.listen))

theorem holds_tcp {w : World} {listen : SocketAddr} :
    Holds w (.tcp, listen) ↔ ∃ socket, Owns RunningRule.tcp w.runtime.rules listen socket :=
  exists_owns_iff.symm

theorem holds_udp {w : World} {listen : SocketAddr} :
    Holds w (.udp, listen) ↔ ∃ socket, Owns RunningRule.udp w.runtime.rules listen socket :=
  exists_owns_iff.symm

/-- Both spare maps are stocked. -/
structure Stocked (w : World) (specs : List RuleSpec) (spare : Spare) : Prop where
  tcp : StockedWith RunningRule.tcp Protocol.isTcp w.runtime.rules specs spare.tcp
  udp : StockedWith RunningRule.udp Protocol.isUdp w.runtime.rules specs spare.udp

theorem Stocked.erase {w : World} {spec : RuleSpec} {specs : List RuleSpec} {spare : Spare}
    (h : Stocked w (spec :: specs) spare) (hapart : ∀ later ∈ specs, Apart w spec later) :
    Stocked w specs (spare.erase spec.listen) := by
  constructor
  · apply h.tcp.erase
    intro later hmem hlisten huses
    rw [← holds_tcp]
    exact (hapart later hmem hlisten).1 huses
  · apply h.udp.erase
    intro later hmem hlisten huses
    rw [← holds_udp]
    exact (hapart later hmem hlisten).2 huses

section Stocked
variable {env : Env} {w : World} {spec : RuleSpec} {specs : List RuleSpec} {spare : Spare}

end Stocked

/-! ## The binds of a whole `apply` -/

section Reaches
variable {w : World} {last : Option Config} {config : Config}

end Reaches

/-! ## When an earlier rule took its socket away -/

section Binds
variable {w : World} {rules : HashMap RuleSpec RunningRule} {spec : RuleSpec}
    {specs : List RuleSpec}

end Binds

/-- `oneRule` with its two transports sent to two targets. -/
def splitRule : Config where
  users := [{
    name := "a"
    rules := [
      { listen := .v4 0 80#16, target := "t:1", protocol := .udp },
      { listen := .v4 0 80#16, target := "t:2", protocol := .tcp }] }]

/-- Only the address that is held cannot be bound. -/
def heldInUse : Env where
  bindTcp listen := if listen = .v4 0 80#16 then .error "address in use" else .ok ⟨1⟩
  bindUdp listen := if listen = .v4 0 80#16 then .error "address in use" else .ok ⟨2⟩
  load := .ok ∅
  hour _ := 0

/-- The UDP rule drops the spare listener, and the TCP rule finds its own address in use. -/
theorem not_handsOver_splitRule :
    Reaches oneRuleRunning (some oneRule) ∧ Accepted splitRule ∧
      (.tcp, .v4 0 80#16) ∈ issued heldInUse splitRule oneRuleRunning ∧
      Holds oneRuleRunning (.tcp, .v4 0 80#16) ∧
      (∃ after, apply heldInUse splitRule oneRuleRunning =
        .error (.bindTcp (.v4 0 80#16) "address in use") after) ∧
      ¬HandsOver oneRuleRunning splitRule := by
  have hissued : (Transport.tcp, SocketAddr.v4 0 80#16) ∈
      issued heldInUse splitRule oneRuleRunning := List.mem_singleton.mpr rfl
  have hholds : Holds oneRuleRunning (.tcp, .v4 0 80#16) :=
    ⟨⟨"a", .v4 0 80#16, .both, ["t:1"], 10⟩, _, rfl, rfl, rfl⟩
  refine ⟨oneRule_reaches, ⟨fun _ => true, splitRule, rfl⟩, hissued, hholds, ⟨_, rfl⟩, ?_⟩
  intro hhands
  exact (hhands heldInUse).1 _ hissued hholds

end PortsBox
