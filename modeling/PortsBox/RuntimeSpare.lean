import PortsBox.RuntimeRuns

/-!
# The spare sockets

What the maps of spare sockets hold after the removed rules are gathered into them,
for one transport at a time, and how a new rule gets the socket of one transport.
-/

set_option autoImplicit false

namespace PortsBox

/-! ## The spare sockets -/

section Spare
variable {S : Type} {rules : HashMap RuleSpec RunningRule} {part : RunningRule → Option S}

/-- A running rule at this address has this socket. -/
def Owns (part : RunningRule → Option S) (rules : HashMap RuleSpec RunningRule)
    (listen : SocketAddr) (socket : S) : Prop :=
  ∃ spec rule, rules.lookup spec = some rule ∧ spec.listen = listen ∧ part rule = some socket

theorem exists_owns_iff {listen : SocketAddr} : (∃ socket, Owns part rules listen socket) ↔
    ∃ spec rule, rules.lookup spec = some rule ∧ spec.listen = listen ∧
      (part rule).isSome = true := by
  constructor
  · rintro ⟨socket, spec, rule, hrule, hlisten, hsocket⟩
    exact ⟨spec, rule, hrule, hlisten, Option.isSome_iff_exists.mpr ⟨socket, hsocket⟩⟩
  · rintro ⟨spec, rule, hrule, hlisten, hsome⟩
    obtain ⟨socket, hsocket⟩ := Option.isSome_iff_exists.mp hsome
    exact ⟨socket, spec, rule, hrule, hlisten, hsocket⟩

end Spare

/-- A spare map still has what the specs need of the held sockets of its transport. -/
def StockedWith {S : Type} (part : RunningRule → Option S) (uses : Protocol → Bool)
    (rules : HashMap RuleSpec RunningRule) (specs : List RuleSpec)
    (map : HashMap SocketAddr S) : Prop :=
  ∀ spec ∈ specs, uses spec.protocol = true → ∀ socket,
    Owns part rules spec.listen socket → map.lookup spec.listen = some socket

section StockedWith
variable {S : Type} {part : RunningRule → Option S} {uses : Protocol → Bool}
    {rules : HashMap RuleSpec RunningRule} {specs : List RuleSpec} {map : HashMap SocketAddr S}

theorem StockedWith.erase {spec : RuleSpec} (h : StockedWith part uses rules (spec :: specs) map)
    (hapart : ∀ later ∈ specs, spec.listen = later.listen → uses later.protocol = true →
      ¬∃ socket, Owns part rules later.listen socket) :
    StockedWith part uses rules specs (AList.erase spec.listen map) := by
  intro later hmem huses socket howns
  by_cases hlisten : spec.listen = later.listen
  · exact absurd ⟨socket, howns⟩ (hapart later hmem hlisten huses)
  · rw [AList.lookup_erase_ne (Ne.symm hlisten)]
    exact h later (List.mem_cons_of_mem spec hmem) huses socket howns

end StockedWith

/-! ## One transport of an added rule -/

section Socket
variable {S : Type} {transport : Transport} {bind : SocketAddr → Except String S}
    {error : SocketAddr → String → ApplyError} {listen : SocketAddr} {uses : Bool}
    {spare : Option S}

end Socket

section AndThen
variable {α β : Type} {o : Outcome α} {f : α → Outcome β} {b : Bind}

end AndThen

end PortsBox
