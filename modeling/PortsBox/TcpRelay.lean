import PortsBox.TcpCore

/-!
# TCP relaying is exact

While a run copies, what it has written followed by what it still buffers is what it
took from its own source. A pipe goes back to the idle ones only when nothing is
buffered in it, so an idle pipe is empty and no connection sees another's bytes.
-/

set_option autoImplicit false

namespace PortsBox

namespace Pipe

theorem fillFrom_content (p : Pipe) (bytes : List UInt8) (size : Nat) :
    (p.fillFrom bytes size).content = p.content ++ bytes := by
  cases bytes with
  | nil => simp [fillFrom]
  | cons byte bytes =>
    unfold fillFrom
    simp only [List.length_cons, Nat.zero_lt_succ, if_true]
    split
    · unfold grow
      split <;> rfl
    · rfl

theorem mem_release {p q : Pipe} {idle : List Pipe} (h : q ∈ p.release idle) :
    q = { p with busy := 0 } ∨ q ∈ idle := by
  unfold release at h
  split at h
  · exact List.mem_cons.mp h
  · exact Or.inr h

theorem mem_giveBack {lease : Lease} {q : Pipe} {idle : List Pipe} (h : q ∈ lease.giveBack idle) :
    q ∈ idle ∨ ∃ p, lease.pipe = some p ∧ lease.buffered = 0 ∧ q = { p with busy := 0 } := by
  unfold Lease.giveBack at h
  cases hpipe : lease.pipe with
  | none =>
    rw [hpipe] at h
    exact Or.inl h
  | some p =>
    rw [hpipe] at h
    by_cases hbuffered : lease.buffered = 0
    · simp only [hbuffered, if_true] at h
      rcases mem_release h with heq | hmem
      · exact Or.inr ⟨p, rfl, hbuffered, heq⟩
      · exact Or.inl hmem
    · simp only [hbuffered, if_false] at h
      exact Or.inl h

theorem acquire_empty {idle : List Pipe} (created : Option Nat)
    (hidle : ∀ p ∈ idle, p.content = []) :
    (∀ p, (acquire idle created).1 = some p → p.content = []) ∧
      ∀ p ∈ (acquire idle created).2, p.content = [] := by
  cases idle with
  | nil =>
    constructor
    · intro p hp
      simp only [acquire] at hp
      unfold create at hp
      split at hp
      · split at hp
        · cases hp
        · obtain rfl := Option.some.inj hp
          rfl
      · cases hp
    · intro p hp
      cases hp
  | cons pipe rest =>
    constructor
    · intro p hp
      obtain rfl := Option.some.inj hp
      exact hidle _ List.mem_cons_self
    · intro p hp
      exact hidle p (List.mem_cons_of_mem _ hp)

end Pipe

namespace Copy

/-- What is buffered where, for each place a run can be in. -/
def Buffered (c : Copy) : CopyAt → Prop
  | .waiting => c.pending = [] ∧ c.counted = c.taken.length
  | .filling => c.lease.pipe.isSome = true ∧ c.pending = [] ∧ c.counted = c.taken.length
  | .reading => c.lease.pipe = none ∧ c.pending = [] ∧ c.counted = c.taken.length
  | .counting n => c.pending.length = n ∧ c.counted + n = c.taken.length
  | .draining => c.lease.pipe.isSome = true ∧ c.counted = c.taken.length
  | .writing => c.lease.pipe = none ∧ c.counted = c.taken.length
  | .ended _ => True

/-- The invariant of one run. -/
structure Exact (c : Copy) : Prop where
  stream : (∃ result, c.state = .ended result) ∨ c.taken = c.written ++ c.pending
  lease : ∀ p, c.lease.pipe = some p → p.content.length = c.lease.buffered
  unused : c.lease.pipe = none → c.lease.buffered = 0
  spare : c.lease.pipe.isSome = true → c.buf = []
  buffered : c.Buffered c.state
  counted : c.written.length ≤ c.counted
  prefix_taken : c.written <+: c.taken
  clean : c.state = .ended (some (.ok ())) → c.taken = c.written ∧ c.counted = c.taken.length

variable {c after : Copy} {idle left : List Pipe}

theorem Exact.giveBack (h : Exact c) (hidle : ∀ p ∈ idle, p.content = []) :
    ∀ p ∈ c.lease.giveBack idle, p.content = [] := by
  intro q hq
  rcases Pipe.mem_giveBack hq with hold | ⟨p, hp, hbuffered, rfl⟩
  · exact hidle q hold
  · have hlength := h.lease p hp
    rw [hbuffered] at hlength
    exact List.eq_nil_of_length_eq_zero hlength

/-- A run that ends, whatever it has buffered. -/
theorem Exact.finish (h : Exact c) (hidle : ∀ p ∈ idle, p.content = [])
    {result : Option (Except CopyError Unit)} (hstep : c.finish idle result = (after, left))
    (hclean : result = some (.ok ()) → c.taken = c.written ∧ c.counted = c.taken.length) :
    Exact after ∧ ∀ p ∈ left, p.content = [] := by
  obtain ⟨rfl, rfl⟩ := Prod.mk.inj hstep
  refine ⟨?_, h.giveBack hidle⟩
  constructor
  · exact Or.inl ⟨result, rfl⟩
  · intro p hp
    cases hp
  · intro _
    rfl
  · intro hsome
    cases hsome
  · trivial
  · exact h.counted
  · exact h.prefix_taken
  · intro hended
    exact hclean (CopyAt.ended.inj hended)

/-- A run that goes on. -/
theorem Exact.running (h : Exact c) (hended : ∀ result, c.state ≠ .ended result) :
    c.taken = c.written ++ c.pending := by
  rcases h.stream with ⟨result, hstate⟩ | hstream
  · exact absurd hstate (hended result)
  · exact hstream

theorem pending_of_some {p : Pipe} (h : c.lease.pipe = some p) : c.pending = p.content := by
  unfold pending
  rw [h]

theorem pending_of_none (h : c.lease.pipe = none) : c.pending = c.buf := by
  unfold pending
  rw [h]

/-- The places where nothing is buffered. -/
def Settled (c : Copy) : Prop :=
  c.state = .waiting ∨ (c.state = .filling ∧ c.lease.pipe.isSome = true) ∨
    (c.state = .reading ∧ c.lease.pipe = none)

/-- A run with nothing buffered has written all that it took. -/
theorem exact_of_settled (hstate : c.Settled) (hstream : c.taken = c.written)
    (hcounted : c.counted = c.taken.length)
    (hlease : ∀ p, c.lease.pipe = some p → p.content = []) (hbuffered : c.lease.buffered = 0)
    (hbuf : c.buf = []) : Exact c := by
  have hpending : c.pending = [] := by
    cases hpipe : c.lease.pipe with
    | none => rw [pending_of_none hpipe, hbuf]
    | some p => rw [pending_of_some hpipe, hlease p hpipe]
  constructor
  · exact Or.inr (by rw [hpending, List.append_nil, hstream])
  · intro p hp
    rw [hlease p hp, hbuffered]
    rfl
  · exact fun _ => hbuffered
  · exact fun _ => hbuf
  · rcases hstate with hstate | ⟨hstate, hpipe⟩ | ⟨hstate, hpipe⟩
    · rw [hstate]
      exact ⟨hpending, hcounted⟩
    · rw [hstate]
      exact ⟨hpipe, hpending, hcounted⟩
    · rw [hstate]
      exact ⟨hpipe, hpending, hcounted⟩
  · exact Nat.le_of_eq (by rw [hcounted, hstream])
  · exact ⟨[], by rw [hstream, List.append_nil]⟩
  · intro hended
    rcases hstate with hstate | ⟨hstate, -⟩ | ⟨hstate, -⟩
    · rw [hstate] at hended
      cases hended
    · rw [hstate] at hended
      cases hended
    · rw [hstate] at hended
      cases hended

theorem Exact.settled (h : Exact c) (hstate : c.Settled) :
    c.pending = [] ∧ c.counted = c.taken.length ∧ c.taken = c.written ∧ c.lease.buffered = 0 := by
  have hbuffered := h.buffered
  obtain ⟨hpending, hcounted⟩ : c.pending = [] ∧ c.counted = c.taken.length := by
    rcases hstate with hstate | ⟨hstate, -⟩ | ⟨hstate, -⟩
    · rwa [hstate] at hbuffered
    · rw [hstate] at hbuffered
      exact hbuffered.2
    · rw [hstate] at hbuffered
      exact hbuffered.2
  have hended : ∀ result, c.state ≠ .ended result := by
    intro result heq
    rcases hstate with hstate | ⟨hstate, -⟩ | ⟨hstate, -⟩
    · rw [hstate] at heq
      cases heq
    · rw [hstate] at heq
      cases heq
    · rw [hstate] at heq
      cases heq
  refine ⟨hpending, hcounted, ?_, ?_⟩
  · have := h.running hended
    rwa [hpending, List.append_nil] at this
  · cases hpipe : c.lease.pipe with
    | none => exact h.unused hpipe
    | some p =>
      have hlength := h.lease p hpipe
      rw [← pending_of_some hpipe, hpending] at hlength
      exact hlength.symm

theorem Exact.readable (h : Exact c) (hidle : ∀ p ∈ idle, p.content = [])
    {result : Except String Unit} {created : Option Nat}
    (hstep : c.step idle (.readable result created) = some (after, left)) :
    Exact after ∧ ∀ p ∈ left, p.content = [] := by
  simp only [step] at hstep
  split at hstep
  case h_1 e _ => exact h.finish hidle (Option.some.inj hstep) (fun h => nomatch h)
  case h_2 hstate =>
    obtain ⟨hpending, hcounted, hstream, hbuffered⟩ := h.settled (Or.inl hstate)
    split at hstep
    case isTrue hacquire =>
      obtain ⟨hempty, hleft⟩ := Pipe.acquire_empty created hidle
      simp only [Bool.and_eq_true, Option.isNone_iff_eq_none] at hacquire
      have hbuf : c.buf = [] := (pending_of_none hacquire.1).symm.trans hpending
      obtain ⟨rfl, rfl⟩ := Prod.mk.inj (Option.some.inj hstep)
      refine ⟨exact_of_settled ?_ hstream hcounted hempty hbuffered hbuf, hleft⟩
      cases hpipe : (Pipe.acquire idle created).1 with
      | none => exact Or.inr (Or.inr ⟨by simp, by simp⟩)
      | some p => exact Or.inr (Or.inl ⟨by simp, by simp⟩)
    case isFalse hkeep =>
      obtain ⟨rfl, rfl⟩ := Prod.mk.inj (Option.some.inj hstep)
      have hlease : ∀ p, c.lease.pipe = some p → p.content = [] := by
        intro p hp
        rw [← pending_of_some hp, hpending]
      have hbuf : c.buf = [] := by
        cases hpipe : c.lease.pipe with
        | none => exact (pending_of_none hpipe).symm.trans hpending
        | some p => exact h.spare (by rw [hpipe]; rfl)
      refine ⟨exact_of_settled ?_ hstream hcounted hlease hbuffered hbuf, hidle⟩
      cases hpipe : c.lease.pipe with
      | none => exact Or.inr (Or.inr ⟨by simp, hpipe⟩)
      | some p => exact Or.inr (Or.inl ⟨by simp, by simp [hpipe]⟩)
  case h_3 => cases hstep

/-- The bytes just taken are all that is buffered. -/
theorem Exact.taking (h : Exact c) (hstate : c.Settled) {bytes : List UInt8} {next : Copy}
    (hnext : next.state = .counting bytes.length) (htaken : next.taken = c.taken ++ bytes)
    (hwritten : next.written = c.written) (hcounted : next.counted = c.counted)
    (hpending : next.pending = bytes)
    (hlease : ∀ p, next.lease.pipe = some p → p.content.length = next.lease.buffered)
    (hunused : next.lease.pipe = none → next.lease.buffered = 0)
    (hspare : next.lease.pipe.isSome = true → next.buf = []) : Exact next := by
  obtain ⟨-, hcount, hstream, -⟩ := h.settled hstate
  constructor
  · exact Or.inr (by rw [htaken, hwritten, hpending, hstream])
  · exact hlease
  · exact hunused
  · exact hspare
  · rw [hnext]
    refine ⟨by rw [hpending], ?_⟩
    rw [hcounted, hcount, htaken, List.length_append]
  · rw [hwritten, hcounted]
    exact h.counted
  · rw [hwritten, htaken, hstream]
    exact List.prefix_append _ _
  · intro hended
    rw [hnext] at hended
    cases hended

theorem Exact.fill (h : Exact c) (hidle : ∀ p ∈ idle, p.content = []) {outcome : Filled}
    (hstep : c.step idle (.fill outcome) = some (after, left)) :
    Exact after ∧ ∀ p ∈ left, p.content = [] := by
  simp only [step] at hstep
  split at hstep
  case h_1 pipe bytes size hstate hpipe =>
    have hsettled : c.Settled := Or.inr (Or.inl ⟨hstate, by rw [hpipe]; rfl⟩)
    obtain ⟨hpending, hcounted, hstream, -⟩ := h.settled hsettled
    have hcontent : (pipe.fillFrom bytes size).content = bytes := by
      rw [Pipe.fillFrom_content, ← pending_of_some hpipe, hpending, List.nil_append]
    have hbuf : c.buf = [] := h.spare (by rw [hpipe]; rfl)
    split at hstep
    · cases hstep
    · split at hstep
      case isTrue hend =>
        -- nothing was moved at the end of the stream
        obtain rfl := List.eq_nil_of_length_eq_zero hend
        obtain ⟨rfl, rfl⟩ := Prod.mk.inj (Option.some.inj hstep)
        constructor
        · constructor
          · exact Or.inl ⟨_, rfl⟩
          · intro p hp
            cases hp
          · intro _
            rfl
          · intro hsome
            cases hsome
          · trivial
          · exact h.counted
          · exact h.prefix_taken.trans (List.prefix_append _ _)
          · intro _
            refine ⟨?_, ?_⟩
            · simp only [List.append_nil]
              exact hstream
            · simp only [List.append_nil]
              exact hcounted
        · intro q hq
          rcases Pipe.mem_giveBack hq with hold | ⟨p, hp, -, rfl⟩
          · exact hidle q hold
          · obtain rfl := Option.some.inj hp
            exact hcontent
      case isFalse =>
        obtain ⟨rfl, rfl⟩ := Prod.mk.inj (Option.some.inj hstep)
        refine ⟨h.taking hsettled rfl rfl rfl rfl hcontent ?_ ?_ ?_, hidle⟩
        · intro p hp
          obtain rfl := Option.some.inj hp
          rw [hcontent]
        · intro hnone
          cases hnone
        · exact fun _ => hbuf
  case h_2 hstate hpipe =>
    have hsettled : c.Settled := Or.inr (Or.inl ⟨hstate, by rw [hpipe]; rfl⟩)
    obtain ⟨-, hcounted, hstream, -⟩ := h.settled hsettled
    obtain ⟨rfl, rfl⟩ := Prod.mk.inj (Option.some.inj hstep)
    refine ⟨exact_of_settled (Or.inl rfl) hstream hcounted ?_ rfl ?_, h.giveBack hidle⟩
    · intro p hp
      cases hp
    · exact h.spare (by rw [hpipe]; rfl)
  case h_3 => exact h.finish hidle (Option.some.inj hstep) (fun h => nomatch h)
  case h_4 => cases hstep

theorem Exact.read (h : Exact c) (hidle : ∀ p ∈ idle, p.content = [])
    {result : Except String (List UInt8)}
    (hstep : c.step idle (.read result) = some (after, left)) :
    Exact after ∧ ∀ p ∈ left, p.content = [] := by
  simp only [step] at hstep
  split at hstep
  case h_1 => exact h.finish hidle (Option.some.inj hstep) (fun h => nomatch h)
  case h_2 bytes hstate =>
    have hpipe : c.lease.pipe = none := by
      have hbuffered := h.buffered
      rw [hstate] at hbuffered
      exact hbuffered.1
    have hsettled : c.Settled := Or.inr (Or.inr ⟨hstate, hpipe⟩)
    obtain ⟨-, hcounted, hstream, hzero⟩ := h.settled hsettled
    split at hstep
    · cases hstep
    · split at hstep
      case isTrue hend =>
        exact h.finish hidle (Option.some.inj hstep) (fun _ => ⟨hstream, hcounted⟩)
      case isFalse =>
        obtain ⟨rfl, rfl⟩ := Prod.mk.inj (Option.some.inj hstep)
        refine ⟨h.taking hsettled rfl rfl rfl rfl (pending_of_none hpipe) ?_ ?_ ?_, hidle⟩
        · intro p hp
          rw [hpipe] at hp
          cases hp
        · exact fun _ => hzero
        · intro hsome
          rw [hpipe] at hsome
          cases hsome
  case h_3 => cases hstep

theorem Exact.tryConsume (h : Exact c) (hidle : ∀ p ∈ idle, p.content = []) {accepted : Bool}
    (hstep : c.step idle (.tryConsume accepted) = some (after, left)) :
    Exact after ∧ ∀ p ∈ left, p.content = [] := by
  simp only [step] at hstep
  split at hstep
  case h_1 n hstate =>
    split at hstep
    · exact h.finish hidle (Option.some.inj hstep) (fun h => nomatch h)
    · obtain ⟨hlength, hcounted⟩ : c.pending.length = n ∧ c.counted + n = c.taken.length := by
        have hbuffered := h.buffered
        rwa [hstate] at hbuffered
      have hstream := h.running (fun result heq => by rw [hstate] at heq; cases heq)
      obtain ⟨rfl, rfl⟩ := Prod.mk.inj (Option.some.inj hstep)
      refine ⟨?_, hidle⟩
      constructor
      · exact Or.inr hstream
      · exact h.lease
      · exact h.unused
      · exact h.spare
      · cases hpipe : c.lease.pipe with
        | none =>
          simp only [Option.isSome_none, Bool.false_eq_true, if_false]
          exact ⟨hpipe, hcounted⟩
        | some p =>
          simp only [Option.isSome_some, if_true]
          exact ⟨by rw [hpipe]; rfl, hcounted⟩
      · exact Nat.le_trans h.counted (Nat.le_add_right _ _)
      · exact h.prefix_taken
      · intro hended
        simp only at hended
        split at hended
        · cases hended
        · cases hended
  case h_2 => cases hstep

/-- Bytes leave the buffer for the destination; `n` is the number left. -/
theorem Exact.moving (h : Exact c) (hended : ∀ result, c.state ≠ .ended result)
    (hcounted : c.counted = c.taken.length) (sent : Nat) {next : Copy}
    (hwritten : next.written = c.written ++ c.pending.take sent)
    (hpending : next.pending = c.pending.drop sent) (htaken : next.taken = c.taken)
    (hcount : next.counted = c.counted)
    (hlease : ∀ p, next.lease.pipe = some p → p.content.length = next.lease.buffered)
    (hunused : next.lease.pipe = none → next.lease.buffered = 0)
    (hspare : next.lease.pipe.isSome = true → next.buf = [])
    (hbuffered : next.Buffered next.state) (hgoes : ∀ result, next.state ≠ .ended result) :
    Exact next := by
  have hstream := h.running hended
  have hwhole : next.taken = next.written ++ next.pending := by
    rw [htaken, hwritten, hpending, List.append_assoc, List.take_append_drop, hstream]
  constructor
  · exact Or.inr hwhole
  · exact hlease
  · exact hunused
  · exact hspare
  · exact hbuffered
  · rw [hcount, hcounted, ← htaken, hwhole, List.length_append]
    exact Nat.le_add_right _ _
  · rw [hwhole]
    exact List.prefix_append _ _
  · intro hend
    exact absurd hend (hgoes _)

theorem Exact.drain (h : Exact c) (hidle : ∀ p ∈ idle, p.content = []) {outcome : Drained}
    (hstep : c.step idle (.drain outcome) = some (after, left)) :
    Exact after ∧ ∀ p ∈ left, p.content = [] := by
  simp only [step] at hstep
  split at hstep
  case h_1 pipe sent hstate hpipe =>
    split at hstep
    · cases hstep
    · split at hstep
      · exact h.finish hidle (Option.some.inj hstep) (fun h => nomatch h)
      case isFalse hroom hzero =>
        have hcounted : c.counted = c.taken.length := by
          have hbuffered := h.buffered
          rw [hstate] at hbuffered
          exact hbuffered.2
        have hlength := h.lease pipe hpipe
        have hpending := pending_of_some hpipe
        obtain ⟨rfl, rfl⟩ := Prod.mk.inj (Option.some.inj hstep)
        refine ⟨h.moving (fun result heq => by rw [hstate] at heq; cases heq) hcounted sent
          ?_ ?_ rfl rfl ?_ ?_ ?_ ?_ ?_, hidle⟩
        · rw [hpending]
        · rw [hpending]
          rfl
        · intro p hp
          obtain rfl := Option.some.inj hp
          simp only [Pipe.drainTo, List.length_drop, hlength]
        · intro hnone
          cases hnone
        · exact fun _ => h.spare (by rw [hpipe]; rfl)
        · by_cases hmore : c.lease.buffered - sent > 0
          · simp only [hmore, if_true]
            exact ⟨rfl, hcounted⟩
          · simp only [hmore, if_false]
            refine ⟨?_, hcounted⟩
            apply List.eq_nil_of_length_eq_zero
            simp only [pending, Pipe.drainTo, List.length_drop]
            omega
        · intro result
          simp only
          split
          · exact fun heq => nomatch heq
          · exact fun heq => nomatch heq
  case h_2 =>
    obtain ⟨rfl, rfl⟩ := Prod.mk.inj (Option.some.inj hstep)
    exact ⟨h, hidle⟩
  case h_3 => exact h.finish hidle (Option.some.inj hstep) (fun h => nomatch h)
  case h_4 => cases hstep

theorem Exact.write (h : Exact c) (hidle : ∀ p ∈ idle, p.content = [])
    {result : Except String Nat} (hstep : c.step idle (.write result) = some (after, left)) :
    Exact after ∧ ∀ p ∈ left, p.content = [] := by
  simp only [step] at hstep
  split at hstep
  case h_1 => exact h.finish hidle (Option.some.inj hstep) (fun h => nomatch h)
  case h_2 sent hstate =>
    split at hstep
    · cases hstep
    · split at hstep
      · exact h.finish hidle (Option.some.inj hstep) (fun h => nomatch h)
      · obtain ⟨hpipe, hcounted⟩ : c.lease.pipe = none ∧ c.counted = c.taken.length := by
          have hbuffered := h.buffered
          rwa [hstate] at hbuffered
        have hpending := pending_of_none hpipe
        have hnone : ∀ {p}, c.lease.pipe ≠ some p := by
          intro p hp
          rw [hpipe] at hp
          cases hp
        obtain ⟨rfl, rfl⟩ := Prod.mk.inj (Option.some.inj hstep)
        refine ⟨h.moving (fun result heq => by rw [hstate] at heq; cases heq) hcounted sent
          ?_ ?_ rfl rfl ?_ ?_ ?_ ?_ ?_, hidle⟩
        · rw [hpending]
        · rw [hpending]
          exact pending_of_none hpipe
        · exact fun p hp => absurd hp hnone
        · exact fun _ => h.unused hpipe
        · intro hsome
          rw [hpipe] at hsome
          cases hsome
        · by_cases hmore : c.buf.length - sent > 0
          · simp only [hmore, if_true]
            exact ⟨hpipe, hcounted⟩
          · simp only [hmore, if_false]
            refine ⟨?_, hcounted⟩
            refine Eq.trans (pending_of_none ?_) (List.eq_nil_of_length_eq_zero ?_)
            · exact hpipe
            simp only [List.length_drop]
            omega
        · intro result
          simp only
          split
          · exact fun heq => nomatch heq
          · exact fun heq => nomatch heq
  case h_3 => cases hstep

theorem Exact.cancel (h : Exact c) (hidle : ∀ p ∈ idle, p.content = [])
    (hstep : c.step idle .cancel = some (after, left)) :
    Exact after ∧ ∀ p ∈ left, p.content = [] := by
  simp only [step] at hstep
  split at hstep
  case h_1 | h_2 | h_3 | h_4 =>
    exact h.finish hidle (Option.some.inj hstep) (fun h => nomatch h)
  case h_5 | h_6 | h_7 => cases hstep

/-- One step of a run, whatever the outcome. -/
theorem Exact.step (h : Exact c) (hidle : ∀ p ∈ idle, p.content = []) {step : CopyStep}
    (hstep : c.step idle step = some (after, left)) :
    Exact after ∧ ∀ p ∈ left, p.content = [] := by
  cases step with
  | readable result created => exact h.readable hidle hstep
  | fill outcome => exact h.fill hidle hstep
  | read result => exact h.read hidle hstep
  | tryConsume accepted => exact h.tryConsume hidle hstep
  | drain outcome => exact h.drain hidle hstep
  | write result => exact h.write hidle hstep
  | cancel => exact h.cancel hidle hstep

theorem exact_new : Exact {} := by
  apply exact_of_settled (Or.inl rfl) rfl rfl
  · intro p hp
    cases hp
  · rfl
  · rfl

end Copy

namespace Thread

variable {t next : Thread}

/-- The runs of a thread are exact and its idle pipes empty. -/
def Isolated (t : Thread) : Prop :=
  (∀ c ∈ t.copies, c.Exact) ∧ ∀ p ∈ t.idle, p.content = []

theorem Isolated.step (h : Isolated t) {step : Step} (hstep : t.step step = some next) :
    Isolated next := by
  rcases h with ⟨hcopies, hidle⟩
  cases step with
  | start =>
    obtain rfl := Option.some.inj hstep
    refine ⟨?_, hidle⟩
    intro c hc
    rcases List.mem_append.mp hc with hold | hnew
    · exact hcopies c hold
    · rw [List.mem_singleton.mp hnew]
      exact Copy.exact_new
  | copy i step =>
    obtain ⟨c, hc, hmap⟩ := Option.bind_eq_some_iff.mp hstep
    obtain ⟨⟨after, left⟩, hcopy, rfl⟩ := Option.map_eq_some_iff.mp hmap
    obtain ⟨hexact, hleft⟩ := (hcopies c (List.mem_of_getElem? hc)).step hidle hcopy
    refine ⟨?_, hleft⟩
    intro other hother
    rcases List.mem_or_eq_of_mem_set hother with hold | rfl
    · exact hcopies other hold
    · exact hexact

theorem isolated_of_reachable (h : Reachable t) : Isolated t := by
  induction h with
  | start => exact ⟨(fun _ h => nomatch h), (fun _ h => nomatch h)⟩
  | step _ hstep ih => exact ih.step hstep

theorem Reachable.steps {steps : List Step} (h : Reachable t) (hsteps : t.steps steps = some next) :
    Reachable next := by
  induction steps generalizing t with
  | nil =>
    obtain rfl := Option.some.inj hsteps
    exact h
  | cons step rest ih =>
    obtain ⟨middle, hstep, hrest⟩ := Option.bind_eq_some_iff.mp hsteps
    exact ih (h.step hstep) hrest

/-- Whatever the interleaving and the outcomes: a run that has not ended has written what it took
except what it still buffers; what is written was counted; a clean end has counted and written
all; and the idle pipes are empty. -/
theorem relaying_exact (h : Reachable t) :
    (∀ c ∈ t.copies,
      ((∀ result, c.state ≠ .ended result) → c.taken = c.written ++ c.pending) ∧
      c.written <+: c.taken ∧ c.written.length ≤ c.counted ∧
      (c.state = .ended (some (.ok ())) → c.written = c.taken ∧ c.counted = c.taken.length)) ∧
    ∀ p ∈ t.idle, p.content = [] := by
  obtain ⟨hcopies, hidle⟩ := isolated_of_reachable h
  refine ⟨?_, hidle⟩
  intro c hc
  have hexact := hcopies c hc
  refine ⟨hexact.running, hexact.prefix_taken, hexact.counted, ?_⟩
  intro hended
  obtain ⟨htaken, hcounted⟩ := hexact.clean hended
  exact ⟨htaken.symm, hcounted⟩

/-- Two runs: the first is dropped with two bytes in its pipe, the second copies to the end. -/
def twoRuns : List Step :=
  [.start, .start, .copy 0 (.readable (.ok ()) (some 65536)),
    .copy 0 (.fill (.moved [1, 2, 3] 0)), .copy 0 (.tryConsume true), .copy 0 (.drain (.moved 1)),
    .copy 0 .cancel, .copy 1 (.readable (.ok ()) (some 65536)), .copy 1 (.fill .wouldBlock),
    .copy 1 (.readable (.ok ()) none), .copy 1 (.fill (.moved [4, 5] 0)),
    .copy 1 (.tryConsume true), .copy 1 (.drain (.moved 1)), .copy 1 (.drain (.moved 1)),
    .copy 1 (.readable (.ok ()) none), .copy 1 (.fill (.moved [] 0))]

theorem relaying_exact_two_runs :
    ∃ t, Thread.steps {} twoRuns = some t ∧ t.copies.map Copy.written = [[1], [4, 5]] ∧
      t.idle.length = 1 ∧ ∀ p ∈ t.idle, p.content = [] := by
  have hrun : (Thread.steps {} twoRuns).map
      (fun t => (t.copies.map Copy.written, t.idle.length)) = some ([[1], [4, 5]], 1) := rfl
  obtain ⟨t, ht, hfound⟩ := Option.map_eq_some_iff.mp hrun
  obtain ⟨hwritten, hlength⟩ := Prod.mk.inj hfound
  exact ⟨t, ht, hwritten, hlength, (relaying_exact (Reachable.start.steps ht)).2⟩

end Thread

end PortsBox
