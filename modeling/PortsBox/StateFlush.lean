import PortsBox.Lib.WriteBack
import PortsBox.StateDb

/-!
# Flushing usage

A flush skips the users whose snapshot is the last flushed one. Over any sequence of
flushes the usage table is the one that writing every user of every successful flush
leaves, as long as no flush is given two snapshots of one name.
-/

set_option autoImplicit false

namespace PortsBox

open WriteBack

/-- The users given to one flush, with their snapshots, and how its transaction ends. -/
structure FlushCall where
  users : List (String × SavedUsage)
  tx : Except String Unit

namespace StateDb

variable {Text : Type}

/-- The flushes in order, with their answers. -/
def flushes (db : StateDb Text) : List FlushCall → StateDb Text × List (Except String Unit)
  | [] => (db, [])
  | call :: rest =>
    let (next, answer) := db.flush call.tx call.users
    let (last, answers) := next.flushes rest
    (last, answer :: answers)

/-- What the flushes write when nobody is skipped: everyone on success, and nothing otherwise. -/
def written (usage : BTreeMap SavedUsage) : List (FlushCall × Except String Unit) →
    BTreeMap SavedUsage
  | [] => usage
  | (call, .ok ()) :: rest => written (putAll usage call.users) rest
  | (_, .error _) :: rest => written usage rest

/-- Every last flushed snapshot is in the table. -/
def Coherent (db : StateDb Text) : Prop := WriteBack.Coherent db.lastFlushed db.usage

theorem coherent_reopen (db : StateDb Text) : db.reopen.Coherent := by
  intro name saved h
  simp [reopen] at h

/-- A flush that succeeds leaves the table with everyone written, one that fails leaves it. -/
theorem Coherent.flush {db : StateDb Text} (h : db.Coherent) (tx : Except String Unit)
    {users : List (String × SavedUsage)} (husers : OneEach users) :
    (db.flush tx users).1.Coherent ∧
      (((db.flush tx users).2 = .ok () ∧ (db.flush tx users).1.usage = putAll db.usage users) ∨
        ((∃ e, (db.flush tx users).2 = .error e) ∧ (db.flush tx users).1 = db)) := by
  have hput : putAll db.usage (db.dirty users) = putAll db.usage users := putAll_dirty h husers
  unfold StateDb.flush
  dsimp only
  cases hclean : (db.dirty users).isEmpty with
  | true =>
    rw [List.isEmpty_iff.mp hclean] at hput
    exact ⟨h, Or.inl ⟨rfl, hput⟩⟩
  | false =>
    cases tx with
    | error e => exact ⟨h, Or.inr ⟨⟨e, rfl⟩, rfl⟩⟩
    | ok _ => exact ⟨WriteBack.Coherent.putAll h (db.dirty users), Or.inl ⟨rfl, hput⟩⟩

theorem Coherent.flushes {db : StateDb Text} (h : db.Coherent) {calls : List FlushCall}
    (hcalls : ∀ call ∈ calls, OneEach call.users) :
    (db.flushes calls).1.usage = written db.usage (calls.zip (db.flushes calls).2) := by
  induction calls generalizing db with
  | nil => rfl
  | cons call rest ih =>
    obtain ⟨hnext, hflush⟩ := h.flush call.tx (hcalls call List.mem_cons_self)
    have hrest := ih hnext fun other hother => hcalls other (List.mem_cons_of_mem call hother)
    rw [StateDb.flushes]
    cases hout : db.flush call.tx call.users with
    | mk next answer =>
      rw [hout] at hflush hrest
      dsimp only at hflush hrest ⊢
      rw [List.zip_cons_cons, hrest]
      rcases hflush with ⟨rfl, husage⟩ | ⟨⟨e, rfl⟩, rfl⟩
      · rw [written, husage]
      · rfl

/-- A name listed twice, the second time with what was flushed last. -/
def twiceListed : List FlushCall :=
  [⟨[("a", {})], .ok ()⟩, ⟨[("a", { upload := 1 }), ("a", {})], .ok ()⟩]

/-- The second snapshot is skipped, so the first one stays. -/
theorem flushes_twiceListed :
    (({} : StateDb Unit).flushes twiceListed).1.usage["a"]? = some { upload := 1 } ∧
      (written ∅ (twiceListed.zip (({} : StateDb Unit).flushes twiceListed).2))["a"]? =
        some {} := by
  decide +kernel

end StateDb

end PortsBox
