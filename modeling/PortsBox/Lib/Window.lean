import Mathlib.Data.List.DropRight
import Mathlib.Data.List.Sort

/-!
# The latest items of a log

A queue that drops its front when it is full, fed item by item, holds the last items
of everything it was fed. A table whose rows carry increasing ids, read newest first
up to a bound and turned around, gives the same items.
-/

set_option autoImplicit false

namespace PortsBox.Window

universe u v

variable {A : Type u} {B : Type v}

/-- Appends an item to a queue; a full queue first drops its front. -/
def push (capacity : Nat) (queue : List A) (item : A) : List A :=
  (if queue.length = capacity then queue.tail else queue) ++ [item]

def pushAll (capacity : Nat) (queue items : List A) : List A := items.foldl (push capacity) queue

theorem length_rtake (log : List A) (n : Nat) : (log.rtake n).length = min n log.length := by
  unfold List.rtake
  rw [List.length_drop]
  omega

theorem rtake_of_length_le {log : List A} {n : Nat} (h : log.length ≤ n) : log.rtake n = log := by
  unfold List.rtake
  rw [Nat.sub_eq_zero_of_le h, List.drop_zero]

theorem filterMap_drop {f : A → Option B} {log : List A} (h : ∀ item ∈ log, (f item).isSome = true)
    (n : Nat) : (log.drop n).filterMap f = (log.filterMap f).drop n := by
  induction log generalizing n with
  | nil => simp
  | cons item log ih =>
    obtain ⟨image, himage⟩ := Option.isSome_iff_exists.mp (h item List.mem_cons_self)
    rw [List.filterMap_cons_some himage]
    cases n with
    | zero => rw [List.drop_zero, List.drop_zero, List.filterMap_cons_some himage]
    | succ n =>
      rw [List.drop_succ_cons, List.drop_succ_cons]
      exact ih (fun item hitem => h item (List.mem_cons_of_mem _ hitem)) n

/-- A partial map that is defined on the whole log commutes with taking its end. -/
theorem filterMap_rtake {f : A → Option B} {log : List A}
    (h : ∀ item ∈ log, (f item).isSome = true) (n : Nat) :
    (log.rtake n).filterMap f = (log.filterMap f).rtake n := by
  have hlength : (log.filterMap f).length = log.length := List.filterMap_length_eq_length.mpr h
  unfold List.rtake
  rw [hlength, filterMap_drop h]

theorem push_rtake {capacity : Nat} (h : 0 < capacity) (log : List A) (item : A) :
    push capacity (log.rtake capacity) item = (log ++ [item]).rtake capacity := by
  obtain ⟨n, rfl⟩ : ∃ n, capacity = n + 1 := ⟨capacity - 1, by omega⟩
  rw [List.rtake_concat_succ]
  unfold push
  rw [length_rtake]
  by_cases hfull : n + 1 ≤ log.length
  · have hcut : (log.rtake (n + 1)).tail = log.rtake n := by
      unfold List.rtake
      rw [List.tail_drop, show log.length - (n + 1) + 1 = log.length - n by omega]
    rw [if_pos (Nat.min_eq_left hfull), hcut]
  · have hall : log.length ≤ n := by omega
    rw [if_neg (by omega), rtake_of_length_le (by omega), rtake_of_length_le hall]

/-- A queue fed item by item is the end of the log. -/
theorem pushAll_rtake {capacity : Nat} (h : 0 < capacity) (log items : List A) :
    pushAll capacity (log.rtake capacity) items = (log ++ items).rtake capacity := by
  induction items generalizing log with
  | nil => rw [List.append_nil]; rfl
  | cons item items ih =>
    change pushAll capacity (push capacity (log.rtake capacity) item) items = _
    rw [push_rtake h, ih, List.append_assoc]
    rfl

/-! ## Rows with ids -/

/-- The rows in decreasing order of id. -/
def newestFirst (id : A → Nat) (rows : List A) : List A :=
  rows.insertionSort fun a b => id b ≤ id a

theorem newestFirst_eq_reverse {id : A → Nat} {rows : List A}
    (h : rows.Pairwise fun a b => id a < id b) : newestFirst id rows = rows.reverse := by
  have hsorted : rows.reverse.Pairwise fun a b => id b ≤ id a := by
    rw [List.pairwise_reverse]
    exact h.imp fun hlt => Nat.le_of_lt hlt
  have hperm : (newestFirst id rows).Perm rows.reverse :=
    (List.perm_insertionSort _ rows).trans (List.reverse_perm rows).symm
  refine hperm.eq_of_pairwise ?_ (List.pairwise_insertionSort _ rows) hsorted
  intro a b ha hb hba hab
  have ha' : a ∈ rows := (List.perm_insertionSort _ rows).mem_iff.mp ha
  have hb' : b ∈ rows := List.mem_reverse.mp hb
  have hnodup : (rows.map id).Nodup := List.pairwise_map.mpr (h.imp Nat.ne_of_lt)
  exact List.inj_on_of_nodup_map hnodup ha' hb' (Nat.le_antisymm hab hba)

/-- The newest rows up to a bound, turned around, are the last ones. -/
theorem reverse_take_newestFirst {id : A → Nat} {rows : List A}
    (h : rows.Pairwise fun a b => id a < id b) (n : Nat) :
    ((newestFirst id rows).take n).reverse = rows.rtake n := by
  rw [newestFirst_eq_reverse h, List.rtake_eq_reverse_take_reverse]

end PortsBox.Window
