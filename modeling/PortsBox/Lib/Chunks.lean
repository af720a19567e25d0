import Mathlib

/-!
# Chunks of a list

The consecutive pieces of a given length, the last of which may be shorter. Pieces of a
multiple of the length are cut by it without a seam.
-/

set_option autoImplicit false

namespace PortsBox.Chunks

universe u
variable {α : Type u}

/-- `slice::chunks`, which asks for a positive length. -/
def chunks (n : Nat) (l : List α) : List (List α) :=
  match l with
  | [] => []
  | x :: rest => (x :: rest.take (n - 1)) :: chunks n (rest.drop (n - 1))
termination_by l.length

@[simp] theorem chunks_nil (n : Nat) : chunks n ([] : List α) = [] := by rw [chunks]

variable {n : Nat} {l : List α}

theorem chunks_of_ne_nil (hn : 0 < n) (hl : l ≠ []) :
    chunks n l = l.take n :: chunks n (l.drop n) := by
  cases l with
  | nil => exact absurd rfl hl
  | cons x rest =>
    obtain ⟨k, rfl⟩ := Nat.exists_eq_succ_of_ne_zero hn.ne'
    rw [chunks]
    rfl

theorem chunks_of_length_le (hn : 0 < n) (hl : l ≠ []) (hle : l.length ≤ n) : chunks n l = [l] := by
  rw [chunks_of_ne_nil hn hl, List.take_of_length_le hle, List.drop_of_length_le hle, chunks_nil]

/-- An induction on what is left after the first piece. -/
theorem chunks_induction {P : List α → Prop} (hn : 0 < n) (nil : P [])
    (drop : ∀ l, l ≠ [] → P (l.drop n) → P l) (l : List α) : P l := by
  induction hlen : l.length using Nat.strong_induction_on generalizing l with
  | _ length ih =>
    by_cases hl : l = []
    · exact hl ▸ nil
    · have hpos := List.length_pos_iff.mpr hl
      have hshort : (l.drop n).length < length := by
        rw [List.length_drop]
        omega
      exact drop l hl (ih _ hshort (l.drop n) rfl)

theorem flatten_chunks (hn : 0 < n) (l : List α) : (chunks n l).flatten = l := by
  induction l using chunks_induction hn with
  | nil => rw [chunks_nil, List.flatten_nil]
  | drop l hl ih => rw [chunks_of_ne_nil hn hl, List.flatten_cons, ih, List.take_append_drop]

/-- No piece is empty or too long. -/
theorem length_of_mem_chunks (hn : 0 < n) (l : List α) :
    ∀ piece ∈ chunks n l, 0 < piece.length ∧ piece.length ≤ n := by
  induction l using chunks_induction hn with
  | nil => simp
  | drop l hl ih =>
    intro piece hpiece
    rw [chunks_of_ne_nil hn hl] at hpiece
    rcases List.mem_cons.mp hpiece with rfl | hrest
    · have hpos := List.length_pos_iff.mpr hl
      rw [List.length_take]
      omega
    · exact ih piece hrest

/-- Only the last piece may be short. -/
theorem length_of_mem_dropLast (hn : 0 < n) (l : List α) :
    ∀ piece ∈ (chunks n l).dropLast, piece.length = n := by
  induction l using chunks_induction hn with
  | nil => simp
  | drop l hl ih =>
    intro piece hpiece
    rw [chunks_of_ne_nil hn hl] at hpiece
    by_cases hrest : l.drop n = []
    · rw [hrest, chunks_nil] at hpiece
      cases hpiece
    · have hmore : chunks n (l.drop n) ≠ [] := by
        rw [chunks_of_ne_nil hn hrest]
        exact List.cons_ne_nil _ _
      rw [List.dropLast_cons_of_ne_nil hmore] at hpiece
      rcases List.mem_cons.mp hpiece with rfl | hlater
      · have hlong : ¬ l.length ≤ n := fun hle => hrest (List.drop_of_length_le hle)
        rw [List.length_take]
        omega
      · exact ih piece hlater

/-- After whole pieces the cut goes on as from the start. -/
theorem chunks_append (hn : 0 < n) {front : List α} (hfront : n ∣ front.length) (back : List α) :
    chunks n (front ++ back) = chunks n front ++ chunks n back := by
  induction front using chunks_induction hn with
  | nil => rw [chunks_nil, List.nil_append, List.nil_append]
  | drop front hne ih =>
    have hpos := List.length_pos_iff.mpr hne
    have hle : n ≤ front.length := Nat.le_of_dvd hpos hfront
    have hdvd : n ∣ (front.drop n).length := by
      rw [List.length_drop]
      exact Nat.dvd_sub hfront (dvd_refl n)
    have happend : front ++ back ≠ [] := List.append_ne_nil_of_left_ne_nil hne back
    rw [chunks_of_ne_nil hn happend, chunks_of_ne_nil hn hne, List.take_append_of_le_length hle,
      List.drop_append_of_le_length hle, ih hdvd, List.cons_append]

/-- Cutting by a multiple first makes no difference. -/
theorem flatMap_chunks (hn : 0 < n) {m : Nat} (hm : 0 < m) (l : List α) :
    (chunks (n * m) l).flatMap (chunks n) = chunks n l := by
  have hnm : 0 < n * m := Nat.mul_pos hn hm
  induction l using chunks_induction hnm with
  | nil => simp
  | drop l hl ih =>
    rw [chunks_of_ne_nil hnm hl, List.flatMap_cons, ih]
    by_cases hle : l.length ≤ n * m
    · rw [List.take_of_length_le hle, List.drop_of_length_le hle, chunks_nil, List.append_nil]
    · have hwhole : n ∣ (l.take (n * m)).length := by
        rw [List.length_take, Nat.min_eq_left (Nat.le_of_not_le hle)]
        exact Nat.dvd_mul_right n m
      rw [← chunks_append hn hwhole, List.take_append_drop]

end PortsBox.Chunks
