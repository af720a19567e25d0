import Mathlib

/-!
# Machine words as integers

A `w`-bit word is the natural number or integer it denotes. `wrap` and `swrap`
are what unsigned and signed arithmetic keep of a result, `clamp` and `sclamp`
what saturating arithmetic keeps. Each has a lemma that it changes nothing in
range, and a wrapping sum is the wrapped sum.
-/

set_option autoImplicit false

namespace PortsBox.Word

def wrap (w n : Nat) : Nat := n % 2 ^ w

def swrap (w : Nat) (x : Int) : Int := x.bmod (2 ^ w)

def clamp (w n : Nat) : Nat := min n (2 ^ w - 1)

def sclamp (w : Nat) (x : Int) : Int := max (-2 ^ (w - 1)) (min x (2 ^ (w - 1) - 1))

def sub (w a b : Nat) : Nat := wrap w (a + 2 ^ w - b)

def sum (w : Nat) (ns : List Nat) : Nat := ns.foldl (fun acc n => wrap w (acc + n)) 0

def ssum (w : Nat) (xs : List Int) : Int := xs.foldl (fun acc x => swrap w (acc + x)) 0

theorem wrap_of_lt {w n : Nat} (h : n < 2 ^ w) : wrap w n = n := Nat.mod_eq_of_lt h

theorem wrap_lt (w n : Nat) : wrap w n < 2 ^ w := Nat.mod_lt _ (Nat.two_pow_pos w)

theorem clamp_of_lt {w n : Nat} (h : n < 2 ^ w) : clamp w n = n := by
  unfold clamp
  omega

theorem clamp_pos {w n : Nat} (hw : 0 < w) : 0 < clamp w n ↔ 0 < n := by
  have h2 : 2 ^ 1 ≤ 2 ^ w := Nat.pow_le_pow_right (by decide) hw
  unfold clamp
  omega

theorem sub_of_le {w a b : Nat} (ha : a < 2 ^ w) (hb : b ≤ a) : sub w a b = a - b := by
  have hsplit : a + 2 ^ w - b = a - b + 2 ^ w := by omega
  rw [sub, wrap, hsplit, Nat.add_mod_right, Nat.mod_eq_of_lt (by omega)]

theorem swrap_of_bounds {w : Nat} {x : Int} (hw : 0 < w)
    (hlo : -2 ^ (w - 1) ≤ x) (hhi : x < 2 ^ (w - 1)) : swrap w x = x := by
  obtain ⟨v, rfl⟩ := Nat.exists_eq_succ_of_ne_zero (Nat.pos_iff_ne_zero.mp hw)
  simp only [Nat.succ_eq_add_one, Nat.add_sub_cancel] at hlo hhi
  have hpow : ((2 ^ (v + 1) : Nat) : Int) = 2 * 2 ^ v := by
    push_cast
    ring
  apply Int.bmod_eq_of_le <;> omega

theorem sclamp_of_bounds {w : Nat} {x : Int}
    (hlo : -2 ^ (w - 1) ≤ x) (hhi : x < 2 ^ (w - 1)) : sclamp w x = x := by
  unfold sclamp
  omega

@[simp] theorem swrap_add_swrap_left (w : Nat) (x y : Int) :
    swrap w (swrap w x + y) = swrap w (x + y) := Int.bmod_add_bmod

@[simp] theorem swrap_zero (w : Nat) : swrap w 0 = 0 := Int.zero_bmod

theorem foldl_wrap (w : Nat) (ns : List Nat) (acc : Nat) :
    wrap w (ns.foldl (fun acc n => wrap w (acc + n)) acc) = wrap w (acc + ns.sum) := by
  induction ns generalizing acc with
  | nil => simp
  | cons n ns ih =>
    rw [List.foldl_cons, ih, List.sum_cons, ← Nat.add_assoc]
    simp [wrap]

theorem sum_eq_wrap (w : Nat) (ns : List Nat) : sum w ns = wrap w ns.sum := by
  have hfix : ∀ (ns : List Nat) (acc : Nat), acc < 2 ^ w →
      ns.foldl (fun acc n => wrap w (acc + n)) acc < 2 ^ w := by
    intro ns
    induction ns with
    | nil => exact fun acc h => h
    | cons n ns ih => exact fun acc _ => ih _ (wrap_lt w _)
  have h := foldl_wrap w ns 0
  rw [wrap_of_lt (hfix ns 0 (Nat.two_pow_pos w)), Nat.zero_add] at h
  exact h

theorem sum_of_lt {w : Nat} {ns : List Nat} (h : ns.sum < 2 ^ w) : sum w ns = ns.sum := by
  rw [sum_eq_wrap, wrap_of_lt h]

theorem foldl_swrap (w : Nat) (xs : List Int) (acc : Int) :
    swrap w (xs.foldl (fun acc x => swrap w (acc + x)) acc) = swrap w (acc + xs.sum) := by
  induction xs generalizing acc with
  | nil => simp
  | cons x xs ih =>
    rw [List.foldl_cons, ih, List.sum_cons, ← Int.add_assoc, swrap_add_swrap_left]

theorem ssum_eq_swrap (w : Nat) (xs : List Int) : ssum w xs = swrap w xs.sum := by
  have hfix : ∀ (xs : List Int) (acc : Int), swrap w acc = acc →
      swrap w (xs.foldl (fun acc x => swrap w (acc + x)) acc) =
        xs.foldl (fun acc x => swrap w (acc + x)) acc := by
    intro xs
    induction xs with
    | nil => exact fun acc h => h
    | cons x xs ih => exact fun acc _ => ih _ (Int.bmod_bmod ..)
  have h := foldl_swrap w xs 0
  rw [hfix xs 0 (swrap_zero w), Int.zero_add] at h
  exact h

end PortsBox.Word
