import PortsBox.ConfigCore
import PortsBox.Lib.Rounding

/-!
# Byte sizes in JSON

`ByteSize` is written as a whole number of the largest unit that divides it and
read back through `parse_size`, which computes in `f64`. Sizes below 2 ^ 53 come
back as they were.
-/

set_option autoImplicit false

namespace PortsBox

/-- The JSON values the visitor of `ByteSize` takes. -/
inductive SizeJson where
  | unsigned (n : Nat)
  | signed (n : Int)
  | text (s : String)
  deriving DecidableEq, Repr

inductive SizeError where
  | negative
  | invalid (s : List Char)
  | unknownUnit (unit s : List Char)
  | outOfRange (s : List Char)
  deriving DecidableEq, Repr

/-- `str::parse::<f64>` of digits and dots, before it is rounded. -/
def parseDecimal (num : List Char) : Option ℚ :=
  let (whole, rest) := num.span Char.isDigit
  match rest with
  | [] => if whole.isEmpty then none else some (Nat.ofDigitChars 10 whole 0)
  | _ :: fraction =>
    if !fraction.all Char.isDigit || (whole.isEmpty && fraction.isEmpty) then none
    else some (Nat.ofDigitChars 10 (whole ++ fraction) 0 / 10 ^ fraction.length)

def unitOf (unit : List Char) : Option Nat :=
  if unit ∈ ["", "B"].map String.toList then some 1
  else if unit ∈ ["K", "KB", "KIB"].map String.toList then some (2 ^ 10)
  else if unit ∈ ["M", "MB", "MIB"].map String.toList then some (2 ^ 20)
  else if unit ∈ ["G", "GB", "GIB"].map String.toList then some (2 ^ 30)
  else if unit ∈ ["T", "TB", "TIB"].map String.toList then some (2 ^ 40)
  else none

/-- The significant bits of an `f64`. Sizes are far from its least and largest exponents: what is
over the largest is out of range here as well, what is under the least is no whole byte. -/
def f64Bits : Nat := 53

def parseSize (s : String) : Except SizeError Nat :=
  let text := trim s.toList
  let (num, unit) := text.span fun c => c.isDigit || c = '.'
  match parseDecimal num with
  | none => .error (.invalid text)
  | some num =>
    let unit := (trim unit).map Char.toUpper
    match unitOf unit with
    | none => .error (.unknownUnit unit text)
    | some mult =>
      let bytes := Rounding.roundBits f64Bits (Rounding.roundBits f64Bits num * mult)
      -- `u64::MAX as f64` is 2 ^ 64, and `as u64` saturates
      if 2 ^ 64 < bytes then .error (.outOfRange text)
      else .ok (min ⌊bytes⌋.toNat (2 ^ 64 - 1))

def deserializeSize : SizeJson → Except SizeError Nat
  | .unsigned n => .ok n
  | .signed n => if n < 0 then .error .negative else .ok n.toNat
  | .text s => parseSize s

def sizeUnits : List (Nat × String) :=
  [(2 ^ 40, "TB"), (2 ^ 30, "GB"), (2 ^ 20, "MB"), (2 ^ 10, "KB")]

def serializeSize (n : Nat) : SizeJson :=
  match sizeUnits.find? fun unit => n ≠ 0 ∧ n % unit.1 = 0 with
  | some (size, unit) => .text (Nat.repr (n / size) ++ unit)
  | none => .unsigned n

/-! ## Round trip -/

theorem isWhitespace_of_isDigit {c : Char} (h : c.isDigit = true) : isWhitespace c = false := by
  simp only [Char.isDigit, Bool.and_eq_true, decide_eq_true_eq, ge_iff_le,
    UInt32.le_iff_toNat_le] at h
  have hlow : 48 ≤ c.toNat := h.1
  have hhigh : c.toNat ≤ 57 := h.2
  simp only [isWhitespace, Bool.or_eq_false_iff, Bool.and_eq_false_iff, decide_eq_false_iff_not]
  omega

theorem trim_eq_self {first last : Char} {rest : List Char}
    (hfirst : isWhitespace first = false) (hlast : isWhitespace last = false) :
    trim (first :: (rest ++ [last])) = first :: (rest ++ [last]) := by
  rw [trim, List.dropWhile_cons_of_neg (by simpa using hfirst)]
  rw [← List.cons_append, List.reverse_append, List.reverse_singleton, List.singleton_append,
    List.dropWhile_cons_of_neg (by simpa using hlast)]
  simp

theorem parseDecimal_toDigits (q : Nat) : parseDecimal (Nat.toDigits 10 q) = some (q : ℚ) := by
  have hdigits : ∀ c ∈ Nat.toDigits 10 q, c.isDigit = true := fun c hc =>
    Nat.isDigit_of_mem_toDigits (by decide) (by decide) hc
  unfold parseDecimal
  rw [List.span_eq_takeWhile_dropWhile, List.takeWhile_eq_self_iff.mpr hdigits,
    List.dropWhile_eq_nil_iff.mpr hdigits]
  dsimp only
  rw [if_neg (by simp [Nat.toDigits_ne_nil]), Nat.ofDigitChars_ten_toDigits]

/-- A unit as it is written: a letter and a `B`, a power of two. -/
theorem sizeUnits_spec {size : Nat} {unit : String} (h : (size, unit) ∈ sizeUnits) :
    ∃ letter k, unit.toList = [letter, 'B'] ∧ size = 2 ^ k ∧ unitOf [letter, 'B'] = some size ∧
      letter.toUpper = letter ∧ letter.isDigit = false ∧ letter ≠ '.' ∧
      isWhitespace letter = false := by
  simp only [sizeUnits, List.mem_cons, Prod.mk.injEq, List.not_mem_nil, or_false] at h
  rcases h with ⟨rfl, rfl⟩ | ⟨rfl, rfl⟩ | ⟨rfl, rfl⟩ | ⟨rfl, rfl⟩
  · exact ⟨'T', 40, by decide⟩
  · exact ⟨'G', 30, by decide⟩
  · exact ⟨'M', 20, by decide⟩
  · exact ⟨'K', 10, by decide⟩

/-- A whole number and a unit, as `ByteSize` writes them. -/
theorem parseSize_repr {q size : Nat} {unit : String} (hunit : (size, unit) ∈ sizeUnits)
    (hlt : q * size < 2 ^ 53) : parseSize (Nat.repr q ++ unit) = .ok (q * size) := by
  obtain ⟨letter, k, hletters, rfl, hunitOf, hupper, hdigit, hdot, hspace⟩ := sizeUnits_spec hunit
  have hdigits : ∀ c ∈ Nat.toDigits 10 q, c.isDigit = true := fun c hc =>
    Nat.isDigit_of_mem_toDigits (by decide) (by decide) hc
  obtain ⟨first, digits, hfirst⟩ := List.exists_cons_of_ne_nil (Nat.toDigits_ne_nil (n := q) (b := 10))
  have htext : (Nat.repr q ++ unit).toList = first :: ((digits ++ [letter]) ++ ['B']) := by
    rw [String.toList_append, Nat.toList_repr, hletters, hfirst]
    simp
  have htrim : trim (Nat.repr q ++ unit).toList = Nat.toDigits 10 q ++ [letter, 'B'] := by
    rw [htext, trim_eq_self (isWhitespace_of_isDigit (hdigits _ (hfirst ▸ List.mem_cons_self)))
      (by decide), hfirst]
    simp
  have hspan : (Nat.toDigits 10 q ++ [letter, 'B']).span (fun c => c.isDigit || c = '.') =
      (Nat.toDigits 10 q, [letter, 'B']) := by
    have hnum : ∀ c ∈ Nat.toDigits 10 q, (c.isDigit || decide (c = '.')) = true := fun c hc => by
      rw [hdigits c hc, Bool.true_or]
    rw [List.span_eq_takeWhile_dropWhile, List.takeWhile_append_of_pos hnum,
      List.dropWhile_append_of_pos hnum]
    simp [hdigit, hdot]
  have hq : q < 2 ^ 53 :=
    (Nat.le_mul_of_pos_right q (Nat.two_pow_pos k)).trans_lt hlt
  -- the number is exact, and so is its product with a power of two
  have hbytes : Rounding.roundBits f64Bits (Rounding.roundBits f64Bits q * ((2 ^ k : Nat) : ℚ)) =
      ((q * 2 ^ k : Nat) : ℚ) := by
    have hproduct := Rounding.roundBits_of_lt hq k
    rw [zpow_natCast] at hproduct
    rw [f64Bits, Rounding.roundBits_natCast hq]
    push_cast
    exact hproduct
  unfold parseSize
  rw [htrim]
  dsimp only
  rw [hspan]
  dsimp only
  rw [parseDecimal_toDigits]
  dsimp only
  rw [show trim [letter, 'B'] = [letter, 'B'] from
    @trim_eq_self letter 'B' [] hspace (by decide)]
  rw [List.map_cons, hupper, List.map_singleton, show 'B'.toUpper = 'B' from rfl, hunitOf]
  dsimp only
  rw [hbytes, if_neg, Int.floor_natCast, Int.toNat_natCast, min_eq_left]
  · omega
  · rw [not_lt]
    exact_mod_cast (hlt.trans (by decide)).le

theorem deserialize_serialize {n : Nat} (h : n < 2 ^ 53) :
    deserializeSize (serializeSize n) = .ok n := by
  unfold serializeSize
  cases hfind : sizeUnits.find? fun unit => n ≠ 0 ∧ n % unit.1 = 0 with
  | none => rfl
  | some unit =>
    rcases unit with ⟨size, unit⟩
    have hfound := List.find?_some hfind
    obtain ⟨_, hdvd⟩ := of_decide_eq_true hfound
    have hq : n / size * size = n := Nat.div_mul_cancel (Nat.dvd_of_mod_eq_zero hdvd)
    have hparse := parseSize_repr (List.mem_of_find?_eq_some hfind) (hq ▸ h)
    exact hparse.trans (congrArg Except.ok hq)

end PortsBox
