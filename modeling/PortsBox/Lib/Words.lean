import Mathlib.Data.List.TakeWhile

/-!
# Words of a text

The pieces of a list between runs of separators, and a list without the blanks at its
ends. Words that are joined by separators come apart again.
-/

set_option autoImplicit false

namespace PortsBox.Words

universe u
variable {α : Type u} (p : α → Bool)

/-- The pieces between separators, without the empty ones. -/
def words (text : List α) : List (List α) := (text.splitOnP p).filter fun word => !word.isEmpty

/-- A piece that no separator cuts. -/
structure IsWord (word : List α) : Prop where
  nonempty : word ≠ []
  plain : ∀ c ∈ word, p c = false

/-- Without the blanks at both ends. -/
def strip (text : List α) : List α := ((text.dropWhile p).reverse.dropWhile p).reverse

variable {p}

theorem words_append_cons {c : α} (hc : p c = true) (front back : List α) :
    words p (front ++ c :: back) = words p front ++ words p back := by
  unfold words
  rw [List.splitOnP_append_cons front back hc, List.filter_append]

theorem words_nil : words p [] = [] := by
  unfold words
  rw [List.splitOnP_nil]
  rfl

theorem words_append_separators {separators : List α} (h : ∀ c ∈ separators, p c = true)
    (text : List α) : words p (separators ++ text) = words p text := by
  induction separators with
  | nil => rfl
  | cons c separators ih =>
    have hcons := words_append_cons (h c List.mem_cons_self) [] (separators ++ text)
    rw [words_nil, List.nil_append, List.nil_append] at hcons
    rw [List.cons_append, hcons]
    exact ih fun d hd => h d (List.mem_cons_of_mem c hd)

theorem IsWord.words {word : List α} (h : IsWord p word) : words p word = [word] := by
  unfold Words.words
  rw [List.splitOnP_eq_singleton h.plain]
  simp [h.nonempty]

/-- Joined words come apart again. -/
theorem words_intercalate {separators : List α} (hne : separators ≠ [])
    (hseparators : ∀ c ∈ separators, p c = true) {pieces : List (List α)}
    (hpieces : ∀ word ∈ pieces, IsWord p word) :
    words p (separators.intercalate pieces) = pieces := by
  obtain ⟨c, rest, rfl⟩ := List.exists_cons_of_ne_nil hne
  induction pieces with
  | nil => exact words_nil
  | cons word pieces ih =>
    have hword := hpieces word List.mem_cons_self
    have htail := ih fun other hother => hpieces other (List.mem_cons_of_mem word hother)
    cases pieces with
    | nil =>
      rw [List.intercalate_singleton]
      exact hword.words
    | cons other pieces =>
      rw [List.intercalate_cons_cons, List.append_assoc, List.cons_append,
        words_append_cons (hseparators c List.mem_cons_self), hword.words,
        words_append_separators fun d hd => hseparators d (List.mem_cons_of_mem c hd), htail]
      rfl

theorem dropWhile_eq_self {text : List α} (h : ∀ c, text.head? = some c → p c = false) :
    text.dropWhile p = text := by
  cases text with
  | nil => rfl
  | cons c rest => rw [List.dropWhile_cons, if_neg (by simp [h c rfl])]

theorem strip_eq_self {text : List α} (hhead : ∀ c, text.head? = some c → p c = false)
    (hlast : ∀ c, text.getLast? = some c → p c = false) : strip p text = text := by
  unfold strip
  rw [dropWhile_eq_self hhead, dropWhile_eq_self, List.reverse_reverse]
  intro c hc
  rw [List.head?_reverse] at hc
  exact hlast c hc

/-- A text without blanks has none at its ends. -/
theorem strip_of_plain {text : List α} (h : ∀ c ∈ text, p c = false) : strip p text = text :=
  strip_eq_self (fun c hc => h c (List.mem_of_mem_head? hc))
    fun c hc => h c (List.mem_of_mem_getLast? hc)

/-- What is no blank is not stripped. -/
theorem strip_ne_nil {text : List α} {c : α} (hc : c ∈ text) (hp : p c = false) :
    strip p text ≠ [] := by
  intro h
  have hrest : ∀ d ∈ text.dropWhile p, p d = true := by
    intro d hd
    exact List.dropWhile_eq_nil_iff.mp (List.reverse_eq_nil_iff.mp h) d (List.mem_reverse.mpr hd)
  rw [← @List.takeWhile_append_dropWhile _ p text] at hc
  rcases List.mem_append.mp hc with hfront | hback
  · rw [List.mem_takeWhile_imp hfront] at hp
    cases hp
  · rw [hrest c hback] at hp
    cases hp

end PortsBox.Words
