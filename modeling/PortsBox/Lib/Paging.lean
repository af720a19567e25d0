import Mathlib

/-!
# Reading a listing page by page

A server gives each token a page or an error, and a page that is not the last names the token of
the next one. Reading for a number of rounds gives the pages of the chain from the first token to
a last page, if there is one that short, and such a chain never comes back to a token.
-/

set_option autoImplicit false

namespace PortsBox.Paging

universe u v w
variable {T : Type u} {P : Type v} {ε : Type w}
variable (fetch : T → Except ε P) (last : T → P → Bool) (next : P → T)

/-- The pages from a token to a last page. -/
inductive Chain : T → List P → Prop where
  | last {t : T} {p : P} : fetch t = .ok p → last t p = true → Chain t [p]
  | next {t : T} {p : P} {pages : List P} : fetch t = .ok p → last t p = false →
      Chain (next p) pages → Chain t (p :: pages)

/-- The tokens the pages of a chain answer. -/
def tokens (t : T) : List P → List T
  | [] => []
  | p :: pages => t :: tokens (next p) pages

/-- What reading comes to: the pages, or the error met or none at the end of the rounds; and the
tokens asked for. -/
structure Reading (T : Type u) (P : Type v) (ε : Type w) where
  result : Except (Option ε) (List P)
  asked : List T

def read : Nat → T → Reading T P ε
  | 0, _ => ⟨.error none, []⟩
  | rounds + 1, t =>
    match fetch t with
    | .error e => ⟨.error (some e), [t]⟩
    | .ok p =>
      if last t p then ⟨.ok [p], [t]⟩
      else
        let rest := read rounds (next p)
        ⟨rest.result.map (p :: ·), t :: rest.asked⟩

variable {fetch last next} {t : T} {pages more : List P}

/-- There is one chain from a token at most. -/
theorem Chain.unique (h : Chain fetch last next t pages) (hmore : Chain fetch last next t more) :
    pages = more := by
  induction h generalizing more with
  | @last t p hfetch hlast =>
    cases hmore with
    | last hfetch' _ => rw [Except.ok.inj (hfetch.symm.trans hfetch')]
    | next hfetch' hnot _ =>
      obtain rfl := Except.ok.inj (hfetch.symm.trans hfetch')
      rw [hlast] at hnot
      cases hnot
  | @next t p pages hfetch hnot _ ih =>
    cases hmore with
    | last hfetch' hlast =>
      obtain rfl := Except.ok.inj (hfetch.symm.trans hfetch')
      rw [hlast] at hnot
      cases hnot
    | next hfetch' _ hrest =>
      obtain rfl := Except.ok.inj (hfetch.symm.trans hfetch')
      rw [ih hrest]

/-- Each token of a chain starts a chain of the pages from there. -/
theorem Chain.suffix (h : Chain fetch last next t pages) {s : T} (hs : s ∈ tokens next t pages) :
    ∃ rest, rest <:+ pages ∧ Chain fetch last next s rest := by
  induction h with
  | @last t p hfetch hlast =>
    obtain rfl : s = t := List.mem_singleton.mp hs
    exact ⟨[p], List.suffix_refl _, .last hfetch hlast⟩
  | @next t p pages hfetch hnot hrest ih =>
    rcases List.mem_cons.mp hs with rfl | hlater
    · exact ⟨p :: pages, List.suffix_refl _, .next hfetch hnot hrest⟩
    · obtain ⟨rest, hsuffix, hchain⟩ := ih hlater
      exact ⟨rest, hsuffix.trans (List.suffix_cons p pages), hchain⟩

/-- A token that comes twice would make the chain a part of itself. -/
theorem Chain.nodup (h : Chain fetch last next t pages) : (tokens next t pages).Nodup := by
  induction h with
  | @last t p hfetch hlast => exact List.nodup_singleton t
  | @next t p pages hfetch hnot hrest ih =>
    refine List.nodup_cons.mpr ⟨?_, ih⟩
    intro hback
    obtain ⟨rest, hsuffix, hchain⟩ := hrest.suffix hback
    have hsame := hchain.unique (.next hfetch hnot hrest)
    have hle := hsuffix.length_le
    rw [hsame, List.length_cons] at hle
    omega

/-- Reading follows a chain to its end, given the rounds. -/
theorem Chain.followed (h : Chain fetch last next t pages) {rounds : Nat}
    (hle : pages.length ≤ rounds) :
    read fetch last next rounds t = ⟨.ok pages, tokens next t pages⟩ := by
  induction h generalizing rounds with
  | @last t p hfetch hlast =>
    cases rounds with
    | zero => cases hle
    | succ rounds =>
      rw [read, hfetch]
      dsimp only
      rw [hlast, if_pos rfl]
      rfl
  | @next t p pages hfetch hnot _ ih =>
    cases rounds with
    | zero => cases hle
    | succ rounds =>
      rw [read, hfetch]
      dsimp only
      rw [hnot, if_neg Bool.false_ne_true, ih (Nat.le_of_succ_le_succ hle)]
      rfl

/-- A reading that succeeds has come to the end of a chain. -/
theorem chain_of_read {rounds : Nat} (h : (read fetch last next rounds t).result = .ok pages) :
    Chain fetch last next t pages ∧ pages.length ≤ rounds := by
  induction rounds generalizing t pages with
  | zero => cases h
  | succ rounds ih =>
    rw [read] at h
    cases hfetch : fetch t with
    | error e =>
      rw [hfetch] at h
      cases h
    | ok p =>
      rw [hfetch] at h
      dsimp only at h
      cases hlast : last t p with
      | true =>
        rw [hlast, if_pos rfl] at h
        obtain rfl := Except.ok.inj h
        exact ⟨.last hfetch hlast, Nat.succ_le_succ (Nat.zero_le _)⟩
      | false =>
        rw [hlast, if_neg Bool.false_ne_true] at h
        dsimp only at h
        cases hrest : (read fetch last next rounds (next p)).result with
        | error e =>
          rw [hrest] at h
          cases h
        | ok rest =>
          rw [hrest] at h
          obtain rfl := Except.ok.inj h
          obtain ⟨hchain, hle⟩ := ih hrest
          exact ⟨.next hfetch hlast hchain, Nat.succ_le_succ hle⟩

theorem read_ok_iff {rounds : Nat} : (read fetch last next rounds t).result = .ok pages ↔
    Chain fetch last next t pages ∧ pages.length ≤ rounds := by
  constructor
  · exact chain_of_read
  · rintro ⟨hchain, hle⟩
    rw [hchain.followed hle]

theorem asked_length_le (rounds : Nat) (t : T) :
    (read fetch last next rounds t).asked.length ≤ rounds := by
  induction rounds generalizing t with
  | zero => exact le_rfl
  | succ rounds ih =>
    rw [read]
    split
    · exact Nat.succ_le_succ (Nat.zero_le _)
    · split
      · exact Nat.succ_le_succ (Nat.zero_le _)
      · exact Nat.succ_le_succ (ih _)

/-- A reading that succeeds has asked for the tokens of the chain. -/
theorem asked_of_ok {rounds : Nat} (h : (read fetch last next rounds t).result = .ok pages) :
    (read fetch last next rounds t).asked = tokens next t pages := by
  obtain ⟨hchain, hle⟩ := chain_of_read h
  rw [hchain.followed hle]

/-- Every token asked for by a reading that succeeds has a page of the result. -/
theorem Chain.fetched (h : Chain fetch last next t pages) {s : T}
    (hs : s ∈ tokens next t pages) : ∃ p ∈ pages, fetch s = .ok p := by
  obtain ⟨rest, hsuffix, hchain⟩ := h.suffix hs
  cases hchain with
  | @last _ p hfetch _ => exact ⟨p, hsuffix.subset List.mem_cons_self, hfetch⟩
  | @next _ p _ hfetch _ _ => exact ⟨p, hsuffix.subset List.mem_cons_self, hfetch⟩

end PortsBox.Paging
