import PortsBox.Lib.Chunks

/-!
# Datagrams in batches

`Endpoint::send` hands the socket several datagrams at once where it can, and one by one where
the socket rejects a batch. What it emits is always a prefix of the datagrams of the plain path,
and all of them as long as every single send succeeds.
-/

set_option autoImplicit false

namespace PortsBox

open Chunks

/-- How the sends on a socket end, by their number: the single ones, and whether the segmented
ones are accepted. -/
structure SocketAnswers where
  single : Nat → Except String Unit
  segmented : Nat → Bool

/-- What has gone out, and the sends of each kind made. -/
structure Outgoing where
  datagrams : List (List UInt8) := []
  singles : Nat := 0
  batches : Nat := 0
  deriving DecidableEq, Repr

namespace Endpoint
variable (answers : SocketAnswers)

def sendOne (out : Outgoing) (data : List UInt8) : Outgoing × Except String Unit :=
  match answers.single out.singles with
  | .ok () =>
    ({ out with datagrams := out.datagrams ++ [data], singles := out.singles + 1 }, .ok ())
  | .error e => ({ out with singles := out.singles + 1 }, .error e)

/-- The socket cuts an accepted batch every `stride` bytes; of a rejected one nothing is sent. -/
def sendSegmented (out : Outgoing) (contents : List UInt8) (stride : Nat) : Outgoing × Bool :=
  if answers.segmented out.batches then
    ({ out with
      datagrams := out.datagrams ++ chunks stride contents
      batches := out.batches + 1 }, true)
  else ({ out with batches := out.batches + 1 }, false)

/-- A loop that ends at the first error. -/
def sendEach (send : Outgoing → List UInt8 → Outgoing × Except String Unit) (out : Outgoing) :
    List (List UInt8) → Outgoing × Except String Unit
  | [] => (out, .ok ())
  | data :: rest =>
    match send out data with
    | (out, .ok ()) => sendEach send out rest
    | (out, .error e) => (out, .error e)

/-- One turn of the loop over the batches. -/
def sendChunk (stride : Nat) (out : Outgoing) (chunk : List UInt8) :
    Outgoing × Except String Unit :=
  if chunk.length ≤ stride then sendOne answers out chunk
  else
    match sendSegmented answers out chunk stride with
    | (out, true) => (out, .ok ())
    | (out, false) => sendEach (sendOne answers) out (chunks stride chunk)

def send (maxGsoSegments : Nat) (out : Outgoing) (data : List UInt8) (stride : Nat) :
    Outgoing × Except String Unit :=
  if stride = 0 ∨ data.length ≤ stride then sendOne answers out data
  else
    -- a few hundred segments of a datagram each, far from the bounds of `usize`
    let batch := stride * max maxGsoSegments 1
    sendEach (sendChunk answers stride) out (chunks batch data)

/-- The datagrams of the plain path. -/
def plain (data : List UInt8) (stride : Nat) : List (List UInt8) :=
  if stride = 0 ∨ data.length ≤ stride then [data] else chunks stride data

/-! ## What a send puts out -/

variable {answers} {send : Outgoing → List UInt8 → Outgoing × Except String Unit}

/-- Starting from `out`, the result has put out the first of the pieces, and all of them unless a
single send of it has failed. -/
structure Emits (answers : SocketAnswers) (out : Outgoing) (pieces : List (List UInt8))
    (result : Outgoing × Except String Unit) : Prop where
  some : ∃ sent, sent <+: pieces ∧ result.1.datagrams = out.datagrams ++ sent
  all : result.2 = .ok () → result.1.datagrams = out.datagrams ++ pieces
  failed : ∀ e, result.2 = .error e → ∃ k < result.1.singles, answers.single k = .error e

theorem emits_of_all {out : Outgoing} {pieces : List (List UInt8)} {result : Outgoing}
    (h : result.datagrams = out.datagrams ++ pieces) : Emits answers out pieces (result, .ok ()) :=
  ⟨⟨pieces, List.prefix_refl pieces, h⟩, fun _ => h, fun _ he => nomatch he⟩

theorem sendOne_emits (out : Outgoing) (data : List UInt8) :
    Emits answers out [data] (sendOne answers out data) := by
  unfold sendOne
  cases hanswer : answers.single out.singles with
  | ok => exact emits_of_all rfl
  | error e =>
    refine ⟨⟨[], List.nil_prefix, (List.append_nil _).symm⟩, fun hok => (nomatch hok), ?_⟩
    intro e' he'
    obtain rfl := Except.error.inj he'
    exact ⟨out.singles, Nat.lt_succ_self _, hanswer⟩

theorem sendEach_emits {pieces : List UInt8 → List (List UInt8)} {items : List (List UInt8)}
    (hsend : ∀ out, ∀ data ∈ items, Emits answers out (pieces data) (send out data))
    (out : Outgoing) :
    Emits answers out (items.flatMap pieces) (sendEach send out items) := by
  induction items generalizing out with
  | nil => exact emits_of_all (List.append_nil _).symm
  | cons data rest ih =>
    have hfirst := hsend out data List.mem_cons_self
    rw [sendEach, List.flatMap_cons]
    rcases hresult : send out data with ⟨middle, outcome⟩
    rw [hresult] at hfirst
    cases outcome with
    | ok =>
      have hmiddle : middle.datagrams = out.datagrams ++ pieces data := hfirst.all rfl
      have hrest := ih (fun out data hdata => hsend out data (List.mem_cons_of_mem _ hdata)) middle
      obtain ⟨sent, hprefix, hsent⟩ := hrest.some
      refine ⟨⟨pieces data ++ sent, ?_, ?_⟩, ?_, hrest.failed⟩
      · exact (List.prefix_append_right_inj _).mpr hprefix
      · rw [← List.append_assoc, ← hmiddle]
        exact hsent
      · intro hok
        rw [← List.append_assoc, ← hmiddle]
        exact hrest.all hok
    | error e =>
      obtain ⟨sent, hprefix, hsent⟩ := hfirst.some
      refine ⟨⟨sent, ?_, hsent⟩, fun hok => (nomatch hok), hfirst.failed⟩
      exact hprefix.trans (List.prefix_append _ _)

theorem sendChunk_emits {stride : Nat} (hstride : 0 < stride) (out : Outgoing)
    (chunk : List UInt8) (hchunk : chunk ≠ []) :
    Emits answers out (chunks stride chunk) (sendChunk answers stride out chunk) := by
  unfold sendChunk
  split
  · rename_i hshort
    rw [chunks_of_length_le hstride hchunk hshort]
    exact sendOne_emits out chunk
  · unfold sendSegmented
    cases answers.segmented out.batches with
    | true => exact emits_of_all rfl
    | false =>
      have heach := @sendEach_emits answers _ (fun data => [data]) (chunks stride chunk)
        (fun out data _ => sendOne_emits out data) { out with batches := out.batches + 1 }
      rw [List.flatMap_singleton'] at heach
      simp only [Bool.false_eq_true, if_false]
      exact ⟨heach.some, heach.all, heach.failed⟩

theorem send_emits (maxGsoSegments : Nat) (out : Outgoing) (data : List UInt8) (stride : Nat) :
    Emits answers out (plain data stride)
      (Endpoint.send answers maxGsoSegments out data stride) := by
  unfold Endpoint.send plain
  split
  · exact sendOne_emits out data
  · rename_i hlong
    have hstride : 0 < stride := by omega
    have hmax : 0 < max maxGsoSegments 1 := by omega
    have hbatch : 0 < stride * max maxGsoSegments 1 := Nat.mul_pos hstride hmax
    have hloop := @sendEach_emits answers _ (chunks stride)
      (chunks (stride * max maxGsoSegments 1) data)
      (fun out chunk hchunk => sendChunk_emits hstride out chunk
        (List.length_pos_iff.mp (length_of_mem_chunks hbatch data chunk hchunk).1)) out
    -- the batches end on the bounds of the datagrams
    rw [flatMap_chunks hstride hmax] at hloop
    exact hloop

/-! ## The plain path -/

theorem flatten_plain (data : List UInt8) (stride : Nat) : (plain data stride).flatten = data := by
  unfold plain
  split
  · rw [List.flatten_singleton]
  · exact flatten_chunks (by omega) data

/-- As long as the single sends of a call succeed, it emits the datagrams of the plain path,
whichever batches the socket rejects and however many segments it takes; they are the data cut
in order, all as long as the stride but the last. -/
theorem send_plain (answers : SocketAnswers) (maxGsoSegments : Nat) (data : List UInt8)
    (stride : Nat) :
    let (after, result) := Endpoint.send answers maxGsoSegments {} data stride
    (∀ k < after.singles, answers.single k = .ok ()) →
      result = .ok () ∧ after.datagrams = plain data stride ∧
        (plain data stride).flatten = data ∧
        (stride ≠ 0 → stride < data.length →
          (∀ piece ∈ (plain data stride).dropLast, piece.length = stride) ∧
            ∀ piece ∈ plain data stride, 0 < piece.length ∧ piece.length ≤ stride) := by
  have hemits := @send_emits answers maxGsoSegments {} data stride
  rcases hresult : Endpoint.send answers maxGsoSegments {} data stride with ⟨after, result⟩
  rw [hresult] at hemits
  intro hsingles
  have hok : result = .ok () := by
    cases result with
    | ok => rfl
    | error e =>
      obtain ⟨k, hk, herror⟩ := hemits.failed e rfl
      rw [hsingles k hk] at herror
      cases herror
  refine ⟨hok, hemits.all hok, flatten_plain data stride, ?_⟩
  intro hstride hlong
  have hpos : 0 < stride := Nat.pos_of_ne_zero hstride
  have hplain : plain data stride = chunks stride data := by
    rw [plain, if_neg]
    omega
  rw [hplain]
  exact ⟨length_of_mem_dropLast hpos data, length_of_mem_chunks hpos data⟩

/-- The first of two batches is rejected, the second is a short datagram. -/
theorem send_plain_rejected :
    (Endpoint.send ⟨fun _ => .ok (), fun _ => false⟩ 2 {} [0, 1, 2, 3, 4, 5, 6] 3).1.datagrams =
      [[0, 1, 2], [3, 4, 5], [6]] := by
  have hsent := send_plain ⟨fun _ => .ok (), fun _ => false⟩ 2 [0, 1, 2, 3, 4, 5, 6] 3
    (fun _ _ => rfl)
  exact hsent.2.1.trans (by decide +kernel)

end Endpoint

end PortsBox
