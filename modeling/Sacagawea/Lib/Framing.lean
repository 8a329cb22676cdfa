import Mathlib.Data.List.Basic

/-!
# Length-prefixed records

Records in a stream of symbols, each behind a header of fixed width that encodes its length. A
reader takes a header, and as many symbols as it says. The stream of whole records is read back, and
a record that is not whole yet is left.
-/

/-- How lengths are written in a header. -/
structure Header (β : Type*) where
  width : Nat
  width_pos : 0 < width
  encode : Nat → List β
  decode : List β → Option Nat
  bound : Nat
  length_encode : ∀ n, (encode n).length = width
  decode_encode : ∀ {n}, n < bound → decode (encode n) = some n

namespace Header

variable {β : Type*} (H : Header β)

def frame (record : List β) : List β := H.encode record.length ++ record

/-- Read records off a stream, `fuel` of them at most, and stop at one that is not whole. -/
def unframeAux : (fuel : Nat) → List β → List (List β)
  | 0, _ => []
  | fuel + 1, stream =>
    if stream.length < H.width then []
    else match H.decode (stream.take H.width) with
      | none => []
      | some n =>
        let body := stream.drop H.width
        if body.length < n then [] else body.take n :: unframeAux fuel (body.drop n)

/-- The whole records at the front of a stream. -/
def unframe (stream : List β) : List (List β) := H.unframeAux stream.length stream

variable {H}

/-- Each record takes a symbol at least, so the length of the stream is fuel enough. -/
theorem unframeAux_eq {fuel : Nat} {stream : List β} (h : stream.length ≤ fuel) :
    H.unframeAux fuel stream = H.unframe stream := by
  suffices hmono : ∀ (fuel fuel' : Nat) (stream : List β), stream.length ≤ fuel →
      stream.length ≤ fuel' → H.unframeAux fuel stream = H.unframeAux fuel' stream from
    hmono _ _ _ h (Nat.le_refl _)
  intro fuel
  induction fuel with
  | zero =>
    intro fuel' stream h h'
    have hwidth := H.width_pos
    cases fuel' with
    | zero => rfl
    | succ fuel' => rw [unframeAux, unframeAux, if_pos (by omega)]
  | succ fuel ih =>
    intro fuel' stream h h'
    have hwidth := H.width_pos
    cases fuel' with
    | zero => rw [unframeAux, unframeAux, if_pos (by omega)]
    | succ fuel' =>
      rw [unframeAux, unframeAux]
      split
      · rfl
      · split
        · rfl
        · dsimp only
          split
          · rfl
          · rw [ih fuel'] <;> (simp only [List.length_drop]; omega)

theorem unframe_frame_append {record : List β} (h : record.length < H.bound) (rest : List β) :
    H.unframe (H.frame record ++ rest) = record :: H.unframe rest := by
  have hwidth := H.width_pos
  have hheader := H.length_encode record.length
  have hlen : (H.frame record ++ rest).length = H.width + record.length + rest.length := by
    rw [frame, List.length_append, List.length_append, hheader]
  obtain ⟨fuel, hfuel⟩ : ∃ fuel, (H.frame record ++ rest).length = fuel + 1 :=
    ⟨(H.frame record ++ rest).length - 1, by omega⟩
  have htake : (H.frame record ++ rest).take H.width = H.encode record.length := by
    rw [frame, List.append_assoc, List.take_left' hheader]
  have hdrop : (H.frame record ++ rest).drop H.width = record ++ rest := by
    rw [frame, List.append_assoc, List.drop_left' hheader]
  rw [unframe, hfuel, unframeAux, if_neg (by omega), htake, H.decode_encode h]
  simp only [hdrop, List.take_left, List.drop_left]
  rw [if_neg (by rw [List.length_append]; omega), unframeAux_eq (by omega)]

/-- A stream of whole records is read up to what stands behind them. -/
theorem unframe_frames_append {records : List (List β)} (h : ∀ r ∈ records, r.length < H.bound)
    (rest : List β) :
    H.unframe (records.flatMap H.frame ++ rest) = records ++ H.unframe rest := by
  induction records with
  | nil => rfl
  | cons record records ih =>
    rw [List.flatMap_cons, List.append_assoc,
      unframe_frame_append (h record List.mem_cons_self), ih fun r hr => h r (List.mem_cons_of_mem _ hr)]
    rfl

theorem unframe_nil : H.unframe [] = [] := rfl

/-- A header alone is no record, when it announces one that is not empty. -/
theorem unframe_encode {n : Nat} (hpos : 0 < n) (h : n < H.bound) : H.unframe (H.encode n) = [] := by
  have hwidth := H.width_pos
  have hheader := H.length_encode n
  obtain ⟨fuel, hfuel⟩ : ∃ fuel, (H.encode n).length = fuel + 1 :=
    ⟨(H.encode n).length - 1, by omega⟩
  rw [unframe, hfuel, unframeAux, if_neg (by omega), List.take_of_length_le (by omega),
    H.decode_encode h]
  simp only
  rw [if_pos (by rw [List.length_drop]; omega)]

/-- No header brings symbols of a record. -/
theorem flatten_unframe_encode {n : Nat} (h : n < H.bound) : (H.unframe (H.encode n)).flatten = [] := by
  rcases Nat.eq_zero_or_pos n with rfl | hpos
  · have hframe : H.encode 0 = H.frame [] ++ [] := by simp [frame]
    have hbound : ([] : List β).length < H.bound := h
    rw [hframe, unframe_frame_append hbound, unframe_nil]
    rfl
  · rw [unframe_encode hpos h]
    rfl

end Header
