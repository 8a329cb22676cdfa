import Mathlib.Data.Nat.Find
import Sacagawea.Base.Bytes

/-!
# Receiving a request

`read_request` of children.c reads from a non-blocking socket until it has seen CR LF, and keeps the
bytes before it. The bytes arrive in pieces of the client's and the kernel's choosing, so the loop
carries two cursors, `total_recv` and `read_bytes`, from one `recv` to the next.

A run is driven by the list of what the calls of `recv` gave; a list that ends before the function
returns leaves it waiting for the next call. The result is a function of the bytes delivered alone:
`readLoop_of_firstCrlf` when they contain CR LF, `readLoop_of_no_crlf` when they do not.
-/

namespace Sacagawea

/-- What one call of `recv` gives: some bytes, `EWOULDBLOCK`, the end of the stream, or another
error. -/
inductive Recv where
  | data (first : Byte) (more : List Byte)
  | wouldBlock
  | closed
  | failed
  deriving DecidableEq, Repr

/-! ### The code -/

/-- `recv(sd, &buf[at], ...)` with `piece` received. -/
def store (buf : List Byte) (at_ : Nat) (piece : List Byte) : List Byte :=
  buf.take at_ ++ piece ++ buf.drop (at_ + piece.length)

/-- The `for` over the new bytes, with the number of them still to look at. It returns `read_bytes`
and `keep_going`. -/
def scan (buf : List Byte) : (left readBytes : Nat) → Nat × Bool
  | 0, readBytes => (readBytes, true)
  | left + 1, readBytes =>
    if 0 < readBytes ∧ buf[readBytes - 1]? = some CR ∧ buf[readBytes]? = some LF then (readBytes, false)
    else scan buf left (readBytes + 1)

/-- The `while (keep_going)`. The result is the return value and what is left in `buf`, after the
`realloc` to `read_bytes`. -/
def readLoop (buflen : Nat) (buf : List Byte) (totalRecv readBytes : Nat) (outcomes : List Recv) :
    Option (Int × List Byte) :=
  if buflen ≤ readBytes then some (-1, buf)
  else match outcomes with
    | [] => none
    | .wouldBlock :: rest => readLoop buflen buf totalRecv readBytes rest
    | .closed :: _ => some (-1, buf)
    | .failed :: _ => some (-1, buf)
    | .data first more :: rest =>
      let piece := first :: more
      let buf := store buf readBytes piece
      let totalRecv := totalRecv + piece.length
      match scan buf (totalRecv - readBytes) readBytes with
      | (readBytes, false) => some (readBytes, (buf.set (readBytes - 1) NUL).take readBytes)
      | (readBytes, true) => readLoop buflen buf totalRecv readBytes rest

def readRequest (buf : List Byte) (buflen : Nat) (outcomes : List Recv) : Option (Int × List Byte) :=
  readLoop buflen buf 0 0 outcomes

/-! ### What the environment may do -/

def delivered : List Recv → List Byte
  | [] => []
  | .data first more :: rest => first :: more ++ delivered rest
  | _ :: rest => delivered rest

/-- The outcomes the calls of `recv` can have on a stream when `room` bytes of the buffer are free:
each piece is as long as the room left at most, and nothing follows the end or an error. -/
inductive Schedule : (room : Nat) → (stream : List Byte) → List Recv → Prop
  | waiting {room stream} : Schedule room stream []
  | wouldBlock {room stream rest} : Schedule room stream rest →
      Schedule room stream (.wouldBlock :: rest)
  | data {room first more stream rest} : (first :: more).length ≤ room →
      Schedule (room - (first :: more).length) stream rest →
      Schedule room (first :: more ++ stream) (.data first more :: rest)
  | closed {room stream} : Schedule room stream [.closed]
  | failed {room stream} : Schedule room stream [.failed]

def Ended (outcomes : List Recv) : Prop := .closed ∈ outcomes ∨ .failed ∈ outcomes

instance (outcomes : List Recv) : Decidable (Ended outcomes) := inferInstanceAs (Decidable (_ ∨ _))

def CrlfAt (s : List Byte) (k : Nat) : Prop := s[k]? = some CR ∧ s[k + 1]? = some LF

instance (s : List Byte) (k : Nat) : Decidable (CrlfAt s k) := inferInstanceAs (Decidable (_ ∧ _))

def FirstCrlf (s : List Byte) (k : Nat) : Prop := CrlfAt s k ∧ ∀ j < k, ¬ CrlfAt s j

/-! ### CR LF in a prefix -/

theorem CrlfAt.lt_length {s : List Byte} {k : Nat} (h : CrlfAt s k) : k + 1 < s.length :=
  (List.getElem?_eq_some_iff.mp h.2).1

theorem crlfAt_append {s t : List Byte} {k : Nat} (hk : k + 1 < s.length) :
    CrlfAt (s ++ t) k ↔ CrlfAt s k := by
  simp only [CrlfAt, List.getElem?_append_left hk, List.getElem?_append_left (Nat.lt_of_succ_lt hk)]

theorem crlfAt_take {s : List Byte} {n k : Nat} (hk : k + 1 < n) :
    CrlfAt (s.take n) k ↔ CrlfAt s k := by
  simp only [CrlfAt, List.getElem?_take_of_lt hk, List.getElem?_take_of_lt (Nat.lt_of_succ_lt hk)]

theorem FirstCrlf.unique {s : List Byte} {j k : Nat} (hj : FirstCrlf s j) (hk : FirstCrlf s k) :
    j = k := by
  by_contra hne
  rcases Nat.lt_or_gt_of_ne hne with hlt | hlt
  · exact hk.2 j hlt hj.1
  · exact hj.2 k hlt hk.1

/-- The first CR LF of a stream that is in a prefix is the first one of the prefix. -/
theorem firstCrlf_prefix_iff {s stream : List Byte} {k : Nat} (hstart : s <+: stream) :
    FirstCrlf s k ↔ FirstCrlf stream k ∧ k + 1 < s.length := by
  obtain ⟨t, rfl⟩ := hstart
  constructor
  · rintro ⟨hk, hfirst⟩
    refine ⟨⟨(crlfAt_append hk.lt_length).mpr hk, fun j hj h => hfirst j hj ?_⟩, hk.lt_length⟩
    exact (crlfAt_append (by have := hk.lt_length; omega)).mp h
  · rintro ⟨⟨hk, hfirst⟩, hlt⟩
    refine ⟨(crlfAt_append hlt).mp hk, fun j hj h => hfirst j hj ?_⟩
    exact (crlfAt_append (by omega)).mpr h

theorem exists_firstCrlf {s : List Byte} {k : Nat} (h : CrlfAt s k) : ∃ j, FirstCrlf s j := by
  classical
  exact ⟨Nat.find ⟨k, h⟩, Nat.find_spec ⟨k, h⟩, fun _ hj => Nat.find_min ⟨k, h⟩ hj⟩

theorem exists_crlfAt_iff (s : List Byte) : (∃ k, CrlfAt s k) ↔ crlf <:+: s := by
  constructor
  · rintro ⟨k, hcr, hlf⟩
    obtain ⟨hk, hcr⟩ := List.getElem?_eq_some_iff.mp hcr
    obtain ⟨hk', hlf⟩ := List.getElem?_eq_some_iff.mp hlf
    refine ⟨s.take k, s.drop (k + 2), ?_⟩
    calc s.take k ++ crlf ++ s.drop (k + 2) = s.take k ++ s.drop k := by
          rw [List.drop_eq_getElem_cons hk, List.drop_eq_getElem_cons hk', hcr, hlf]
          simp [crlf]
      _ = s := List.take_append_drop k s
  · rintro ⟨front, back, rfl⟩
    exact ⟨front.length, by simp [crlf], by simp [crlf]⟩

/-! ### The pieces -/

theorem Schedule.delivered_prefix {room : Nat} {stream : List Byte} {outcomes : List Recv}
    (h : Schedule room stream outcomes) : delivered outcomes <+: stream := by
  induction h with
  | waiting | closed | failed => exact List.nil_prefix
  | wouldBlock _ ih => exact ih
  | data _ _ ih => exact (List.prefix_append_right_inj _).mpr ih

theorem Schedule.delivered_le {room : Nat} {stream : List Byte} {outcomes : List Recv}
    (h : Schedule room stream outcomes) : (delivered outcomes).length ≤ room := by
  induction h with
  | waiting | closed | failed => exact Nat.zero_le _
  | wouldBlock _ ih => exact ih
  | data hlen _ ih =>
    rw [delivered, List.length_append]
    omega

theorem take_store {buf piece : List Byte} {n : Nat} (hroom : n + piece.length ≤ buf.length) :
    (store buf n piece).take (n + piece.length) = buf.take n ++ piece := by
  have hn : (buf.take n).length = n := List.length_take_of_le (by omega)
  rw [store, List.take_left' (by rw [List.length_append, hn])]

theorem length_store {buf piece : List Byte} {n : Nat} (hroom : n + piece.length ≤ buf.length) :
    (store buf n piece).length = buf.length := by
  simp only [store, List.length_append, List.length_take, List.length_drop]
  omega

theorem take_set_nul {buf s : List Byte} {k n : Nat} (hfront : buf.take n = s) (hk : k < s.length) :
    (buf.set k NUL).take (k + 1) = s.take k ++ [NUL] := by
  have hlen : k < n ∧ k < buf.length := by
    rw [← hfront, List.length_take] at hk
    omega
  have hget : (buf.set k NUL)[k]? = some NUL := List.getElem?_set_self hlen.2
  rw [List.take_add_one, hget, List.take_set_of_le le_rfl, ← hfront, List.take_take,
    Nat.min_eq_left hlen.1.le, Option.toList_some]

/-- The `for` stops behind the first CR LF that ends among the new bytes, and runs to their end if
there is none. -/
theorem scan_spec (buf : List Byte) (left readBytes : Nat) :
    (∃ k, readBytes ≤ k + 1 ∧ k + 1 < readBytes + left ∧ CrlfAt buf k ∧
        (∀ j < k, readBytes ≤ j + 1 → ¬ CrlfAt buf j) ∧ scan buf left readBytes = (k + 1, false)) ∨
      ((∀ j, readBytes ≤ j + 1 → j + 1 < readBytes + left → ¬ CrlfAt buf j) ∧
        scan buf left readBytes = (readBytes + left, true)) := by
  induction left generalizing readBytes with
  | zero => exact .inr ⟨fun j hle hlt => by omega, rfl⟩
  | succ left ih =>
    by_cases htest : 0 < readBytes ∧ buf[readBytes - 1]? = some CR ∧ buf[readBytes]? = some LF
    · obtain ⟨hpos, hcr, hlf⟩ := htest
      obtain ⟨k, rfl⟩ : ∃ k, readBytes = k + 1 := ⟨readBytes - 1, by omega⟩
      refine .inl ⟨k, le_rfl, by omega, ⟨hcr, hlf⟩, fun j hj hle => by omega, ?_⟩
      rw [scan, if_pos ⟨hpos, hcr, hlf⟩]
    · have hhere : ∀ j, j + 1 = readBytes → ¬ CrlfAt buf j := by
        rintro j rfl hj
        exact htest ⟨Nat.succ_pos j, hj.1, hj.2⟩
      rw [scan, if_neg htest]
      obtain ⟨k, hle, hlt, hk, hfirst, hscan⟩ | ⟨hnone, hscan⟩ := ih (readBytes + 1)
      · refine .inl ⟨k, by omega, by omega, hk, fun j hj hle => ?_, hscan⟩
        by_cases hj' : j + 1 = readBytes
        · exact hhere j hj'
        · exact hfirst j hj (by omega)
      · refine .inr ⟨fun j hle hlt => ?_, by rw [hscan, Nat.add_assoc, Nat.add_comm 1]⟩
        by_cases hj : j + 1 = readBytes
        · exact hhere j hj
        · exact hnone j (by omega) (by omega)

/-! ### The loop

At the head of the loop both cursors stand behind the bytes received so far, and these hold no CR
LF.
-/

/-- What the loop has received: the bytes `got`, in front of `room` free bytes. -/
structure Received (buf got : List Byte) (room : Nat) : Prop where
  size : buf.length = got.length + room
  front : buf.take got.length = got
  noCrlf : ∀ k, ¬ CrlfAt got k

/-- One piece: the loop returns with the bytes before the first CR LF if that is now complete, and
goes on otherwise. -/
theorem readLoop_data {buf got : List Byte} {room : Nat} (h : Received buf got room) {first : Byte}
    {more : List Byte} (hlen : (first :: more).length ≤ room) (rest : List Recv) :
    (∃ k, FirstCrlf (got ++ first :: more) k ∧
        readLoop (got.length + room) buf got.length got.length (.data first more :: rest) =
          some ((k : Int) + 1, (got ++ first :: more).take k ++ [NUL])) ∨
      ∃ buf', Received buf' (got ++ first :: more) (room - (first :: more).length) ∧
        readLoop (got.length + room) buf got.length got.length (.data first more :: rest) =
          readLoop (got.length + room) buf' (got ++ first :: more).length
            (got ++ first :: more).length rest := by
  set piece := first :: more with hpiece
  have hpos : 0 < piece.length := Nat.succ_pos _
  have hroom : got.length + piece.length ≤ buf.length := by rw [h.size]; omega
  have hfront : (store buf got.length piece).take (got ++ piece).length = got ++ piece := by
    rw [List.length_append, take_store hroom, h.front]
  have hcrlf : ∀ k, k + 1 < (got ++ piece).length →
      (CrlfAt (store buf got.length piece) k ↔ CrlfAt (got ++ piece) k) := by
    intro k hk
    rw [← crlfAt_take hk, hfront]
  have hnew : ∀ k, CrlfAt (got ++ piece) k → got.length ≤ k + 1 := by
    intro k hk
    by_contra hlt
    exact h.noCrlf k ((crlfAt_append (by omega)).mp hk)
  rw [readLoop, if_neg (by omega)]
  simp only [← hpiece, Nat.add_sub_cancel_left]
  obtain ⟨k, hle, hlt, hk, hfirst, hscan⟩ | ⟨hnone, hscan⟩ :=
    scan_spec (store buf got.length piece) piece.length got.length
  · rw [← List.length_append] at hlt
    refine .inl ⟨k, ⟨(hcrlf k hlt).mp hk, fun j hj hjc => ?_⟩, ?_⟩
    · exact hfirst j hj (hnew j hjc) ((hcrlf j (by omega)).mpr hjc)
    · rw [hscan]
      simp only [Nat.add_sub_cancel, Int.natCast_add, Int.cast_ofNat_Int,
        take_set_nul hfront (Nat.lt_of_succ_lt hlt)]
  · rw [← List.length_append] at hnone hscan
    refine .inr ⟨store buf got.length piece, ⟨?_, hfront, fun k hk => ?_⟩, ?_⟩
    · rw [length_store hroom, h.size, List.length_append]
      omega
    · exact hnone k (hnew k hk) hk.lt_length ((hcrlf k hk.lt_length).mpr hk)
    · rw [hscan, List.length_append]

theorem readLoop_wouldBlock (buflen : Nat) (buf : List Byte) (n : Nat) (rest : List Recv) :
    readLoop buflen buf n n (.wouldBlock :: rest) = readLoop buflen buf n n rest := by
  by_cases hfull : buflen ≤ n
  · rw [readLoop, if_pos hfull, readLoop.eq_def, if_pos hfull]
  · rw [readLoop, if_neg hfull]

/-- When CR LF is among the delivered bytes the loop returns, with what precedes the first one. -/
theorem readLoop_of_firstCrlf {room : Nat} {stream : List Byte} {outcomes : List Recv}
    (hs : Schedule room stream outcomes) {buf got : List Byte} (h : Received buf got room) {k : Nat}
    (hk : FirstCrlf (got ++ delivered outcomes) k) :
    readLoop (got.length + room) buf got.length got.length outcomes =
      some ((k : Int) + 1, (got ++ delivered outcomes).take k ++ [NUL]) := by
  induction hs generalizing buf got with
  | waiting | closed | failed =>
    simp only [delivered, List.append_nil] at hk
    exact absurd hk.1 (h.noCrlf k)
  | wouldBlock _ ih =>
    rw [readLoop_wouldBlock]
    exact ih h hk
  | @data room first more stream rest hlen _ ih =>
    have hsplit : got ++ delivered (.data first more :: rest) =
        got ++ first :: more ++ delivered rest := by
      rw [delivered, List.append_assoc]
    rw [hsplit] at hk ⊢
    obtain ⟨j, hj, hret⟩ | ⟨buf', h', hnext⟩ := readLoop_data h hlen rest
    · -- the first one of a prefix is the first one
      have hjk : j = k :=
        ((firstCrlf_prefix_iff (List.prefix_append _ (delivered rest))).mp hj).1.unique hk
      subst hjk
      have hle : j ≤ (got ++ first :: more).length := by
        have := hj.1.lt_length
        omega
      rw [hret, List.take_append_of_le_length hle]
    · rw [hnext]
      have hsize : got.length + room =
          (got ++ first :: more).length + (room - (first :: more).length) := by
        rw [List.length_append]
        omega
      rw [hsize]
      exact ih h' hk

/-- Without CR LF among the delivered bytes the loop returns -1 when the connection ends or the
buffer is full, and waits otherwise. -/
theorem readLoop_of_no_crlf {room : Nat} {stream : List Byte} {outcomes : List Recv}
    (hs : Schedule room stream outcomes) {buf got : List Byte} (h : Received buf got room)
    (hno : ∀ k, ¬ CrlfAt (got ++ delivered outcomes) k) :
    (readLoop (got.length + room) buf got.length got.length outcomes).map Prod.fst =
      if Ended outcomes ∨ (delivered outcomes).length = room then some (-1) else none := by
  induction hs generalizing buf got with
  | @waiting room stream | @closed room stream | @failed room stream =>
    cases room with
    | zero => simp [readLoop, Ended, delivered]
    | succ room => simp [readLoop, Ended, delivered]
  | wouldBlock _ ih =>
    rw [readLoop_wouldBlock, ih h hno]
    exact if_congr (by simp [Ended, delivered]) rfl rfl
  | @data room first more stream rest hlen _ ih =>
    have hsplit : got ++ delivered (.data first more :: rest) =
        got ++ first :: more ++ delivered rest := by
      rw [delivered, List.append_assoc]
    rw [hsplit] at hno
    obtain ⟨j, hj, -⟩ | ⟨buf', h', hnext⟩ := readLoop_data h hlen rest
    · exact absurd ((crlfAt_append hj.1.lt_length).mpr hj.1) (hno j)
    · have hsize : got.length + room =
          (got ++ first :: more).length + (room - (first :: more).length) := by
        rw [List.length_append]
        omega
      rw [hnext, hsize, ih h' hno]
      refine if_congr (or_congr ?_ ?_) rfl rfl
      · simp [Ended]
      · rw [delivered, List.length_append]
        omega

/-! ### The request -/

theorem received_start {buf : List Byte} {buflen : Nat} (hbuf : buf.length = buflen) :
    Received buf [] buflen :=
  ⟨by simpa using hbuf, rfl, fun k h => by simp [CrlfAt] at h⟩

/-- A stream whose first CR LF has been delivered gives the bytes before it, whatever the pieces. -/
theorem readRequest_of_firstCrlf {buflen : Nat} {stream buf : List Byte} {outcomes : List Recv}
    (hs : Schedule buflen stream outcomes) (hbuf : buf.length = buflen) {k : Nat}
    (hk : FirstCrlf stream k) (hdelivered : k + 1 < (delivered outcomes).length) :
    readRequest buf buflen outcomes = some ((k : Int) + 1, stream.take k ++ [NUL]) := by
  have hprefix := hs.delivered_prefix
  have hfirst : FirstCrlf ([] ++ delivered outcomes) k :=
    (firstCrlf_prefix_iff hprefix).mpr ⟨hk, hdelivered⟩
  have hloop := readLoop_of_firstCrlf hs (received_start hbuf) hfirst
  have htake : (delivered outcomes).take k = stream.take k := by
    obtain ⟨rest, rfl⟩ := hprefix
    exact (List.take_append_of_le_length (by omega)).symm
  simpa [readRequest, htake] using hloop

/-- A stream whose CR LF has not been delivered gives -1 once the connection has ended or the buffer
is full. -/
theorem readRequest_of_no_crlf {buflen : Nat} {stream buf : List Byte} {outcomes : List Recv}
    (hs : Schedule buflen stream outcomes) (hbuf : buf.length = buflen)
    (hno : ∀ k, ¬ CrlfAt (delivered outcomes) k) :
    (readRequest buf buflen outcomes).map Prod.fst =
      if Ended outcomes ∨ (delivered outcomes).length = buflen then some (-1) else none := by
  simpa [readRequest] using readLoop_of_no_crlf hs (received_start hbuf) hno

/-- Without a CR LF that fits and was delivered there is none among the bytes received. -/
theorem not_crlfAt_of_no_request {buflen : Nat} {stream : List Byte} {outcomes : List Recv}
    (hs : Schedule buflen stream outcomes)
    (hnone : ¬ ∃ k, FirstCrlf stream k ∧ k + 1 < buflen ∧ k + 1 < (delivered outcomes).length) :
    ∀ k, ¬ CrlfAt (delivered outcomes) k := by
  intro k hk
  obtain ⟨j, hj⟩ := exists_firstCrlf hk
  obtain ⟨hstream, hlt⟩ := (firstCrlf_prefix_iff hs.delivered_prefix).mp hj
  have hfits : j + 1 < buflen := Nat.lt_of_lt_of_le hlt hs.delivered_le
  exact hnone ⟨j, hstream, hfits, hlt⟩

/-- What a call that returns has made of the stream. -/
theorem framed_of_readRequest {buflen : Nat} {stream buf out : List Byte} {outcomes : List Recv}
    {ret : Int} (hs : Schedule buflen stream outcomes) (hbuf : buf.length = buflen)
    (hret : readRequest buf buflen outcomes = some (ret, out)) :
    (∀ k, FirstCrlf stream k → k + 1 < buflen → k + 1 < (delivered outcomes).length →
        ret = k + 1 ∧ out = stream.take k ++ [NUL] ∧ out.length = k + 1) ∧
      ((¬ ∃ k, FirstCrlf stream k ∧ k + 1 < buflen ∧ k + 1 < (delivered outcomes).length) →
        ret = -1) := by
  constructor
  · intro k hk _ hdelivered
    rw [readRequest_of_firstCrlf hs hbuf hk hdelivered] at hret
    obtain ⟨rfl, rfl⟩ := Prod.mk.injEq .. ▸ Option.some.inj hret
    have hlt := hk.1.lt_length
    refine ⟨rfl, rfl, ?_⟩
    rw [List.length_append, List.length_take_of_le (by omega), List.length_singleton]
  · intro hnone
    have hmap := readRequest_of_no_crlf hs hbuf (not_crlfAt_of_no_request hs hnone)
    rw [hret] at hmap
    split at hmap
    · exact Option.some.inj hmap
    · cases hmap

/-- The call returns when a request that fits has been delivered, when the stream has ended or when the
buffer is full. The request is framed by the first CR LF of the stream alone: if it fits the buffer and
was delivered, the call returns the number of bytes kept and leaves in the buffer the bytes before it
and a NUL, and in every other case it returns -1. -/
theorem readRequest_framing {buflen : Nat} {stream buf : List Byte} {outcomes : List Recv}
    (hs : Schedule buflen stream outcomes) (hbuf : buf.length = buflen) :
    ((readRequest buf buflen outcomes).isSome ↔
        (∃ k, FirstCrlf stream k ∧ k + 1 < buflen ∧ k + 1 < (delivered outcomes).length) ∨
          Ended outcomes ∨ (delivered outcomes).length = buflen) ∧
      ∀ ret out, readRequest buf buflen outcomes = some (ret, out) →
        (∀ k, FirstCrlf stream k → k + 1 < buflen → k + 1 < (delivered outcomes).length →
          ret = k + 1 ∧ out = stream.take k ++ [NUL] ∧ out.length = k + 1) ∧
        ((¬ ∃ k, FirstCrlf stream k ∧ k + 1 < buflen ∧ k + 1 < (delivered outcomes).length) →
          ret = -1) := by
  refine ⟨?_, fun ret out hret => framed_of_readRequest hs hbuf hret⟩
  by_cases hsome : ∃ k, FirstCrlf stream k ∧ k + 1 < buflen ∧ k + 1 < (delivered outcomes).length
  · obtain ⟨k, hk, -, hdelivered⟩ := id hsome
    rw [readRequest_of_firstCrlf hs hbuf hk hdelivered]
    exact iff_of_true rfl (.inl hsome)
  · have hmap := readRequest_of_no_crlf hs hbuf (not_crlfAt_of_no_request hs hsome)
    rw [or_iff_right hsome, ← Option.isSome_map, hmap]
    split_ifs with hends
    · exact iff_of_true rfl hends
    · exact iff_of_false Bool.false_ne_true hends

/-- CR and LF in different pieces, with a call that would have blocked between them. -/
def splitOutcomes : List Recv := [.data 97 [98, CR], .wouldBlock, .data LF []]

theorem readRequest_framing_split :
    (readRequest (List.replicate 8 NUL) 8 splitOutcomes).isSome ∧
      ∀ ret out, readRequest (List.replicate 8 NUL) 8 splitOutcomes = some (ret, out) →
        ret = 3 ∧ out = bytes "ab" ++ [NUL] := by
  have hs : Schedule 8 (bytes "ab\r\n") splitOutcomes := by
    change Schedule 8 ([97, 98, CR] ++ ([LF] ++ [])) _
    refine .data ?_ (.wouldBlock (.data ?_ .waiting)) <;> decide
  have hbuf : (List.replicate 8 NUL).length = 8 := by decide
  have hfirst : FirstCrlf (bytes "ab\r\n") 2 := ⟨⟨rfl, rfl⟩, by decide⟩
  obtain ⟨hreturns, hframed⟩ := readRequest_framing hs hbuf
  refine ⟨hreturns.mpr (.inl ⟨2, hfirst, by decide, by decide⟩), fun ret out hret => ?_⟩
  obtain ⟨hlen, hout, -⟩ := (hframed ret out hret).1 2 hfirst (by decide) (by decide)
  exact ⟨hlen, hout⟩

end Sacagawea
