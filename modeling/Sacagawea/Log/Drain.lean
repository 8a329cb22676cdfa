import Sacagawea.Log.Protocol

/-!
# One pass of the log process

`log_management` reads as many records as the counter promises, each behind its length, and counts on
the pipe to hold them. `read` gives 0 at the end of the file, which counts as progress of no bytes: a
record that is cut is waited for, with the mutex held. A length that is cut leaves the bytes of the one
before in `len_string`.
-/

namespace Sacagawea

/-! ### The code -/

/-- What the calls of one round give. A `read` is asked for a number of bytes and may give less, and
`none` is an error. `malloc` is of a size that memory may have room for. -/
structure DrainCalls where
  header : Option Nat
  fopen : Bool
  malloc : Bool
  body : Nat → Option Nat

/-- The count `read` gives, which is 0 at the end of the file only. -/
def readCount (want size piped : Nat) : Nat := min piped (max 1 (min want size))

/-- `read(fd, &len_string, sizeof(int))` writes over the first bytes. -/
def readHeader (want : Nat) (lenString : CharArray 4) (pipe : List Byte) : CharArray 4 where
  cells := pipe.take (readCount want 4 pipe.length) ++ lenString.cells.drop (readCount want 4 pipe.length)
  size := by
    rw [List.length_append, List.length_take, List.length_drop, lenString.size, readCount]
    omega

/-- The inner loop, for as many rounds as are looked at: what is read of the record, and what is left in
the pipe. -/
def readRecord (body : Nat → Option Nat) (lenString : Int) :
    (rounds reads : Nat) → (readLine pipe : List Byte) → Option (Except Stop (List Byte × List Byte))
  | 0, _, _, _ => none
  | rounds + 1, reads, readLine, pipe =>
    if (readLine.length : Int) < lenString then
      match body reads with
      | none => some (.error (.exit 1))
      | some want =>
        let check := readCount want (lenString - readLine.length).toNat pipe.length
        readRecord body lenString rounds (reads + 1) (readLine ++ pipe.take check) (pipe.drop check)
    else some (.ok (readLine, pipe))

/-- One round: the new `len_string`, what is read of the record, and what is left in the pipe. -/
def drainRound (rounds : Nat) (calls : DrainCalls) (lenString : CharArray 4) (pipe : List Byte) :
    Option (Except Stop (CharArray 4 × List Byte × List Byte)) :=
  match calls.header with
  | none => some (.error (.exit 1))
  | some want =>
    let lenString := readHeader want lenString pipe
    let length := decodeInt lenString.cells
    let pipe := pipe.drop (readCount want 4 pipe.length)
    if calls.fopen = false then some (.error (.exit 1))
    -- `len_string + 1` is more than an `int` holds
    else if length = 2 ^ 31 - 1 then some (.error .undefined)
    -- as a `size_t` it is more than there is of memory
    else if length + 1 < 0 then some (.error (.exit 1))
    else if calls.malloc = false then some (.error (.exit 1))
    else match readRecord calls.body length rounds 0 [] pipe with
      | none => none
      | some (.error stop) => some (.error stop)
      | some (.ok (readLine, pipe)) =>
        -- `read_line[len_string]` lies in front of the array
        if length < 0 then some (.error .undefined) else some (.ok (lenString, readLine, pipe))

/-- What a pass has appended to the log, and how it has ended the process, if it has. -/
structure Drained where
  appended : List Byte
  ending : Option Stop
  deriving DecidableEq

/-- The loop over the records, one round for each that the counter promises. -/
def drain (rounds : Nat) : List DrainCalls → CharArray 4 → (pipe appended : List Byte) → Option Drained
  | [], _, _, appended => some ⟨appended, none⟩
  | calls :: rest, lenString, pipe, appended =>
    match drainRound rounds calls lenString pipe with
    | none => none
    | some (.error stop) => some ⟨appended, some stop⟩
    | some (.ok (lenString, readLine, pipe)) =>
      drain rounds rest lenString pipe (appended ++ (CStr.ofBuffer readLine).chars)

/-! ### What is in the pipe -/

/-- The reads of a round give no errors. -/
def DrainCalls.Reads (calls : DrainCalls) : Prop := calls.header ≠ none ∧ ∀ k, calls.body k ≠ none

/-- The length that a round comes upon, which is made of what is read of it and of the bytes of the
length before. -/
def DrainCalls.length (calls : DrainCalls) (lenString : CharArray 4) (pipe : List Byte) : Int :=
  decodeInt (readHeader (calls.header.getD 0) lenString pipe).cells

/-- What is in the pipe behind the length. -/
def DrainCalls.behind (calls : DrainCalls) (pipe : List Byte) : List Byte :=
  pipe.drop (readCount (calls.header.getD 0) 4 pipe.length)

/-- The log file cannot be opened, or there is no memory for so long a record. -/
def DrainCalls.Exits (calls : DrainCalls) (length : Int) : Prop :=
  calls.fopen = false ∨ length ≠ 2 ^ 31 - 1 ∧ (length + 1 < 0 ∨ calls.malloc = false)

/-- The length is that of an array, and there are as many bytes. -/
structure WholeRecord (length : Int) (pipe : List Byte) : Prop where
  fits : length ≠ 2 ^ 31 - 1
  nonneg : 0 ≤ length
  le : length ≤ pipe.length

/-- Each length that the pass comes upon is followed by as many bytes. A pass that ends the process
comes upon no more. -/
def FindsWhole : List DrainCalls → CharArray 4 → (pipe : List Byte) → Prop
  | [], _, _ => True
  | calls :: rest, lenString, pipe =>
    calls.Exits (calls.length lenString pipe) ∨
      WholeRecord (calls.length lenString pipe) (calls.behind pipe) ∧
        FindsWhole rest (readHeader (calls.header.getD 0) lenString pipe)
          ((calls.behind pipe).drop (calls.length lenString pipe).toNat)

/-! ### One record -/

theorem readCount_le (want size piped : Nat) : readCount want size piped ≤ piped := min_le_left _ _

/-- There is a byte to read, and room for one. -/
theorem readCount_bounds (want : Nat) {size piped : Nat} (hsize : 0 < size) (hpiped : 0 < piped) :
    1 ≤ readCount want size piped ∧ readCount want size piped ≤ size := by
  rw [readCount]
  omega

section

variable {body : Nat → Option Nat} {lenString : Int}

/-- The inner loop gets as many bytes as it counts to, a byte at least in a round. -/
theorem readRecord_ok (hbody : ∀ k, body k ≠ none) (rounds reads : Nat) {readLine pipe : List Byte}
    (hstart : readLine.length ≤ lenString) (hlength : lenString ≤ readLine.length + pipe.length) :
    readRecord body lenString rounds reads readLine pipe = none ∧ rounds ≤ pipe.length ∨
      readRecord body lenString rounds reads readLine pipe =
        some (.ok (readLine ++ pipe.take (lenString - readLine.length).toNat,
          pipe.drop (lenString - readLine.length).toNat)) := by
  induction rounds generalizing reads readLine pipe with
  | zero => exact .inl ⟨rfl, Nat.zero_le _⟩
  | succ rounds ih =>
    rw [readRecord]
    by_cases hmore : (readLine.length : Int) < lenString
    · obtain ⟨want, hwant⟩ := Option.ne_none_iff_exists'.mp (hbody reads)
      have hroom : 0 < (lenString - readLine.length).toNat := by omega
      have hcount := readCount_bounds want hroom (show 0 < pipe.length by omega)
      have hpiped := readCount_le want (lenString - readLine.length).toNat pipe.length
      simp only [if_pos hmore, hwant]
      generalize readCount want (lenString - readLine.length).toNat pipe.length = check at hcount hpiped
      have hread : (readLine ++ pipe.take check).length = readLine.length + check := by
        rw [List.length_append, List.length_take, min_eq_left hpiped]
      have hrest : (pipe.drop check).length = pipe.length - check := List.length_drop
      obtain ⟨k, hk⟩ : ∃ k, (lenString - readLine.length).toNat = check + k :=
        ⟨(lenString - readLine.length).toNat - check, by omega⟩
      have hleft : (lenString - (readLine ++ pipe.take check).length).toNat = k := by omega
      have hstart' : ((readLine ++ pipe.take check).length : Int) ≤ lenString := by omega
      have hlength' : lenString ≤ (readLine ++ pipe.take check).length + (pipe.drop check).length := by
        omega
      rcases ih (reads + 1) hstart' hlength' with ⟨hnone, hfew⟩ | hok
      · exact .inl ⟨hnone, by omega⟩
      · right
        rw [hok, hleft, hk, List.take_add, List.drop_drop, List.append_assoc]
    · right
      obtain rfl : lenString = readLine.length := by omega
      rw [if_neg hmore, Int.sub_self, Int.toNat_zero, List.take_zero, List.append_nil, List.drop_zero]

/-- At the end of the file it reads nothing, again and again. -/
theorem readRecord_stuck (hbody : ∀ k, body k ≠ none) (rounds reads : Nat) {readLine pipe : List Byte}
    (hlength : readLine.length + pipe.length < lenString) :
    readRecord body lenString rounds reads readLine pipe = none := by
  induction rounds generalizing reads readLine pipe with
  | zero => rfl
  | succ rounds ih =>
    obtain ⟨want, hwant⟩ := Option.ne_none_iff_exists'.mp (hbody reads)
    have hpiped := readCount_le want (lenString - readLine.length).toNat pipe.length
    simp only [readRecord, if_pos (show (readLine.length : Int) < lenString by omega), hwant]
    apply ih
    rw [List.length_append, List.length_take, List.length_drop]
    omega

end

/-! ### The pass -/

/-- Behind the length, a round gets its record or gets lost. -/
theorem readRecord_cases {body : Nat → Option Nat} (hbody : ∀ k, body k ≠ none) {length : Int}
    (hmax : length ≠ 2 ^ 31 - 1) (pipe : List Byte) (rounds : Nat) :
    WholeRecord length pipe ∧ (readRecord body length rounds 0 [] pipe = none ∧ rounds ≤ pipe.length ∨
        readRecord body length rounds 0 [] pipe =
          some (.ok (pipe.take length.toNat, pipe.drop length.toNat))) ∨
      ¬ WholeRecord length pipe ∧ (readRecord body length rounds 0 [] pipe = none ∨
        length < 0 ∧ readRecord body length rounds 0 [] pipe = some (.ok ([], pipe))) := by
  by_cases hbelow : length < 0
  · refine .inr ⟨fun h => absurd h.nonneg (not_le_of_gt hbelow), ?_⟩
    cases rounds with
    | zero => exact .inl rfl
    | succ rounds => exact .inr ⟨hbelow, if_neg (not_lt_of_gt hbelow)⟩
  have hnat := not_lt.mp hbelow
  by_cases hfits : length ≤ pipe.length
  · have hlength : length ≤ (([] : List Byte).length : Int) + pipe.length := by
      rwa [List.length_nil, Int.natCast_zero, Int.zero_add]
    have hread := readRecord_ok hbody rounds 0 hnat hlength
    rw [List.length_nil, Int.natCast_zero, Int.sub_zero, List.nil_append] at hread
    exact .inl ⟨⟨hmax, hnat, hfits⟩, hread⟩
  · have hlength : (([] : List Byte).length : Int) + pipe.length < length := by
      rw [List.length_nil, Int.natCast_zero, Int.zero_add]
      exact not_le.mp hfits
    exact .inr ⟨fun h => hfits h.le, .inl (readRecord_stuck hbody rounds 0 hlength)⟩

/-- A round exits, gets its record, or gets lost. -/
theorem drainRound_cases {c : DrainCalls} (hreads : c.Reads) (lenString : CharArray 4)
    (pipe : List Byte) (rounds : Nat) :
    c.Exits (c.length lenString pipe) ∧ drainRound rounds c lenString pipe = some (.error (.exit 1)) ∨
      ¬ c.Exits (c.length lenString pipe) ∧
        (WholeRecord (c.length lenString pipe) (c.behind pipe) ∧
            (drainRound rounds c lenString pipe = none ∧ rounds ≤ (c.behind pipe).length ∨
              drainRound rounds c lenString pipe = some (.ok (readHeader (c.header.getD 0) lenString pipe,
                (c.behind pipe).take (c.length lenString pipe).toNat,
                (c.behind pipe).drop (c.length lenString pipe).toNat))) ∨
          ¬ WholeRecord (c.length lenString pipe) (c.behind pipe) ∧
            (drainRound rounds c lenString pipe = none ∨
              drainRound rounds c lenString pipe = some (.error .undefined))) := by
  obtain ⟨hheader, hbody⟩ := hreads
  obtain ⟨want, hwant⟩ := Option.ne_none_iff_exists'.mp hheader
  simp only [drainRound, DrainCalls.length, DrainCalls.behind, DrainCalls.Exits, hwant,
    Option.getD_some]
  generalize readHeader want lenString pipe = lenString'
  generalize decodeInt lenString'.cells = length
  generalize pipe.drop (readCount want 4 pipe.length) = behind
  by_cases hfopen : c.fopen = false
  · exact .inl ⟨.inl hfopen, if_pos hfopen⟩
  rw [if_neg hfopen, or_iff_right hfopen]
  by_cases hmax : length = 2 ^ 31 - 1
  · exact .inr ⟨fun h => h.1 hmax, .inr ⟨fun h => h.fits hmax, .inr (if_pos hmax)⟩⟩
  rw [if_neg hmax, and_iff_right hmax]
  by_cases hneg : length + 1 < 0
  · exact .inl ⟨.inl hneg, if_pos hneg⟩
  rw [if_neg hneg, or_iff_right hneg]
  by_cases hmalloc : c.malloc = false
  · exact .inl ⟨hmalloc, if_pos hmalloc⟩
  rw [if_neg hmalloc]
  refine .inr ⟨hmalloc, ?_⟩
  rcases readRecord_cases hbody hmax behind rounds with
    ⟨hwhole, ⟨hnone, hfew⟩ | hok⟩ | ⟨hno, hnone | ⟨hbelow, hok⟩⟩
  · exact .inl ⟨hwhole, .inl ⟨by rw [hnone], hfew⟩⟩
  · rw [hok]
    exact .inl ⟨hwhole, .inr (if_neg (not_lt_of_ge hwhole.nonneg))⟩
  · rw [hnone]
    exact .inr ⟨hno, .inl rfl⟩
  · rw [hok]
    exact .inr ⟨hno, .inr (if_pos hbelow)⟩

theorem DrainCalls.length_behind_le (c : DrainCalls) (pipe : List Byte) :
    (c.behind pipe).length ≤ pipe.length := by
  rw [DrainCalls.behind, List.length_drop]
  exact Nat.sub_le _ _

/-- The text of a record stands in the pipe in front of what is left. -/
theorem DrainCalls.behind_split (c : DrainCalls) (pipe : List Byte) (n : Nat) :
    ∃ front, pipe = front ++ (c.behind pipe).drop n ∧
      (CStr.ofBuffer ((c.behind pipe).take n)).chars.Sublist front := by
  refine ⟨pipe.take (readCount (c.header.getD 0) 4 pipe.length) ++ (c.behind pipe).take n, ?_, ?_⟩
  · rw [List.append_assoc, List.take_append_drop, DrainCalls.behind, List.take_append_drop]
  · exact (CStr.ofBuffer_prefix _).sublist.trans (List.sublist_append_right _ _)

/-- The pass is over, and bytes of the pipe are in the log. -/
def Finished (pipe appended : List Byte) (result : Option Drained) : Prop :=
  ∃ d text, result = some d ∧ d.ending ≠ some .undefined ∧ d.appended = appended ++ text ∧
    text.Sublist pipe

/-- The pass goes on, or is undefined. -/
def Lost (result : Option Drained) : Prop :=
  result = none ∨ ∃ d, result = some d ∧ d.ending = some .undefined

/-- A pass ends when it comes upon whole records only, and gets lost otherwise. -/
theorem drain_cases {calls : List DrainCalls} (hreads : ∀ c ∈ calls, c.Reads) (lenString : CharArray 4)
    (pipe appended : List Byte) (rounds : Nat) :
    FindsWhole calls lenString pipe ∧ (drain rounds calls lenString pipe appended = none ∧
        rounds ≤ pipe.length ∨ Finished pipe appended (drain rounds calls lenString pipe appended)) ∨
      ¬ FindsWhole calls lenString pipe ∧ Lost (drain rounds calls lenString pipe appended) := by
  induction calls generalizing lenString pipe appended with
  | nil =>
    exact .inl ⟨trivial, .inr ⟨_, [], rfl, nofun, (List.append_nil _).symm, List.nil_sublist _⟩⟩
  | cons c calls ih =>
    obtain ⟨hc, hcalls⟩ := List.forall_mem_cons.mp hreads
    rw [drain]
    rcases drainRound_cases hc lenString pipe rounds with
      ⟨hexits, hround⟩ | ⟨hexits, ⟨hwhole, ⟨hnone, hfew⟩ | hround⟩ | ⟨hno, hround⟩⟩
    · rw [hround]
      exact .inl ⟨.inl hexits, .inr ⟨_, [], rfl, nofun, (List.append_nil _).symm, List.nil_sublist _⟩⟩
    · rw [hnone]
      by_cases hfinds : FindsWhole (c :: calls) lenString pipe
      · exact .inl ⟨hfinds, .inl ⟨rfl, hfew.trans (c.length_behind_le pipe)⟩⟩
      · exact .inr ⟨hfinds, .inl rfl⟩
    · rw [FindsWhole, or_iff_right hexits, and_iff_right hwhole, hround]
      obtain ⟨front, hsplit, htext⟩ := c.behind_split pipe (c.length lenString pipe).toNat
      rcases ih hcalls (readHeader (c.header.getD 0) lenString pipe)
        ((c.behind pipe).drop (c.length lenString pipe).toNat) _ with
        ⟨hfinds, hnone | ⟨d, text, hd, hending, happended, hsub⟩⟩ | hlost
      · refine .inl ⟨hfinds, .inl ⟨hnone.1, hnone.2.trans ?_⟩⟩
        rw [List.length_drop]
        exact (Nat.sub_le _ _).trans (c.length_behind_le pipe)
      · have hall := htext.append hsub
        rw [← hsplit] at hall
        exact .inl ⟨hfinds, .inr ⟨d, _, hd, hending, happended.trans (List.append_assoc _ _ _), hall⟩⟩
      · exact .inr hlost
    · rw [FindsWhole, or_iff_right hexits]
      refine .inr ⟨fun h => hno h.1, ?_⟩
      rcases hround with hround | hround
      · rw [hround]
        exact .inl rfl
      · rw [hround]
        exact .inr ⟨_, rfl, rfl⟩

/-- Records whose lengths are read at once are whole, however the rest of them is read. -/
theorem findsWhole_frames (calls : List DrainCalls) (records : List (List Byte))
    (hlength : calls.length = records.length)
    (hheader : ∀ c ∈ calls, ∃ want, c.header = some want ∧ 4 ≤ want)
    (hrecords : ∀ record ∈ records, record.length < 2 ^ 31 - 1) (lenString : CharArray 4)
    (rest : List Byte) : FindsWhole calls lenString (records.flatMap intHeader.frame ++ rest) := by
  induction calls generalizing records lenString with
  | nil => trivial
  | cons c calls ih =>
    cases records with
    | nil => cases hlength
    | cons record records =>
      obtain ⟨⟨want, hwant, hfour⟩, hheader⟩ := List.forall_mem_cons.mp hheader
      obtain ⟨hrecord, hrecords⟩ := List.forall_mem_cons.mp hrecords
      have hpipe : (record :: records).flatMap intHeader.frame ++ rest =
          encodeInt record.length ++ (record ++ (records.flatMap intHeader.frame ++ rest)) := by
        rw [List.flatMap_cons, List.append_assoc, Header.frame, List.append_assoc]
        rfl
      rw [hpipe]
      generalize htail : records.flatMap intHeader.frame ++ rest = tail
      have hcount : readCount want 4 (encodeInt record.length ++ (record ++ tail)).length = 4 := by
        rw [List.length_append, readCount]
        change min (4 + _) _ = 4
        omega
      have hcells : (readHeader want lenString (encodeInt record.length ++ (record ++ tail))).cells =
          encodeInt record.length := by
        change List.take _ _ ++ List.drop _ _ = _
        rw [hcount, List.drop_eq_nil_of_le lenString.size.le, List.append_nil]
        rfl
      have hint : c.length lenString (encodeInt record.length ++ (record ++ tail)) = record.length := by
        rw [DrainCalls.length, hwant, Option.getD_some, hcells,
          decodeInt_encodeInt (hrecord.trans (by decide : 2 ^ 31 - 1 < 2 ^ 31))]
      have hbehind : c.behind (encodeInt record.length ++ (record ++ tail)) = record ++ tail := by
        rw [DrainCalls.behind, hwant, Option.getD_some, hcount]
        rfl
      rw [FindsWhole, hint, hbehind]
      refine .inr ⟨⟨by omega, Int.natCast_nonneg _, ?_⟩, ?_⟩
      · rw [List.length_append]
        exact Int.ofNat_le.mpr (Nat.le_add_right _ _)
      · rw [Int.toNat_natCast, List.drop_left, ← htail]
        exact ih _ (Nat.succ.inj hlength) hheader hrecords _

/-- A pass ends, and leaves nothing in the log that has not been in the pipe, exactly when each length
it comes upon is followed by as many bytes. -/
theorem drain_ends_iff {calls : List DrainCalls} (hreads : ∀ c ∈ calls, c.Reads) (lenString : CharArray 4)
    (pipe : List Byte) :
    (∃ rounds d, drain rounds calls lenString pipe [] = some d ∧ d.ending ≠ some .undefined ∧
      d.appended.Sublist pipe) ↔ FindsWhole calls lenString pipe := by
  constructor
  · rintro ⟨rounds, d, hd, hending, -⟩
    rcases drain_cases hreads lenString pipe [] rounds with
      ⟨hwhole, -⟩ | ⟨-, hnone | ⟨d', hd', hundefined⟩⟩
    · exact hwhole
    · cases hd.symm.trans hnone
    · obtain rfl := Option.some.inj (hd.symm.trans hd')
      exact absurd hundefined hending
  · intro hwhole
    rcases drain_cases hreads lenString pipe [] (pipe.length + 1) with ⟨-, hnone | hended⟩ | ⟨hno, -⟩
    · exact absurd hnone.2 (Nat.not_succ_le_self _)
    · obtain ⟨d, text, hd, hending, rfl, htext⟩ := hended
      exact ⟨_, d, hd, hending, htext⟩
    · exact absurd hwhole hno

/-- The calls of a round that gets what it asks for. -/
def wholeReads : DrainCalls := ⟨some 4, true, true, fun _ => some 4096⟩

/-- A record of five bytes, of which two are in the pipe. -/
def cutRecord : List Byte := encodeInt 5 ++ bytes "ab"

/-- The loop waits for the other three for ever. -/
theorem cutRecord_never_ends : ¬ ∃ rounds d, drain rounds [wholeReads] (.zero 4) cutRecord [] = some d := by
  rintro ⟨rounds, d, hd⟩
  have hlength : decodeInt (readHeader 4 (.zero 4) cutRecord).cells = 5 := by decide +kernel
  have hbehind : cutRecord.drop (readCount 4 4 cutRecord.length) = bytes "ab" := by decide
  have hshort : (([] : List Byte).length : Int) + (bytes "ab").length < 5 := by decide
  have hstuck := @readRecord_stuck (fun _ => some 4096) 5 (fun _ => nofun) rounds 0 [] (bytes "ab") hshort
  have hnone : drainRound rounds wholeReads (.zero 4) cutRecord = none := by
    simp only [drainRound, wholeReads, hlength, hbehind]
    rw [if_neg (by decide), if_neg (by decide), if_neg (by decide), if_neg (by decide), hstuck]
  rw [drain, hnone] at hd
  cases hd

theorem drain_ends_hi :
    ∃ rounds d, drain rounds [wholeReads] (.zero 4) (encodeInt 2 ++ bytes "hi") [] = some d ∧
      d.ending ≠ some .undefined ∧ d.appended.Sublist (encodeInt 2 ++ bytes "hi") := by
  have hreads : ∀ c ∈ [wholeReads], c.Reads := by
    rintro c (_ | ⟨_, ⟨⟩⟩)
    exact ⟨nofun, fun _ => nofun⟩
  refine (drain_ends_iff hreads (.zero 4) (encodeInt 2 ++ bytes "hi")).mpr ?_
  have hheader : ∀ c ∈ [wholeReads], ∃ want, c.header = some want ∧ 4 ≤ want := by
    rintro c (_ | ⟨_, ⟨⟩⟩)
    exact ⟨4, rfl, le_rfl⟩
  exact findsWhole_frames [wholeReads] [bytes "hi"] rfl hheader (by decide) (.zero 4) []

end Sacagawea
