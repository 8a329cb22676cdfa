import Sacagawea.Base.Bytes

/-!
# The logger on Windows

On Windows a program of its own appends to sacagawea.log what it reads from its pipes. All pipes share
one array, and a message comes without a NUL, so the string that is appended ends where the array has
been clear before. It is cleared when the log file has been open, and stays as it is when the file
could not be opened: what a longer message has left then stands behind the next one.
-/

namespace Sacagawea

/-! ### The program -/

/-- `WIN32_PIPE_BUFSIZE` -/
def pipeBufsize : Nat := 1024

/-- `WIN32_MAX_PIPES` -/
def maxPipes : Nat := 64

structure PipeMessage where
  text : CStr
  fits : text.strlen < pipeBufsize

/-- What the calls give in one round: the pipe that is ready, what is read from it, and whether the log
file can be opened and written to. -/
structure LoggerCalls where
  whichPipe : Nat
  readFile : Option PipeMessage
  createFileA : Bool
  writeFile : Bool

/-- `ReadFile`, which writes the bytes of the message and nothing behind them. -/
def PipeMessage.readInto (message : PipeMessage) (request : CharArray pipeBufsize) :
    CharArray pipeBufsize where
  cells := message.text.chars ++ request.cells.drop message.text.strlen
  size := by
    have hfits := message.fits
    rw [List.length_append, List.length_drop, request.size]
    exact Nat.add_sub_cancel' hfits.le

/-- What is in the array behind `write_to_log_file`, and what has been appended. -/
def writeToLogFile (calls : LoggerCalls) (request : CharArray pipeBufsize) :
    Except Stop (CharArray pipeBufsize × Option (List Byte)) :=
  if calls.createFileA = false then .ok (request, none)
  else do
    let length ← request.strlen
    .ok (.zero pipeBufsize, if calls.writeFile then some (request.cells.take length) else none)

/-- The loop of `main`, with what each round appends. -/
def logger : List LoggerCalls → CharArray pipeBufsize → Except Stop (List (Option (List Byte)))
  | [], _ => .ok []
  | calls :: rounds, request =>
    if maxPipes ≤ calls.whichPipe then .ok []
    else match calls.readFile with
      | none => do
        let texts ← logger rounds request
        .ok (none :: texts)
      | some message => do
        let (request, appended) ← writeToLogFile calls (message.readInto request)
        let texts ← logger rounds request
        .ok (appended :: texts)

/-! ### What is left in the array -/

/-- What is appended in a round is the message that has been read in it. -/
def AppendsReceived (round : LoggerCalls × Option (List Byte)) : Prop :=
  ∀ text, round.2 = some text → round.1.readFile.map (·.text.chars) = some text

/-- Each message that is appended is as long as those that have come since the log file was last open.
-/
def Covering : (missed : List PipeMessage) → List LoggerCalls → Prop
  | _, [] => True
  | missed, calls :: rounds =>
    maxPipes ≤ calls.whichPipe ∨ match calls.readFile with
      | none => Covering missed rounds
      | some message =>
        if calls.createFileA = false then Covering (message :: missed) rounds
        else (calls.writeFile = true → ∀ m ∈ missed, m.text.strlen ≤ message.text.strlen) ∧
          Covering [] rounds

/-- The array holds a string as long as the longest of the messages, and NULs behind it. -/
structure Holds (missed : List PipeMessage) (request : CharArray pipeBufsize) (s : List Byte) : Prop where
  noNul : NUL ∉ s
  cells : ∃ n, request.cells = s ++ List.replicate n NUL
  length : ∀ k, s.length ≤ k ↔ ∀ m ∈ missed, m.text.strlen ≤ k

theorem holds_zero : Holds [] (.zero pipeBufsize) [] where
  noNul := nofun
  cells := ⟨pipeBufsize, rfl⟩
  length _ := iff_of_true (Nat.zero_le _) nofun

section

variable {missed : List PipeMessage} {request : CharArray pipeBufsize} {s : List Byte}

/-- A message is written over the front of the string. -/
theorem Holds.readInto (h : Holds missed request s) (message : PipeMessage) :
    Holds (message :: missed) (message.readInto request)
      (message.text.chars ++ s.drop message.text.strlen) where
  noNul := by
    rw [List.mem_append, not_or]
    exact ⟨message.text.noNul, fun hmem => h.noNul (List.mem_of_mem_drop hmem)⟩
  cells := by
    obtain ⟨n, hcells⟩ := h.cells
    refine ⟨n - (message.text.strlen - s.length), ?_⟩
    change _ ++ request.cells.drop _ = _
    rw [hcells, List.drop_append, List.drop_replicate, List.append_assoc]
  length k := by
    rw [List.forall_mem_cons, ← h.length k, List.length_append, List.length_drop]
    change message.text.strlen + _ ≤ k ↔ _
    omega

/-- The string ends inside of the array. -/
theorem Holds.strlen (h : Holds missed request s) : request.strlen = .ok s.length := by
  obtain ⟨n, hcells⟩ := h.cells
  have hlt : s.length ≤ pipeBufsize - 1 :=
    (h.length _).mpr fun m _ => Nat.le_sub_one_of_lt m.fits
  have hsize := request.size
  rw [hcells, List.length_append, List.length_replicate] at hsize
  obtain ⟨n, rfl⟩ : ∃ m, n = m + 1 := ⟨n - 1, by rw [pipeBufsize] at hlt hsize; omega⟩
  exact strlen_of_cells hcells h.noNul

/-- An open log file gets the string, and the array is clear behind it. -/
theorem Holds.writeToLogFile (h : Holds missed request s) {calls : LoggerCalls}
    (hopen : calls.createFileA = true) :
    writeToLogFile calls request =
      .ok (.zero pipeBufsize, if calls.writeFile = true then some s else none) := by
  obtain ⟨n, hcells⟩ := h.cells
  have htake : request.cells.take s.length = s := by rw [hcells, List.take_left]
  rw [Sacagawea.writeToLogFile, if_neg (by rw [hopen]; decide), h.strlen, ok_bind, htake]

end

/-- The array is followed from round to round. -/
theorem logger_holds (rounds : List LoggerCalls) {missed : List PipeMessage}
    {request : CharArray pipeBufsize} {s : List Byte} (h : Holds missed request s) :
    ∃ texts, logger rounds request = .ok texts ∧
      ((∀ round ∈ rounds.zip texts, AppendsReceived round) ↔ Covering missed rounds) := by
  induction rounds generalizing missed request s with
  | nil => exact ⟨[], rfl, iff_of_true nofun trivial⟩
  | cons calls rounds ih =>
    rw [logger, Covering]
    by_cases hpipe : maxPipes ≤ calls.whichPipe
    · exact ⟨[], if_pos hpipe, iff_of_true (by rw [List.zip_nil_right]; nofun) (.inl hpipe)⟩
    rw [if_neg hpipe, or_iff_right hpipe]
    cases hread : calls.readFile with
    | none =>
      obtain ⟨texts, hok, hiff⟩ := ih h
      refine ⟨none :: texts, by simp only [hok, ok_bind], ?_⟩
      rw [List.zip_cons_cons, List.forall_mem_cons, hiff]
      exact and_iff_right nofun
    | some message =>
      have hheld := h.readInto message
      cases hopen : calls.createFileA with
      | false =>
        obtain ⟨texts, hok, hiff⟩ := ih hheld
        refine ⟨none :: texts, by simp only [writeToLogFile, hopen, if_true, ok_bind, hok], ?_⟩
        rw [List.zip_cons_cons, List.forall_mem_cons, hiff]
        exact and_iff_right nofun
      | true =>
        obtain ⟨texts, hok, hiff⟩ := ih holds_zero
        refine ⟨_ :: texts, by simp only [hheld.writeToLogFile hopen, ok_bind, hok]; rfl, ?_⟩
        rw [List.zip_cons_cons, List.forall_mem_cons, hiff]
        refine and_congr ?_ Iff.rfl
        rw [AppendsReceived, hread, ← h.length]
        cases hwrite : calls.writeFile with
        | false => exact iff_of_true nofun nofun
        | true =>
          rw [if_pos rfl, imp_iff_right rfl]
          have hdrop : s.drop message.text.strlen = [] ↔ s.length ≤ message.text.strlen :=
            List.drop_eq_nil_iff
          rw [← hdrop]
          constructor
          · intro hall
            have hsame := Option.some.inj (hall _ rfl)
            exact List.append_right_eq_self.mp hsame.symm
          · rintro hnil _ ⟨⟩
            rw [hnil, List.append_nil]
            rfl

/-- Every text that is appended is the message of its round exactly when no message is shorter than one
that has come, and has not been appended, since the log file was last open. -/
theorem logger_received_iff (rounds : List LoggerCalls) :
    (∃ texts, logger rounds (.zero pipeBufsize) = .ok texts ∧
      ∀ round ∈ rounds.zip texts, AppendsReceived round) ↔ Covering [] rounds := by
  obtain ⟨texts, hok, hiff⟩ := logger_holds rounds holds_zero
  rw [← hiff]
  constructor
  · rintro ⟨texts', hok', hall⟩
    rw [Except.ok.inj (hok.symm.trans hok')]
    exact hall
  · exact fun hall => ⟨texts, hok, hall⟩

/-- The log file is locked when the first message comes, and open again for the second. -/
def lockedOnce : List LoggerCalls :=
  [⟨3, some ⟨CStr.lit "/srv/readme\n", by decide⟩, false, true⟩,
    ⟨5, some ⟨CStr.lit "/srv/a\n", by decide⟩, true, true⟩]

/-- The end of the first message is appended with the second. -/
theorem lockedOnce_appends :
    logger lockedOnce (.zero pipeBufsize) = .ok [none, some (bytes "/srv/a\nadme\n")] ∧
      ¬ ∃ texts, logger lockedOnce (.zero pipeBufsize) = .ok texts ∧
        ∀ round ∈ lockedOnce.zip texts, AppendsReceived round := by
  have hrun : logger lockedOnce (.zero pipeBufsize) = .ok [none, some (bytes "/srv/a\nadme\n")] := by
    decide +kernel
  refine ⟨hrun, ?_⟩
  rintro ⟨texts, hok, hall⟩
  obtain rfl := Except.ok.inj (hrun.symm.trans hok)
  have hsecond := hall (lockedOnce[1], _) (.tail _ (.head _)) _ rfl
  exact absurd hsecond (by decide)

end Sacagawea
