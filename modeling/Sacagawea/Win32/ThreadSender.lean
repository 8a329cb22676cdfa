import Sacagawea.Transfer.Calls

/-!
# Sending a file on Windows

On Windows `thread_sender` maps a page of the file in each round, sends it and unmaps it. A page can
only be mapped at a multiple of its size, and the next round goes on where `send` has stopped.
-/

namespace Sacagawea

namespace Win32

open Program

/-! ### The code -/

/-- The calls of `thread_sender`. -/
inductive Call where
  | writeLog
  | getSystemInfo
  | mapViewOfFile (high low : UInt32) (size : Nat)
  | send (pBuf : List Byte) (size : Int)
  | unmapViewOfFile
  | shutdown
  | recv
  | dateString
  | malloc
  | snprintf
  | createFile
  | waitNamedPipe
  | setNamedPipeHandleState
  | writeFile (logsString : CStr)
  | closeHandle

/-- What `CreateFile` gives for the pipe of the logger. -/
inductive OpenPipe where
  | opened
  | busy
  | failed
  deriving DecidableEq, Repr

/-- What a call can answer: `GetSystemInfo` the allocation granularity, `MapViewOfFile` what is mapped,
and `recv` also the contents of `buff`. -/
def Answer : Call → Type
  | .getSystemInfo => UInt32
  | .mapViewOfFile .. => Option (List Byte)
  | .send .. => Int
  | .recv => Int × CharArray 512
  | .dateString => Option Tm
  | .createFile => OpenPipe
  | .writeLog | .unmapViewOfFile | .shutdown | .malloc | .snprintf | .waitNamedPipe
  | .setNamedPipeHandleState | .writeFile _ | .closeHandle => Bool

abbrev Serve := Program Answer Ending

abbrev perform (c : Call) : Serve (Answer c) := Program.ask c

/-- `write_log`, which ends the process when there is no memory. -/
def log : Serve Unit := do
  let printed : Bool ← perform .writeLog
  if printed then return () else .halt (.exit 5)

/-- `HIDWORD` -/
def hidword (l : Nat) : UInt32 := .ofNat (l / 2 ^ 32)

/-- `LODWORD` -/
def lodword (l : Nat) : UInt32 := .ofNat l

/-- `SOCKET_ERROR` -/
def socketError : Int := -1

/-- The loop that sends, for as many rounds as are looked at. It ends the thread where the result is
`none`. -/
def sendLoop (granularity : UInt32) (file : List Byte) : (rounds bytesSent : Nat) → Serve (Option Nat)
  | 0, _ => .halt .waiting
  | rounds + 1, bytesSent =>
    if bytesSent < file.length then do
      let size := min granularity.toNat (file.length - bytesSent)
      let pBuf : Option (List Byte) ←
        perform (.mapViewOfFile (hidword bytesSent) (lodword bytesSent) size)
      match pBuf with
      | none => do
        log
        return none
      | some pBuf => do
        let temp : Int ← perform (.send pBuf (toInt size))
        if temp = socketError then do
          log
          let _ : Bool ← perform .unmapViewOfFile
          log
          return none
        else do
          let _ : Bool ← perform .unmapViewOfFile
          log
          log
          sendLoop granularity file rounds (bytesSent + temp.toNat)
    else return some bytesSent

/-- The loop that waits for the client to close, for as many rounds as are looked at. What has been
received is logged as a string. -/
def recvLoop : (rounds : Nat) → Serve Bool
  | 0 => .halt .waiting
  | rounds + 1 => do
    let (received, buff) : Int × CharArray 512 ← perform .recv
    if 0 < received then do
      match buff.strlen with
      | .error stop => .halt stop.ending
      | .ok _ => do
        log
        recvLoop rounds
    else if received < 0 then do
      log
      return false
    else return true

/-- The record is written to the pipe of the logger. -/
def sendRecord (logsString : CStr) : Serve Unit := do
  let hPipe : OpenPipe ← perform .createFile
  if hPipe = .failed then log
  else do
    let waited : Bool ← perform .waitNamedPipe
    if waited = false then log
    else do
      let changed : Bool ← perform .setNamedPipeHandleState
      if changed = false then log
      else do
        let written : Bool ← perform (.writeFile logsString)
        if written = false then log
        else do
          let closed : Bool ← perform .closeHandle
          if closed then return () else log

/-- The part for the log. -/
def logTransfer (pathFile : CStr) (lenFile : Nat) (addr : CStr) : Serve Unit := do
  let date : Option Tm ← perform .dateString
  match date with
  | none => do
    log
    .halt (.exit 5)
  | some tm => do
    let allocated : Bool ← perform .malloc
    if allocated = false then log
    else do
      let formatted : Bool ← perform .snprintf
      if formatted = false then log
      else sendRecord (logsString (dateString tm) pathFile lenFile addr)

/-- `thread_sender`, with as many rounds of its loops as are looked at. -/
def threadSender (rounds : Nat) (file : List Byte) (pathFile addr : CStr) : Serve Unit := do
  let granularity : UInt32 ← perform .getSystemInfo
  let sent ← sendLoop granularity file rounds 0
  match sent with
  | none => return ()
  | some bytesSent => do
    let shut : Bool ← perform .shutdown
    if shut = false then log
    else do
      let closed ← recvLoop rounds
      if closed ∧ bytesSent = file.length then logTransfer pathFile file.length addr else return ()

/-! ### What a trace shows -/

/-- The offset that two double words stand for. -/
def offset (high low : UInt32) : Nat := high.toNat * 2 ^ 32 + low.toNat

/-- A call answers as documented: there is memory for `write_log`, a page is mapped exactly at a multiple
of the granularity, and `send` takes a byte at least and no more than it is given. -/
def Possible (granularity : UInt32) (file : List Byte) : (Σ c, Answer c) → Prop
  | ⟨.writeLog, (printed : Bool)⟩ => printed = true
  | ⟨.getSystemInfo, (answer : UInt32)⟩ => answer = granularity
  | ⟨.mapViewOfFile high low size, (pBuf : Option (List Byte))⟩ =>
    pBuf = if granularity.toNat ∣ offset high low then some ((file.drop (offset high low)).take size)
      else none
  | ⟨.send _ size, (temp : Int)⟩ => 1 ≤ temp ∧ temp ≤ size
  | _ => True

/-- `MapViewOfFile` is given a multiple of the granularity. -/
def Aligned (granularity : UInt32) : (Σ c, Answer c) → Prop
  | ⟨.mapViewOfFile high low _, _⟩ => granularity.toNat ∣ offset high low
  | _ => True

/-- `send` takes all that it is given. -/
def TakesAll : (Σ c, Answer c) → Prop
  | ⟨.send _ size, (temp : Int)⟩ => temp = size
  | _ => True

/-- What the client is handed by a call. -/
def handed : (Σ c, Answer c) → List Byte
  | ⟨.send pBuf _, (temp : Int)⟩ => pBuf.take temp.toNat
  | _ => []

def handedOver (trace : Trace Answer) : List Byte := trace.flatMap handed

/-- The offsets are multiples of the granularity, and the client is handed the bytes in order. -/
def Delivers (granularity : UInt32) (bytes : List Byte) (trace : Trace Answer) : Prop :=
  (∀ event ∈ trace, Aligned granularity event) ∧ handedOver trace = bytes

def Call.Sends : Call → Prop
  | .mapViewOfFile .. | .send .. => True
  | _ => False

theorem not_sends {event : Σ c, Answer c} (h : ¬ event.1.Sends) (granularity : UInt32) :
    Aligned granularity event ∧ TakesAll event ∧ handed event = [] := by
  obtain ⟨c, answer⟩ := event
  cases c <;> first | exact ⟨trivial, trivial, rfl⟩ | exact absurd trivial h

theorem offset_words {l : Nat} (h : l < 2 ^ 64) : offset (hidword l) (lodword l) = l := by
  rw [offset, hidword, lodword, UInt32.toNat_ofNat', UInt32.toNat_ofNat']
  omega

/-- A call that maps and sends nothing can be left out. -/
theorem delivers_cons (granularity : UInt32) (bytes : List Byte) {event : Σ c, Answer c}
    {trace : Trace Answer} (h : ¬ event.1.Sends) :
    Delivers granularity bytes (event :: trace) ↔ Delivers granularity bytes trace := by
  obtain ⟨haligned, -, hhanded⟩ := not_sends h granularity
  rw [Delivers, Delivers, List.forall_mem_cons, and_iff_right haligned, handedOver, handedOver,
    List.flatMap_cons, hhanded, List.nil_append]

theorem delivers_append (granularity : UInt32) (bytes : List Byte) {front back : Trace Answer}
    (h : ∀ event ∈ back, ¬ event.1.Sends) :
    Delivers granularity bytes (front ++ back) ↔ Delivers granularity bytes front := by
  have haligned : ∀ event ∈ back, Aligned granularity event :=
    fun event hevent => (not_sends (h event hevent) granularity).1
  have hback : handedOver back = [] :=
    List.flatMap_eq_nil_iff.mpr fun event hevent => (not_sends (h event hevent) granularity).2.2
  rw [Delivers, Delivers, List.forall_mem_append, and_iff_left haligned, handedOver,
    List.flatMap_append, ← handedOver, ← handedOver, hback, List.append_nil]

theorem takesAll_cons {event : Σ c, Answer c} {trace : Trace Answer} (h : ¬ event.1.Sends) :
    (∀ e ∈ event :: trace, TakesAll e) ↔ ∀ e ∈ trace, TakesAll e := by
  rw [List.forall_mem_cons, and_iff_right (not_sends h 0).2.1]

theorem takesAll_append {front back : Trace Answer} (h : ∀ event ∈ back, ¬ event.1.Sends) :
    (∀ e ∈ front ++ back, TakesAll e) ↔ ∀ e ∈ front, TakesAll e := by
  rw [List.forall_mem_append, and_iff_left fun event hevent => (not_sends (h event hevent) 0).2.1]

section

variable {granularity : UInt32} {file : List Byte} {trace : Trace Answer}

theorem leads_log_bind {α : Type} {f : Unit → Serve α} {out : Except Ending α}
    (h : (log >>= f).Leads trace out) (hpossible : ∀ event ∈ trace, Possible granularity file event) :
    ∃ rest, trace = ⟨.writeLog, true⟩ :: rest ∧ (∀ event ∈ rest, Possible granularity file event) ∧
      (f ()).Leads rest out := by
  obtain ⟨(printed : Bool), rest, rfl, hprinted, hrest, hrun⟩ := leads_ask_bind_of_forall h hpossible
  obtain rfl : printed = true := hprinted
  exact ⟨rest, rfl, hrest, hrun⟩

/-- A page that starts at no multiple of the granularity is not mapped, and the thread ends. -/
theorem sendLoop_misaligned {rounds sent : Nat} {out : Except Ending (Option Nat)}
    (h : (sendLoop granularity file (rounds + 1) sent).Leads trace out)
    (hpossible : ∀ event ∈ trace, Possible granularity file event) (hfile : file.length < 2 ^ 64)
    (hsent : sent < file.length) (hno : ¬ granularity.toNat ∣ sent) :
    out = .ok none ∧ ∃ event ∈ trace, ¬ Aligned granularity event := by
  rw [sendLoop, if_pos hsent] at h
  obtain ⟨(pBuf : Option (List Byte)), rest, rfl, hmap, hrest, hrun⟩ :=
    leads_ask_bind_of_forall h hpossible
  have hoffset : offset (hidword sent) (lodword sent) = sent := offset_words (Nat.lt_trans hsent hfile)
  simp only [Possible] at hmap
  rw [hoffset, if_neg hno] at hmap
  subst hmap
  obtain ⟨_, -, -, hret⟩ := leads_log_bind hrun hrest
  refine ⟨(leads_ret_iff.mp hret).2, _, .head _, ?_⟩
  simp only [Aligned]
  rwa [hoffset]

/-- What a round does that starts at a multiple of the granularity. -/
structure Round (granularity : UInt32) (file : List Byte) (sent n : Nat) (trace rest : Trace Answer) :
    Prop where
  pos : 1 ≤ n
  le : n ≤ min granularity.toNat (file.length - sent)
  aligned : (∀ event ∈ trace, Aligned granularity event) ↔ ∀ event ∈ rest, Aligned granularity event
  handed : handedOver trace = (file.drop sent).take n ++ handedOver rest
  takesAll : (∀ event ∈ trace, TakesAll event) ↔
    n = min granularity.toNat (file.length - sent) ∧ ∀ event ∈ rest, TakesAll event

theorem sendLoop_round {rounds sent : Nat} {out : Except Ending (Option Nat)}
    (h : (sendLoop granularity file (rounds + 1) sent).Leads trace out)
    (hpossible : ∀ event ∈ trace, Possible granularity file event) (hfile : file.length < 2 ^ 64)
    (hsent : sent < file.length) (hdvd : granularity.toNat ∣ sent) :
    ∃ n rest, Round granularity file sent n trace rest ∧
      (∀ event ∈ rest, Possible granularity file event) ∧
      (sendLoop granularity file rounds (sent + n)).Leads rest out := by
  rw [sendLoop, if_pos hsent] at h
  have hoffset : offset (hidword sent) (lodword sent) = sent :=
    offset_words (Nat.lt_trans hsent hfile)
  have hword : min granularity.toNat (file.length - sent) < 2 ^ 32 :=
    Nat.lt_of_le_of_lt (min_le_left _ _) granularity.toNat_lt
  generalize hsize : min granularity.toNat (file.length - sent) = size at h hword
  obtain ⟨(pBuf : Option (List Byte)), back, rfl, hmap, hback, hsends⟩ :=
    leads_ask_bind_of_forall h hpossible
  simp only [Possible] at hmap
  rw [hoffset, if_pos hdvd] at hmap
  subst hmap
  obtain ⟨(temp : Int), rest, rfl, hsend, hrest, hrun⟩ := leads_ask_bind_of_forall hsends hback
  obtain ⟨hone, hle⟩ : 1 ≤ temp ∧ temp ≤ toInt size := hsend
  have hint : toInt size = size := toInt_of_pos hword (Int.lt_of_lt_of_le Int.zero_lt_one (hone.trans hle))
  obtain ⟨n, rfl⟩ := Int.eq_ofNat_of_zero_le (Int.le_trans (by decide) hone)
  rw [hint] at hle
  have hno : ¬ (n : Int) = socketError := by
    rw [socketError]
    omega
  rw [if_neg hno] at hrun
  obtain ⟨(unmapped : Bool), rest, rfl, -, hrest, hrun⟩ := leads_ask_bind_of_forall hrun hrest
  obtain ⟨rest, rfl, hrest, hrun⟩ := leads_log_bind hrun hrest
  obtain ⟨rest, rfl, hrest, hrun⟩ := leads_log_bind hrun hrest
  refine ⟨n, rest, ⟨Int.ofNat_le.mp hone, hsize ▸ Int.ofNat_le.mp hle, ?_, ?_, ?_⟩, hrest, hrun⟩
  · simp only [List.forall_mem_cons, Aligned, hoffset, hdvd, true_and]
  · have htake : (List.take size (file.drop sent)).take n = (file.drop sent).take n := by
      rw [List.take_take, min_eq_left (Int.ofNat_le.mp hle)]
    exact congrArg (· ++ handedOver rest) htake
  · simp only [List.forall_mem_cons, TakesAll, hint, hsize, Int.ofNat_inj, true_and]

/-- The loop maps the file page by page exactly when every `send` takes all that it is given. -/
theorem sendLoop_delivers {rounds sent : Nat} {out : Except Ending (Option Nat)}
    (h : (sendLoop granularity file rounds sent).Leads trace out)
    (hpossible : ∀ event ∈ trace, Possible granularity file event) (hfile : file.length < 2 ^ 64)
    (hpos : 0 < granularity.toNat) (hsent : sent ≤ file.length)
    (hstart : sent < file.length → granularity.toNat ∣ sent) (hrounds : file.length - sent < rounds) :
    (∃ result, out = .ok result) ∧
      (Delivers granularity (file.drop sent) trace ↔ ∀ event ∈ trace, TakesAll event) := by
  induction rounds generalizing sent trace with
  | zero => omega
  | succ rounds ih =>
    by_cases hmore : sent < file.length
    · obtain ⟨n, rest, hround, hrest, hrun⟩ := sendLoop_round h hpossible hfile hmore (hstart hmore)
      have hone := hround.pos
      have hle := hround.le
      rw [Delivers, hround.aligned, hround.handed, hround.takesAll]
      by_cases hwhole : n = min granularity.toNat (file.length - sent)
      · have hnext : sent + n ≤ file.length := by omega
        have hdvd : sent + n < file.length → granularity.toNat ∣ sent + n := fun hlt => by
          have hpage : n = granularity.toNat := by omega
          exact (Nat.dvd_add_right (hstart hmore)).mpr (hpage ▸ dvd_rfl)
        obtain ⟨hout, hiff⟩ := ih hrun hrest hnext hdvd (by omega)
        refine ⟨hout, ?_⟩
        rw [and_iff_right hwhole, ← hiff, Delivers]
        nth_rewrite 2 [← List.take_append_drop n (file.drop sent)]
        rw [List.append_right_inj, List.drop_drop]
      · -- the next page starts in the middle of this one
        have hmiddle : sent + n < file.length := by omega
        have hno : ¬ granularity.toNat ∣ sent + n := fun hdvd => by
          have hle := Nat.le_of_dvd hone ((Nat.dvd_add_right (hstart hmore)).mp hdvd)
          omega
        obtain ⟨rounds, rfl⟩ : ∃ k, rounds = k + 1 := ⟨rounds - 1, by omega⟩
        obtain ⟨rfl, event, hevent, hbad⟩ := sendLoop_misaligned hrun hrest hfile hmiddle hno
        exact ⟨⟨_, rfl⟩, iff_of_false (fun hall => hbad (hall.1 event hevent)) fun hall => hwhole hall.1⟩
    · obtain rfl : sent = file.length := by omega
      rw [sendLoop, if_neg hmore] at h
      obtain ⟨rfl, rfl⟩ := leads_ret_iff.mp h
      refine ⟨⟨_, rfl⟩, iff_of_true ⟨nofun, ?_⟩ nofun⟩
      rw [List.drop_length]
      rfl

end

/-! ### Behind the loop -/

theorem makesOnly_log : log.MakesOnly fun c => ¬ c.Sends :=
  .ask_bind id fun printed => by cases printed <;> trivial

theorem makesOnly_recvLoop (rounds : Nat) : (recvLoop rounds).MakesOnly fun c => ¬ c.Sends := by
  induction rounds with
  | zero => trivial
  | succ rounds ih =>
    refine .ask_bind id fun (answer : Int × CharArray 512) => ?_
    dsimp only
    split_ifs
    · cases answer.2.strlen with
      | error stop => trivial
      | ok length => exact makesOnly_log.bind fun _ => ih
    · exact makesOnly_log.bind fun _ => trivial
    · trivial

theorem makesOnly_sendRecord (logsString : CStr) :
    (sendRecord logsString).MakesOnly fun c => ¬ c.Sends := by
  refine .ask_bind id fun (hPipe : OpenPipe) => ?_
  split_ifs
  · exact makesOnly_log
  refine .ask_bind id fun (waited : Bool) => ?_
  split_ifs
  · exact makesOnly_log
  refine .ask_bind id fun (changed : Bool) => ?_
  split_ifs
  · exact makesOnly_log
  refine .ask_bind id fun (written : Bool) => ?_
  split_ifs
  · exact makesOnly_log
  refine .ask_bind id fun (closed : Bool) => ?_
  split_ifs
  · trivial
  · exact makesOnly_log

theorem makesOnly_logTransfer (pathFile : CStr) (lenFile : Nat) (addr : CStr) :
    (logTransfer pathFile lenFile addr).MakesOnly fun c => ¬ c.Sends := by
  refine .ask_bind id fun (date : Option Tm) => ?_
  cases date with
  | none => exact makesOnly_log.bind fun _ => trivial
  | some tm =>
    refine .ask_bind id fun (allocated : Bool) => ?_
    split_ifs
    · exact makesOnly_log
    refine .ask_bind id fun (formatted : Bool) => ?_
    split_ifs
    · exact makesOnly_log
    · exact makesOnly_sendRecord _

/-- What `thread_sender` does behind its loop. -/
theorem makesOnly_closing (rounds : Nat) (file : List Byte) (pathFile addr : CStr) (bytesSent : Nat) :
    (do
      let shut : Bool ← perform .shutdown
      if shut = false then log
      else do
        let closed ← recvLoop rounds
        if closed ∧ bytesSent = file.length then logTransfer pathFile file.length addr
        else return () : Serve Unit).MakesOnly fun c => ¬ c.Sends := by
  refine .ask_bind id fun (shut : Bool) => ?_
  split_ifs
  · exact makesOnly_log
  refine (makesOnly_recvLoop rounds).bind fun closed => ?_
  split_ifs
  · exact makesOnly_logTransfer _ _ _
  · trivial

/-- Each page starts at a multiple of the granularity, and the client is handed the file, exactly when
every `send` takes all that it is given. -/
theorem threadSender_delivers_iff {granularity : UInt32} {file : List Byte} {pathFile addr : CStr}
    {rounds : Nat} {trace : Trace Answer} {out : Except Ending Unit} (hpos : 0 < granularity.toNat)
    (hfile : file.length < 2 ^ 64) (hrounds : file.length < rounds)
    (h : (threadSender rounds file pathFile addr).Leads trace out)
    (hpossible : ∀ event ∈ trace, Possible granularity file event) :
    (∀ event ∈ trace, Aligned granularity event) ∧ handedOver trace = file ↔
      ∀ event ∈ trace, TakesAll event := by
  obtain ⟨(answer : UInt32), back, rfl, hanswer, hback, hrun⟩ := leads_ask_bind_of_forall h hpossible
  obtain rfl : granularity = answer := hanswer.symm
  change Delivers granularity file _ ↔ _
  rw [delivers_cons granularity file id, takesAll_cons id]
  have hloop : ∀ {front : Trace Answer} {out : Except Ending (Option Nat)},
      (sendLoop granularity file rounds 0).Leads front out →
      (∀ event ∈ front, Possible granularity file event) →
      (∃ result, out = .ok result) ∧ (Delivers granularity file front ↔ ∀ event ∈ front, TakesAll event) :=
    fun hfront hposs =>
      sendLoop_delivers hfront hposs hfile hpos (Nat.zero_le _) (fun _ => Nat.dvd_zero _) hrounds
  rcases Leads.of_bind hrun with ⟨e, -, hhalt⟩ | ⟨front, rest, sent, rfl, hfront, hrest⟩
  · obtain ⟨⟨result, hresult⟩, -⟩ := hloop hhalt hback
    cases hresult
  · obtain ⟨-, hiff⟩ := hloop hfront fun event hevent => hback event (List.mem_append_left _ hevent)
    have hquiet : ∀ event ∈ rest, ¬ event.1.Sends := by
      cases sent with
      | none =>
        obtain ⟨rfl, -⟩ := leads_ret_iff.mp hrest
        exact nofun
      | some bytesSent => exact (makesOnly_closing rounds file pathFile addr bytesSent).of_mem hrest
    rw [delivers_append granularity file hquiet, takesAll_append hquiet, hiff]

/-- A file of two bytes, of which `send` takes the first. -/
def shortSend : Trace Answer :=
  [⟨.getSystemInfo, (65536 : UInt32)⟩, ⟨.mapViewOfFile (hidword 0) (lodword 0) 2, some (bytes "hi")⟩,
    ⟨.send (bytes "hi") (toInt 2), (1 : Int)⟩, ⟨.unmapViewOfFile, true⟩, ⟨.writeLog, true⟩,
    ⟨.writeLog, true⟩, ⟨.mapViewOfFile (hidword 1) (lodword 1) 1, (none : Option (List Byte))⟩,
    ⟨.writeLog, true⟩]

theorem offset_start : offset (hidword 0) (lodword 0) = 0 := offset_words (Nat.two_pow_pos 64)

/-- The second byte is to be mapped at offset 1, and is not sent. -/
theorem shortSend_misaligned :
    (threadSender 3 (bytes "hi") (CStr.lit "C:\\hi") (CStr.lit "10.0.0.1:80")).Leads shortSend
        (.ok ()) ∧
      (∀ event ∈ shortSend, Possible 65536 (bytes "hi") event) ∧
      ¬ (∀ event ∈ shortSend, Aligned 65536 event) ∧ handedOver shortSend = bytes "h" := by
  have hsize : toInt 2 = 2 := toInt_of_lt (by decide)
  have hnext : offset (hidword 1) (lodword 1) = 1 := offset_words (by decide)
  refine ⟨?_, ?_, ?_, rfl⟩
  · repeat apply Steps.call
    exact .refl _
  · simp [shortSend, Possible, offset_start, hnext, hsize]
    rfl
  · simp [shortSend, Aligned, hnext]

/-- A file of three bytes in pages of two, of which `send` takes all. The client closes, and the record
is written. -/
def wholeSend (tm : Tm) (record : CStr) : Trace Answer :=
  [⟨.getSystemInfo, (2 : UInt32)⟩, ⟨.mapViewOfFile (hidword 0) (lodword 0) 2, some (bytes "hi")⟩,
    ⟨.send (bytes "hi") (toInt 2), (2 : Int)⟩, ⟨.unmapViewOfFile, true⟩, ⟨.writeLog, true⟩,
    ⟨.writeLog, true⟩, ⟨.mapViewOfFile (hidword 2) (lodword 2) 1, some (bytes "!")⟩,
    ⟨.send (bytes "!") (toInt 1), (1 : Int)⟩, ⟨.unmapViewOfFile, true⟩, ⟨.writeLog, true⟩,
    ⟨.writeLog, true⟩, ⟨.shutdown, true⟩, ⟨.recv, ((0 : Int), CharArray.zero 512)⟩,
    ⟨.dateString, some tm⟩, ⟨.malloc, true⟩, ⟨.snprintf, true⟩, ⟨.createFile, OpenPipe.opened⟩,
    ⟨.waitNamedPipe, true⟩, ⟨.setNamedPipeHandleState, true⟩, ⟨.writeFile record, true⟩,
    ⟨.closeHandle, true⟩]

theorem wholeSend_delivers :
    ∃ tm record, (∀ event ∈ wholeSend tm record, Aligned 2 event) ∧
      handedOver (wholeSend tm record) = bytes "hi!" := by
  let tm : Tm := ⟨0, 1, 2020, 12, 30, 0⟩
  let record := logsString (dateString tm) (CStr.lit "C:\\ho") 3 (CStr.lit "10.0.0.2:80")
  refine ⟨tm, record, ?_⟩
  have htwo : toInt 2 = 2 := toInt_of_lt (by decide)
  have hone : toInt 1 = 1 := toInt_of_lt (by decide)
  have hnext : offset (hidword 2) (lodword 2) = 2 := offset_words (by decide)
  have hrun : (threadSender 4 (bytes "hi!") (CStr.lit "C:\\ho") (CStr.lit "10.0.0.2:80")).Leads
      (wholeSend tm record) (.ok ()) := by
    repeat apply Steps.call
    exact .refl _
  have hpossible : ∀ event ∈ wholeSend tm record, Possible 2 (bytes "hi!") event := by
    simp [wholeSend, Possible, offset_start, hnext, htwo, hone]
    decide
  refine (threadSender_delivers_iff (by decide) (by decide) (by decide) hrun hpossible).mpr ?_
  simp [wholeSend, TakesAll, htwo, hone]

end Win32

end Sacagawea
