import Sacagawea.Transfer.Calls

/-!
# Sending a file

`thread_sender` of gopher.c sends a mapped file in as many calls of `send` as it takes, shuts the
connection down for writing and waits until the client has closed it. Then it puts a record for the
log into the pipe. Where the source ends the thread with `pthread_exit`, the function returns here.
-/

namespace Sacagawea

open Program

/-! ### The code -/

/-- The loop that sends, which ends the thread where the result is `none`. Each round sends a byte at
least, so the length of the file bounds their number. -/
def sendLoop (file : List Byte) : (rounds bytesSent : Nat) → Serve (Option Nat)
  | 0, bytesSent => return some bytesSent
  | rounds + 1, bytesSent =>
    if bytesSent < file.length then do
      let temp : Int ← perform (.send (file.drop bytesSent))
      if temp < 0 then do
        log
        return none
      else if temp = 0 then do
        log
        return none
      else do
        log
        sendLoop file rounds (bytesSent + temp.toNat)
    else return some bytesSent

/-- The loop that waits for the client to close, for as many rounds as are looked at. -/
def recvLoop : (rounds : Nat) → Serve Bool
  | 0 => .halt .waiting
  | rounds + 1 => do
    let ret : Int ← perform .recv
    if ret < 0 then do
      log
      return false
    else if ret ≠ 0 then recvLoop rounds
    else return true

/-- The critical section. -/
def sendRecord (record : CStr) : Serve Unit := do
  let header : PipeAnswer ← perform (.writeLen record.strlen)
  match header with
  | .failed => log
  | .brokenPipe => .halt .sigpipe
  | .written => do
    let body : PipeAnswer ← perform (.writeText record)
    match body with
    | .failed => log
    | .brokenPipe => .halt .sigpipe
    | .written => do
      let signalled : Bool ← perform .condSignal
      logUnless signalled
      let unlocked : Bool ← perform .mutexUnlock
      logUnless unlocked

/-- The part for the log. -/
def logTransfer (pathFile : CStr) (lenFile : Nat) (addr : CStr) : Serve Unit := do
  let date : Option Tm ← perform .dateString
  match date with
  | none => fail 5
  | some tm => do
    let allocated : Bool ← perform (.allocate .logsString)
    if allocated then do
      let formatted : Bool ← perform .format
      if formatted then do
        let locked : Bool ← perform .mutexLock
        if locked then sendRecord (logsString (dateString tm) pathFile lenFile addr) else log
      else log
    else log

/-- `thread_sender`, with as many rounds of the last loop as are looked at. -/
def threadSender (rounds : Nat) (file : List Byte) (pathFile addr : CStr) : Serve Unit := do
  let ignored : Bool ← perform .signal
  if ignored then do
    let sent ← sendLoop file file.length 0
    match sent with
    | none => return ()
    | some bytesSent => do
      let shut : Bool ← perform .shutdown
      if shut then do
        let closed ← recvLoop rounds
        if closed ∧ bytesSent = file.length then logTransfer pathFile file.length addr else return ()
      else log
  else fail 1

/-! ### What a trace shows -/

/-- What the client is handed by a call. -/
def handed : (Σ c, Answer c) → List Byte
  | ⟨.send rest, (temp : Int)⟩ => rest.take temp.toNat
  | _ => []

def handedOver (trace : Trace Answer) : List Byte := trace.flatMap handed

/-- What a call adds to `bytes_sent`. -/
def counted : (Σ c, Answer c) → Nat
  | ⟨.send _, (temp : Int)⟩ => temp.toNat
  | _ => 0

def bytesSent (trace : Trace Answer) : Nat := (trace.map counted).sum

/-- The sender gets the mutex of the log. -/
def enters : (Σ c, Answer c) → Bool
  | ⟨.mutexLock, (locked : Bool)⟩ => locked
  | _ => false

def entries (trace : Trace Answer) : Nat := trace.countP enters

/-- `send` takes no more than it is given. -/
def Possible : (Σ c, Answer c) → Prop
  | ⟨.send rest, (temp : Int)⟩ => temp ≤ rest.length
  | _ => True

/-- The transfer goes wrong in the call. -/
def Broken : (Σ c, Answer c) → Prop
  | ⟨.send _, (temp : Int)⟩ => temp ≤ 0
  | ⟨.shutdown, (ok : Bool)⟩ => ok = false
  | ⟨.recv, (result : Int)⟩ => result < 0
  | _ => False

/-- A call for memory, for a formatted text or for the mutex is refused. -/
def Refused : (Σ c, Answer c) → Prop
  | ⟨.dateString, (date : Option Tm)⟩ => date = none
  | ⟨.allocate _, (ok : Bool)⟩ => ok = false
  | ⟨.format, (ok : Bool)⟩ => ok = false
  | ⟨.mutexLock, (ok : Bool)⟩ => ok = false
  | _ => False

/-- All bytes were sent, the connection was shut down and closed by the client, and nothing failed.
-/
structure Complete (file : List Byte) (trace : Trace Answer) : Prop where
  sent : bytesSent trace = file.length
  shut : ⟨.shutdown, true⟩ ∈ trace
  closed : ⟨.recv, (0 : Int)⟩ ∈ trace
  clean : ∀ event ∈ trace, ¬ Broken event

/-! ### Calls that are no part of the transfer -/

def Call.Sends : Call → Prop
  | .send _ => True
  | _ => False

/-- A call on the connection. -/
def Call.Transfers : Call → Prop
  | .send _ | .shutdown | .recv => True
  | _ => False

/-- A call of the critical section. -/
def Call.Records : Call → Prop
  | .mutexLock | .writeLen _ | .writeText _ => True
  | _ => False

/-- A call of the part for the log. -/
def Call.Logs : Call → Prop
  | .writeLog | .dateString | .allocate _ | .format | .mutexLock | .writeLen _ | .writeText _
  | .condSignal | .mutexUnlock => True
  | _ => False

theorem Call.Logs.not_transfers {c : Call} (h : c.Logs) : ¬ c.Transfers := by
  cases c <;> first | exact id | exact h.elim

theorem Call.Sends.transfers {c : Call} (h : c.Sends) : c.Transfers := by
  cases c <;> first | exact trivial | exact h.elim

theorem not_handed {event : Σ c, Answer c} (h : ¬ event.1.Sends) :
    handed event = [] ∧ counted event = 0 := by
  obtain ⟨c, answer⟩ := event
  cases c <;> first | exact ⟨rfl, rfl⟩ | exact absurd trivial h

theorem not_broken {event : Σ c, Answer c} (h : ¬ event.1.Transfers) : ¬ Broken event := by
  obtain ⟨c, answer⟩ := event
  cases c <;> first | exact id | exact absurd trivial h

theorem enters_of_ne {event : Σ c, Answer c} (h : event.1 ≠ .mutexLock) : enters event = false := by
  obtain ⟨c, answer⟩ := event
  cases c <;> first | rfl | exact absurd rfl h

theorem handedOver_append (front back : Trace Answer) :
    handedOver (front ++ back) = handedOver front ++ handedOver back :=
  List.flatMap_append

theorem bytesSent_append (front back : Trace Answer) :
    bytesSent (front ++ back) = bytesSent front + bytesSent back := by
  rw [bytesSent, List.map_append, List.sum_append]
  rfl

theorem entries_append (front back : Trace Answer) :
    entries (front ++ back) = entries front + entries back :=
  List.countP_append

/-- The trace hands nothing over. -/
def Quiet (trace : Trace Answer) : Prop := handedOver trace = [] ∧ bytesSent trace = 0

theorem quiet_of_no_send {trace : Trace Answer} (h : ∀ event ∈ trace, ¬ event.1.Sends) :
    Quiet trace := by
  constructor
  · exact List.flatMap_eq_nil_iff.mpr fun event hevent => (not_handed (h event hevent)).1
  · apply List.sum_eq_zero_iff_forall_eq_nat.mpr
    intro n hn
    obtain ⟨event, hevent, rfl⟩ := List.mem_map.mp hn
    exact (not_handed (h event hevent)).2

theorem entries_eq_zero {trace : Trace Answer} (h : ∀ event ∈ trace, event.1 ≠ .mutexLock) :
    entries trace = 0 :=
  List.countP_eq_zero.mpr fun event hevent => by simp [enters_of_ne (h event hevent)]

theorem entries_of_no_records {trace : Trace Answer} (h : ∀ event ∈ trace, ¬ event.1.Records) :
    entries trace = 0 :=
  entries_eq_zero fun event hevent heq => h event hevent (heq ▸ trivial)

theorem makesOnly_sendLoop {Q : Call → Prop} (hlog : Q .writeLog) (hsend : ∀ rest, Q (.send rest))
    (file : List Byte) (rounds sent : Nat) : (sendLoop file rounds sent).MakesOnly Q := by
  induction rounds generalizing sent with
  | zero => trivial
  | succ rounds ih =>
    rw [sendLoop]
    split
    · refine .ask_bind (hsend _) fun (temp : Int) => ?_
      split_ifs
      · exact (makesOnly_log hlog).bind fun _ => trivial
      · exact (makesOnly_log hlog).bind fun _ => trivial
      · exact (makesOnly_log hlog).bind fun _ => ih _
    · trivial

theorem makesOnly_recvLoop {Q : Call → Prop} (hlog : Q .writeLog) (hrecv : Q .recv) (rounds : Nat) :
    (recvLoop rounds).MakesOnly Q := by
  induction rounds with
  | zero => trivial
  | succ rounds ih =>
    refine .ask_bind hrecv fun (result : Int) => ?_
    split_ifs
    · exact (makesOnly_log hlog).bind fun _ => trivial
    · exact ih
    · trivial

theorem makesOnly_sendRecord {Q : Call → Prop} {record : CStr} (hlog : Q .writeLog)
    (hlen : Q (.writeLen record.strlen)) (htext : Q (.writeText record)) (hsignal : Q .condSignal)
    (hunlock : Q .mutexUnlock) : (sendRecord record).MakesOnly Q := by
  refine .ask_bind hlen fun (header : PipeAnswer) => ?_
  cases header with
  | failed => exact makesOnly_log hlog
  | brokenPipe => trivial
  | written =>
    refine .ask_bind htext fun (body : PipeAnswer) => ?_
    cases body with
    | failed => exact makesOnly_log hlog
    | brokenPipe => trivial
    | written =>
      refine .ask_bind hsignal fun signalled => ?_
      refine (makesOnly_logUnless hlog signalled).bind fun _ => ?_
      exact .ask_bind hunlock fun unlocked => makesOnly_logUnless hlog unlocked

/-! ### The loops -/

/-- `write_log` hands nothing over, and nothing goes wrong with the transfer there. -/
theorem quiet_log {trace : Trace Answer} {q : Serve Unit} (h : log.Steps trace q) :
    Quiet trace ∧ ∀ event ∈ trace, ¬ Broken event := by
  have hcalls := (makesOnly_log (Q := fun c => ¬ c.Transfers) id).of_mem h
  refine ⟨quiet_of_no_send fun event hevent hsend => ?_, fun event hevent => ?_⟩
  · exact hcalls event hevent hsend.transfers
  · exact not_broken (hcalls event hevent)

/-- The client is handed the bytes of the file from a place on, and as many as are counted. -/
def InStep (file : List Byte) (sent : Nat) (trace : Trace Answer) : Prop :=
  handedOver trace = (file.drop sent).take (bytesSent trace) ∧ sent + bytesSent trace ≤ file.length

theorem inStep_nil {file : List Byte} {sent : Nat} (hsent : sent ≤ file.length) :
    InStep file sent [] :=
  ⟨rfl, hsent⟩

/-- A call of `send` keeps step with what follows. -/
theorem inStep_cons {file : List Byte} {sent : Nat} {temp : Int} {trace : Trace Answer}
    (h : InStep file (sent + temp.toNat) trace) :
    InStep file sent (⟨.send (file.drop sent), temp⟩ :: trace) := by
  obtain ⟨hhanded, hcount⟩ := h
  have hsum : bytesSent (⟨.send (file.drop sent), temp⟩ :: trace) = temp.toNat + bytesSent trace := rfl
  refine ⟨?_, by rw [hsum, ← Nat.add_assoc]; exact hcount⟩
  rw [hsum, List.take_add, List.drop_drop, ← hhanded]
  rfl

theorem inStep_quiet_append {file : List Byte} {sent : Nat} {front back : Trace Answer}
    (hfront : Quiet front) (h : InStep file sent back) : InStep file sent (front ++ back) := by
  rw [InStep, handedOver_append, bytesSent_append, hfront.1, hfront.2, List.nil_append, Nat.zero_add]
  exact h

theorem inStep_append_quiet {file : List Byte} {sent : Nat} {front back : Trace Answer}
    (h : InStep file sent front) (hback : Quiet back) : InStep file sent (front ++ back) := by
  rw [InStep, handedOver_append, bytesSent_append, hback.1, hback.2, List.append_nil, Nat.add_zero]
  exact h

/-- `write_log` keeps step with what follows. -/
theorem inStep_log {file : List Byte} {sent : Nat} {α : Type} {f : Unit → Serve α}
    {trace : Trace Answer} {q : Serve α} (hsent : sent ≤ file.length) (h : (log >>= f).Steps trace q)
    (hpossible : ∀ event ∈ trace, Possible event)
    (hf : ∀ back, (f ()).Steps back q → (∀ event ∈ back, Possible event) → InStep file sent back) :
    InStep file sent trace := by
  rcases Steps.of_bind h with ⟨p, hp, -, -⟩ | ⟨front, back, _, rfl, hfront, hback⟩
  · have hlast := inStep_quiet_append (quiet_log hp).1 (inStep_nil hsent)
    rwa [List.append_nil] at hlast
  · apply inStep_quiet_append (quiet_log hfront).1
    exact hf back hback fun event hevent => hpossible event (List.mem_append_right _ hevent)

/-- At every moment of the loop the client has been handed the bytes from where it began. -/
theorem inStep_sendLoop {file : List Byte} {rounds sent : Nat} {trace : Trace Answer}
    {q : Serve (Option Nat)} (h : (sendLoop file rounds sent).Steps trace q)
    (hpossible : ∀ event ∈ trace, Possible event) (hsent : sent ≤ file.length) :
    InStep file sent trace := by
  induction rounds generalizing sent trace with
  | zero =>
    obtain ⟨rfl, -⟩ := steps_ret_iff.mp h
    exact inStep_nil hsent
  | succ rounds ih =>
    rw [sendLoop] at h
    split at h
    next hmore =>
      rcases steps_ask_bind h with ⟨rfl, -⟩ | ⟨(temp : Int), rest, rfl, hrun⟩
      · exact inStep_nil hsent
      obtain ⟨hroom, hrest⟩ := List.forall_mem_cons.mp hpossible
      change temp ≤ (file.drop sent).length at hroom
      rw [List.length_drop] at hroom
      have hnext : sent + temp.toNat ≤ file.length := by omega
      apply inStep_cons
      have hend : ∀ back, Steps (.ret none : Serve (Option Nat)) back q →
          (∀ event ∈ back, Possible event) → InStep file (sent + temp.toNat) back := by
        intro back hback _
        rw [(steps_ret_iff.mp hback).1]
        exact inStep_nil hnext
      by_cases hneg : temp < 0
      · rw [if_pos hneg] at hrun
        exact inStep_log hnext hrun hrest hend
      · by_cases hzero : temp = 0
        · rw [if_neg hneg, if_pos hzero] at hrun
          exact inStep_log hnext hrun hrest hend
        · rw [if_neg hneg, if_neg hzero] at hrun
          exact inStep_log hnext hrun hrest fun back hback hposs => ih hback hposs hnext
    next =>
      obtain ⟨rfl, -⟩ := steps_ret_iff.mp h
      exact inStep_nil hsent

/-- `write_log` and the end of the thread behind a failure. -/
theorem broken_of_log {α : Type} {event : Σ c, Answer c} {rest : Trace Answer} {a b : α}
    (hbroken : Broken event) (h : (do log; return a : Serve α).Steps rest (.ret b)) :
    (∃ e ∈ event :: rest, Broken e) ∧ b = a := by
  refine ⟨⟨event, List.mem_cons_self, hbroken⟩, ?_⟩
  obtain ⟨front, back, _, -, -, hback⟩ := Steps.of_bind_ret h
  obtain ⟨-, hret⟩ := steps_ret_iff.mp hback
  cases hret
  rfl

/-- The loop ends with all bytes sent, or behind a call that failed. -/
theorem sendLoop_ret {file : List Byte} {rounds sent : Nat} {trace : Trace Answer} {result : Option Nat}
    (h : (sendLoop file rounds sent).Steps trace (.ret result))
    (hpossible : ∀ event ∈ trace, Possible event) (hsent : sent ≤ file.length)
    (hrounds : file.length - sent ≤ rounds) :
    (∃ event ∈ trace, Broken event) ∧ result = none ∨
      result = some file.length ∧ sent + bytesSent trace = file.length ∧
        ∀ event ∈ trace, ¬ Broken event := by
  induction rounds generalizing sent trace with
  | zero =>
    obtain ⟨rfl, hret⟩ := steps_ret_iff.mp h
    cases hret
    have hall : sent = file.length := by omega
    exact .inr ⟨by rw [hall], hall, nofun⟩
  | succ rounds ih =>
    rw [sendLoop] at h
    split at h
    next hmore =>
      rcases steps_ask_bind h with ⟨-, hret⟩ | ⟨(temp : Int), rest, rfl, hrun⟩
      · cases hret
      obtain ⟨hroom, hrest⟩ := List.forall_mem_cons.mp hpossible
      change temp ≤ (file.drop sent).length at hroom
      rw [List.length_drop] at hroom
      by_cases hneg : temp < 0
      · rw [if_pos hneg] at hrun
        have hbroken : Broken ⟨.send (file.drop sent), temp⟩ := Int.le_of_lt hneg
        exact .inl (broken_of_log hbroken hrun)
      · by_cases hzero : temp = 0
        · rw [if_neg hneg, if_pos hzero] at hrun
          have hbroken : Broken ⟨.send (file.drop sent), temp⟩ := Int.le_of_eq hzero
          exact .inl (broken_of_log hbroken hrun)
        · rw [if_neg hneg, if_neg hzero] at hrun
          obtain ⟨front, back, _, rfl, hfront, hback⟩ := Steps.of_bind_ret hrun
          obtain ⟨⟨-, hcount⟩, hclean⟩ := quiet_log hfront
          have hposs : ∀ event ∈ back, Possible event := fun event hevent =>
            hrest event (List.mem_append_right _ hevent)
          have hsum : bytesSent (⟨.send (file.drop sent), temp⟩ :: (front ++ back)) =
              temp.toNat + bytesSent back := by
            change temp.toNat + bytesSent (front ++ back) = _
            rw [bytesSent_append, hcount, Nat.zero_add]
          rcases ih hback hposs (by omega) (by omega) with
            ⟨⟨event, hevent, hbroken⟩, hnone⟩ | ⟨hsome, hall, hok⟩
          · exact .inl ⟨⟨event, by simp [hevent], hbroken⟩, hnone⟩
          · refine .inr ⟨hsome, by rw [hsum]; omega, List.forall_mem_cons.mpr ⟨?_, ?_⟩⟩
            · exact fun hle : temp ≤ 0 => by omega
            · exact List.forall_mem_append.mpr ⟨hclean, hok⟩
    next hend =>
      obtain ⟨rfl, hret⟩ := steps_ret_iff.mp h
      cases hret
      have hall : sent = file.length := by omega
      exact .inr ⟨by rw [hall], hall, nofun⟩

/-- The loop that waits returns when the client has closed, and nothing failed before. -/
theorem recvLoop_cases {rounds : Nat} {trace : Trace Answer} {q : Serve Bool}
    (h : (recvLoop rounds).Steps trace q) :
    (q = .ret true ∧ ⟨.recv, (0 : Int)⟩ ∈ trace ∧ ∀ event ∈ trace, ¬ Broken event) ∨
      q ≠ .ret true ∧ ((⟨.recv, (0 : Int)⟩ ∉ trace ∧ ∀ closed, q ≠ .ret closed) ∨
        ∃ event ∈ trace, Broken event) := by
  induction rounds generalizing trace with
  | zero =>
    obtain ⟨rfl, rfl⟩ := steps_halt_iff.mp h
    exact .inr ⟨nofun, .inl ⟨List.not_mem_nil, nofun⟩⟩
  | succ rounds ih =>
    rcases steps_ask_bind h with ⟨rfl, rfl⟩ | ⟨(result : Int), rest, rfl, hrun⟩
    · exact .inr ⟨nofun, .inl ⟨List.not_mem_nil, nofun⟩⟩
    by_cases hneg : result < 0
    · rw [if_pos hneg] at hrun
      refine .inr ⟨?_, .inr ⟨⟨.recv, result⟩, List.mem_cons_self, hneg⟩⟩
      intro hq
      rw [hq] at hrun
      obtain ⟨-, back, _, -, -, hback⟩ := Steps.of_bind_ret hrun
      cases (steps_ret_iff.mp hback).2
    · by_cases hmore : result ≠ 0
      · rw [if_neg hneg, if_pos hmore] at hrun
        rcases ih hrun with ⟨hq, hclosed, hclean⟩ | ⟨hq, hlost⟩
        · exact .inl ⟨hq, List.mem_cons_of_mem _ hclosed, List.forall_mem_cons.mpr ⟨hneg, hclean⟩⟩
        · refine .inr ⟨hq, hlost.imp (fun ⟨hno, hq⟩ => ⟨fun hmem => ?_, hq⟩)
            fun ⟨event, hevent, hbroken⟩ => ⟨event, List.mem_cons_of_mem _ hevent, hbroken⟩⟩
          rcases List.mem_cons.mp hmem with heq | hmem
          · cases heq
            exact hmore rfl
          · exact hno hmem
      · rw [if_neg hneg, if_neg hmore] at hrun
        obtain ⟨rfl, hq⟩ := steps_ret_iff.mp hrun
        obtain rfl : result = 0 := not_not.mp hmore
        refine .inl ⟨hq, List.mem_cons_self, List.forall_mem_cons.mpr ⟨hneg, nofun⟩⟩

/-! ### The whole thread -/

/-- A run whose transfer is not over, or failed. -/
structure Unfinished (file : List Byte) (trace : Trace Answer) (q : Serve Unit) : Prop where
  inStep : InStep file 0 trace
  outside : ∀ event ∈ trace, ¬ event.1.Records
  lost : (⟨.recv, (0 : Int)⟩ ∉ trace ∧ q ≠ .ret ()) ∨ ∃ event ∈ trace, Broken event

theorem Unfinished.not_complete {file : List Byte} {trace : Trace Answer} {q : Serve Unit}
    (h : Unfinished file trace q) : ¬ Complete file trace := by
  intro hcomplete
  rcases h.lost with ⟨hno, -⟩ | ⟨event, hevent, hbroken⟩
  · exact hno hcomplete.closed
  · exact hcomplete.clean event hevent hbroken

/-- A thread that returns so has failed in a call. -/
theorem Unfinished.broken {file : List Byte} {trace : Trace Answer} (h : Unfinished file trace (.ret ())) :
    ∃ event ∈ trace, Broken event := by
  rcases h.lost with ⟨-, hret⟩ | hbroken
  · exact absurd rfl hret
  · exact hbroken

/-- A call that is no part of the transfer. -/
theorem Unfinished.cons {file : List Byte} {trace : Trace Answer} {q : Serve Unit}
    (h : Unfinished file trace q) {event : Σ c, Answer c} (htransfer : ¬ event.1.Transfers)
    (hrecord : ¬ event.1.Records) : Unfinished file (event :: trace) q := by
  have hquiet : Quiet [event] := by
    apply quiet_of_no_send
    intro e he hsend
    rw [List.mem_singleton.mp he] at hsend
    exact htransfer hsend.transfers
  refine ⟨inStep_quiet_append hquiet h.inStep, List.forall_mem_cons.mpr ⟨hrecord, h.outside⟩, ?_⟩
  refine h.lost.imp (fun ⟨hno, hq⟩ => ⟨fun hmem => ?_, hq⟩) fun ⟨e, he, hbroken⟩ =>
    ⟨e, List.mem_cons_of_mem _ he, hbroken⟩
  rcases List.mem_cons.mp hmem with heq | hmem
  · exact htransfer (heq ▸ trivial)
  · exact hno hmem

/-- Nothing is sent any more, and the transfer does not come to its end. -/
theorem Unfinished.of_tail {file : List Byte} {front back : Trace Answer} {q : Serve Unit}
    (hfront : InStep file 0 front) (houtside : ∀ event ∈ front, ¬ event.1.Records)
    (hback : ∀ event ∈ back, ¬ event.1.Sends ∧ ¬ event.1.Records)
    (hlost : (⟨.recv, (0 : Int)⟩ ∉ front ++ back ∧ q ≠ .ret ()) ∨
      ∃ event ∈ front ++ back, Broken event) : Unfinished file (front ++ back) q := by
  refine ⟨inStep_append_quiet hfront ?_, List.forall_mem_append.mpr ⟨houtside, ?_⟩, hlost⟩
  · exact quiet_of_no_send fun event hevent => (hback event hevent).1
  · exact fun event hevent => (hback event hevent).2

/-- The file is sent as a whole, and the client can still take from it. -/
structure Sent (file : List Byte) (sends : Trace Answer) : Prop where
  inStep : InStep file 0 sends
  outside : ∀ event ∈ sends, ¬ event.1.Records
  opened : ⟨.recv, (0 : Int)⟩ ∉ sends
  all : 0 + bytesSent sends = file.length
  clean : ∀ event ∈ sends, ¬ Broken event

/-- The transfer is complete and the part for the log is what runs. -/
def Logging (file : List Byte) (pathFile addr : CStr) (trace : Trace Answer) (q : Serve Unit) : Prop :=
  ∃ front back, trace = front ++ back ∧ InStep file 0 front ∧ (∀ event ∈ front, ¬ event.1.Records) ∧
    Complete file front ∧ (logTransfer pathFile file.length addr).Steps back q

/-- Until the client has closed, and behind a failure, the transfer is unfinished. -/
theorem Sent.unfinished {file : List Byte} {sends recvs : Trace Answer} {q : Serve Unit}
    (h : Sent file sends)
    (hrecvs : ⟨.recv, (0 : Int)⟩ ∉ recvs ∧ q ≠ .ret () ∨ ∃ event ∈ recvs, Broken event)
    (hcalls : ∀ event ∈ recvs, ¬ event.1.Sends ∧ ¬ event.1.Records) :
    Unfinished file (sends ++ ⟨.shutdown, true⟩ :: recvs) q := by
  have htail : ∀ event ∈ ⟨.shutdown, true⟩ :: recvs, ¬ event.1.Sends ∧ ¬ event.1.Records :=
    List.forall_mem_cons.mpr ⟨⟨id, id⟩, hcalls⟩
  refine Unfinished.of_tail h.inStep h.outside htail ?_
  rcases hrecvs with ⟨hno, hq⟩ | ⟨event, hevent, hbroken⟩
  · refine .inl ⟨fun hmem => ?_, hq⟩
    rcases List.mem_append.mp hmem with hmem | hmem
    · exact h.opened hmem
    · rcases List.mem_cons.mp hmem with heq | hmem
      · cases heq
      · exact hno hmem
  · exact .inr ⟨event, by simp [hevent], hbroken⟩

theorem Sent.complete {file : List Byte} {sends recvs : Trace Answer} (h : Sent file sends)
    (hquiet : Quiet (⟨.shutdown, true⟩ :: recvs)) (hclosed : ⟨.recv, (0 : Int)⟩ ∈ recvs)
    (hrecvs : ∀ event ∈ recvs, ¬ Broken event) :
    Complete file (sends ++ ⟨.shutdown, true⟩ :: recvs) where
  sent := by
    rw [bytesSent_append, hquiet.2, Nat.add_zero, ← h.all, Nat.zero_add]
  shut := List.mem_append_right _ List.mem_cons_self
  closed := by simp [hclosed]
  clean := by
    refine List.forall_mem_append.mpr ⟨h.clean, ?_⟩
    exact List.forall_mem_cons.mpr ⟨nofun, hrecvs⟩

/-- The part behind `shutdown`. -/
theorem Sent.wait {file : List Byte} {pathFile addr : CStr} {rounds : Nat} {sends rest : Trace Answer}
    {q : Serve Unit} (h : Sent file sends)
    (hrun : (do
      let closed ← recvLoop rounds
      if closed ∧ file.length = file.length then logTransfer pathFile file.length addr
      else return () : Serve Unit).Steps rest q) :
    Unfinished file (sends ++ ⟨.shutdown, true⟩ :: rest) q ∨
      Logging file pathFile addr (sends ++ ⟨.shutdown, true⟩ :: rest) q := by
  have hwait := makesOnly_recvLoop (Q := fun c => ¬ c.Sends ∧ ¬ c.Records) ⟨id, id⟩ ⟨id, id⟩ rounds
  rcases Steps.of_bind hrun with ⟨p, hp, rfl, hnoret⟩ | ⟨recvs, back, closed, rfl, hrecvs, hlast⟩
  · rcases recvLoop_cases hp with ⟨hret, -, -⟩ | ⟨-, hno⟩
    · exact absurd hret (hnoret true)
    · refine .inl (h.unfinished (hno.imp_left ?_) (hwait.of_mem hp))
      exact fun ⟨hno, _⟩ => ⟨hno, bind_ne_ret hnoret _ ()⟩
  have hcalls := hwait.of_mem hrecvs
  rcases recvLoop_cases hrecvs with ⟨hret, hclosed, hok⟩ | ⟨hret, ⟨-, hnoret⟩ | hbroken⟩
  · cases hret
    rw [if_pos ⟨rfl, rfl⟩] at hlast
    have hquiet : Quiet (⟨.shutdown, true⟩ :: recvs) := by
      apply quiet_of_no_send
      exact List.forall_mem_cons.mpr ⟨id, fun event hevent => (hcalls event hevent).1⟩
    refine .inr ⟨sends ++ ⟨.shutdown, true⟩ :: recvs, back, by simp,
      inStep_append_quiet h.inStep hquiet, ?_, h.complete hquiet hclosed hok, hlast⟩
    refine List.forall_mem_append.mpr ⟨h.outside, ?_⟩
    exact List.forall_mem_cons.mpr ⟨id, fun event hevent => (hcalls event hevent).2⟩
  · exact absurd rfl (hnoret closed)
  · have hopened : closed = false := by
      cases closed with
      | false => rfl
      | true => exact absurd rfl hret
    rw [hopened, if_neg (fun h => nomatch h.1)] at hlast
    obtain ⟨rfl, -⟩ := steps_ret_iff.mp hlast
    rw [List.append_nil]
    exact .inl (h.unfinished (.inr hbroken) hcalls)

/-- The call of `signal` comes before the transfer. -/
theorem Logging.cons {file : List Byte} {pathFile addr : CStr} {trace : Trace Answer} {q : Serve Unit}
    (h : Logging file pathFile addr trace q) :
    Logging file pathFile addr (⟨.signal, true⟩ :: trace) q := by
  obtain ⟨front, back, rfl, hstep, houtside, hcomplete, hlog⟩ := h
  have hsignal : Quiet [⟨.signal, true⟩] := ⟨rfl, rfl⟩
  refine ⟨⟨.signal, true⟩ :: front, back, rfl, inStep_quiet_append hsignal hstep,
    List.forall_mem_cons.mpr ⟨id, houtside⟩, ?_, hlog⟩
  exact ⟨(Nat.zero_add _).trans hcomplete.sent, List.mem_cons_of_mem _ hcomplete.shut,
    List.mem_cons_of_mem _ hcomplete.closed, List.forall_mem_cons.mpr ⟨id, hcomplete.clean⟩⟩

/-- At every moment the transfer is unfinished, or it is complete and the part for the log is what
runs. -/
theorem threadSender_cases {rounds : Nat} {file : List Byte} {pathFile addr : CStr} {trace : Trace Answer}
    {q : Serve Unit} (h : (threadSender rounds file pathFile addr).Steps trace q)
    (hpossible : ∀ event ∈ trace, Possible event) :
    Unfinished file trace q ∨ Logging file pathFile addr trace q := by
  have hstart : InStep file 0 [] := inStep_nil (Nat.zero_le _)
  rcases steps_ask_bind h with ⟨rfl, rfl⟩ | ⟨(ignored : Bool), rest, rfl, hrun⟩
  · exact .inl ⟨hstart, List.forall_mem_nil _, .inl ⟨List.not_mem_nil, nofun⟩⟩
  obtain ⟨-, hrest⟩ := List.forall_mem_cons.mp hpossible
  cases ignored with
  | false =>
    have hcalls := (makesOnly_fail (Q := fun c => c = .writeLog) rfl 1).of_mem hrun
    refine .inl (Unfinished.cons (Unfinished.of_tail hstart (List.forall_mem_nil _) ?_ ?_) id id)
    · intro event hevent
      rw [hcalls event hevent]
      exact ⟨id, id⟩
    · refine .inl ⟨fun hmem => (nomatch hcalls _ hmem), ?_⟩
      rintro rfl
      obtain ⟨-, back, _, -, -, hback⟩ := Steps.of_bind_ret hrun
      cases (steps_halt_iff.mp hback).2
  | true =>
    have hloop := makesOnly_sendLoop (Q := fun c => ¬ c.Records ∧ c ≠ .recv) ⟨id, nofun⟩
      (fun _ => ⟨id, nofun⟩) file file.length 0
    rcases Steps.of_bind hrun with ⟨p, hp, rfl, hnoret⟩ | ⟨sends, back, sent, rfl, hsends, hrun⟩
    · have hcalls := hloop.of_mem hp
      refine .inl (Unfinished.cons ⟨inStep_sendLoop hp hrest (Nat.zero_le _), ?_, .inl ⟨?_, ?_⟩⟩ id id)
      · exact fun event hevent => (hcalls event hevent).1
      · exact fun hmem => (hcalls _ hmem).2 rfl
      · exact bind_ne_ret hnoret _ ()
    have hcalls := hloop.of_mem hsends
    have hposs : ∀ event ∈ sends, Possible event := fun event hevent =>
      hrest event (List.mem_append_left _ hevent)
    have hstep := inStep_sendLoop hsends hposs (Nat.zero_le _)
    have houtside : ∀ event ∈ sends, ¬ event.1.Records := fun event hevent => (hcalls event hevent).1
    rcases sendLoop_ret hsends hposs (Nat.zero_le _) (Nat.sub_le _ _) with
      ⟨⟨event, hevent, hbroken⟩, rfl⟩ | ⟨rfl, hall, hclean⟩
    · obtain ⟨rfl, -⟩ := steps_ret_iff.mp hrun
      refine .inl (Unfinished.cons (Unfinished.of_tail hstep houtside (List.forall_mem_nil _) ?_) id id)
      exact .inr ⟨event, List.mem_append_left _ hevent, hbroken⟩
    have hsent : Sent file sends := ⟨hstep, houtside, fun hmem => (hcalls _ hmem).2 rfl, hall, hclean⟩
    rcases steps_ask_bind hrun with ⟨rfl, rfl⟩ | ⟨(shut : Bool), after, rfl, hshut⟩
    · refine .inl (Unfinished.cons (Unfinished.of_tail hstep houtside (List.forall_mem_nil _) ?_) id id)
      rw [List.append_nil]
      exact .inl ⟨hsent.opened, nofun⟩
    cases shut with
    | false =>
      have hlog := (makesOnly_log (Q := fun c => c = .writeLog) rfl).of_mem hshut
      refine .inl (Unfinished.cons (Unfinished.of_tail hstep houtside ?_ ?_) id id)
      · refine List.forall_mem_cons.mpr ⟨⟨id, id⟩, fun event hevent => ?_⟩
        rw [hlog event hevent]
        exact ⟨id, id⟩
      · exact .inr ⟨⟨.shutdown, false⟩, List.mem_append_right _ List.mem_cons_self, rfl⟩
    | true => exact (hsent.wait hshut).imp (·.cons id id) (·.cons)

/-! ### The part for the log -/

theorem makesOnly_logTransfer {Q : Call → Prop} (hQ : ∀ c : Call, c.Logs → Q c) (pathFile : CStr)
    (lenFile : Nat) (addr : CStr) : (logTransfer pathFile lenFile addr).MakesOnly Q := by
  have hlog : Q .writeLog := hQ _ trivial
  refine .ask_bind (hQ _ trivial) fun (date : Option Tm) => ?_
  cases date with
  | none => exact makesOnly_fail hlog 5
  | some tm =>
    refine .ask_bind (hQ _ trivial) fun (allocated : Bool) => ?_
    cases allocated with
    | false => exact makesOnly_log hlog
    | true =>
      refine .ask_bind (hQ _ trivial) fun (formatted : Bool) => ?_
      cases formatted with
      | false => exact makesOnly_log hlog
      | true =>
        refine .ask_bind (hQ _ trivial) fun (locked : Bool) => ?_
        cases locked with
        | false => exact makesOnly_log hlog
        | true =>
          exact makesOnly_sendRecord hlog (hQ _ trivial) (hQ _ trivial) (hQ _ trivial) (hQ _ trivial)

/-- The critical section is entered once at most, and once when nothing is refused in a run that is
over. -/
def EntersOnce (p : Serve Unit) : Prop :=
  ∀ trace q, p.Steps trace q → entries trace ≤ 1 ∧
    ∀ out, q = ofExcept out → (∀ event ∈ trace, ¬ Refused event) → entries trace = 1

theorem ask_ne_ofExcept {c : Call} {f : Answer c → Serve Unit} (out : Except Ending Unit) :
    (perform c >>= f) ≠ ofExcept out := by
  intro h
  cases out <;> cases h

/-- A call in front of the critical section, which is left out when the call is refused. -/
theorem EntersOnce.ask {c : Call} {f : Answer c → Serve Unit} (hc : c ≠ .mutexLock)
    (hrefused : ∀ r, Refused ⟨c, r⟩ → (f r).MakesOnly (· ≠ .mutexLock))
    (hgranted : ∀ r, ¬ Refused ⟨c, r⟩ → EntersOnce (f r)) : EntersOnce (perform c >>= f) := by
  intro trace q h
  rcases steps_ask_bind h with ⟨rfl, rfl⟩ | ⟨r, rest, rfl, hrun⟩
  · exact ⟨Nat.zero_le _, fun out hout => absurd hout (ask_ne_ofExcept out)⟩
  have hcount : entries (⟨c, r⟩ :: rest) = entries rest := by
    rw [entries, List.countP_cons, enters_of_ne hc]
    rfl
  rw [hcount]
  by_cases hr : Refused ⟨c, r⟩
  · rw [entries_eq_zero ((hrefused r hr).of_mem hrun)]
    exact ⟨Nat.zero_le _, fun _ _ hclean => absurd hr (hclean _ List.mem_cons_self)⟩
  · obtain ⟨hle, hone⟩ := hgranted r hr rest q hrun
    exact ⟨hle, fun out hout hclean => hone out hout fun event hevent =>
      hclean event (List.mem_cons_of_mem _ hevent)⟩

theorem EntersOnce.lock {f : Bool → Serve Unit} (hf : ∀ locked, (f locked).MakesOnly (· ≠ .mutexLock)) :
    EntersOnce (perform .mutexLock >>= f) := by
  intro trace q h
  rcases steps_ask_bind h with ⟨rfl, rfl⟩ | ⟨(locked : Bool), rest, rfl, hrun⟩
  · exact ⟨Nat.zero_le _, fun out hout => absurd hout (ask_ne_ofExcept out)⟩
  have hrest : entries rest = 0 := entries_eq_zero ((hf locked).of_mem hrun)
  have hcount : entries (⟨.mutexLock, locked⟩ :: rest) = entries rest + if locked then 1 else 0 :=
    List.countP_cons
  rw [hcount, hrest]
  cases locked with
  | true => exact ⟨le_rfl, fun _ _ _ => rfl⟩
  | false => exact ⟨Nat.zero_le _, fun _ _ hclean => absurd rfl (hclean _ List.mem_cons_self)⟩

theorem Complete.append {file : List Byte} {front back : Trace Answer} (h : Complete file front)
    (hback : ∀ event ∈ back, ¬ event.1.Transfers) : Complete file (front ++ back) where
  sent := by
    have hquiet : Quiet back :=
      quiet_of_no_send fun event hevent hsend => hback event hevent hsend.transfers
    rw [bytesSent_append, hquiet.2, Nat.add_zero, h.sent]
  shut := List.mem_append_left _ h.shut
  closed := List.mem_append_left _ h.closed
  clean := List.forall_mem_append.mpr ⟨h.clean, fun event hevent => not_broken (hback event hevent)⟩

theorem entersOnce_logTransfer (pathFile : CStr) (lenFile : Nat) (addr : CStr) :
    EntersOnce (logTransfer pathFile lenFile addr) := by
  apply EntersOnce.ask (c := .dateString) nofun
  · intro (date : Option Tm) hdate
    obtain rfl : date = none := hdate
    exact makesOnly_fail nofun 5
  intro (date : Option Tm) hdate
  obtain ⟨tm, rfl⟩ := Option.ne_none_iff_exists'.mp hdate
  apply EntersOnce.ask (c := .allocate .logsString) nofun
  · intro (allocated : Bool) hallocated
    obtain rfl : allocated = false := hallocated
    exact makesOnly_log nofun
  intro (allocated : Bool) hallocated
  obtain rfl : allocated = true := Bool.eq_true_of_not_eq_false hallocated
  apply EntersOnce.ask (c := .format) nofun
  · intro (formatted : Bool) hformatted
    obtain rfl : formatted = false := hformatted
    exact makesOnly_log nofun
  intro (formatted : Bool) hformatted
  obtain rfl : formatted = true := Bool.eq_true_of_not_eq_false hformatted
  apply EntersOnce.lock
  intro locked
  cases locked with
  | false => exact makesOnly_log nofun
  | true => exact makesOnly_sendRecord nofun nofun nofun nofun nofun

/-- The part for the log hands nothing over and leaves the transfer complete. -/
theorem Logging.transfer {file : List Byte} {pathFile addr : CStr} {trace : Trace Answer} {q : Serve Unit}
    (h : Logging file pathFile addr trace q) : InStep file 0 trace ∧ Complete file trace := by
  obtain ⟨front, back, rfl, hstep, -, hcomplete, hlog⟩ := h
  have hcalls := (makesOnly_logTransfer (fun _ => Call.Logs.not_transfers) pathFile file.length
    addr).of_mem hlog
  have hquiet : Quiet back :=
    quiet_of_no_send fun event hevent hsend => hcalls event hevent hsend.transfers
  exact ⟨inStep_append_quiet hstep hquiet, hcomplete.append hcalls⟩

theorem Logging.enters_once {file : List Byte} {pathFile addr : CStr} {trace : Trace Answer} {q : Serve Unit}
    (h : Logging file pathFile addr trace q) : entries trace ≤ 1 ∧
      ∀ out, q = ofExcept out → (∀ event ∈ trace, ¬ Refused event) → entries trace = 1 := by
  obtain ⟨front, back, rfl, -, houtside, -, hlog⟩ := h
  obtain ⟨hle, hone⟩ := entersOnce_logTransfer pathFile file.length addr back q hlog
  rw [entries_append, entries_of_no_records houtside, Nat.zero_add]
  exact ⟨hle, fun out hout hclean => hone out hout fun event hevent =>
    hclean event (List.mem_append_right _ hevent)⟩

/-- The client gets the file from its start, as far as is counted. A thread that returns without a
failure has sent the whole file, and the record is for the transfers that are complete. -/
theorem threadSender_delivers {rounds : Nat} {file : List Byte} {pathFile addr : CStr}
    {trace : Trace Answer} {q : Serve Unit} (h : (threadSender rounds file pathFile addr).Steps trace q)
    (hpossible : ∀ event ∈ trace, Possible event) :
    handedOver trace = file.take (bytesSent trace) ∧ bytesSent trace ≤ file.length ∧
      (q = .ret () → (∀ event ∈ trace, ¬ Broken event) → Complete file trace) ∧
      entries trace ≤ 1 ∧ (entries trace = 1 → Complete file trace) ∧
      ∀ out, q = ofExcept out → (∀ event ∈ trace, ¬ Refused event) → Complete file trace →
        entries trace = 1 := by
  rcases threadSender_cases h hpossible with hun | hlogging
  · obtain ⟨hhanded, hcount⟩ := hun.inStep
    have hlock := entries_of_no_records hun.outside
    rw [Nat.zero_add] at hcount
    refine ⟨hhanded, hcount, ?_, by rw [hlock]; exact Nat.zero_le _, fun hone => ?_,
      fun _ _ _ hcomplete => ?_⟩
    · rintro rfl hclean
      obtain ⟨event, hevent, hbroken⟩ := hun.broken
      exact absurd hbroken (hclean event hevent)
    · rw [hlock] at hone
      cases hone
    · exact absurd hcomplete hun.not_complete
  · obtain ⟨⟨hhanded, hcount⟩, hcomplete⟩ := hlogging.transfer
    obtain ⟨hle, hone⟩ := hlogging.enters_once
    rw [Nat.zero_add] at hcount
    exact ⟨hhanded, hcount, fun _ _ => hcomplete, hle, fun _ => hcomplete,
      fun out hout hclean _ => hone out hout hclean⟩

def smallPath : CStr := CStr.lit "/srv/hi"

def smallAddr : CStr := CStr.lit "10.0.0.1:80"

/-- A file of two bytes that is sent in two calls. -/
def twoSends : Trace Answer :=
  let tm : Tm := ⟨⟨0, by decide⟩, 1, 2020, 12, 30, 0⟩
  let record := logsString (dateString tm) smallPath 2 smallAddr
  [⟨.signal, true⟩, ⟨.send (bytes "hi"), (1 : Int)⟩, ⟨.writeLog, LogAnswer.printed⟩,
    ⟨.send (bytes "i"), (1 : Int)⟩, ⟨.writeLog, LogAnswer.printed⟩, ⟨.shutdown, true⟩,
    ⟨.recv, (0 : Int)⟩, ⟨.dateString, some tm⟩, ⟨.allocate .logsString, true⟩, ⟨.format, true⟩,
    ⟨.mutexLock, true⟩, ⟨.writeLen record.strlen, PipeAnswer.written⟩,
    ⟨.writeText record, PipeAnswer.written⟩, ⟨.condSignal, true⟩, ⟨.mutexUnlock, true⟩]

theorem steps_twoSends :
    (threadSender 1 (bytes "hi") smallPath smallAddr).Steps twoSends (.ret ()) := by
  repeat apply Steps.call
  exact .refl _

theorem threadSender_delivers_twoSends :
    (threadSender 1 (bytes "hi") smallPath smallAddr).Steps twoSends (.ret ()) ∧
      handedOver twoSends = bytes "hi" ∧ Complete (bytes "hi") twoSends ∧ entries twoSends = 1 := by
  have hpossible : ∀ event ∈ twoSends, Possible event := by
    simp [twoSends, Possible]
    decide
  have hclean : ∀ event ∈ twoSends, ¬ Broken event := by simp [twoSends, Broken]
  obtain ⟨hhanded, -, hreturned, -, -, hlog⟩ := threadSender_delivers steps_twoSends hpossible
  have hcomplete := hreturned rfl hclean
  exact ⟨steps_twoSends, hhanded, hcomplete,
    hlog (.ok ()) rfl (by simp [twoSends, Refused]) hcomplete⟩

end Sacagawea
