import Sacagawea.Transfer.ThreadSender

/-!
# Mapping a file

`load_file_memory_and_send` of utility.c opens the file, locks it, maps it, and has `thread_sender`
send it in a thread that it joins. Where it fails before the mapping it logs that and returns, and
where it fails behind it ends the process.
-/

namespace Sacagawea

open Program

/-! ### The code -/

/-- The branches that release the lock and return. -/
def giveUp : Serve Bool := do
  log
  let unlocked : Bool ← perform (.unlockFile false)
  logUnless unlocked
  let _ ← perform (.close false)
  return false

/-- What follows the mapping. -/
def sendMapped (rounds : Nat) (file : List Byte) (pathFile addr : CStr) : Serve Bool := do
  let unlocked : Bool ← perform (.unlockFile true)
  require 1 unlocked
  let closed : Bool ← perform (.close true)
  require 1 closed
  let created : Bool ← perform .createThread
  require 1 created
  threadSender rounds file pathFile addr
  let joined : Bool ← perform .joinThread
  require 1 joined
  let unmapped : Bool ← perform .munmap
  require 1 unmapped
  return true

def loadFileMemoryAndSend (rounds : Nat) (pathFile addr : CStr) : Serve Bool := do
  let opened : Bool ← perform (.openFile pathFile)
  if opened then do
    let locked : Bool ← perform .lockFile
    if locked then do
      let statFd : Option Nat ← perform .fstat
      match statFd with
      | none => giveUp
      | some lenFile => do
        let fileToSend : Option { file : List Byte // file.length = lenFile } ← perform (.mmap lenFile)
        match fileToSend with
        | none => giveUp
        | some file => sendMapped rounds file.1 pathFile addr
    else do
      log
      return false
  else do
    log
    return false

/-! ### What ends the process -/

theorem safe_sendLoop (file : List Byte) (rounds sent : Nat) : Safe (sendLoop file rounds sent) := by
  induction rounds generalizing sent with
  | zero => trivial
  | succ rounds ih =>
    rw [sendLoop]
    split
    · apply Watched.harmless fun _ => id
      intro (temp : Int)
      split_ifs
      · exact safe_log.bind fun _ => trivial
      · exact safe_log.bind fun _ => trivial
      · exact safe_log.bind fun _ => ih _
    · trivial

theorem safe_recvLoop (rounds : Nat) : Safe (recvLoop rounds) := by
  induction rounds with
  | zero => exact not_not.mpr rfl
  | succ rounds ih =>
    apply Watched.harmless fun _ => id
    intro (result : Int)
    split_ifs
    · exact safe_log.bind fun _ => trivial
    · exact ih
    · trivial

theorem safe_sendRecord (record : CStr) : Safe (sendRecord record) := by
  apply Watched.ask_bind
  · intro (header : PipeAnswer) hfatal
    obtain rfl : header = .brokenPipe := hfatal
    exact nofun
  intro (header : PipeAnswer) hheader
  cases header with
  | failed => exact safe_log
  | brokenPipe => exact absurd rfl hheader
  | written =>
    apply Watched.ask_bind
    · intro (body : PipeAnswer) hfatal
      obtain rfl : body = .brokenPipe := hfatal
      exact nofun
    intro (body : PipeAnswer) hbody
    cases body with
    | failed => exact safe_log
    | brokenPipe => exact absurd rfl hbody
    | written =>
      apply Watched.harmless fun _ => id
      intro signalled
      refine (safe_logUnless signalled).bind fun _ => ?_
      exact Watched.harmless (fun _ => id) fun unlocked => safe_logUnless unlocked

theorem safe_logTransfer (pathFile : CStr) (lenFile : Nat) (addr : CStr) :
    Safe (logTransfer pathFile lenFile addr) := by
  apply Watched.ask_bind
  · intro (date : Option Tm) hfatal
    obtain rfl : date = none := hfatal
    exact dies_fail 5
  intro (date : Option Tm) hdate
  obtain ⟨tm, rfl⟩ := Option.ne_none_iff_exists'.mp hdate
  apply Watched.harmless fun _ hfatal => hfatal.2 rfl
  intro (allocated : Bool)
  cases allocated with
  | false => exact safe_log
  | true =>
    apply Watched.harmless fun _ => id
    intro (formatted : Bool)
    cases formatted with
    | false => exact safe_log
    | true =>
      apply Watched.harmless fun _ => id
      intro (locked : Bool)
      cases locked with
      | false => exact safe_log
      | true => exact safe_sendRecord _

/-- The thread ends the process when one of its calls is answered so, and not otherwise. -/
theorem safe_threadSender (rounds : Nat) (file : List Byte) (pathFile addr : CStr) :
    Safe (threadSender rounds file pathFile addr) := by
  apply Watched.ask_bind
  · intro (ignored : Bool) hfatal
    obtain rfl : ignored = false := hfatal
    exact dies_fail 1
  intro (ignored : Bool) hignored
  obtain rfl : ignored = true := Bool.eq_true_of_not_eq_false hignored
  refine (safe_sendLoop file file.length 0).bind fun sent => ?_
  cases sent with
  | none => trivial
  | some sent =>
    apply Watched.harmless fun _ => id
    intro (shut : Bool)
    cases shut with
    | false => exact safe_log
    | true =>
      refine (safe_recvLoop rounds).bind fun closed => ?_
      change Safe (if _ then _ else _)
      split
      · exact safe_logTransfer _ _ _
      · trivial

theorem safe_giveUp : Safe giveUp := by
  have hmapped : ∀ {ok : Bool}, ¬ (ok = false ∧ false = true) := fun hfatal =>
    Bool.false_ne_true hfatal.2
  refine safe_log.bind fun _ => Watched.harmless (fun _ => hmapped) fun unlocked => ?_
  refine (safe_logUnless unlocked).bind fun _ => ?_
  exact Watched.harmless (fun _ => hmapped) fun _ => trivial

theorem safe_sendMapped (rounds : Nat) (file : List Byte) (pathFile addr : CStr) :
    Safe (sendMapped rounds file pathFile addr) := by
  apply Watched.ask_bind fun _ hfatal => dies_require_bind hfatal.1
  intro _ hunlocked
  apply safe_require_bind fun h => hunlocked ⟨h, rfl⟩
  apply Watched.ask_bind fun _ hfatal => dies_require_bind hfatal.1
  intro _ hclosed
  apply safe_require_bind fun h => hclosed ⟨h, rfl⟩
  apply Watched.ask_bind fun _ hfatal => dies_require_bind hfatal
  intro _ hcreated
  apply safe_require_bind hcreated
  refine (safe_threadSender rounds file pathFile addr).bind fun _ => ?_
  apply Watched.ask_bind fun _ hfatal => dies_require_bind hfatal
  intro _ hjoined
  apply safe_require_bind hjoined
  apply Watched.ask_bind fun _ hfatal => dies_require_bind hfatal
  intro _ hunmapped
  exact safe_require_bind hunmapped trivial

theorem safe_loadFileMemoryAndSend (rounds : Nat) (pathFile addr : CStr) :
    Safe (loadFileMemoryAndSend rounds pathFile addr) := by
  apply Watched.harmless fun _ => id
  intro (opened : Bool)
  cases opened with
  | false => exact safe_log.bind fun _ => trivial
  | true =>
    apply Watched.harmless fun _ => id
    intro (locked : Bool)
    cases locked with
    | false => exact safe_log.bind fun _ => trivial
    | true =>
      apply Watched.harmless fun _ => id
      intro (statFd : Option Nat)
      cases statFd with
      | none => exact safe_giveUp
      | some lenFile =>
        apply Watched.harmless fun _ => id
        intro (fileToSend : Option { file : List Byte // file.length = lenFile })
        cases fileToSend with
        | none => exact safe_giveUp
        | some file => exact safe_sendMapped rounds file.1 pathFile addr

/-! ### A file that can be served -/

def issue : (Σ c, Answer c) → List CStr
  | ⟨.writeText record, (answer : PipeAnswer)⟩ => if answer = .written then [record] else []
  | _ => []

/-- The records that are put into the pipe. -/
def issued (trace : Trace Answer) : List CStr := trace.flatMap issue

/-- The answers for a file that can be opened and locked, when every send succeeds and the client does
not break the connection. `mmap` fails for the length 0. -/
def GoesWell (file : List Byte) : (Σ c, Answer c) → Prop
  | ⟨.openFile _, (ok : Bool)⟩ | ⟨.lockFile, (ok : Bool)⟩ | ⟨.shutdown, (ok : Bool)⟩
  | ⟨.allocate _, (ok : Bool)⟩ | ⟨.format, (ok : Bool)⟩ | ⟨.mutexLock, (ok : Bool)⟩ => ok = true
  | ⟨.fstat, (size : Option Nat)⟩ => size = some file.length
  | ⟨.mmap lenFile, (mapped : Option { file : List Byte // file.length = lenFile })⟩ =>
    mapped.map Subtype.val = if lenFile = 0 then none else some file
  | ⟨.send rest, (temp : Int)⟩ => 1 ≤ temp ∧ temp ≤ rest.length
  | ⟨.recv, (result : Int)⟩ => 0 ≤ result
  | ⟨.writeLen _, (answer : PipeAnswer)⟩ | ⟨.writeText _, (answer : PipeAnswer)⟩ => answer = .written
  | ⟨c, answer⟩ => ¬ Fatal c answer

/-- The client has the bytes of the file, and the log has one record, which is that of the transfer.
-/
def ServedWhole (file : List Byte) (pathFile addr : CStr) (trace : Trace Answer) : Prop :=
  handedOver trace = file ∧ ∃ tm, issued trace = [logsString (dateString tm) pathFile file.length addr]

theorem GoesWell.not_fatal {file : List Byte} {event : Σ c, Answer c} (h : GoesWell file event) :
    ¬ Fatal event.1 event.2 := by
  obtain ⟨c, answer⟩ := event
  cases c <;> first | exact h | exact id | skip
  case allocate =>
    intro hfatal
    exact Bool.false_ne_true (hfatal.1.symm.trans h)
  case writeLen | writeText =>
    intro hfatal
    cases hfatal.symm.trans h

theorem GoesWell.not_broken {file : List Byte} {event : Σ c, Answer c} (h : GoesWell file event) :
    ¬ Broken event := by
  obtain ⟨c, answer⟩ := event
  cases c <;> first | exact id | skip
  case send =>
    intro (hbroken : _ ≤ 0)
    have := h.1
    omega
  case shutdown => exact fun hbroken => Bool.false_ne_true (hbroken.symm.trans h)
  case recv => exact Int.not_lt.mpr h

theorem GoesWell.possible {file : List Byte} {event : Σ c, Answer c} (h : GoesWell file event) :
    Possible event := by
  obtain ⟨c, answer⟩ := event
  cases c <;> first | trivial | exact h.2

theorem not_returns {α : Type} {p : Serve α} {trace : Trace Answer} {a : α} (hp : Dies p)
    (h : p.Leads trace (.ok a)) : False := by
  obtain ⟨e, he, -⟩ := hp.dead_of_leads h
  cases he

/-- Without a fatal answer only a wait keeps a program from returning. -/
theorem returns_of_not_fatal {α : Type} {p : Serve α} {trace : Trace Answer} {out : Except Ending α}
    (hp : Safe p) (h : p.Leads trace out) (hno : ∀ event ∈ trace, ¬ Fatal event.1 event.2)
    (hclosed : out ≠ .error .waiting) : ∃ result, out = .ok result := by
  cases hout : out with
  | ok result => exact ⟨result, rfl⟩
  | error e =>
    have hdead : ∃ e, out = .error e ∧ e.EndsProcess :=
      ⟨e, hout, fun he => hclosed (by rw [hout, he])⟩
    obtain ⟨event, hevent, hfatal⟩ := (hp.dead_iff h).mp hdead
    exact absurd hfatal (hno event hevent)

/-- A program that goes on behind `require` has what it requires. -/
theorem eq_true_of_require {α : Type} {code : Nat} {ok : Bool} {f : Unit → Serve α}
    {trace : Trace Answer} {a : α} (h : (require code ok >>= f).Leads trace (.ok a)) : ok = true := by
  cases ok with
  | true => rfl
  | false => exact (not_returns (dies_require_bind rfl) h).elim

theorem leads_require {α : Type} {code : Nat} {ok : Bool} {f : Unit → Serve α} {trace : Trace Answer}
    {a : α} (h : (require code ok >>= f).Leads trace (.ok a)) : (f ()).Leads trace (.ok a) := by
  obtain rfl := eq_true_of_require h
  exact h

theorem issued_eq_nil {trace : Trace Answer} (h : ∀ event ∈ trace, ¬ event.1.Records) :
    issued trace = [] := by
  apply List.flatMap_eq_nil_iff.mpr
  intro ⟨c, answer⟩ hevent
  have hno := h _ hevent
  cases c <;> first | rfl | exact absurd trivial hno

/-- The part for the log issues the record, when nothing is refused. -/
theorem logTransfer_issued {file : List Byte} {pathFile addr : CStr} {lenFile : Nat}
    {trace : Trace Answer} (h : (logTransfer pathFile lenFile addr).Leads trace (.ok ()))
    (hwell : ∀ event ∈ trace, GoesWell file event) :
    ∃ tm, issued trace = [logsString (dateString tm) pathFile lenFile addr] := by
  obtain ⟨(date : Option Tm), rest, rfl, -, hwell₁, hdate⟩ := leads_ask_bind_of_forall h hwell
  cases date with
  | none => exact (not_returns (dies_fail 5) hdate).elim
  | some tm =>
    obtain ⟨(allocated : Bool), rest, rfl, hallocated, hwell₂, hformat⟩ :=
      leads_ask_bind_of_forall hdate hwell₁
    obtain rfl : allocated = true := hallocated
    obtain ⟨(formatted : Bool), rest, rfl, hformatted, hwell₃, hlock⟩ :=
      leads_ask_bind_of_forall hformat hwell₂
    obtain rfl : formatted = true := hformatted
    obtain ⟨(locked : Bool), rest, rfl, hlocked, hwell₄, hheader⟩ :=
      leads_ask_bind_of_forall hlock hwell₃
    obtain rfl : locked = true := hlocked
    obtain ⟨(header : PipeAnswer), rest, rfl, hwritten, hwell₅, htext⟩ :=
      leads_ask_bind_of_forall hheader hwell₄
    obtain rfl : header = .written := hwritten
    obtain ⟨(body : PipeAnswer), rest, rfl, hwritten, -, hrest⟩ := leads_ask_bind_of_forall htext hwell₅
    obtain rfl : body = .written := hwritten
    have hquiet : issued rest = [] := by
      refine issued_eq_nil (MakesOnly.of_mem (Q := fun c => ¬ c.Records) ?_ hrest)
      refine .ask_bind id fun signalled => (makesOnly_logUnless id signalled).bind fun _ => ?_
      exact .ask_bind id fun unlocked => makesOnly_logUnless id unlocked
    exact ⟨tm, congrArg (logsString (dateString tm) pathFile lenFile addr :: ·) hquiet⟩

/-- The thread serves the whole file. -/
theorem threadSender_serves {rounds : Nat} {file : List Byte} {pathFile addr : CStr}
    {trace : Trace Answer} (h : (threadSender rounds file pathFile addr).Leads trace (.ok ()))
    (hwell : ∀ event ∈ trace, GoesWell file event) : ServedWhole file pathFile addr trace := by
  rcases threadSender_cases h fun event hevent => (hwell event hevent).possible with
    hun | ⟨front, back, rfl, hstep, houtside, hcomplete, hlog⟩
  · rcases hun.lost with ⟨-, hret⟩ | ⟨event, hevent, hbroken⟩
    · exact absurd rfl hret
    · exact absurd hbroken (hwell event hevent).not_broken
  · have hcalls := (makesOnly_logTransfer (fun _ => Call.Logs.not_transfers) pathFile file.length
      addr).of_mem hlog
    have hquiet : Quiet back :=
      quiet_of_no_send fun event hevent hsend => hcalls event hevent hsend.transfers
    obtain ⟨tm, hissued⟩ := logTransfer_issued (leads_ok_iff.mpr hlog) fun event hevent =>
      hwell event (List.mem_append_right _ hevent)
    refine ⟨?_, tm, ?_⟩
    · rw [handedOver_append, hquiet.1, hstep.1, hcomplete.sent, List.append_nil, List.drop_zero,
        List.take_length]
    · rw [issued, List.flatMap_append]
      change issued front ++ issued back = _
      rw [issued_eq_nil houtside, hissued]
      rfl

/-- So does what follows the mapping. -/
theorem sendMapped_serves {rounds : Nat} {file : List Byte} {pathFile addr : CStr}
    {trace : Trace Answer} {result : Bool}
    (h : (sendMapped rounds file pathFile addr).Leads trace (.ok result))
    (hwell : ∀ event ∈ trace, GoesWell file event) : ServedWhole file pathFile addr trace := by
  obtain ⟨_, rest, rfl, hunlock⟩ := leads_ask_bind_iff.mp h
  obtain ⟨_, rest, rfl, hclose⟩ := leads_ask_bind_iff.mp (leads_require hunlock)
  obtain ⟨_, rest, rfl, hcreate⟩ := leads_ask_bind_iff.mp (leads_require hclose)
  rcases Leads.of_bind (leads_require hcreate) with ⟨e, he, -⟩ | ⟨front, back, _, rfl, hsend, hjoin⟩
  · cases he
  obtain ⟨_, rest, rfl, hjoined⟩ := leads_ask_bind_iff.mp hjoin
  obtain ⟨_, rest, rfl, hunmapped⟩ := leads_ask_bind_iff.mp (leads_require hjoined)
  obtain ⟨rfl, -⟩ := leads_ret_iff.mp (leads_require (f := fun _ => .ret true) hunmapped)
  obtain ⟨hhanded, tm, hissued⟩ := threadSender_serves hsend fun event hevent =>
    hwell event (by simp [hevent])
  refine ⟨?_, tm, ?_⟩
  · change handedOver (front ++ _) = file
    rw [handedOver_append, hhanded]
    exact List.append_nil file
  · change (front ++ _).flatMap issue = _
    rw [List.flatMap_append]
    change issued front ++ _ = _
    rw [hissued]
    rfl

/-- A readable file is served whole and logged exactly when it is not empty. -/
theorem served_whole_iff {rounds : Nat} {file : List Byte} {pathFile addr : CStr} {trace : Trace Answer}
    {out : Except Ending Bool} (h : (loadFileMemoryAndSend rounds pathFile addr).Leads trace out)
    (hwell : ∀ event ∈ trace, GoesWell file event) (hclosed : out ≠ .error .waiting) :
    ((∃ result, out = .ok result) ∧ ServedWhole file pathFile addr trace) ↔ 1 ≤ file.length := by
  have hreturns : ∃ result, out = .ok result :=
    returns_of_not_fatal (safe_loadFileMemoryAndSend rounds pathFile addr) h
      (fun event hevent => (hwell event hevent).not_fatal) hclosed
  rw [and_iff_right hreturns]
  obtain ⟨(opened : Bool), rest, rfl, hopened, hwell₁, hlock⟩ := leads_ask_bind_of_forall h hwell
  obtain rfl : opened = true := hopened
  obtain ⟨(locked : Bool), rest, rfl, hlocked, hwell₂, hstat⟩ := leads_ask_bind_of_forall hlock hwell₁
  obtain rfl : locked = true := hlocked
  obtain ⟨(statFd : Option Nat), rest, rfl, hsize, hwell₃, hmap⟩ := leads_ask_bind_of_forall hstat hwell₂
  obtain rfl : statFd = some file.length := hsize
  obtain ⟨(fileToSend : Option { f : List Byte // f.length = file.length }), rest, rfl, hmapped, hwell₄,
    hsend⟩ := leads_ask_bind_of_forall hmap hwell₃
  change fileToSend.map Subtype.val = if file.length = 0 then none else some file at hmapped
  cases fileToSend with
  | none =>
    have hempty : file.length = 0 := by
      by_contra hne
      rw [if_neg hne] at hmapped
      cases hmapped
    have hquiet : issued rest = [] := by
      refine issued_eq_nil (MakesOnly.of_mem (Q := fun c => ¬ c.Records) ?_ hsend)
      refine (makesOnly_log id).bind fun _ => .ask_bind id fun unlocked => ?_
      exact (makesOnly_logUnless id unlocked).bind fun _ => .ask_bind id fun _ => trivial
    refine iff_of_false ?_ (by omega)
    intro ⟨_, tm, hissued⟩
    change issued rest = _ at hissued
    rw [hquiet] at hissued
    cases hissued
  | some mapped =>
    have hne : ¬ file.length = 0 := by
      intro hzero
      rw [if_pos hzero] at hmapped
      cases hmapped
    rw [if_neg hne] at hmapped
    have hfile : mapped.1 = file := Option.some.inj hmapped
    obtain ⟨result, rfl⟩ := hreturns
    change (sendMapped rounds mapped.1 pathFile addr).Leads rest _ at hsend
    rw [hfile] at hsend
    obtain ⟨hhanded, hissued⟩ := sendMapped_serves hsend hwell₄
    exact iff_of_true ⟨hhanded, hissued⟩ (Nat.pos_of_ne_zero hne)

/-- The calls for an empty file. -/
def emptyFile : Trace Answer :=
  [⟨.openFile (CStr.lit "/srv/empty"), true⟩, ⟨.lockFile, true⟩, ⟨.fstat, some 0⟩, ⟨.mmap 0, none⟩,
    ⟨.writeLog, LogAnswer.printed⟩, ⟨.unlockFile false, true⟩, ⟨.close false, true⟩]

/-- An empty file is one of the type `0`, and is given up when it cannot be mapped. -/
theorem emptyFile_given_up :
    typePath (CharArray.zero 64) (.output (bytes "inode/x-empty; charset=binary\n")) = .ok .text ∧
      (loadFileMemoryAndSend 1 (CStr.lit "/srv/empty") (CStr.lit "10.0.0.1:80")).Leads emptyFile
        (.ok false) ∧
      (∀ event ∈ emptyFile, GoesWell [] event) ∧
      ¬ ServedWhole [] (CStr.lit "/srv/empty") (CStr.lit "10.0.0.1:80") emptyFile := by
  refine ⟨by decide +kernel, ?_, ?_, ?_⟩
  · repeat apply Steps.call
    exact .refl _
  · simp [emptyFile, GoesWell, Fatal]
  · intro ⟨_, tm, hissued⟩
    cases hissued

/-- A file of two bytes. -/
def smallFile : Trace Answer :=
  [⟨.openFile smallPath, true⟩, ⟨.lockFile, true⟩, ⟨.fstat, some 2⟩,
    ⟨.mmap 2, some ⟨bytes "hi", rfl⟩⟩, ⟨.unlockFile true, true⟩, ⟨.close true, true⟩,
    ⟨.createThread, true⟩] ++ twoSends ++ [⟨.joinThread, true⟩, ⟨.munmap, true⟩]

theorem smallFile_served :
    (∃ result : Bool, (.ok true : Except Ending Bool) = .ok result) ∧
      ServedWhole (bytes "hi") smallPath smallAddr smallFile := by
  have hrun : (loadFileMemoryAndSend 1 smallPath smallAddr).Leads smallFile (.ok true) := by
    repeat apply Steps.call
    exact .refl _
  refine (served_whole_iff hrun ?_ nofun).mpr (by decide)
  simp [smallFile, twoSends, GoesWell, Fatal]
  decide

end Sacagawea
