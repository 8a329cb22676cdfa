import Sacagawea.Lib.Interleave
import Sacagawea.Log.Protocol
import Sacagawea.Transfer.RecordLength
import Sacagawea.Transfer.Resources
import Sacagawea.Transfer.ShortSend

/-!
# Many clients at once

Every client is served by `management_function`, in a thread of the server or in a child. What the
clients share is on the machine: the files, which other programs change as well, with the locks that
`fcntl` puts on them, and the pipe, the mutex, the condition variable and the counter of the log
protocol. The log process takes its steps beside them.

Any answer is possible of a call that has nothing to do with these. An `exit` in a thread ends the other
clients too. Here they may go on, so that nothing depends on it.
-/

namespace Sacagawea

open Program

/-- A client, and how it is served. The rounds are how often the server looks whether it has closed. -/
structure Visitor where
  rounds : Nat
  stack : (n : Nat) → CharArray n
  settings : Settings
  client : Endpoint

/-- What runs for a client, in a thread or in a child. -/
def Visitor.serve (v : Visitor) : Serve Unit :=
  if v.settings.mode = 116 then
    startThreadManagement v.rounds v.stack v.settings (addrString v.client)
  else Serve.managementFunction v.rounds v.stack v.settings (addrString v.client)

/-! ### What surrounds a transfer -/

/-- A call made for a client outside of `load_file_memory_and_send`. -/
def Call.Plain : Call → Prop
  | .writeLog | .signal | .allocate _ | .recvs | .shrink | .popen _ | .opendir .. | .grow _ | .closedir
  | .sendText _ => True
  | _ => False

theorem makesOnly_sendMenu {Q : Call → Prop} (hQ : ∀ c : Call, c.Plain → Q c) (response : Option CStr) :
    (Serve.sendMenu response).MakesOnly Q := by
  cases response with
  | none => trivial
  | some response =>
    refine (makesOnly_grow (hQ _ trivial) (fun _ => hQ _ trivial) _ _).bind fun response => ?_
    refine .ask_bind (hQ _ trivial) fun (check : Int) => ?_
    refine (makesOnly_logUnless (hQ _ trivial) _).bind fun _ => ?_
    refine (makesOnly_log (hQ _ trivial)).bind fun _ => ?_
    exact .ask_bind (hQ _ trivial) fun closed => makesOnly_logUnless (hQ _ trivial) closed

theorem makesOnly_sendContentOfDir {Q : Call → Prop} (hQ : ∀ c : Call, c.Plain → Q c)
    (pathFile clientSelector hostname : CStr) (port : Int) :
    (Serve.sendContentOfDir pathFile clientSelector hostname port).MakesOnly Q := by
  refine (makesOnly_log (hQ _ trivial)).bind fun _ => ?_
  refine .ask_bind (hQ _ trivial) fun (folder : Option (List DirEntry)) => ?_
  cases folder with
  | none => exact makesOnly_log (hQ _ trivial)
  | some folder =>
    refine (makesOnly_menuLoop (hQ _ trivial) (fun _ => hQ _ trivial) (fun _ => hQ _ trivial)
      (fun _ => hQ _ trivial) ..).bind fun response => ?_
    exact makesOnly_sendMenu hQ response

section

variable {Q : Type} {T : Typestate Answer Q} {q : Q} {P : Q → Prop} {rounds : Nat}
  {stack : (n : Nat) → CharArray n} {settings : Settings} {addr : CStr}

theorem typed_closeSocketKillChild (hlog : ∀ q, P q → T.Keeps q .writeLog) {q' : Q} (hq' : P q')
    (mode : Byte) (errcode : Nat) : (closeSocketKillChild mode errcode).Typed T (fun _ => P) q' := by
  rw [closeSocketKillChild]
  split
  · exact (Typed.of_keeps (makesOnly_log (hlog q' hq'))).weaken fun _ _ h => h ▸ hq'
  · trivial

theorem typed_respond (hplain : ∀ c : Call, c.Plain → T.Keeps q c) (hP : P q)
    (hlog : ∀ q, P q → T.Keeps q .writeLog) {path : CStr} (input : CStr)
    (hload : (loadFileMemoryAndSend rounds path addr).Typed T (fun _ => P) q) :
    (Serve.respond rounds stack settings addr path input).Typed T (fun _ => P) q := by
  have hwrite := hplain .writeLog trivial
  refine Typed.keeps_bind (makesOnly_typePath hwrite (fun _ => hplain _ trivial)
    (fun _ => hplain _ trivial) path) fun type => ?_
  split_ifs
  · exact (Typed.of_keeps (makesOnly_sendContentOfDir hplain ..)).weaken fun _ _ h => h ▸ hP
  · refine Typed.keeps_bind (makesOnly_compute _) fun temp => ?_
    refine Typed.weaken (Typed.of_keeps (q := q) ?_) fun _ _ h => h ▸ hP
    exact .ask_bind (hplain _ trivial) fun (check : Int) => makesOnly_logUnless hwrite _
  · refine hload.bind fun _ q' hq' => ?_
    exact (Typed.of_keeps (makesOnly_log (hlog q' hq'))).weaken fun _ _ h => h ▸ hq'

theorem typed_answer (hplain : ∀ c : Call, c.Plain → T.Keeps q c) (hP : P q)
    (hlog : ∀ q, P q → T.Keeps q .writeLog) (input : CStr)
    (hload : settings.homedir.str.strlen + input.strlen < pathMax →
      checkSecurityPath (pathFile settings.homedir.str input) = false →
      (loadFileMemoryAndSend rounds (pathFile settings.homedir.str input) addr).Typed T (fun _ => P) q) :
    (Serve.answer rounds stack settings addr input).Typed T (fun _ => P) q := by
  have hwrite := hplain .writeLog trivial
  have hclose := fun q' (hq' : P q') => typed_closeSocketKillChild hlog hq' settings.mode 0
  refine Typed.keeps_bind (makesOnly_log hwrite) fun _ => ?_
  refine Typed.keeps_bind (p := perform (.allocate .pathFile)) ⟨hplain _ trivial, fun _ => trivial⟩
    fun (allocated : Bool) => ?_
  refine Typed.keeps_bind (makesOnly_require hwrite 1 allocated) fun _ => ?_
  cases hpath : (CharArray.zero pathMax).strcpy settings.homedir.str with
  | error stop => trivial
  | ok path =>
    obtain ⟨-, hstr⟩ := CharArray.strcpy_eq_ok hpath
    change Typed T _ (if _ then _ else _) q
    rw [hstr]
    split_ifs with hlen
    · exact Typed.keeps_bind (makesOnly_log hwrite) fun _ => hclose q hP
    · cases hcat : path.strcat input with
      | error stop => trivial
      | ok full =>
        obtain ⟨-, hfull⟩ := CharArray.strcpy_eq_ok hcat
        rw [hstr] at hfull
        change Typed T _ (log >>= fun _ => if checkSecurityPath full.str then _ else _) q
        refine Typed.keeps_bind (makesOnly_log hwrite) fun _ => ?_
        rw [hfull]
        split_ifs with hcheck
        · exact Typed.keeps_bind (makesOnly_log hwrite) fun _ => hclose q hP
        · refine Typed.bind ?_ fun _ q' hq' => hclose q' hq'
          exact typed_respond hplain hP hlog input
            (hload (Nat.lt_of_not_le hlen) (eq_false_of_ne_true hcheck))

/-- A client keeps to a typestate when its transfer does, and when the calls around it change nothing. -/
theorem typed_managementFunction (hplain : ∀ c : Call, c.Plain → T.Keeps q c) (hP : P q)
    (hlog : ∀ q, P q → T.Keeps q .writeLog)
    (hload : ∀ input : CStr, settings.homedir.str.strlen + input.strlen < pathMax →
      checkSecurityPath (pathFile settings.homedir.str input) = false →
      (loadFileMemoryAndSend rounds (pathFile settings.homedir.str input) addr).Typed T (fun _ => P) q) :
    (Serve.managementFunction rounds stack settings addr).Typed T (fun _ => P) q := by
  have hwrite := hplain .writeLog trivial
  have hclose := typed_closeSocketKillChild hlog hP settings.mode 0
  refine Typed.keeps_bind (p := perform (.allocate .input)) ⟨hplain _ trivial, fun _ => trivial⟩
    fun (allocated : Bool) => ?_
  refine Typed.keeps_bind (makesOnly_require hwrite 1 allocated) fun _ => ?_
  refine Typed.keeps_bind (p := perform .recvs) ⟨hplain _ trivial, fun _ => trivial⟩
    fun (outcomes : List Recv) => ?_
  change Typed T _ (Serve.received rounds stack settings addr _) q
  generalize readRequest _ _ outcomes = result
  cases result with
  | none => trivial
  | some result =>
    change Typed T _ (if _ then _ else _) q
    split_ifs
    · exact Typed.keeps_bind (makesOnly_log hwrite) fun _ => hclose
    · refine Typed.keeps_bind (p := perform .shrink) ⟨hplain _ trivial, fun _ => trivial⟩
        fun (shrunk : Shrink) => ?_
      cases shrunk with
      | moved => trivial
      | failed => exact Typed.keeps_bind (makesOnly_log hwrite) fun _ => hclose
      | inPlace => exact typed_answer hplain hP hlog _ (hload _)

end

theorem typed_serve {Q : Type} {T : Typestate Answer Q} {q : Q} {P : Q → Prop} (v : Visitor)
    (hplain : ∀ c : Call, c.Plain → T.Keeps q c) (hP : P q) (hlog : ∀ q, P q → T.Keeps q .writeLog)
    (hload : ∀ input : CStr, v.settings.homedir.str.strlen + input.strlen < pathMax →
      checkSecurityPath (pathFile v.settings.homedir.str input) = false →
      (loadFileMemoryAndSend v.rounds (pathFile v.settings.homedir.str input)
        (addrString v.client)).Typed T (fun _ => P) q) :
    v.serve.Typed T (fun _ => P) q := by
  have hmanage : (Serve.managementFunction v.rounds v.stack v.settings (addrString v.client)).Typed T
      (fun _ => P) q := typed_managementFunction hplain hP hlog hload
  rw [Visitor.serve]
  split
  · refine Typed.keeps_bind (p := perform .signal) ⟨hplain _ trivial, fun _ => trivial⟩
      fun (ignored : Bool) => ?_
    exact Typed.keeps_bind (makesOnly_require (hplain _ trivial) 1 ignored) fun _ => hmanage
  · exact hmanage

/-- The paths a client can ask for: those in the served directory that are not too long and pass
`check_security_path`. -/
def Visitor.MayOpen (v : Visitor) (path : CStr) : Prop :=
  ∃ input, v.settings.homedir.str.strlen + input.strlen < pathMax ∧
    checkSecurityPath path = false ∧ path = pathFile v.settings.homedir.str input

/-! ### The machine -/

/-- Who has locked a file: the server for a client, or another program. -/
inductive Locker (κ : Type) where
  | client (k : κ)
  | other
  deriving DecidableEq

/-- What the parties of the log protocol share, and where the log process stands. -/
structure LogShared (κ : Type) where
  log : LogPc
  owner : Option (Party κ)
  cont : Nat
  pipe : List Byte
  logFile : List Byte

/-- The files by their inode, with what `open` gave each client, and the log. -/
structure Machine (κ ι : Type) where
  opened : κ → Option ι
  locker : ι → Option (Locker κ)
  contents : ι → List Byte
  log : LogShared κ

/-- The names of the files, what is in them at the start, and the size of the pipe. -/
structure Site (ι : Type) where
  inode : CStr → ι
  contents : ι → List Byte
  capacity : Option Nat

/-- What others do: a program that locks a file before it writes, and the log process. -/
inductive Other (κ ι : Type) where
  | lock (i : ι)
  | write (i : ι) (contents : List Byte)
  | unlock (i : ι)
  | log (a : LogAction κ)

/-- The steps of the log process. -/
def LogAction.ByLog {κ : Type} : LogAction κ → Prop
  | .logLock | .wait | .wake | .resume | .readLen | .readBody _ | .append | .next => True
  | _ => False

variable {κ ι : Type}

/-- The state of the log protocol, with the senders where they are said to be. -/
def LogShared.state (s : LogShared κ) (sender : κ → SenderPc) (taken : List κ) : LogState κ :=
  ⟨sender, s.log, s.owner, s.cont, s.pipe, s.logFile, taken⟩

def LogState.shared (s : LogState κ) : LogShared κ := ⟨s.log, s.owner, s.cont, s.pipe, s.logFile⟩

/-- The parties of a log protocol in which nothing is sent. -/
def Site.logConfig (site : Site ι) : LogConfig κ := ⟨fun _ => ⟨CStr.lit "", by decide⟩, site.capacity⟩

/-- `write` into the pipe blocks until the bytes fit. The log process reads it, so there is no SIGPIPE. -/
def Site.takes (site : Site ι) (s : LogShared κ) (n : Nat) : PipeAnswer → Prop
  | .written => (site.logConfig (κ := κ)).Fits (s.pipe.length + n)
  | .failed => True
  | .brokenPipe => False

/-- The answers a call can have. `F_OFD_SETLKW` waits for the lock, `fstat` gives the size of the file,
an `off_t`, and a mapping shows the file as it is at that moment, as far as it reaches. What is written
later may show in it too, so what is sent from a mapping is this only as long as nobody writes the file. -/
def Machine.Allows (site : Site ι) (s : Machine κ ι) (k : κ) : (c : Call) → Answer c → Prop
  | .lockFile, (ok : Bool) => ok = true → ∃ i, s.opened k = some i ∧ s.locker i = none
  | .fstat, (size : Option Nat) =>
    ∀ n ∈ size, n < 2 ^ 63 ∧ ∃ i, s.opened k = some i ∧ n = (s.contents i).length
  | .mmap lenFile, (mapped : Option { file : List Byte // file.length = lenFile }) =>
    ∀ file ∈ mapped, ∃ i, s.opened k = some i ∧
      file.1.take (s.contents i).length = (s.contents i).take lenFile
  | .mutexLock, (ok : Bool) => ok = true ∧ s.log.owner = none
  | .writeLen _, (answer : PipeAnswer) => site.takes s.log 4 answer
  | .writeText record, (answer : PipeAnswer) => site.takes s.log record.strlen answer
  | .condSignal, (ok : Bool) | .mutexUnlock, (ok : Bool) => ok = true
  | _, _ => True

variable [DecidableEq κ] [DecidableEq ι]

/-- The lock of a client goes. -/
def Machine.release (s : Machine κ ι) (k : κ) : Machine κ ι :=
  { s with locker := fun i => if s.locker i = some (.client k) then none else s.locker i }

def LogShared.written (s : LogShared κ) (bytes : List Byte) : PipeAnswer → LogShared κ
  | .written => { s with pipe := s.pipe ++ bytes }
  | _ => s

/-- What a call changes. `cont++` follows the lock, before anybody else can look at it. -/
def Machine.after (site : Site ι) (s : Machine κ ι) (k : κ) : (c : Call) → Answer c → Machine κ ι
  | .openFile pathFile, (ok : Bool) =>
    if ok then { s with opened := Function.update s.opened k (some (site.inode pathFile)) } else s
  | .lockFile, (ok : Bool) =>
    match ok, s.opened k with
    | true, some i => { s with locker := Function.update s.locker i (some (.client k)) }
    | _, _ => s
  | .unlockFile _, (ok : Bool) => if ok then s.release k else s
  | .close _, _ => { s.release k with opened := Function.update s.opened k none }
  | .mutexLock, (ok : Bool) =>
    if ok then { s with log := { s.log with owner := some (.sender k), cont := s.log.cont + 1 } } else s
  | .writeLen len, (answer : PipeAnswer) => { s with log := s.log.written (encodeInt len) answer }
  | .writeText record, (answer : PipeAnswer) => { s with log := s.log.written record.chars answer }
  | .condSignal, (ok : Bool) =>
    if ok then { s with log := { s.log with log := if s.log.log = .waiting then .woken else s.log.log } }
    else s
  | .mutexUnlock, (ok : Bool) => if ok then { s with log := { s.log with owner := none } } else s
  | _, _ => s

def Machine.otherEnabled (site : Site ι) (s : Machine κ ι) : Other κ ι → Prop
  | .lock i => s.locker i = none
  | .write i _ | .unlock i => s.locker i = some .other
  | .log a => a.ByLog ∧ logEnabled site.logConfig (s.log.state (fun _ => .start) []) a

def Machine.other (site : Site ι) (s : Machine κ ι) : Other κ ι → Machine κ ι
  | .lock i => { s with locker := Function.update s.locker i (some .other) }
  | .write i contents => { s with contents := Function.update s.contents i contents }
  | .unlock i => { s with locker := Function.update s.locker i none }
  | .log a => { s with log := (logNext site.logConfig (s.log.state (fun _ => .start) []) a).shared }

/-- The machine, on which the lock of a client goes with its process. -/
def Site.host (site : Site ι) : Host κ Answer (Machine κ ι) (Other κ ι) where
  init := ⟨fun _ => none, fun _ => none, site.contents, ⟨.start, none, 0, [], []⟩⟩
  allows := Machine.Allows site
  after := Machine.after site
  halted := Machine.release
  enabled := Machine.otherEnabled site
  next := Machine.other site

abbrev Running (κ ι : Type) := Interleaving κ Answer Ending Unit (Machine κ ι)

/-- The clients on the machine. -/
def clients (site : Site ι) (visitors : κ → Visitor) :
    Transition (Running κ ι) (Turn κ Answer (Other κ ι)) :=
  site.host.system fun k => (visitors k).serve

/-! ### A client -/

/-- The calls up to the answer. -/
def asked (outcomes : List Recv) : Trace Answer :=
  [⟨.signal, true⟩, ⟨.allocate .input, true⟩, ⟨.recvs, outcomes⟩, ⟨.shrink, Shrink.inPlace⟩,
    ⟨.writeLog, LogAnswer.printed⟩, ⟨.allocate .pathFile, true⟩, ⟨.writeLog, LogAnswer.printed⟩]

theorem steps_asked {rounds : Nat} {stack : (n : Nat) → CharArray n} {settings : Settings}
    (h : settings.Terminated) (addr : CStr) {outcomes : List Recv} {check : Int} {input : List Byte}
    (hread : readRequest (List.replicate (inputSize settings.homedir.str) NUL)
      (inputSize settings.homedir.str) outcomes = some (check, input)) (hcheck : check ≠ -1)
    (hlen : settings.homedir.str.strlen + (CStr.ofBuffer input).strlen < pathMax)
    (hsafe : checkSecurityPath (pathFile settings.homedir.str (CStr.ofBuffer input)) = false) :
    (startThreadManagement rounds stack settings addr).Steps (asked outcomes)
      (Serve.respond rounds stack settings addr (pathFile settings.homedir.str (CStr.ofBuffer input))
        (CStr.ofBuffer input) >>= fun _ => closeSocketKillChild settings.mode 0) := by
  obtain ⟨path, hpath, hstr⟩ := (CharArray.zero pathMax).strcpy_spec h.homedir
  obtain ⟨full, hfull, hfullstr⟩ := path.strcpy_spec (s := settings.homedir.str ++ CStr.ofBuffer input)
      (by rw [CStr.strlen_append]; exact hlen)
  have hcat : path.strcat (CStr.ofBuffer input) = .ok full := by rw [CharArray.strcat, hstr, hfull]
  iterate 3 apply Steps.call
  change Steps (Serve.received rounds stack settings addr (readRequest _ _ outcomes)) _ _
  rw [hread, Serve.received, if_neg hcheck]
  iterate 3 apply Steps.call
  change Steps (compute (CharArray.strcpy _ _) >>= _) _ _
  rw [hpath]
  change Steps (if _ then _ else _) _ _
  rw [hstr, if_neg (Nat.not_le_of_lt hlen), hcat]
  apply Steps.call
  change Steps (if _ then _ else _) _ _
  rw [hfullstr, if_neg (by rw [pathFile] at hsafe; rw [hsafe]; exact Bool.false_ne_true)]
  exact .refl _

/-- A client in a thread that asks for a file of two bytes. -/
def smallVisitor : Visitor := ⟨1, CharArray.zero, threadSettings, smallClient⟩

/-- Its calls up to the transfer. -/
def smallRequest : Trace Answer :=
  asked [.data 104 [105, CR, LF]] ++ [⟨.allocate .sanitized, true⟩,
    ⟨.popen smallPath, (CharArray.zero 64, Probe.output (bytes "text/plain; charset=us-ascii\n"))⟩]

theorem steps_smallRequest :
    smallVisitor.serve.Steps smallRequest
      ((loadFileMemoryAndSend 1 smallPath smallAddr >>= fun _ => log) >>= fun _ =>
        closeSocketKillChild 116 0) := by
  have hsize : inputSize threadSettings.homedir.str = 4091 := by
    rw [homedir_threadSettings]
    rfl
  have hread : readRequest (List.replicate (inputSize threadSettings.homedir.str) NUL)
      (inputSize threadSettings.homedir.str) [.data 104 [105, CR, LF]] = some (3, [104, 105, NUL]) := by
    have hs : Schedule 4091 [104, 105, CR, LF] [.data 104 [105, CR, LF]] :=
      @Schedule.data 4091 104 [105, CR, LF] [] [] (by decide) .waiting
    have hk : FirstCrlf [104, 105, CR, LF] 2 := ⟨⟨rfl, rfl⟩, by decide⟩
    rw [hsize]
    exact readRequest_of_firstCrlf hs List.length_replicate hk (by decide)
  have hinput : CStr.ofBuffer [104, 105, NUL] = CStr.lit "hi" := by decide
  have hasked := @steps_asked 1 CharArray.zero _ terminated_threadSettings smallAddr _ _ _ hread
    (by decide) (by rw [homedir_threadSettings, hinput]; decide)
    (by rw [homedir_threadSettings, hinput]; decide)
  rw [homedir_threadSettings, hinput] at hasked
  rw [Visitor.serve, if_pos (by decide), smallVisitor, addrString_smallClient]
  refine hasked.trans ?_
  iterate 2 apply Steps.call
  exact .refl _

/-- A machine with one file. -/
def smallSite : Site Unit := ⟨fun _ => (), fun _ => bytes "hi", none⟩

/-- The machine where the client has made the calls of a trace. -/
def smallRunning (trace : Trace Answer) (p : Serve Unit) : Running Unit Unit :=
  ⟨fun _ => p, fun _ => trace, fun _ => false, smallSite.host.afterAll () smallSite.host.init trace⟩

theorem reach_smallRunning {ok : Running Unit Unit → Turn Unit Answer (Other Unit Unit) → Prop}
    (hok : ∀ run answer, ok run (.call () answer)) {trace : Trace Answer} {p : Serve Unit}
    (hsteps : smallVisitor.serve.Steps trace p)
    (hgrants : smallSite.host.Grants () smallSite.host.init trace) :
    (clients smallSite fun _ : Unit => smallVisitor).Reach ok (smallRunning trace p) := by
  have hinit : (clients smallSite fun _ : Unit => smallVisitor).Reach ok _ := .init
  have hreach := Host.reach_of_steps hinit hok (k := ()) hsteps hgrants
  have hupdate : ∀ {β : Type} (f : Unit → β) (b : β), Function.update f () b = fun _ => b :=
    fun f b => funext fun _ => Function.update_self ..
  rw [hupdate, hupdate] at hreach
  exact hreach

end Sacagawea
