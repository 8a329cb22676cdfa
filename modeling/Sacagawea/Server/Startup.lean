import Mathlib.Logic.Function.Basic
import Sacagawea.Lib.Fork
import Sacagawea.Transfer.Calls

/-!
# The processes `main` starts

Behind its settings `main` becomes a daemon, by two forks the parents of which end. It sets up what the
server shares with the log process, forks the log process, and installs the handlers. Each of the calls
can fail on the way, and the process that is left then ends.

So one process at most comes to the loop of the server, and one at most to `log_management`. They are
parent and child, and they share an unlocked mutex, a counter of 0 and a pipe of which each has its own
end only.
-/

namespace Sacagawea

namespace Startup

inductive Signal where
  | chld
  | hup
  | int
  | term
  | alrm
  | usr1
  | usr2
  deriving DecidableEq, Repr

inductive OpenFlags where
  | rdonly
  | wronly
  | rdwr
  deriving DecidableEq, Repr

/-- What a descriptor stands for. One that is open when `main` begins is `inherited`. -/
inductive Descriptor where
  | inherited
  | devNull (flags : OpenFlags)
  | sharedMemory
  | readPipe
  | writePipe
  deriving DecidableEq, Repr

/-- The session `main` begins in, or one of its own, which the process leads or not. -/
inductive Session where
  | inherited
  | leader
  | member
  deriving DecidableEq, Repr

inductive Handler where
  | sighupHandler
  | closeAll
  deriving DecidableEq, Repr

/-- What a signal does, with the signals that are blocked in a handler. -/
inductive Disposition where
  | default
  | ignored
  | handled (handler : Handler) (mask : List Signal)
  deriving DecidableEq, Repr

/-- What is in the shared memory besides the counter, and is initialised with attributes. -/
inductive Shared where
  | cond
  | mutex
  deriving DecidableEq, Repr

/-- A process. `pshared` says which attributes are PTHREAD_PROCESS_SHARED, and `object` which objects are
initialised, and whether for all processes. -/
structure Process where
  pid : Nat
  ppid : Nat
  session : Session
  cwd : List Byte
  umask : Nat
  fds : Nat → Option Descriptor
  action : Signal → Disposition
  linked : Bool
  mapped : Bool
  pshared : Shared → Bool
  object : Shared → Option Bool
  cont : Option Nat
  pipeConf : Option (Nat × Nat)

/-! ### The calls -/

/-- The calls that succeed or fail. -/
inductive Act where
  | ignore (signal : Signal)
  | setsid
  | chdir (path : List Byte)
  | close (fd : Nat)
  | ftruncate
  | mmap
  | setpshared (shared : Shared)
  | init (shared : Shared)
  | destroyAttr (shared : Shared)
  | sigemptyset
  | sigaddset (signal : Signal)
  | sigaction (signal : Signal) (handler : Handler) (mask : List Signal)
  | kill (pid : Nat)
  | shmUnlink

/-- The calls. `killGroup` is `kill(0, SIGTERM)`, and `storeCont` an assignment to `condVar->cont`. -/
inductive StartCall where
  | act (a : Act)
  | writeLog
  | killGroup
  | fork
  | umask (mask : Nat)
  | openNull (flags : OpenFlags)
  | shmOpen
  | storeCont (cont : Nat)
  | pipe

/-- What a call gives: whether it succeeds, or a pid or descriptors if it does. For `killGroup` it is
whether the process has survived. -/
def Result : StartCall → Type
  | .act _ | .killGroup => Bool
  | .writeLog => LogAnswer
  | .fork | .openNull _ | .shmOpen => Option Nat
  | .umask _ | .storeCont _ => Unit
  | .pipe => Option (Nat × Nat)

/-- How a process ends. By SIGTERM it ends when it has signalled its own group. -/
inductive ProcessEnd where
  | exit (code : Nat)
  | sigpipe
  | sigterm
  | undefined
  deriving DecidableEq, Repr

/-- What a process goes on with behind `main` up to the socket. -/
inductive Role where
  | server
  | logProcess
  deriving DecidableEq, Repr

end Startup

abbrev Startup := Program Startup.Result Startup.ProcessEnd

namespace Startup

variable {α : Type}

/-! ### What the calls do -/

namespace Process

def close (s : Process) (fd : Nat) : Process := { s with fds := Function.update s.fds fd none }

/-- A descriptor that is new. -/
def assign (s : Process) (fd : Nat) (d : Descriptor) : Process :=
  { s with fds := Function.update s.fds fd (some d) }

/-- A new descriptor is the lowest that is free. -/
def Lowest (s : Process) (fd : Nat) : Prop := s.fds fd = none ∧ ∀ m < fd, s.fds m ≠ none

def Opens (s : Process) (d : Descriptor) : Option Nat → Process → Prop
  | none, s' => s' = s
  | some fd, s' => s.Lowest fd ∧ s' = s.assign fd d

def withMask (s : Process) (mask : Nat) : Process := { s with umask := mask }

def withName (s : Process) : Process := { s with linked := true }

def withCont (s : Process) (cont : Nat) : Process := { s with cont := some cont }

/-- The ends of a pipe, which are stored in the shared memory. -/
def withPipe (s : Process) (r w : Nat) : Process :=
  { (s.assign r .readPipe).assign w .writePipe with pipeConf := some (r, w) }

/-- A child is in the session of the process that forks, and does not lead it. -/
def child (s : Process) (pid : Nat) : Process :=
  { s with
    pid
    ppid := s.pid
    session := if s.session = .leader then .member else s.session }

end Process

/-- What a call does when it succeeds. -/
def Act.effect (s : Process) : Act → Process
  | .ignore signal => { s with action := Function.update s.action signal .ignored }
  | .setsid => { s with session := .leader }
  | .chdir path => { s with cwd := if path = bytes "./" then s.cwd else path }
  | .close fd => s.close fd
  | .mmap => { s with mapped := true }
  | .setpshared shared => { s with pshared := Function.update s.pshared shared true }
  | .init shared => { s with object := Function.update s.object shared (some (s.pshared shared)) }
  | .sigaction signal handler mask =>
    { s with action := Function.update s.action signal (.handled handler mask) }
  | .shmUnlink => { s with linked := false }
  | .ftruncate | .destroyAttr _ | .sigemptyset | .sigaddset _ | .kill _ => s

/-- Only what is open can be closed. -/
def Act.Possible (s : Process) : Act → Prop
  | .close fd => s.fds fd ≠ none
  | _ => True

/-- A call that fails may have had its effect. -/
def answers (s : Process) : (c : StartCall) → Result c → Process → Prop
  | .act a, (succeeds : Bool), s' =>
    if succeeds then a.Possible s ∧ s' = a.effect s else s' = s ∨ s' = a.effect s
  | .writeLog, _, s' | .killGroup, _, s' => s' = s
  | .fork, (pid : Option Nat), s' => pid = none ∧ s' = s
  | .umask mask, _, s' => s' = s.withMask mask
  | .openNull flags, fd, s' => s.Opens (.devNull flags) fd s'
  | .shmOpen, fd, s' => s.withName.Opens .sharedMemory fd s' ∨ fd = none ∧ s' = s
  | .storeCont cont, _, s' => s' = s.withCont cont
  | .pipe, (ends : Option (Nat × Nat)), s' => match ends with
    | none => s' = s
    | some (r, w) => s.Lowest r ∧ (s.assign r .readPipe).Lowest w ∧ s' = s.withPipe r w

/-- A fork gives a new pid to the process, and 0 to the child. -/
def forks (s : Process) : (c : StartCall) → Result c × Process → Result c × Process → Prop
  | .fork, parent, child =>
    ∃ pid : Nat, 0 < pid ∧ pid ≠ s.pid ∧ parent = (some pid, s) ∧ child = (some 0, s.child pid)
  | _, _, _ => False

def kernel : Kernel Result Process := ⟨answers, forks⟩

/-! ### The code -/

def perform (c : StartCall) : Startup (Result c) := Program.ask c

/-- `write_log`. -/
def log : Startup Unit := do
  let answer : LogAnswer ← perform .writeLog
  match answer with
  | .printed => return ()
  | .noMemory => .halt (.exit 5)
  | .brokenPipe => .halt .sigpipe

/-- `write_log` and then `exit`. -/
def fail (code : Nat) : Startup α := do
  log
  .halt (.exit code)

def require (code : Nat) (succeeded : Bool) : Startup Unit := if succeeded then .ret () else fail code

def logUnless (succeeded : Bool) : Startup Unit := if succeeded then .ret () else log

/-- `close_all`, before there is a socket: its number is 0. -/
def closeAll (logProcess logsProcesPid writeEnd : Nat) : Startup α := do
  log
  logUnless (← perform (.act (.close 0)))
  logUnless (← perform (.act (.kill logProcess)))
  logUnless (← perform (.act (.close writeEnd)))
  if logsProcesPid = 0 then
    let survived : Bool ← perform .killGroup
    if survived then .ret () else .halt .sigterm
  else logUnless (← perform (.act (.kill logsProcesPid)))
  logUnless (← perform (.act .shmUnlink))
  .halt (.exit 1)

/-- A fork, the parent of which does what is given. -/
def forkAway (parent : Startup Unit) : Startup Unit := do
  let pid : Option Nat ← perform .fork
  match pid with
  | none => fail 1
  | some pid => if 0 < pid then parent else .ret ()

def rootPath : List Byte := bytes "./"

def openNull (flags : OpenFlags) : Startup Unit := do
  let fd : Option Nat ← perform (.openNull flags)
  require 1 fd.isSome

/-- The end of `become_daemon`. -/
def reopen : Startup Unit := do
  require 1 (← perform (.act (.close 0)))
  require 1 (← perform (.act (.close 1)))
  require 1 (← perform (.act (.close 2)))
  openNull .rdonly
  openNull .wronly
  openNull .rdwr

def becomeDaemon : Startup Unit := do
  forkAway (.halt (.exit 0))
  require 1 (← perform (.act .setsid))
  require 1 (← perform (.act (.ignore .hup)))
  forkAway do
    log
    .halt (.exit 0)
  require 1 (← perform (.act (.chdir rootPath)))
  perform (.umask 0o27)
  reopen

/-- The shared memory and the pipe. -/
def share : Startup (Nat × Nat) := do
  let condVarDescriptor : Option Nat ← perform .shmOpen
  require 5 condVarDescriptor.isSome
  require 5 (← perform (.act .ftruncate))
  require 5 (← perform (.act .mmap))
  perform (.storeCont 0)
  require 5 (← perform (.act (.setpshared .cond)))
  require 5 (← perform (.act (.setpshared .mutex)))
  require 5 (← perform (.act (.init .mutex)))
  require 5 (← perform (.act (.init .cond)))
  logUnless (← perform (.act (.destroyAttr .cond)))
  logUnless (← perform (.act (.destroyAttr .mutex)))
  let pipeConf : Option (Nat × Nat) ← perform .pipe
  match pipeConf with
  | none => fail 5
  | some pipeConf => .ret pipeConf

/-- A call that is followed by `close_all` when it fails. -/
def orClose (close : Startup Unit) (a : Act) : Startup Unit := do
  let succeeds : Bool ← perform (.act a)
  if succeeds then .ret ()
  else
    log
    close

def orCloseEach (close : Startup Unit) : List Act → Startup Unit
  | [] => .ret ()
  | a :: acts => do
    orClose close a
    orCloseEach close acts

/-- The signals that would end the server. -/
def termSignals : List Signal := [.int, .term, .alrm, .usr1, .usr2]

/-- The calls for the handlers. -/
def handlerActs : List Act :=
  [.sigemptyset, .sigaddset .hup, .sigaction .hup .sighupHandler [.hup], .sigemptyset] ++
    (.hup :: termSignals).map .sigaddset ++
    termSignals.map fun signal => .sigaction signal .closeAll (.hup :: termSignals)

/-- The server behind the fork of the log process, up to the socket. -/
def serve (logProcess : Nat) (pipeConf : Nat × Nat) : Startup Role := do
  orClose (closeAll logProcess 0 pipeConf.2) (.close pipeConf.1)
  orCloseEach (closeAll logProcess logProcess pipeConf.2) handlerActs
  return .server

/-- The log process up to `log_management`. -/
def logs (pipeConf : Nat × Nat) : Startup Role := do
  require 1 (← perform (.act (.close pipeConf.2)))
  return .logProcess

def launch (pipeConf : Nat × Nat) : Startup Role := do
  let logProcess : Option Nat ← perform .fork
  match logProcess with
  | none => fail 5
  | some logProcess => if logProcess = 0 then logs pipeConf else serve logProcess pipeConf

def daemonUnless (debugMode : Bool) : Startup Unit := if debugMode = false then becomeDaemon else .ret ()

/-- `main` up to the log process. The settings and the options, with `debug_mode`, are read behind the
first call. -/
def prepare (debugMode : Bool) : Startup (Nat × Nat) := do
  require 1 (← perform (.act (.ignore .chld)))
  daemonUnless debugMode
  log
  share

/-- `main` up to the socket. -/
def main (debugMode : Bool) : Startup Role := do
  let pipeConf ← prepare debugMode
  launch pipeConf

/-! ### What is left when a call fails -/

/-- The process has not ended with success. -/
def Fails (_ : Process) (e : ProcessEnd) : Prop := e ≠ .exit 0

/-- A process that has forked ends with success, unless it cannot write its log. -/
def Parted (_ : Process) (e : ProcessEnd) : Prop := e = .exit 0 ∨ e = .exit 5 ∨ e = .sigpipe

theorem single_of_ne {c : StartCall} (h : c ≠ .fork) : kernel.Single c := by
  intro s parent child hfork
  cases c with
  | fork => exact h rfl
  | _ => exact hfork

variable {done bad : Process → ProcessEnd → Prop} {post : Process → α → Prop} {s : Process}

theorem detaches_log {f : Unit → Startup α} (hexit : bad s (.exit 5)) (hpipe : bad s .sigpipe)
    (h : (f ()).Detaches kernel done bad post s) : (log >>= f).Detaches kernel done bad post s := by
  refine .ask_bind (single_of_ne nofun) fun (answer : LogAnswer) s' hs => ?_
  obtain rfl : s' = s := hs
  cases answer with
  | printed => exact h
  | noMemory => exact hexit
  | brokenPipe => exact hpipe

theorem detaches_fail {code : Nat} (hcode : code ≠ 0) :
    (fail code : Startup α).Detaches kernel done Fails post s :=
  detaches_log nofun nofun fun h => hcode (ProcessEnd.exit.inj h)

theorem detaches_require {code : Nat} (hcode : code ≠ 0) {succeeded : Bool} {f : Unit → Startup α}
    (h : succeeded = true → (f ()).Detaches kernel done Fails post s) :
    (require code succeeded >>= f).Detaches kernel done Fails post s := by
  cases succeeded with
  | false =>
    have hfail : (fail code : Startup Unit).Detaches kernel done Fails (fun _ _ => False) s :=
      detaches_fail hcode
    exact hfail.bind fun _ _ hno => hno.elim
  | true => exact h rfl

/-- A call that has to succeed. -/
theorem detaches_requireAct {a : Act} {code : Nat} (hcode : code ≠ 0) {f : Unit → Startup α}
    (h : (f ()).Detaches kernel done Fails post (a.effect s)) :
    (perform (.act a) >>= fun r => require code r >>= f).Detaches kernel done Fails post s := by
  refine .ask_bind (single_of_ne nofun) fun (succeeds : Bool) s' hs => detaches_require hcode ?_
  rintro rfl
  obtain ⟨-, rfl⟩ : a.Possible s ∧ s' = a.effect s := hs
  exact h

/-! ### Becoming a daemon -/

/-- The child of a fork goes on. -/
theorem detaches_forkAway {parent : Startup Unit} {f : Unit → Startup α}
    (hparent : ∀ s, parent.Detaches kernel Parted Parted (fun _ _ => False) s)
    (h : ∀ pid, (f ()).Detaches kernel Parted Fails post (s.child pid)) :
    (forkAway parent >>= f).Detaches kernel Parted Fails post s := by
  refine ⟨fun r s' hr => ?_, ?_⟩
  · obtain ⟨rfl, -⟩ : r = none ∧ s' = s := hr
    have hfail : (fail 1 : Startup Unit).Detaches kernel Parted Fails (fun _ _ => False) s' :=
      detaches_fail (by decide)
    exact hfail.bind fun _ _ hno => hno.elim
  · rintro _ _ ⟨pid, hpid, -, rfl, rfl⟩
    have hends : (if 0 < pid then parent else .ret ()) = parent := if_pos hpid
    refine ⟨?_, h pid⟩
    change ((if 0 < pid then parent else .ret ()) >>= f).Detaches ..
    rw [hends]
    exact (hparent s).bind fun _ _ hno => hno.elim

theorem Process.Lowest.eq {fd n : Nat} (h : s.Lowest n) (hfree : s.fds fd = none)
    (hused : ∀ m < fd, s.fds m ≠ none) : n = fd := by
  obtain hlt | heq | hlt := lt_trichotomy n fd
  · exact absurd h.1 (hused n hlt)
  · exact heq
  · exact absurd hfree (h.2 fd hlt)

theorem detaches_openNull {flags : OpenFlags} {f : Unit → Startup α} (fd : Nat)
    (hfree : s.fds fd = none) (hused : ∀ m < fd, s.fds m ≠ none)
    (h : (f ()).Detaches kernel done Fails post (s.assign fd (.devNull flags))) :
    (openNull flags >>= f).Detaches kernel done Fails post s := by
  refine .ask_bind (single_of_ne nofun) fun (n : Option Nat) s' hs => detaches_require (by decide) ?_
  intro hsome
  obtain ⟨n, rfl⟩ := Option.isSome_iff_exists.mp hsome
  obtain ⟨hlowest, rfl⟩ : s.Lowest n ∧ s' = s.assign n (.devNull flags) := hs
  rw [hlowest.eq hfree hused]
  exact h

/-- The descriptors of a daemon: the first three are for `/dev/null`. -/
def nullFds (fds : Nat → Option Descriptor) : Nat → Option Descriptor
  | 0 => some (.devNull .rdonly)
  | 1 => some (.devNull .wronly)
  | 2 => some (.devNull .rdwr)
  | fd => fds fd

theorem detaches_reopen :
    reopen.Detaches kernel done Fails (fun s' _ => s' = { s with fds := nullFds s.fds }) s := by
  refine detaches_requireAct (by decide) (detaches_requireAct (by decide)
    (detaches_requireAct (by decide) ?_))
  refine detaches_openNull 0 rfl (fun m hm => absurd hm (Nat.not_lt_zero m)) (detaches_openNull 1 rfl ?_ ?_)
  · intro m hm
    obtain rfl : m = 0 := by omega
    exact nofun
  rw [← Program.bind_ret (openNull .rdwr)]
  refine detaches_openNull 2 rfl ?_ ?_
  · intro m hm
    obtain rfl | rfl : m = 0 ∨ m = 1 := by omega
    · exact nofun
    · exact nofun
  -- each of the three is assigned again behind the calls of `close`
  have hfds : (((((s.close 0).close 1).close 2).assign 0 (.devNull .rdonly)).assign 1
      (.devNull .wronly)).assign 2 (.devNull .rdwr) = { s with fds := nullFds s.fds } := by
    simp only [Process.close, Process.assign]
    refine congrArg (fun fds => { s with fds }) (funext fun fd => ?_)
    match fd with
    | 0 | 1 | 2 => rfl
    | fd + 3 => rfl
  exact hfds

/-- A daemon does not lead its session. It stays in the directory it was started in. -/
def Process.daemon (s : Process) (pid ppid : Nat) : Process :=
  { s with
    pid
    ppid
    session := .member
    umask := 0o27
    action := Function.update s.action .hup .ignored
    fds := nullFds s.fds }

theorem detaches_becomeDaemon :
    becomeDaemon.Detaches kernel Parted Fails (fun s' _ => ∃ pid ppid, s' = s.daemon pid ppid) s := by
  refine detaches_forkAway (fun _ => .inl rfl) fun first => ?_
  refine detaches_requireAct (by decide) (detaches_requireAct (by decide) ?_)
  refine detaches_forkAway (fun _ => detaches_log (.inr (.inl rfl)) (.inr (.inr rfl)) (.inl rfl))
    fun second => ?_
  refine detaches_requireAct (by decide) (.ask_bind (single_of_ne nofun) ?_)
  rintro ⟨⟩ _ rfl
  exact detaches_reopen.weaken (fun _ _ => id) fun s' _ hs => ⟨second, first, hs⟩

/-! ### The shared memory and the pipe -/

/-- A call the failure of which is only logged. -/
theorem detaches_logAct {a : Act} {f : Unit → Startup α} (hexit : ∀ s, bad s (.exit 5))
    (hpipe : ∀ s, bad s .sigpipe)
    (h : ∀ s', s' = s ∨ s' = a.effect s → (f ()).Detaches kernel done bad post s') :
    (perform (.act a) >>= fun r => logUnless r >>= f).Detaches kernel done bad post s := by
  refine .ask_bind (single_of_ne nofun) fun (succeeds : Bool) s' hs => ?_
  cases succeeds with
  | false => exact detaches_log (hexit s') (hpipe s') (h s' hs)
  | true =>
    obtain ⟨-, hs⟩ : a.Possible s ∧ s' = a.effect s := hs
    exact h s' (.inr hs)

/-- The shared memory at the descriptor, the pipe, and what is in the memory. -/
def Process.shared (s : Process) (fd : Nat) (pipeConf : Nat × Nat) : Process :=
  { ((s.assign fd .sharedMemory).assign pipeConf.1 .readPipe).assign pipeConf.2 .writePipe with
    linked := true
    mapped := true
    pshared := fun _ => true
    object := fun _ => some true
    cont := some 0
    pipeConf := some pipeConf }

/-- The descriptors are new. -/
structure Process.Unused (s : Process) (fd : Nat) (pipeConf : Nat × Nat) : Prop where
  memory : s.fds fd = none
  read : s.fds pipeConf.1 = none
  write : s.fds pipeConf.2 = none
  read_ne : pipeConf.1 ≠ fd
  write_ne : pipeConf.2 ≠ fd
  ends_ne : pipeConf.2 ≠ pipeConf.1

theorem free_of_assign {fd n : Nat} {d : Descriptor} (h : (s.assign fd d).fds n = none) :
    n ≠ fd ∧ s.fds n = none := by
  change Function.update s.fds fd (some d) n = none at h
  have hne : n ≠ fd := by
    rintro rfl
    rw [Function.update_self] at h
    cases h
  rw [Function.update_of_ne hne] at h
  exact ⟨hne, h⟩

theorem detaches_share :
    share.Detaches kernel done Fails
      (fun s' pipeConf => ∃ fd, s.Unused fd pipeConf ∧ s' = s.shared fd pipeConf) s := by
  refine .ask_bind (single_of_ne nofun) fun (fd : Option Nat) s₁ hs₁ => detaches_require (by decide) ?_
  intro hsome
  obtain ⟨fd, rfl⟩ := Option.isSome_iff_exists.mp hsome
  obtain ⟨⟨hfd, -⟩, rfl⟩ | ⟨hno, -⟩ := hs₁
  swap
  · cases hno
  refine detaches_requireAct (by decide) (detaches_requireAct (by decide) ?_)
  refine .ask_bind (single_of_ne nofun) ?_
  rintro ⟨⟩ _ rfl
  refine detaches_requireAct (by decide) (detaches_requireAct (by decide)
    (detaches_requireAct (by decide) (detaches_requireAct (by decide) ?_)))
  refine detaches_logAct (fun _ => nofun) (fun _ => nofun) fun s₂ hs₂ => ?_
  refine detaches_logAct (fun _ => nofun) (fun _ => nofun) fun s₃ hs₃ => ?_
  obtain rfl : s₂ = _ := hs₂.elim id id
  obtain rfl : s₃ = _ := hs₃.elim id id
  refine .ask_bind (single_of_ne nofun) fun (pipeConf : Option (Nat × Nat)) s₄ hs₄ => ?_
  cases pipeConf with
  | none => exact detaches_fail (by decide)
  | some pipeConf =>
    obtain ⟨⟨hread, -⟩, ⟨hwrite, -⟩, rfl⟩ := hs₄
    obtain ⟨hends, hwrite⟩ := free_of_assign hwrite
    obtain ⟨hreadNe, hread⟩ := free_of_assign hread
    obtain ⟨hwriteNe, hwrite⟩ := free_of_assign hwrite
    refine ⟨fd, ⟨hfd, hread, hwrite, hreadNe, hwriteNe, hends⟩, ?_⟩
    have hpshared : Function.update (Function.update s.pshared .cond true) .mutex true = fun _ => true :=
      funext fun shared => by cases shared <;> rfl
    have hobject : Function.update (Function.update s.object .mutex (some true)) .cond (some true) =
        fun _ => some true :=
      funext fun shared => by cases shared <;> rfl
    simp only [Act.effect, Process.withPipe, Process.withCont, Process.withName, Process.assign, hpshared,
      hobject]
    rfl

/-! ### Up to the fork of the log process -/

/-- What the signals do when the log process is forked. -/
def startActions (debugMode : Bool) (action : Signal → Disposition) : Signal → Disposition
  | .chld => .ignored
  | .hup => if debugMode then action .hup else .ignored
  | signal => action signal

/-- A daemon cannot get a terminal again, and has none open at the descriptors of the standard streams.
-/
structure Daemonised (s : Process) : Prop where
  session : s.session = .member
  umask : s.umask = 0o27
  stdin : s.fds 0 = some (.devNull .rdonly)
  stdout : s.fds 1 = some (.devNull .wronly)
  stderr : s.fds 2 = some (.devNull .rdwr)

/-- `main` begins without a pipe of its own. -/
def Process.Fresh (s : Process) : Prop := ∀ fd, s.fds fd = none ∨ s.fds fd = some .inherited

/-- The process in front of the shared memory, when `main` has begun in `s₀`. -/
structure Begun (debugMode : Bool) (s₀ s : Process) : Prop where
  noPipe : ∀ fd, s.fds fd ≠ some .readPipe ∧ s.fds fd ≠ some .writePipe
  cwd : s.cwd = s₀.cwd
  action : s.action = startActions debugMode s₀.action
  daemon : debugMode = false → Daemonised s

/-- The process that forks the log process has both ends of the pipe. -/
structure Forks (debugMode : Bool) (s₀ : Process) (ends : Nat × Nat) (s : Process) : Prop where
  ends_ne : ends.2 ≠ ends.1
  linked : s.linked = true
  mapped : s.mapped = true
  object : ∀ shared, s.object shared = some true
  cont : s.cont = some 0
  pipeConf : s.pipeConf = some ends
  readEnd : ∀ fd, s.fds fd = some .readPipe ↔ fd = ends.1
  writeEnd : ∀ fd, s.fds fd = some .writePipe ↔ fd = ends.2
  cwd : s.cwd = s₀.cwd
  action : s.action = startActions debugMode s₀.action
  daemon : debugMode = false → Daemonised s

variable {debugMode : Bool} {s₀ : Process} {ends : Nat × Nat}

theorem Process.Fresh.noPipe (h : s.Fresh) (fd : Nat) :
    s.fds fd ≠ some .readPipe ∧ s.fds fd ≠ some .writePipe := by
  rcases h fd with hfd | hfd <;> rw [hfd] <;> exact ⟨nofun, nofun⟩

theorem noPipe_nullFds (h : s.Fresh) (fd : Nat) :
    nullFds s.fds fd ≠ some .readPipe ∧ nullFds s.fds fd ≠ some .writePipe := by
  match fd with
  | 0 | 1 | 2 => exact ⟨nofun, nofun⟩
  | fd + 3 => exact h.noPipe (fd + 3)

theorem begun_debug (hfresh : s.Fresh) : Begun true s ((Act.ignore .chld).effect s) where
  noPipe := hfresh.noPipe
  cwd := rfl
  action := funext fun signal => by cases signal <;> rfl
  daemon := nofun

theorem begun_daemon (hfresh : s.Fresh) (pid ppid : Nat) :
    Begun false s (((Act.ignore .chld).effect s).daemon pid ppid) where
  noPipe := noPipe_nullFds hfresh
  cwd := rfl
  action := funext fun signal => by cases signal <;> rfl
  daemon _ := ⟨rfl, rfl, rfl, rfl, rfl⟩

theorem fds_shared {fd n : Nat} : (s.shared fd ends).fds n = if n = ends.2 then some .writePipe
    else if n = ends.1 then some .readPipe else if n = fd then some .sharedMemory else s.fds n := by
  simp only [Process.shared, Process.assign, Function.update_apply]

/-- What was open is still there beside the shared memory and the pipe. -/
theorem Process.Unused.fds_shared {fd n : Nat} {d : Descriptor} (h : s.Unused fd ends)
    (hn : s.fds n = some d) : (s.shared fd ends).fds n = some d := by
  rw [Startup.fds_shared, if_neg, if_neg, if_neg]
  · exact hn
  · rintro rfl
    exact nomatch h.memory.symm.trans hn
  · rintro rfl
    exact nomatch h.read.symm.trans hn
  · rintro rfl
    exact nomatch h.write.symm.trans hn

theorem Begun.forks {fd : Nat} (h : Begun debugMode s₀ s) (hunused : s.Unused fd ends) :
    Forks debugMode s₀ ends (s.shared fd ends) where
  ends_ne := hunused.ends_ne
  linked := rfl
  mapped := rfl
  object _ := rfl
  cont := rfl
  pipeConf := rfl
  readEnd n := by
    rw [fds_shared]
    split_ifs with hw hr hm
    · exact iff_of_false nofun fun h => hunused.ends_ne (hw.symm.trans h)
    · exact iff_of_true rfl hr
    · exact iff_of_false nofun hr
    · exact iff_of_false (h.noPipe n).1 hr
  writeEnd n := by
    rw [fds_shared]
    split_ifs with hw hr hm
    · exact iff_of_true rfl hw
    · exact iff_of_false nofun hw
    · exact iff_of_false nofun hw
    · exact iff_of_false (h.noPipe n).2 hw
  cwd := h.cwd
  action := h.action
  daemon hno :=
    have hdaemon := h.daemon hno
    ⟨hdaemon.session, hdaemon.umask, hunused.fds_shared hdaemon.stdin, hunused.fds_shared hdaemon.stdout,
      hunused.fds_shared hdaemon.stderr⟩

theorem detaches_prepare (hfresh : s.Fresh) :
    (prepare debugMode).Detaches kernel Parted Fails (fun s' ends => Forks debugMode s ends s') s := by
  refine detaches_requireAct (by decide) ?_
  have hbegun : (daemonUnless debugMode).Detaches kernel Parted Fails (fun s' _ => Begun debugMode s s')
      ((Act.ignore .chld).effect s) := by
    cases debugMode with
    | true => exact begun_debug hfresh
    | false =>
      refine detaches_becomeDaemon.weaken (fun _ _ => id) ?_
      rintro _ _ ⟨pid, ppid, rfl⟩
      exact begun_daemon hfresh pid ppid
  refine hbegun.bind fun base _ hbase => detaches_log nofun nofun ?_
  refine detaches_share.weaken (fun _ _ => id) ?_
  rintro _ ends ⟨fd, hunused, rfl⟩
  exact hbase.forks hunused

/-! ### The server and the log process -/

theorem detaches_closeAll {logProcess logsProcesPid writeEnd : Nat} :
    (closeAll logProcess logsProcesPid writeEnd : Startup α).Detaches kernel done Fails post s := by
  refine detaches_log nofun nofun (detaches_logAct (fun _ => nofun) (fun _ => nofun) fun _ _ => ?_)
  refine detaches_logAct (fun _ => nofun) (fun _ => nofun) fun _ _ => ?_
  refine detaches_logAct (fun _ => nofun) (fun _ => nofun) fun _ _ => ?_
  have hend : ∀ s, (perform (.act .shmUnlink) >>= fun r => logUnless r >>= fun _ => .halt (.exit 1) :
      Startup α).Detaches kernel done Fails post s := fun _ =>
    detaches_logAct (fun _ => nofun) (fun _ => nofun) fun _ _ => nofun
  split_ifs
  · refine .ask_bind (single_of_ne nofun) fun (survived : Bool) s' _ => ?_
    cases survived with
    | false => exact nofun
    | true => exact hend s'
  · exact detaches_logAct (fun _ => nofun) (fun _ => nofun) fun s' _ => hend s'

theorem detaches_orClose {close : Startup Unit} {a : Act} {f : Unit → Startup α}
    (hclose : ∀ s, close.Detaches kernel done Fails (fun _ _ => False) s)
    (h : (f ()).Detaches kernel done Fails post (a.effect s)) :
    (orClose close a >>= f).Detaches kernel done Fails post s := by
  refine .ask_bind (single_of_ne nofun) fun (succeeds : Bool) s' hs => ?_
  cases succeeds with
  | false =>
    have hlog : (log >>= fun _ => close).Detaches kernel done Fails (fun _ _ => False) s' :=
      detaches_log nofun nofun (hclose s')
    exact hlog.bind fun _ _ hno => hno.elim
  | true =>
    obtain ⟨-, rfl⟩ : a.Possible s ∧ s' = a.effect s := hs
    exact h

theorem detaches_orCloseEach {close : Startup Unit} (acts : List Act)
    (hclose : ∀ s, close.Detaches kernel done Fails (fun _ _ => False) s) :
    (orCloseEach close acts).Detaches kernel done Fails (fun s' _ => s' = acts.foldl Act.effect s) s := by
  induction acts generalizing s with
  | nil => rfl
  | cons a acts ih => exact detaches_orClose hclose ih

/-- The handlers of the server. -/
def handlers (action : Signal → Disposition) : Signal → Disposition
  | .chld => action .chld
  | .hup => .handled .sighupHandler [.hup]
  | .int | .term | .alrm | .usr1 | .usr2 => .handled .closeAll (.hup :: termSignals)

theorem effect_handlerActs :
    handlerActs.foldl Act.effect s = { s with action := handlers s.action } := by
  simp only [handlerActs, termSignals, List.map, List.cons_append, List.nil_append, List.foldl_cons,
    List.foldl_nil, Act.effect]
  refine congrArg (fun action => { s with action }) (funext fun signal => ?_)
  cases signal <;> rfl

theorem detaches_serve {logProcess : Nat} {pipeConf : Nat × Nat} :
    (serve logProcess pipeConf).Detaches kernel done Fails
      (fun s' role => role = .server ∧ s' = { s.close pipeConf.1 with action := handlers s.action }) s := by
  refine detaches_orClose (fun _ => detaches_closeAll) ?_
  refine (detaches_orCloseEach handlerActs fun _ => detaches_closeAll).bind fun s' _ hs => ⟨rfl, ?_⟩
  rw [hs, effect_handlerActs]
  rfl

theorem detaches_logs {pipeConf : Nat × Nat} :
    (logs pipeConf).Detaches kernel done Fails
      (fun s' role => role = .logProcess ∧ s' = s.close pipeConf.2) s :=
  detaches_requireAct (by decide) ⟨rfl, rfl⟩

/-! ### The processes -/

/-- The pids of the server and of the log process, and the pipe between them. -/
structure Launched where
  server : Nat
  logProcess : Nat
  pipeConf : Nat × Nat
  positive : 0 < logProcess
  pids_ne : logProcess ≠ server
  ends_ne : pipeConf.2 ≠ pipeConf.1

def Launched.pid (l : Launched) : Role → Nat
  | .server => l.server
  | .logProcess => l.logProcess

def Role.actions (role : Role) (action : Signal → Disposition) : Signal → Disposition :=
  match role with
  | .server => handlers action
  | .logProcess => action

/-- The server before its socket, or the log process before `log_management`, when `main` has begun in
`s₀`. -/
structure Ready (debugMode : Bool) (s₀ : Process) (l : Launched) (role : Role) (s : Process) : Prop where
  pid : s.pid = l.pid role
  parent : role = .logProcess → s.ppid = l.server
  linked : s.linked = true
  mapped : s.mapped = true
  object : ∀ shared, s.object shared = some true
  cont : s.cont = some 0
  pipeConf : s.pipeConf = some l.pipeConf
  readEnd : ∀ fd, s.fds fd = some .readPipe ↔ fd = l.pipeConf.1 ∧ role = .logProcess
  writeEnd : ∀ fd, s.fds fd = some .writePipe ↔ fd = l.pipeConf.2 ∧ role = .server
  cwd : s.cwd = s₀.cwd
  action : s.action = role.actions (startActions debugMode s₀.action)
  daemon : debugMode = false → Daemonised s

/-- The process comes to its role, or fails. -/
def Comes (debugMode : Bool) (s₀ : Process) (l : Launched) (role : Role)
    (leaf : Process × Except ProcessEnd Role) : Prop :=
  leaf.2 = .ok role ∧ Ready debugMode s₀ l role leaf.1 ∨ ∃ e, leaf.2 = .error e ∧ Fails leaf.1 e

theorem fds_close {fd n : Nat} : (s.close fd).fds n = if n = fd then none else s.fds n :=
  Function.update_apply ..

/-- The pipe is not among the standard streams. -/
theorem Daemonised.close {fd : Nat} (h : Daemonised s)
    (hpipe : s.fds fd = some .readPipe ∨ s.fds fd = some .writePipe) : Daemonised (s.close fd) := by
  have hkeeps : ∀ n flags, s.fds n = some (.devNull flags) →
      (s.close fd).fds n = some (.devNull flags) := by
    intro n flags hn
    rw [fds_close, if_neg]
    · exact hn
    · rintro rfl
      rcases hpipe with h | h <;> exact nomatch hn.symm.trans h
  exact ⟨h.session, h.umask, hkeeps 0 _ h.stdin, hkeeps 1 _ h.stdout, hkeeps 2 _ h.stderr⟩

theorem Forks.serves {l : Launched} (h : Forks debugMode s₀ l.pipeConf s) (hpid : s.pid = l.server) :
    Ready debugMode s₀ l .server { s.close l.pipeConf.1 with action := handlers s.action } where
  pid := hpid
  parent := nofun
  linked := h.linked
  mapped := h.mapped
  object := h.object
  cont := h.cont
  pipeConf := h.pipeConf
  readEnd n := by
    refine iff_of_false ?_ nofun
    change (s.close l.pipeConf.1).fds n ≠ _
    rw [fds_close]
    split_ifs with hn
    · exact nofun
    · exact fun hread => hn ((h.readEnd n).mp hread)
  writeEnd n := by
    change (s.close l.pipeConf.1).fds n = _ ↔ _
    rw [fds_close, and_iff_left rfl]
    split_ifs with hn
    · exact iff_of_false nofun fun hw => l.ends_ne (hw.symm.trans hn)
    · exact h.writeEnd n
  cwd := h.cwd
  action := congrArg handlers h.action
  daemon hno :=
    have hdaemon := (h.daemon hno).close (.inl ((h.readEnd _).mpr rfl))
    ⟨hdaemon.session, hdaemon.umask, hdaemon.stdin, hdaemon.stdout, hdaemon.stderr⟩

theorem Daemonised.child (h : Daemonised s) (pid : Nat) : Daemonised (s.child pid) :=
  ⟨if_neg (h.session ▸ nofun) |>.trans h.session, h.umask, h.stdin, h.stdout, h.stderr⟩

theorem Forks.logs {l : Launched} (h : Forks debugMode s₀ l.pipeConf s) (hpid : s.pid = l.server) :
    Ready debugMode s₀ l .logProcess ((s.child l.logProcess).close l.pipeConf.2) where
  pid := rfl
  parent _ := hpid
  linked := h.linked
  mapped := h.mapped
  object := h.object
  cont := h.cont
  pipeConf := h.pipeConf
  readEnd n := by
    rw [fds_close, and_iff_left rfl]
    split_ifs with hn
    · exact iff_of_false nofun fun hr => l.ends_ne (hn.symm.trans hr)
    · exact h.readEnd n
  writeEnd n := by
    refine iff_of_false ?_ nofun
    rw [fds_close]
    split_ifs with hn
    · exact nofun
    · exact fun hwrite => hn ((h.writeEnd n).mp hwrite)
  cwd := h.cwd
  action := h.action
  daemon hno := ((h.daemon hno).child _).close (.inr ((h.writeEnd _).mpr rfl))

/-- The processes that `main` comes to, when it begins in `s`. All but one or two of them have forked and
ended. One is left when a call fails before there is a log process, and it ends with a failure. The two
that are left otherwise are the server and the log process, each of which comes to its role or fails.
-/
theorem main_processes {leaves : List (Process × Except ProcessEnd Role)} (hfresh : s.Fresh)
    (h : Program.Spawns kernel s (main debugMode) leaves) :
    ∃ ended rest, leaves = ended ++ rest ∧ (∀ leaf ∈ ended, ∃ e, leaf.2 = .error e ∧ Parted leaf.1 e) ∧
      ((∃ s' e, rest = [(s', .error e)] ∧ Fails s' e) ∨
        ∃ l server logProcess, rest = [server, logProcess] ∧ Comes debugMode s l .server server ∧
          Comes debugMode s l .logProcess logProcess) := by
  obtain ⟨ended, rest, rfl, hended, ⟨s', e, he, rfl⟩ | ⟨forker, ends, hforker, hrest⟩⟩ :=
    (detaches_prepare hfresh).of_bind h
  · exact ⟨ended, _, rfl, hended, .inl ⟨s', e, rfl, he⟩⟩
  refine ⟨ended, rest, rfl, hended, ?_⟩
  cases hrest with
  | @call _ s' _ _ r _ hnone hfail =>
    obtain ⟨rfl, rfl⟩ : r = none ∧ s' = forker := hnone
    have hfails : (fail 5 : Startup Role).Detaches kernel (fun _ _ => False) Fails (fun _ _ => False) s' :=
      detaches_fail (by decide)
    obtain ⟨last, rfl, ⟨s'', e, rfl, he⟩ | ⟨-, -, -, hno⟩⟩ := hfails.leaf hfail
    · exact .inl ⟨s'', e, rfl, he⟩
    · exact hno.elim
  | @fork _ _ _ parent child parents children hfork hparents hchildren =>
    obtain ⟨pid, hpositive, hne, rfl, rfl⟩ : ∃ pid : Nat, 0 < pid ∧ pid ≠ forker.pid ∧
      parent = (some pid, forker) ∧ child = (some 0, forker.child pid) := hfork
    let l : Launched := ⟨forker.pid, pid, ends, hpositive, hne, hforker.ends_ne⟩
    have hserve : Program.Spawns kernel forker (serve pid ends) parents := by
      have hbranch : (if pid = 0 then logs ends else serve pid ends) = serve pid ends :=
        if_neg hpositive.ne'
      rw [← hbranch]
      exact hparents
    obtain ⟨server, rfl, hserver⟩ := detaches_serve.leaf hserve
    obtain ⟨logProcess, rfl, hlogs⟩ := detaches_logs.leaf hchildren
    refine .inr ⟨l, server, logProcess, rfl, ?_, ?_⟩
    · rcases hserver with ⟨s', e, rfl, he⟩ | ⟨_, _, rfl, rfl, rfl⟩
      · exact .inr ⟨e, rfl, he⟩
      · exact .inl ⟨rfl, hforker.serves rfl⟩
    · rcases hlogs with ⟨s', e, rfl, he⟩ | ⟨_, _, rfl, rfl, rfl⟩
      · exact .inr ⟨e, rfl, he⟩
      · exact .inl ⟨rfl, hforker.logs rfl⟩

/-- A shell starts the server. -/
def shell : Process where
  pid := 1
  ppid := 0
  session := .inherited
  cwd := bytes "/srv"
  umask := 0o22
  fds fd := if fd < 3 then some .inherited else none
  action _ := .default
  linked := false
  mapped := false
  pshared _ := false
  object _ := none
  cont := none
  pipeConf := none

section

variable {leaves : List (Process × Except ProcessEnd α)}

theorem spawns_act {a : Act} {next : Bool → Startup α} (hpossible : a.Possible s)
    (h : Program.Spawns kernel (a.effect s) (next true) leaves) :
    Program.Spawns kernel s (.call (.act a) next) leaves :=
  have hsucceeds : kernel.answers s (.act a) true (a.effect s) := ⟨hpossible, rfl⟩
  .call hsucceeds h

theorem spawns_log {next : LogAnswer → Startup α} (h : Program.Spawns kernel s (next .printed) leaves) :
    Program.Spawns kernel s (.call .writeLog next) leaves :=
  have hprinted : kernel.answers s .writeLog LogAnswer.printed s := rfl
  .call hprinted h

theorem spawns_openNull {flags : OpenFlags} {next : Option Nat → Startup α} (fd : Nat)
    (hlowest : s.Lowest fd)
    (h : Program.Spawns kernel (s.assign fd (.devNull flags)) (next (some fd)) leaves) :
    Program.Spawns kernel s (.call (.openNull flags) next) leaves :=
  have hopens : kernel.answers s (.openNull flags) (some fd) (s.assign fd (.devNull flags)) := ⟨hlowest, rfl⟩
  .call hopens h

theorem spawns_shmOpen {next : Option Nat → Startup α} (fd : Nat) (hlowest : s.Lowest fd)
    (h : Program.Spawns kernel (s.withName.assign fd .sharedMemory) (next (some fd)) leaves) :
    Program.Spawns kernel s (.call .shmOpen next) leaves :=
  have hopens : kernel.answers s .shmOpen (some fd) (s.withName.assign fd .sharedMemory) :=
    .inl ⟨hlowest, rfl⟩
  .call hopens h

theorem spawns_pipe {next : Option (Nat × Nat) → Startup α} (r w : Nat) (hread : s.Lowest r)
    (hwrite : (s.assign r .readPipe).Lowest w)
    (h : Program.Spawns kernel (s.withPipe r w) (next (some (r, w))) leaves) :
    Program.Spawns kernel s (.call .pipe next) leaves :=
  have hpipe : kernel.answers s .pipe (some (r, w)) (s.withPipe r w) := ⟨hread, hwrite, rfl⟩
  .call hpipe h

theorem spawns_fork {next : Option Nat → Startup α} {leaf : Process × Except ProcessEnd α} (pid : Nat)
    (hpid : 0 < pid) (hne : pid ≠ s.pid) (hparent : Program.Spawns kernel s (next (some pid)) [leaf])
    (hchild : Program.Spawns kernel (s.child pid) (next (some 0)) leaves) :
    Program.Spawns kernel s (.call .fork next) (leaf :: leaves) := by
  have hforks : kernel.forks s .fork (some pid, s) (some 0, s.child pid) := ⟨pid, hpid, hne, rfl, rfl⟩
  change Program.Spawns kernel s (.call .fork next) ([leaf] ++ leaves)
  refine .fork hforks ?_ ?_
  · exact hparent
  · exact hchild

end

theorem spawns_main : ∃ first second server logProcess, Program.Spawns kernel shell (main false)
    [(first, .error (.exit 0)), (second, .error (.exit 0)), (server, .ok .server),
      (logProcess, .ok .logProcess)] := by
  refine ⟨?a, ?b, ?c, ?d, ?run⟩
  case run =>
    refine spawns_act trivial (spawns_fork 2 (by decide) (by decide) ?_ ?_)
    · exact .halt _ (ProcessEnd.exit 0)
    refine spawns_act trivial (spawns_act trivial (spawns_fork 3 (by decide) (by decide) (spawns_log ?_) ?_))
    · exact .halt _ (ProcessEnd.exit 0)
    refine spawns_act trivial (.call (r := ()) rfl ?_)
    refine spawns_act nofun (spawns_act nofun (spawns_act nofun ?_))
    refine spawns_openNull 0 ⟨rfl, by decide⟩ (spawns_openNull 1 ⟨rfl, by decide⟩
      (spawns_openNull 2 ⟨rfl, by decide⟩ ?_))
    refine spawns_log (spawns_shmOpen 3 ⟨rfl, by decide⟩ ?_)
    refine spawns_act trivial (spawns_act trivial (.call (r := ()) rfl ?_))
    iterate 6 refine spawns_act trivial ?_
    refine spawns_pipe 4 5 ⟨rfl, by decide⟩ ⟨rfl, by decide⟩ ?_
    refine spawns_fork 4 (by decide) (by decide) ?_ ?_
    · refine spawns_act nofun ?_
      iterate 15 refine spawns_act trivial ?_
      exact .ret _ Role.server
    · refine spawns_act nofun ?_
      exact .ret _ Role.logProcess

theorem main_processes_small : ∃ l server logProcess,
    Ready false shell l .server server ∧ Ready false shell l .logProcess logProcess := by
  have hfresh : shell.Fresh := by
    intro fd
    by_cases hfd : fd < 3
    · exact .inr (if_pos hfd)
    · exact .inl (if_neg hfd)
  obtain ⟨first, second, server, logProcess, hspawns⟩ := spawns_main
  obtain ⟨ended, rest, heq, -, hrest⟩ := main_processes hfresh hspawns
  rcases hrest with ⟨s', e, rfl, -⟩ | ⟨l, server', logProcess', rfl, hserver, hlogs⟩
  · have hlast := congrArg List.getLast? heq
    simp at hlast
  · -- the last two leaves
    have hpair := congrArg (fun leaves => leaves.reverse.take 2) heq
    simp only [List.reverse_append, List.reverse_cons, List.reverse_nil, List.nil_append, List.cons_append,
      List.take_succ_cons, List.take_zero, List.cons.injEq, and_true] at hpair
    obtain ⟨rfl, rfl⟩ := hpair
    rcases hserver with ⟨-, hserver⟩ | ⟨e, he, -⟩
    · rcases hlogs with ⟨-, hlogs⟩ | ⟨e, he, -⟩
      · exact ⟨l, server, logProcess, hserver, hlogs⟩
      · cases he
    · cases he

end Startup

end Sacagawea
