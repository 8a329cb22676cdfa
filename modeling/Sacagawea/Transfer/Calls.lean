import Sacagawea.Gopher.Menu
import Sacagawea.Lib.Program
import Sacagawea.Log.Record
import Sacagawea.Request.ReadRequest

/-!
# The calls made while a client is served

Serving a client is a program over the system and library calls whose results the source looks at.
The answer of a call is such a result. What a call is given stands in it where the answer or the
client depends on it.

`write_log` counts as a call. It allocates and prints, and ends the process itself when it cannot.
-/

namespace Sacagawea

/-- What `malloc` and `calloc` are asked for. -/
inductive Buffer where
  | input
  | pathFile
  | sanitized
  | pathOfSubfile
  | responseLine
  | logsString
  deriving DecidableEq, Repr

/-- The calls. `recvs` is all those of `read_request`, `shrink` and `grow` are `realloc` on the input
and on the response, and `opendir` gives what `readdir` finds. Behind an error of
`load_file_memory_and_send` nothing depends on `unlock` and `close`, which the flag says. -/
inductive Call where
  | writeLog
  | signal
  | allocate (buffer : Buffer)
  | recvs
  | shrink
  | popen (path : CStr)
  | opendir (pathFile clientSelector : CStr)
  | grow (size : Nat)
  | closedir
  | sendText (text : CStr)
  | openFile (pathFile : CStr)
  | lockFile
  | fstat
  | mmap (lenFile : Nat)
  | unlockFile (mapped : Bool)
  | close (mapped : Bool)
  | createThread
  | joinThread
  | munmap
  | send (rest : List Byte)
  | shutdown
  | recv
  | dateString
  | format
  | mutexLock
  | writeLen (len : Nat)
  | writeText (record : CStr)
  | condSignal
  | mutexUnlock

inductive LogAnswer where
  | printed
  | noMemory
  | brokenPipe
  deriving DecidableEq, Repr

inductive Shrink where
  | inPlace
  | moved
  | failed
  deriving DecidableEq, Repr

/-- What a `write` into the pipe of the log process gives. With nobody left to read there is a
SIGPIPE. -/
inductive PipeAnswer where
  | written
  | failed
  | brokenPipe
  deriving DecidableEq, Repr

/-- What a call can answer. `popen` gives what is on the stack and what the command prints, `mmap` the
contents of the file. A `Bool` says whether the call succeeds, and an `Int` is the result as it is.
-/
def Answer : Call → Type
  | .writeLog => LogAnswer
  | .recvs => List Recv
  | .shrink => Shrink
  | .popen _ => CharArray 64 × Probe
  | .opendir .. => Option (List DirEntry)
  | .fstat => Option Nat
  | .mmap lenFile => Option { file : List Byte // file.length = lenFile }
  | .sendText _ | .send _ | .recv => Int
  | .dateString => Option Tm
  | .writeLen _ | .writeText _ => PipeAnswer
  | .signal | .allocate _ | .grow _ | .closedir | .openFile _ | .lockFile | .unlockFile _ | .close _
  | .createThread | .joinThread | .munmap | .shutdown | .format | .mutexLock | .condSignal
  | .mutexUnlock => Bool

instance : (c : Call) → Nonempty (Answer c)
  | .writeLog => ⟨LogAnswer.printed⟩
  | .recvs => ⟨([] : List Recv)⟩
  | .shrink => ⟨Shrink.inPlace⟩
  | .popen _ => ⟨(CharArray.zero 64, Probe.noStream)⟩
  | .opendir .. | .fstat | .mmap _ | .dateString => ⟨none⟩
  | .sendText _ | .send _ | .recv => ⟨(0 : Int)⟩
  | .writeLen _ | .writeText _ => ⟨PipeAnswer.written⟩
  | .signal | .allocate _ | .grow _ | .closedir | .openFile _ | .lockFile | .unlockFile _ | .close _
  | .createThread | .joinThread | .munmap | .shutdown | .format | .mutexLock | .condSignal
  | .mutexUnlock => ⟨true⟩

/-- How serving a client can end before it is through: with the process, by `exit`, by SIGPIPE or in
an access C leaves undefined, or waiting for the client. -/
inductive Ending where
  | exit (code : Nat)
  | sigpipe
  | undefined
  | waiting
  deriving DecidableEq, Repr

/-- C leaves open what happens behind an undefined access, which is counted as the end of the process.
-/
def Ending.EndsProcess (e : Ending) : Prop := e ≠ .waiting

instance (e : Ending) : Decidable e.EndsProcess := inferInstanceAs (Decidable (e ≠ _))

def Stop.ending : Stop → Ending
  | .exit code => .exit code
  | .undefined => .undefined

abbrev Serve := Program Answer Ending

abbrev perform (c : Call) : Serve (Answer c) := Program.ask c

/-- `write_log`. -/
def log : Serve Unit := do
  let answer : LogAnswer ← perform .writeLog
  match answer with
  | .printed => return ()
  | .noMemory => .halt (.exit 5)
  | .brokenPipe => .halt .sigpipe

/-- The error of a call that goes wrong is logged. -/
def logUnless (succeeded : Bool) : Serve Unit := if succeeded then .ret () else log

/-- `write_log` and then `exit`. -/
def fail {α : Type} (code : Nat) : Serve α := do
  log
  .halt (.exit code)

/-- The process ends when a call goes wrong. -/
def require (code : Nat) (succeeded : Bool) : Serve Unit := if succeeded then .ret () else fail code

/-- What makes no calls. -/
def compute {α : Type} : Except Stop α → Serve α
  | .ok a => .ret a
  | .error stop => .halt stop.ending

theorem makesOnly_log {Q : Call → Prop} (h : Q .writeLog) : log.MakesOnly Q := by
  refine .ask_bind h fun answer => ?_
  cases answer <;> trivial

theorem makesOnly_logUnless {Q : Call → Prop} (h : Q .writeLog) (succeeded : Bool) :
    (logUnless succeeded).MakesOnly Q := by
  cases succeeded with
  | true => trivial
  | false => exact makesOnly_log h

theorem makesOnly_fail {α : Type} {Q : Call → Prop} (h : Q .writeLog) (code : Nat) :
    (fail code : Serve α).MakesOnly Q :=
  (makesOnly_log h).bind fun _ => trivial

/-! ### What ends the process -/

/-- An answer that ends the process. -/
def Fatal : (c : Call) → Answer c → Prop
  | .writeLog, (answer : LogAnswer) => answer ≠ .printed
  | .allocate buffer, (ok : Bool) => ok = false ∧ buffer ≠ .logsString
  | .shrink, (shrunk : Shrink) => shrunk = .moved
  | .popen _, (output : CharArray 64 × Probe) => output.2.Stops
  | .opendir _ clientSelector, (folder : Option (List DirEntry)) =>
    ∃ entries, folder = some entries ∧ (clientSelector.chars = [] ∨ listed entries = [])
  | .grow size, (ok : Bool) => ok = false ∨ 2 ^ 31 ≤ size
  | .unlockFile mapped, (ok : Bool) | .close mapped, (ok : Bool) => ok = false ∧ mapped = true
  | .signal, (ok : Bool) | .createThread, (ok : Bool) | .joinThread, (ok : Bool)
  | .munmap, (ok : Bool) => ok = false
  | .dateString, (date : Option Tm) => date = none
  | .writeLen _, (answer : PipeAnswer) | .writeText _, (answer : PipeAnswer) => answer = .brokenPipe
  | _, _ => False

abbrev Safe {α : Type} (p : Serve α) : Prop := p.Watched Ending.EndsProcess Fatal

abbrev Dies {α : Type} (p : Serve α) : Prop := p.Doomed Ending.EndsProcess

theorem safe_log : Safe log := by
  apply Program.Watched.ask_bind
  · intro (answer : LogAnswer) hfatal
    cases answer with
    | printed => exact absurd rfl hfatal
    | noMemory | brokenPipe => exact nofun
  · intro (answer : LogAnswer) hno
    obtain rfl : answer = .printed := not_not.mp hno
    trivial

theorem safe_logUnless (succeeded : Bool) : Safe (logUnless succeeded) := by
  cases succeeded with
  | true => trivial
  | false => exact safe_log

theorem haltsOnly_log : log.HaltsOnly Ending.EndsProcess := by
  intro (answer : LogAnswer)
  cases answer with
  | printed => trivial
  | noMemory | brokenPipe => exact nofun

theorem dies_fail {α : Type} (code : Nat) : Dies (fail code : Serve α) :=
  Program.Doomed.of_bind haltsOnly_log fun _ => nofun

theorem dies_require_bind {α : Type} {code : Nat} {ok : Bool} {f : Unit → Serve α} (h : ok = false) :
    Dies (require code ok >>= f) := by
  rw [h]
  exact (dies_fail code).bind

theorem safe_require_bind {α : Type} {code : Nat} {ok : Bool} {f : Unit → Serve α} (h : ¬ ok = false)
    (hf : Safe (f ())) : Safe (require code ok >>= f) := by
  rw [Bool.eq_true_of_not_eq_false h]
  exact hf

end Sacagawea
