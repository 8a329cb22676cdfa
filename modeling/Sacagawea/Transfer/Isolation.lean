import Sacagawea.Request.FailedProbe
import Sacagawea.Transfer.LoadFile

/-!
# A client and the server process

The functions that serve a client run in a thread of the server or in a forked child. They were written
for either: what goes wrong for one client is often answered by `exit`, which in a thread ends the
server with all its clients. Here they are with their calls, and which answers end the process.

The functions under `Serve` are the ones of `Management` and `Menu` with their calls.
-/

namespace Sacagawea

open Program

/-! ### The code -/

/-- `write_log` of a text that came from outside. -/
def logText (message : CStr) : Serve Unit := do
  let _ ← compute (writeLog message)
  log

def Serve.drainOutput : (rounds : Nat) → (popenOutput stream : List Byte) → Serve (List Byte)
  | 0, popenOutput, _ => return popenOutput
  | rounds + 1, popenOutput, stream =>
    match fgets popenOutput 64 stream with
    | none => return popenOutput
    | some (popenOutput, stream) => do
      logText (CStr.ofBuffer popenOutput)
      Serve.drainOutput rounds popenOutput stream

/-- What `type_path` makes of what the command prints. -/
def Serve.classifyText (stack : CharArray 64) (text : List Byte) : Serve GopherType := do
  let (popenOutput, stream) := (fgets stack.cells 64 text).getD (stack.cells, [])
  if startsWith popenOutput (bytes "cannot") then do
    logText (CStr.ofBuffer popenOutput)
    let popenOutput ← Serve.drainOutput stream.length popenOutput stream
    return classify popenOutput
  else return classify popenOutput

def Serve.typePath (path : CStr) : Serve GopherType := do
  let allocated : Bool ← perform (.allocate .sanitized)
  require 5 allocated
  let output : CharArray 64 × Probe ← perform (.popen path)
  match output.2 with
  | .noStream => fail 5
  | .unreadable => fail 5
  | .output text => Serve.classifyText output.1 text

/-- `realloc` of the response to a size, and what is then done with it. -/
def Serve.grow (size : Nat) (response : Except Stop CStr) : Serve CStr := do
  let grown : Bool ← perform (.grow size)
  require 1 grown
  compute response

/-- The line of an entry. -/
def Serve.entryLine (pathFile clientSelector hostname : CStr) (port : Int) (name : CStr) :
    Serve CStr := do
  let allocated : Bool ← perform (.allocate .pathOfSubfile)
  require 1 allocated
  let path ← compute (pathOfSubfile pathFile name)
  let type ← Serve.typePath path
  let allocated : Bool ← perform (.allocate .responseLine)
  require 1 allocated
  compute (responseLine type name clientSelector hostname port)

def Serve.menuLoop (pathFile clientSelector hostname : CStr) (port : Int) :
    List DirEntry → Option CStr → Serve (Option CStr)
  | [], response => return response
  | subFile :: folder, response =>
    if skipped subFile.name then Serve.menuLoop pathFile clientSelector hostname port folder response
    else do
      let line ← Serve.entryLine pathFile clientSelector hostname port subFile.name
      let response ← Serve.grow ((collected response).length + line.strlen + 1) (appendLine response line)
      Serve.menuLoop pathFile clientSelector hostname port folder (some response)

/-- What follows the loop. Without an entry `strlen` is given `NULL`. -/
def Serve.sendMenu : Option CStr → Serve Unit
  | none => .halt .undefined
  | some response => do
    let response ← Serve.grow (response.strlen + 4) (endMenu (some response))
    let check : Int ← perform (.sendText response)
    logUnless (decide (0 ≤ check))
    log
    let closed : Bool ← perform .closedir
    logUnless closed

def Serve.sendContentOfDir (pathFile clientSelector hostname : CStr) (port : Int) : Serve Unit := do
  log
  let folder : Option (List DirEntry) ← perform (.opendir pathFile clientSelector)
  match folder with
  | none => log
  | some folder => do
    let response ← Serve.menuLoop pathFile clientSelector hostname port folder none
    Serve.sendMenu response

/-- `close_socket_kill_child`: the thread ends, where it returns, and in a child the process does. -/
def closeSocketKillChild (mode : Byte) (errcode : Nat) : Serve Unit :=
  if mode = 116 then log else .halt (.exit errcode)

def Serve.respond (rounds : Nat) (stack : (n : Nat) → CharArray n) (settings : Settings)
    (addr path input : CStr) : Serve Unit := do
  let type ← Serve.typePath path
  if type = .directory then
    Serve.sendContentOfDir path input settings.hostname.str settings.port
  else if type = .error then do
    let temp ← compute (errorReply stack input)
    let check : Int ← perform (.sendText temp)
    logUnless (decide (0 ≤ check))
  else do
    let _ ← loadFileMemoryAndSend rounds path addr
    log

def Serve.answer (rounds : Nat) (stack : (n : Nat) → CharArray n) (settings : Settings)
    (addr input : CStr) : Serve Unit := do
  log
  let allocated : Bool ← perform (.allocate .pathFile)
  require 1 allocated
  let path ← compute ((CharArray.zero pathMax).strcpy settings.homedir.str)
  if pathMax ≤ path.str.strlen + input.strlen then do
    log
    closeSocketKillChild settings.mode 0
  else do
    let path ← compute (path.strcat input)
    log
    if checkSecurityPath path.str then do
      log
      closeSocketKillChild settings.mode 0
    else do
      Serve.respond rounds stack settings addr path.str input
      closeSocketKillChild settings.mode 0

/-- The end of `read_request`, and what follows it. When `realloc` moves the buffer, the pointer the
caller has is to memory that has been freed. -/
def Serve.received (rounds : Nat) (stack : (n : Nat) → CharArray n) (settings : Settings) (addr : CStr) :
    Option (Int × List Byte) → Serve Unit
  | none => .halt .waiting
  | some (check, input) =>
    if check = -1 then do
      log
      closeSocketKillChild settings.mode 0
    else do
      let shrunk : Shrink ← perform .shrink
      match shrunk with
      | .failed => do
        log
        closeSocketKillChild settings.mode 0
      | .moved => .halt .undefined
      | .inPlace => Serve.answer rounds stack settings addr (CStr.ofBuffer input)

def Serve.managementFunction (rounds : Nat) (stack : (n : Nat) → CharArray n) (settings : Settings)
    (addr : CStr) : Serve Unit := do
  let allocated : Bool ← perform (.allocate .input)
  require 1 allocated
  let outcomes : List Recv ← perform .recvs
  let buflen := inputSize settings.homedir.str
  Serve.received rounds stack settings addr (readRequest (List.replicate buflen NUL) buflen outcomes)

/-- `start_thread_management` -/
def startThreadManagement (rounds : Nat) (stack : (n : Nat) → CharArray n) (settings : Settings)
    (addr : CStr) : Serve Unit := do
  let ignored : Bool ← perform .signal
  require 1 ignored
  Serve.managementFunction rounds stack settings addr

/-! ### The type of a path -/

/-- The strings of the settings end in their arrays. -/
structure Settings.Terminated (settings : Settings) : Prop where
  homedir : settings.homedir.str.strlen < pathMax
  hostname : settings.hostname.str.strlen ≤ 255

/-- A server in thread mode with `/srv/` for its directory. -/
def threadSettings : Settings where
  port := 70
  socket := 3
  mode := 116
  homedir := ⟨(CStr.lit "/srv/").chars ++ NUL :: List.replicate 4090 NUL, by
    rw [List.length_append, List.length_cons, List.length_replicate]
    rfl⟩
  hostname := CharArray.zero 256

theorem homedir_threadSettings : threadSettings.homedir.str = CStr.lit "/srv/" :=
  CStr.ofBuffer_terminated _ _

theorem terminated_threadSettings : threadSettings.Terminated where
  homedir := by
    rw [homedir_threadSettings]
    decide
  hostname := by
    have hname : threadSettings.hostname.str = CStr.lit "" :=
      CStr.ofBuffer_terminated (CStr.lit "") (List.replicate 255 NUL)
    rw [hname]
    decide

end Sacagawea
