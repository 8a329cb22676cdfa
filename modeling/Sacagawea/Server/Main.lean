import Sacagawea.Gopher.Menu
import Sacagawea.Server.AcceptLoop

/-!
# The port of the server

`main` sets the default port, reads the configuration and then the options, and opens the socket. A
port in the configuration is checked against the range of ports. The argument of `-P` is not:
`htons` keeps the low sixteen bits of it, and a menu shows the whole.

SIGHUP is handled before the socket is opened, so a reload can come between any two steps of the
opening, and of the loop behind it.
-/

namespace Sacagawea

def defaultServerPort : Int := 7070

/-! ### The code -/

/-- `atoi`: spaces, a sign and digits as a `long`, of which an `int` is left. -/
def atoi (s : CStr) : Int :=
  let rest := s.chars.dropWhile isSpace
  let digits := if rest.head? = some 45 ∨ rest.head? = some 43 then rest.tail else rest
  let val : Nat := (digits.takeWhile isDigit).foldl (fun val c => 10 * val + (c.toNat - 48)) 0
  let long : Int := if rest.head? = some 45 then max (-2 ^ 63) (-val) else min (2 ^ 63 - 1) val
  Int.bmod long (2 ^ 32)

/-- What `getopt(argc, argv, "ptdP:")` returns. -/
inductive Opt where
  | p
  | t
  | d
  | P (optarg : CStr)
  | unknown

/-- The loop over the options, with the settings and `debug_mode`. -/
def parseOpts : List Opt → Settings → Bool → Except Stop (Settings × Bool)
  | [], settings, debugMode => .ok (settings, debugMode)
  | .p :: opts, settings, debugMode => parseOpts opts { settings with mode := 112 } debugMode
  | .P optarg :: opts, settings, debugMode =>
    parseOpts opts { settings with port := atoi optarg } debugMode
  | .t :: opts, settings, debugMode => parseOpts opts { settings with mode := 116 } debugMode
  | .d :: opts, settings, _ => parseOpts opts settings true
  | .unknown :: _, _, _ => .error (.exit 20)

/-- What the calls of `main` give before the socket is opened. Becoming a daemon and setting up the
log process and the signals leave the settings alone and can end the program. -/
structure MainCalls where
  signal : Bool
  calloc : Bool
  getcwd : Option CStr
  gethostname : Option CStr
  fopen : Option ConfStream
  opendir : CStr → Bool
  line : CharArray 512
  options : List Opt
  becomeDaemon : Except Stop Unit
  prepare : Except Stop Unit

def MainCalls.detach (calls : MainCalls) (debugMode : Bool) : Except Stop Unit :=
  if debugMode = false then calls.becomeDaemon else .ok ()

/-- The working directory with a slash behind it. -/
def defaultHomedir (getcwd : Option CStr) : Except Stop (CharArray pathMax) :=
  match getcwd with
  -- `close_all` uses the log process and the pipe, which are not there yet
  | none => .error .undefined
  | some cwd => do
    let homedir ← (CharArray.zero pathMax).strcpy cwd
    let length ← homedir.strlen
    let homedir ← homedir.put length slash
    let length ← homedir.strlen
    homedir.put (length + 1) NUL

/-- `main` up to `open_socket`. -/
def mainSettings (calls : MainCalls) : Except Stop Settings :=
  if calls.signal = false then .error (.exit 1)
  else if calls.calloc = false then .error .undefined
  else do
    let homedir ← defaultHomedir calls.getcwd
    let hostname ← (CharArray.zero 256).strcpy (calls.gethostname.getD (CStr.lit "localhost"))
    let (settings, _) ← readAndCheckConf calls.opendir calls.fopen calls.line
      ⟨defaultServerPort, 0, 116, homedir, hostname⟩ false
    let (settings, debugMode) ← parseOpts calls.options settings false
    calls.detach debugMode
    calls.prepare
    .ok settings

/-- How far `main` is with the socket: `htons` has been given the port, `open_socket` returns the
descriptor, and the settings have it. -/
inductive Opening where
  | before
  | addressed (port : Int)
  | opened (listenSocket : Int)
  | done

/-- The server from the moment SIGHUP is handled: the opening of its socket, and the loop of
`accept_wrapper`, which is at its top until then. -/
structure ServerRun where
  opening : Opening
  acceptor : Acceptor

/-- The steps of the opening, with the results of its calls, and those of the loop, of which SIGHUP can
come at any time. It is blocked while its handler runs. -/
inductive RunAction where
  | htons
  | openSocket (calls : Outcomes)
  | assign
  | loop (a : AcceptAction)

namespace ServerRun

def advance (s : ServerRun) (opening : Opening) (server : Option ServerProcess) : ServerRun :=
  ⟨opening, { s.acceptor with server }⟩

/-- `bind` and `listen` with the port that `htons` was given. -/
def stepOpenSocket (s : ServerRun) (server : ServerProcess) (calls : Outcomes) : ServerRun :=
  match s.opening with
  | .addressed port =>
    match openSocket calls { server.settings with port } with
    | .ok (listenSocket, bound) => s.advance (.opened listenSocket)
        (some { server with listening := Function.update server.listening listenSocket (some bound) })
    | .error _ => s.advance s.opening none
  | _ => s

def stepAssign (s : ServerRun) (server : ServerProcess) : ServerRun :=
  match s.opening with
  | .opened socket => s.advance .done (some { server with settings := { server.settings with socket } })
  | _ => s

end ServerRun

/-- `main` opens the socket once, and SIGHUP can come before, meanwhile and later. -/
def serverRun (settings : Settings) : Transition ServerRun RunAction where
  init := ⟨.before, .top, some ⟨settings, fun _ => none⟩, []⟩
  enabled s a := s.acceptor.server.isSome ∧ match a, s.opening with
    | .htons, .before => True
    | .openSocket _, .addressed _ => True
    | .assign, .opened _ => True
    | .loop (.sighup ..), _ => True
    | .loop a, .done => (acceptLoop ⟨settings, fun _ => none⟩).enabled s.acceptor a
    | _, _ => False
  next s a := match s.acceptor.server with
    | none => s
    | some server => match a with
      | .htons => { s with opening := .addressed server.settings.port }
      | .openSocket calls => s.stepOpenSocket server calls
      | .assign => s.stepAssign server
      | .loop a => { s with acceptor := (acceptLoop ⟨settings, fun _ => none⟩).next s.acceptor a }

/-! ### The routes of the port -/

theorem readMode_port (line : CStr) (settings : Settings) :
    (readMode line settings).port = settings.port := by
  rw [readMode]
  split
  · rfl
  · split_ifs <;> rfl

theorem readHomedir_port {opendir : CStr → Bool} {line : CStr} {settings settings' : Settings}
    (h : readHomedir opendir line settings = .ok settings') : settings'.port = settings.port := by
  simp only [readHomedir] at h
  split_ifs at h
  · cases h
    rfl
  · obtain ⟨homedir, -, h⟩ := bind_eq_ok_iff.mp h
    obtain ⟨length, -, h⟩ := bind_eq_ok_iff.mp h
    split_ifs at h
    · cases h
      rfl
    · obtain ⟨homedir, -, h⟩ := bind_eq_ok_iff.mp h
      obtain ⟨length, -, h⟩ := bind_eq_ok_iff.mp h
      obtain ⟨homedir, -, h⟩ := bind_eq_ok_iff.mp h
      cases h
      rfl

theorem readHostname_port {line : CStr} {settings settings' : Settings}
    (h : readHostname line settings = .ok settings') : settings'.port = settings.port := by
  simp only [readHostname] at h
  split_ifs at h
  · cases h
    rfl
  · obtain ⟨hostname, -, h⟩ := bind_eq_ok_iff.mp h
    cases h
    rfl

theorem readConfLine_port {opendir : CStr → Bool} {line : CStr} {settings settings' : Settings}
    (h : readConfLine opendir line settings = .ok settings') : settings'.port = settings.port := by
  rw [readConfLine] at h
  obtain ⟨mid, hmid, h⟩ := bind_eq_ok_iff.mp h
  rw [readHostname_port h, readHomedir_port hmid, readMode_port]

/-- What each line preserves, the reading of the file does. -/
theorem readAndCheckConf_preserves {P : Settings → Prop} {opendir : CStr → Bool}
    {calledFromHandler : Bool} (hstep : ∀ str result result', P result.1 →
      confStep opendir calledFromHandler result str = .ok result' → P result'.1)
    {fopen : Option ConfStream} {line : CharArray 512} {settings : Settings} {result : Settings × Bool}
    (hsettings : P settings)
    (h : readAndCheckConf opendir fopen line settings calledFromHandler = .ok result) : P result.1 := by
  have hfold : ∀ (strs : List CStr) (before after : Settings × Bool), P before.1 →
      strs.foldlM (confStep opendir calledFromHandler) before = .ok after → P after.1 := by
    intro strs
    induction strs with
    | nil =>
      intro before after hbefore hok
      cases hok
      exact hbefore
    | cons str strs ih =>
      intro before after hbefore hok
      rw [List.foldlM_cons] at hok
      obtain ⟨mid, hmid, hrest⟩ := bind_eq_ok_iff.mp hok
      exact ih mid after (hstep str before mid hbefore hmid) hrest
  cases fopen with
  | none => cases h
  | some fp =>
    rw [readAndCheckConf, readLines_eq _ _ (Nat.lt_succ_self _)] at h
    obtain ⟨last, hok, h⟩ := bind_eq_ok_iff.mp h
    split_ifs at h
    cases h
    exact hfold fp.strings _ _ hsettings hok

/-- No SIGHUP with a file that names another port comes while `main` opens the socket, and none changes
the port while a client waits for `accept` with its copy of the settings. -/
def Undisturbed (s : ServerRun) : RunAction → Prop
  | .loop (.sighup calls line) => KeepsPort s.acceptor (.sighup calls line) ∧
    ∀ server, s.acceptor.server = some server → match s.opening with
      | .addressed _ | .opened _ => ¬ MovesPort server.settings.port calls.ports
      | _ => True
  | _ => True

/-- What `main` knows of the socket it is opening. -/
def Opening.Agrees (server : ServerProcess) : Opening → Prop
  | .before => True
  | .addressed port => port = server.settings.port
  | .opened socket => server.listening socket = some server.settings.port.toNat
  | .done => server.Serves

/-- The opening of a socket with nothing in between. -/
def openingOf (calls : Outcomes) : List RunAction := [.htons, .openSocket calls, .assign]

/-- `sacagawea -d -P arg` in `/srv`, with an empty configuration. -/
def startedWith (arg : CStr) : MainCalls where
  signal := true
  calloc := true
  getcwd := some (CStr.lit "/srv")
  gethostname := some (CStr.lit "localhost")
  fopen := some ⟨[], false⟩
  opendir _ := true
  line := .zero 512
  options := [.d, .P arg]
  becomeDaemon := .ok ()
  prepare := .ok ()

/-- A reload to port 80 while `main` opens the socket for port 7070 leaves the server on the old port. -/
theorem port80_not_bound :
    (serverRun onPort7070.settings).Runs (fun _ _ => True) (serverRun onPort7070.settings).init
        [.htons, .loop (.sighup (toPort80 true) (.zero 512)), .openSocket (toPort80 true), .assign] ∧
      ∃ server, ((serverRun onPort7070.settings).after (serverRun onPort7070.settings).init
          [.htons, .loop (.sighup (toPort80 true) (.zero 512)), .openSocket (toPort80 true),
            .assign]).acceptor.server = some server ∧
        server.settings.port = 80 ∧ server.Listens 7070 :=
  ⟨⟨trivial, ⟨rfl, trivial⟩, trivial, ⟨rfl, trivial⟩, trivial, ⟨rfl, trivial⟩, trivial, ⟨rfl, trivial⟩,
    trivial⟩, _, rfl, rfl, rfl⟩

end Sacagawea
