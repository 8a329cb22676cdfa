import Sacagawea.Config.Conf

/-!
# Reading the configuration again

On SIGHUP `universal_handler` reads the port from sacagawea.conf. When it has changed, the listening
socket is closed and `open_socket` makes a new one. A configuration that cannot be read, a port 0
and a call of `open_socket` that fails end the server by `exit`, as they do when it starts.
-/

namespace Sacagawea

/-- What the calls during a reload give: the file, the directories that can be opened, and which
calls succeed. For `socket` it is the new descriptor. The call that sets `SO_REUSEADDR` may fail. -/
structure Outcomes where
  fopen : Option ConfStream
  opendir : CStr → Bool
  close : Bool
  socket : Option Nat
  ioctl : Bool
  rcvbuf : Bool
  bind : Bool
  listen : Bool

/-- The server process: its settings, and the port each open descriptor listens on. -/
structure ServerProcess where
  settings : Settings
  listening : Int → Option Nat

/-- The socket of the server is open and listens on the port. -/
def ServerProcess.Listens (s : ServerProcess) (port : Nat) : Prop :=
  s.listening s.settings.socket = some port

/-! ### The code -/

/-- `open_socket`, with the port `htons` leaves of the setting. -/
def openSocket (calls : Outcomes) (settings : Settings) : Except Stop (Int × Nat) :=
  match calls.socket with
  | none => .error (.exit 5)
  | some listenSocket =>
    if calls.ioctl = false then .error (.exit 5)
    else if calls.rcvbuf = false then .error (.exit 5)
    else if calls.bind = false then .error (.exit 5)
    else if calls.listen = false then .error (.exit 5)
    else .ok (listenSocket, (settings.port % 65536).toNat)

def universalHandler (calls : Outcomes) (line : CharArray 512) (s : ServerProcess) :
    Except Stop ServerProcess := do
  let (settings, change) ← readAndCheckConf calls.opendir calls.fopen line s.settings true
  if change then
    -- a failure is written to the log only
    let listening :=
      if calls.close then Function.update s.listening settings.socket none else s.listening
    let (socket, port) ← openSocket calls settings
    .ok ⟨{ settings with socket }, Function.update listening socket (some port)⟩
  else .ok { s with settings }

/-! ### What a reload changes -/

namespace Outcomes

def strings (calls : Outcomes) : List CStr := (calls.fopen.map ConfStream.strings).getD []

def ports (calls : Outcomes) : List Nat := namedPorts calls.strings

end Outcomes

/-- What the descriptors listen on when the old socket has been closed. -/
def ServerProcess.closed (s : ServerProcess) (calls : Outcomes) : Int → Option Nat :=
  if calls.close then Function.update s.listening s.settings.socket none else s.listening

theorem listening_of_closed {calls : Outcomes} {s : ServerProcess} {socket : Int} {port : Nat}
    (h : s.closed calls socket = some port) : s.listening socket = some port := by
  rw [ServerProcess.closed] at h
  split_ifs at h
  · by_cases hsocket : socket = s.settings.socket
    · rw [hsocket, Function.update_self] at h
      cases h
    · rwa [Function.update_of_ne hsocket] at h
  · exact h

theorem lastPort_append (port : Int) (ports ports' : List Nat) :
    lastPort port (ports ++ ports') = lastPort (lastPort port ports) ports' := by
  rw [lastPort, List.filter_append, List.foldl_append]
  rfl

/-- A line leaves the settings alone, or sets a port that can be bound. -/
theorem checkIfPortChange_cases {line : CStr} {settings settings' : Settings} {change : Bool}
    (h : checkIfPortChange line settings = .ok (settings', change)) :
    settings' = { settings with port := lastPort settings.port (namedPort line).toList } ∧
      (settings' = settings ∧ change = false ∨
        (1 ≤ settings'.port ∧ settings'.port ≤ 65535) ∧ change = true) := by
  rw [checkIfPortChange_eq] at h
  cases hport : namedPort line with
  | none =>
    rw [hport] at h
    cases h
    exact ⟨rfl, .inl ⟨rfl, rfl⟩⟩
  | some val =>
    rw [hport] at h
    simp only at h
    rw [Option.toList_some, lastPort_cons]
    split_ifs at h with hzero hchange
    · cases h
      rw [if_pos hchange.2]
      refine ⟨rfl, .inr ⟨⟨?_, ?_⟩, rfl⟩⟩ <;> simp only <;> omega
    · cases h
      refine ⟨?_, .inl ⟨rfl, rfl⟩⟩
      split
      next hval =>
        have hsame : (val : Int) = settings.port := not_not.mp fun hne => hchange ⟨hne, hval⟩
        rw [hsame]
        rfl
      next => rfl

theorem confStep_handler_cases {opendir : CStr → Bool} {str : CStr} {result result' : Settings × Bool}
    (h : confStep opendir true result str = .ok result') :
    result'.1 = { result.1 with port := lastPort result.1.port (namedPort (chomp str)).toList } ∧
      (result' = result ∨ (1 ≤ result'.1.port ∧ result'.1.port ≤ 65535) ∧ result'.2 = true) := by
  rw [confStep] at h
  split_ifs at h
  obtain ⟨settings₀, change, ⟨-, rfl⟩ | ⟨hno, -⟩, hcheck, hflag⟩ := readLine_cases h
  · obtain ⟨hport, ⟨hsettings, rfl⟩ | ⟨hrange, rfl⟩⟩ := checkIfPortChange_cases hcheck
    · exact ⟨hport, .inl (Prod.ext hsettings (hflag.trans (Bool.or_false _)))⟩
    · exact ⟨hport, .inr ⟨hrange, hflag.trans (Bool.or_true _)⟩⟩
  · cases hno

/-- So do the lines of a file, one after the other. -/
theorem foldlM_confStep_cases {opendir : CStr → Bool} {strs : List CStr}
    {result result' : Settings × Bool} (h : strs.foldlM (confStep opendir true) result = .ok result') :
    result'.1 = { result.1 with port := lastPort result.1.port (namedPorts strs) } ∧
      (result' = result ∨ (1 ≤ result'.1.port ∧ result'.1.port ≤ 65535) ∧ result'.2 = true) := by
  induction strs generalizing result with
  | nil =>
    cases h
    exact ⟨rfl, .inl rfl⟩
  | cons str strs ih =>
    rw [List.foldlM_cons] at h
    obtain ⟨mid, hstep, hrest⟩ := bind_eq_ok_iff.mp h
    obtain ⟨hmid, hfirst⟩ := confStep_handler_cases hstep
    obtain ⟨hlast, hothers⟩ := ih hrest
    refine ⟨?_, ?_⟩
    · rw [hlast, namedPorts_cons, lastPort_append, hmid]
    · rcases hothers with rfl | hothers
      · exact hfirst
      · exact .inr hothers

/-- A reload that returns leaves the server alone, or opens a socket on the last port the file names.
-/
theorem universalHandler_cases {calls : Outcomes} {line : CharArray 512} {s s' : ServerProcess}
    (h : universalHandler calls line s = .ok s') :
    s' = s ∧ lastPort s.settings.port calls.ports = s.settings.port ∨
      ∃ socket port : Nat, 1 ≤ port ∧ port ≤ 65535 ∧ lastPort s.settings.port calls.ports = port ∧
        calls.socket = some socket ∧
        s' = ⟨{ s.settings with port := port, socket := socket },
          Function.update (s.closed calls) socket (some port)⟩ := by
  rw [universalHandler] at h
  obtain ⟨⟨settings, change⟩, hconf, h⟩ := bind_eq_ok_iff.mp h
  have hcases : settings = { s.settings with port := lastPort s.settings.port calls.ports } ∧
      ((settings, change) = (s.settings, false) ∨
        (1 ≤ settings.port ∧ settings.port ≤ 65535) ∧ change = true) := by
    rw [Outcomes.ports, Outcomes.strings]
    cases hfopen : calls.fopen with
    | none =>
      rw [hfopen] at hconf
      cases hconf
    | some fp =>
      rw [hfopen, readAndCheckConf, readLines_eq _ _ (Nat.lt_succ_self _)] at hconf
      obtain ⟨result, hfold, hconf⟩ := bind_eq_ok_iff.mp hconf
      split_ifs at hconf
      obtain rfl := Except.ok.inj hconf
      exact foldlM_confStep_cases hfold
  obtain ⟨hsettings, hsame | ⟨⟨hpos, hle⟩, rfl⟩⟩ := hcases
  · obtain ⟨rfl, rfl⟩ := Prod.mk.inj hsame
    exact .inl ⟨(Except.ok.inj h).symm, (congrArg Settings.port hsettings).symm⟩
  · obtain ⟨port, hport⟩ := Int.eq_ofNat_of_zero_le (Int.le_trans (by decide) hpos)
    rw [hport] at hpos hle
    refine .inr ?_
    simp only [if_true] at h
    obtain ⟨⟨socket, bound⟩, hopen, h⟩ := bind_eq_ok_iff.mp h
    rw [openSocket] at hopen
    cases hsocket : calls.socket with
    | none =>
      rw [hsocket] at hopen
      cases hopen
    | some fd =>
      rw [hsocket] at hopen
      simp only at hopen
      split_ifs at hopen
      have hlast : lastPort s.settings.port calls.ports = port := by
        rw [← hport, hsettings]
      have hbound : ((port : Int) % 65536).toNat = port := by omega
      cases hopen
      refine ⟨fd, port, by omega, by omega, hlast, rfl, ?_⟩
      rw [hport, hbound, hsettings, hlast] at h
      exact (Except.ok.inj h).symm

/-! ### When the service is kept -/

namespace Outcomes

def Reads (calls : Outcomes) : Prop := ∃ fp, calls.fopen = some fp ∧ fp.broken = false

/-- The calls `open_socket` insists on succeed. -/
def Opens (calls : Outcomes) : Prop :=
  calls.socket.isSome ∧ calls.ioctl = true ∧ calls.rcvbuf = true ∧ calls.bind = true ∧ calls.listen = true

/-- The file is read, names no port 0, and a new socket is opened when it names a port other than
the one before. -/
def Reloads (calls : Outcomes) (port : Int) : Prop :=
  calls.Reads ∧ 0 ∉ calls.ports ∧ (MovesPort port calls.ports → calls.Opens)

end Outcomes

theorem openSocket_of_opens {calls : Outcomes} (h : calls.Opens) (settings : Settings) :
    ∃ socket, openSocket calls settings = .ok (socket, (settings.port % 65536).toNat) := by
  obtain ⟨hsocket, hioctl, hrcvbuf, hbind, hlisten⟩ := h
  obtain ⟨socket, hsocket⟩ := Option.isSome_iff_exists.mp hsocket
  exact ⟨socket, by simp [openSocket, hsocket, hioctl, hrcvbuf, hbind, hlisten]⟩

theorem openSocket_of_not_opens {calls : Outcomes} (h : ¬ calls.Opens) (settings : Settings) :
    openSocket calls settings = .error (.exit 5) := by
  rw [openSocket]
  cases hsocket : calls.socket with
  | none => rfl
  | some socket =>
    simp only [Outcomes.Opens, hsocket, Option.isSome_some, true_and, not_and_or, Bool.not_eq_true] at h
    rcases h with h | h | h | h <;> simp [h]

theorem readAndCheckConf_handler {calls : Outcomes} (hnul : ∀ str ∈ calls.strings, str.chars ≠ [])
    (line : CharArray 512) (settings : Settings) :
    (calls.Reads ∧ 0 ∉ calls.ports ∧ readAndCheckConf calls.opendir calls.fopen line settings true =
        .ok ({ settings with port := lastPort settings.port calls.ports },
          decide (MovesPort settings.port calls.ports))) ∨
      ((¬ calls.Reads ∨ 0 ∈ calls.ports) ∧
        (readAndCheckConf calls.opendir calls.fopen line settings true = .error (.exit 1) ∨
          readAndCheckConf calls.opendir calls.fopen line settings true = .error (.exit 5))) := by
  cases hfopen : calls.fopen with
  | none => exact .inr ⟨.inl fun ⟨_, hfp, _⟩ => (by rw [hfopen] at hfp; cases hfp), .inr rfl⟩
  | some fp =>
    have hstrings : calls.strings = fp.strings := by rw [Outcomes.strings, hfopen]; rfl
    rw [hstrings] at hnul
    rw [Outcomes.ports, hstrings, readAndCheckConf, readLines_eq _ _ (Nat.lt_succ_self _),
      foldlM_confStep_handler _ hnul]
    by_cases hzero : 0 ∈ namedPorts fp.strings
    · rw [if_pos hzero, error_bind]
      exact .inr ⟨.inr hzero, .inl rfl⟩
    · rw [if_neg hzero, ok_bind, Bool.false_or]
      cases hbroken : fp.broken with
      | true =>
        refine .inr ⟨.inl fun ⟨fp', hfp', hwhole⟩ => ?_, .inr rfl⟩
        rw [hfopen, Option.some.injEq] at hfp'
        rw [hfp', hwhole] at hbroken
        cases hbroken
      | false => exact .inl ⟨⟨fp, hfopen, hbroken⟩, hzero, rfl⟩

theorem lastPort_of_not_movesPort {port : Int} {ports : List Nat} (h : ¬ MovesPort port ports) :
    lastPort port ports = port := by
  induction ports with
  | nil => rfl
  | cons val ports ih =>
    rw [movesPort_cons, not_or] at h
    rw [lastPort_cons]
    by_cases hval : val < 65536
    · have hsame : (val : Int) = port := not_not.mp fun hne => h.1 ⟨hval, hne⟩
      rw [if_pos hval, hsame]
      exact ih h.2
    · rw [if_neg hval]
      exact ih h.2

/-- The last port named, when a port other than the one before is. -/
theorem lastPort_of_movesPort {port : Int} {ports : List Nat} (hzero : 0 ∉ ports)
    (hmoves : MovesPort port ports) :
    ∃ val ∈ ports, lastPort port ports = val ∧ 0 < val ∧ val < 65536 := by
  obtain ⟨val, hval, hlt, -⟩ := hmoves
  have hne : ports.filter (· < 65536) ≠ [] :=
    List.ne_nil_of_mem (List.mem_filter.mpr ⟨hval, by simpa using hlt⟩)
  obtain ⟨front, last, hconcat⟩ := (List.eq_nil_or_concat _).resolve_left hne
  have hmem : last ∈ ports.filter (· < 65536) := by simp [hconcat]
  obtain ⟨hlast, hbound⟩ := List.mem_filter.mp hmem
  refine ⟨last, hlast, ?_, Nat.pos_of_ne_zero fun h => hzero (h ▸ hlast), by simpa using hbound⟩
  rw [lastPort, hconcat, List.concat_eq_append, List.foldl_append]
  rfl

theorem universalHandler_of_reloads {calls : Outcomes} (hnul : ∀ str ∈ calls.strings, str.chars ≠ [])
    (line : CharArray 512) {s : ServerProcess} (h : calls.Reloads s.settings.port) :
    (MovesPort s.settings.port calls.ports → ∃ s', universalHandler calls line s = .ok s' ∧
      s'.Listens (lastPort s.settings.port calls.ports).toNat) ∧
    (¬ MovesPort s.settings.port calls.ports → ∃ s', universalHandler calls line s = .ok s' ∧
      s'.listening = s.listening ∧ s'.settings.socket = s.settings.socket) := by
  obtain ⟨hreads, hzero, hopens⟩ := h
  obtain ⟨-, -, hconf⟩ | ⟨hno, -⟩ := readAndCheckConf_handler hnul line s.settings
  · refine ⟨fun hmoves => ?_, fun hstays => ?_⟩
    · obtain ⟨val, -, hval, -, hlt⟩ := lastPort_of_movesPort hzero hmoves
      obtain ⟨socket, hsocket⟩ := openSocket_of_opens (hopens hmoves)
        { s.settings with port := lastPort s.settings.port calls.ports }
      have hport : (lastPort s.settings.port calls.ports % 65536).toNat =
          (lastPort s.settings.port calls.ports).toNat := by rw [hval]; omega
      rw [universalHandler, hconf, ok_bind]
      simp only [hmoves, decide_true, if_true, hsocket, ok_bind]
      refine ⟨_, rfl, ?_⟩
      rw [ServerProcess.Listens, hport]
      exact Function.update_self ..
    · rw [universalHandler, hconf, ok_bind]
      simp only [hstays, decide_false]
      exact ⟨_, rfl, rfl, rfl⟩
  · exact (hno.elim (fun hn => hn hreads) hzero).elim

theorem universalHandler_of_not_reloads {calls : Outcomes}
    (hnul : ∀ str ∈ calls.strings, str.chars ≠ []) (line : CharArray 512) {s : ServerProcess}
    (h : ¬ calls.Reloads s.settings.port) :
    universalHandler calls line s = .error (.exit 1) ∨
      universalHandler calls line s = .error (.exit 5) := by
  obtain ⟨hreads, hzero, hconf⟩ | ⟨-, hconf⟩ := readAndCheckConf_handler hnul line s.settings
  · have hmoves : MovesPort s.settings.port calls.ports ∧ ¬ calls.Opens := by
      by_contra hcontra
      exact h ⟨hreads, hzero, fun hmoves => by_contra fun hopens => hcontra ⟨hmoves, hopens⟩⟩
    rw [universalHandler, hconf, ok_bind]
    simp only [hmoves.1, decide_true, if_true, openSocket_of_not_opens hmoves.2, error_bind]
    exact .inr trivial
  · rw [universalHandler]
    exact hconf.imp (fun hexit => by rw [hexit, error_bind]) fun hexit => by rw [hexit, error_bind]

/-- The server still runs and listens, on the last port the file names or on the one before when it
names no other, exactly when the file can be read, names no port 0, and a new socket could be opened
if one was needed. It stops with an exit otherwise. -/
theorem universalHandler_listens_iff {calls : Outcomes} {s : ServerProcess} {port : Nat}
    (hlistens : s.Listens port) (hnul : ∀ str ∈ calls.strings, str.chars ≠ []) (line : CharArray 512) :
    ((∃ s', universalHandler calls line s = .ok s' ∧
        s'.Listens (if MovesPort s.settings.port calls.ports
          then (lastPort s.settings.port calls.ports).toNat else port)) ↔
      calls.Reloads s.settings.port) ∧
    (¬ calls.Reloads s.settings.port →
      universalHandler calls line s = .error (.exit 1) ∨
        universalHandler calls line s = .error (.exit 5)) := by
  refine ⟨⟨fun ⟨s', hok, _⟩ => by_contra fun hno => ?_, fun h => ?_⟩,
    universalHandler_of_not_reloads hnul line⟩
  · rcases universalHandler_of_not_reloads hnul line hno with hexit | hexit <;>
      rw [hexit] at hok <;> cases hok
  · obtain ⟨hmoved, hstayed⟩ := universalHandler_of_reloads hnul line h
    split
    next hmoves => exact hmoved hmoves
    next hstays =>
      obtain ⟨s', hok, hlistening, hsocket⟩ := hstayed hstays
      exact ⟨s', hok, by rw [ServerProcess.Listens, hlistening, hsocket]; exact hlistens⟩

/-- A server that listens on port 7070 with descriptor 3. -/
def onPort7070 : ServerProcess where
  settings := ⟨7070, 3, 116, .zero _, .zero _⟩
  listening socket := if socket = 3 then some 7070 else none

/-- A reload of a file that names port 80. -/
def toPort80 (bind : Bool) : Outcomes where
  fopen := some ⟨bytes "port 80\n", false⟩
  opendir _ := true
  close := true
  socket := some 3
  ioctl := true
  rcvbuf := true
  bind := bind
  listen := true

theorem universalHandler_toPort80 :
    ∃ s', universalHandler (toPort80 true) (.zero 512) onPort7070 = .ok s' ∧ s'.Listens 80 := by
  have hports : (toPort80 true).ports = [80] := by decide
  have hreloads : (toPort80 true).Reloads onPort7070.settings.port :=
    ⟨⟨_, rfl, rfl⟩, by rw [hports]; decide, fun _ => ⟨rfl, rfl, rfl, rfl, rfl⟩⟩
  obtain ⟨s', hok, hlistens⟩ := (@universalHandler_listens_iff (toPort80 true) onPort7070 7070 rfl
    (by decide) (.zero 512)).1.mpr hreloads
  rw [hports] at hlistens
  exact ⟨s', hok, hlistens⟩

/-- The new port cannot be bound: the old socket is closed by then, and the server exits. -/
theorem universalHandler_exits_of_bind :
    onPort7070.Listens 7070 ∧ (toPort80 false).ports = [80] ∧
      universalHandler (toPort80 false) (.zero 512) onPort7070 = .error (.exit 5) :=
  ⟨rfl, by decide, rfl⟩

end Sacagawea
