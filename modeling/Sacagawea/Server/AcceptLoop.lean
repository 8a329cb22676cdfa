import Sacagawea.Lib.Transition
import Sacagawea.Server.Reload

/-!
# The settings a client is given

`accept_wrapper` copies the settings for the next client before it calls `accept` on the socket of
the server. `universal_handler` can run between any two of its steps, and replaces port and socket.
-/

namespace Sacagawea

/-- Where the main thread is in the loop of `accept_wrapper`. -/
inductive AcceptPc where
  | top
  | allocated
  | copied (settings : Settings)
  | called (settings : Settings) (socket : Int)
  | accepted

/-- `client_info` of a connection, and the port the connection came in on. -/
structure Client where
  settings : Settings
  port : Nat

/-- The server, until it exits, and the clients it has accepted. -/
structure Acceptor where
  pc : AcceptPc
  server : Option ServerProcess
  clients : List Client

/-- The steps of the loop with the results of the calls, and a SIGHUP. -/
inductive AcceptAction where
  | calloc (succeeds : Bool)
  | memcpy
  | loadSocket
  | accept (connection : Bool)
  | dispatch
  | sighup (calls : Outcomes) (line : CharArray 512)

namespace Acceptor

def stepMemcpy (s : Acceptor) (server : ServerProcess) : Acceptor :=
  { s with pc := .copied server.settings }

def stepLoad (s : Acceptor) (server : ServerProcess) : Acceptor :=
  match s.pc with
  | .copied settings => { s with pc := .called settings server.settings.socket }
  | _ => s

/-- `accept`, which leaves the loop when there is no connection. The main loop calls it again. -/
def stepAccept (s : Acceptor) (server : ServerProcess) (connection : Bool) : Acceptor :=
  match s.pc with
  | .called settings socket =>
    match server.listening socket with
    | some port =>
      if connection then { s with pc := .accepted, clients := s.clients ++ [⟨settings, port⟩] }
      else { s with pc := .top }
    | none => { s with pc := .top }
  | _ => s

/-- The mode decides whether a thread or a process gets the client. -/
def stepDispatch (s : Acceptor) (server : ServerProcess) : Acceptor :=
  if server.settings.mode = 116 ∨ server.settings.mode = 112 then { s with pc := .top }
  else { s with server := none }

end Acceptor

/-- The accept loop of a server that has opened its socket. -/
def acceptLoop (start : ServerProcess) : Transition Acceptor AcceptAction where
  init := ⟨.top, some start, []⟩
  enabled s a := s.server.isSome ∧ match a, s.pc with
    | .calloc _, .top => True
    | .memcpy, .allocated => True
    | .loadSocket, .copied _ => True
    | .accept _, .called .. => True
    | .dispatch, .accepted => True
    | .sighup .., _ => True
    | _, _ => False
  next s a := match s.server with
    | none => s
    | some server => match a with
      | .calloc succeeds => if succeeds then { s with pc := .allocated } else { s with server := none }
      | .memcpy => s.stepMemcpy server
      | .loadSocket => s.stepLoad server
      | .accept connection => s.stepAccept server connection
      | .dispatch => s.stepDispatch server
      | .sighup calls line => { s with server := (universalHandler calls line server).toOption }

/-! ### When the settings are those of the socket -/

/-- The server listens on the port of its settings. -/
def ServerProcess.Serves (s : ServerProcess) : Prop :=
  ∃ port : Nat, 1 ≤ port ∧ port ≤ 65535 ∧ s.settings.port = port ∧ s.Listens port

/-- No SIGHUP changes the port while a client waits for `accept` with its copy of the settings. -/
def KeepsPort (s : Acceptor) : AcceptAction → Prop
  | .sighup calls _ => ∀ server, s.server = some server → match s.pc with
    | .copied _ | .called .. => lastPort server.settings.port calls.ports = server.settings.port
    | _ => True
  | _ => True

/-- The copy that waits has the port of the server, and so does what its socket listens on. -/
def AcceptPc.Agrees (server : ServerProcess) : AcceptPc → Prop
  | .copied settings => settings.port = server.settings.port
  | .called settings socket => settings.port = server.settings.port ∧
      ∀ port : Nat, server.listening socket = some port → (port : Int) = server.settings.port
  | _ => True

structure Acceptor.Fresh (s : Acceptor) : Prop where
  serves : ∀ server, s.server = some server → server.Serves
  waiting : ∀ server, s.server = some server → s.pc.Agrees server
  clients : ∀ client ∈ s.clients, client.settings.port = client.port

/-- A reload keeps the server on the port of its settings. -/
theorem serves_universalHandler {calls : Outcomes} {line : CharArray 512} {s s' : ServerProcess}
    (hs : s.Serves) (h : universalHandler calls line s = .ok s') : s'.Serves := by
  rcases universalHandler_cases h with ⟨rfl, -⟩ | ⟨socket, port, hpos, hle, -, -, rfl⟩
  · exact hs
  · exact ⟨port, hpos, hle, rfl, Function.update_self ..⟩

/-- A reload that keeps the port keeps what the waiting copy says. -/
theorem agrees_universalHandler {calls : Outcomes} {line : CharArray 512} {s s' : ServerProcess}
    {pc : AcceptPc} (hpc : pc.Agrees s) (h : universalHandler calls line s = .ok s')
    (hport : lastPort s.settings.port calls.ports = s.settings.port) : pc.Agrees s' := by
  rcases universalHandler_cases h with ⟨rfl, -⟩ | ⟨socket, port, -, -, hlast, -, rfl⟩
  · exact hpc
  · have hsame : (port : Int) = s.settings.port := hlast.symm.trans hport
    cases pc with
    | top => trivial
    | allocated => trivial
    | accepted => trivial
    | copied settings => exact Eq.trans hpc hsame.symm
    | called settings old =>
      obtain ⟨hcopy, hlistens⟩ := hpc
      refine ⟨hcopy.trans hsame.symm, fun port' hport' => Eq.trans ?_ hsame.symm⟩
      change Function.update (s.closed calls) socket (some port) old = some port' at hport'
      by_cases hold : old = socket
      · rw [hold, Function.update_self, Option.some.injEq] at hport'
        rw [← hport']
        exact hsame
      · rw [Function.update_of_ne hold] at hport'
        exact hlistens port' (listening_of_closed hport')

/-- Each step keeps the settings fresh. -/
theorem Acceptor.Fresh.next {start : ServerProcess} {s : Acceptor} {a : AcceptAction} (h : s.Fresh)
    (hok : KeepsPort s a) (henabled : (acceptLoop start).enabled s a) :
    ((acceptLoop start).next s a).Fresh := by
  obtain ⟨hsome, hpc⟩ := henabled
  obtain ⟨server, hserver⟩ := Option.isSome_iff_exists.mp hsome
  obtain ⟨pc, server', clients⟩ := s
  obtain rfl : server' = some server := hserver
  have hserves := h.serves server rfl
  have hwaiting := h.waiting server rfl
  cases a with
  | calloc succeeds =>
    cases succeeds with
    | true => exact ⟨h.serves, fun _ _ => trivial, h.clients⟩
    | false => exact ⟨nofun, nofun, h.clients⟩
  | memcpy =>
    refine ⟨h.serves, fun server' hserver' => ?_, h.clients⟩
    cases hserver'
    rfl
  | loadSocket =>
    cases pc with
    | copied settings =>
      refine ⟨h.serves, fun server' hserver' => ?_, h.clients⟩
      cases hserver'
      obtain ⟨port, -, -, hport, hlistens⟩ := hserves
      refine ⟨hwaiting, fun port' hport' => ?_⟩
      have hsame : some port = some port' := hlistens.symm.trans hport'
      rw [hport, Option.some.inj hsame]
    | _ => cases hpc
  | accept connection =>
    cases pc with
    | called settings socket =>
      obtain ⟨hcopy, hlistens⟩ := hwaiting
      change (Acceptor.stepAccept ⟨.called settings socket, some server, clients⟩ server
        connection).Fresh
      cases hlisten : server.listening socket with
      | none =>
        simp only [Acceptor.stepAccept, hlisten]
        exact ⟨h.serves, fun _ _ => trivial, h.clients⟩
      | some port =>
        simp only [Acceptor.stepAccept, hlisten]
        cases connection with
        | false => exact ⟨h.serves, fun _ _ => trivial, h.clients⟩
        | true =>
          refine ⟨h.serves, fun _ _ => trivial, ?_⟩
          intro client hclient
          rcases List.mem_append.mp hclient with hclient | hclient
          · exact h.clients client hclient
          · obtain rfl := List.mem_singleton.mp hclient
            exact hcopy.trans (hlistens port hlisten).symm
    | _ => cases hpc
  | dispatch =>
    change (Acceptor.stepDispatch _ server).Fresh
    rw [Acceptor.stepDispatch]
    split
    · exact ⟨h.serves, fun _ _ => trivial, h.clients⟩
    · exact ⟨nofun, nofun, h.clients⟩
  | sighup calls line =>
    refine ⟨fun new hnew => serves_universalHandler hserves (toOption_eq_some_iff.mp hnew), ?_, h.clients⟩
    intro new hnew
    have hkeeps := hok server rfl
    have hreload := toOption_eq_some_iff.mp hnew
    cases pc with
    | copied settings => exact agrees_universalHandler hwaiting hreload hkeeps
    | called settings socket => exact agrees_universalHandler hwaiting hreload hkeeps
    | _ => trivial

/-- When no SIGHUP changes the port between the copy of the settings and `accept`, each client is
given the port of the socket that accepted it. -/
theorem accepted_on_settings_port {start : ServerProcess} (hstart : start.Serves) {s : Acceptor}
    (h : (acceptLoop start).Reach KeepsPort s) :
    ∀ client ∈ s.clients, client.settings.port = client.port := by
  have hinit : (acceptLoop start).init.Fresh := by
    refine ⟨fun server hserver => ?_, fun _ _ => trivial, nofun⟩
    cases hserver
    exact hstart
  have hfresh : s.Fresh :=
    h.invariant hinit fun _ _ _ hs hok henabled => hs.next hok henabled
  exact hfresh.clients

/-- Otherwise the next client is told the old port. -/
theorem accepted_after_reload {start server server' : ServerProcess} {settings : Settings}
    {clients : List Client} {calls : Outcomes} {line : CharArray 512} (hserves : server.Serves)
    (hreload : universalHandler calls line server = .ok server') :
    ∃ port : Nat, (port : Int) = lastPort server.settings.port calls.ports ∧
      ((acceptLoop start).after ⟨.copied settings, some server, clients⟩
        [.sighup calls line, .loadSocket, .accept true]).clients = clients ++ [⟨settings, port⟩] := by
  obtain ⟨port, -, -, hport, hlistens⟩ := serves_universalHandler hserves hreload
  have hlast : server'.settings.port = lastPort server.settings.port calls.ports := by
    rcases universalHandler_cases hreload with ⟨rfl, hlast⟩ | ⟨socket, port, -, -, hlast, -, rfl⟩
    · exact hlast.symm
    · exact hlast.symm
  refine ⟨port, hport.symm.trans hlast, ?_⟩
  have hstep : (acceptLoop start).next ⟨.copied settings, some server, clients⟩ (.sighup calls line) =
      ⟨.copied settings, some server', clients⟩ := by
    simp only [acceptLoop, hreload]
    rfl
  rw [Transition.after, List.foldl_cons, hstep]
  change (Acceptor.stepAccept ⟨.called settings server'.settings.socket, some server', clients⟩
    server' true).clients = _
  rw [ServerProcess.Listens] at hlistens
  simp only [Acceptor.stepAccept, hlistens, if_true]

/-- A SIGHUP that changes the port from 7070 to 80 comes between the copy and `accept`. -/
def lateSwitch : List AcceptAction :=
  [.calloc true, .memcpy, .sighup (toPort80 true) (.zero 512), .loadSocket, .accept true]

theorem accepted_on_other_port :
    (acceptLoop onPort7070).Runs (fun _ _ => True) (acceptLoop onPort7070).init lateSwitch ∧
      ((acceptLoop onPort7070).after (acceptLoop onPort7070).init lateSwitch).clients =
        [⟨onPort7070.settings, 80⟩] ∧ onPort7070.settings.port = 7070 :=
  ⟨⟨trivial, ⟨rfl, trivial⟩, trivial, ⟨rfl, trivial⟩, trivial, ⟨rfl, trivial⟩, trivial, ⟨rfl, trivial⟩,
    trivial, ⟨rfl, trivial⟩, trivial⟩, rfl, rfl⟩

theorem accepted_on_port7070 :
    ((acceptLoop onPort7070).after (acceptLoop onPort7070).init
        [.calloc true, .memcpy, .loadSocket, .accept true]).clients = [⟨onPort7070.settings, 7070⟩] ∧
      onPort7070.settings.port = (7070 : Nat) := by
  have hruns : (acceptLoop onPort7070).Runs KeepsPort (acceptLoop onPort7070).init
      [.calloc true, .memcpy, .loadSocket, .accept true] :=
    ⟨trivial, ⟨rfl, trivial⟩, trivial, ⟨rfl, trivial⟩, trivial, ⟨rfl, trivial⟩, trivial, ⟨rfl, trivial⟩,
      trivial⟩
  have hserves : onPort7070.Serves := ⟨7070, by decide, by decide, rfl, rfl⟩
  have hport := accepted_on_settings_port hserves (Transition.Reach.after .init hruns)
  exact ⟨rfl, hport ⟨onPort7070.settings, 7070⟩ List.mem_cons_self⟩

end Sacagawea
