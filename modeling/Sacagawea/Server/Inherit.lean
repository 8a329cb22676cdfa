import Sacagawea.Server.AcceptLoop

/-!
# Ports held by the handler processes

In mode `p` each connection is handled by a process that is forked from the server. It starts with a
copy of the descriptor table of the server, so with the listening socket as well, and keeps that
until it exits: the call that would close it is commented out. A port is free to be bound when no
socket of any process listens on it.
-/

namespace Sacagawea

variable {κ : Type}

/-- A handler process, and the commands it waits for, with the port each of its descriptors listens
on. -/
inductive Handler where
  | unborn
  | running (listening : Int → Option Nat)
  | finished

def Has (listening : Int → Option Nat) (port : Nat) : Prop := ∃ socket, listening socket = some port

/-- The process has a socket that listens on the port. -/
def Handler.Holds : Handler → Nat → Prop
  | .running listening, port => Has listening port
  | _, _ => False

/-- The server, until it exits, the handlers of the connections, and the ports that processes
outside of the server use. -/
structure Processes (κ : Type) where
  server : Option ServerProcess
  handler : κ → Handler
  outside : Nat → Bool

inductive ProcessAction (κ : Type) where
  | accept (c : κ) (forked : Bool)
  | finish (c : κ)
  | sighup (calls : Outcomes) (line : CharArray 512)
  | outsider (port : Nat) (uses : Bool)

namespace Processes

/-- Some process besides the server listens on the port. -/
def Taken (s : Processes κ) (port : Nat) : Prop :=
  s.outside port = true ∨ ∃ c, (s.handler c).Holds port

/-- What `fork` gives a handler. -/
def forkedHandler (s : Processes κ) : Handler :=
  match s.server with
  | none => .unborn
  | some server => .running server.listening

def reloaded (s : Processes κ) (calls : Outcomes) (line : CharArray 512) : Option ServerProcess :=
  s.server.bind fun server => (universalHandler calls line server).toOption

theorem reloaded_eq_some_iff {s : Processes κ} {calls : Outcomes} {line : CharArray 512}
    {server' : ServerProcess} : s.reloaded calls line = some server' ↔
      ∃ server, s.server = some server ∧ universalHandler calls line server = .ok server' := by
  rw [reloaded, Option.bind_eq_some_iff]
  simp only [toOption_eq_some_iff]

end Processes

/-- What the system does in a reload: `socket` returns a descriptor that is not in use, and `bind`
refuses a port exactly when some socket listens on it. -/
def Outcomes.Agree (calls : Outcomes) (s : Processes κ) (server : ServerProcess) : Prop :=
  let port := (lastPort server.settings.port calls.ports).toNat
  (∀ socket : Nat, calls.socket = some socket → server.closed calls socket = none) ∧
    (calls.bind = false ↔ s.Taken port ∨ Has (server.closed calls) port)

variable [DecidableEq κ]

/-- The server in mode `p`, its handlers, and the others on the machine. -/
def processes (start : ServerProcess) : Transition (Processes κ) (ProcessAction κ) where
  init := ⟨some start, fun _ => .unborn, fun _ => false⟩
  enabled s
    | .accept c _ => (∃ server, s.server = some server ∧ server.settings.mode = 112) ∧
        s.handler c = .unborn
    | .finish c => ∃ listening, s.handler c = .running listening
    | .sighup calls _ => ∃ server, s.server = some server ∧ calls.Agree s server
    | .outsider port uses => uses = true → (∀ c, ¬ (s.handler c).Holds port) ∧
        ∀ server, s.server = some server → ¬ Has server.listening port
  next s
    | .accept c forked =>
      if forked then { s with handler := Function.update s.handler c s.forkedHandler } else s
    | .finish c => { s with handler := Function.update s.handler c .finished }
    | .sighup calls line => { s with server := s.reloaded calls line }
    | .outsider port uses => { s with outside := Function.update s.outside port uses }

variable {start : ServerProcess} {ok : Processes κ → ProcessAction κ → Prop}

/-! ### The life of a handler -/

/-- What a step does to a handler. -/
theorem handler_step {s : Processes κ} {a : ProcessAction κ} (henabled : (processes start).enabled s a)
    (c : κ) :
    (a = .accept c true ∧ s.handler c = .unborn ∧ ∃ server, s.server = some server ∧
        ((processes start).next s a).handler c = .running server.listening) ∨
      (a = .finish c ∧ (∃ listening, s.handler c = .running listening) ∧
        ((processes start).next s a).handler c = .finished) ∨
      (a ≠ .accept c true ∧ a ≠ .finish c ∧
        ((processes start).next s a).handler c = s.handler c) := by
  cases a with
  | accept d forked =>
    obtain ⟨⟨server, hserver, -⟩, hunborn⟩ := henabled
    cases forked with
    | false => exact .inr (.inr ⟨by simp, by simp, rfl⟩)
    | true =>
      by_cases hc : c = d
      · subst hc
        refine .inl ⟨rfl, hunborn, server, hserver, ?_⟩
        change Function.update s.handler c s.forkedHandler c = _
        rw [Function.update_self, Processes.forkedHandler, hserver]
      · exact .inr (.inr ⟨by simp [Ne.symm hc], by simp, Function.update_of_ne hc _ _⟩)
  | finish d =>
    by_cases hc : c = d
    · subst hc
      exact .inr (.inl ⟨rfl, henabled, Function.update_self ..⟩)
    · exact .inr (.inr ⟨by simp, by simp [Ne.symm hc], Function.update_of_ne hc _ _⟩)
  | sighup calls line => exact .inr (.inr ⟨by simp, by simp, rfl⟩)
  | outsider port uses => exact .inr (.inr ⟨by simp, by simp, rfl⟩)

theorem handler_after_finished {s : Processes κ} {c : κ} {actions : List (ProcessAction κ)}
    (hs : s.handler c = .finished) (hruns : (processes start).Runs ok s actions) :
    ((processes start).after s actions).handler c = .finished ∧ .accept c true ∉ actions := by
  induction actions generalizing s with
  | nil => exact ⟨hs, List.not_mem_nil⟩
  | cons a actions ih =>
    obtain ⟨-, henabled, hruns⟩ := hruns
    rcases handler_step henabled c with ⟨-, hunborn, -⟩ | ⟨-, ⟨_, hrunning⟩, -⟩ | ⟨hne, -, hsame⟩
    · rw [hs] at hunborn
      cases hunborn
    · rw [hs] at hrunning
      cases hrunning
    · obtain ⟨hafter, hno⟩ := ih (hsame.trans hs) hruns
      exact ⟨hafter, List.not_mem_cons_of_ne_of_not_mem (Ne.symm hne) hno⟩

/-- A handler keeps what it was given until it finishes. -/
theorem handler_after_running {s : Processes κ} {c : κ} {listening : Int → Option Nat}
    {actions : List (ProcessAction κ)} (hs : s.handler c = .running listening)
    (hruns : (processes start).Runs ok s actions) :
    .accept c true ∉ actions ∧
      (.finish c ∉ actions ∧ ((processes start).after s actions).handler c = .running listening ∨
        .finish c ∈ actions ∧ ((processes start).after s actions).handler c = .finished) := by
  induction actions generalizing s with
  | nil => exact ⟨List.not_mem_nil, .inl ⟨List.not_mem_nil, hs⟩⟩
  | cons a actions ih =>
    obtain ⟨-, henabled, hruns⟩ := hruns
    rcases handler_step henabled c with ⟨-, hunborn, -⟩ | ⟨rfl, -, hfinished⟩ | ⟨haccept, hfinish, hsame⟩
    · rw [hs] at hunborn
      cases hunborn
    · obtain ⟨hafter, hno⟩ := handler_after_finished hfinished hruns
      exact ⟨List.not_mem_cons_of_ne_of_not_mem (by simp) hno, .inr ⟨List.mem_cons_self, hafter⟩⟩
    · obtain ⟨hno, hafter⟩ := ih (hsame.trans hs) hruns
      refine ⟨List.not_mem_cons_of_ne_of_not_mem (Ne.symm haccept) hno, ?_⟩
      rcases hafter with ⟨hmem, hrunning⟩ | ⟨hmem, hfinished⟩
      · exact .inl ⟨List.not_mem_cons_of_ne_of_not_mem (Ne.symm hfinish) hmem, hrunning⟩
      · exact .inr ⟨List.mem_cons_of_mem _ hmem, hfinished⟩

/-- A handler holds a port exactly when it was forked while the server did and has not finished. -/
theorem handler_holds_iff {s : Processes κ} {c : κ} {actions : List (ProcessAction κ)}
    (hs : s.handler c = .unborn) (hruns : (processes start).Runs ok s actions) (port : Nat) :
    (((processes start).after s actions).handler c).Holds port ↔
      ∃ front back server, actions = front ++ .accept c true :: back ∧
        ((processes start).after s front).server = some server ∧ Has server.listening port ∧
        .finish c ∉ back := by
  induction actions generalizing s with
  | nil =>
    refine iff_of_false ?_ (by simp)
    change ¬ (s.handler c).Holds port
    rw [hs]
    exact id
  | cons a actions ih =>
    obtain ⟨-, henabled, hruns⟩ := hruns
    rcases handler_step henabled c with
      ⟨rfl, -, server, hserver, hrunning⟩ | ⟨-, ⟨_, hrunning⟩, -⟩ | ⟨haccept, hfinish, hsame⟩
    · obtain ⟨hno, hafter⟩ := handler_after_running hrunning hruns
      constructor
      · intro hholds
        change (((processes start).after _ actions).handler c).Holds port at hholds
        rcases hafter with ⟨hmem, hstill⟩ | ⟨-, hfinished⟩
        · rw [hstill] at hholds
          exact ⟨[], actions, server, rfl, hserver, hholds, hmem⟩
        · rw [hfinished] at hholds
          exact hholds.elim
      · intro ⟨front, back, server', hsplit, hserver', hhas, hmem⟩
        cases front with
        | nil =>
          obtain rfl : actions = back := (List.cons.inj hsplit).2
          obtain rfl : server = server' := Option.some.inj (hserver.symm.trans hserver')
          rcases hafter with ⟨-, hstill⟩ | ⟨hfinish, -⟩
          · change (((processes start).after _ actions).handler c).Holds port
            rw [hstill]
            exact hhas
          · exact absurd hfinish hmem
        | cons first front =>
          refine absurd ?_ hno
          rw [(List.cons.inj hsplit).2]
          exact List.mem_append_right front List.mem_cons_self
    · rw [hs] at hrunning
      cases hrunning
    · refine (ih (hsame.trans hs) hruns).trans ⟨?_, ?_⟩
      · intro ⟨front, back, server, hsplit, hrest⟩
        exact ⟨a :: front, back, server, by rw [hsplit, List.cons_append], hrest⟩
      · intro ⟨front, back, server, hsplit, hrest⟩
        cases front with
        | nil => exact absurd (List.cons.inj hsplit).1 haccept
        | cons first front =>
          obtain ⟨rfl, htail⟩ := List.cons.inj hsplit
          exact ⟨front, back, server, htail, hrest⟩

/-! ### The next port -/

/-- The only socket of the server that listens is the one in its settings. -/
def ServerProcess.Single (s : ServerProcess) : Prop :=
  ∀ socket port, s.listening socket = some port → socket = s.settings.socket

theorem single_universalHandler {calls : Outcomes} {line : CharArray 512} {s s' : ServerProcess}
    (hs : s.Single) (hclose : calls.close = true) (h : universalHandler calls line s = .ok s') :
    s'.Single := by
  rcases universalHandler_cases h with ⟨rfl, -⟩ | ⟨socket, port, -, -, -, -, rfl⟩
  · exact hs
  · intro fd port' hfd
    by_contra hne
    have hold : s.closed calls fd = some port' := (Function.update_of_ne hne _ _).symm.trans hfd
    rw [ServerProcess.closed, if_pos hclose] at hold
    by_cases hsame : fd = s.settings.socket
    · rw [hsame, Function.update_self] at hold
      cases hold
    · rw [Function.update_of_ne hsame] at hold
      exact hsame (hs fd port' hold)

/-- So a server that serves holds the port of its settings, and no other. -/
theorem has_iff_of_single {s : ServerProcess} (hserves : s.Serves) (hsingle : s.Single) (port : Nat) :
    Has s.listening port ↔ (port : Int) = s.settings.port := by
  obtain ⟨current, -, -, hcurrent, hlistens⟩ := hserves
  constructor
  · intro ⟨socket, hsocket⟩
    rw [hsingle socket port hsocket] at hsocket
    rw [hcurrent, Option.some.inj (hlistens.symm.trans hsocket)]
  · intro hport
    obtain rfl : port = current := Int.ofNat.inj (hport.trans hcurrent)
    exact ⟨s.settings.socket, hlistens⟩

theorem listens_toNat_of_serves {s : ServerProcess} (hserves : s.Serves) :
    s.Listens s.settings.port.toNat := by
  obtain ⟨port, -, -, hport, hlistens⟩ := hserves
  rw [hport, Int.toNat_natCast]
  exact hlistens

/-- What the reloads of a run preserve, the server has at its end. -/
theorem server_after {P : ServerProcess → Prop} {s : Processes κ} {actions : List (ProcessAction κ)}
    (hs : ∀ server, s.server = some server → P server)
    (hreload : ∀ calls line server server', .sighup calls line ∈ actions → P server →
      universalHandler calls line server = .ok server' → P server')
    {server : ServerProcess} (h : ((processes start).after s actions).server = some server) :
    P server := by
  induction actions generalizing s with
  | nil => exact hs server h
  | cons a actions ih =>
    refine ih ?_ (fun calls line server server' hmem =>
      hreload calls line server server' (List.mem_cons_of_mem _ hmem)) h
    intro server' hnext
    cases a with
    | accept c forked => cases forked <;> exact hs server' hnext
    | finish c => exact hs server' hnext
    | outsider port uses => exact hs server' hnext
    | sighup calls line =>
      obtain ⟨old, hserver, hok⟩ := Processes.reloaded_eq_some_iff.mp hnext
      exact hreload calls line old server' List.mem_cons_self (hs old hserver) hok

/-- When each `close` has succeeded, the server listens on the port of its settings with its only
socket. -/
theorem serves_single_after (hserves : start.Serves) (hsingle : start.Single)
    {actions : List (ProcessAction κ)}
    (hclose : ∀ calls line, .sighup calls line ∈ actions → calls.close = true) {server : ServerProcess}
    (h : ((processes start).after (processes start).init actions).server = some server) :
    server.Serves ∧ server.Single := by
  refine server_after (P := fun server => server.Serves ∧ server.Single) ?_ ?_ h
  · intro first hfirst
    cases hfirst
    exact ⟨hserves, hsingle⟩
  · intro calls line old new hmem ⟨hold, hone⟩ hok
    exact ⟨serves_universalHandler hold hok, single_universalHandler hone (hclose calls line hmem) hok⟩

/-- The file names another port, and the calls of the reload succeed but for `close` and `bind`. -/
structure Outcomes.Switches (calls : Outcomes) (port : Int) : Prop where
  strings : ∀ str ∈ calls.strings, str.chars ≠ []
  reads : calls.Reads
  noZero : 0 ∉ calls.ports
  moves : MovesPort port calls.ports
  socket : calls.socket.isSome
  ioctl : calls.ioctl = true
  rcvbuf : calls.rcvbuf = true
  listen : calls.listen = true

/-- The server ends in a switch exactly when the new port is taken. -/
theorem switch_ends_iff {s : Processes κ} {server : ServerProcess} (hserver : s.server = some server)
    {calls : Outcomes} (line : CharArray 512) (hagree : calls.Agree s server)
    (h : calls.Switches server.settings.port) :
    ((processes start).next s (.sighup calls line)).server = none ↔
      s.Taken (lastPort server.settings.port calls.ports).toNat ∨
        Has (server.closed calls) (lastPort server.settings.port calls.ports).toNat := by
  change s.reloaded calls line = none ↔ _
  rw [← hagree.2, Processes.reloaded, hserver, Option.bind_some]
  cases hbind : calls.bind with
  | true =>
    have hreloads : calls.Reloads server.settings.port :=
      ⟨h.reads, h.noZero, fun _ => ⟨h.socket, h.ioctl, h.rcvbuf, hbind, h.listen⟩⟩
    obtain ⟨server', hok, -⟩ := (universalHandler_of_reloads h.strings line hreloads).1 h.moves
    rw [hok]
    exact iff_of_false nofun nofun
  | false =>
    have hno : ¬ calls.Reloads server.settings.port := by
      intro hreloads
      obtain ⟨-, -, -, hopen, -⟩ := hreloads.2.2 h.moves
      rw [hbind] at hopen
      cases hopen
    refine iff_of_true ?_ rfl
    rcases universalHandler_of_not_reloads h.strings line hno with hexit | hexit <;> rw [hexit] <;> rfl

/-- A handler keeps the ports the server had when it was forked, until it finishes. The server listens
on the current port alone when each `close` succeeds, and after a switch it no longer holds the old
one. A switch to a port ends the server exactly when a process outside uses it, or such a handler still
runs, or the server failed to close it before. -/
theorem old_ports (hserves : start.Serves) (hsingle : start.Single) {actions : List (ProcessAction κ)}
    (hruns : (processes start).Runs ok (processes start).init actions) :
    let s := (processes start).after (processes start).init actions
    (∀ c port, (s.handler c).Holds port ↔
      ∃ front back server, actions = front ++ .accept c true :: back ∧
        ((processes start).after (processes start).init front).server = some server ∧
        Has server.listening port ∧ .finish c ∉ back) ∧
    ((∀ calls line, .sighup calls line ∈ actions → calls.close = true) →
      ∀ server, s.server = some server →
        server.Listens server.settings.port.toNat ∧
        (∀ port : Nat, Has server.listening port ↔ (port : Int) = server.settings.port) ∧
        ∀ calls line server', calls.close = true →
          ((processes start).next s (.sighup calls line)).server = some server' →
          server'.Listens server'.settings.port.toNat ∧
          (server'.settings.port ≠ server.settings.port →
            ¬ Has server'.listening server.settings.port.toNat)) ∧
    (∀ server calls line, s.server = some server → calls.Agree s server →
      calls.Switches server.settings.port →
        (((processes start).next s (.sighup calls line)).server = none ↔
          s.outside (lastPort server.settings.port calls.ports).toNat = true ∨
          (∃ c, (s.handler c).Holds (lastPort server.settings.port calls.ports).toNat) ∨
          Has (server.closed calls) (lastPort server.settings.port calls.ports).toNat)) := by
  intro s
  refine ⟨fun c port => handler_holds_iff rfl hruns port, ?_, ?_⟩
  · intro hclose server hserver
    obtain ⟨hserving, hone⟩ := serves_single_after hserves hsingle hclose hserver
    refine ⟨listens_toNat_of_serves hserving, has_iff_of_single hserving hone, ?_⟩
    intro calls line server' hcalls hnext
    obtain ⟨old, hold, hok⟩ := Processes.reloaded_eq_some_iff.mp hnext
    obtain rfl : old = server := Option.some.inj (hold.symm.trans hserver)
    have hserving' : server'.Serves := serves_universalHandler hserving hok
    refine ⟨listens_toNat_of_serves hserving', fun hmoved hhas => hmoved ?_⟩
    -- the only port held after the switch is the new one
    have hport := (has_iff_of_single hserving' (single_universalHandler hone hcalls hok) _).mp hhas
    obtain ⟨port, -, -, hcurrent, -⟩ := hserving
    rw [← hport, hcurrent, Int.toNat_natCast]
  · intro server calls line hserver hagree hswitches
    rw [switch_ends_iff hserver line hagree hswitches, Processes.Taken, or_assoc]

/-- A server in mode `p` that listens on port 7070 with descriptor 3. -/
def forkingServer : ServerProcess :=
  { onPort7070 with settings := { onPort7070.settings with mode := 112 } }

/-- A reload of a file that names port 7070 while the port cannot be bound. -/
def backTo7070 : Outcomes :=
  { toPort80 false with fopen := some ⟨bytes "port 7070\n", false⟩ }

/-- The server after the first of the two reloads. -/
def switchedServer : ServerProcess where
  settings := ⟨80, 3, 112, .zero _, .zero _⟩
  listening := Function.update (forkingServer.closed (toPort80 true)) 3 (some 80)

/-- A client stays connected while the port is changed to 80 and back. -/
def switchAndBack : List (ProcessAction Unit) :=
  [.accept () true, .sighup (toPort80 true) (.zero 512), .sighup backTo7070 (.zero 512)]

theorem has_onPort7070 {port : Nat} (h : Has onPort7070.listening port) : port = 7070 := by
  obtain ⟨socket, hsocket⟩ := h
  change (if socket = 3 then some 7070 else none) = some port at hsocket
  split_ifs at hsocket
  exact (Option.some.inj hsocket).symm

theorem closed_forkingServer (socket : Int) : forkingServer.closed (toPort80 true) socket = none := by
  by_cases hsocket : socket = 3
  · subst hsocket
    rfl
  · change Function.update onPort7070.listening 3 none socket = none
    rw [Function.update_of_ne hsocket]
    exact if_neg hsocket

theorem closed_switchedServer (socket : Int) : switchedServer.closed backTo7070 socket = none := by
  by_cases hsocket : socket = 3
  · subst hsocket
    rfl
  · change Function.update switchedServer.listening 3 none socket = none
    rw [Function.update_of_ne hsocket]
    change Function.update (forkingServer.closed (toPort80 true)) 3 (some 80) socket = none
    rw [Function.update_of_ne hsocket, closed_forkingServer]

theorem switchAndBack_runs :
    (processes forkingServer).Runs (fun _ _ => True) (processes forkingServer).init switchAndBack := by
  refine ⟨trivial, ⟨⟨forkingServer, rfl, rfl⟩, rfl⟩, trivial, ⟨forkingServer, rfl, ?_, ?_⟩,
    trivial, ⟨switchedServer, rfl, fun socket _ => closed_switchedServer socket, ?_⟩, trivial⟩
  · exact fun socket _ => closed_forkingServer socket
  · have hport : (lastPort 7070 (toPort80 true).ports).toNat = 80 := by decide
    refine iff_of_false nofun ?_
    intro h
    rcases h with (hout | ⟨_, hholds⟩) | ⟨socket, hsocket⟩
    · cases hout
    · have hseven : (lastPort 7070 (toPort80 true).ports).toNat = 7070 := has_onPort7070 hholds
      rw [hport] at hseven
      cases hseven
    · rw [closed_forkingServer] at hsocket
      cases hsocket
  · have hport : (lastPort 80 backTo7070.ports).toNat = 7070 := by decide
    refine iff_of_true rfl (.inl (.inr ⟨(), ?_⟩))
    change Has onPort7070.listening (lastPort 80 backTo7070.ports).toNat
    rw [hport]
    exact ⟨3, rfl⟩

/-- The handler of the client holds port 7070 after the change to port 80, and the change back ends
the server, though no other program uses a port. -/
theorem old_port_not_released :
    (processes forkingServer).Runs (fun _ _ => True) (processes forkingServer).init switchAndBack ∧
      ((processes forkingServer).after (processes forkingServer).init (switchAndBack.take 2)).server =
        some switchedServer ∧
      switchedServer.Listens 80 ∧
      (((processes forkingServer).after (processes forkingServer).init
        (switchAndBack.take 2)).handler ()).Holds 7070 ∧
      ((processes forkingServer).after (processes forkingServer).init switchAndBack).server = none ∧
      ∀ port, ((processes forkingServer).after (processes forkingServer).init
        switchAndBack).outside port = false :=
  ⟨switchAndBack_runs, rfl, rfl, ⟨3, rfl⟩, rfl, fun _ => rfl⟩

/-- After the first of the two reloads the handler holds port 7070, and the server does not. -/
theorem old_ports_switchAndBack :
    (((processes forkingServer).after (processes forkingServer).init
        (switchAndBack.take 2)).handler ()).Holds 7070 ∧
      ¬ Has switchedServer.listening 7070 := by
  have hsingle : forkingServer.Single := by
    intro socket port hsocket
    change (if socket = 3 then some 7070 else none) = some port at hsocket
    split_ifs at hsocket with h
    exact h
  have hserves : forkingServer.Serves := ⟨7070, by decide, by decide, rfl, rfl⟩
  have hruns : (processes forkingServer).Runs (fun _ _ => True) (processes forkingServer).init
      (switchAndBack.take 2) :=
    ⟨trivial, switchAndBack_runs.2.1, trivial, switchAndBack_runs.2.2.2.1, trivial⟩
  have hclose : ∀ calls line, .sighup calls line ∈ switchAndBack.take 2 → calls.close = true := by
    intro calls line hmem
    obtain ⟨rfl, -⟩ : calls = toPort80 true ∧ line = .zero 512 := by simpa [switchAndBack] using hmem
    rfl
  obtain ⟨hhandlers, hserver, -⟩ := old_ports hserves hsingle hruns
  obtain ⟨-, hports, -⟩ := hserver hclose switchedServer rfl
  exact ⟨(hhandlers () 7070).mpr ⟨[], _, forkingServer, rfl, rfl, ⟨3, rfl⟩, by simp⟩,
    fun hhas => absurd ((hports 7070).mp hhas) (by decide)⟩

end Sacagawea
