import Sacagawea.Lib.Transition

/-!
# Who handles SIGHUP

`main` installs `sighup_handler`, which reads the configuration again. A disposition belongs to a
process: its threads share it, and a child gets a copy when it is forked. `start_thread_management`,
which runs each connection in thread mode, and `thread_sender`, which sends each file, ignore SIGHUP
for the process they run in. For a sender in process mode that is the child of the connection. In
thread mode it is the server.
-/

namespace Sacagawea

/-- The two values of `settings.mode`: `t` and `p`. -/
inductive Mode where
  | thread
  | process
  deriving DecidableEq, Repr

inductive Disposition where
  | sighupHandler
  | ignored
  deriving DecidableEq, Repr

/-- Where a connection stands, and in which process: `none` is the server, `some c` the child forked
for `c`. -/
inductive ConnPc (κ : Type) where
  | pending
  | starting
  | managing (home : Option κ)
  | sending (home : Option κ)
  | transferring (home : Option κ)
  | closed
  deriving DecidableEq

/-- The server after `main` has called `sigaction`, with the number of times `universal_handler` has
run. -/
structure ServerState (κ : Type) where
  conn : κ → ConnPc κ
  disposition : Option κ → Disposition
  reloads : Nat

/-- The steps: a connection is accepted, or accepted without a thread or a child for it; its thread
starts; it sends a file, in a new thread; it ends. `sighup` is a SIGHUP to the server. -/
inductive ServerAction (κ : Type) where
  | accept (c : κ)
  | refuse (c : κ)
  | startThreadManagement (c : κ)
  | loadFileMemoryAndSend (c : κ)
  | threadSender (c : κ)
  | finish (c : κ)
  | sighup

variable {κ : Type}

/-! ### The steps -/

def ServerState.start : ServerState κ where
  conn _ := .pending
  disposition _ := .sighupHandler
  reloads := 0

def ConnPc.home : ConnPc κ → Option (Option κ)
  | .managing home | .sending home | .transferring home => some home
  | _ => none

def serverEnabled (s : ServerState κ) : ServerAction κ → Prop
  | .accept c | .refuse c => s.conn c = .pending
  | .startThreadManagement c => s.conn c = .starting
  | .loadFileMemoryAndSend c => ∃ home, s.conn c = .managing home
  | .threadSender c => ∃ home, s.conn c = .sending home
  | .finish c => (∃ home, s.conn c = .managing home) ∨ ∃ home, s.conn c = .transferring home
  | .sighup => True

variable [DecidableEq κ]

def ServerState.move (s : ServerState κ) (c : κ) (pc : ConnPc κ) : ServerState κ :=
  { s with conn := Function.update s.conn c pc }

/-- `signal(SIGHUP, SIG_IGN)` in a process. -/
def ServerState.ignore (s : ServerState κ) (home : Option κ) : ServerState κ :=
  { s with disposition := Function.update s.disposition home .ignored }

theorem disposition_ignore_self (s : ServerState κ) (home : Option κ) :
    (s.ignore home).disposition home = .ignored :=
  Function.update_self ..

/-- A child does not change what the server does on SIGHUP. -/
theorem disposition_ignore_child (s : ServerState κ) (child : κ) :
    (s.ignore (some child)).disposition none = s.disposition none :=
  Function.update_of_ne (Option.some_ne_none child).symm .ignored s.disposition

def serverNext (mode : Mode) (s : ServerState κ) : ServerAction κ → ServerState κ
  | .accept c => match mode with
    | .thread => s.move c .starting
    | .process => { s.move c (.managing (some c)) with
        disposition := Function.update s.disposition (some c) (s.disposition none) }
  | .refuse c => s.move c .closed
  | .startThreadManagement c => (s.move c (.managing none)).ignore none
  | .loadFileMemoryAndSend c => match s.conn c with
    | .managing home => s.move c (.sending home)
    | _ => s
  | .threadSender c => match s.conn c with
    | .sending home => (s.move c (.transferring home)).ignore home
    | _ => s
  | .finish c => s.move c .closed
  | .sighup => match s.disposition none with
    | .sighupHandler => { s with reloads := s.reloads + 1 }
    | .ignored => s

def server (mode : Mode) : Transition (ServerState κ) (ServerAction κ) where
  init := .start
  enabled := serverEnabled
  next := serverNext mode

/-! ### The disposition of the server -/

def ServerAction.StartsThread : ServerAction κ → Prop
  | .startThreadManagement _ => True
  | _ => False

/-- A connection that runs in the server has made it ignore SIGHUP, and in process mode none does.
-/
structure Ignoring (mode : Mode) (s : ServerState κ) : Prop where
  ignored : ∀ c, (s.conn c).home = some none → s.disposition none = .ignored
  threads : ∀ c, s.conn c = .starting → mode = .thread

theorem Ignoring.move {mode : Mode} {s : ServerState κ} (h : Ignoring mode s) (s' : ServerState κ)
    {c : κ} {pc : ConnPc κ} (hconn : s'.conn = Function.update s.conn c pc)
    (hkeeps : s.disposition none = .ignored → s'.disposition none = .ignored)
    (hhome : pc.home = some none → s'.disposition none = .ignored)
    (hstarting : pc = .starting → mode = .thread) : Ignoring mode s' := by
  refine ⟨fun d hd => ?_, fun d hd => ?_⟩
  · rw [hconn] at hd
    by_cases hdc : d = c
    · rw [hdc, Function.update_self] at hd
      exact hhome hd
    · rw [Function.update_of_ne hdc] at hd
      exact hkeeps (h.ignored d hd)
  · rw [hconn] at hd
    by_cases hdc : d = c
    · rw [hdc, Function.update_self] at hd
      exact hstarting hd
    · rw [Function.update_of_ne hdc] at hd
      exact h.threads d hd

/-- A connection moves, no thread starts, and the disposition of the server stays. -/
theorem Ignoring.stay {mode : Mode} {s : ServerState κ} (h : Ignoring mode s) (s' : ServerState κ)
    {c : κ} {pc : ConnPc κ} {a : ServerAction κ} (ha : ¬ a.StartsThread)
    (hconn : s'.conn = Function.update s.conn c pc)
    (hsame : s'.disposition none = s.disposition none)
    (hhome : pc.home = some none → s.disposition none = .ignored)
    (hstarting : pc = .starting → mode = .thread) :
    Ignoring mode s' ∧ (s'.disposition none = .sighupHandler ↔
      s.disposition none = .sighupHandler ∧ ¬ a.StartsThread) := by
  rw [hsame, and_iff_left ha]
  refine ⟨h.move s' hconn ?_ ?_ hstarting, Iff.rfl⟩
  · rw [hsame]
    exact id
  · rw [hsame]
    exact hhome

/-- A step takes the handler away from the server exactly when it starts a connection's thread. -/
theorem Ignoring.next {mode : Mode} {s : ServerState κ} (h : Ignoring mode s) {a : ServerAction κ}
    (ha : (server mode).enabled s a) :
    Ignoring mode (serverNext mode s a) ∧
      ((serverNext mode s a).disposition none = .sighupHandler ↔
        s.disposition none = .sighupHandler ∧ ¬ a.StartsThread) := by
  cases a with
  | accept c =>
    cases mode with
    | thread => exact h.stay (serverNext .thread s (.accept c)) id rfl rfl nofun fun _ => rfl
    | process =>
      have hsame : (serverNext .process s (.accept c)).disposition none = s.disposition none :=
        Function.update_of_ne (Option.some_ne_none c).symm (s.disposition none) s.disposition
      exact h.stay (serverNext .process s (.accept c)) id rfl hsame nofun nofun
  | refuse c => exact h.stay (serverNext mode s (.refuse c)) id rfl rfl nofun nofun
  | startThreadManagement c =>
    have hignored : (serverNext mode s (.startThreadManagement c)).disposition none = .ignored :=
      disposition_ignore_self ..
    refine ⟨h.move (serverNext mode s (.startThreadManagement c)) rfl (fun _ => hignored)
      (fun _ => hignored) nofun, ?_⟩
    rw [hignored]
    exact iff_of_false nofun fun hand => hand.2 trivial
  | loadFileMemoryAndSend c =>
    obtain ⟨home, hhome⟩ := ha
    have hnext : serverNext mode s (.loadFileMemoryAndSend c) = s.move c (.sending home) := by
      simp only [serverNext, hhome]
    rw [hnext]
    refine h.stay (s.move c (.sending home)) id rfl rfl (fun hnone => ?_) nofun
    exact h.ignored c (by rw [hhome]; exact hnone)
  | threadSender c =>
    obtain ⟨home, hhome⟩ := ha
    have hnext : serverNext mode s (.threadSender c) =
        (s.move c (.transferring home)).ignore home := by
      simp only [serverNext, hhome]
    have hbefore : home = none → s.disposition none = .ignored := fun hnone =>
      h.ignored c (by rw [hhome, hnone]; rfl)
    rw [hnext]
    refine h.stay ((s.move c (.transferring home)).ignore home) id rfl ?_
      (fun hnone => hbefore (Option.some.inj hnone)) nofun
    cases home with
    | none =>
      -- the connection's own thread has made the server ignore SIGHUP before
      rw [disposition_ignore_self, hbefore rfl]
    | some child => exact disposition_ignore_child ..
  | finish c => exact h.stay (serverNext mode s (.finish c)) id rfl rfl nofun nofun
  | sighup =>
    have hsame : (serverNext mode s .sighup).conn = s.conn ∧
        (serverNext mode s .sighup).disposition = s.disposition := by
      rw [serverNext]
      split <;> exact ⟨rfl, rfl⟩
    rw [hsame.2]
    refine ⟨⟨?_, ?_⟩, (and_iff_left id).symm⟩
    · rw [hsame.1, hsame.2]
      exact h.ignored
    · rw [hsame.1]
      exact h.threads

/-- Over a run, the server keeps the handler exactly when no thread of a connection starts. -/
theorem Ignoring.after {mode : Mode} {ok : ServerState κ → ServerAction κ → Prop} {s : ServerState κ}
    (h : Ignoring mode s) {actions : List (ServerAction κ)} (hruns : (server mode).Runs ok s actions) :
    ((server mode).after s actions).disposition none = .sighupHandler ↔
      s.disposition none = .sighupHandler ∧ ∀ a ∈ actions, ¬ a.StartsThread := by
  induction actions generalizing s with
  | nil => exact (and_iff_left nofun).symm
  | cons a actions ih =>
    obtain ⟨hnext, hkeeps⟩ := h.next hruns.2.1
    rw [List.forall_mem_cons, ← and_assoc, ← hkeeps]
    exact ih hnext hruns.2.2

omit [DecidableEq κ] in
theorem ignoring_start (mode : Mode) : Ignoring mode (.start : ServerState κ) :=
  ⟨nofun, nofun⟩

theorem not_startsThread_of_process {ok : ServerState κ → ServerAction κ → Prop} {s : ServerState κ}
    (h : Ignoring .process s) {actions : List (ServerAction κ)}
    (hruns : (server .process).Runs ok s actions) : ∀ a ∈ actions, ¬ a.StartsThread := by
  induction actions generalizing s with
  | nil => exact nofun
  | cons a actions ih =>
    rw [List.forall_mem_cons]
    refine ⟨fun hstarts => ?_, ih (h.next hruns.2.1).1 hruns.2.2⟩
    cases a with
    | startThreadManagement c => exact nomatch h.threads c hruns.2.1
    | _ => exact hstarts

/-- In process mode the server keeps the handler, whatever its children do. -/
theorem process_mode_keeps {ok : ServerState κ → ServerAction κ → Prop} {actions : List (ServerAction κ)}
    (hruns : (server .process).Runs ok .start actions) :
    ((server .process).after .start actions).disposition none = .sighupHandler :=
  ((ignoring_start .process).after hruns).mpr
    ⟨rfl, not_startsThread_of_process (ignoring_start .process) hruns⟩

theorem reloads_sighup {mode : Mode} {s : ServerState κ} :
    (serverNext mode s .sighup).reloads = s.reloads + 1 ↔ s.disposition none = .sighupHandler := by
  rw [serverNext]
  split
  next hhandler => exact iff_of_true rfl hhandler
  next hignored =>
    rw [hignored]
    exact iff_of_false (Nat.succ_ne_self s.reloads).symm nofun

/-- After every run, the server still handles SIGHUP, and reads the configuration again on one,
exactly when no thread of a connection has started. -/
theorem sighup_reloads_iff {mode : Mode} {actions : List (ServerAction κ)}
    (hruns : (server mode).Runs (fun _ _ => True) .start actions) :
    (((server mode).after .start actions).disposition none = .sighupHandler ∧
        (serverNext mode ((server mode).after .start actions) .sighup).reloads =
          ((server mode).after .start actions).reloads + 1) ↔
      ∀ a ∈ actions, ¬ a.StartsThread := by
  rw [reloads_sighup, and_self, (ignoring_start mode).after hruns]
  exact and_iff_right rfl

/-- A child sends a file in process mode, and the server still reads the configuration again. -/
theorem sighup_reloads_of_process :
    ((server .process).after .start
      [.accept (), .loadFileMemoryAndSend (), .threadSender ()]).disposition none = .sighupHandler ∧
    (serverNext .process ((server .process).after .start
      [.accept (), .loadFileMemoryAndSend (), .threadSender ()]) .sighup).reloads =
      ((server .process).after .start
        [.accept (), .loadFileMemoryAndSend (), .threadSender ()]).reloads + 1 :=
  have hruns : (server .process).Runs (fun _ _ => True) .start
      [.accept (), .loadFileMemoryAndSend (), .threadSender ()] :=
    ⟨trivial, rfl, trivial, ⟨some (), rfl⟩, trivial, ⟨some (), rfl⟩, trivial⟩
  (sighup_reloads_iff hruns).mpr (by simp [ServerAction.StartsThread])

/-- In thread mode the first connection makes the server ignore SIGHUP. -/
theorem sighup_ignored_of_thread :
    (server .thread).Runs (fun _ _ => True) .start [.accept (), .startThreadManagement ()] ∧
    ((server .thread).after .start [.accept (), .startThreadManagement ()]).disposition none =
      .ignored ∧
    (serverNext .thread
      ((server .thread).after .start [.accept (), .startThreadManagement ()]) .sighup).reloads = 0 :=
  ⟨⟨trivial, rfl, trivial, rfl, trivial⟩, rfl, rfl⟩

end Sacagawea
