import Sacagawea.Lib.Transition

/-!
# Signals, `close_all` and the log process

`main` forks the log process and installs `close_all` for the signals that would end the server. In
mode `p` a handler process inherits that, with the pid of the log process. So a signal to any of them
runs `close_all` there, which kills the log process and removes the name of the shared memory. The log
process itself was forked before and is ended by such a signal. Once it has called `prctl` it is also
signalled when the server ends.

SIGCHLD is ignored, so the pid of a process is free again as soon as it has ended.
-/

namespace Sacagawea

/-- Whose a pid is. A child handles a connection, and strangers are not of the program. -/
inductive PidOwner where
  | free
  | server
  | logger
  | child
  | stranger
  deriving DecidableEq, Repr

/-- The calls of `close_all`, in their order. -/
inductive ClosePc where
  | closeSocket
  | kill
  | closePipe
  | killAgain
  | shmUnlink
  | exit
  deriving DecidableEq, Repr

/-- A process in `close_all`: the call that comes next, and whether a handler made it. While a handler
runs the signals are blocked. -/
structure Closing where
  pc : ClosePc
  handler : Bool
  deriving DecidableEq, Repr

/-- How far `main` is behind `fork`: about to close its read end of the pipe, installing the handlers,
or through with that. -/
inductive MainStage where
  | forked
  | installing
  | serving
  deriving DecidableEq, Repr

/-- The pids that `main` starts with, and who else is in the process group. -/
structure Pids where
  server : Nat
  logProcess : Nat
  ne : server ≠ logProcess
  positive : 0 < logProcess
  inGroup : Nat → Bool

/-- The processes, with the signals that are pending. `guarded` says that the log process has called
`prctl` in time, and `linked` that the shared memory has its name. -/
structure Family where
  owner : Nat → PidOwner
  pending : Nat → Bool
  closing : Nat → Option Closing
  stage : MainStage
  logsProcesPid : Nat
  guarded : Bool
  linked : Bool

/-- The steps. `closeReadPipe` and `sigaction` are calls of `main`, with whether they succeed, and
`closeAll` is where `main` calls it behind its loop. A process in `close_all` makes its next call with
`step`. A signal comes from outside, and `deliver` says whether it finds the handler. A process can
`finish` on its own at any time. -/
inductive FamilyAction where
  | closeReadPipe (succeeds : Bool)
  | sigaction (succeeds : Bool)
  | closeAll
  | prctl
  | fork (pid : Nat)
  | step (pid : Nat)
  | signal (pid : Nat)
  | deliver (pid : Nat) (handled : Bool)
  | appear (pid : Nat)
  | finish (pid : Nat)
  deriving DecidableEq

namespace Family

variable (pids : Pids)

def start : Family where
  owner := Function.update (Function.update (fun _ => .free) pids.server .server) pids.logProcess .logger
  pending _ := false
  closing _ := none
  stage := .forked
  logsProcesPid := 0
  guarded := false
  linked := true

/-- The processes for which this holds are signalled. -/
def signalled (s : Family) (hit : Nat → Bool) : Family :=
  { s with pending := fun q => s.pending q || (s.owner q ≠ .free && hit q) }

/-- A process ends. The end of the server signals a log process that has asked for it. -/
def ended (s : Family) (pid : Nat) : Family :=
  { s with
    owner := Function.update s.owner pid .free
    closing := Function.update s.closing pid none
    pending := fun q => q ≠ pid &&
      (s.pending q || (s.owner pid = .server && s.guarded && s.owner q = .logger)) }

/-- A process comes to a call of `close_all`. -/
def advance (s : Family) (pid : Nat) (pc : ClosePc) (handler : Bool) : Family :=
  { s with closing := Function.update s.closing pid (some ⟨pc, handler⟩) }

/-- `close_all` is called. -/
def enter (s : Family) (pid : Nat) (handler : Bool) : Family := s.advance pid .closeSocket handler

/-- `kill(0, SIGTERM)` is for the process group. -/
def group (s : Family) (q : Nat) : Bool :=
  match s.owner q with
  | .free => false
  | .stranger => pids.inGroup q
  | .server | .logger | .child => true

/-- A call of `close_all`. A process that signals its own group is ended there, since it has no
handler then. -/
def closeStep (s : Family) (pid : Nat) : Closing → Family
  | ⟨.closeSocket, handler⟩ => s.advance pid .kill handler
  | ⟨.kill, handler⟩ => (s.signalled (· = pids.logProcess)).advance pid .closePipe handler
  | ⟨.closePipe, handler⟩ => s.advance pid .killAgain handler
  | ⟨.killAgain, handler⟩ =>
    if s.logsProcesPid = 0 then (s.signalled (s.group pids)).ended pid
    else (s.signalled (· = s.logsProcesPid)).advance pid .shmUnlink handler
  | ⟨.shmUnlink, handler⟩ => { s with linked := false }.advance pid .exit handler
  | ⟨.exit, _⟩ => s.ended pid

/-- `main` goes on in the server. -/
def InMain (s : Family) : Prop := s.owner pids.server = .server ∧ s.closing pids.server = none

def Blocked (s : Family) (pid : Nat) : Prop := (s.closing pid).any Closing.handler = true

/-- What a signal can find. A child has the handlers of the server, which were installed one by one.
-/
def Finds (s : Family) (pid : Nat) (handled : Bool) : Prop :=
  match s.owner pid with
  | .free => False
  | .logger | .stranger => handled = false
  | .child => handled = true ∧ ¬ s.Blocked pid
  | .server => ¬ s.Blocked pid ∧ (handled = true → s.stage ≠ .forked) ∧
    (handled = false → s.stage ≠ .serving)

instance (s : Family) : Decidable (s.InMain pids) := inferInstanceAs (Decidable (_ ∧ _))

instance (s : Family) (pid : Nat) : Decidable (s.Blocked pid) := inferInstanceAs (Decidable (_ = true))

instance (s : Family) (pid : Nat) (handled : Bool) : Decidable (s.Finds pid handled) := by
  unfold Finds
  cases s.owner pid <;> infer_instance

end Family

open Family in
/-- The server behind the fork of the log process, its children, and the others on the machine. -/
def family (pids : Pids) : Transition Family FamilyAction where
  init := .start pids
  enabled s
    | .closeReadPipe _ => s.InMain pids ∧ s.stage = .forked
    | .sigaction _ => s.InMain pids ∧ s.stage = .installing
    | .closeAll => s.InMain pids ∧ s.stage = .serving
    | .prctl => s.owner pids.logProcess = .logger
    | .fork pid => s.InMain pids ∧ s.stage = .serving ∧ s.owner pid = .free ∧ 0 < pid
    | .step pid => s.closing pid ≠ none
    | .signal pid => s.owner pid ≠ .free
    | .deliver pid handled => s.pending pid = true ∧ s.Finds pid handled
    | .appear pid => s.owner pid = .free ∧ 0 < pid
    | .finish pid => s.owner pid ≠ .free
  next s
    | .closeReadPipe succeeds =>
      if succeeds then { s with stage := .installing, logsProcesPid := pids.logProcess }
      else s.enter pids.server false
    | .sigaction succeeds =>
      if succeeds then { s with stage := .serving } else s.enter pids.server false
    | .closeAll => s.enter pids.server false
    | .prctl => { s with guarded := s.guarded || s.owner pids.server = .server }
    | .fork pid => { s with owner := Function.update s.owner pid .child }
    | .step pid => (s.closing pid).elim s (s.closeStep pids pid)
    | .signal pid => s.signalled (· = pid)
    | .deliver pid handled =>
      if handled then { s with pending := Function.update s.pending pid false }.enter pid true
      else s.ended pid
    | .appear pid => { s with owner := Function.update s.owner pid .stranger }
    | .finish pid => s.ended pid

instance (pids : Pids) (s : Family) : (a : FamilyAction) → Decidable ((family pids).enabled s a)
  | .closeReadPipe _ | .sigaction _ | .closeAll => inferInstanceAs (Decidable (s.InMain pids ∧ _ = _))
  | .prctl => inferInstanceAs (Decidable (_ = _))
  | .fork _ => inferInstanceAs (Decidable (s.InMain pids ∧ _ = _ ∧ _ = _ ∧ _ < _))
  | .step _ | .signal _ | .finish _ => inferInstanceAs (Decidable (_ ≠ _))
  | .deliver pid handled => inferInstanceAs (Decidable (_ = _ ∧ s.Finds pid handled))
  | .appear _ => inferInstanceAs (Decidable (_ = _ ∧ _ < _))

/-! ### What holds of the processes -/

/-- The calls behind the first `kill`. -/
def ClosePc.BehindKill : ClosePc → Prop
  | .closeSocket | .kill => False
  | .closePipe | .killAgain | .shmUnlink | .exit => True

namespace Family

/-- The log process has ended, or the signal that ends it is pending. -/
def Down (s : Family) : Prop := ∀ q, s.owner q = .logger → s.pending q = true

/-- There is one server and one log process at their pids, `main` knows the pid behind its first call,
and only the server and its children run `close_all`. Behind its `kill` the log process is down, as
it is behind the end of the server when it has asked for that. -/
structure Sound (pids : Pids) (s : Family) : Prop where
  server : ∀ q, s.owner q = .server → q = pids.server
  logger : ∀ q, s.owner q = .logger → q = pids.logProcess
  knows : s.logsProcesPid = if s.stage = .forked then 0 else pids.logProcess
  children : ∀ q, s.owner q = .child → s.stage ≠ .forked
  ours : ∀ q c, s.closing q = some c → s.owner q = .server ∨ s.owner q = .child
  killed : ∀ q c, s.closing q = some c → c.pc.BehindKill → s.Down
  unlinked : ∀ q c, s.closing q = some c → c.pc = .exit → s.linked = false
  orphan : s.guarded = true → s.owner pids.server ≠ .server → s.Down

variable {pids : Pids} {s : Family} {pid : Nat}

theorem Down.signalled (h : s.Down) (hit : Nat → Bool) : (s.signalled hit).Down := by
  intro q hq
  simp only [Family.signalled, h q hq, Bool.true_or]

/-- A signal for the log process brings it down. -/
theorem down_signalled {hit : Nat → Bool} (hhit : ∀ q, s.owner q = .logger → hit q = true) :
    (s.signalled hit).Down := by
  intro q hq
  have howner : s.owner q = .logger := hq
  simp [Family.signalled, howner, hhit q howner]

theorem owner_ended {q : Nat} : (s.ended pid).owner q = if q = pid then .free else s.owner q :=
  Function.update_apply ..

theorem closing_ended {q : Nat} : (s.ended pid).closing q = if q = pid then none else s.closing q :=
  Function.update_apply ..

theorem Down.ended (h : s.Down) (pid : Nat) : (s.ended pid).Down := by
  intro q hq
  rw [owner_ended] at hq
  split_ifs at hq with hpid
  simp [Family.ended, hpid, h q hq]

theorem Sound.signalled (h : Sound pids s) (hit : Nat → Bool) : Sound pids (s.signalled hit) where
  server := h.server
  logger := h.logger
  knows := h.knows
  children := h.children
  ours := h.ours
  killed q c hc hpc := (h.killed q c hc hpc).signalled hit
  unlinked := h.unlinked
  orphan hguarded hgone := (h.orphan hguarded hgone).signalled hit

theorem Sound.ended (h : Sound pids s) (pid : Nat) : Sound pids (s.ended pid) where
  server q hq := by
    rw [owner_ended] at hq
    split_ifs at hq
    exact h.server q hq
  logger q hq := by
    rw [owner_ended] at hq
    split_ifs at hq
    exact h.logger q hq
  knows := h.knows
  children q hq := by
    rw [owner_ended] at hq
    split_ifs at hq
    exact h.children q hq
  ours q c hc := by
    rw [closing_ended] at hc
    split_ifs at hc with hpid
    rw [owner_ended, if_neg hpid]
    exact h.ours q c hc
  killed q c hc hpc := by
    rw [closing_ended] at hc
    split_ifs at hc
    exact (h.killed q c hc hpc).ended pid
  unlinked q c hc hpc := by
    rw [closing_ended] at hc
    split_ifs at hc
    exact h.unlinked q c hc hpc
  orphan hguarded hgone := by
    by_cases hserver : s.owner pids.server = .server
    · -- it is the server that ends
      have hpid : pids.server = pid := by
        by_contra hne
        rw [owner_ended, if_neg hne] at hgone
        exact hgone hserver
      have hg : s.guarded = true := hguarded
      subst hpid
      intro q hq
      rw [owner_ended] at hq
      split_ifs at hq with hne
      simp [Family.ended, hne, hserver, hg, hq]
    · exact (h.orphan hguarded hserver).ended pid

theorem closing_advance {pc : ClosePc} {handler : Bool} {q : Nat} :
    (s.advance pid pc handler).closing q = if q = pid then some ⟨pc, handler⟩ else s.closing q :=
  Function.update_apply ..

/-- Only a process of the program comes to a call of `close_all`. -/
theorem Sound.advance (h : Sound pids s) (hpid : s.owner pid = .server ∨ s.owner pid = .child)
    (pc : ClosePc) (hdown : pc.BehindKill → s.Down) (hlinked : pc = .exit → s.linked = false)
    (handler : Bool) : Sound pids (s.advance pid pc handler) where
  server := h.server
  logger := h.logger
  knows := h.knows
  children := h.children
  ours q c hc := by
    rw [closing_advance] at hc
    split_ifs at hc with hq
    · subst hq
      exact hpid
    · exact h.ours q c hc
  killed q c hc hpc := by
    rw [closing_advance] at hc
    split_ifs at hc
    · cases hc
      exact hdown hpc
    · exact h.killed q c hc hpc
  unlinked q c hc hpc := by
    rw [closing_advance] at hc
    split_ifs at hc
    · cases hc
      exact hlinked hpc
    · exact h.unlinked q c hc hpc
  orphan := h.orphan

theorem Sound.enter (h : Sound pids s) (hpid : s.owner pid = .server ∨ s.owner pid = .child)
    (handler : Bool) : Sound pids (s.enter pid handler) :=
  h.advance hpid .closeSocket nofun nofun handler

/-- A pid that is free goes to a child or to a stranger. -/
theorem Sound.born (h : Sound pids s) (hfree : s.owner pid = .free) {owner : PidOwner}
    (howner : owner = .child ∧ s.stage ≠ .forked ∨ owner = .stranger) :
    Sound pids { s with owner := Function.update s.owner pid owner } ∧
      (s.Down → Down { s with owner := Function.update s.owner pid owner }) := by
  have hserver : ∀ q, Function.update s.owner pid owner q = .server ↔ s.owner q = .server := by
    intro q
    rw [Function.update_apply]
    split_ifs with hq
    · subst hq
      rw [hfree]
      rcases howner with ⟨rfl, -⟩ | rfl <;> simp
    · rfl
  have hlogger : ∀ q, Function.update s.owner pid owner q = .logger → s.owner q = .logger := by
    intro q hq
    rw [Function.update_apply] at hq
    split_ifs at hq
    · subst hq
      rcases howner with ⟨howner, -⟩ | howner <;> cases howner
    · exact hq
  have hdown : s.Down → Down { s with owner := Function.update s.owner pid owner } :=
    fun hdown q hq => hdown q (hlogger q hq)
  refine ⟨⟨fun q hq => h.server q ((hserver q).mp hq), fun q hq => h.logger q (hlogger q hq), h.knows,
    fun q hq => ?_, fun q c hc => ?_, fun q c hc hpc => hdown (h.killed q c hc hpc), h.unlinked,
    fun hguarded hgone => hdown (h.orphan hguarded (mt (hserver _).mpr hgone))⟩, hdown⟩
  · change Function.update s.owner pid owner q = .child at hq
    rw [Function.update_apply] at hq
    split_ifs at hq
    · subst hq
      exact (howner.resolve_right nofun).2
    · exact h.children q hq
  · have hne : q ≠ pid := by
      rintro rfl
      rcases h.ours q c hc with hq | hq <;> rw [hfree] at hq <;> cases hq
    change Function.update s.owner pid owner q = .server ∨ Function.update s.owner pid owner q = .child
    rw [Function.update_of_ne hne]
    exact h.ours q c hc

/-- What a call of `close_all` leaves as it was. -/
theorem Sound.closeStep (h : Sound pids s) {c : Closing} (hc : s.closing pid = some c) :
    Sound pids (s.closeStep pids pid c) ∧ (s.Down → (s.closeStep pids pid c).Down) ∧
      (s.linked = false → (s.closeStep pids pid c).linked = false) := by
  have hpid := h.ours pid c hc
  have hkilled := h.killed pid c hc
  obtain ⟨pc, handler⟩ := c
  cases pc with
  | closeSocket => exact ⟨h.advance hpid .kill nofun nofun handler, id, id⟩
  | kill =>
    have hdown : (s.signalled (· = pids.logProcess)).Down :=
      down_signalled fun q hq => decide_eq_true (h.logger q hq)
    exact ⟨(h.signalled _).advance hpid .closePipe (fun _ => hdown) nofun handler, fun _ => hdown, id⟩
  | closePipe => exact ⟨h.advance hpid .killAgain (fun _ => hkilled trivial) nofun handler, id, id⟩
  | killAgain =>
    simp only [Family.closeStep]
    split_ifs
    · exact ⟨(h.signalled _).ended pid, fun hdown => (hdown.signalled _).ended pid, id⟩
    · have hdown := (hkilled trivial).signalled (· = s.logsProcesPid)
      exact ⟨(h.signalled _).advance hpid .shmUnlink (fun _ => hdown) nofun handler, fun _ => hdown, id⟩
  | shmUnlink =>
    have hunlinked : Sound pids { s with linked := false } :=
      ⟨h.server, h.logger, h.knows, h.children, h.ours, h.killed, fun _ _ _ _ => rfl, h.orphan⟩
    exact ⟨hunlinked.advance hpid .exit (fun _ => hkilled trivial) (fun _ => rfl) handler, id, fun _ => rfl⟩
  | exit => exact ⟨h.ended pid, fun hdown => hdown.ended pid, id⟩

theorem next_step {c : Closing} (hc : s.closing pid = some c) :
    (family pids).next s (.step pid) = s.closeStep pids pid c := by
  simp only [family, hc, Option.elim_some]

/-- One step keeps all of it, leaves the log process down and the name removed. -/
theorem Sound.next (h : Sound pids s) {a : FamilyAction} (ha : (family pids).enabled s a) :
    Sound pids ((family pids).next s a) ∧ (s.Down → ((family pids).next s a).Down) ∧
      (s.linked = false → ((family pids).next s a).linked = false) := by
  cases a with
  | closeReadPipe succeeds =>
    obtain ⟨⟨hserver, -⟩, hstage⟩ := ha
    cases succeeds with
    | true =>
      refine ⟨⟨h.server, h.logger, rfl, fun q hq => ?_, h.ours, h.killed, h.unlinked,
        h.orphan⟩, id, id⟩
      exact absurd hstage (h.children q hq)
    | false => exact ⟨h.enter (.inl hserver) false, id, id⟩
  | sigaction succeeds =>
    obtain ⟨⟨hserver, -⟩, hstage⟩ := ha
    have hknows : s.logsProcesPid = pids.logProcess := by rw [h.knows, hstage, if_neg nofun]
    cases succeeds with
    | true =>
      exact ⟨⟨h.server, h.logger, hknows, fun _ _ => nofun, h.ours, h.killed, h.unlinked,
        h.orphan⟩, id, id⟩
    | false => exact ⟨h.enter (.inl hserver) false, id, id⟩
  | closeAll => exact ⟨h.enter (.inl ha.1.1) false, id, id⟩
  | prctl =>
    refine ⟨⟨h.server, h.logger, h.knows, h.children, h.ours, h.killed, h.unlinked,
      fun hguarded hgone => ?_⟩, id, id⟩
    have hguarded : s.guarded = true := by
      simpa [family, show s.owner pids.server ≠ .server from hgone] using hguarded
    exact h.orphan hguarded hgone
  | fork pid =>
    obtain ⟨-, hstage, hfree, -⟩ := ha
    obtain ⟨hsound, hdown⟩ := h.born hfree (.inl ⟨rfl, by simp [hstage]⟩)
    exact ⟨hsound, hdown, id⟩
  | step pid =>
    obtain ⟨c, hc⟩ := Option.ne_none_iff_exists'.mp ha
    rw [next_step hc]
    exact h.closeStep hc
  | signal pid => exact ⟨h.signalled _, fun hdown => hdown.signalled _, id⟩
  | deliver pid handled =>
    obtain ⟨-, hfinds⟩ := ha
    cases handled with
    | true =>
      have hpid : s.owner pid = .server ∨ s.owner pid = .child := by
        rw [Finds] at hfinds
        split at hfinds <;> simp_all
      have hother : ∀ q, s.owner q = .logger → q ≠ pid := by
        rintro q hq rfl
        rcases hpid with hpid | hpid <;> rw [hq] at hpid <;> cases hpid
      have hdown : s.Down → Down { s with pending := Function.update s.pending pid false } := by
        intro hdown q hq
        exact (Function.update_of_ne (hother q hq) ..).trans (hdown q hq)
      have hsound : Sound pids { s with pending := Function.update s.pending pid false } :=
        ⟨h.server, h.logger, h.knows, h.children, h.ours, fun q c hc hpc => hdown (h.killed q c hc hpc),
          h.unlinked, fun hguarded hgone => hdown (h.orphan hguarded hgone)⟩
      exact ⟨hsound.enter hpid true, hdown, id⟩
    | false => exact ⟨h.ended pid, fun hdown => hdown.ended pid, id⟩
  | appear pid =>
    obtain ⟨hsound, hdown⟩ := h.born ha.1 (.inr rfl)
    exact ⟨hsound, hdown, id⟩
  | finish pid => exact ⟨h.ended pid, fun hdown => hdown.ended pid, id⟩

theorem sound_start (pids : Pids) : Sound pids (start pids) where
  server q hq := by
    simp only [start, Function.update_apply] at hq
    split_ifs at hq
    assumption
  logger q hq := by
    simp only [start, Function.update_apply] at hq
    split_ifs at hq
    assumption
  knows := rfl
  children q hq := by
    simp only [start, Function.update_apply] at hq
    split_ifs at hq
  ours := nofun
  killed := nofun
  unlinked := nofun
  orphan := nofun

theorem sound_of_reach {ok : Family → FamilyAction → Prop} (hs : (family pids).Reach ok s) :
    Sound pids s :=
  hs.invariant (sound_start pids) fun _ _ _ hsound _ ha => (hsound.next ha).1

/-- The log process stays down, and the name removed. -/
theorem Sound.after {ok : Family → FamilyAction → Prop} (h : Sound pids s)
    {actions : List FamilyAction} (hruns : (family pids).Runs ok s actions) :
    Sound pids ((family pids).after s actions) ∧ (s.Down → ((family pids).after s actions).Down) ∧
      (s.linked = false → ((family pids).after s actions).linked = false) := by
  induction actions generalizing s with
  | nil => exact ⟨h, id, id⟩
  | cons a actions ih =>
    obtain ⟨hnext, hdown, hlinked⟩ := h.next hruns.2.1
    obtain ⟨hafter, hdown', hlinked'⟩ := ih hnext hruns.2.2
    exact ⟨hafter, hdown' ∘ hdown, hlinked' ∘ hlinked⟩

/-- Nothing but its signal is left for a log process that is down. -/
theorem Down.ends (h : s.Down) : s.owner pids.logProcess ≠ .logger ∨
    (family pids).enabled s (.deliver pids.logProcess false) ∧
      ((family pids).next s (.deliver pids.logProcess false)).owner pids.logProcess = .free := by
  by_cases hlogger : s.owner pids.logProcess = .logger
  · refine .inr ⟨⟨h _ hlogger, ?_⟩, owner_ended.trans (if_pos rfl)⟩
    simp [Finds, hlogger]
  · exact .inl hlogger

/-- A pid keeps its owner, or is free, or a process begins there. -/
theorem owner_next (a : FamilyAction) (q : Nat) :
    ((family pids).next s a).owner q = s.owner q ∨ ((family pids).next s a).owner q = .free ∨
      a = .fork q ∨ a = .appear q := by
  have hended : ∀ (s : Family) (pid : Nat),
      (s.ended pid).owner q = s.owner q ∨ (s.ended pid).owner q = .free := by
    intro s pid
    rw [owner_ended]
    split_ifs
    · exact .inr rfl
    · exact .inl rfl
  have hborn : ∀ (pid : Nat) (owner : PidOwner),
      Function.update s.owner pid owner q = s.owner q ∨ pid = q := by
    intro pid owner
    rw [Function.update_apply]
    split_ifs with hq
    · exact .inr hq.symm
    · exact .inl rfl
  cases a with
  | closeReadPipe succeeds | sigaction succeeds => cases succeeds <;> exact .inl rfl
  | closeAll | prctl | signal pid => exact .inl rfl
  | fork pid => exact (hborn pid .child).imp_right fun h => .inr (.inl (congrArg _ h))
  | appear pid => exact (hborn pid .stranger).imp_right fun h => .inr (.inr (congrArg _ h))
  | step pid =>
    cases hc : s.closing pid with
    | none =>
      left
      simp only [family, hc, Option.elim_none]
    | some c =>
      rw [next_step hc, ← or_assoc]
      refine .inl ?_
      obtain ⟨pc, handler⟩ := c
      cases pc with
      | closeSocket | kill | closePipe | shmUnlink => exact .inl rfl
      | killAgain =>
        simp only [Family.closeStep]
        split_ifs
        · exact hended (s.signalled (s.group pids)) pid
        · exact .inl rfl
      | exit => exact hended s pid
  | deliver pid handled =>
    cases handled with
    | true => exact .inl rfl
    | false =>
      rw [← or_assoc]
      exact .inl (hended s pid)
  | finish pid =>
    rw [← or_assoc]
    exact .inl (hended s pid)

end Family

open Family

variable {pids : Pids} {s : Family}

/-- No process begins at the pid of the log process. -/
def KeepsPid (pids : Pids) (_ : Family) (a : FamilyAction) : Prop :=
  a ≠ .fork pids.logProcess ∧ a ≠ .appear pids.logProcess

instance (s : Family) (a : FamilyAction) : Decidable (KeepsPid pids s a) :=
  inferInstanceAs (Decidable (_ ≠ _ ∧ _ ≠ _))

theorem owner_of_keepsPid (hs : (family pids).Reach (KeepsPid pids) s) :
    s.owner pids.logProcess = .logger ∨ s.owner pids.logProcess = .free := by
  refine hs.invariant (I := fun s => s.owner pids.logProcess = .logger ∨ s.owner pids.logProcess = .free)
    (.inl (Function.update_self ..)) fun s a _ hkept hok _ => ?_
  rcases owner_next a pids.logProcess with hsame | hfree | hfork | happear
  · rw [hsame]
    exact hkept
  · exact .inr hfree
  · exact absurd hfork hok.1
  · exact absurd happear hok.2

def smallPids : Pids where
  server := 10
  logProcess := 11
  ne := by decide
  positive := by decide
  inGroup _ := false

/-! ### The log process does not outlive the server -/

/-- When the server has ended behind the log process's `prctl`, or some process has made the `kill`
of `close_all`, the log process has ended at every later time, or has a signal that it does not
handle. When a process is at the end of `close_all`, the name of the shared memory is gone for good. -/
theorem log_process_down (hs : (family pids).Reach (fun _ _ => True) s) {actions : List FamilyAction}
    (hruns : (family pids).Runs (fun _ _ => True) s actions) :
    (s.guarded = true ∧ s.owner pids.server ≠ .server ∨
        (∃ pid c, s.closing pid = some c ∧ c.pc.BehindKill) →
      ((family pids).after s actions).owner pids.logProcess ≠ .logger ∨
        (family pids).enabled ((family pids).after s actions) (.deliver pids.logProcess false) ∧
          ((family pids).next ((family pids).after s actions)
            (.deliver pids.logProcess false)).owner pids.logProcess = .free) ∧
    ((∃ pid c, s.closing pid = some c ∧ c.pc = .exit) →
      ((family pids).after s actions).linked = false) := by
  have hsound := sound_of_reach hs
  obtain ⟨-, hdown, hlinked⟩ := hsound.after hruns
  constructor
  · rintro (⟨hguarded, hgone⟩ | ⟨pid, c, hc, hpc⟩)
    · exact (hdown (hsound.orphan hguarded hgone)).ends
    · exact (hdown (hsound.killed pid c hc hpc)).ends
  · intro ⟨pid, c, hc, hpc⟩
    exact hlinked (hsound.unlinked pid c hc hpc)

/-- The server goes down behind the `prctl`, and its pid is taken by somebody else. -/
theorem log_process_down_small :
    ((family smallPids).after (.start smallPids) [.prctl, .finish 10, .appear 10]).owner 11 ≠ .logger ∨
      ((family smallPids).next ((family smallPids).after (.start smallPids)
        [.prctl, .finish 10, .appear 10]) (.deliver 11 false)).owner 11 = .free := by
  have hs : (family smallPids).Reach (fun _ _ => True)
      ((family smallPids).after (.start smallPids) [.prctl, .finish 10]) :=
    Transition.Reach.init.after (by decide)
  refine ((log_process_down hs (by decide : (family smallPids).Runs _ _ [.appear 10])).1
    (.inl ⟨rfl, by decide⟩)).imp_right And.right

/-- Neither the server nor a child is left, and nothing will signal the log process. -/
structure Orphaned (pids : Pids) (s : Family) : Prop where
  runs : s.owner pids.logProcess = .logger
  quiet : s.pending pids.logProcess = false
  unguarded : s.guarded = false
  alone : ∀ q, s.owner q ≠ .server ∧ s.owner q ≠ .child

theorem Orphaned.ended (h : Orphaned pids s) {pid : Nat} (hpid : pid ≠ pids.logProcess) :
    Orphaned pids (s.ended pid) where
  runs := by
    rw [owner_ended, if_neg hpid.symm]
    exact h.runs
  quiet := by simp [Family.ended, h.quiet, h.unguarded]
  unguarded := h.unguarded
  alone q := by
    rw [owner_ended]
    split_ifs
    · exact ⟨nofun, nofun⟩
    · exact h.alone q

theorem Orphaned.next (h : Orphaned pids s) (hsound : Sound pids s) {a : FamilyAction}
    (hsignal : a ≠ .signal pids.logProcess) (hfinish : a ≠ .finish pids.logProcess)
    (ha : (family pids).enabled s a) : Orphaned pids ((family pids).next s a) := by
  cases a with
  | closeReadPipe succeeds | sigaction succeeds => exact absurd ha.1.1 (h.alone _).1
  | closeAll | fork pid => exact absurd ha.1.1 (h.alone _).1
  | prctl =>
    have hgone : s.owner pids.server ≠ .server := (h.alone _).1
    exact ⟨h.runs, h.quiet, by simp [family, h.unguarded, hgone], h.alone⟩
  | step pid =>
    obtain ⟨c, hc⟩ := Option.ne_none_iff_exists'.mp ha
    rcases hsound.ours pid c hc with hpid | hpid
    · exact absurd hpid (h.alone pid).1
    · exact absurd hpid (h.alone pid).2
  | signal pid =>
    have hpid : pids.logProcess ≠ pid := fun heq => hsignal (congrArg _ heq.symm)
    exact ⟨h.runs, by simp [family, signalled, h.quiet, hpid], h.unguarded, h.alone⟩
  | deliver pid handled =>
    obtain ⟨hpending, hfinds⟩ := ha
    have hpid : pid ≠ pids.logProcess := by
      rintro rfl
      exact nomatch h.quiet.symm.trans hpending
    cases handled with
    | true =>
      obtain ⟨hserver, hchild⟩ := h.alone pid
      rw [Finds] at hfinds
      split at hfinds <;> simp_all
    | false => exact h.ended hpid
  | appear pid =>
    obtain ⟨hfree, -⟩ := ha
    have hpid : pids.logProcess ≠ pid := by
      rintro rfl
      exact nomatch h.runs.symm.trans hfree
    refine ⟨(Function.update_of_ne hpid ..).trans h.runs, h.quiet, h.unguarded, fun q => ?_⟩
    change Function.update s.owner pid .stranger q ≠ .server ∧
      Function.update s.owner pid .stranger q ≠ .child
    rw [Function.update_apply]
    split_ifs
    · exact ⟨nofun, nofun⟩
    · exact h.alone q
  | finish pid => exact h.ended fun heq => hfinish (congrArg _ heq)

/-- The server ends on its own, or by a signal for which it has no handler yet. -/
def FamilyAction.EndsServer (pids : Pids) : FamilyAction → Prop
  | .finish pid | .deliver pid false => pid = pids.server
  | _ => False

/-- Without a child, such an end before the `prctl` leaves the log process behind. -/
theorem orphaned_of_endsServer (hsound : Sound pids s) (hlogger : s.owner pids.logProcess = .logger)
    (hquiet : s.pending pids.logProcess = false) (hunguarded : s.guarded = false)
    (hchildren : ∀ q, s.owner q ≠ .child) {a : FamilyAction} (ha : a.EndsServer pids) :
    Orphaned pids ((family pids).next s a) := by
  have hended : Orphaned pids (s.ended pids.server) := by
    refine ⟨?_, by simp [Family.ended, hquiet, hunguarded], hunguarded, fun q => ?_⟩
    · rw [owner_ended, if_neg pids.ne.symm]
      exact hlogger
    · rw [owner_ended]
      split_ifs with hq
      · exact ⟨nofun, nofun⟩
      · exact ⟨fun hserver => hq (hsound.server q hserver), hchildren q⟩
  cases a with
  | finish pid =>
    obtain rfl : pid = pids.server := ha
    exact hended
  | deliver pid handled =>
    cases handled with
    | true => exact ha.elim
    | false =>
      obtain rfl : pid = pids.server := ha
      exact hended
  | _ => exact ha.elim

/-- It stays there until it is signalled from outside or ends on its own. -/
theorem Orphaned.after (h : Orphaned pids s) (hsound : Sound pids s) {actions : List FamilyAction}
    (hruns : (family pids).Runs (fun _ _ => True) s actions) :
    .signal pids.logProcess ∈ actions ∨ .finish pids.logProcess ∈ actions ∨
      Orphaned pids ((family pids).after s actions) := by
  by_cases hsignal : .signal pids.logProcess ∈ actions
  · exact .inl hsignal
  by_cases hfinish : .finish pids.logProcess ∈ actions
  · exact .inr (.inl hfinish)
  refine .inr (.inr (hruns.invariant (I := fun s => Sound pids s ∧ Orphaned pids s) ⟨hsound, h⟩ ?_).2)
  rintro s a hmem ⟨hsound, horphaned⟩ - ha
  refine ⟨(hsound.next ha).1, horphaned.next hsound ?_ ?_ ha⟩
  · rintro rfl
    exact hsignal hmem
  · rintro rfl
    exact hfinish hmem

/-- A server that ends on its own or by a signal, without a child and before the log process has come
to its `prctl`, leaves it running: only a signal from outside or its own end takes it away, whatever else
happens. -/
theorem log_process_orphaned (hs : (family pids).Reach (fun _ _ => True) s)
    (hlogger : s.owner pids.logProcess = .logger) (hquiet : s.pending pids.logProcess = false)
    (hunguarded : s.guarded = false) (hchildren : ∀ q, s.owner q ≠ .child) {a : FamilyAction}
    (hends : a.EndsServer pids) {actions : List FamilyAction}
    (hruns : (family pids).Runs (fun _ _ => True) s (a :: actions)) :
    .signal pids.logProcess ∈ actions ∨ .finish pids.logProcess ∈ actions ∨
      Orphaned pids ((family pids).after s (a :: actions)) := by
  have hsound := sound_of_reach hs
  have horphaned := orphaned_of_endsServer hsound hlogger hquiet hunguarded hchildren hends
  exact horphaned.after (hsound.next hruns.2.1).1 hruns.2.2

/-- The server is killed before it has a handler, and the log process calls `prctl` too late. -/
theorem log_process_orphaned_small : Orphaned smallPids
    ((family smallPids).after (.start smallPids)
      [.signal 10, .deliver 10 false, .prctl, .appear 10]) := by
  have hs : (family smallPids).Reach (fun _ _ => True)
      ((family smallPids).after (.start smallPids) [.signal 10]) :=
    Transition.Reach.init.after (by decide)
  have hruns : (family smallPids).Runs (fun _ _ => True)
      ((family smallPids).after (.start smallPids) [.signal 10])
      [.deliver 10 false, .prctl, .appear 10] := by decide
  have hchildren : ∀ q, ((family smallPids).after (.start smallPids) [.signal 10]).owner q ≠ .child := by
    intro q
    change (start smallPids).owner q ≠ .child
    simp only [Family.start, Function.update_apply]
    split_ifs <;> nofun
  have hends : (FamilyAction.deliver 10 false).EndsServer smallPids := rfl
  rcases log_process_orphaned hs rfl rfl rfl hchildren hends hruns with hsignal | hfinish | horphaned
  · exact absurd hsignal (by decide)
  · exact absurd hfinish (by decide)
  · exact horphaned

/-! ### Whom `close_all` signals -/

/-- A call of `close_all` signals what is at the pid of the log process. When `main` makes it because
it could not close the read end, the second `kill` is for the process group. -/
theorem pending_closeStep (hsound : Sound pids s) {pid q : Nat} {c : Closing}
    (hbefore : s.pending q = false) (hafter : (s.closeStep pids pid c).pending q = true) :
    s.owner q ≠ .free ∧ (q = pids.logProcess ∨ s.stage = .forked ∧ s.group pids q = true) := by
  have hsignalled : ∀ hit, (s.signalled hit).pending q = true → s.owner q ≠ .free ∧ hit q = true := by
    intro hit hq
    simpa [Family.signalled, hbefore] using hq
  have hended : ∀ s' : Family, s'.owner = s.owner → (s'.ended pid).pending q = true →
      s'.pending q = true ∨ s.owner q = .logger := by
    intro s' howner hq
    simp only [Family.ended, Bool.and_eq_true, Bool.or_eq_true, decide_eq_true_eq, howner] at hq
    exact hq.2.imp_right (·.2)
  have hlogger : s.owner q = .logger → s.owner q ≠ .free ∧
      (q = pids.logProcess ∨ s.stage = .forked ∧ s.group pids q = true) := by
    intro hq
    exact ⟨by simp [hq], .inl (hsound.logger q hq)⟩
  obtain ⟨pc, handler⟩ := c
  cases pc with
  | closeSocket | closePipe | shmUnlink => exact absurd (hbefore.symm.trans hafter) nofun
  | kill =>
    obtain ⟨howner, hhit⟩ := hsignalled (· = pids.logProcess) hafter
    exact ⟨howner, .inl (of_decide_eq_true hhit)⟩
  | killAgain =>
    have hknows := hsound.knows
    simp only [Family.closeStep] at hafter
    split_ifs at hafter with hzero
    · have hforked : s.stage = .forked := by
        by_contra hstage
        rw [hzero, if_neg hstage] at hknows
        exact absurd pids.positive (hknows ▸ Nat.lt_irrefl 0)
      rcases hended (s.signalled (s.group pids)) rfl hafter with hq | hq
      · exact (hsignalled _ hq).imp_right fun hhit => .inr ⟨hforked, hhit⟩
      · exact hlogger hq
    · obtain ⟨howner, hhit⟩ := hsignalled (· = s.logsProcesPid) hafter
      have hq : q = s.logsProcesPid := of_decide_eq_true hhit
      split_ifs at hknows
      · exact absurd hknows hzero
      · exact ⟨howner, .inl (hq.trans hknows)⟩
  | exit =>
    rcases hended s rfl hafter with hq | hq
    · exact absurd (hbefore.symm.trans hq) nofun
    · exact hlogger hq

/-- As long as nobody gets the pid of the log process, `close_all` signals the log process and no other
process, in the server and in each child, unless `main` could not close its read end of the pipe. -/
theorem close_all_signals (hs : (family pids).Reach (KeepsPid pids) s) {pid q : Nat}
    (hstep : (family pids).enabled s (.step pid)) (hbefore : s.pending q = false)
    (hafter : ((family pids).next s (.step pid)).pending q = true) :
    s.owner q = .logger ∨ s.stage = .forked ∧ s.group pids q = true := by
  obtain ⟨c, hc⟩ := Option.ne_none_iff_exists'.mp hstep
  rw [next_step hc] at hafter
  obtain ⟨howner, rfl | hgroup⟩ := pending_closeStep (sound_of_reach hs) hbefore hafter
  · exact .inl ((owner_of_keepsPid hs).resolve_right howner)
  · exact .inr hgroup

/-- The server has its handlers, and is about to signal the log process. -/
theorem close_all_signals_small :
    ((family smallPids).after (.start smallPids)
      [.closeReadPipe true, .sigaction true, .closeAll, .step 10]).owner 11 = .logger ∨
    ((family smallPids).after (.start smallPids)
      [.closeReadPipe true, .sigaction true, .closeAll, .step 10]).stage = .forked ∧
    ((family smallPids).after (.start smallPids)
      [.closeReadPipe true, .sigaction true, .closeAll, .step 10]).group smallPids 11 = true :=
  @close_all_signals smallPids _ (Transition.Reach.init.after (by decide)) 10 11 nofun rfl rfl

/-- The log process has ended, and a stranger with its pid is killed. -/
theorem stranger_killed :
    ∃ s, (family smallPids).Reach (fun _ _ => True) s ∧ (family smallPids).enabled s (.step 10) ∧
      s.owner 11 = .stranger ∧ s.pending 11 = false ∧ s.stage = .serving ∧
      ((family smallPids).next s (.step 10)).pending 11 = true :=
  ⟨_, Transition.Reach.init.after (by decide : (family smallPids).Runs _ _ [.closeReadPipe true,
    .sigaction true, .finish 11, .appear 11, .closeAll, .step 10]), nofun, rfl, rfl, rfl, rfl⟩

/-! ### A signal to a child -/

/-- A process is signalled, and goes through `close_all` up to its first `kill`. -/
def killedBy (pid : Nat) : List FamilyAction := [.signal pid, .deliver pid true, .step pid, .step pid]

/-- A signal to the child of one connection takes the log process away from the server, which goes on.
-/
theorem child_signal_down (hs : (family pids).Reach (fun _ _ => True) s) {pid : Nat}
    (hchild : s.owner pid = .child) (hclosing : s.closing pid = none) :
    (family pids).Runs (fun _ _ => True) s (killedBy pid) ∧
      ((family pids).after s (killedBy pid)).owner = s.owner ∧
      ((family pids).after s (killedBy pid)).Down := by
  let signalled := s.signalled (· = pid)
  let entered := { signalled with pending := Function.update signalled.pending pid false }.enter pid true
  let closed := entered.advance pid .kill true
  let killed := (closed.signalled (· = pids.logProcess)).advance pid .closePipe true
  have hentered : entered.closing pid = some ⟨.closeSocket, true⟩ := closing_advance.trans (if_pos rfl)
  have hclosed : closed.closing pid = some ⟨.kill, true⟩ := closing_advance.trans (if_pos rfl)
  have hpending : signalled.pending pid = true := by simp [signalled, Family.signalled, hchild]
  have hfinds : signalled.Finds pid true := by
    have howner : signalled.owner pid = .child := hchild
    have hnone : signalled.closing pid = none := hclosing
    simp [Finds, howner, Blocked, hnone]
  have hdown : killed.Down :=
    down_signalled (s := closed) fun q hq => decide_eq_true ((sound_of_reach hs).logger q hq)
  have hnext : (family pids).next (entered.closeStep pids pid ⟨.closeSocket, true⟩) (.step pid) = killed :=
    next_step hclosed
  have hafter : (family pids).after s (killedBy pid) = killed := by
    change (family pids).next ((family pids).next entered (.step pid)) (.step pid) = killed
    rw [next_step hentered, hnext]
  refine ⟨⟨trivial, ?_, trivial, ⟨hpending, hfinds⟩, trivial, ?_, trivial, ?_, trivial⟩, ?_, ?_⟩
  · simp [family, hchild]
  · change entered.closing pid ≠ none
    simp [hentered]
  · change ((family pids).next entered (.step pid)).closing pid ≠ none
    rw [next_step hentered]
    exact fun h => nomatch hclosed.symm.trans h
  · rw [hafter]
    rfl
  · rw [hafter]
    exact hdown

theorem child_signal_down_small :
    ((family smallPids).after ((family smallPids).after (.start smallPids)
      [.closeReadPipe true, .sigaction true, .fork 12]) (killedBy 12)).Down :=
  (@child_signal_down smallPids _ (Transition.Reach.init.after (by decide)) 12 rfl rfl).2.2

end Sacagawea
