import Sacagawea.Lib.Transition
import Sacagawea.Server.Sighup

/-!
# Waiting for connections

`listen_descriptor` puts the socket of the server into a set, lets `select` wait on the set and asks
whether the socket is in it. It reads `settings->socket` for each of these, and `universal_handler`,
which can run between any two steps and while `select` waits, closes the socket and opens another one.

The number of the new socket is the lowest that is free. As long as nobody takes the old number between
the two calls, it is the same number again, and what is in the set stays right.
-/

namespace Sacagawea

/-- `FD_SETSIZE`: `FD_SET` of a number from there on writes behind the set. -/
def fdSetSize : Nat := 1024

/-- What a descriptor of the server is for. What `main` has opened before the socket stays open. -/
inductive Use where
  | standing
  | listening
  | lent
  deriving DecidableEq, Repr

/-- Where the main thread is in `listen_descriptor`. -/
inductive SelectPc where
  | top
  | zeroed
  | set
  | calling (nfds : Nat)
  | blocked (nfds : Nat)
  | returned
  | accepting
  | accepted (newS : Nat)
  deriving DecidableEq

/-- Why the process has ended: `select` returned an error, `FD_SET` left the set, or a call failed. -/
inductive SelectEnd where
  | badDescriptor
  | outOfSet
  | callFailed
  deriving DecidableEq, Repr

/-- The main thread, with `handling` while `universal_handler` has closed the socket and not opened
another one. -/
structure Multiplexer where
  pc : SelectPc
  handling : Bool
  fdsSet : Nat → Bool
  socket : Nat
  table : Nat → Option Use
  ended : Option SelectEnd

/-- The steps of the main thread, those of the handler in it, and those of the other threads. -/
inductive SelectAction where
  | fdZero
  | fdSet
  | loadNfds
  | select
  | ready (fds : Nat → Bool)
  | fdIsset
  | accept (newS : Option Nat)
  | dispatch (closes : Bool)
  | fails
  | sighup
  | close
  | openSocket (opened : Option Nat)
  | otherOpen (fd : Nat)
  | otherClose (fd : Nat)

namespace Multiplexer

/-- The lowest number that is free. -/
def Lowest (s : Multiplexer) (fd : Nat) : Prop := s.table fd = none ∧ ∀ m < fd, s.table m ≠ none

def assign (s : Multiplexer) (fd : Nat) (use : Option Use) : Multiplexer :=
  { s with table := Function.update s.table fd use }

def exit (s : Multiplexer) (e : SelectEnd) : Multiplexer := { s with ended := some e }

/-- A handler that returns while `select` waits makes it return `EINTR`. -/
def interrupt (s : Multiplexer) : Multiplexer :=
  match s.pc with
  | .blocked _ => { s with pc := .top }
  | _ => s

/-- `select` looks at the numbers below `nfds` and fails when one in the set is not open. -/
def Bad (s : Multiplexer) (nfds : Nat) : Prop := ∃ fd < nfds, s.fdsSet fd = true ∧ s.table fd = none

instance (s : Multiplexer) (nfds : Nat) : Decidable (s.Bad nfds) :=
  decidable_of_iff (∃ fd ∈ List.range nfds, s.fdsSet fd = true ∧ s.table fd = none) (by simp [Bad])

def stepFdSet (s : Multiplexer) : Multiplexer :=
  if s.socket < fdSetSize then
    { s with pc := .set, fdsSet := Function.update s.fdsSet s.socket true }
  else s.exit .outOfSet

def stepSelect (s : Multiplexer) : Multiplexer :=
  match s.pc with
  | .calling nfds => if s.Bad nfds then s.exit .badDescriptor else { s with pc := .blocked nfds }
  | _ => s

/-- `FD_ISSET`, and `accept_wrapper` when the socket is ready. -/
def stepFdIsset (s : Multiplexer) : Multiplexer :=
  { s with pc := if s.fdsSet s.socket then .accepting else .top }

def stepAccept (s : Multiplexer) : Option Nat → Multiplexer
  | none => { s with pc := .top }
  | some newS => { s.assign newS (some .lent) with pc := .accepted newS }

/-- In mode `p` the server closes its copy of the connection, and in mode `t` the thread has it. -/
def stepDispatch (mode : Mode) (s : Multiplexer) (closes : Bool) : Multiplexer :=
  match s.pc with
  | .accepted newS =>
    if mode = .process ∧ closes then { s.assign newS none with pc := .accepting }
    else { s with pc := .accepting }
  | _ => s

def stepOpenSocket (s : Multiplexer) : Option Nat → Multiplexer
  | none => s.exit .callFailed
  | some fd => interrupt { s.assign fd (some .listening) with socket := fd, handling := false }

end Multiplexer

/-- The loop of a server that has opened its socket. While the handler runs, the main thread waits for
it. Only in mode `t` there are other threads, which close what they have opened. -/
def selectLoop (mode : Mode) (start : Multiplexer) : Transition Multiplexer SelectAction where
  init := start
  enabled s a := s.ended = none ∧ match a with
    | .fdZero => s.handling = false ∧ s.pc = .top
    | .fdSet => s.handling = false ∧ s.pc = .zeroed
    | .loadNfds => s.handling = false ∧ s.pc = .set
    | .select => s.handling = false ∧ ∃ nfds, s.pc = .calling nfds
    | .ready fds => s.handling = false ∧ ∃ nfds, s.pc = .blocked nfds ∧
      (∀ fd, fds fd = true → fd < nfds ∧ s.fdsSet fd = true) ∧ ∃ fd, fds fd = true
    | .fdIsset => s.handling = false ∧ s.pc = .returned
    | .accept newS => s.handling = false ∧ s.pc = .accepting ∧
      ∀ fd ∈ newS, s.Lowest fd ∧ s.table s.socket = some .listening
    | .dispatch _ => s.handling = false ∧ ∃ newS, s.pc = .accepted newS
    | .fails => True
    | .sighup | .close => s.handling = false
    | .openSocket opened => s.handling = true ∧ ∀ fd ∈ opened, s.Lowest fd
    | .otherOpen fd => mode = .thread ∧ s.Lowest fd
    | .otherClose fd => mode = .thread ∧ s.table fd = some .lent
  next s
    | .fdZero => { s with pc := .zeroed, fdsSet := fun _ => false }
    | .fdSet => s.stepFdSet
    | .loadNfds => { s with pc := .calling (s.socket + 1) }
    | .select => s.stepSelect
    | .ready fds => { s with pc := .returned, fdsSet := fds }
    | .fdIsset => s.stepFdIsset
    | .accept newS => s.stepAccept newS
    | .dispatch closes => s.stepDispatch mode closes
    | .fails => s.exit .callFailed
    | .sighup => s.interrupt
    | .close => { s.assign s.socket none with handling := true }
    | .openSocket opened => s.stepOpenSocket opened
    | .otherOpen fd => s.assign fd (some .lent)
    | .otherClose fd => s.assign fd none

/-! ### When the set is right -/

/-- Nobody opens a descriptor while the handler is between `close` and `socket`. -/
def Multiplexer.Undisturbed (s : Multiplexer) : SelectAction → Prop
  | .otherOpen _ => s.handling = false
  | _ => True

/-- A server that has opened its socket at the lowest number. -/
structure Multiplexer.Ready (s : Multiplexer) : Prop where
  pc : s.pc = .top
  handling : s.handling = false
  ended : s.ended = none
  standing : ∀ fd < s.socket, s.table fd = some .standing
  listens : s.table s.socket = some .listening
  room : s.socket < fdSetSize

/-- The set, as far as the main thread is with it. -/
def SelectPc.Watches (fdsSet : Nat → Bool) (socket : Nat) : SelectPc → Prop
  | .zeroed => ∀ fd, fdsSet fd = false
  | .set | .returned => ∀ fd, fdsSet fd = true ↔ fd = socket
  | .calling nfds | .blocked nfds => (∀ fd, fdsSet fd = true ↔ fd = socket) ∧ nfds = socket + 1
  | .accepted newS => socket < newS
  | .top | .accepting => True

structure Multiplexer.Kept (n : Nat) (s : Multiplexer) : Prop where
  socket : s.socket = n
  standing : ∀ fd < n, s.table fd = some .standing
  listens : s.table n = if s.handling then none else some .listening
  watches : s.pc.Watches s.fdsSet n
  ended : s.ended ≠ some .badDescriptor ∧ s.ended ≠ some .outOfSet

section

variable {mode : Mode} {start s : Multiplexer} {n fd : Nat} {a : SelectAction}

theorem Multiplexer.Ready.kept (h : s.Ready) : s.Kept s.socket where
  socket := rfl
  standing := h.standing
  listens := by rw [h.handling, h.listens]; rfl
  watches := by rw [h.pc]; trivial
  ended := by rw [h.ended]; exact ⟨nofun, nofun⟩

namespace Multiplexer.Kept

/-- The lowest number is that of the socket while it is closed, and a higher one else. -/
theorem lowest (h : s.Kept n) (hfd : s.Lowest fd) : if s.handling then fd = n else n < fd := by
  have hge : n ≤ fd := by
    by_contra hlt
    cases (h.standing fd (Nat.lt_of_not_le hlt)).symm.trans hfd.1
  have hlistens := h.listens
  split at hlistens
  next hhandling =>
    rw [if_pos hhandling]
    refine Nat.le_antisymm ?_ hge
    by_contra hlt
    exact hfd.2 n (Nat.lt_of_not_le hlt) hlistens
  next hhandling =>
    rw [if_neg hhandling]
    refine Nat.lt_of_le_of_ne hge ?_
    rintro rfl
    cases hlistens.symm.trans hfd.1

/-- What is lent has a higher number than the socket. -/
theorem lent (h : s.Kept n) (hfd : s.table fd = some .lent) : n < fd := by
  rcases Nat.lt_trichotomy fd n with hlt | rfl | hlt
  · cases (h.standing fd hlt).symm.trans hfd
  · have hlistens := h.listens
    rw [hfd] at hlistens
    split at hlistens <;> cases hlistens
  · exact hlt

/-- The table changes above the socket. -/
theorem assign (h : s.Kept n) (hfd : n < fd) (use : Option Use) : (s.assign fd use).Kept n where
  socket := h.socket
  standing m hm := (Function.update_of_ne (by omega) ..).trans (h.standing m hm)
  listens := (Function.update_of_ne (by omega) ..).trans h.listens
  watches := h.watches
  ended := h.ended

theorem move (h : s.Kept n) (pc : SelectPc) (fdsSet : Nat → Bool) (hpc : pc.Watches fdsSet n) :
    Kept n { s with pc := pc, fdsSet := fdsSet } :=
  ⟨h.socket, h.standing, h.listens, hpc, h.ended⟩

theorem exit (h : s.Kept n) : (s.exit .callFailed).Kept n :=
  ⟨h.socket, h.standing, h.listens, h.watches, nofun, nofun⟩

theorem interrupt (h : s.Kept n) : s.interrupt.Kept n := by
  rw [Multiplexer.interrupt]
  split
  · exact h.move _ s.fdsSet trivial
  · exact h

theorem stepFdSet (h : s.Kept n) (hn : n < fdSetSize) (hpc : s.pc = .zeroed) : s.stepFdSet.Kept n := by
  have hzeroed := h.watches
  rw [hpc] at hzeroed
  rw [Multiplexer.stepFdSet, if_pos (h.socket ▸ hn)]
  refine h.move .set _ fun fd => ?_
  rw [h.socket]
  by_cases hfd : fd = n
  · rw [hfd, Function.update_self]
    exact iff_of_true rfl rfl
  · rw [Function.update_of_ne hfd, hzeroed fd]
    exact iff_of_false nofun hfd

theorem stepSelect (h : s.Kept n) (hhandling : s.handling = false) {nfds : Nat} (hpc : s.pc = .calling nfds) :
    s.stepSelect.Kept n := by
  have hwatches := h.watches
  rw [hpc] at hwatches
  have hopen : ¬ s.Bad nfds := by
    rintro ⟨fd, -, hset, hclosed⟩
    have hlistens := h.listens
    rw [hhandling, ← (hwatches.1 fd).mp hset, hclosed] at hlistens
    cases hlistens
  simp only [Multiplexer.stepSelect, hpc]
  rw [if_neg hopen]
  exact h.move _ s.fdsSet hwatches

theorem stepDispatch (h : s.Kept n) {newS : Nat} (hpc : s.pc = .accepted newS) (closes : Bool) :
    (s.stepDispatch mode closes).Kept n := by
  have hwatches := h.watches
  rw [hpc] at hwatches
  simp only [Multiplexer.stepDispatch, hpc]
  split
  · exact (h.assign hwatches none).move _ s.fdsSet trivial
  · exact h.move _ s.fdsSet trivial

theorem stepOpenSocket (h : s.Kept n) (hhandling : s.handling = true) {opened : Option Nat}
    (hopened : ∀ fd ∈ opened, s.Lowest fd) : (s.stepOpenSocket opened).Kept n := by
  cases opened with
  | none => exact h.exit
  | some fd =>
    have hfd := h.lowest (hopened fd rfl)
    rw [if_pos hhandling] at hfd
    subst hfd
    refine Kept.interrupt ⟨rfl, fun m hm => ?_, Function.update_self .., h.watches, h.ended⟩
    exact (Function.update_of_ne (Nat.ne_of_lt hm) ..).trans (h.standing m hm)

theorem close (h : s.Kept n) : Kept n { s.assign s.socket none with handling := true } := by
  refine ⟨h.socket, fun m hm => ?_, ?_, h.watches, h.ended⟩
  · rw [← h.socket] at hm
    exact (Function.update_of_ne (Nat.ne_of_lt hm) ..).trans (h.standing m (h.socket ▸ hm))
  · change Function.update s.table s.socket none n = none
    rw [h.socket, Function.update_self]

/-- Each step keeps the set right. -/
theorem next (h : s.Kept n) (hn : n < fdSetSize) (hok : s.Undisturbed a)
    (henabled : (selectLoop mode start).enabled s a) : ((selectLoop mode start).next s a).Kept n := by
  obtain ⟨-, hstep⟩ := henabled
  have hwatches := h.watches
  cases a with
  | fdZero => exact h.move _ _ fun _ => rfl
  | fdSet => exact h.stepFdSet hn hstep.2
  | loadNfds =>
    rw [hstep.2] at hwatches
    exact h.move _ s.fdsSet ⟨hwatches, by rw [h.socket]⟩
  | select =>
    obtain ⟨hhandling, nfds, hpc⟩ := hstep
    exact h.stepSelect hhandling hpc
  | ready fds =>
    obtain ⟨-, nfds, hpc, hsub, fd, hfd⟩ := hstep
    rw [hpc] at hwatches
    refine h.move _ fds fun m => ⟨fun hm => (hwatches.1 m).mp (hsub m hm).2, ?_⟩
    rintro rfl
    rwa [← (hwatches.1 fd).mp (hsub fd hfd).2]
  | fdIsset =>
    change Kept n { s with pc := if s.fdsSet s.socket then .accepting else .top }
    split <;> exact h.move _ s.fdsSet trivial
  | accept newS =>
    cases newS with
    | none => exact h.move _ s.fdsSet trivial
    | some newS =>
      have hfree := h.lowest (hstep.2.2 newS rfl).1
      rw [if_neg (by rw [hstep.1]; exact nofun)] at hfree
      exact (h.assign hfree (some .lent)).move _ s.fdsSet hfree
  | dispatch closes =>
    obtain ⟨-, newS, hpc⟩ := hstep
    exact h.stepDispatch hpc closes
  | fails => exact h.exit
  | sighup => exact h.interrupt
  | close => exact h.close
  | openSocket opened => exact h.stepOpenSocket hstep.1 hstep.2
  | otherOpen fd =>
    have hfree := h.lowest hstep.2
    rw [if_neg (by rw [show s.handling = false from hok]; exact nofun)] at hfree
    exact h.assign hfree (some .lent)
  | otherClose fd => exact h.assign (h.lent hstep.2) none

end Multiplexer.Kept

/-- As long as no other thread takes the number of the socket between `close` and `socket`, which in
process mode none can, the socket keeps its number through every reload, and `select` waits on it and on
nothing else. Then it never fails for a number that is closed, and `FD_SET` stays in the set. -/
theorem select_watches {ok : Multiplexer → SelectAction → Prop} (hstart : start.Ready)
    (hok : ∀ s a, ok s a → mode = .process ∨ s.Undisturbed a) (h : (selectLoop mode start).Reach ok s) :
    s.socket = start.socket ∧ (s.handling = false → s.table s.socket = some .listening) ∧
      (∀ nfds, s.pc = .blocked nfds → (∀ fd, s.fdsSet fd = true ↔ fd = s.socket) ∧ s.socket < nfds) ∧
      s.ended ≠ some .badDescriptor ∧ s.ended ≠ some .outOfSet := by
  have hkept : s.Kept start.socket := by
    refine h.invariant (I := Multiplexer.Kept start.socket) hstart.kept fun s a _ hs hstep henabled => ?_
    refine hs.next hstart.room ?_ henabled
    rcases hok s a hstep with rfl | hun
    · cases a <;> first | trivial | cases henabled.2.1
    · exact hun
  refine ⟨hkept.socket, fun hhandling => ?_, fun nfds hpc => ?_, hkept.ended⟩
  · have hlistens := hkept.listens
    rwa [hhandling, ← hkept.socket] at hlistens
  · have hwatches := hkept.watches
    rw [hpc, ← hkept.socket] at hwatches
    exact ⟨hwatches.1, by rw [hwatches.2]; exact Nat.lt_succ_self _⟩

end

/-- A server with its standard streams, the shared memory and the pipe, and the socket behind them. -/
def socketAt5 : Multiplexer where
  pc := .top
  handling := false
  fdsSet _ := false
  socket := 5
  table fd := if fd < 5 then some .standing else if fd = 5 then some .listening else none
  ended := none

theorem ready_socketAt5 : socketAt5.Ready where
  pc := rfl
  handling := rfl
  ended := rfl
  standing fd hfd := if_pos hfd
  listens := rfl
  room := by decide

/-- The server has put its socket into the set, and the handler has closed it. -/
theorem reach_closed (mode : Mode) (ok : Multiplexer → SelectAction → Prop)
    (hok : ∀ s, ok s .fdZero ∧ ok s .fdSet ∧ ok s .close) :
    (selectLoop mode socketAt5).Reach ok
      { socketAt5 with
        pc := .set
        handling := true
        fdsSet := Function.update (fun _ => false) 5 true
        table := Function.update socketAt5.table 5 none } := by
  have hinit : (selectLoop mode socketAt5).Reach ok socketAt5 := .init
  have hzero := hinit.next .fdZero (hok _).1 ⟨rfl, rfl, rfl⟩
  have hset := hzero.next .fdSet (hok _).2.1 ⟨rfl, rfl, rfl⟩
  exact hset.next .close (hok _).2.2 ⟨rfl, rfl⟩

/-- A reload between `FD_SET` and `select` leaves the set right. -/
theorem select_watches_reload :
    ∃ s, (selectLoop .process socketAt5).Reach (fun _ _ => True) s ∧ s.pc = .blocked 6 ∧
      ∀ fd, s.fdsSet fd = true ↔ fd = s.socket := by
  have hclosed := reach_closed .process (fun _ _ => True) fun _ => ⟨trivial, trivial, trivial⟩
  have hopened := hclosed.next (.openSocket (some 5)) trivial ⟨rfl, rfl, by
    rintro fd hfd
    cases hfd
    exact ⟨rfl, by decide⟩⟩
  have hnfds := hopened.next .loadNfds trivial ⟨rfl, rfl, rfl⟩
  have hselect := hnfds.next .select trivial ⟨rfl, rfl, _, rfl⟩
  refine ⟨_, hselect, by decide, ?_⟩
  exact ((select_watches ready_socketAt5 (fun _ _ _ => .inl rfl) hselect).2.2.1 6 (by decide)).1

/-- In thread mode the number can be taken. The set has the old number then, and the server ends when
that is closed. -/
theorem select_fails_of_taken :
    ∃ s, (selectLoop .thread socketAt5).Reach (fun _ _ => True) s ∧ s.ended = some .badDescriptor := by
  have hclosed := reach_closed .thread (fun _ _ => True) fun _ => ⟨trivial, trivial, trivial⟩
  have htaken := hclosed.next (.otherOpen 5) trivial ⟨rfl, rfl, rfl, by decide⟩
  have hopened := htaken.next (.openSocket (some 6)) trivial ⟨rfl, rfl, by
    rintro fd hfd
    cases hfd
    exact ⟨rfl, by decide⟩⟩
  have hfreed := hopened.next (.otherClose 5) trivial ⟨rfl, rfl, rfl⟩
  have hnfds := hfreed.next .loadNfds trivial ⟨rfl, rfl, rfl⟩
  exact ⟨_, hnfds.next .select trivial ⟨rfl, rfl, _, rfl⟩, by decide⟩

end Sacagawea
