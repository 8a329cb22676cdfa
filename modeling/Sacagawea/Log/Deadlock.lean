import Sacagawea.Log.Conservation

/-!
# When the log protocol deadlocks

A sender writes to the pipe while it has the mutex, and the log process needs the mutex to drain the
pipe. So a sender that takes the mutex when the pipe has no room for its record blocks in a write
that nothing can end. A run whose senders find room when they take the mutex never comes to that
(`not_deadlocked`), and a single one that does not can bring it about (`deadlock_of_lock`).
-/

namespace Sacagawea

variable {ι : Type}

/-- A sender has the mutex, and nobody can take a step. -/
def Deadlocked [DecidableEq ι] (cfg : LogConfig ι) (s : LogState ι) : Prop :=
  (∃ i, s.owner = some (.sender i)) ∧ ∀ a : LogAction ι, a.Transfers → ¬ logEnabled cfg s a

/-- A sender that takes the mutex finds room for its record and its header. -/
def FindsRoom (cfg : LogConfig ι) (s : LogState ι) : LogAction ι → Prop
  | .lock i => cfg.Fits (s.pipe.length + (4 + (cfg.text i).length))
  | _ => True

instance (cfg : LogConfig ι) (s : LogState ι) : (a : LogAction ι) → Decidable (FindsRoom cfg s a)
  | .lock _ => inferInstanceAs (Decidable (cfg.Fits _))
  | .count _ | .writeLen _ | .writeRecord _ | .signal _ | .unlock _ | .failLen _ | .failRecord _
  | .logLock | .wait | .wake | .resume | .readLen | .readBody _ | .append | .next => isTrue trivial

def toWrite (cfg : LogConfig ι) (i : ι) : SenderPc → Nat
  | .locked | .counted => 4 + (cfg.text i).length
  | .headed => (cfg.text i).length
  | _ => 0

/-- What a sender in its critical section has still to write fits the pipe, and no sender has died.
-/
def Roomy (cfg : LogConfig ι) (s : LogState ι) : Prop :=
  ∀ i, s.sender i ≠ .died ∧
    ((s.sender i).Writing → cfg.Fits (s.pipe.length + toWrite cfg i (s.sender i)))

theorem LogConfig.Fits.mono {cfg : LogConfig ι} {m n : Nat} (h : cfg.Fits n) (hle : m ≤ n) :
    cfg.Fits m :=
  fun c hc => hle.trans (h c hc)

variable [DecidableEq ι] {cfg : LogConfig ι} {s : LogState ι}

/-- A step of one sender keeps the room, if what it still has to write fits and the others write
nothing. -/
theorem Roomy.move (h : Roomy cfg s) (s' : LogState ι) {i : ι} {pc : SenderPc}
    (hsender : s'.sender = Function.update s.sender i pc) (hdied : pc ≠ .died)
    (hself : pc.Writing → cfg.Fits (s'.pipe.length + toWrite cfg i pc))
    (hothers : s'.pipe = s.pipe ∨ ∀ j, (s.sender j).Holds → j = i) : Roomy cfg s' := by
  intro j
  rw [hsender]
  by_cases hj : j = i
  · rw [hj, Function.update_self]
    exact ⟨hdied, hself⟩
  · rw [Function.update_of_ne hj]
    refine ⟨(h j).1, fun hw => ?_⟩
    rcases hothers with hpipe | hone
    · rw [hpipe]
      exact (h j).2 hw
    · exact absurd (hone j hw.holds) hj

omit [DecidableEq ι] in
theorem Roomy.shrink (h : Roomy cfg s) (s' : LogState ι) (hsender : s'.sender = s.sender)
    (hpipe : s'.pipe.length ≤ s.pipe.length) : Roomy cfg s' := by
  intro j
  rw [hsender]
  exact ⟨(h j).1, fun hw => ((h j).2 hw).mono (by omega)⟩

/-- Every step keeps the room, when a sender that takes the mutex finds it. -/
theorem Roomy.next (h : Roomy cfg s) (howned : Mutex.Owned s.Inside s.owner) {a : LogAction ι}
    (hok : a.Transfers ∧ FindsRoom cfg s a) (ha : logEnabled cfg s a) : Roomy cfg (logNext cfg s a) := by
  have hleft : ∀ {i pc}, s.sender i = pc → pc.Writing → cfg.Fits (s.pipe.length + toWrite cfg i pc) := by
    rintro i pc rfl hw
    exact (h i).2 hw
  have hone : ∀ {i pc}, s.sender i = pc → pc.Holds → ∀ j, (s.sender j).Holds → j = i := by
    rintro i pc rfl hi j hj
    exact only_sender_holds howned hi hj
  cases a with
  | lock i =>
    exact h.move (logNext cfg s (.lock i)) rfl (by decide) (fun _ => hok.2) (.inl rfl)
  | count i =>
    have hleft' : cfg.Fits (s.pipe.length + toWrite cfg i .locked) := hleft ha trivial
    exact h.move (logNext cfg s (.count i)) rfl (by decide) (fun _ => hleft') (.inl rfl)
  | writeLen i =>
    refine h.move (logNext cfg s (.writeLen i)) rfl (by decide) (fun _ => ?_) (.inr (hone ha.1 trivial))
    refine (hleft ha.1 trivial).mono ?_
    change (s.pipe ++ encodeInt _).length + (cfg.text i).length ≤
      s.pipe.length + (4 + (cfg.text i).length)
    rw [List.length_append, show (encodeInt (cfg.text i).length).length = 4 from rfl]
    omega
  | writeRecord i =>
    exact h.move (logNext cfg s (.writeRecord i)) rfl (by decide) nofun (.inr (hone ha.1 trivial))
  | signal i =>
    exact h.move (logNext cfg s (.signal i)) rfl (by decide) nofun (.inl rfl)
  | unlock i =>
    exact h.move (logNext cfg s (.unlock i)) rfl (by decide) nofun (.inl rfl)
  | failLen i => exact hok.1.elim
  | failRecord i => exact hok.1.elim
  | logLock | wait | wake | resume | next => exact h
  | readLen => exact h.shrink _ rfl (List.drop_sublist 4 s.pipe).length_le
  | readBody n =>
    obtain ⟨_, _, -, -, -, -, hnext⟩ := readBody_inv ha
    rw [hnext]
    exact h.shrink _ rfl (List.drop_sublist n s.pipe).length_le
  | append =>
    obtain ⟨_, _, -, -, hnext⟩ := append_inv ha
    rw [hnext]
    exact h

theorem roomy_of_reach (h : (logProtocol cfg).Reach (fun s a => a.Transfers ∧ FindsRoom cfg s a) s) :
    Roomy cfg s :=
  h.invariant (I := Roomy cfg) (fun i => ⟨by simp [logProtocol, LogState.start], False.elim⟩)
    fun _ _ hs hroomy hok ha => hroomy.next (owned_of_reach hs) hok ha

omit [DecidableEq ι] in
theorem Roomy.sender_steps (h : Roomy cfg s) {i : ι} (hi : (s.sender i).Holds) :
    ∃ a : LogAction ι, a.Transfers ∧ logEnabled cfg s a := by
  obtain ⟨hdied, hleft⟩ := h i
  cases hpc : s.sender i with
  | start => exact (hpc ▸ hi).elim
  | done => exact (hpc ▸ hi).elim
  | died => exact absurd hpc hdied
  | locked => exact ⟨.count i, trivial, hpc⟩
  | counted =>
    rw [hpc] at hleft
    exact ⟨.writeLen i, trivial, hpc, (hleft trivial).mono (by rw [toWrite]; omega)⟩
  | headed =>
    rw [hpc] at hleft
    exact ⟨.writeRecord i, trivial, hpc, hleft trivial⟩
  | bodied => exact ⟨.signal i, trivial, hpc⟩
  | signalled => exact ⟨.unlock i, trivial, hpc⟩

/-- In a run whose senders find room for their record when they take the mutex, no state is a
deadlock. -/
theorem not_deadlocked (h : (logProtocol cfg).Reach (fun s a => a.Transfers ∧ FindsRoom cfg s a) s) :
    ¬ Deadlocked cfg s := by
  rintro ⟨⟨i, howner⟩, hstuck⟩
  have hi : (s.sender i).Holds := (owned_of_reach h (.sender i)).mpr howner
  obtain ⟨a, hok, ha⟩ := (roomy_of_reach h).sender_steps hi
  exact hstuck a hok ha

/-! ### How a deadlock comes about -/

/-- A sender whose write is blocked, with the log process not in its wait, leaves nobody a step. -/
theorem deadlocked_of_blocked (howned : Mutex.Owned s.Inside s.owner) (hlog : s.log ≠ .waiting) {i : ι}
    (hblocked : s.sender i = .counted ∧ ¬ cfg.Fits (s.pipe.length + 4) ∨
      s.sender i = .headed ∧ ¬ cfg.Fits (s.pipe.length + (cfg.text i).length)) :
    Deadlocked cfg s := by
  have hi : (s.sender i).Holds := by
    rcases hblocked with ⟨hpc, -⟩ | ⟨hpc, -⟩ <;> (rw [hpc]; trivial)
  have howner : s.owner = some (.sender i) := (howned (.sender i)).mp hi
  have hfree : s.owner ≠ none := by
    rw [howner]
    exact Option.some_ne_none _
  have hlogout : ¬ s.log.Holds := fun hin => no_sender_holds howned hin i hi
  -- another sender is outside, and this one stands before its write
  have hother : ∀ {j pc}, s.sender j = pc → pc.Holds →
      pc = .counted ∧ ¬ cfg.Fits (s.pipe.length + 4) ∨
        pc = .headed ∧ ¬ cfg.Fits (s.pipe.length + (cfg.text j).length) := by
    rintro j pc rfl hj
    rw [only_sender_holds howned hi hj]
    exact hblocked
  refine ⟨⟨i, howner⟩, fun a hok ha => ?_⟩
  cases a with
  | lock j => exact hfree ha.2
  | count j => rcases hother ha trivial with ⟨h, -⟩ | ⟨h, -⟩ <;> cases h
  | writeLen j =>
    rcases hother ha.1 trivial with ⟨-, h⟩ | ⟨h, -⟩
    · exact h ha.2
    · cases h
  | writeRecord j =>
    rcases hother ha.1 trivial with ⟨h, -⟩ | ⟨-, h⟩
    · cases h
    · exact h ha.2
  | signal j => rcases hother ha trivial with ⟨h, -⟩ | ⟨h, -⟩ <;> cases h
  | unlock j => rcases hother ha trivial with ⟨h, -⟩ | ⟨h, -⟩ <;> cases h
  | failLen j => exact hok
  | failRecord j => exact hok
  | logLock => exact hfree ha.2
  | wait => exact hlogout (by rcases ha with h | ⟨h, -⟩ <;> (rw [h]; trivial))
  | wake => exact hlog ha
  | resume => exact hfree ha.2
  | readLen => exact hlogout (by rw [ha.1]; trivial)
  | readBody n =>
    obtain ⟨_, _, h, -⟩ := readBody_inv ha
    exact hlogout (by rw [h]; trivial)
  | append =>
    obtain ⟨_, _, h, -⟩ := append_inv ha
    exact hlogout (by rw [h]; trivial)
  | next => exact hlogout (by rw [show s.log = .appended from ha]; trivial)

/-- A blocked sender deadlocks the protocol: at once, or when the log process has been woken. -/
theorem deadlock_of_blocked (h : (logProtocol cfg).Reach (fun _ a => a.Transfers) s) {i : ι}
    (hblocked : s.sender i = .counted ∧ ¬ cfg.Fits (s.pipe.length + 4) ∨
      s.sender i = .headed ∧ ¬ cfg.Fits (s.pipe.length + (cfg.text i).length)) :
    ∃ s', (logProtocol cfg).Reach (fun _ a => a.Transfers) s' ∧ Deadlocked cfg s' := by
  by_cases hlog : s.log = .waiting
  · have hwoken := h.next .wake trivial hlog
    exact ⟨_, hwoken, deadlocked_of_blocked (owned_of_reach hwoken) nofun hblocked⟩
  · exact ⟨s, h, deadlocked_of_blocked (owned_of_reach h) hlog hblocked⟩

/-- Where a sender can take the mutex without room for its record, a deadlock can follow. -/
theorem deadlock_of_lock (h : (logProtocol cfg).Reach (fun _ a => a.Transfers) s) {i : ι}
    (ha : logEnabled cfg s (.lock i)) (hroom : ¬ FindsRoom cfg s (.lock i)) :
    ∃ s', (logProtocol cfg).Reach (fun _ a => a.Transfers) s' ∧ Deadlocked cfg s' := by
  have hlocked := h.next (.lock i) trivial ha
  have hcounted := hlocked.next (.count i) trivial (Function.update_self ..)
  by_cases hheader : cfg.Fits (s.pipe.length + 4)
  · have hheaded := hcounted.next (.writeLen i) trivial ⟨Function.update_self .., hheader⟩
    refine deadlock_of_blocked hheaded (.inr ⟨Function.update_self .., fun hfits => hroom ?_⟩)
    refine LogConfig.Fits.mono hfits ?_
    change _ ≤ (s.pipe ++ encodeInt (cfg.text i).length).length + _
    rw [List.length_append, show (encodeInt (cfg.text i).length).length = 4 from rfl]
    omega
  · exact deadlock_of_blocked hcounted (.inl ⟨Function.update_self .., hheader⟩)

/-- In a pipe of 8 bytes, the second of two senders takes the mutex before the woken log process,
and blocks. -/
theorem deadlock_of_two_senders :
    ∃ s, (logProtocol (twoSenders (some 8))).Reach (fun _ a => a.Transfers) s ∧
      Deadlocked (twoSenders (some 8)) s := by
  have hruns : (logProtocol (twoSenders (some 8))).Runs (fun _ a => a.Transfers) .start
      ([.logLock, .wait] ++ transfer false ++ [.lock true, .count true]) := by
    decide
  have hreach := Transition.Reach.after .init hruns
  exact ⟨_, hreach, deadlocked_of_blocked (i := true) (owned_of_reach hreach) (by decide)
    (.inl (by decide))⟩

theorem not_deadlocked_two_senders :
    ∃ s, (logProtocol (twoSenders (some 16))).Reach
        (fun s a => a.Transfers ∧ FindsRoom (twoSenders (some 16)) s a) s ∧
      s.owner = some (.sender true) ∧ ¬ Deadlocked (twoSenders (some 16)) s := by
  have hruns : (logProtocol (twoSenders (some 16))).Runs
      (fun s a => a.Transfers ∧ FindsRoom (twoSenders (some 16)) s a) .start
      ([.logLock, .wait] ++ transfer false ++ [.lock true, .count true]) := by
    decide
  have hreach := Transition.Reach.after .init hruns
  exact ⟨_, hreach, by decide, not_deadlocked hreach⟩

end Sacagawea
