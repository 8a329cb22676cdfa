import Sacagawea.Log.Deadlock

/-!
# When a wake-up of the log process is lost

`cont` is there so that a signal the log process misses is made up for later, but `log_management`
waits for its first signal without looking at `cont`. A sender that is done before the log process
takes the mutex for the first time signals nobody, and its record stays in the pipe until another
transfer. That is the only way: once the log process has taken the mutex, it never waits while a
record is in the pipe and nobody is about to signal.
-/

namespace Sacagawea

variable {ι : Type} [DecidableEq ι]

/-- The log process is blocked without a wake-up pending, no sender is in its critical section, and
there is something to read. -/
def WakeUpLost (s : LogState ι) : Prop :=
  s.log = .waiting ∧ (∀ i, ¬ (s.sender i).Holds) ∧ ¬ (s.cont = 0 ∧ s.pipe = [])

/-- A sender takes the mutex after the log process has taken it for the first time. -/
def AfterStart (s : LogState ι) : LogAction ι → Prop
  | .lock _ => s.log ≠ .start
  | _ => True

instance (s : LogState ι) : (a : LogAction ι) → Decidable (AfterStart s a)
  | .lock _ => inferInstanceAs (Decidable (_ ≠ _))
  | .count _ | .writeLen _ | .writeRecord _ | .signal _ | .unlock _ | .failLen _ | .failRecord _
  | .logLock | .wait | .wake | .resume | .readLen | .readBody _ | .append | .next => isTrue trivial

/-- The sender has counted its record and not signalled yet. -/
def SenderPc.Owes : SenderPc → Prop
  | .counted | .headed | .bodied | .died => True
  | _ => False

/-- The log process waits for its first signal with nothing to read, and for each later one with
nothing to read or a sender that owes it a signal. -/
structure Awaited (s : LogState ι) : Prop where
  start : s.log = .start → ∀ i, s.sender i = .start
  first : s.log = .start ∨ s.log = .holding → s.cont = 0
  later : s.log = .waiting → (∀ i, ¬ (s.sender i).Owes) → s.cont = 0

variable {cfg : LogConfig ι} {s : LogState ι}

/-- A sender that moves and owes a signal now, or owed none before. -/
theorem Awaited.move (h : Awaited s) (s' : LogState ι) {i : ι} {pc old : SenderPc}
    (hi : s.sender i = old) (hsender : s'.sender = Function.update s.sender i pc)
    (hlog : s'.log = s.log) (hout : s.log ≠ .start)
    (hcont : s'.cont = s.cont ∨ s.log ≠ .holding) (howes : pc.Owes ∨ s'.cont = s.cont ∧ ¬ old.Owes) :
    Awaited s' := by
  refine ⟨fun hstart => absurd (hlog ▸ hstart) hout, ?_, ?_⟩
  · rw [hlog]
    rintro (hstart | hholding)
    · exact absurd hstart hout
    · rcases hcont with hcont | hne
      · exact hcont.trans (h.first (.inr hholding))
      · exact absurd hholding hne
  · rw [hlog, hsender]
    intro hwaiting hnone
    rcases howes with howes | ⟨hcont', hold⟩
    · exact absurd howes (by simpa using hnone i)
    · refine hcont'.trans (h.later hwaiting fun j hj => ?_)
      by_cases hji : j = i
      · rw [hji, hi] at hj
        exact hold hj
      · have hj' := hnone j
        rw [Function.update_of_ne hji] at hj'
        exact hj' hj

theorem Awaited.next (h : Awaited s) (howned : Mutex.Owned s.Inside s.owner) {a : LogAction ι}
    (hok : a.Transfers ∧ AfterStart s a) (ha : logEnabled cfg s a) : Awaited (logNext cfg s a) := by
  have hstarted : ∀ {i pc}, s.sender i = pc → pc ≠ .start → s.log ≠ .start := by
    rintro i pc rfl hpc hstart
    exact hpc (h.start hstart i)
  cases a with
  | lock i => exact h.move (logNext cfg s (.lock i)) ha.1 rfl rfl hok.2 (.inl rfl) (.inr ⟨rfl, id⟩)
  | count i =>
    have hi : s.sender i = .locked := ha
    have hlogout : s.log ≠ .holding := by
      intro hholding
      refine no_sender_holds howned (show s.log.Holds by rw [hholding]; trivial) i ?_
      rw [hi]
      trivial
    exact h.move (logNext cfg s (.count i)) hi rfl rfl (hstarted hi (by decide)) (.inr hlogout)
      (.inl trivial)
  | writeLen i =>
    exact h.move (logNext cfg s (.writeLen i)) ha.1 rfl rfl (hstarted ha.1 (by decide)) (.inl rfl)
      (.inl trivial)
  | writeRecord i =>
    exact h.move (logNext cfg s (.writeRecord i)) ha.1 rfl rfl (hstarted ha.1 (by decide)) (.inl rfl)
      (.inl trivial)
  | signal i =>
    have hi : s.sender i = .bodied := ha
    have hout := hstarted hi (by decide)
    by_cases hwaiting : s.log = .waiting
    · have hwoken : (logNext cfg s (.signal i)).log = .woken := if_pos hwaiting
      exact ⟨by rw [hwoken]; nofun, by rw [hwoken]; nofun, by rw [hwoken]; nofun⟩
    · have hsame : (logNext cfg s (.signal i)).log = s.log := if_neg hwaiting
      exact ⟨by rw [hsame]; exact fun hstart => absurd hstart hout, by rw [hsame]; exact h.first,
        by rw [hsame]; exact fun h => absurd h hwaiting⟩
  | unlock i =>
    have hi : s.sender i = .signalled := ha
    exact h.move (logNext cfg s (.unlock i)) hi rfl rfl (hstarted hi (by decide)) (.inl rfl)
      (.inr ⟨rfl, id⟩)
  | failLen i => exact hok.1.elim
  | failRecord i => exact hok.1.elim
  | logLock => exact ⟨nofun, fun _ => h.first (.inl ha.1), nofun⟩
  | wait =>
    refine ⟨nofun, nofun, fun _ _ => ?_⟩
    rcases ha with hholding | ⟨-, hcont⟩
    · exact h.first (.inr hholding)
    · exact hcont
  | wake | resume | readLen | next => exact ⟨nofun, nofun, nofun⟩
  | readBody n =>
    obtain ⟨_, _, -, -, -, -, hnext⟩ := readBody_inv ha
    rw [hnext]
    exact ⟨nofun, nofun, nofun⟩
  | append =>
    obtain ⟨_, _, -, -, hnext⟩ := append_inv ha
    rw [hnext]
    exact ⟨nofun, nofun, nofun⟩

theorem awaited_of_reach (h : (logProtocol cfg).Reach (fun s a => a.Transfers ∧ AfterStart s a) s) :
    Awaited s :=
  h.invariant (I := Awaited) ⟨fun _ _ => rfl, fun _ => rfl, fun _ _ => rfl⟩
    fun _ _ hs hawaited hok ha => hawaited.next (owned_of_reach hs) hok ha

theorem SenderPc.Owes.holds {pc : SenderPc} (h : pc.Owes) : pc.Holds := by
  cases pc <;> trivial

/-- In a run whose senders take the mutex after the log process has taken it for the first time, no
wake-up is lost. -/
theorem not_wakeUpLost (h : (logProtocol cfg).Reach (fun s a => a.Transfers ∧ AfterStart s a) s) :
    ¬ WakeUpLost s := by
  rintro ⟨hwaiting, hnone, hlost⟩
  obtain ⟨l, hl⟩ := represents_of_reach (h.mono fun _ _ hok => hok.1)
  have howned := owned_of_reach h
  have hcont : s.cont = 0 :=
    (awaited_of_reach h).later hwaiting fun i howes => hnone i howes.holds
  have hfree : s.owner = none := by
    cases howner : s.owner with
    | none => rfl
    | some p =>
      have hin := (howned p).mpr howner
      cases p with
      | sender i => exact absurd hin (hnone i)
      | log => exact absurd hin (by rw [LogState.Inside, hwaiting]; exact id)
  obtain ⟨hpipe, hcount⟩ := hl.free howned hfree
  have hqueued : l.queued = [] := List.eq_nil_of_length_eq_zero (hcount ▸ hcont)
  exact hlost ⟨hcont, by rw [hpipe, hqueued]; rfl⟩

/-- A sender that takes the mutex before the log process, with room for its record, can lose its
signal. -/
theorem wakeUpLost_of_early (h : (logProtocol cfg).Reach (fun _ a => a.Transfers) s)
    (hstart : s.log = .start) {i : ι} (ha : logEnabled cfg s (.lock i))
    (hroom : FindsRoom cfg s (.lock i)) :
    ∃ s', (logProtocol cfg).Reach (fun _ a => a.Transfers) s' ∧ WakeUpLost s' := by
  have hroom' : cfg.Fits (s.pipe.length + (4 + (cfg.text i).length)) := hroom
  have hlog : (if s.log = .waiting then LogPc.woken else s.log) = .start := by rw [hstart]; rfl
  have hlocked := h.next (.lock i) trivial ha
  have hcounted := hlocked.next (.count i) trivial (Function.update_self ..)
  have hheaded := hcounted.next (.writeLen i) trivial ⟨Function.update_self .., hroom'.mono (by
    change s.pipe.length + 4 ≤ _
    omega)⟩
  have hbodied := hheaded.next (.writeRecord i) trivial ⟨Function.update_self .., hroom'.mono (by
    change (s.pipe ++ encodeInt (cfg.text i).length).length + _ ≤ _
    rw [List.length_append, show (encodeInt (cfg.text i).length).length = 4 from rfl]
    omega)⟩
  have hsignalled := hbodied.next (.signal i) trivial (Function.update_self ..)
  have hdone := hsignalled.next (.unlock i) trivial (Function.update_self ..)
  have hholding := hdone.next .logLock trivial ⟨hlog, rfl⟩
  have hwaiting := hholding.next .wait trivial (.inl rfl)
  refine ⟨_, hwaiting, rfl, fun j hj => ?_, fun hlost => ?_⟩
  · exact nomatch (owned_of_reach hwaiting (.sender j)).mp hj
  · exact absurd hlost.1 (Nat.succ_ne_zero s.cont)

/-- A sender is done before the log process takes the mutex, which then waits with the record in the
pipe. -/
theorem wakeUpLost_at_start :
    ∃ s, (logProtocol (twoSenders none)).Reach (fun _ a => a.Transfers) s ∧ WakeUpLost s := by
  have hruns : (logProtocol (twoSenders none)).Runs (fun _ a => a.Transfers) .start
      (transfer false ++ [.logLock, .wait]) := by
    decide
  have hreach := Transition.Reach.after .init hruns
  refine ⟨_, hreach, by decide, fun i => ?_, by decide⟩
  cases i <;> exact id

/-- A sender that comes after the first wait of the log process, whose record is then logged. -/
theorem not_wakeUpLost_two_senders :
    ∃ s, (logProtocol (twoSenders none)).Reach (fun s a => a.Transfers ∧ AfterStart s a) s ∧
      s.logFile = bytes "a" ∧ s.log = .waiting ∧ ¬ WakeUpLost s := by
  have hruns : (logProtocol (twoSenders none)).Runs (fun s a => a.Transfers ∧ AfterStart s a) .start
      ([.logLock, .wait] ++ transfer false ++
        [.resume, .readLen, .readBody 1, .append, .next, .wait]) := by
    decide
  have hreach := Transition.Reach.after .init hruns
  exact ⟨_, hreach, by decide, by decide, not_wakeUpLost hreach⟩

end Sacagawea
