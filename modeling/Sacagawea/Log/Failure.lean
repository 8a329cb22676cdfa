import Sacagawea.Log.Conservation

/-!
# A write that fails

Between its lock and its unlock a sender raises `cont`, writes the length of its record and writes
the record. When one of the writes returns an error, `thread_sender` ends the thread there, with the
mutex. A mutex is not released with the thread that owns it, so from then on no other sender and no
step of the log process gets past its lock, and `cont` stays ahead of the pipe.
-/

namespace Sacagawea

variable {ι : Type}

/-- The write that fails in the critical section of `i`. -/
def LogAction.Fails (i : ι) : LogAction ι → Prop
  | .failLen j | .failRecord j => j = i
  | _ => False

variable {cfg : LogConfig ι} {s : LogState ι} {a : LogAction ι} {i : ι}

theorem fails_of_not_transfers (h : ¬ a.Transfers) : ∃ i, a.Fails i := by
  cases a <;> first | exact absurd trivial h | exact ⟨_, rfl⟩

theorem fails_next [DecidableEq ι] (h : a.Fails i) : logNext cfg s a = s.move i .died := by
  cases a <;> first | exact h.elim | exact h ▸ rfl

theorem fails_cases (h : a.Fails i) (ha : logEnabled cfg s a) :
    a = .failLen i ∧ s.sender i = .counted ∨ a = .failRecord i ∧ s.sender i = .headed := by
  cases a <;> first | exact h.elim | skip
  case failLen j =>
    obtain rfl : j = i := h
    exact .inl ⟨rfl, ha⟩
  case failRecord j =>
    obtain rfl : j = i := h
    exact .inr ⟨rfl, ha⟩

/-- A write fails within the critical section, before the record is in the pipe. -/
theorem LogAction.Fails.writing (h : a.Fails i) (ha : logEnabled cfg s a) : (s.sender i).Writing := by
  rcases fails_cases h ha with ⟨-, hat⟩ | ⟨-, hat⟩ <;> rw [hat] <;> trivial

/-- Where a write can fail, the records of the others stand whole in the pipe, and `cont` is one ahead
of them. -/
theorem Represents.ahead {l : Ledger ι} (h : Represents cfg s l) (howned : Mutex.Owned s.Inside s.owner)
    (hfails : a.Fails i) (ha : logEnabled cfg s a) :
    s.cont = l.queued.length + 1 ∧ ∃ half, s.pipe = frames cfg l.queued ++ half ∧
      (half = [] ∨ a = .failRecord i ∧ half = encodeInt (cfg.text i).length) := by
  have hwriting := hfails.writing ha
  obtain ⟨-, unread, n, half, m, hread, hwrite, hpipe, hcont⟩ := h.writing_ends howned hwriting
  have hlog : ¬ s.log.Holds := fun hlog => no_sender_holds howned hlog i hwriting.holds
  obtain ⟨-, rfl, rfl⟩ := hread.rest_of_not_holds hlog
  rw [Nat.zero_add] at hcont
  rcases fails_cases hfails ha with ⟨-, hat⟩ | ⟨hrecord, hat⟩
  · cases hwrite with
    | locked hpc | headed hpc => exact nomatch hat.symm.trans hpc
    | counted => exact ⟨hcont, [], hpipe, .inl rfl⟩
  · cases hwrite with
    | locked hpc | counted hpc => exact nomatch hat.symm.trans hpc
    | headed => exact ⟨hcont, _, hpipe, .inr ⟨hrecord, rfl⟩⟩

/-- So the pipe has fewer whole records than `cont` says. -/
theorem Represents.cont_ahead {l : Ledger ι} (h : Represents cfg s l)
    (howned : Mutex.Owned s.Inside s.owner) (hfails : a.Fails i) (ha : logEnabled cfg s a)
    (htext : a = .failLen i ∨ cfg.text i ≠ []) :
    s.cont = (intHeader.unframe s.pipe).length + 1 := by
  obtain ⟨hcont, half, hpipe, hhalf⟩ := h.ahead howned hfails ha
  have hnone : intHeader.unframe half = [] := by
    rcases hhalf with rfl | ⟨rfl, rfl⟩
    · exact Header.unframe_nil
    · have hne : cfg.text i ≠ [] := htext.resolve_left nofun
      exact Header.unframe_encode (List.length_pos_iff.mpr hne) (cfg.record i).fits
  rw [hcont, hpipe, unframe_frames, hnone, List.append_nil, List.length_map]

/-! ### Behind the failure -/

variable [DecidableEq ι]

/-- With the mutex gone, the log process can be woken, and that is all. -/
theorem eq_wake_of_died (howned : Mutex.Owned s.Inside s.owner) (hi : s.sender i = .died)
    (ha : logEnabled cfg s a) : a = .wake := by
  have hholds : (s.sender i).Holds := by
    rw [hi]
    trivial
  have howner : s.owner = some (.sender i) := (howned (.sender i)).mp hholds
  have hsender : ∀ {j pc}, s.sender j = pc → pc.Holds → pc = .died := by
    rintro j pc rfl hj
    rw [only_sender_holds howned hholds hj]
    exact hi
  have hlog : ∀ {log}, s.log = log → ¬ log.Holds := by
    rintro log rfl hlog
    exact no_sender_holds howned hlog i hholds
  cases a with
  | lock j => exact nomatch howner.symm.trans ha.2
  | count j => exact nomatch hsender ha trivial
  | writeLen j => exact nomatch hsender ha.1 trivial
  | writeRecord j => exact nomatch hsender ha.1 trivial
  | signal j => exact nomatch hsender ha trivial
  | unlock j => exact nomatch hsender ha trivial
  | failLen j => exact nomatch hsender ha trivial
  | failRecord j => exact nomatch hsender ha trivial
  | logLock => exact nomatch howner.symm.trans ha.2
  | wait => rcases ha with hat | ⟨hat, -⟩ <;> exact absurd trivial (hlog hat)
  | wake => rfl
  | resume => exact nomatch howner.symm.trans ha.2
  | readLen => exact absurd trivial (hlog ha.1)
  | readBody n =>
    obtain ⟨_, _, hat, -⟩ := readBody_inv ha
    exact absurd trivial (hlog hat)
  | append =>
    obtain ⟨_, _, hat, -⟩ := append_inv ha
    exact absurd trivial (hlog hat)
  | next => exact absurd trivial (hlog ha)

/-- The records are on their way until a write has failed. -/
theorem represents_or_died (h : (logProtocol cfg).Reach (fun _ _ => True) s) :
    (∃ l, Represents cfg s l) ∨ ∃ i, s.sender i = .died := by
  refine h.invariant (I := fun s => (∃ l, Represents cfg s l) ∨ ∃ i, s.sender i = .died) ?_ ?_
  · exact .inl (represents_of_reach .init)
  · intro s a hs hor _ ha
    have howned := owned_of_reach hs
    rcases hor with ⟨l, hl⟩ | ⟨i, hi⟩
    · by_cases hok : a.Transfers
      · obtain ⟨l', -, hl'⟩ := hl.step howned hok ha
        exact .inl ⟨l', hl'⟩
      · obtain ⟨i, hi⟩ := fails_of_not_transfers hok
        refine .inr ⟨i, ?_⟩
        change (logNext cfg s a).sender i = .died
        rw [fails_next hi]
        exact Function.update_self ..
    · obtain rfl := eq_wake_of_died howned hi ha
      exact .inr ⟨i, hi⟩

/-- A write that fails in a reachable state leaves the mutex with the thread that has ended, and
`cont` one ahead of the pipe. From then on nobody takes a step but the log process, which can be
woken, and nothing else changes. -/
theorem failed_write_stops_log (h : (logProtocol cfg).Reach (fun _ _ => True) s) (hfails : a.Fails i)
    (ha : (logProtocol cfg).enabled s a) {actions : List (LogAction ι)}
    (hruns : (logProtocol cfg).Runs (fun _ _ => True) ((logProtocol cfg).next s a) actions) :
    let s' := (logProtocol cfg).after ((logProtocol cfg).next s a) actions
    s'.sender i = .died ∧ s'.owner = some (.sender i) ∧
      (a = .failLen i ∨ cfg.text i ≠ [] → s'.cont = (intHeader.unframe s'.pipe).length + 1) ∧
      (∀ b, (logProtocol cfg).enabled s' b → b = .wake) ∧
      s' = { s.move i .died with log := s'.log } := by
  intro s'
  have hreach : (logProtocol cfg).Reach (fun _ _ => True) s' := (h.step trivial ha).after hruns
  have howned := owned_of_reach hreach
  have hnext : (logProtocol cfg).next s a = s.move i .died := fails_next hfails
  have hsame : s' = { s.move i .died with log := s'.log } := by
    have hinv := hruns.invariant (I := fun t => Mutex.Owned t.Inside t.owner ∧
      t = { s.move i .died with log := t.log }) ?_ ?_
    · exact hinv.2
    · rw [hnext]
      exact ⟨hnext ▸ owned_next (owned_of_reach h) ha, rfl⟩
    · intro t b _ ⟨htowned, ht⟩ _ hb
      have hdied : t.sender i = .died := by
        rw [ht]
        exact Function.update_self ..
      obtain rfl := eq_wake_of_died htowned hdied hb
      have hlog : logEnabled cfg t .wake := hb
      refine ⟨owned_next htowned hlog, ?_⟩
      change { t with log := .woken } = { s.move i .died with log := .woken }
      rw [ht]
  have hdied : s'.sender i = .died := by
    rw [hsame]
    exact Function.update_self ..
  refine ⟨hdied, ?_, ?_, fun b hb => eq_wake_of_died howned hdied hb, hsame⟩
  · refine (howned (.sender i)).mp ?_
    change (s'.sender i).Holds
    rw [hdied]
    trivial
  · intro htext
    rw [hsame]
    rcases represents_or_died h with ⟨l, hl⟩ | ⟨j, hj⟩
    · exact hl.cont_ahead (owned_of_reach h) hfails ha htext
    · -- after an earlier failure there is no write that could fail
      obtain rfl := eq_wake_of_died (owned_of_reach h) hj ha
      exact hfails.elim

/-- The second sender waits while the first one takes the mutex and raises `cont`. -/
def firstCounted : List (LogAction Bool) := [.logLock, .wait, .lock false, .count false]

theorem firstCounted_runs :
    (logProtocol (twoSenders none)).Runs (fun _ _ => True) .start (firstCounted ++ [.failLen false]) := by
  decide

/-- The write of a length fails. The thread has ended and the pipe is empty, and yet the mutex is
taken, `cont` is one, and the second sender cannot go on. -/
theorem failed_write_keeps_mutex :
    (logProtocol (twoSenders none)).Runs (fun _ _ => True) .start (firstCounted ++ [.failLen false]) ∧
      let s := (logProtocol (twoSenders none)).after .start (firstCounted ++ [.failLen false])
      s.sender false = .died ∧ s.owner = some (.sender false) ∧ s.cont = 1 ∧
        intHeader.unframe s.pipe = [] ∧ s.sender true = .start ∧
        ¬ (logProtocol (twoSenders none)).enabled s (.lock true) :=
  ⟨firstCounted_runs, by decide⟩

theorem failed_write_stops_firstCounted :
    let s := (logProtocol (twoSenders none)).after .start (firstCounted ++ [.failLen false, .wake])
    s.owner = some (.sender false) ∧ s.cont = (intHeader.unframe s.pipe).length + 1 := by
  have hcounted : (logProtocol (twoSenders none)).Runs (fun _ _ => True) .start firstCounted := by
    decide
  have hreach := Transition.Reach.after .init hcounted
  have hwake : (logProtocol (twoSenders none)).Runs (fun _ _ => True)
      ((logProtocol (twoSenders none)).after .start (firstCounted ++ [.failLen false])) [.wake] := by
    decide
  have hfails : (LogAction.failLen false).Fails false := rfl
  have hstops := failed_write_stops_log hreach hfails (by decide) hwake
  exact ⟨hstops.2.1, hstops.2.2.1 (.inl rfl)⟩

end Sacagawea
