import Sacagawea.Log.Protocol

/-!
# The mutex of the log protocol

Which party owns the mutex can be read off where the parties stand: a sender from its lock to its
unlock, and the log process from its lock, or its return from a wait, to the next wait. Every step
of the protocol keeps this, the writes that fail included.
-/

namespace Sacagawea

variable {ι : Type}

/-- The positions at which a sender owns the mutex. One that died keeps it. -/
def SenderPc.Holds : SenderPc → Prop
  | .start | .done => False
  | _ => True

/-- The positions at which the log process owns the mutex. -/
def LogPc.Holds : LogPc → Prop
  | .start | .waiting | .woken => False
  | _ => True

/-- The parties at a position where they own the mutex. -/
def LogState.Inside (s : LogState ι) : Party ι → Prop
  | .sender i => (s.sender i).Holds
  | .log => s.log.Holds

variable [DecidableEq ι]

theorem inside_move_self (s : LogState ι) (i : ι) (pc : SenderPc) :
    (s.move i pc).Inside (.sender i) ↔ pc.Holds := by
  change (Function.update s.sender i pc i).Holds ↔ _
  rw [Function.update_self]

theorem inside_move_of_ne (s : LogState ι) (i : ι) (pc : SenderPc) {p : Party ι} (hp : p ≠ .sender i) :
    (s.move i pc).Inside p ↔ s.Inside p := by
  cases p with
  | log => exact Iff.rfl
  | sender j =>
    change (Function.update s.sender i pc j).Holds ↔ _
    rw [Function.update_of_ne fun h => hp (congrArg Party.sender h)]
    exact Iff.rfl

theorem inside_move {s : LogState ι} {i : ι} {old : SenderPc} (pc : SenderPc) (hold : s.sender i = old)
    (hpc : pc.Holds ↔ old.Holds) (p : Party ι) : (s.move i pc).Inside p ↔ s.Inside p := by
  by_cases hp : p = .sender i
  · subst hp
    rw [inside_move_self, hpc, ← hold]
    exact Iff.rfl
  · exact inside_move_of_ne s i pc hp

omit [DecidableEq ι] in
theorem inside_log {s s' : LogState ι} {log : LogPc} (h : log.Holds ↔ s.log.Holds)
    (hs' : s'.sender = s.sender ∧ s'.log = log) (p : Party ι) : s'.Inside p ↔ s.Inside p := by
  cases p with
  | log =>
    change s'.log.Holds ↔ _
    rw [hs'.2]
    exact h
  | sender j =>
    change (s'.sender j).Holds ↔ _
    rw [hs'.1]
    exact Iff.rfl

omit [DecidableEq ι] in
theorem inside_log_of_ne {s s' : LogState ι} {p : Party ι} (hp : p ≠ .log)
    (hs' : s'.sender = s.sender) : s'.Inside p ↔ s.Inside p := by
  cases p with
  | log => exact absurd rfl hp
  | sender j =>
    change (s'.sender j).Holds ↔ _
    rw [hs']
    exact Iff.rfl

/-- Every step keeps the mutex with the party that is inside. -/
theorem owned_next {cfg : LogConfig ι} {s : LogState ι} (h : Mutex.Owned s.Inside s.owner)
    {a : LogAction ι} (ha : logEnabled cfg s a) :
    Mutex.Owned (logNext cfg s a).Inside (logNext cfg s a).owner := by
  cases a with
  | lock i =>
    rw [ha.2] at h
    exact h.acquire (fun q hq => inside_move_of_ne s i .locked hq)
      ((inside_move_self s i .locked).mpr trivial)
  | count i => exact h.congr (inside_move .counted ha Iff.rfl)
  | writeLen i => exact h.congr (inside_move .headed ha.1 Iff.rfl)
  | writeRecord i => exact h.congr (inside_move .bodied ha.1 Iff.rfl)
  | failLen i => exact h.congr (inside_move .died ha Iff.rfl)
  | failRecord i => exact h.congr (inside_move .died ha Iff.rfl)
  | signal i =>
    have hmove := h.congr (inside_move .signalled ha Iff.rfl)
    refine hmove.congr (inside_log ?_ ⟨rfl, rfl⟩)
    change (if s.log = .waiting then LogPc.woken else s.log).Holds ↔ s.log.Holds
    split
    · rename_i hlog
      rw [hlog]
      exact Iff.rfl
    · exact Iff.rfl
  | unlock i =>
    have howner : s.owner = some (.sender i) := by
      rw [← h (.sender i), LogState.Inside, show s.sender i = .signalled from ha]
      trivial
    rw [howner] at h
    exact h.release (fun q hq => inside_move_of_ne s i .done hq)
      fun hin => (inside_move_self s i .done).mp hin
  | logLock =>
    rw [ha.2] at h
    exact h.acquire (fun q hq => inside_log_of_ne hq (by rfl)) trivial
  | wait =>
    have howner : s.owner = some .log := by
      rw [← h .log, LogState.Inside]
      rcases ha with hlog | ⟨hlog, -⟩ <;> (rw [hlog]; trivial)
    rw [howner] at h
    exact h.release (fun q hq => inside_log_of_ne hq (by rfl)) id
  | wake =>
    refine h.congr (inside_log ?_ ⟨by rfl, by rfl⟩)
    rw [show s.log = .waiting from ha]
    exact Iff.rfl
  | resume =>
    rw [ha.2] at h
    exact h.acquire (fun q hq => inside_log_of_ne hq (by rfl)) trivial
  | readLen =>
    refine h.congr (inside_log ?_ ⟨by rfl, by rfl⟩)
    rw [ha.1]
    exact Iff.rfl
  | readBody n =>
    obtain ⟨lenString, readLine, hlog, -, -, -, hnext⟩ := readBody_inv ha
    rw [hnext]
    refine h.congr (inside_log ?_ ⟨by rfl, by rfl⟩)
    rw [hlog]
    exact Iff.rfl
  | append =>
    obtain ⟨lenString, readLine, hlog, -, hnext⟩ := append_inv ha
    rw [hnext]
    refine h.congr (inside_log ?_ ⟨by rfl, by rfl⟩)
    rw [hlog]
    exact Iff.rfl
  | next =>
    refine h.congr (inside_log ?_ ⟨by rfl, by rfl⟩)
    rw [show s.log = .appended from ha]
    exact Iff.rfl

/-- In every state reached, the mutex is with the party that is inside. -/
theorem owned_of_reach {cfg : LogConfig ι} {ok : LogState ι → LogAction ι → Prop} {s : LogState ι}
    (h : (logProtocol cfg).Reach ok s) : Mutex.Owned s.Inside s.owner := by
  refine h.invariant (I := fun s => Mutex.Owned s.Inside s.owner) ?_
    fun s a _ hs _ ha => owned_next hs ha
  intro p
  cases p <;> exact iff_of_false id nofun

end Sacagawea
