import Sacagawea.Log.Ledger

/-!
# The log keeps every record

Each step of the protocol moves the ledger on by one record at most. The mutex keeps the two ends of
the pipe apart: while a sender writes, the log process is at rest, and while the log process reads,
nothing is half written. So whatever the interleaving, what is logged, in hand and in the pipe is
what the senders wrote, in the order they took the mutex.
-/

namespace Sacagawea

variable {ι : Type}

/-- Every step but a write that fails. -/
def LogAction.Transfers : LogAction ι → Prop
  | .failLen _ | .failRecord _ => False
  | _ => True

instance (a : LogAction ι) : Decidable a.Transfers := by
  cases a <;> first | exact isFalse id | exact isTrue trivial

variable [DecidableEq ι]

theorem written_move {sender : ι → SenderPc} {senders : List ι}
    (h : ∀ j ∈ senders, (sender j).Written) {i : ι} {pc : SenderPc}
    (hpc : (sender i).Written → pc.Written) :
    ∀ j ∈ senders, (Function.update sender i pc j).Written := by
  intro j hj
  by_cases hji : j = i
  · subst hji
    rw [Function.update_self]
    exact hpc (h j hj)
  · rw [Function.update_of_ne hji]
    exact h j hj

section

variable {cfg : LogConfig ι} {s : LogState ι} {l : Ledger ι}

omit [DecidableEq ι] in
theorem no_sender_holds (howned : Mutex.Owned s.Inside s.owner) (hlog : s.log.Holds) (i : ι) :
    ¬ (s.sender i).Holds := by
  intro hi
  cases howned.unique (p := .sender i) (q := .log) hi hlog

omit [DecidableEq ι] in
theorem only_sender_holds (howned : Mutex.Owned s.Inside s.owner) {i j : ι} (hi : (s.sender i).Holds)
    (hj : (s.sender j).Holds) : j = i :=
  Party.sender.inj (howned.unique (p := .sender j) (q := .sender i) hj hi)

omit [DecidableEq ι] in
theorem nobody_holds (howned : Mutex.Owned s.Inside s.owner) (hfree : s.owner = none) :
    (∀ i, ¬ (s.sender i).Holds) ∧ ¬ s.log.Holds := by
  rw [hfree] at howned
  refine ⟨fun i hi => ?_, fun hlog => ?_⟩
  · cases (howned (.sender i)).mp hi
  · cases (howned .log).mp hlog

/-! ### The steps of a sender -/

omit [DecidableEq ι] in
theorem Represents.writing_ends (h : Represents cfg s l) (howned : Mutex.Owned s.Inside s.owner)
    {i : ι} (hi : (s.sender i).Writing) :
    l.pending = some i ∧ ∃ unread n half m, ReadingEnd cfg s.log l.inHand unread n ∧
      WritingEnd cfg s.sender (some i) half m ∧ s.pipe = unread ++ frames cfg l.queued ++ half ∧
      s.cont = n + l.queued.length + m := by
  obtain ⟨unread, n, half, m, hread, hwrite, hpipe, hcont⟩ := h.ends
  have hpending := hwrite.pending_eq hi fun j hj => only_sender_holds howned hi.holds hj
  rw [hpending] at hwrite
  exact ⟨hpending, unread, n, half, m, hread, hwrite, hpipe, hcont⟩

theorem Represents.lock (h : Represents cfg s l) (howned : Mutex.Owned s.Inside s.owner) {i : ι}
    (hi : s.sender i = .start) (hfree : s.owner = none) :
    ∃ l', l.Step l' ∧ Represents cfg (logNext cfg s (.lock i)) l' := by
  obtain ⟨unread, n, half, m, hread, hwrite, hpipe, hcont⟩ := h.ends
  obtain ⟨hpending, rfl, rfl⟩ := hwrite.rest_of_not_holds (nobody_holds howned hfree).1
  refine ⟨{ l with pending := some i }, .announce hpending, ?_, ?_, h.logFile, ?_⟩
  · change s.taken ++ [i] = _
    rw [h.taken, Ledger.order, hpending, Option.toList_none, List.append_nil]
    rfl
  · exact written_move h.settled fun hw => absurd hw (by rw [hi]; exact id)
  · exact ⟨unread, n, [], 0, hread, .locked (Function.update_self ..), hpipe, hcont⟩

theorem Represents.count (h : Represents cfg s l) (howned : Mutex.Owned s.Inside s.owner) {i : ι}
    (hi : s.sender i = .locked) : Represents cfg (logNext cfg s (.count i)) l := by
  obtain ⟨hpending, unread, n, half, m, hread, hwrite, hpipe, hcont⟩ :=
    h.writing_ends howned (show (s.sender i).Writing by rw [hi]; trivial)
  cases hwrite with
  | counted hpc => exact nomatch hi.symm.trans hpc
  | headed hpc => exact nomatch hi.symm.trans hpc
  | locked =>
    refine ⟨h.taken, ?_, h.logFile, unread, n, [], 1, hread, ?_, hpipe, ?_⟩
    · exact written_move h.settled fun hw => absurd hw (by rw [hi]; exact id)
    · rw [hpending]
      exact .counted (Function.update_self ..)
    · change s.cont + 1 = _
      omega

theorem Represents.writeLen (h : Represents cfg s l) (howned : Mutex.Owned s.Inside s.owner) {i : ι}
    (hi : s.sender i = .counted) : Represents cfg (logNext cfg s (.writeLen i)) l := by
  obtain ⟨hpending, unread, n, half, m, hread, hwrite, hpipe, hcont⟩ :=
    h.writing_ends howned (show (s.sender i).Writing by rw [hi]; trivial)
  cases hwrite with
  | locked hpc => exact nomatch hi.symm.trans hpc
  | headed hpc => exact nomatch hi.symm.trans hpc
  | counted =>
    refine ⟨h.taken, ?_, h.logFile, unread, n, encodeInt (cfg.text i).length, 1, hread, ?_, ?_, hcont⟩
    · exact written_move h.settled fun hw => absurd hw (by rw [hi]; exact id)
    · rw [hpending]
      exact .headed (Function.update_self ..)
    · change s.pipe ++ _ = _
      rw [hpipe, List.append_nil]

theorem Represents.writeRecord (h : Represents cfg s l) (howned : Mutex.Owned s.Inside s.owner) {i : ι}
    (hi : s.sender i = .headed) :
    ∃ l', l.Step l' ∧ Represents cfg (logNext cfg s (.writeRecord i)) l' := by
  have hwriting : (s.sender i).Writing := by rw [hi]; trivial
  obtain ⟨hpending, unread, n, half, m, hread, hwrite, hpipe, hcont⟩ := h.writing_ends howned hwriting
  cases hwrite with
  | locked hpc => exact nomatch hi.symm.trans hpc
  | counted hpc => exact nomatch hi.symm.trans hpc
  | headed =>
    refine ⟨{ l with queued := l.queued ++ [i], pending := none }, .write hpending, ?_, ?_, h.logFile,
      unread, n, [], 0, hread, .rest ?_, ?_, ?_⟩
    · rw [show (logNext cfg s (.writeRecord i)).taken = s.taken from rfl, h.taken]
      simp [Ledger.order, Ledger.written, hpending]
    · intro j hj
      have hmem : j ∈ l.written ∨ j = i := by
        simpa [Ledger.written, or_assoc] using hj
      rcases hmem with hmem | rfl
      · have hbodied : SenderPc.bodied.Written := trivial
        exact written_move h.settled (fun _ => hbodied) j hmem
      · change (Function.update s.sender j .bodied j).Written
        rw [Function.update_self]
        trivial
    · intro j hj
      change (Function.update s.sender i .bodied j).Writing at hj
      by_cases hji : j = i
      · rw [hji, Function.update_self] at hj
        exact hj
      · rw [Function.update_of_ne hji] at hj
        exact hji (only_sender_holds howned hwriting.holds hj.holds)
    · change s.pipe ++ cfg.text i = _
      rw [hpipe, frames_append, frames_cons]
      simp [frames]
    · change s.cont = _
      rw [hcont, List.length_append, List.length_singleton]
      omega

/-- Behind its writes a sender moves without touching the pipe. -/
theorem Represents.move (h : Represents cfg s l) {i : ι} (pc : SenderPc)
    (hold : (s.sender i).Written) (hnew : pc.Written) {log : LogPc} {owner : Option (Party ι)}
    (hlog : log = s.log ∨ s.log.AtRest ∧ log.AtRest) :
    Represents cfg { s.move i pc with log := log, owner := owner } l := by
  obtain ⟨unread, n, half, m, hread, hwrite, hpipe, hcont⟩ := h.ends
  refine ⟨h.taken, written_move h.settled fun _ => hnew, h.logFile, unread, n, half, m, ?_, ?_, hpipe,
    hcont⟩
  · rcases hlog with rfl | ⟨hrest, hrest'⟩
    · exact hread
    · exact hread.at_rest hrest hrest'
  · exact hwrite.move hold.not_writing hnew.not_writing

/-! ### The steps of the log process -/

omit [DecidableEq ι] in
theorem Represents.wait (h : Represents cfg s l) {log : LogPc} {owner : Option (Party ι)}
    (hrest : s.log.AtRest) (hrest' : log.AtRest) :
    Represents cfg { s with log := log, owner := owner } l := by
  obtain ⟨unread, n, half, m, hread, hwrite, hpipe, hcont⟩ := h.ends
  exact ⟨h.taken, h.settled, h.logFile, unread, n, half, m, hread.at_rest hrest hrest', hwrite, hpipe,
    hcont⟩

omit [DecidableEq ι] in
/-- The ends of the pipe while the log process has the mutex: nothing is half written. -/
theorem Represents.reading_ends (h : Represents cfg s l) (howned : Mutex.Owned s.Inside s.owner)
    (hlog : s.log.Holds) :
    l.pending = none ∧ WritingEnd cfg s.sender none [] 0 ∧ ∃ unread n,
      ReadingEnd cfg s.log l.inHand unread n ∧ s.pipe = unread ++ frames cfg l.queued ∧
      s.cont = n + l.queued.length := by
  obtain ⟨unread, n, half, m, hread, hwrite, hpipe, hcont⟩ := h.ends
  obtain ⟨hpending, rfl, rfl⟩ := hwrite.rest_of_not_holds (no_sender_holds howned hlog)
  rw [hpending] at hwrite
  rw [List.append_nil] at hpipe
  exact ⟨hpending, hwrite, unread, n, hread, hpipe, hcont⟩

omit [DecidableEq ι] in
theorem readLen_frame (cfg : LogConfig ι) (i : ι) (senders : List ι) :
    decodeInt ((frames cfg (i :: senders)).take 4) = (cfg.text i).length ∧
      (frames cfg (i :: senders)).drop 4 = cfg.text i ++ frames cfg senders := by
  have hheader : (encodeInt (cfg.text i).length).length = 4 := rfl
  rw [frames_cons, List.take_left' hheader, List.drop_left' hheader]
  exact ⟨decodeInt_encodeInt (cfg.record i).fits, rfl⟩

theorem Represents.readLen (h : Represents cfg s l) (howned : Mutex.Owned s.Inside s.owner)
    (hlog : s.log = .draining) (hpos : 0 < s.cont) :
    ∃ l', l.Step l' ∧ Represents cfg (logNext cfg s .readLen) l' := by
  obtain ⟨hpending, hwrite, unread, n, hread, hpipe, hcont⟩ :=
    h.reading_ends howned (show s.log.Holds by rw [hlog]; trivial)
  rw [hlog] at hread
  generalize hhand : l.inHand = inHand at hread
  cases hread with
  | rest =>
    rw [List.nil_append] at hpipe
    obtain ⟨i, queued, hqueued⟩ : ∃ i queued, l.queued = i :: queued := by
      refine List.exists_cons_of_ne_nil fun hnil => ?_
      rw [hnil, List.length_nil] at hcont
      omega
    obtain ⟨hlen, hrest⟩ := readLen_frame cfg i queued
    refine ⟨{ l with inHand := some i, queued := queued }, .pick hhand hqueued, ?_, ?_, h.logFile,
      cfg.text i, 1, [], 0, ?_, ?_, ?_, ?_⟩
    · rw [show (logNext cfg s .readLen).taken = s.taken from rfl, h.taken]
      simp [Ledger.order, Ledger.written, hhand, hqueued]
    · intro j hj
      refine h.settled j ?_
      simpa [Ledger.written, hhand, hqueued] using hj
    · change ReadingEnd cfg (.reading (decodeInt (s.pipe.take 4)) []) _ _ _
      rw [hpipe, hqueued, hlen]
      exact .reading rfl
    · rw [hpending]
      exact hwrite
    · change s.pipe.drop 4 = _
      rw [hpipe, hqueued, hrest, List.append_nil]
    · change s.cont = 1 + queued.length + 0
      rw [hcont, hqueued, List.length_cons]
      omega

theorem Represents.readBody (h : Represents cfg s l) (howned : Mutex.Owned s.Inside s.owner) {n : Nat}
    (ha : logEnabled cfg s (.readBody n)) : Represents cfg (logNext cfg s (.readBody n)) l := by
  obtain ⟨lenString, readLine, hlog, -, hlen, -, hnext⟩ := readBody_inv ha
  obtain ⟨hpending, hwrite, unread, m, hread, hpipe, hcont⟩ :=
    h.reading_ends howned (show s.log.Holds by rw [hlog]; trivial)
  rw [hlog] at hread
  generalize hhand : l.inHand = inHand at hread
  cases hread with
  | rest hrest => exact hrest.elim
  | @reading i _ _ htext =>
    have hroom : n ≤ unread.length := by
      have htotal := congrArg List.length htext
      rw [List.length_append] at htotal
      omega
    rw [hnext]
    refine ⟨h.taken, h.settled, h.logFile, unread.drop n, 1, [], 0, ?_, by rwa [hpending], ?_, hcont⟩
    · rw [hhand, hpipe, List.take_append_of_le_length hroom]
      refine .reading ?_
      rw [List.append_assoc, List.take_append_drop, htext]
    · change s.pipe.drop n = _
      rw [hpipe, List.drop_append_of_le_length hroom, List.append_nil]

theorem Represents.append (h : Represents cfg s l) (howned : Mutex.Owned s.Inside s.owner)
    (ha : logEnabled cfg s .append) : ∃ l', l.Step l' ∧ Represents cfg (logNext cfg s .append) l' := by
  obtain ⟨lenString, readLine, hlog, hlen, hnext⟩ := append_inv ha
  obtain ⟨hpending, hwrite, unread, n, hread, hpipe, hcont⟩ :=
    h.reading_ends howned (show s.log.Holds by rw [hlog]; trivial)
  rw [hlog] at hread
  generalize hhand : l.inHand = inHand at hread
  cases hread with
  | rest hrest => exact hrest.elim
  | @reading i _ _ htext =>
    obtain rfl : unread = [] := by
      refine List.eq_nil_of_length_eq_zero ?_
      have htotal := congrArg List.length htext
      rw [List.length_append] at htotal
      omega
    rw [List.append_nil] at htext
    rw [hnext]
    refine ⟨{ l with logged := l.logged ++ [i], inHand := none }, .log hhand, ?_, ?_, ?_, [], 1, [], 0,
      .appended, by rwa [hpending], ?_, hcont⟩
    · rw [show s.taken = l.order from h.taken]
      simp [Ledger.order, Ledger.written, hhand]
    · intro j hj
      refine h.settled j ?_
      simpa [Ledger.written, hhand] using hj
    · rw [← htext, List.flatMap_append, ← h.logFile, List.flatMap_singleton, LogConfig.text,
        CStr.chars_ofBuffer_chars]
    · rw [List.append_nil]
      exact hpipe

theorem Represents.next (h : Represents cfg s l) (howned : Mutex.Owned s.Inside s.owner)
    (hlog : s.log = .appended) : Represents cfg (logNext cfg s .next) l := by
  obtain ⟨hpending, hwrite, unread, n, hread, hpipe, hcont⟩ :=
    h.reading_ends howned (show s.log.Holds by rw [hlog]; trivial)
  rw [hlog] at hread
  generalize hhand : l.inHand = inHand at hread
  cases hread with
  | rest hrest => exact hrest.elim
  | appended =>
    refine ⟨h.taken, h.settled, h.logFile, [], 0, [], 0, ?_, by rwa [hpending], ?_, ?_⟩
    · rw [hhand]
      exact .rest trivial
    · rw [List.append_nil]
      exact hpipe
    · change s.cont - 1 = _
      omega

/-! ### Every step -/

/-- A step of the protocol is a step of the ledger or leaves it as it is. -/
theorem Represents.step (h : Represents cfg s l) (howned : Mutex.Owned s.Inside s.owner)
    {a : LogAction ι} (hok : a.Transfers) (ha : logEnabled cfg s a) :
    ∃ l', (l' = l ∨ l.Step l') ∧ Represents cfg (logNext cfg s a) l' := by
  have hsame : Represents cfg (logNext cfg s a) l →
      ∃ l', (l' = l ∨ l.Step l') ∧ Represents cfg (logNext cfg s a) l' := fun h' => ⟨l, .inl rfl, h'⟩
  have hmoves : (∃ l', l.Step l' ∧ Represents cfg (logNext cfg s a) l') →
      ∃ l', (l' = l ∨ l.Step l') ∧ Represents cfg (logNext cfg s a) l' :=
    fun ⟨l', hstep, h'⟩ => ⟨l', .inr hstep, h'⟩
  cases a with
  | lock i => exact hmoves (h.lock howned ha.1 ha.2)
  | count i => exact hsame (h.count howned ha)
  | writeLen i => exact hsame (h.writeLen howned ha.1)
  | writeRecord i => exact hmoves (h.writeRecord howned ha.1)
  | signal i =>
    refine hsame (h.move .signalled (by rw [show s.sender i = .bodied from ha]; trivial)
      trivial ?_)
    split
    · rename_i hlog
      exact .inr ⟨by rw [hlog]; trivial, trivial⟩
    · exact .inl rfl
  | unlock i =>
    exact hsame (h.move .done (by rw [show s.sender i = .signalled from ha]; trivial) trivial
      (.inl rfl))
  | failLen i => exact hok.elim
  | failRecord i => exact hok.elim
  | logLock => exact hsame (h.wait (by rw [ha.1]; trivial) trivial)
  | wait =>
    refine hsame (h.wait ?_ trivial)
    rcases ha with hlog | ⟨hlog, -⟩ <;> (rw [hlog]; trivial)
  | wake => exact hsame (h.wait (by rw [show s.log = .waiting from ha]; trivial) trivial)
  | resume => exact hsame (h.wait (by rw [ha.1]; trivial) trivial)
  | readLen => exact hmoves (h.readLen howned ha.1 ha.2.1)
  | readBody n => exact hsame (h.readBody howned ha)
  | append => exact hmoves (h.append howned ha)
  | next => exact hsame (h.next howned ha)

end

/-! ### Whole runs -/

/-- In every run whose writes transfer, the records are somewhere on their way. -/
theorem represents_of_reach {cfg : LogConfig ι} {s : LogState ι}
    (h : (logProtocol cfg).Reach (fun _ a => a.Transfers) s) : ∃ l, Represents cfg s l := by
  refine h.invariant (I := fun s => ∃ l, Represents cfg s l) ?_ ?_
  · exact ⟨⟨[], none, [], none⟩, rfl, nofun, rfl, [], 0, [], 0, .rest trivial, .rest fun _ => id, rfl, rfl⟩
  · rintro s a hs ⟨l, hl⟩ hok ha
    obtain ⟨l', -, hl'⟩ := hl.step (owned_of_reach hs) hok ha
    exact ⟨l', hl'⟩

/-- Each sender that has begun took the mutex once. -/
def Once (s : LogState ι) : Prop := s.taken.Nodup ∧ ∀ i, i ∈ s.taken ↔ s.sender i ≠ .start

theorem Once.move {s s' : LogState ι} (h : Once s) {i : ι} {pc old : SenderPc} (hi : s.sender i = old)
    (hpc : old ≠ .start ∧ pc ≠ .start)
    (hs' : s'.sender = Function.update s.sender i pc ∧ s'.taken = s.taken) : Once s' := by
  rw [Once, hs'.1, hs'.2]
  refine ⟨h.1, fun j => ?_⟩
  rw [h.2 j]
  by_cases hj : j = i
  · rw [hj, Function.update_self, hi]
    exact iff_of_true hpc.1 hpc.2
  · rw [Function.update_of_ne hj]

theorem Once.next {cfg : LogConfig ι} {s : LogState ι} (h : Once s) {a : LogAction ι}
    (ha : logEnabled cfg s a) : Once (logNext cfg s a) := by
  cases a with
  | lock i =>
    have hnew : i ∉ s.taken := fun hmem => (h.2 i).mp hmem ha.1
    refine ⟨List.nodup_append.mpr ⟨h.1, List.pairwise_singleton _ i, ?_⟩, fun j => ?_⟩
    · rintro j hj k hk rfl
      exact hnew (List.mem_singleton.mp hk ▸ hj)
    · change j ∈ s.taken ++ [i] ↔ Function.update s.sender i .locked j ≠ _
      by_cases hj : j = i
      · rw [hj, Function.update_self]
        exact iff_of_true (by simp) (by decide)
      · rw [Function.update_of_ne hj, ← h.2 j]
        simp [hj]
  | count i => exact h.move ha (by decide) ⟨rfl, rfl⟩
  | writeLen i => exact h.move ha.1 (by decide) ⟨rfl, rfl⟩
  | writeRecord i => exact h.move ha.1 (by decide) ⟨rfl, rfl⟩
  | signal i => exact h.move ha (by decide) ⟨rfl, rfl⟩
  | unlock i => exact h.move ha (by decide) ⟨rfl, rfl⟩
  | failLen i => exact h.move ha (by decide) ⟨rfl, rfl⟩
  | failRecord i => exact h.move ha (by decide) ⟨rfl, rfl⟩
  | readBody n =>
    obtain ⟨lenString, readLine, -, -, -, -, hnext⟩ := readBody_inv ha
    rw [hnext]
    exact h
  | append =>
    obtain ⟨lenString, readLine, -, -, hnext⟩ := append_inv ha
    rw [hnext]
    exact h
  | logLock | wait | wake | resume | readLen | next => exact h

theorem once_of_reach {cfg : LogConfig ι} {ok : LogState ι → LogAction ι → Prop} {s : LogState ι}
    (h : (logProtocol cfg).Reach ok s) : Once s :=
  h.invariant (I := Once) ⟨List.nodup_nil, fun i => by simp [logProtocol, LogState.start]⟩
    fun _ _ _ hs _ ha => hs.next ha

/-! ### What a run conserves -/

omit [DecidableEq ι] in
/-- The record the log process is reading: the bytes it has, and those that are still in the pipe.
-/
def LogState.beingRead (s : LogState ι) : List Byte :=
  match s.log with
  | .reading lenString readLine => readLine ++ s.pipe.take (lenString.toNat - readLine.length)
  | _ => []

omit [DecidableEq ι] in
/-- The part of the pipe behind the record that is being read. -/
def LogState.encoded (s : LogState ι) : List Byte :=
  match s.log with
  | .reading lenString readLine => s.pipe.drop (lenString.toNat - readLine.length)
  | _ => s.pipe

/-- The senders that have written their record, in the order they took the mutex. -/
def LogState.written (s : LogState ι) : List ι := s.taken.filter fun i => (s.sender i).Written

section

variable {cfg : LogConfig ι} {s : LogState ι} {l : Ledger ι}

omit [DecidableEq ι] in
theorem Represents.written_eq (h : Represents cfg s l) : s.written = l.written := by
  obtain ⟨unread, n, half, m, hread, hwrite, hpipe, hcont⟩ := h.ends
  have hsettled : l.written.filter (fun i => (s.sender i).Written) = l.written :=
    List.filter_eq_self.mpr fun i hi => by simpa using h.settled i hi
  have hpending : l.pending.toList.filter (fun i => (s.sender i).Written) = [] := by
    refine List.filter_eq_nil_iff.mpr fun i hi => ?_
    rw [Option.mem_toList] at hi
    rw [hi] at hwrite
    simpa using fun hw : (s.sender i).Written => hw.not_writing hwrite.writing
  rw [LogState.written, h.taken, Ledger.order, List.filter_append, hsettled, hpending, List.append_nil]

omit [DecidableEq ι] in
theorem encoded_of_rest (h : s.log.AtRest) : s.beingRead = [] ∧ s.encoded = s.pipe := by
  rw [LogState.beingRead, LogState.encoded]
  cases hlog : s.log <;> first | exact ⟨rfl, rfl⟩ | exact (hlog ▸ h).elim

omit [DecidableEq ι] in
/-- The rest of the record in hand stands at the front of the pipe, and the queued records behind
it. -/
theorem Represents.pipe_split (h : Represents cfg s l) :
    s.beingRead = l.inHand.toList.flatMap cfg.text ∧
      ∃ half, s.encoded = frames cfg l.queued ++ half ∧ (intHeader.unframe half).flatten = [] ∧
        (l.pending = none → half = []) := by
  obtain ⟨unread, n, half, m, hread, hwrite, hpipe, hcont⟩ := h.ends
  suffices hsplit : s.beingRead = l.inHand.toList.flatMap cfg.text ∧
      s.encoded = frames cfg l.queued ++ half from
    ⟨hsplit.1, half, hsplit.2, hwrite.half⟩
  generalize hlog : s.log = log at hread
  generalize l.inHand = inHand at hread
  cases hread with
  | rest hrest =>
    obtain ⟨hbeing, hencoded⟩ := encoded_of_rest (hlog ▸ hrest)
    exact ⟨hbeing, hencoded.trans hpipe⟩
  | appended =>
    simp only [LogState.beingRead, LogState.encoded, hlog]
    exact ⟨rfl, hpipe⟩
  | @reading i readLine _ htext =>
    have hleft : (cfg.text i).length - readLine.length = unread.length := by
      rw [htext, List.length_append]
      omega
    simp only [LogState.beingRead, LogState.encoded, hlog, Int.toNat_natCast, hleft, hpipe,
      List.append_assoc, List.take_left, List.drop_left]
    exact ⟨by simp [htext], trivial⟩

omit [DecidableEq ι] in
/-- The whole records in the pipe are those of the queued senders, but for a record of length 0
whose sender has written the header. -/
theorem unframe_frames (senders : List ι) (half : List Byte) :
    intHeader.unframe (frames cfg senders ++ half) =
      senders.map cfg.text ++ intHeader.unframe half := by
  refine Header.unframe_frames_append (fun r hr => ?_) half
  obtain ⟨i, -, rfl⟩ := List.mem_map.mp hr
  exact (cfg.record i).fits

omit [DecidableEq ι] in
/-- While nobody owns the mutex, the pipe holds whole records only, and `cont` counts them. -/
theorem Represents.free (h : Represents cfg s l) (howned : Mutex.Owned s.Inside s.owner)
    (hfree : s.owner = none) : s.pipe = frames cfg l.queued ∧ s.cont = l.queued.length := by
  obtain ⟨unread, n, half, m, hread, hwrite, hpipe, hcont⟩ := h.ends
  obtain ⟨hsenders, hlog⟩ := nobody_holds howned hfree
  obtain ⟨-, rfl, rfl⟩ := hread.rest_of_not_holds hlog
  obtain ⟨-, rfl, rfl⟩ := hwrite.rest_of_not_holds hsenders
  exact ⟨by simpa using hpipe, by simpa using hcont⟩

end

theorem logged_and_left {cfg : LogConfig ι} {s : LogState ι}
    (h : (logProtocol cfg).Reach (fun _ a => a.Transfers) s) :
    s.logFile ++ s.beingRead ++ (intHeader.unframe s.encoded).flatten = s.written.flatMap cfg.text := by
  obtain ⟨l, hl⟩ := represents_of_reach h
  obtain ⟨hbeing, half, hencoded, hflat, -⟩ := hl.pipe_split
  rw [hl.written_eq, hl.logFile, hbeing, hencoded, unframe_frames, List.flatten_append, hflat,
    Ledger.written, List.flatMap_append, List.flatMap_append, List.append_nil, List.flatMap_def,
    List.flatMap_def, List.flatMap_def]

/-- In every state of every interleaving, what is logged, the record being read and the records in
the pipe are together the records that the senders wrote, in the order they took the mutex and each
once; only the holder of the mutex can be a sender that has not written yet. While nobody holds it,
`cont` is the number of whole records in the pipe. -/
theorem log_conserved {cfg : LogConfig ι} {s : LogState ι}
    (h : (logProtocol cfg).Reach (fun _ a => a.Transfers) s) :
    s.logFile ++ s.beingRead ++ (intHeader.unframe s.encoded).flatten = s.written.flatMap cfg.text ∧
      s.written <+: s.taken ∧ s.taken.Nodup ∧ (∀ i, i ∈ s.taken ↔ s.sender i ≠ .start) ∧
      (∀ i ∈ s.taken, i ∉ s.written → s.owner = some (.sender i)) ∧
      (s.owner = none → s.cont = (intHeader.unframe s.pipe).length) := by
  obtain ⟨l, hl⟩ := represents_of_reach h
  have howned := owned_of_reach h
  obtain ⟨honce, hstarted⟩ := once_of_reach h
  refine ⟨logged_and_left h, ?_, honce, hstarted, ?_, ?_⟩
  · rw [hl.written_eq, hl.taken]
    exact List.prefix_append _ _
  · intro i hi hnot
    rw [hl.taken, Ledger.order, List.mem_append, ← hl.written_eq, or_iff_right hnot,
      Option.mem_toList] at hi
    obtain ⟨_, _, _, _, -, hwrite, -, -⟩ := hl.ends
    rw [hi] at hwrite
    exact (howned (.sender i)).mp hwrite.writing.holds
  · intro hfree
    obtain ⟨hpipe, hcont⟩ := hl.free howned hfree
    rw [hcont, hpipe, ← List.append_nil (frames cfg l.queued), unframe_frames, Header.unframe_nil,
      List.append_nil, List.length_map]

def twoSenders (capacity : Option Nat) : LogConfig Bool where
  record i := ⟨if i then CStr.lit "b" else CStr.lit "a", by cases i <;> decide⟩
  capacity := capacity

def transfer (i : ι) : List (LogAction ι) :=
  [.lock i, .count i, .writeLen i, .writeRecord i, .signal i, .unlock i]

/-- The log process has logged the record of the first sender and read the header of the second one.
-/
theorem log_conserved_two :
    ∃ s, (logProtocol (twoSenders none)).Reach (fun _ a => a.Transfers) s ∧
      s.log = .reading 1 [] ∧ s.taken = [false, true] ∧
      s.logFile ++ s.beingRead ++ (intHeader.unframe s.encoded).flatten = bytes "ab" := by
  have hruns : (logProtocol (twoSenders none)).Runs (fun _ a => a.Transfers) .start
      ([.logLock, .wait] ++ transfer false ++ transfer true ++
        [.resume, .readLen, .readBody 1, .append, .next, .readLen]) := by
    decide
  have hreach := Transition.Reach.after .init hruns
  refine ⟨_, hreach, by decide, by decide, (log_conserved hreach).1.trans ?_⟩
  decide

end Sacagawea
