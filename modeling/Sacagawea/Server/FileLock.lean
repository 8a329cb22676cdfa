import Sacagawea.Server.Clients

/-!
# The lock of a file

`load_file_memory_and_send` locks the whole file for writing before it asks for the size, and unlocks it
when it has mapped it. Between the two calls it must not wait for anybody, or others could wait for it
forever, and a program that locks the file before it writes must not come between the size and the
mapping.

Both are shown for any number of clients in any order.
-/

namespace Sacagawea

open Program

/-! ### The calls with the lock -/

/-- Where a client stands with the lock: with a descriptor, or with the lock, the number of calls that
may follow and the size that `fstat` gave. -/
inductive LockPhase where
  | idle
  | opened (path : CStr)
  | inside (path : CStr) (left : Nat) (lenFile : Option Nat)

/-- A call that does not wait for anybody. -/
def Call.Prompt : Call → Prop
  | .fstat | .mmap _ | .writeLog | .unlockFile _ | .close _ => True
  | _ => False

/-- What may be called without the lock, when the paths that may be opened are good. -/
def Call.MayIdle (good : CStr → Prop) : Call → Prop
  | .openFile path => good path
  | .lockFile | .mmap _ | .unlockFile _ => False
  | _ => True

/-- The last call with the lock closes the file. -/
def Call.MayInside (left : Nat) (lenFile : Option Nat) : Call → Prop
  | .close _ => 0 < left
  | .mmap n => 1 < left ∧ lenFile = some n
  | c => 1 < left ∧ c.Prompt

def LockPhase.idleNext : (c : Call) → Answer c → LockPhase
  | .openFile path, (ok : Bool) => if ok then .opened path else .idle
  | _, _ => .idle

def LockPhase.openedNext (path : CStr) : (c : Call) → Answer c → LockPhase
  | .lockFile, (ok : Bool) => if ok then .inside path 6 none else .idle
  | _, _ => .idle

def LockPhase.insideNext (path : CStr) (left : Nat) (lenFile : Option Nat) : (c : Call) → Answer c → LockPhase
  | .fstat, (size : Option Nat) => .inside path left size
  | .unlockFile _, (ok : Bool) => if ok then .idle else .inside path left lenFile
  | .close _, _ => .idle
  | _, _ => .inside path left lenFile

def fileLock (good : CStr → Prop) : Typestate Answer LockPhase where
  may
    | .idle, c => c.MayIdle good
    | .opened _, c => c = .lockFile
    | .inside _ left lenFile, c => c.MayInside left lenFile
  next
    | .idle, c, r => .idleNext c r
    | .opened path, c, r => .openedNext path c r
    | .inside path left lenFile, c, r => .insideNext path (left - 1) lenFile c r

variable {good : CStr → Prop} {path : CStr} {left : Nat} {lenFile : Option Nat} {rounds : Nat} {addr : CStr}

theorem keeps_idle {c : Call} (h : ¬ c.Holds) : (fileLock good).Keeps .idle c := by
  cases c <;> first | exact ⟨trivial, fun _ => rfl⟩ | exact absurd trivial h

theorem keeps_idle_plain {c : Call} (h : c.Plain) : (fileLock good).Keeps .idle c := by
  cases c <;> first | exact ⟨trivial, fun _ => rfl⟩ | exact h.elim

theorem typed_idle_log : log.Typed (fileLock good) (fun _ q => q = .idle) .idle :=
  Typed.of_keeps (makesOnly_log (keeps_idle id))

/-- `write_log` is one of the calls that are left. -/
theorem typed_inside_log (hleft : 1 < left) :
    log.Typed (fileLock good) (fun _ q => q = .inside path (left - 1) lenFile)
      (.inside path left lenFile) := by
  refine ⟨⟨hleft, trivial⟩, fun (answer : LogAnswer) => ?_⟩
  cases answer <;> first | rfl | trivial

theorem typed_inside_fail {α : Type} (hleft : 1 < left) (code : Nat) :
    (fail code : Serve α).Typed (fileLock good) (fun _ _ => False) (.inside path left lenFile) :=
  (typed_inside_log hleft).bind fun _ _ _ => trivial

theorem typed_idle_close (mapped : Bool) :
    (perform (.close mapped)).Typed (fileLock good) (fun _ q => q = .idle) .idle :=
  ⟨trivial, fun _ => rfl⟩

theorem typed_giveUp (hleft : 4 ≤ left) :
    giveUp.Typed (fileLock good) (fun _ q => q = .idle) (.inside path left lenFile) := by
  refine (typed_inside_log (by omega)).bind fun _ q hq => ?_
  subst hq
  have hunlock : 1 < left - 1 := by omega
  refine .ask_bind ⟨hunlock, trivial⟩ fun (unlocked : Bool) => ?_
  cases unlocked with
  | true => exact (typed_idle_close false).bind fun _ _ hq => hq
  | false =>
    refine (typed_inside_log (by omega)).bind fun _ q hq => ?_
    subst hq
    have hclose : 0 < left - 1 - 1 - 1 := by omega
    exact .ask_bind hclose fun _ => rfl

theorem typed_sendMapped (file : List Byte) (hleft : 3 ≤ left) :
    (sendMapped rounds file path addr).Typed (fileLock good) (fun _ q => q = .idle)
      (.inside path left lenFile) := by
  have hunlock : 1 < left := by omega
  refine .ask_bind ⟨hunlock, trivial⟩ fun (unlocked : Bool) => ?_
  cases unlocked with
  | false => exact (typed_inside_fail (by omega) 1).bind fun _ _ hq => hq.elim
  | true =>
    refine (typed_idle_close true).bind fun closed q hq => ?_
    subst hq
    refine Typed.of_keeps ?_
    refine (makesOnly_require (keeps_idle id) 1 closed).bind fun _ => ?_
    refine .ask_bind (keeps_idle id) fun created => ?_
    refine (makesOnly_require (keeps_idle id) 1 created).bind fun _ => ?_
    refine MakesOnly.bind ?_ fun _ => ?_
    · exact (makesOnly_threadSender rounds file path addr).mono fun _ => keeps_idle
    refine .ask_bind (keeps_idle id) fun joined => ?_
    refine (makesOnly_require (keeps_idle id) 1 joined).bind fun _ => ?_
    refine .ask_bind ⟨trivial, fun _ => rfl⟩ fun unmapped => ?_
    exact (makesOnly_require (keeps_idle id) 1 unmapped).bind fun _ => trivial

/-- The transfer of a file keeps to the calls with the lock. -/
theorem typed_loadFileMemoryAndSend (hpath : good path) :
    (loadFileMemoryAndSend rounds path addr).Typed (fileLock good) (fun _ q => q = .idle) .idle := by
  refine .ask_bind hpath fun (opened : Bool) => ?_
  cases opened with
  | false => exact typed_idle_log.bind fun _ _ hq => hq
  | true =>
    refine .ask_bind rfl fun (locked : Bool) => ?_
    cases locked with
    | false => exact typed_idle_log.bind fun _ _ hq => hq
    | true =>
      refine .ask_bind ⟨by decide, trivial⟩ fun (statFd : Option Nat) => ?_
      cases statFd with
      | none => exact typed_giveUp (by decide)
      | some n =>
        refine .ask_bind ⟨by decide, rfl⟩ fun mapped => ?_
        cases mapped with
        | none => exact typed_giveUp (by decide)
        | some file => exact typed_sendMapped file.1 (by decide)

/-! ### The locks of the machine -/

variable {κ ι : Type} {site : Site ι} {s s' : Machine κ ι} {k : κ} {q : LockPhase}

def Machine.Locks (s : Machine κ ι) (k : κ) (i : ι) : Prop := s.locker i = some (.client k)

/-- The machine has for a client what it believes to have. -/
def LockPhase.Fits (good : CStr → Prop) (site : Site ι) (s : Machine κ ι) (k : κ) : LockPhase → Prop
  | .idle => ∀ i, ¬ s.Locks k i
  | .opened path => good path ∧ s.opened k = some (site.inode path) ∧ ∀ i, ¬ s.Locks k i
  | .inside path _ lenFile => good path ∧ s.opened k = some (site.inode path) ∧
    (∀ i, s.Locks k i ↔ i = site.inode path) ∧ ∀ n ∈ lenFile, n = (s.contents (site.inode path)).length

/-- A step is none of the client's business. -/
structure Machine.SameFor (s s' : Machine κ ι) (k : κ) : Prop where
  opened : s'.opened k = s.opened k
  locks : ∀ i, s'.Locks k i ↔ s.Locks k i
  contents : ∀ i, s.Locks k i → s'.contents i = s.contents i

theorem LockPhase.Fits.frame (h : q.Fits good site s k) (hsame : s.SameFor s' k) :
    q.Fits good site s' k := by
  cases q with
  | idle => exact fun i hi => h i ((hsame.locks i).mp hi)
  | opened path =>
    obtain ⟨hpath, hopened, hnone⟩ := h
    exact ⟨hpath, hsame.opened.trans hopened, fun i hi => hnone i ((hsame.locks i).mp hi)⟩
  | inside path left lenFile =>
    obtain ⟨hpath, hopened, hlocks, hlen⟩ := h
    refine ⟨hpath, hsame.opened.trans hopened, fun i => (hsame.locks i).trans (hlocks i), ?_⟩
    rwa [hsame.contents _ ((hlocks _).mpr rfl)]

/-- The locker of a file changes from or to somebody else. -/
theorem sameFor_locker {locker : ι → Option (Locker κ)}
    (h : ∀ i, locker i = some (.client k) ↔ s.Locks k i) :
    s.SameFor { s with locker := locker } k where
  opened := rfl
  locks := h
  contents _ _ := rfl

theorem update_locker_iff [DecidableEq ι] {i : ι} {old new : Option (Locker κ)} (hold : s.locker i = old)
    (hne : old ≠ some (.client k)) (hnew : new ≠ some (.client k)) (j : ι) :
    Function.update s.locker i new j = some (.client k) ↔ s.Locks k j := by
  rw [Machine.Locks]
  by_cases hj : j = i
  · subst hj
    rw [Function.update_self, hold]
    exact iff_of_false hnew hne
  · rw [Function.update_of_ne hj]

variable [DecidableEq κ]

theorem locks_release (s : Machine κ ι) (j k : κ) (i : ι) :
    (s.release j).Locks k i ↔ s.Locks k i ∧ j ≠ k := by
  rw [Machine.Locks, Machine.Locks, Machine.release]
  dsimp only
  split_ifs with hj
  · rw [hj]
    refine iff_of_false nofun ?_
    rintro ⟨heq, hne⟩
    cases heq
    exact hne rfl
  · refine ⟨fun h => ⟨h, ?_⟩, And.left⟩
    rintro rfl
    exact hj h

theorem sameFor_release (s : Machine κ ι) {j : κ} (hj : j ≠ k) : s.SameFor (s.release j) k where
  opened := rfl
  locks i := (locks_release s j k i).trans (and_iff_left hj)
  contents _ _ := rfl

variable [DecidableEq ι]

theorem after_lockFile {i : ι} (hopened : s.opened k = some i) :
    s.after site k .lockFile true =
      { s with locker := Function.update s.locker i (some (.client k)) } := by
  simp only [Machine.after, hopened]

/-- A call changes nothing for another client. -/
theorem sameFor_after {j : κ} {c : Call} {r : Answer c} (hallows : s.Allows site j c r) (hj : j ≠ k) :
    s.SameFor (s.after site j c r) k := by
  have hsame : s.SameFor s k := ⟨rfl, fun _ => Iff.rfl, fun _ _ => rfl⟩
  cases c <;> first | exact hsame | skip
  case openFile path =>
    change Bool at r
    cases r with
    | false => exact hsame
    | true => exact ⟨Function.update_of_ne hj.symm .., fun _ => Iff.rfl, fun _ _ => rfl⟩
  case lockFile =>
    change Bool at r
    cases r with
    | false => exact hsame
    | true =>
      obtain ⟨i, hopened, hfree⟩ := hallows rfl
      rw [after_lockFile hopened]
      refine sameFor_locker (update_locker_iff hfree nofun ?_)
      rintro heq
      cases heq
      exact hj rfl
  case unlockFile mapped =>
    change Bool at r
    cases r with
    | false => exact hsame
    | true => exact sameFor_release s hj
  case close mapped =>
    have hrelease := sameFor_release s hj
    exact ⟨(Function.update_of_ne hj.symm ..).trans hrelease.opened, hrelease.locks, hrelease.contents⟩
  case mutexLock | condSignal | mutexUnlock =>
    change Bool at r
    cases r <;> exact ⟨rfl, fun _ => Iff.rfl, fun _ _ => rfl⟩
  all_goals exact ⟨rfl, fun _ => Iff.rfl, fun _ _ => rfl⟩

omit [DecidableEq ι] in
theorem locks_none_of_release (s : Machine κ ι) (k : κ) (i : ι) : ¬ (s.release k).Locks k i :=
  fun h => ((locks_release s k k i).mp h).2 rfl

theorem fits_idle_call (h : ∀ i, ¬ s.Locks k i) {c : Call} {r : Answer c} (hmay : c.MayIdle good) :
    (LockPhase.idleNext c r).Fits good site (s.after site k c r) k := by
  cases c <;> first | exact h | exact hmay.elim | skip
  case openFile path =>
    change Bool at r
    cases r with
    | false => exact h
    | true => exact ⟨hmay, Function.update_self .., h⟩
  case close mapped => exact locks_none_of_release s k
  case mutexLock | condSignal | mutexUnlock =>
    change Bool at r
    cases r <;> exact h

theorem fits_opened_lock {path : CStr} (hpath : good path) (hopened : s.opened k = some (site.inode path))
    (h : ∀ i, ¬ s.Locks k i) (ok : Bool) :
    (LockPhase.openedNext path .lockFile ok).Fits good site (s.after site k .lockFile ok) k := by
  cases ok with
  | false => exact h
  | true =>
    rw [after_lockFile hopened]
    refine ⟨hpath, hopened, fun i => ?_, nofun⟩
    rw [Machine.Locks]
    by_cases hi : i = site.inode path
    · subst hi
      exact iff_of_true (Function.update_self ..) rfl
    · refine iff_of_false ?_ hi
      dsimp only
      rw [Function.update_of_ne hi]
      exact h i

theorem fits_inside_call (h : (LockPhase.inside path left lenFile).Fits good site s k) {c : Call}
    {r : Answer c} (hmay : c.MayInside left lenFile) (hallows : s.Allows site k c r) :
    (LockPhase.insideNext path (left - 1) lenFile c r).Fits good site (s.after site k c r) k := by
  cases c <;> first | exact hmay.2.elim | skip
  case writeLog | mmap => exact h
  case fstat =>
    obtain ⟨hpath, hopened, hlocks, -⟩ := h
    refine ⟨hpath, hopened, hlocks, fun n hn => ?_⟩
    obtain ⟨-, i, hi, hlen⟩ := hallows n hn
    cases hopened.symm.trans hi
    exact hlen
  case unlockFile mapped =>
    change Bool at r
    cases r with
    | false => exact h
    | true => exact locks_none_of_release s k
  case close mapped => exact locks_none_of_release s k

/-- A call of a client fits what it believes to have behind it. -/
theorem LockPhase.Fits.call (h : q.Fits good site s k) {c : Call} {r : Answer c}
    (hmay : (fileLock good).may q c) (hallows : s.Allows site k c r) :
    ((fileLock good).next q c r).Fits good site (s.after site k c r) k := by
  cases q with
  | idle => exact fits_idle_call h hmay
  | opened path =>
    cases hmay
    exact fits_opened_lock h.1 h.2.1 h.2.2 r
  | inside path left lenFile => exact fits_inside_call h hmay hallows

/-- What others do is none of a client's business. -/
theorem sameFor_other {a : Other κ ι} (henabled : s.otherEnabled site a) (k : κ) :
    s.SameFor (s.other site a) k := by
  cases a with
  | lock i => exact sameFor_locker (update_locker_iff henabled nofun nofun)
  | unlock i => exact sameFor_locker (update_locker_iff henabled nofun nofun)
  | log a => exact ⟨rfl, fun _ => Iff.rfl, fun _ _ => rfl⟩
  | write i contents =>
    refine ⟨rfl, fun _ => Iff.rfl, fun j hj => Function.update_of_ne ?_ ..⟩
    rintro rfl
    cases hj.symm.trans henabled

/-! ### All clients -/

/-- The clients that have not halted have what they believe to have, and those that have halted have no
lock. -/
def LocksKept (good : κ → CStr → Prop) (site : Site ι) (q : κ → LockPhase) (gone : κ → Bool)
    (s : Machine κ ι) : Prop :=
  ∀ k, (gone k = false → (q k).Fits (good k) site s k) ∧ (gone k = true → ∀ i, ¬ s.Locks k i)

variable {visitors : κ → Visitor} {run : Running κ ι} {ok : Running κ ι → Turn κ Answer (Other κ ι) → Prop}

theorem typed_visitor (v : Visitor) :
    v.serve.Typed (fileLock v.MayOpen) (fun _ q => q = .idle) .idle := by
  refine typed_serve v (fun _ => keeps_idle_plain) rfl ?_ fun input hlen hcheck => ?_
  · rintro q rfl
    exact keeps_idle id
  · exact typed_loadFileMemoryAndSend ⟨input, hlen, hcheck, rfl⟩

theorem locksKept_of_reach (h : (clients site visitors).Reach ok run) :
    LocksKept (fun k => (visitors k).MayOpen) site
      (fun k => (fileLock (visitors k).MayOpen).after .idle (run.trace k)) run.gone run.host := by
  refine Host.invariant (I := LocksKept (fun k => (visitors k).MayOpen) site)
    (fun k => typed_visitor (visitors k)) ?_ ?_ ?_ ?_ h
  · exact fun k => ⟨fun _ _ => nofun, fun _ _ => nofun⟩
  · intro q gone host k c r hkept hgone hmay hallows j
    by_cases hj : k = j
    · subst hj
      rw [Function.update_self]
      exact ⟨fun _ => ((hkept k).1 hgone).call hmay hallows, fun h => nomatch hgone.symm.trans h⟩
    · have hsame : host.SameFor (host.after site k c r) j := sameFor_after hallows hj
      rw [Function.update_of_ne (Ne.symm hj)]
      exact ⟨fun h => ((hkept j).1 h).frame hsame, fun h i hi => (hkept j).2 h i ((hsame.locks i).mp hi)⟩
  · intro q gone host k hkept hgone j
    by_cases hj : k = j
    · subst hj
      rw [Function.update_self]
      exact ⟨nofun, fun _ => locks_none_of_release host k⟩
    · have hsame : host.SameFor (host.release k) j := sameFor_release host hj
      rw [Function.update_of_ne (Ne.symm hj)]
      exact ⟨fun h => ((hkept j).1 h).frame hsame, fun h i hi => (hkept j).2 h i ((hsame.locks i).mp hi)⟩
  · intro q gone host a hkept henabled j
    have hsame := sameFor_other henabled j
    exact ⟨fun h => ((hkept j).1 h).frame hsame, fun h i hi => (hkept j).2 h i ((hsame.locks i).mp hi)⟩

/-! ### What a client has done -/

/-- The lock is given back. -/
def Unlocks : (Σ c, Answer c) → Prop
  | ⟨.unlockFile _, (ok : Bool)⟩ => ok = true
  | ⟨.close _, _⟩ => True
  | _ => False

/-- The trace ends with the calls since a file was locked. -/
structure HasLocked (path : CStr) (trace back : Trace Answer) : Prop where
  locked : ∃ front, trace = front ++ ⟨.openFile path, true⟩ :: ⟨.lockFile, true⟩ :: back
  kept : ∀ event ∈ back, ¬ Unlocks event

theorem insideNext_cases {c : Call} {r : Answer c} (h : ¬ Unlocks ⟨c, r⟩) :
    ∃ lenFile', LockPhase.insideNext path left lenFile c r = .inside path left lenFile' := by
  cases c <;> first | exact ⟨_, rfl⟩ | exact absurd trivial h | skip
  change Bool at r
  cases r with
  | false => exact ⟨_, rfl⟩
  | true => exact absurd rfl h

theorem insideNext_of_unlocks {c : Call} {r : Answer c} (h : Unlocks ⟨c, r⟩) :
    LockPhase.insideNext path left lenFile c r = .idle := by
  cases c <;> first | exact h.elim | rfl | skip
  change Bool at r
  cases r with
  | false => cases h
  | true => rfl

theorem prompt_of_mayInside {c : Call} {r : Answer c} (h : c.MayInside left lenFile) :
    c.Prompt ∧ (¬ Unlocks ⟨c, r⟩ → 1 < left) := by
  cases c <;> first | exact h.2.elim | exact ⟨trivial, fun _ => h.1⟩ | skip
  exact ⟨trivial, fun hno => absurd trivial hno⟩

theorem HasLocked.snoc {path : CStr} {trace back : Trace Answer} (h : HasLocked path trace back)
    {event : Σ c, Answer c} (hevent : ¬ Unlocks event) :
    HasLocked path (trace ++ [event]) (back ++ [event]) := by
  obtain ⟨⟨front, rfl⟩, hkept⟩ := h
  refine ⟨⟨front, by simp only [List.append_assoc, List.cons_append]⟩, ?_⟩
  exact List.forall_mem_append.mpr ⟨hkept, List.forall_mem_singleton.mpr hevent⟩

/-- The last call is the lock, or it came earlier. -/
theorem HasLocked.of_snoc {path : CStr} {trace back : Trace Answer} {event : Σ c, Answer c}
    (h : HasLocked path (trace ++ [event]) back) :
    event = ⟨.lockFile, true⟩ ∧ (∃ front, trace = front ++ [⟨.openFile path, true⟩]) ∨
      ¬ Unlocks event ∧ ∃ back', HasLocked path trace back' := by
  obtain ⟨⟨front, htrace⟩, hkept⟩ := h
  rcases List.eq_nil_or_concat' back with rfl | ⟨back, last, rfl⟩
  · have hlast : trace ++ [event] = front ++ [⟨.openFile path, true⟩] ++ [⟨.lockFile, true⟩] := by simp [htrace]
    obtain ⟨htrace, hevent⟩ := List.append_inj' hlast rfl
    exact .inl ⟨List.singleton_inj.mp hevent, front, htrace⟩
  · have hlast : trace ++ [event] =
        front ++ ⟨.openFile path, true⟩ :: ⟨.lockFile, true⟩ :: back ++ [last] := by simp [htrace]
    obtain ⟨rfl, heq⟩ := List.append_inj' hlast rfl
    cases heq
    obtain ⟨hback, hevent⟩ := List.forall_mem_append.mp hkept
    exact .inr ⟨hevent event (.head _), back, ⟨front, rfl⟩, hback⟩

omit [DecidableEq κ] [DecidableEq ι] in
/-- A prompt call has an answer at any time. -/
theorem allows_of_prompt (site : Site ι) (s : Machine κ ι) (k : κ) {c : Call} (h : c.Prompt) :
    ∃ r, s.Allows site k c r := by
  cases c <;> first
    | exact h.elim
    | exact ⟨none, nofun⟩
    | exact ⟨true, trivial⟩
    | exact ⟨LogAnswer.printed, trivial⟩

/-- The calls that a phase stands for. -/
def LockPhase.Traced (trace : Trace Answer) : LockPhase → Prop
  | .idle => ∀ path back, ¬ HasLocked path trace back
  | .opened path => (∃ front, trace = front ++ [⟨.openFile path, true⟩]) ∧
    ∀ path back, ¬ HasLocked path trace back
  | .inside path left _ => (∃ back, HasLocked path trace back ∧ back.length + left = 6 ∧ 1 ≤ left ∧
    ∀ event ∈ back, event.1.Prompt) ∧ ∀ path' back, HasLocked path' trace back → path' = path

theorem not_hasLocked_snoc {trace : Trace Answer} (h : ∀ path back, ¬ HasLocked path trace back)
    {event : Σ c, Answer c} (hevent : event ≠ ⟨.lockFile, true⟩) :
    ∀ path back, ¬ HasLocked path (trace ++ [event]) back := by
  intro path back hlocked
  rcases hlocked.of_snoc with ⟨heq, -⟩ | ⟨-, back', hbefore⟩
  · exact hevent heq
  · exact h path back' hbefore

theorem traced_idle_call {trace : Trace Answer} (h : LockPhase.idle.Traced trace) {c : Call}
    (r : Answer c) (hmay : c.MayIdle good) : (LockPhase.idleNext c r).Traced (trace ++ [⟨c, r⟩]) := by
  have hnone : c ≠ .lockFile → ∀ path back, ¬ HasLocked path (trace ++ [⟨c, r⟩]) back :=
    fun hc => not_hasLocked_snoc h fun heq => hc (congrArg Sigma.fst heq)
  cases c <;> first | exact hmay.elim | exact hnone nofun | skip
  case openFile path =>
    change Bool at r
    cases r with
    | false => exact hnone nofun
    | true => exact ⟨⟨trace, rfl⟩, hnone nofun⟩

theorem traced_opened_lock {path : CStr} {trace : Trace Answer}
    (h : (LockPhase.opened path).Traced trace) (ok : Bool) :
    (LockPhase.openedNext path .lockFile ok).Traced (trace ++ [⟨.lockFile, ok⟩]) := by
  obtain ⟨⟨front, rfl⟩, hnone⟩ := h
  cases ok with
  | false => exact not_hasLocked_snoc hnone fun heq => nomatch heq
  | true =>
    refine ⟨⟨[], ⟨⟨front, by simp⟩, nofun⟩, rfl, by decide, nofun⟩, fun path' back hlocked => ?_⟩
    rcases hlocked.of_snoc with ⟨-, front', hfront⟩ | ⟨-, back', hbefore⟩
    · obtain ⟨-, hopen⟩ := List.append_inj' hfront rfl
      cases hopen
      rfl
    · exact absurd hbefore (hnone path' back')

theorem traced_inside_call {path : CStr} {trace : Trace Answer}
    (h : (LockPhase.inside path left lenFile).Traced trace) {c : Call} (r : Answer c)
    (hmay : c.MayInside left lenFile) :
    (LockPhase.insideNext path (left - 1) lenFile c r).Traced (trace ++ [⟨c, r⟩]) := by
  obtain ⟨⟨back, hlocked, hcount, hleft, hprompt⟩, hunique⟩ := h
  obtain ⟨hc, hroom⟩ := prompt_of_mayInside (r := r) hmay
  by_cases hunlocks : Unlocks ⟨c, r⟩
  · rw [insideNext_of_unlocks hunlocks]
    intro path' back' hlocked'
    rcases hlocked'.of_snoc with ⟨heq, -⟩ | ⟨hno, -⟩
    · cases heq
      exact hunlocks
    · exact hno hunlocks
  · obtain ⟨lenFile', hnext⟩ := @insideNext_cases path (left - 1) lenFile c r hunlocks
    rw [hnext]
    have hroom := hroom hunlocks
    refine ⟨⟨back ++ [⟨c, r⟩], hlocked.snoc hunlocks, ?_, by omega, ?_⟩, fun path' back' hlocked' => ?_⟩
    · rw [List.length_append, List.length_singleton]
      omega
    · exact List.forall_mem_append.mpr ⟨hprompt, List.forall_mem_singleton.mpr hc⟩
    · rcases hlocked'.of_snoc with ⟨heq, -⟩ | ⟨-, back'', hbefore⟩
      · cases heq
        exact hc.elim
      · exact hunique path' back'' hbefore

theorem traced_of_steps {v : Visitor} {p : Serve Unit} {trace : Trace Answer}
    (h : v.serve.Steps trace p) : ((fileLock v.MayOpen).after .idle trace).Traced trace := by
  refine (typed_visitor v).along (J := fun trace q => q.Traced trace) h ?_ fun front q c r hq hmay => ?_
  · intro path back hlocked
    obtain ⟨front, htrace⟩ := hlocked.locked
    cases front <;> cases htrace
  · cases q with
    | idle => exact traced_idle_call hq r hmay
    | opened path =>
      cases hmay
      exact traced_opened_lock hq r
    | inside path left lenFile => exact traced_inside_call hq r hmay

/-! ### Any number of clients -/

/-- The phase of a client, what it has done, what the machine has for it and what it will do. -/
theorem phase_of_reach (h : (clients site visitors).Reach ok run) (k : κ) :
    ∃ q : LockPhase, q.Traced (run.trace k) ∧
      (run.gone k = false → q.Fits (visitors k).MayOpen site run.host k) ∧
      (run.gone k = true → ∀ i, ¬ run.host.Locks k i) ∧
      (run.program k).Typed (fileLock (visitors k).MayOpen) (fun _ q => q = .idle) q :=
  ⟨_, traced_of_steps (Host.steps_of_reach h k), (locksKept_of_reach h k).1, (locksKept_of_reach h k).2,
    Host.typed_of_reach (fun k => typed_visitor (visitors k)) h k⟩

omit [DecidableEq κ] [DecidableEq ι] in
theorem locks_iff_of_phase (htraced : q.Traced (run.trace k))
    (hfits : run.gone k = false → q.Fits (visitors k).MayOpen site run.host k)
    (hgone : run.gone k = true → ∀ i, ¬ run.host.Locks k i) (i : ι) :
    run.host.Locks k i ↔
      run.gone k = false ∧ ∃ path back, HasLocked path (run.trace k) back ∧ site.inode path = i := by
  constructor
  · intro hlock
    have hhere : run.gone k = false := eq_false_of_ne_true fun hleft => hgone hleft i hlock
    have hfits := hfits hhere
    refine ⟨hhere, ?_⟩
    cases q with
    | idle => exact absurd hlock (hfits i)
    | opened path => exact absurd hlock (hfits.2.2 i)
    | inside path left lenFile =>
      obtain ⟨⟨back, hlocked, -⟩, -⟩ := htraced
      exact ⟨path, back, hlocked, ((hfits.2.2.1 i).mp hlock).symm⟩
  · rintro ⟨hhere, path, back, hlocked, rfl⟩
    have hfits := hfits hhere
    cases q with
    | idle => exact absurd hlocked (htraced path back)
    | opened path' => exact absurd hlocked (htraced.2 path back)
    | inside path' left lenFile =>
      obtain rfl := htraced.2 path back hlocked
      exact (hfits.2.2.1 _).mpr rfl

/-- The system has a file locked for a client exactly when the client has locked it, has not given the
lock back and has not halted. So no two clients have the same file at a time. A client that has returned
has no lock, and neither has one that has halted. -/
theorem file_lock_iff (h : (clients site visitors).Reach ok run) (k : κ) :
    (∀ i, run.host.locker i = some (.client k) ↔
      run.gone k = false ∧ ∃ path back, HasLocked path (run.trace k) back ∧ site.inode path = i) ∧
    ((∃ a, run.program k = .ret a) ∨ run.gone k = true →
      ∀ i, run.host.locker i ≠ some (.client k)) := by
  obtain ⟨q, htraced, hfits, hgone, htyped⟩ := phase_of_reach h k
  refine ⟨locks_iff_of_phase htraced hfits hgone, ?_⟩
  rintro (⟨a, hreturned⟩ | hleft)
  · cases hhere : run.gone k with
    | true => exact hgone hhere
    | false =>
      -- what is typed gives the lock back before it returns
      rw [hreturned] at htyped
      obtain rfl : q = .idle := htyped
      exact hfits hhere
  · exact hgone hleft

/-- A client that has locked its file and has asked for the size. -/
def lockedTrace : Trace Answer :=
  smallRequest ++ [⟨.openFile smallPath, true⟩, ⟨.lockFile, true⟩, ⟨.fstat, some 2⟩]

theorem reach_locked :
    ∃ next : Answer (.mmap 2) → Serve Unit,
      (clients smallSite fun _ : Unit => smallVisitor).Reach (fun _ _ => True)
        (smallRunning lockedTrace (.call (.mmap 2) next)) := by
  have hsteps : ∃ next, smallVisitor.serve.Steps lockedTrace (.call (.mmap 2) next) := by
    refine ⟨?next, steps_smallRequest.trans ?_⟩
    rotate_left
    · iterate 3 apply Steps.call
      exact .refl _
  obtain ⟨next, hsteps⟩ := hsteps
  refine ⟨next, reach_smallRunning (fun _ _ => trivial) hsteps ?_⟩
  refine ⟨trivial, trivial, trivial, trivial, trivial, trivial, trivial, trivial, trivial, trivial, ?_⟩
  refine ⟨fun _ => ⟨(), rfl, rfl⟩, ?_, trivial⟩
  rintro n hn
  cases hn
  exact ⟨by decide, (), rfl, rfl⟩

theorem file_lock_iff_small :
    ∃ path back, HasLocked path lockedTrace back ∧ smallSite.inode path = () := by
  obtain ⟨next, hreach⟩ := reach_locked
  exact (((file_lock_iff hreach ()).1 ()).mp rfl).2

/-- A client with a lock has made fewer than six calls since, none of which waits for anybody, and can
take a step, whatever the others do. -/
theorem file_lock_prompt (h : (clients site visitors).Reach ok run) {k : κ} {i : ι}
    (hlock : run.host.locker i = some (.client k)) :
    (∃ path back, HasLocked path (run.trace k) back ∧ back.length < 6 ∧
      ∀ event ∈ back, event.1.Prompt) ∧
    ((∃ answer, (clients site visitors).enabled run (.call k answer)) ∨
      (clients site visitors).enabled run (.leave k)) := by
  obtain ⟨q, htraced, hfits, hgone, htyped⟩ := phase_of_reach h k
  have hhere : run.gone k = false := eq_false_of_ne_true fun hleft => hgone hleft i hlock
  have hfits := hfits hhere
  cases q with
  | idle => exact absurd hlock (hfits i)
  | opened path => exact absurd hlock (hfits.2.2 i)
  | inside path left lenFile =>
    obtain ⟨⟨back, hlocked, hcount, hleft, hprompt⟩, -⟩ := htraced
    refine ⟨⟨path, back, hlocked, by omega, hprompt⟩, ?_⟩
    cases hprogram : run.program k with
    | ret a =>
      rw [hprogram] at htyped
      cases htyped
    | halt e => exact .inr ⟨hhere, e, hprogram⟩
    | call c next =>
      rw [hprogram] at htyped
      obtain ⟨hprompt, -⟩ := prompt_of_mayInside (r := Classical.arbitrary _) htyped.1
      obtain ⟨r, hr⟩ := allows_of_prompt site run.host k hprompt
      obtain ⟨answer, -, henabled⟩ := Host.enabled_call (H := site.host) hprogram hr
      exact .inl ⟨answer, henabled⟩

theorem file_lock_prompt_small :
    ∃ path back, HasLocked path lockedTrace back ∧ back.length < 6 ∧ ∀ event ∈ back, event.1.Prompt := by
  obtain ⟨next, hreach⟩ := reach_locked
  exact (file_lock_prompt hreach (k := ()) (i := ()) rfl).1

theorem eq_contents_of_mapped (h : (clients site visitors).Reach ok run) {k : κ} {n : Nat}
    {next : Answer (.mmap n) → Serve Unit} (hprogram : run.program k = .call (.mmap n) next)
    {file : { file : List Byte // file.length = n }}
    (hallows : site.host.allows run.host k (.mmap n) (some file)) :
    ∃ path back, HasLocked path (run.trace k) back ∧ (visitors k).MayOpen path ∧
      file.1 = run.host.contents (site.inode path) := by
  obtain ⟨q, htraced, hfits, -, htyped⟩ := phase_of_reach h k
  have hfits := hfits (Host.not_gone_of_call h hprogram)
  rw [hprogram] at htyped
  cases q with
  | idle => exact htyped.1.elim
  | opened path => exact nomatch htyped.1
  | inside path left lenFile =>
    obtain ⟨⟨back, hlocked, -⟩, -⟩ := htraced
    obtain ⟨hpath, hopened, -, hlen⟩ := hfits
    refine ⟨path, back, hlocked, hpath, ?_⟩
    obtain ⟨i, hi, hshown⟩ := hallows file rfl
    cases hopened.symm.trans hi
    have hn := hlen n htyped.1.2
    calc file.1 = file.1.take (run.host.contents (site.inode path)).length :=
          (List.take_of_length_le (file.2.trans hn).le).symm
      _ = (run.host.contents (site.inode path)).take n := hshown
      _ = run.host.contents (site.inode path) := List.take_of_length_le hn.ge

end Sacagawea
