import Sacagawea.Lib.Interleave
import Sacagawea.Win32.ThreadSender

/-!
# The file of a client on Windows

On Windows `load_file_memory_and_send` opens the file for itself alone, maps it, starts `thread_sender`
and closes its handles behind that. When a call fails it returns at once, with the handles it has.

In mode `t` the clients are threads of one process, and a handle that is left over is closed when that
ends. Until then nobody can open the file again.
-/

namespace Sacagawea

namespace Win32

namespace LoadFile

open Program

/-- The calls that succeed or fail. -/
inductive Act where
  | createFileA (pathFile : CStr)
  | createFileMappingA (high low : UInt32)
  | createThread
  | closeFile
  | waitForSingleObject
  | closeThread
  | closeMapping
  deriving DecidableEq

inductive LoadCall where
  | act (a : Act)
  | writeLog
  | getFileSizeEx

/-- What a call gives: whether it succeeds, or the size of the file if it does. -/
def LoadAnswer : LoadCall → Type
  | .act _ | .writeLog => Bool
  | .getFileSizeEx => Option Nat

instance : (c : LoadCall) → Nonempty (LoadAnswer c)
  | .act _ | .writeLog => ⟨true⟩
  | .getFileSizeEx => ⟨none⟩

abbrev Load := Program LoadAnswer Ending

/-! ### The code -/

abbrev perform (c : LoadCall) : Load (LoadAnswer c) := Program.ask c

def log : Load Unit := do
  let printed : Bool ← perform .writeLog
  if printed then return () else .halt (.exit 5)

/-- `write_log` and `return false`. -/
def giveUp : Load Bool := do
  log
  return false

/-- A call, and what comes next when it succeeds. -/
def andThen (a : Act) (next : Load Bool) : Load Bool := do
  let succeeds : Bool ← perform (.act a)
  if succeeds then next else giveUp

/-- Behind `CreateThread`. -/
def finish : Load Bool :=
  andThen .closeFile (andThen .waitForSingleObject (andThen .closeThread (andThen .closeMapping (.ret true))))

/-- Behind `CreateFileA`. -/
def share : Load Bool := do
  let size : Option Nat ← perform .getFileSizeEx
  match size with
  | none => giveUp
  | some lenFile => do
    log
    andThen (.createFileMappingA (hidword lenFile) (lodword lenFile)) do
      log
      andThen .createThread finish

def loadFileMemoryAndSend (pathFile : CStr) : Load Bool := andThen (.createFileA pathFile) share

/-! ### The handles of a client -/

/-- The handles that are open, with the path of the file, and whether the file has been opened at all. -/
structure Held where
  file : Option CStr
  mapping : Bool
  thread : Bool
  opened : Bool
  deriving DecidableEq

namespace Held

def start : Held := ⟨none, false, false, false⟩

/-- No handle is open. -/
def Nothing (q : Held) : Prop := q.file = none ∧ q.mapping = false ∧ q.thread = false

instance (q : Held) : Decidable q.Nothing := inferInstanceAs (Decidable (_ ∧ _ ∧ _))

/-- A call is made with a handle that is open, and for one that is not. -/
def May (q : Held) : Act → Prop
  | .createFileA _ => q = .start
  | .createFileMappingA .. => q.file ≠ none ∧ q.mapping = false
  | .createThread => q.mapping = true ∧ q.thread = false
  | .closeFile => q.file ≠ none
  | .waitForSingleObject | .closeThread => q.thread = true
  | .closeMapping => q.mapping = true

def after (q : Held) : Act → Held
  | .createFileA pathFile => { q with file := some pathFile, opened := true }
  | .createFileMappingA .. => { q with mapping := true }
  | .createThread => { q with thread := true }
  | .closeFile => { q with file := none }
  | .waitForSingleObject => q
  | .closeThread => { q with thread := false }
  | .closeMapping => { q with mapping := false }

end Held

/-- What the calls do to the handles. -/
def holding : Typestate LoadAnswer Held where
  may q
    | .act a => q.May a
    | .writeLog => True
    | .getFileSizeEx => q.file ≠ none
  next q
    | .act a, (succeeds : Bool) => if succeeds then q.after a else q
    | .writeLog, _ | .getFileSizeEx, _ => q

def held (trace : Trace LoadAnswer) : Held := holding.after .start trace

/-- No handle is left when the function returns `true`, or when the file has not been opened. -/
def Left (b : Bool) (q : Held) : Prop := q.Nothing ↔ b = true ∨ q.opened = false

instance (b : Bool) (q : Held) : Decidable (Left b q) := inferInstanceAs (Decidable (_ ↔ _))

variable {q : Held} {a : Act} {next : Load Bool}

theorem typed_log {post : Unit → Held → Prop} (h : post () q) : log.Typed holding post q := by
  refine .ask_bind trivial fun (printed : Bool) => ?_
  cases printed with
  | false => trivial
  | true => exact h

theorem typed_log_bind {post : Bool → Held → Prop} (h : next.Typed holding post q) :
    (log >>= fun _ => next).Typed holding post q := by
  have hlog : log.Typed holding (fun _ q' => q' = q) q := typed_log rfl
  exact hlog.bind fun _ _ hq => hq ▸ h

theorem typed_andThen (hmay : q.May a) (hleft : Left false q) (h : next.Typed holding Left (q.after a)) :
    (andThen a next).Typed holding Left q := by
  refine .ask_bind hmay fun (succeeds : Bool) => ?_
  cases succeeds with
  | false => exact typed_log_bind hleft
  | true => exact h

theorem typed_loadFileMemoryAndSend (pathFile : CStr) :
    (loadFileMemoryAndSend pathFile).Typed holding Left .start := by
  refine typed_andThen rfl (by decide) (.ask_bind nofun fun (size : Option Nat) => ?_)
  cases size with
  | none => exact typed_log_bind (iff_of_false nofun nofun)
  | some lenFile =>
    refine typed_log_bind (typed_andThen ⟨nofun, rfl⟩ (iff_of_false nofun nofun) (typed_log_bind ?_))
    refine typed_andThen ⟨rfl, rfl⟩ (iff_of_false nofun nofun) ?_
    refine typed_andThen nofun (iff_of_false nofun nofun) ?_
    have hmapping : ∀ q : Held, q.opened = true → q.mapping = true → Left false q := fun q hopened hq =>
      iff_of_false (fun hnothing => nomatch hq.symm.trans hnothing.2.1)
        (not_or.mpr ⟨nofun, fun hno => nomatch hopened.symm.trans hno⟩)
    refine typed_andThen rfl (hmapping _ rfl rfl) (typed_andThen rfl (hmapping _ rfl rfl) ?_)
    exact typed_andThen rfl (hmapping _ rfl rfl) (iff_of_true ⟨rfl, rfl, rfl⟩ (.inl rfl))

/-- `CreateFileA` has succeeded. -/
def Opens (event : Σ c, LoadAnswer c) : Prop := ∃ pathFile, event = ⟨.act (.createFileA pathFile), true⟩

theorem opened_next (q : Held) (event : Σ c, LoadAnswer c) :
    (holding.next q event.1 event.2).opened = true ↔ q.opened = true ∨ Opens event := by
  have hstays : ¬ Opens event → (q.opened = true ↔ q.opened = true ∨ Opens event) :=
    fun hno => (or_iff_left hno).symm
  obtain ⟨c, r⟩ := event
  cases c with
  | writeLog | getFileSizeEx => exact hstays fun ⟨_, h⟩ => nomatch congrArg Sigma.fst h
  | act a =>
    change Bool at r
    cases r with
    | false => exact hstays fun ⟨_, h⟩ => nomatch h
    | true =>
      cases a with
      | createFileA pathFile => exact iff_of_true rfl (.inr ⟨pathFile, rfl⟩)
      | _ => exact hstays fun ⟨_, h⟩ => nomatch congrArg Sigma.fst h

theorem opened_after (q : Held) (trace : Trace LoadAnswer) :
    (holding.after q trace).opened = true ↔ q.opened = true ∨ ∃ event ∈ trace, Opens event := by
  induction trace generalizing q with
  | nil => simp
  | cons event trace ih => rw [Typestate.after_cons, ih, opened_next, List.exists_mem_cons_iff, or_assoc]

/-- The function leaves no handle open exactly when it returns `true`, or has not opened the file. -/
theorem load_leaves_nothing_iff {pathFile : CStr} {trace : Trace LoadAnswer} {b : Bool}
    (h : (loadFileMemoryAndSend pathFile).Steps trace (.ret b)) :
    (held trace).Nothing ↔ b = true ∨ ∀ event ∈ trace, ¬ Opens event := by
  have hleft : Left b (held trace) := (typed_loadFileMemoryAndSend pathFile).post_of_steps h
  have hopened : (held trace).opened = true ↔ ∃ event ∈ trace, Opens event :=
    (opened_after .start trace).trans (or_iff_right Bool.false_ne_true)
  refine hleft.trans (or_congr_right ?_)
  rw [← Bool.not_eq_true, hopened]
  push Not
  rfl

/-- `GetFileSizeEx` fails. -/
def smallFailure (pathFile : CStr) : Trace LoadAnswer :=
  [⟨.act (.createFileA pathFile), true⟩, ⟨.getFileSizeEx, (none : Option Nat)⟩, ⟨.writeLog, true⟩]

theorem steps_smallFailure (pathFile : CStr) :
    (loadFileMemoryAndSend pathFile).Steps (smallFailure pathFile) (.ret false) := by
  iterate 3 apply Steps.call
  exact .refl _

theorem load_leaves_nothing_small : ¬ (held (smallFailure (CStr.lit "hi"))).Nothing := by
  intro hnothing
  rcases (load_leaves_nothing_iff (steps_smallFailure (CStr.lit "hi"))).mp hnothing with hb | hno
  · exact Bool.false_ne_true hb
  · exact hno _ (.head _) ⟨_, rfl⟩

/-! ### Many clients -/

/-- Who has a file open: nobody, a client, or another program. -/
inductive Owner (κ : Type) where
  | free
  | client (k : κ)
  | outside
  deriving DecidableEq

/-- The files, and whether the server has ended. -/
structure Files (κ ι : Type) where
  owner : ι → Owner κ
  ended : Bool

/-- What other programs do, and the end of the server for a reason of its own. -/
inductive Outside (ι : Type) where
  | opens (i : ι)
  | closes (i : ι)
  | ends

variable {κ ι : Type} [DecidableEq κ] [DecidableEq ι] (inode : CStr → ι)

namespace Files

/-- The handles of a client, or of all, are closed. -/
def release (s : Files κ ι) (gone : κ → Bool) : ι → Owner κ := fun i => match s.owner i with
  | .client k => if gone k then .free else .client k
  | owner => owner

/-- A file is opened when nobody else has it open. -/
def Allows (s : Files κ ι) : (c : LoadCall) → LoadAnswer c → Prop
  | .act (.createFileA pathFile), (succeeds : Bool) => s.ended = false ∧
    (succeeds = true → s.owner (inode pathFile) = .free)
  | _, _ => s.ended = false

def after (s : Files κ ι) (k : κ) : (c : LoadCall) → LoadAnswer c → Files κ ι
  | .act (.createFileA pathFile), (succeeds : Bool) =>
    if succeeds then { s with owner := Function.update s.owner (inode pathFile) (.client k) } else s
  | .act .closeFile, (succeeds : Bool) =>
    if succeeds then { s with owner := s.release (· = k) } else s
  | _, _ => s

/-- The server ends, and with it all of its handles. -/
def finished (s : Files κ ι) : Files κ ι := ⟨s.release fun _ => true, true⟩

end Files

/-- The files that the threads of the server share. A thread that halts ends them all. -/
def files : Host κ LoadAnswer (Files κ ι) (Outside ι) where
  init := ⟨fun _ => .free, false⟩
  allows s _ := s.Allows inode
  after := Files.after inode
  halted s _ := s.finished
  enabled s
    | .opens i => s.owner i = .free
    | .closes i => s.owner i = .outside
    | .ends => True
  next s
    | .opens i => { s with owner := Function.update s.owner i .outside }
    | .closes i => { s with owner := Function.update s.owner i .free }
    | .ends => s.finished

/-- Clients that ask for files. -/
abbrev threads (pathFile : κ → CStr) :=
  (files inode).system fun k => loadFileMemoryAndSend (pathFile k)

variable {inode} {q : κ → Held} {s : Files κ ι} {k : κ} {pathFile : CStr}

/-- The files that are open for clients are those in the handles of the clients. -/
def Agrees (inode : CStr → ι) (q : κ → Held) (s : Files κ ι) : Prop :=
  ∀ i k, s.owner i = .client k ↔ ∃ path, (q k).file = some path ∧ inode path = i

omit [DecidableEq κ] [DecidableEq ι] in
theorem Files.release_eq_client_iff {gone : κ → Bool} {i : ι} :
    s.release gone i = .client k ↔ s.owner i = .client k ∧ gone k = false := by
  rw [Files.release]
  cases s.owner i with
  | free | outside => exact iff_of_false nofun fun h => nomatch h.1
  | client j =>
    dsimp only
    by_cases hj : gone j = true
    · rw [if_pos hj]
      refine iff_of_false nofun fun h => ?_
      cases h.1
      exact Bool.false_ne_true (h.2.symm.trans hj)
    · rw [if_neg hj]
      refine ⟨fun heq => ⟨heq, ?_⟩, And.left⟩
      exact Owner.client.inj heq ▸ eq_false_of_ne_true hj

omit [DecidableEq ι] in
/-- A call that leaves the file of the client alone. -/
theorem Agrees.keeps (h : Agrees inode q s) {q' : Held} (hfile : q'.file = (q k).file) :
    Agrees inode (Function.update q k q') s := by
  intro i j
  rw [h i j]
  by_cases hj : j = k
  · subst hj
    rw [Function.update_self, hfile]
  · rw [Function.update_of_ne hj]

theorem Agrees.opens (h : Agrees inode q s) (hnone : (q k).file = none)
    (hfree : s.owner (inode pathFile) = .free) {q' : Held} (hfile : q'.file = some pathFile) :
    Agrees inode (Function.update q k q')
      { s with owner := Function.update s.owner (inode pathFile) (.client k) } := by
  intro i j
  change Function.update s.owner (inode pathFile) (.client k) i = .client j ↔ _
  by_cases hj : j = k
  · subst hj
    rw [Function.update_self, hfile]
    by_cases hi : i = inode pathFile
    · subst hi
      exact iff_of_true (Function.update_self ..) ⟨pathFile, rfl, rfl⟩
    · rw [Function.update_of_ne hi, h i j, hnone]
      exact iff_of_false nofun fun ⟨_, hpath, hinode⟩ => hi (Option.some.inj hpath ▸ hinode.symm)
  · rw [Function.update_of_ne hj]
    by_cases hi : i = inode pathFile
    · subst hi
      rw [Function.update_self, ← h, hfree]
      exact iff_of_false (fun heq => hj (Owner.client.inj heq).symm) nofun
    · rw [Function.update_of_ne hi]
      exact h i j

omit [DecidableEq ι] in
theorem Agrees.closes (h : Agrees inode q s) {q' : Held} (hfile : q'.file = none) :
    Agrees inode (Function.update q k q') { s with owner := s.release (· = k) } := by
  intro i j
  change s.release (· = k) i = .client j ↔ _
  rw [Files.release_eq_client_iff, decide_eq_false_iff_not]
  by_cases hj : j = k
  · subst hj
    rw [Function.update_self, hfile]
    exact iff_of_false (fun hboth => hboth.2 rfl) nofun
  · rw [Function.update_of_ne hj, and_iff_left hj]
    exact h i j

omit [DecidableEq κ] in
/-- The file of another program is none of a client's. -/
theorem update_owner_iff {i : ι} {old new : Owner κ} (hold : s.owner i = old) (hne : ∀ j, old ≠ .client j)
    (hnew : ∀ j, new ≠ .client j) (i' : ι) (j : κ) :
    Function.update s.owner i new i' = .client j ↔ s.owner i' = .client j := by
  by_cases hi : i' = i
  · subst hi
    rw [Function.update_self, hold]
    exact iff_of_false (hnew j) (hne j)
  · rw [Function.update_of_ne hi]

/-- As long as the server runs, a file is open for the client that has it in its handles. Later no file is
open for a client. -/
def FilesKept (inode : CStr → ι) (q : κ → Held) (s : Files κ ι) : Prop :=
  (s.ended = false → Agrees inode q s) ∧ (s.ended = true → ∀ i k, s.owner i ≠ .client k)

omit [DecidableEq κ] [DecidableEq ι] in
theorem filesKept_finished (inode : CStr → ι) (q : κ → Held) (s : Files κ ι) :
    FilesKept inode q s.finished :=
  ⟨nofun, fun _ _ _ howner => nomatch (Files.release_eq_client_iff.mp howner).2⟩

theorem filesKept_call (h : FilesKept inode q s) {c : LoadCall} {r : LoadAnswer c}
    (hmay : holding.may (q k) c) (hallows : s.Allows inode c r) :
    FilesKept inode (Function.update q k (holding.next (q k) c r)) (s.after inode k c r) := by
  have hkeeps : ∀ q' : Held, q'.file = (q k).file → FilesKept inode (Function.update q k q') s :=
    fun q' hfile => ⟨fun hended => (h.1 hended).keeps hfile, h.2⟩
  cases c with
  | writeLog | getFileSizeEx => exact hkeeps _ rfl
  | act a =>
    change Bool at r
    cases r with
    | false => cases a <;> exact hkeeps _ rfl
    | true =>
      cases a <;> first | exact hkeeps _ rfl | skip
      case createFileA path =>
        obtain ⟨hended, hfree⟩ := hallows
        have hnone : (q k).file = none := congrArg Held.file hmay
        exact ⟨fun _ => (h.1 hended).opens hnone (hfree rfl) rfl, fun h => nomatch hended.symm.trans h⟩
      case closeFile =>
        have hended : s.ended = false := hallows
        exact ⟨fun _ => (h.1 hended).closes rfl, fun h => nomatch hended.symm.trans h⟩

omit [DecidableEq κ] in
theorem filesKept_outside (h : FilesKept inode q s) {i : ι} {old new : Owner κ} (hold : s.owner i = old)
    (hne : ∀ j, old ≠ .client j) (hnew : ∀ j, new ≠ .client j) :
    FilesKept inode q { s with owner := Function.update s.owner i new } := by
  have howner := update_owner_iff hold hne hnew
  refine ⟨fun hended i' j => (howner i' j).trans (h.1 hended i' j), fun hended i' j hclient => ?_⟩
  exact h.2 hended i' j ((howner i' j).mp hclient)

/-- Clients that ask for files, and what has become of them. -/
abbrev Loading (κ ι : Type) := Interleaving κ LoadAnswer Ending Bool (Files κ ι)

variable {paths : κ → CStr} {run : Loading κ ι} {ok : Loading κ ι → Turn κ LoadAnswer (Outside ι) → Prop}

theorem filesKept_of_reach (h : (threads inode paths).Reach ok run) :
    FilesKept inode (fun k => held (run.trace k)) run.host := by
  refine Host.invariant (I := fun q _ s => FilesKept inode q s)
    (fun k => typed_loadFileMemoryAndSend (paths k)) ?_ ?_ ?_ ?_ h
  · exact ⟨fun _ _ _ => iff_of_false nofun nofun, nofun⟩
  · exact fun q gone host k c r hkept _ => filesKept_call hkept
  · exact fun q gone host k _ _ => filesKept_finished inode q host
  · intro q gone host a hkept henabled
    cases a with
    | opens i => exact filesKept_outside hkept henabled nofun nofun
    | closes i => exact filesKept_outside hkept henabled nofun nofun
    | ends => exact filesKept_finished inode q host

/-- While the server runs, a file is open for a client exactly when the client has its handle. -/
theorem owner_iff (h : (threads inode paths).Reach ok run) (hended : run.host.ended = false) (i : ι) (k : κ) :
    run.host.owner i = .client k ↔ ∃ path, (held (run.trace k)).file = some path ∧ inode path = i :=
  (filesKept_of_reach h).1 hended i k

/-- The event opens the file. -/
def OpensFile (inode : CStr → ι) (i : ι) (event : Σ c, LoadAnswer c) : Prop :=
  ∃ path, event = ⟨.act (.createFileA path), true⟩ ∧ inode path = i

/-- A client that has returned is as it was, and nobody has opened the file since. -/
structure Stuck (inode : CStr → ι) (i : ι) (k : κ) (before run : Loading κ ι) : Prop where
  program : run.program k = before.program k
  trace : run.trace k = before.trace k
  others : ∀ j, ∃ back, run.trace j = before.trace j ++ back ∧ ∀ event ∈ back, ¬ OpensFile inode i event

theorem Stuck.call {before : Loading κ ι} {path : CStr} {b : Bool} (h : Stuck inode (inode path) k before run)
    (hreach : (threads inode paths).Reach ok run) (hprogram : before.program k = .ret b)
    (hfile : (held (before.trace k)).file = some path) {j : κ} {answer : (c : LoadCall) → LoadAnswer c}
    (henabled : (threads inode paths).enabled run (.call j answer)) :
    Stuck inode (inode path) k before ((threads inode paths).next run (.call j answer)) := by
  obtain ⟨c, next, hcall, hallows⟩ := henabled
  have hj : k ≠ j := by
    rintro rfl
    cases hcall.symm.trans (h.program.trans hprogram)
  -- nobody else can open the file, since the client still has it
  have hno : ¬ OpensFile inode (inode path) ⟨c, answer c⟩ := by
    rintro ⟨path', hevent, hinode⟩
    obtain ⟨rfl, hanswer⟩ := Sigma.mk.inj hevent
    obtain ⟨hended, hfree⟩ := hallows
    have howner := (owner_iff hreach hended (inode path) k).mpr ⟨path, h.trace ▸ hfile, rfl⟩
    cases (hinode ▸ hfree (eq_of_heq hanswer)).symm.trans howner
  change Stuck inode (inode path) k before ((files inode).turn run (.call j answer))
  rw [Host.turn_call hcall]
  refine ⟨(Function.update_of_ne hj ..).trans h.program, (Function.update_of_ne hj ..).trans h.trace, ?_⟩
  intro i
  obtain ⟨back, hback, hothers⟩ := h.others i
  by_cases hi : i = j
  · subst hi
    refine ⟨back ++ [⟨c, answer c⟩], ?_, List.forall_mem_append.mpr ⟨hothers, ?_⟩⟩
    · simp only [Function.update_self, hback, List.append_assoc]
    · exact List.forall_mem_singleton.mpr hno
  · exact ⟨back, (Function.update_of_ne hi ..).trans hback, hothers⟩

/-- A client that has returned with its file open keeps it as long as the server runs. Nobody opens the
file in that time, whatever the clients and others do. -/
theorem file_stuck (h : (threads inode paths).Reach ok run) {b : Bool} {path : CStr}
    (hprogram : run.program k = .ret b) (hfile : (held (run.trace k)).file = some path)
    {actions : List (Turn κ LoadAnswer (Outside ι))} (hruns : (threads inode paths).Runs ok run actions) :
    let last := (threads inode paths).after run actions
    (last.host.ended = false → last.host.owner (inode path) = .client k) ∧
      ∀ j, ∃ back, last.trace j = run.trace j ++ back ∧ ∀ event ∈ back, ¬ OpensFile inode (inode path) event := by
  obtain ⟨hreach, hstuck⟩ : (threads inode paths).Reach ok ((threads inode paths).after run actions) ∧
      Stuck inode (inode path) k run ((threads inode paths).after run actions) := by
    refine hruns.invariant (I := fun s => (threads inode paths).Reach ok s ∧ Stuck inode (inode path) k run s)
      ⟨h, rfl, rfl, fun j => ⟨[], (List.append_nil _).symm, nofun⟩⟩ ?_
    rintro s a - ⟨hs, hstuck⟩ hok henabled
    refine ⟨hs.step hok henabled, ?_⟩
    cases a with
    | leave => exact ⟨hstuck.program, hstuck.trace, hstuck.others⟩
    | own => exact ⟨hstuck.program, hstuck.trace, hstuck.others⟩
    | call j answer => exact hstuck.call hs hprogram hfile henabled
  exact ⟨fun hended => (owner_iff hreach hended _ k).mpr ⟨path, hstuck.trace ▸ hfile, rfl⟩, hstuck.others⟩

/-- Two clients that ask for one file. -/
abbrev smallThreads : Transition (Loading Bool Unit) (Turn Bool LoadAnswer (Outside Unit)) :=
  threads (fun _ => ()) fun _ => CStr.lit "hi"

/-- One of them could not ask for the size. -/
theorem reach_smallFailure : ∃ run : Loading Bool Unit, smallThreads.Reach (fun _ _ => True) run ∧
    run.program false = .ret false ∧ run.trace false = smallFailure (CStr.lit "hi") ∧
    run.program true = loadFileMemoryAndSend (CStr.lit "hi") ∧ run.host.ended = false := by
  have hinit : smallThreads.Reach (fun _ _ => True) _ := .init
  have hreach := Host.reach_of_steps hinit (fun _ _ => trivial) (k := false)
    (steps_smallFailure (CStr.lit "hi")) ⟨⟨rfl, fun _ => rfl⟩, rfl, rfl, trivial⟩
  exact ⟨_, hreach, rfl, rfl, rfl, rfl⟩

/-- Nothing succeeds. -/
def refuse : (c : LoadCall) → LoadAnswer c
  | .act _ | .writeLog => false
  | .getFileSizeEx => none

/-- The other one gets no file. -/
theorem file_stuck_small : ∃ run : Loading Bool Unit, smallThreads.Reach (fun _ _ => True) run ∧
    run.program true = giveUp ∧ run.host.owner () = .client false := by
  obtain ⟨run, hreach, hprogram, htrace, hother, hended⟩ := reach_smallFailure
  have hruns : smallThreads.Runs (fun _ _ => True) run [.call true refuse] :=
    ⟨trivial, ⟨_, _, hother, hended, nofun⟩, trivial⟩
  have hfile : (held (run.trace false)).file = some (CStr.lit "hi") := htrace ▸ rfl
  have hlast : smallThreads.after run [.call true refuse] =
      (files fun _ => ()).turn run (.call true refuse) := rfl
  have hstuck := file_stuck hreach hprogram hfile hruns
  rw [hlast, Host.turn_call hother] at hstuck
  have hreach' := hreach.after hruns
  rw [hlast, Host.turn_call hother] at hreach'
  refine ⟨_, hreach', ?_, hstuck.1 hended⟩
  change Function.update run.program true _ true = giveUp
  exact Function.update_self ..

end LoadFile

end Win32

end Sacagawea
