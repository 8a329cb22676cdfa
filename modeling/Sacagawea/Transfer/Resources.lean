import Sacagawea.Transfer.LoadFile

/-!
# What a transfer holds

`load_file_memory_and_send` opens a descriptor, has the open file description locked and maps the
file. Each of its branches that return has to give back what was taken before. The branch behind a
lock that is refused does not close the descriptor.
-/

namespace Sacagawea

open Program

structure Holdings where
  fd : Bool
  lock : Bool
  mapping : Bool
  deriving DecidableEq, Repr

namespace Holdings

def none : Holdings := ⟨false, false, false⟩

/-- What is held after a call. A lock goes with the last descriptor of its open file description.
`kept` says whether the system leaves a descriptor open when `close` fails. -/
def after (kept : Bool) (s : Holdings) : (Σ c, Answer c) → Holdings
  | ⟨.openFile _, (ok : Bool)⟩ => if ok then { s with fd := true } else s
  | ⟨.lockFile, (ok : Bool)⟩ => if ok then { s with lock := true } else s
  | ⟨.mmap _, mapped⟩ => if Option.isSome mapped then { s with mapping := true } else s
  | ⟨.unlockFile _, (ok : Bool)⟩ => if ok then { s with lock := false } else s
  | ⟨.close _, (ok : Bool)⟩ => if ok ∨ kept = false then { s with fd := false, lock := false } else s
  | ⟨.munmap, (ok : Bool)⟩ => if ok then { s with mapping := false } else s
  | _ => s

/-- What is held after the calls of a trace. -/
def afterAll (kept : Bool) (s : Holdings) (trace : Trace Answer) : Holdings :=
  trace.foldl (after kept) s

end Holdings

/-- A call that takes something or gives it back. -/
def Call.Holds : Call → Prop
  | .openFile _ | .lockFile | .mmap _ | .unlockFile _ | .close _ | .munmap => True
  | _ => False

theorem Call.Logs.not_holds {c : Call} (h : c.Logs) : ¬ c.Holds := by
  cases c <;> first | exact id | exact h.elim

variable {kept : Bool} {s : Holdings} {front back trace : Trace Answer}

theorem afterAll_append : s.afterAll kept (front ++ back) = (s.afterAll kept front).afterAll kept back :=
  List.foldl_append

theorem afterAll_cons {event : Σ c, Answer c} :
    s.afterAll kept (event :: trace) = (s.after kept event).afterAll kept trace := rfl

theorem after_of_not_holds {event : Σ c, Answer c} (h : ¬ event.1.Holds) : s.after kept event = s := by
  obtain ⟨c, answer⟩ := event
  cases c <;> first | rfl | exact absurd trivial h

theorem afterAll_of_not_holds (h : ∀ event ∈ trace, ¬ event.1.Holds) : s.afterAll kept trace = s := by
  induction trace with
  | nil => rfl
  | cons event trace ih =>
    obtain ⟨hevent, htrace⟩ := List.forall_mem_cons.mp h
    rw [afterAll_cons, after_of_not_holds hevent]
    exact ih htrace

theorem makesOnly_threadSender (rounds : Nat) (file : List Byte) (pathFile addr : CStr) :
    (threadSender rounds file pathFile addr).MakesOnly fun c => ¬ c.Holds := by
  refine .ask_bind id fun (ignored : Bool) => ?_
  cases ignored with
  | false => exact makesOnly_fail id 1
  | true =>
    refine (makesOnly_sendLoop id (fun _ => id) file file.length 0).bind fun sent => ?_
    cases sent with
    | none => trivial
    | some sent =>
      refine .ask_bind id fun (shut : Bool) => ?_
      cases shut with
      | false => exact makesOnly_log id
      | true =>
        refine (makesOnly_recvLoop id id rounds).bind fun closed => ?_
        change (if _ then _ else _ : Serve Unit).MakesOnly _
        split
        · exact makesOnly_logTransfer (fun _ => Call.Logs.not_holds) _ _ _
        · trivial

/-! ### What is held behind each branch -/

/-- The call leaves what it should take away. -/
def Strands (kept : Bool) : (Σ c, Answer c) → Prop
  | ⟨.lockFile, (ok : Bool)⟩ => ok = false
  | ⟨.close _, (ok : Bool)⟩ => ok = false ∧ kept = true
  | _ => False

/-- No call of the trace does. -/
def Clean (kept : Bool) (trace : Trace Answer) : Prop := ∀ event ∈ trace, ¬ Strands kept event

theorem clean_of_not_holds (h : ∀ event ∈ trace, ¬ event.1.Holds) : Clean kept trace := by
  intro ⟨c, answer⟩ hevent
  have hno := h _ hevent
  cases c <;> first | exact id | exact absurd trivial hno

theorem clean_append : Clean kept (front ++ back) ↔ Clean kept front ∧ Clean kept back :=
  List.forall_mem_append

theorem clean_cons {event : Σ c, Answer c} :
    Clean kept (event :: trace) ↔ ¬ Strands kept event ∧ Clean kept trace :=
  List.forall_mem_cons

theorem clean_cons_of_not {event : Σ c, Answer c} (h : ¬ Strands kept event) :
    Clean kept (event :: trace) ↔ Clean kept trace := by
  rw [clean_cons, and_iff_right h]

/-- What comes first can be left out when it holds nothing. -/
theorem leads_of_not_holds (kept : Bool) {α β : Type} {p : Serve α} {f : α → Serve β} {b : β}
    (hp : p.MakesOnly fun c => ¬ c.Holds) (h : (p >>= f).Leads trace (.ok b)) :
    ∃ back a, (f a).Leads back (.ok b) ∧ (∀ s : Holdings, s.afterAll kept trace = s.afterAll kept back) ∧
      (Clean kept trace ↔ Clean kept back) := by
  rcases Leads.of_bind h with ⟨e, he, -⟩ | ⟨front, back, a, rfl, hfront, hback⟩
  · cases he
  · have hquiet := hp.of_mem hfront
    refine ⟨back, a, hback, ?_, ?_⟩
    · intro s
      rw [afterAll_append, afterAll_of_not_holds hquiet]
    · rw [clean_append, and_iff_right (clean_of_not_holds hquiet)]

theorem giveUp_released {result : Bool} (h : giveUp.Leads trace (.ok result)) :
    Holdings.afterAll kept ⟨true, true, false⟩ trace = .none ↔ Clean kept trace := by
  obtain ⟨back, -, hunlock, hafter, hclean⟩ := leads_of_not_holds kept (makesOnly_log id) h
  rw [hafter, hclean]
  obtain ⟨(unlocked : Bool), rest, rfl, hlogs⟩ := leads_ask_bind_iff.mp hunlock
  obtain ⟨back, -, hclose, hafter, hclean⟩ :=
    leads_of_not_holds kept (makesOnly_logUnless id unlocked) hlogs
  rw [afterAll_cons, hafter, clean_cons_of_not id, hclean]
  obtain ⟨(closed : Bool), rest, rfl, hret⟩ := leads_ask_bind_iff.mp hclose
  obtain ⟨rfl, -⟩ := leads_ret_iff.mp hret
  have hrest : Clean kept [] := nofun
  rw [clean_cons, and_iff_left hrest]
  cases kept <;> cases closed <;> cases unlocked <;> simp [Holdings.afterAll, Holdings.after, Strands, Holdings.none]

theorem sendMapped_released {rounds : Nat} {file : List Byte} {pathFile addr : CStr} {result : Bool}
    (h : (sendMapped rounds file pathFile addr).Leads trace (.ok result)) :
    Holdings.afterAll kept ⟨true, true, true⟩ trace = .none ∧ Clean kept trace := by
  obtain ⟨unlocked, rest, rfl, hunlock⟩ := leads_ask_bind_iff.mp h
  obtain rfl := eq_true_of_require hunlock
  obtain ⟨closed, rest, rfl, hclose⟩ := leads_ask_bind_iff.mp hunlock
  obtain rfl := eq_true_of_require hclose
  obtain ⟨created, rest, rfl, hcreate⟩ := leads_ask_bind_iff.mp hclose
  obtain rfl := eq_true_of_require hcreate
  obtain ⟨back, -, hjoin, hafter, hclean⟩ :=
    leads_of_not_holds kept (makesOnly_threadSender rounds file pathFile addr) hcreate
  obtain ⟨joined, rest, rfl, hjoined⟩ := leads_ask_bind_iff.mp hjoin
  obtain rfl := eq_true_of_require hjoined
  obtain ⟨unmapped, rest, rfl, hunmap⟩ := leads_ask_bind_iff.mp hjoined
  obtain rfl := eq_true_of_require hunmap
  obtain ⟨rfl, -⟩ := leads_ret_iff.mp hunmap
  have hrest : Clean kept [] := nofun
  constructor
  · simp only [afterAll_cons, hafter]
    rfl
  · refine clean_cons.mpr ⟨id, clean_cons.mpr ⟨nofun, clean_cons.mpr ⟨id, hclean.mpr ?_⟩⟩⟩
    exact clean_cons.mpr ⟨id, clean_cons.mpr ⟨id, hrest⟩⟩

/-- A run that returns leaves nothing behind exactly when the lock was not refused, and no `close`
failed in a way that leaves the descriptor open. -/
theorem released_iff {rounds : Nat} {pathFile addr : CStr} {result : Bool}
    (h : (loadFileMemoryAndSend rounds pathFile addr).Leads trace (.ok result)) :
    Holdings.none.afterAll kept trace = .none ↔ Clean kept trace := by
  obtain ⟨(opened : Bool), rest, rfl, hlock⟩ := leads_ask_bind_iff.mp h
  rw [afterAll_cons, clean_cons_of_not id]
  cases opened with
  | false =>
    obtain ⟨back, -, hret, hafter, hclean⟩ := leads_of_not_holds kept (makesOnly_log id) hlock
    obtain ⟨rfl, -⟩ := leads_ret_iff.mp hret
    rw [hafter, hclean]
    exact iff_of_true rfl nofun
  | true =>
    obtain ⟨(locked : Bool), rest, rfl, hstat⟩ := leads_ask_bind_iff.mp hlock
    rw [afterAll_cons]
    cases locked with
    | false =>
      obtain ⟨back, -, hret, hafter, -⟩ := leads_of_not_holds kept (makesOnly_log id) hstat
      obtain ⟨rfl, -⟩ := leads_ret_iff.mp hret
      rw [hafter]
      exact iff_of_false nofun fun hclean => (clean_cons.mp hclean).1 rfl
    | true =>
      have hlocked : ¬ Strands kept ⟨.lockFile, true⟩ := nofun
      rw [clean_cons_of_not hlocked]
      obtain ⟨(statFd : Option Nat), rest, rfl, hmap⟩ := leads_ask_bind_iff.mp hstat
      rw [afterAll_cons, clean_cons_of_not id]
      cases statFd with
      | none => exact giveUp_released hmap
      | some lenFile =>
        obtain ⟨(mapped : Option { file : List Byte // file.length = lenFile }), rest, rfl, hsend⟩ :=
          leads_ask_bind_iff.mp hmap
        rw [afterAll_cons, clean_cons_of_not id]
        cases mapped with
        | none => exact giveUp_released hsend
        | some file => exact iff_of_true (sendMapped_released hsend).1 (sendMapped_released hsend).2

/-- The calls for a file whose lock is refused, as with no more locks to be had. -/
def refusedLock : Trace Answer :=
  [⟨.openFile (CStr.lit "/srv/locked"), true⟩, ⟨.lockFile, false⟩, ⟨.writeLog, LogAnswer.printed⟩]

/-- The descriptor of the file stays with the process. -/
theorem refusedLock_keeps_descriptor :
    (loadFileMemoryAndSend 1 (CStr.lit "/srv/locked") (CStr.lit "10.0.0.1:80")).Leads refusedLock
        (.ok false) ∧
      Holdings.none.afterAll false refusedLock = ⟨true, false, false⟩ := by
  refine ⟨?_, rfl⟩
  repeat apply Steps.call
  exact .refl _

theorem emptyFile_released : Holdings.none.afterAll true emptyFile = .none := by
  have hrun : (loadFileMemoryAndSend 1 (CStr.lit "/srv/empty") (CStr.lit "10.0.0.1:80")).Leads emptyFile
      (.ok false) := by
    repeat apply Steps.call
    exact .refl _
  refine (released_iff hrun).mpr ?_
  simp [Clean, emptyFile, Strands]

end Sacagawea
