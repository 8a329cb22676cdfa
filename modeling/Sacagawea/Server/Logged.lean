import Sacagawea.Log.Conservation
import Sacagawea.Server.FileLock

/-!
# What the log says of the clients

The log protocol was looked at for senders that do nothing else. The clients of the server have to get
so far first: a file is opened, mapped and sent, the connection is shut down and closed by the client,
and the record names that file. With any number of clients in any order, the machine goes through states
of the log protocol for the records of these transfers (`log_refined`). So what is known of the protocol
holds of the server, and each text in the log is that of a transfer that took place.

A file is sent from its mapping when it is neither locked nor open any more. It is a private mapping, in
which the writes of others may show. So the clients are looked at in runs where other programs do not
write a file while it is mapped (`LeavesMapped`), and then a client is handed what is on the disk.
-/

namespace Sacagawea

open Program

/-! ### How far a client is -/

/-- Where a sender stands behind a call. -/
def SenderPc.after (pc : SenderPc) : (Σ c, Answer c) → SenderPc
  | ⟨.mutexLock, (ok : Bool)⟩ => if ok then .counted else pc
  | ⟨.writeLen _, (answer : PipeAnswer)⟩ => if answer = .written then .headed else .died
  | ⟨.writeText _, (answer : PipeAnswer)⟩ => if answer = .written then .bodied else .died
  | ⟨.condSignal, _⟩ => .signalled
  | ⟨.mutexUnlock, _⟩ => .done
  | _ => pc

/-- Where a client stands in the log protocol. -/
def senderOf (trace : Trace Answer) : SenderPc := trace.foldl SenderPc.after .start

/-- How far a client is with its file. -/
inductive Visit where
  | idle
  | opened (path : CStr)
  | mapped (path : CStr) (file : List Byte)
  | sending (path : CStr) (file : List Byte) (sent : Nat) (shut closed : Bool)
  | dated (path : CStr) (file : List Byte) (tm : Tm)
  | entered (path : CStr) (file : List Byte) (tm : Tm) (pc : SenderPc)

namespace Visit

def pc : Visit → SenderPc
  | .entered _ _ _ pc => pc
  | _ => .start

def MayBegin (good : CStr → Prop) : Call → Prop
  | .openFile path => good path
  | c => c.Plain

def MayMap : Call → Prop
  | .lockFile | .fstat | .mmap _ | .writeLog | .unlockFile _ | .close _ => True
  | _ => False

def MayStart : Call → Prop
  | .unlockFile _ | .close _ | .createThread | .signal | .writeLog => True
  | _ => False

/-- The file is sent from where it is, and the date is for a file that is through. -/
def MaySend (file : List Byte) (sent : Nat) (shut closed : Bool) : Call → Prop
  | .send rest => rest = file.drop sent
  | .dateString => sent = file.length ∧ shut = true ∧ closed = true
  | .shutdown | .recv | .writeLog | .joinThread | .munmap => True
  | _ => False

def MayEnter : Call → Prop
  | .allocate _ | .format | .mutexLock | .writeLog | .joinThread | .munmap => True
  | _ => False

/-- In the critical section the steps are those of a sender of the log protocol. -/
def MayRecord (record : CStr) (pc : SenderPc) : Call → Prop
  | .writeLen len => pc = .counted ∧ len = record.strlen
  | .writeText text => pc = .headed ∧ text = record
  | .condSignal => pc = .bodied
  | .mutexUnlock => pc = .signalled
  | .writeLog | .joinThread | .munmap => True
  | _ => False

def begun : (c : Call) → Answer c → Visit
  | .openFile path, (ok : Bool) => if ok then .opened path else .idle
  | _, _ => .idle

def map (path : CStr) : (c : Call) → Answer c → Visit
  | .mmap _, (fileToSend : Option { file : List Byte // file.length = _ }) =>
    match fileToSend with
    | some file => .mapped path file.1
    | none => .opened path
  | _, _ => .opened path

def start (path : CStr) (file : List Byte) : (c : Call) → Answer c → Visit
  | .signal, (ok : Bool) => if ok then .sending path file 0 false false else .mapped path file
  | _, _ => .mapped path file

def send (path : CStr) (file : List Byte) (sent : Nat) (shut closed : Bool) :
    (c : Call) → Answer c → Visit
  | .send _, (temp : Int) => .sending path file (sent + temp.toNat) shut closed
  | .shutdown, (ok : Bool) => .sending path file sent ok closed
  | .recv, (result : Int) => .sending path file sent shut (result = 0)
  | .dateString, (date : Option Tm) =>
    match date with
    | some tm => .dated path file tm
    | none => .sending path file sent shut closed
  | _, _ => .sending path file sent shut closed

def enter (path : CStr) (file : List Byte) (tm : Tm) : (c : Call) → Answer c → Visit
  | .mutexLock, (ok : Bool) => if ok then .entered path file tm .counted else .dated path file tm
  | _, _ => .dated path file tm

/-- The record of a transfer. -/
def record (addr path : CStr) (file : List Byte) (tm : Tm) : CStr :=
  logsString (dateString tm) path file.length addr

end Visit

def visit (good : CStr → Prop) (addr : CStr) : Typestate Answer Visit where
  may
    | .idle, c => Visit.MayBegin good c
    | .opened _, c => Visit.MayMap c
    | .mapped _ _, c => Visit.MayStart c
    | .sending _ file sent shut closed, c => Visit.MaySend file sent shut closed c
    | .dated _ _ _, c => Visit.MayEnter c
    | .entered path file tm pc, c => Visit.MayRecord (Visit.record addr path file tm) pc c
  next
    | .idle, c, r => Visit.begun c r
    | .opened path, c, r => Visit.map path c r
    | .mapped path file, c, r => Visit.start path file c r
    | .sending path file sent shut closed, c, r => Visit.send path file sent shut closed c r
    | .dated path file tm, c, r => Visit.enter path file tm c r
    | .entered path file tm pc, c, r => .entered path file tm (pc.after ⟨c, r⟩)

/-! ### The programs -/

section

variable {good : CStr → Prop} {addr path : CStr} {file : List Byte} {sent : Nat} {closed : Bool} {tm : Tm}
  {rounds : Nat} {q : Visit}

theorem keeps_writeLog (q : Visit) : (visit good addr).Keeps q .writeLog := by
  cases q <;> exact ⟨trivial, fun _ => rfl⟩

theorem keeps_visit_plain {c : Call} (h : c.Plain) : (visit good addr).Keeps .idle c := by
  cases c <;> first | exact ⟨trivial, fun _ => rfl⟩ | exact h.elim

theorem typed_visit_log (q : Visit) : log.Typed (visit good addr) (fun _ q' => q' = q) q :=
  Typed.of_keeps (makesOnly_log (keeps_writeLog q))

theorem typed_visit_logUnless (ok : Bool) (q : Visit) :
    (logUnless ok).Typed (visit good addr) (fun _ q' => q' = q) q :=
  Typed.of_keeps (makesOnly_logUnless (keeps_writeLog q) ok)

theorem typed_visit_fail {α : Type} {post : α → Visit → Prop} (code : Nat) (q : Visit) :
    (fail code : Serve α).Typed (visit good addr) post q :=
  (typed_visit_log q).bind fun _ _ _ => trivial

/-- The number that is returned is that of the bytes sent. -/
theorem typed_sendLoop (rounds sent : Nat) :
    (sendLoop file rounds sent).Typed (visit good addr)
      (fun out q => ∃ sent', q = .sending path file sent' false false ∧ ∀ n ∈ out, n = sent')
      (.sending path file sent false false) := by
  induction rounds generalizing sent with
  | zero => exact ⟨sent, rfl, fun n hn => (Option.some.inj hn).symm⟩
  | succ rounds ih =>
    rw [sendLoop]
    split
    · refine .ask_bind rfl fun (temp : Int) => ?_
      split_ifs
      · exact (typed_visit_log _).bind fun _ q hq => ⟨_, hq, fun n hn => by cases hn⟩
      · exact (typed_visit_log _).bind fun _ q hq => ⟨_, hq, fun n hn => by cases hn⟩
      · exact (typed_visit_log _).bind fun _ q hq => hq ▸ ih _
    · exact ⟨sent, rfl, fun n hn => (Option.some.inj hn).symm⟩

theorem typed_recvLoop (rounds : Nat) (closed : Bool) :
    (recvLoop rounds).Typed (visit good addr)
      (fun out q => ∃ closed', q = .sending path file sent true closed' ∧ (out = true → closed' = true))
      (.sending path file sent true closed) := by
  induction rounds generalizing closed with
  | zero => trivial
  | succ rounds ih =>
    refine .ask_bind trivial fun (ret : Int) => ?_
    split_ifs with hneg hzero
    · exact (typed_visit_log _).bind fun _ q hq => ⟨_, hq, nofun⟩
    · exact ih _
    · exact ⟨_, rfl, fun _ => decide_eq_true (not_not.mp hzero)⟩

/-- A client that is done with sending. -/
def Visit.Through : Visit → Prop
  | .sending .. | .dated .. | .entered .. => True
  | _ => False

theorem keeps_through (h : q.Through) {c : Call} (hc : c = .joinThread ∨ c = .munmap) :
    (visit good addr).Keeps q c := by
  rcases hc with rfl | rfl <;> cases q <;> first | exact ⟨trivial, fun _ => rfl⟩ | exact h.elim

theorem typed_sendRecord :
    (sendRecord (Visit.record addr path file tm)).Typed (visit good addr) (fun _ => Visit.Through)
      (.entered path file tm .counted) := by
  refine .ask_bind ⟨rfl, rfl⟩ fun (header : PipeAnswer) => ?_
  cases header with
  | failed => exact (typed_visit_log _).weaken fun _ _ hq => hq ▸ trivial
  | brokenPipe => trivial
  | written =>
    refine .ask_bind ⟨rfl, rfl⟩ fun (body : PipeAnswer) => ?_
    cases body with
    | failed => exact (typed_visit_log _).weaken fun _ _ hq => hq ▸ trivial
    | brokenPipe => trivial
    | written =>
      refine .ask_bind rfl fun (signalled : Bool) => ?_
      refine (typed_visit_logUnless signalled _).bind fun _ q hq => ?_
      subst hq
      refine .ask_bind rfl fun (unlocked : Bool) => ?_
      exact (typed_visit_logUnless unlocked _).weaken fun _ _ hq => hq ▸ trivial

theorem typed_logTransfer :
    (logTransfer path file.length addr).Typed (visit good addr) (fun _ => Visit.Through)
      (.sending path file file.length true true) := by
  refine .ask_bind ⟨rfl, rfl, rfl⟩ fun (date : Option Tm) => ?_
  cases date with
  | none => exact typed_visit_fail 5 _
  | some tm =>
    have hlog : log.Typed (visit good addr) (fun _ => Visit.Through) (.dated path file tm) :=
      (typed_visit_log _).weaken fun _ _ hq => hq ▸ trivial
    refine .ask_bind trivial fun (allocated : Bool) => ?_
    cases allocated with
    | false => exact hlog
    | true =>
      refine .ask_bind trivial fun (formatted : Bool) => ?_
      cases formatted with
      | false => exact hlog
      | true =>
        refine .ask_bind trivial fun (locked : Bool) => ?_
        cases locked with
        | false => exact hlog
        | true => exact typed_sendRecord

theorem typed_threadSender :
    (threadSender rounds file path addr).Typed (visit good addr) (fun _ => Visit.Through)
      (.mapped path file) := by
  refine .ask_bind trivial fun (ignored : Bool) => ?_
  cases ignored with
  | false => exact typed_visit_fail 1 _
  | true =>
    refine (typed_sendLoop file.length 0).bind ?_
    rintro sent q ⟨sent', rfl, hsent⟩
    cases sent with
    | none => trivial
    | some bytesSent =>
      obtain rfl := hsent bytesSent rfl
      refine .ask_bind trivial fun (shut : Bool) => ?_
      cases shut with
      | false => exact (typed_visit_log _).weaken fun _ _ hq => hq ▸ trivial
      | true =>
        refine (typed_recvLoop rounds false).bind ?_
        rintro closed q ⟨closed', rfl, hclosed⟩
        change Typed _ _ (if _ then _ else _) _
        split_ifs with hdone
        · rw [hdone.2, hclosed hdone.1]
          exact typed_logTransfer
        · trivial

theorem typed_visit_giveUp :
    giveUp.Typed (visit good addr) (fun _ q => q = .opened path) (.opened path) := by
  have hkeeps : ∀ c : Call, c = .writeLog ∨ c = .unlockFile false ∨ c = .close false →
      (visit good addr).Keeps (.opened path) c := by
    rintro c (rfl | rfl | rfl) <;> exact ⟨trivial, fun _ => rfl⟩
  refine Typed.of_keeps ((makesOnly_log (hkeeps _ (.inl rfl))).bind fun _ => ?_)
  refine .ask_bind (hkeeps _ (.inr (.inl rfl))) fun unlocked => ?_
  refine (makesOnly_logUnless (hkeeps _ (.inl rfl)) unlocked).bind fun _ => ?_
  exact .ask_bind (hkeeps _ (.inr (.inr rfl))) fun _ => trivial

theorem typed_visit_sendMapped :
    (sendMapped rounds file path addr).Typed (visit good addr) (fun _ _ => True) (.mapped path file) := by
  have hkeeps : ∀ c : Call, c = .unlockFile true ∨ c = .close true ∨ c = .createThread →
      (visit good addr).Keeps (.mapped path file) c := by
    rintro c (rfl | rfl | rfl) <;> exact ⟨trivial, fun _ => rfl⟩
  have hrequire : ∀ ok, (require 1 ok).MakesOnly ((visit good addr).Keeps (.mapped path file)) :=
    makesOnly_require (keeps_writeLog _) 1
  refine Typed.keeps_bind (p := perform (.unlockFile true)) ⟨hkeeps _ (.inl rfl), fun _ => trivial⟩
    fun (unlocked : Bool) => ?_
  refine Typed.keeps_bind (hrequire unlocked) fun _ => ?_
  refine Typed.keeps_bind (p := perform (.close true)) ⟨hkeeps _ (.inr (.inl rfl)), fun _ => trivial⟩
    fun (closed : Bool) => ?_
  refine Typed.keeps_bind (hrequire closed) fun _ => ?_
  refine Typed.keeps_bind (p := perform .createThread) ⟨hkeeps _ (.inr (.inr rfl)), fun _ => trivial⟩
    fun (created : Bool) => ?_
  refine Typed.keeps_bind (hrequire created) fun _ => typed_threadSender.bind fun _ q hq => ?_
  refine Typed.weaken (Typed.of_keeps (q := q) ?_) fun _ _ _ => trivial
  refine .ask_bind (keeps_through hq (.inl rfl)) fun joined => ?_
  refine (makesOnly_require (keeps_writeLog q) 1 joined).bind fun _ => ?_
  refine .ask_bind (keeps_through hq (.inr rfl)) fun unmapped => ?_
  exact (makesOnly_require (keeps_writeLog q) 1 unmapped).bind fun _ => trivial

theorem typed_visit_load (hpath : good path) :
    (loadFileMemoryAndSend rounds path addr).Typed (visit good addr) (fun _ _ => True) .idle := by
  have hlog : ∀ q, (do log; return false : Serve Bool).Typed (visit good addr) (fun _ _ => True) q :=
    fun q => (typed_visit_log q).bind fun _ _ _ => trivial
  refine .ask_bind hpath fun (opened : Bool) => ?_
  cases opened with
  | false => exact hlog _
  | true =>
    refine .ask_bind trivial fun (locked : Bool) => ?_
    cases locked with
    | false => exact hlog _
    | true =>
      refine .ask_bind trivial fun (statFd : Option Nat) => ?_
      cases statFd with
      | none => exact typed_visit_giveUp.weaken fun _ _ _ => trivial
      | some n =>
        refine .ask_bind trivial fun fileToSend => ?_
        cases fileToSend with
        | none => exact typed_visit_giveUp.weaken fun _ _ _ => trivial
        | some file => exact typed_visit_sendMapped

theorem typed_visit (v : Visitor) :
    v.serve.Typed (visit v.MayOpen (addrString v.client)) (fun _ _ => True) .idle := by
  refine typed_serve v (fun _ => keeps_visit_plain) trivial (fun q _ => keeps_writeLog q)
    fun input hlen hcheck => ?_
  exact typed_visit_load ⟨input, hlen, hcheck, rfl⟩

end

/-! ### What has taken place -/

/-- A file that may be asked for has been opened and mapped. -/
structure Shown (good : CStr → Prop) (path : CStr) (file : List Byte) (trace : Trace Answer) : Prop where
  good : good path
  opened : ⟨.openFile path, true⟩ ∈ trace
  mapped : ⟨.mmap file.length, some ⟨file, rfl⟩⟩ ∈ trace

/-- The client has been handed the file and nothing else, and has closed the connection. -/
structure Delivered (good : CStr → Prop) (path : CStr) (file : List Byte) (tm : Tm) (trace : Trace Answer) :
    Prop extends Shown good path file trace where
  handed : handedOver trace = file
  shut : ⟨.shutdown, true⟩ ∈ trace
  closed : ⟨.recv, (0 : Int)⟩ ∈ trace
  dated : ⟨.dateString, some tm⟩ ∈ trace

def Visit.Traced (good : CStr → Prop) (trace : Trace Answer) : Visit → Prop
  | .idle => handedOver trace = []
  | .opened path => good path ∧ ⟨.openFile path, true⟩ ∈ trace ∧ handedOver trace = []
  | .mapped path file => Shown good path file trace ∧ handedOver trace = []
  | .sending path file sent shut closed => Shown good path file trace ∧
    handedOver trace = file.take sent ∧ (shut = true → ⟨.shutdown, true⟩ ∈ trace) ∧
    (closed = true → ⟨.recv, (0 : Int)⟩ ∈ trace)
  | .dated path file tm | .entered path file tm _ => Delivered good path file tm trace

section

variable {good : CStr → Prop} {addr path : CStr} {file : List Byte} {sent : Nat} {shut closed : Bool}
  {tm : Tm} {trace : Trace Answer} {event : Σ c, Answer c} {c : Call} {r : Answer c} {q : Visit}

theorem Shown.snoc (h : Shown good path file trace) (event : Σ c, Answer c) :
    Shown good path file (trace ++ [event]) :=
  ⟨h.good, List.mem_append_left _ h.opened, List.mem_append_left _ h.mapped⟩

theorem handedOver_snoc (h : ¬ event.1.Sends) : handedOver (trace ++ [event]) = handedOver trace := by
  have hone : handedOver [event] = [] := (List.flatMap_singleton ..).trans (not_handed h).1
  rw [handedOver_append, hone, List.append_nil]

theorem Delivered.snoc (h : Delivered good path file tm trace) (hevent : ¬ event.1.Sends) :
    Delivered good path file tm (trace ++ [event]) where
  toShown := h.toShown.snoc event
  handed := (handedOver_snoc hevent).trans h.handed
  shut := List.mem_append_left _ h.shut
  closed := List.mem_append_left _ h.closed
  dated := List.mem_append_left _ h.dated

theorem traced_begun (h : Visit.idle.Traced good trace) (hmay : Visit.MayBegin good c) :
    (Visit.begun c r).Traced good (trace ++ [⟨c, r⟩]) := by
  have hquiet : ¬ c.Sends → handedOver (trace ++ [⟨c, r⟩]) = [] := fun hc => (handedOver_snoc hc).trans h
  cases c <;> first | exact hmay.elim | exact hquiet id | skip
  case openFile path =>
    change Bool at r
    cases r with
    | false => exact hquiet id
    | true => exact ⟨hmay, List.mem_concat_self .., hquiet id⟩

theorem traced_map (h : (Visit.opened path).Traced good trace) (hmay : Visit.MayMap c) :
    (Visit.map path c r).Traced good (trace ++ [⟨c, r⟩]) := by
  obtain ⟨hgood, hopened, hnothing⟩ := h
  have hquiet : ¬ c.Sends → handedOver (trace ++ [⟨c, r⟩]) = [] := fun hc =>
    (handedOver_snoc hc).trans hnothing
  have hsame : ¬ c.Sends → (Visit.opened path).Traced good (trace ++ [⟨c, r⟩]) := fun hc =>
    ⟨hgood, List.mem_append_left _ hopened, hquiet hc⟩
  cases c <;> first | exact hmay.elim | exact hsame id | skip
  case mmap n =>
    change Option { file : List Byte // file.length = n } at r
    cases r with
    | none => exact hsame id
    | some file =>
      obtain ⟨file, rfl⟩ := file
      exact ⟨⟨hgood, List.mem_append_left _ hopened, List.mem_concat_self ..⟩, hquiet id⟩

theorem traced_start (h : (Visit.mapped path file).Traced good trace) (hmay : Visit.MayStart c) :
    (Visit.start path file c r).Traced good (trace ++ [⟨c, r⟩]) := by
  obtain ⟨hshown, hnothing⟩ := h
  have hquiet : ¬ c.Sends → handedOver (trace ++ [⟨c, r⟩]) = [] := fun hc =>
    (handedOver_snoc hc).trans hnothing
  cases c <;> first | exact hmay.elim | exact ⟨hshown.snoc _, hquiet id⟩ | skip
  case signal =>
    change Bool at r
    cases r with
    | false => exact ⟨hshown.snoc _, hquiet id⟩
    | true => exact ⟨hshown.snoc _, hquiet id, nofun, nofun⟩

theorem traced_send (h : (Visit.sending path file sent shut closed).Traced good trace)
    (hmay : Visit.MaySend file sent shut closed c) :
    (Visit.send path file sent shut closed c r).Traced good (trace ++ [⟨c, r⟩]) := by
  obtain ⟨hshown, hhanded, hshut, hclosed⟩ := h
  have hquiet : ¬ c.Sends → handedOver (trace ++ [⟨c, r⟩]) = file.take sent := fun hc =>
    (handedOver_snoc hc).trans hhanded
  have hshut' := fun hs => List.mem_append_left [⟨c, r⟩] (hshut hs)
  have hclosed' := fun hc => List.mem_append_left [⟨c, r⟩] (hclosed hc)
  cases c <;> first | exact hmay.elim | exact ⟨hshown.snoc _, hquiet id, hshut', hclosed'⟩ | skip
  case send rest =>
    obtain rfl : rest = file.drop sent := hmay
    refine ⟨hshown.snoc _, ?_, hshut', hclosed'⟩
    change Int at r
    rw [handedOver_append, hhanded, List.take_add]
    exact congrArg _ (List.append_nil _)
  case shutdown =>
    change Bool at r
    refine ⟨hshown.snoc _, hquiet id, ?_, hclosed'⟩
    rintro rfl
    exact List.mem_concat_self ..
  case recv =>
    change Int at r
    refine ⟨hshown.snoc _, hquiet id, hshut', fun hzero => ?_⟩
    obtain rfl := of_decide_eq_true hzero
    exact List.mem_concat_self ..
  case dateString =>
    change Option Tm at r
    obtain ⟨hsent, hs, hc⟩ := hmay
    cases r with
    | none => exact ⟨hshown.snoc _, hquiet id, hshut', hclosed'⟩
    | some tm =>
      have hwhole : handedOver (trace ++ [⟨.dateString, some tm⟩]) = file :=
        (hquiet id).trans (by rw [hsent, List.take_length])
      exact ⟨hshown.snoc _, hwhole, hshut' hs, hclosed' hc, List.mem_concat_self ..⟩

theorem traced_enter (h : (Visit.dated path file tm).Traced good trace) (hmay : Visit.MayEnter c) :
    (Visit.enter path file tm c r).Traced good (trace ++ [⟨c, r⟩]) := by
  cases c <;> first | exact hmay.elim | exact Delivered.snoc h id | skip
  case mutexLock =>
    change Bool at r
    cases r <;> exact Delivered.snoc h id

theorem not_sends_of_mayRecord {record : CStr} {pc : SenderPc} (h : Visit.MayRecord record pc c) :
    ¬ c.Sends := by
  cases c <;> first | exact id | exact h.elim

/-- A call adds to what has taken place. -/
theorem traced_call (h : q.Traced good trace) (hmay : (visit good addr).may q c) :
    ((visit good addr).next q c r).Traced good (trace ++ [⟨c, r⟩]) := by
  cases q with
  | idle => exact traced_begun h hmay
  | opened path => exact traced_map h hmay
  | mapped path file => exact traced_start h hmay
  | sending path file sent shut closed => exact traced_send h hmay
  | dated path file tm => exact traced_enter h hmay
  | entered path file tm pc => exact Delivered.snoc h (not_sends_of_mayRecord hmay)

/-! ### The position in the protocol -/

theorem pc_next (hmay : (visit good addr).may q c) :
    ((visit good addr).next q c r).pc = q.pc.after ⟨c, r⟩ := by
  cases q with
  | entered path file tm pc => rfl
  | idle =>
    cases c <;> first | exact hmay.elim | rfl | skip
    case openFile path =>
      change Bool at r
      cases r <;> rfl
  | opened path =>
    cases c <;> first | exact hmay.elim | rfl | skip
    case mmap n =>
      change Option { file : List Byte // file.length = n } at r
      cases r <;> rfl
  | mapped path file =>
    cases c <;> first | exact hmay.elim | rfl | skip
    case signal =>
      change Bool at r
      cases r <;> rfl
  | sending path file sent shut closed =>
    cases c <;> first | exact hmay.elim | rfl | skip
    case dateString =>
      change Option Tm at r
      cases r <;> rfl
  | dated path file tm =>
    cases c <;> first | exact hmay.elim | rfl | skip
    case mutexLock =>
      change Bool at r
      cases r <;> rfl

/-- A call on what the parties of the log protocol share. -/
def Call.Shares : Call → Prop
  | .mutexLock | .writeLen _ | .writeText _ | .condSignal | .mutexUnlock => True
  | _ => False

theorem after_of_not_shares (pc : SenderPc) (h : ¬ c.Shares) : pc.after ⟨c, r⟩ = pc := by
  cases c <;> first | rfl | exact absurd trivial h

/-- Only the critical section is one of the log protocol. -/
theorem shares_cases (hmay : (visit good addr).may q c) (h : c.Shares) :
    (∃ path file tm, q = .dated path file tm) ∧ c = .mutexLock ∨
      ∃ path file tm pc, q = .entered path file tm pc ∧
        Visit.MayRecord (Visit.record addr path file tm) pc c := by
  cases q with
  | dated path file tm =>
    refine .inl ⟨⟨path, file, tm, rfl⟩, ?_⟩
    cases c <;> first | rfl | exact h.elim | exact hmay.elim
  | entered path file tm pc => exact .inr ⟨path, file, tm, pc, rfl, hmay⟩
  | idle | opened | mapped | sending => cases c <;> first | exact h.elim | exact hmay.elim

/-- The record is written in a call. -/
def Writes : (Σ c, Answer c) → Prop
  | ⟨.writeText _, (answer : PipeAnswer)⟩ => answer = .written
  | _ => False

theorem shares_of_writes (h : Writes event) : event.1.Shares := by
  obtain ⟨c, r⟩ := event
  cases c <;> first | exact trivial | exact h.elim

/-- A client has written its record behind the calls in which it does, and stays there. -/
theorem written_next (hmay : (visit good addr).may q c) :
    ((visit good addr).next q c r).pc.Written ↔ q.pc.Written ∨ Writes ⟨c, r⟩ := by
  rw [pc_next hmay]
  by_cases hshares : c.Shares
  · rcases shares_cases hmay hshares with ⟨⟨path, file, tm, rfl⟩, rfl⟩ | ⟨path, file, tm, pc, rfl, hrecord⟩
    · change Bool at r
      cases r <;> simp [SenderPc.after, Visit.pc, SenderPc.Written, Writes]
    · change (pc.after ⟨c, r⟩).Written ↔ pc.Written ∨ _
      cases c <;> first | exact hshares.elim | exact hrecord.elim | skip
      case writeLen len =>
        change PipeAnswer at r
        obtain rfl : pc = .counted := hrecord.1
        cases r <;> simp [SenderPc.after, SenderPc.Written, Writes]
      case writeText text =>
        change PipeAnswer at r
        obtain rfl : pc = .headed := hrecord.1
        cases r <;> simp [SenderPc.after, SenderPc.Written, Writes]
      case condSignal =>
        obtain rfl : pc = .bodied := hrecord
        simp [SenderPc.after, SenderPc.Written]
      case mutexUnlock =>
        obtain rfl : pc = .signalled := hrecord
        simp [SenderPc.after, SenderPc.Written]
  · rw [after_of_not_shares _ hshares, or_iff_left fun h => hshares (shares_of_writes h)]

/-- A client that died takes no further step of the protocol. -/
theorem died_next (hmay : (visit good addr).may q c) (hdied : q.pc = .died) :
    ((visit good addr).next q c r).pc = .died := by
  rw [pc_next hmay]
  by_cases hshares : c.Shares
  · rcases shares_cases hmay hshares with ⟨⟨path, file, tm, rfl⟩, -⟩ | ⟨path, file, tm, pc, rfl, hrecord⟩
    · cases hdied
    · obtain rfl : pc = .died := hdied
      cases c <;> first | exact hshares.elim | exact nomatch hrecord
  · rw [after_of_not_shares _ hshares, hdied]

theorem senderOf_snoc (trace : Trace Answer) (event : Σ c, Answer c) :
    senderOf (trace ++ [event]) = (senderOf trace).after event :=
  List.foldl_append

end

/-! ### The log protocol -/

variable {κ ι : Type} {site : Site ι} {addr : κ → CStr} {good : κ → CStr → Prop}

/-- The record of a sender of the protocol is that of the transfer. -/
def Visit.Names (addr : CStr) (record : Record) : Visit → Prop
  | .entered path file tm _ => record.text = Visit.record addr path file tm
  | _ => True

theorem names_of_next {good : CStr → Prop} {addr : CStr} {q : Visit} {c : Call} {r : Answer c}
    {record : Record} (h : ((visit good addr).next q c r).Names addr record) : q.Names addr record := by
  cases q <;> first | exact trivial | exact h

variable [DecidableEq κ]

/-- The machine is in a state of the log protocol, for any records that are those of the transfers. Only
where one is said to fail, writes may have failed. -/
def Simulates (fail : Prop) (site : Site ι) (addr : κ → CStr) (q : κ → Visit) (s : LogShared κ) : Prop :=
  (fail ∨ ∀ k, (q k).pc ≠ .died) → ∀ cfg : LogConfig κ, cfg.capacity = site.capacity →
    (∀ k, (q k).Names (addr k) (cfg.record k)) →
      ∃ taken, (logProtocol cfg).Reach (fun _ a => fail ∨ a.Transfers) (s.state (Visit.pc ∘ q) taken)

section

variable {fail : Prop} {cfg : LogConfig κ} {s : LogShared κ} {sender : κ → SenderPc} {taken : List κ} {k : κ}

/-- The sender locks the mutex and counts its record. -/
theorem reach_enter (h : (logProtocol cfg).Reach (fun _ a => fail ∨ a.Transfers) (s.state sender taken))
    (hstart : sender k = .start) (hfree : s.owner = none) :
    (logProtocol cfg).Reach (fun _ a => fail ∨ a.Transfers)
      (LogShared.state { s with owner := some (.sender k), cont := s.cont + 1 }
        (Function.update sender k .counted) (taken ++ [k])) := by
  have hlock := h.next (.lock k) (.inr trivial) ⟨hstart, hfree⟩
  have hcount := hlock.next (.count k) (.inr trivial) (Function.update_self ..)
  have hstate : (logProtocol cfg).next ((logProtocol cfg).next (s.state sender taken) (.lock k)) (.count k) =
      LogShared.state { s with owner := some (.sender k), cont := s.cont + 1 }
        (Function.update sender k .counted) (taken ++ [k]) := by
    change LogState.mk _ _ _ _ _ _ _ = LogState.mk _ _ _ _ _ _ _
    congr 1
    exact Function.update_idem ..
  exact hstate ▸ hcount

theorem reach_writeLen (h : (logProtocol cfg).Reach (fun _ a => fail ∨ a.Transfers) (s.state sender taken))
    (hcap : cfg.capacity = site.capacity) (hcounted : sender k = .counted) {answer : PipeAnswer}
    (htakes : site.takes s 4 answer) (hfail : answer ≠ .written → fail) :
    (logProtocol cfg).Reach (fun _ a => fail ∨ a.Transfers)
      (LogShared.state (s.written (encodeInt (cfg.text k).length) answer)
        (Function.update sender k (if answer = .written then .headed else .died)) taken) := by
  cases answer with
  | brokenPipe => exact htakes.elim
  | failed => exact h.next (.failLen k) (.inl (hfail nofun)) hcounted
  | written =>
    have hfits : cfg.Fits (s.pipe.length + 4) := by
      rw [LogConfig.Fits, hcap]
      exact htakes
    exact h.next (.writeLen k) (.inr trivial) ⟨hcounted, hfits⟩

theorem reach_writeText (h : (logProtocol cfg).Reach (fun _ a => fail ∨ a.Transfers) (s.state sender taken))
    (hcap : cfg.capacity = site.capacity) (hheaded : sender k = .headed) {answer : PipeAnswer}
    (htakes : site.takes s (cfg.text k).length answer) (hfail : answer ≠ .written → fail) :
    (logProtocol cfg).Reach (fun _ a => fail ∨ a.Transfers)
      (LogShared.state (s.written (cfg.text k) answer)
        (Function.update sender k (if answer = .written then .bodied else .died)) taken) := by
  cases answer with
  | brokenPipe => exact htakes.elim
  | failed => exact h.next (.failRecord k) (.inl (hfail nofun)) hheaded
  | written =>
    have hfits : cfg.Fits (s.pipe.length + (cfg.text k).length) := by
      rw [LogConfig.Fits, hcap]
      exact htakes
    exact h.next (.writeRecord k) (.inr trivial) ⟨hheaded, hfits⟩

/-- A step of the log process does not depend on the senders. -/
theorem logNext_state (cfg cfg' : LogConfig κ) (s : LogShared κ) (sender sender' : κ → SenderPc)
    (taken taken' : List κ) {a : LogAction κ} (hlog : a.ByLog) :
    logNext cfg (s.state sender taken) a = (logNext cfg' (s.state sender' taken') a).shared.state sender taken := by
  obtain ⟨log, owner, cont, pipe, logFile⟩ := s
  cases a <;> first | exact hlog.elim | rfl | (cases log <;> rfl)

/-- The log process takes a step of the protocol. -/
theorem reach_log (h : (logProtocol cfg).Reach (fun _ a => fail ∨ a.Transfers) (s.state sender taken))
    {a : LogAction κ} (hlog : a.ByLog)
    (henabled : logEnabled site.logConfig (s.state (fun _ => .start) []) a) :
    (logProtocol cfg).Reach (fun _ a => fail ∨ a.Transfers)
      ((logNext site.logConfig (s.state (fun _ => .start) []) a).shared.state sender taken) := by
  have htransfers : a.Transfers := by cases a <;> first | exact trivial | exact hlog.elim
  have henabled' : logEnabled cfg (s.state sender taken) a := by
    cases a <;> first | exact hlog.elim | exact henabled
  rw [← logNext_state cfg _ s sender _ taken _ hlog]
  exact h.next a (.inr htransfers) henabled'

variable [DecidableEq ι] {q : κ → Visit} {host : Machine κ ι} {c : Call} {r : Answer c}

theorem log_after (h : ¬ c.Shares) : (host.after site k c r).log = host.log := by
  cases c <;> first | rfl | exact absurd trivial h | skip
  case openFile | unlockFile =>
    change Bool at r
    cases r <;> rfl
  case lockFile =>
    change Bool at r
    cases r with
    | false => rfl
    | true => cases hopened : host.opened k <;> simp only [Machine.after, hopened]

/-- What a call on the shared state does, by the step of the protocol it is. -/
theorem reach_call
    (h : (logProtocol cfg).Reach (fun _ a => fail ∨ a.Transfers) (host.log.state (Visit.pc ∘ q) taken))
    (hcap : cfg.capacity = site.capacity) (hnames : (q k).Names (addr k) (cfg.record k))
    (hshares : c.Shares) (hmay : (visit (good k) (addr k)).may (q k) c) (hallows : host.Allows site k c r)
    (hfail : (q k).pc.after ⟨c, r⟩ = .died → fail) :
    ∃ taken', (logProtocol cfg).Reach (fun _ a => fail ∨ a.Transfers)
      ((host.after site k c r).log.state (Function.update (Visit.pc ∘ q) k ((q k).pc.after ⟨c, r⟩))
        taken') := by
  have hpc : (Visit.pc ∘ q) k = (q k).pc := rfl
  rcases shares_cases hmay hshares with ⟨⟨path, file, tm, hq⟩, rfl⟩ | ⟨path, file, tm, pc, hq, hrecord⟩
  · obtain ⟨rfl, hfree⟩ := hallows
    exact ⟨_, reach_enter h (by rw [hpc, hq]; rfl) hfree⟩
  · rw [hq] at hpc hnames hfail ⊢
    have htext : cfg.text k = (Visit.record (addr k) path file tm).chars := congrArg CStr.chars hnames
    cases c <;> first | exact hshares.elim | exact hrecord.elim | skip
    case writeLen len =>
      obtain ⟨rfl, rfl⟩ := hrecord
      have hreach := reach_writeLen h hcap hpc hallows fun hwritten => hfail (if_neg hwritten)
      rw [htext] at hreach
      exact ⟨taken, hreach⟩
    case writeText text =>
      obtain ⟨rfl, rfl⟩ := hrecord
      have htakes : site.takes host.log (cfg.text k).length r := by
        rw [htext]
        exact hallows
      have hreach := reach_writeText h hcap hpc htakes fun hwritten => hfail (if_neg hwritten)
      rw [htext] at hreach
      exact ⟨taken, hreach⟩
    case condSignal =>
      obtain rfl : pc = .bodied := hrecord
      obtain rfl : r = true := hallows
      exact ⟨taken, h.next (.signal k) (.inr trivial) hpc⟩
    case mutexUnlock =>
      obtain rfl : pc = .signalled := hrecord
      obtain rfl : r = true := hallows
      exact ⟨taken, h.next (.unlock k) (.inr trivial) hpc⟩

theorem Simulates.call (h : Simulates fail site addr q host.log)
    (hmay : (visit (good k) (addr k)).may (q k) c) (hallows : host.Allows site k c r) :
    Simulates fail site addr (Function.update q k ((visit (good k) (addr k)).next (q k) c r))
      (host.after site k c r).log := by
  intro hfail cfg hcap hnames
  have hupdate : Visit.pc ∘ Function.update q k ((visit (good k) (addr k)).next (q k) c r) =
      Function.update (Visit.pc ∘ q) k ((q k).pc.after ⟨c, r⟩) := by
    rw [Function.comp_update, pc_next hmay]
  have hother : ∀ j, j ≠ k → Function.update q k ((visit (good k) (addr k)).next (q k) c r) j = q j :=
    fun j hj => Function.update_of_ne hj ..
  have hself := hnames k
  rw [Function.update_self] at hself
  have hnames' : ∀ j, (q j).Names (addr j) (cfg.record j) := by
    intro j
    by_cases hj : j = k
    · exact hj ▸ names_of_next hself
    · exact hother j hj ▸ hnames j
  have hfail' : fail ∨ ∀ j, (q j).pc ≠ .died := by
    refine hfail.imp_right fun halive j hdied => ?_
    by_cases hj : j = k
    · subst hj
      exact halive j (by rw [Function.update_self]; exact died_next hmay hdied)
    · exact halive j (by rw [hother j hj]; exact hdied)
  obtain ⟨taken, hreach⟩ := h hfail' cfg hcap hnames'
  rw [hupdate]
  by_cases hshares : c.Shares
  · refine reach_call hreach hcap (hnames' k) hshares hmay hallows fun hdied => ?_
    refine hfail.resolve_right fun halive => halive k ?_
    rw [Function.update_self, pc_next hmay, hdied]
  · rw [after_of_not_shares _ hshares, log_after hshares]
    refine ⟨taken, ?_⟩
    rwa [show (q k).pc = (Visit.pc ∘ q) k from rfl, Function.update_eq_self]

theorem Simulates.own (h : Simulates fail site addr q host.log) {a : Other κ ι}
    (henabled : host.otherEnabled site a) : Simulates fail site addr q (host.other site a).log := by
  cases a with
  | lock | write | unlock => exact h
  | log a =>
    intro hfail cfg hcap hnames
    obtain ⟨taken, hreach⟩ := h hfail cfg hcap hnames
    exact ⟨taken, reach_log hreach henabled.1 henabled.2⟩

end

/-! ### Any number of clients -/

variable [DecidableEq ι] {visitors : κ → Visitor} {run : Running κ ι}
  {ok : Running κ ι → Turn κ Answer (Other κ ι) → Prop}

/-- The progress of a client. -/
abbrev Visitor.visit (v : Visitor) (trace : Trace Answer) : Visit :=
  (Sacagawea.visit v.MayOpen (addrString v.client)).after .idle trace

/-- What a client has done, and where that leaves it. -/
theorem visit_of_steps {v : Visitor} {p : Serve Unit} {trace : Trace Answer} (h : v.serve.Steps trace p) :
    (v.visit trace).Traced v.MayOpen trace ∧ senderOf trace = (v.visit trace).pc ∧
      ((∃ event ∈ trace, Writes event) ↔ (v.visit trace).pc.Written) := by
  refine ⟨?_, ?_, ?_⟩
  · exact (typed_visit v).along (J := fun trace q => q.Traced v.MayOpen trace) h rfl
      fun _ _ _ _ hq hmay => traced_call hq hmay
  · refine (typed_visit v).along (J := fun trace q => senderOf trace = q.pc) h rfl fun front q c r hq hmay => ?_
    rw [senderOf_snoc, hq, pc_next hmay]
  · refine (typed_visit v).along (J := fun trace q => (∃ event ∈ trace, Writes event) ↔ q.pc.Written) h
      (iff_of_false nofun id) fun front q c r hq hmay => ?_
    rw [written_next hmay, ← hq]
    simp only [List.mem_append, List.mem_singleton, or_and_right, exists_or, exists_eq_left]

/-- What a client has mapped. -/
def Visit.mapping : Visit → Option (CStr × List Byte)
  | .mapped path file | .sending path file _ _ _ | .dated path file _ | .entered path file _ _ =>
    some (path, file)
  | _ => none

/-- No other program writes a file that a client has mapped and has not returned or halted since. -/
def LeavesMapped (site : Site ι) (visitors : κ → Visitor) (run : Running κ ι) :
    Turn κ Answer (Other κ ι) → Prop
  | .own (.write i _) => ∀ k c next path file, run.program k = .call c next →
    ((visitors k).visit (run.trace k)).mapping = some (path, file) → site.inode path ≠ i
  | _ => True

/-- When the client had been handed the file, this was what the disk had under its name. -/
def WasOnDisk (site : Site ι) (visitors : κ → Visitor) (run : Running κ ι) (k : κ) (path : CStr)
    (file : List Byte) (tm : Tm) : Prop :=
  ∃ before, (clients site visitors).Reach (LeavesMapped site visitors) before ∧
    (clients site visitors).Leads (LeavesMapped site visitors) before run ∧
    Delivered (visitors k).MayOpen path file tm (before.trace k) ∧
    before.host.contents (site.inode path) = file

/-- Clients that are still running see the disk in what they have mapped, and those that have entered the
log did when they had sent it. -/
structure SeesDisk (site : Site ι) (visitors : κ → Visitor) (run : Running κ ι) : Prop where
  mapped : ∀ k c next path file, run.program k = .call c next →
    ((visitors k).visit (run.trace k)).mapping = some (path, file) →
    run.host.contents (site.inode path) = file
  entered : ∀ k path file tm pc, (visitors k).visit (run.trace k) = .entered path file tm pc →
    WasOnDisk site visitors run k path file tm

/-- A file is mapped in a call, and stays mapped. -/
theorem mapping_next {good : CStr → Prop} {addr path : CStr} {file : List Byte} {q : Visit} {c : Call}
    {r : Answer c} (hmay : (visit good addr).may q c)
    (h : ((visit good addr).next q c r).mapping = some (path, file)) :
    q.mapping = some (path, file) ∨
      q = .opened path ∧ (⟨c, r⟩ : Σ c, Answer c) = ⟨.mmap file.length, some ⟨file, rfl⟩⟩ := by
  cases q with
  | entered path' file' tm pc => exact .inl h
  | idle =>
    cases c <;> first | exact hmay.elim | cases h | skip
    case openFile path' =>
      change Bool at r
      cases r <;> cases h
  | opened path' =>
    cases c <;> first | exact hmay.elim | cases h | skip
    case mmap n =>
      change Option { file : List Byte // file.length = n } at r
      cases r with
      | none => cases h
      | some shown =>
        obtain ⟨shown, rfl⟩ := shown
        cases h
        exact .inr ⟨rfl, rfl⟩
  | mapped | sending | dated =>
    cases c <;> first | exact hmay.elim | exact .inl h | skip
    all_goals
      simp only [visit, Visit.start, Visit.send, Visit.enter] at h
      split at h <;> exact .inl h

/-- The log is entered with a date, by locking the mutex. -/
theorem entered_next {good : CStr → Prop} {addr path : CStr} {file : List Byte} {tm : Tm} {pc : SenderPc}
    {q : Visit} {c : Call} {r : Answer c} (hmay : (visit good addr).may q c)
    (h : (visit good addr).next q c r = .entered path file tm pc) :
    (∃ pc', q = .entered path file tm pc') ∨ q = .dated path file tm := by
  cases q with
  | entered path' file' tm' pc' =>
    cases h
    exact .inl ⟨pc', rfl⟩
  | dated path' file' tm' =>
    cases c <;> first | exact hmay.elim | cases h | skip
    case mutexLock =>
      change Bool at r
      cases r with
      | false => cases h
      | true =>
        cases h
        exact .inr rfl
  | idle | opened | mapped | sending =>
    cases c <;> first | exact hmay.elim | cases h | skip
    all_goals
      simp only [visit, Visit.begun, Visit.map, Visit.start, Visit.send] at h
      split at h <;> cases h

/-- The file a client has opened. -/
def Visit.path : Visit → Option CStr
  | .idle => none
  | .opened path | .mapped path _ | .sending path _ _ _ _ | .dated path _ _ | .entered path _ _ _ => some path

theorem path_next {good : CStr → Prop} {addr path : CStr} {q : Visit} {c : Call} {r : Answer c}
    (hmay : (visit good addr).may q c) (h : q.path = some path) :
    ((visit good addr).next q c r).path = some path := by
  cases q with
  | idle => cases h
  | entered => exact h
  | opened | mapped | sending | dated =>
    cases c <;> first | exact hmay.elim | exact h | skip
    all_goals
      simp only [visit, Visit.map, Visit.start, Visit.send, Visit.enter]
      split <;> exact h

/-- A client opens one file at most. -/
theorem path_of_opened {v : Visitor} {p : Serve Unit} {trace : Trace Answer} (h : v.serve.Steps trace p)
    {path : CStr} (hopened : ⟨.openFile path, true⟩ ∈ trace) : (v.visit trace).path = some path := by
  refine (typed_visit v).along (J := fun trace q => ⟨.openFile path, true⟩ ∈ trace → q.path = some path)
    h nofun ?_ hopened
  intro front q c r ih hmay hmem
  rcases List.mem_append.mp hmem with hfront | hlast
  · exact path_next hmay (ih hfront)
  · cases List.mem_singleton.mp hlast
    cases q with
    | idle => rfl
    | opened | mapped | sending | dated | entered => exact hmay.elim

theorem contents_after (host : Machine κ ι) (k : κ) (c : Call) (r : Answer c) :
    (host.after site k c r).contents = host.contents := by
  cases c <;> first | rfl | skip
  case lockFile =>
    change Bool at r
    cases r with
    | false => rfl
    | true => cases hopened : host.opened k <;> simp only [Machine.after, hopened]
  case openFile | unlockFile | mutexLock | condSignal | mutexUnlock =>
    change Bool at r
    cases r <;> rfl

/-- What a client maps is the file on the disk. -/
theorem contents_of_mapped (h : (clients site visitors).Reach ok run) {k : κ} {path : CStr} {file : List Byte}
    {next : Answer (.mmap file.length) → Serve Unit} (hprogram : run.program k = .call (.mmap file.length) next)
    (hallows : site.host.allows run.host k (.mmap file.length) (some ⟨file, rfl⟩))
    (hopened : (visitors k).visit (run.trace k) = .opened path) :
    run.host.contents (site.inode path) = file := by
  obtain ⟨path', back, hlocked, -, hfile⟩ := eq_contents_of_mapped h hprogram hallows
  have hmem : ⟨.openFile path', true⟩ ∈ run.trace k := by
    obtain ⟨front, htrace⟩ := hlocked.locked
    simp [htrace]
  have hpath := path_of_opened (Host.steps_of_reach h k) hmem
  rw [hopened] at hpath
  cases hpath
  exact hfile.symm

theorem WasOnDisk.next {k : κ} {path : CStr} {file : List Byte} {tm : Tm}
    (h : WasOnDisk site visitors run k path file tm) {a : Turn κ Answer (Other κ ι)}
    (hok : LeavesMapped site visitors run a) (henabled : (clients site visitors).enabled run a) :
    WasOnDisk site visitors ((clients site visitors).next run a) k path file tm := by
  obtain ⟨before, hbefore, hleads, hdelivered, hcontents⟩ := h
  exact ⟨before, hbefore, hleads.step hok henabled, hdelivered, hcontents⟩

/-- Another program leaves what is mapped alone. -/
theorem SeesDisk.other {a : Other κ ι} (h : SeesDisk site visitors run)
    (hok : LeavesMapped site visitors run (.own a)) (henabled : (clients site visitors).enabled run (.own a)) :
    SeesDisk site visitors ((clients site visitors).next run (.own a)) where
  mapped k c next path file hprogram hmapping := by
    have hsame := h.mapped k c next path file hprogram hmapping
    cases a with
    | lock | unlock | log => exact hsame
    | write i contents =>
      have hne := hok k c next path file hprogram hmapping
      exact (Function.update_of_ne hne ..).trans hsame
  entered k path file tm pc hentered := (h.entered k path file tm pc hentered).next hok henabled

/-- The visit of the client that makes a call moves on, and those of the others stay. -/
theorem visit_turn {k : κ} {answer : (c : Call) → Answer c} {c : Call} {next : Answer c → Serve Unit}
    (hprogram : run.program k = .call c next) (j : κ) :
    (visitors j).visit ((site.host.turn run (.call k answer)).trace j) =
      if j = k then (visit (visitors j).MayOpen (addrString (visitors j).client)).next
        ((visitors j).visit (run.trace j)) c (answer c)
      else (visitors j).visit (run.trace j) := by
  rw [Host.turn_call hprogram]
  split_ifs with hj
  · subst hj
    simp only [Function.update_self, Typestate.after_append, Typestate.after_cons, Typestate.after_nil]
  · simp only [Function.update_of_ne hj]

theorem SeesDisk.call {k : κ} {answer : (c : Call) → Answer c}
    (hreach : (clients site visitors).Reach (LeavesMapped site visitors) run) (h : SeesDisk site visitors run)
    (henabled : (clients site visitors).enabled run (.call k answer)) :
    SeesDisk site visitors ((clients site visitors).next run (.call k answer)) := by
  have hok : LeavesMapped site visitors run (.call k answer) := trivial
  obtain ⟨c, next, hprogram, hallows⟩ := id henabled
  have htyped := Host.typed_of_reach (fun k => typed_visit (visitors k)) hreach k
  rw [hprogram] at htyped
  have hmay := htyped.1
  have hcontents : (site.host.turn run (.call k answer)).host.contents = run.host.contents := by
    rw [Host.turn_call hprogram]
    exact contents_after ..
  constructor
  · intro j c' next' path file hprogram' hmapping
    change (site.host.turn run (.call k answer)).host.contents _ = _
    change (site.host.turn run (.call k answer)).program j = _ at hprogram'
    change ((visitors j).visit ((site.host.turn run (.call k answer)).trace j)).mapping = _ at hmapping
    rw [hcontents]
    rw [visit_turn hprogram] at hmapping
    split_ifs at hmapping with hj
    · subst hj
      rcases mapping_next hmay hmapping with hbefore | ⟨hopened, hevent⟩
      · exact h.mapped j c next path file hprogram hbefore
      · obtain ⟨rfl, hanswer⟩ := Sigma.mk.inj hevent
        rw [eq_of_heq hanswer] at hallows
        exact contents_of_mapped hreach hprogram hallows hopened
    · rw [Host.turn_call hprogram] at hprogram'
      simp only [Function.update_of_ne hj] at hprogram'
      exact h.mapped j c' next' path file hprogram' hmapping
  · intro j path file tm pc hentered
    change (visitors j).visit ((site.host.turn run (.call k answer)).trace j) = _ at hentered
    rw [visit_turn hprogram] at hentered
    split_ifs at hentered with hj
    · subst hj
      rcases entered_next hmay hentered with ⟨pc', hbefore⟩ | hdated
      · exact (h.entered j path file tm pc' hbefore).next hok henabled
      · have hvisit : (visitors j).visit (run.trace j) = .dated path file tm := hdated
        have htraced := (visit_of_steps (Host.steps_of_reach hreach j)).1
        rw [hvisit] at htraced
        refine ⟨run, hreach, .step .refl hok henabled, htraced, ?_⟩
        exact h.mapped j c next path file hprogram (by rw [hvisit]; rfl)
    · exact (h.entered j path file tm pc hentered).next hok henabled

/-- The bytes that the log process has still to log. -/
def LogShared.left (s : LogShared κ) : List Byte :=
  let state := s.state (fun _ => .start) []
  state.beingRead ++ (intHeader.unframe state.encoded).flatten

end Sacagawea
