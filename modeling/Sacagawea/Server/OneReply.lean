import Sacagawea.Server.Clients
import Sacagawea.Transfer.Agreement

/-!
# One reply to a request

`management_function` stands in this development twice, with its calls and as a function of the bytes
received and of the disk. In a run of the first nothing reaches the client but what the second gives,
and that once: a text, as far as its one call of `send` takes it, or the bytes of one file from their
start, or nothing.
-/

namespace Sacagawea

open Program

/-! ### What reaches the client -/

/-- A call that shows the client nothing. -/
def Call.Silent : Call → Prop
  | .sendText _ | .openFile _ | .send _ => False
  | _ => True

/-- A call made for a file that is open. -/
def Call.Moves : Call → Prop
  | .sendText _ | .openFile _ | .recvs | .shrink | .popen _ | .opendir .. | .grow _ | .closedir => False
  | _ => True

/-- The file cannot be opened, locked, measured or mapped. -/
def Unmapped (opened : Bool) (trace : Trace Answer) : Prop :=
  opened = false ∨ ⟨.lockFile, false⟩ ∈ trace ∨ ⟨.fstat, none⟩ ∈ trace ∨ ∃ n, ⟨.mmap n, none⟩ ∈ trace

def Maps : (Σ c, Answer c) → Prop
  | ⟨.mmap _, (mapped : Option _)⟩ => mapped.isSome
  | _ => False

/-- What the client is handed of a file behind its `open`. Before it is mapped that is nothing, and then
the mapping from its start, as far as `send` has taken it. When the program is through, that is the whole
mapping if nothing failed on the connection, and there is one if the calls before it succeeded. -/
def Hands (through : Prop) (opened : Bool) (trace : Trace Answer) : Prop :=
  (∀ event ∈ trace, event.1.Silent ∧ ¬ Maps event) ∧ (through → Unmapped opened trace) ∨
    ∃ n, ∃ file : { file : List Byte // file.length = n }, ∃ rest, opened = true ∧
      trace = ⟨.lockFile, true⟩ :: ⟨.fstat, some n⟩ :: ⟨.mmap n, some file⟩ :: rest ∧
      handedOver trace = file.1.take (bytesSent trace) ∧ bytesSent trace ≤ n ∧
      (through → (∀ event ∈ trace, ¬ Broken event) → handedOver trace = file.1)

/-- The trace shows the client the reply and nothing else. -/
def Carries (through : Prop) (trace : Trace Answer) : Reply → Prop
  | .closed => ∀ event ∈ trace, event.1.Silent
  | .text response => ∃ (front back : Trace Answer) (check : Int),
    trace = front ++ ⟨.sendText response, check⟩ :: back ∧
    (∀ event ∈ front, event.1.Silent) ∧ (∀ event ∈ back, event.1.Silent) ∧
    receivedText trace = response.chars.take check.toNat
  | .file path => ∃ (front back : Trace Answer) (opened : Bool),
    trace = front ++ ⟨.openFile path, opened⟩ :: back ∧
    (∀ event ∈ front, event.1.Silent) ∧ (∀ event ∈ back, event.1.Moves) ∧ Hands through opened back

/-- The calls are answered from a disk that stays as it is, `realloc` leaves the request where it is,
and `send` takes no more than it is given. -/
def Disk.Gives (disk : Disk) : (Σ c, Answer c) → Prop
  | ⟨.popen path, (output : CharArray 64 × Probe)⟩ => output = (disk.stack path, disk.probe path)
  | ⟨.opendir path _, (folder : Option (List DirEntry))⟩ => folder = disk.folder path
  | ⟨.shrink, (shrunk : Shrink)⟩ => shrunk = .inPlace
  | ⟨.send rest, (temp : Int)⟩ => temp ≤ rest.length
  | _ => True

variable {disk : Disk} {trace front back : Trace Answer} {reply : Reply} {through : Prop} {opened : Bool}

theorem Disk.Gives.probes {event : Σ c, Answer c} (h : disk.Gives event) : Probes disk.typeOf event := by
  obtain ⟨c, r⟩ := event
  cases c <;> first | exact trivial | skip
  case popen path =>
    change CharArray 64 × Probe at r
    obtain rfl : r = (disk.stack path, disk.probe path) := h
    rfl

theorem Disk.Gives.possible {event : Σ c, Answer c} (h : disk.Gives event) : Possible event := by
  obtain ⟨c, r⟩ := event
  cases c <;> first | exact trivial | exact h

theorem Call.Silent.not_sends {c : Call} (h : c.Silent) : ¬ c.Sends := by
  cases c <;> first | exact id | exact h.elim

theorem receivedText_of_silent (h : ∀ event ∈ trace, event.1.Silent) : receivedText trace = [] := by
  refine receivedText_eq_nil fun event hevent hreplies => ?_
  have hsilent := h event hevent
  obtain ⟨c, r⟩ := event
  cases c <;> first | exact hreplies.elim | exact hsilent.elim

theorem quiet_of_silent (h : ∀ event ∈ trace, event.1.Silent) : Quiet trace :=
  quiet_of_no_send fun event hevent => (h event hevent).not_sends

theorem Carries.prepend (hfront : ∀ event ∈ front, event.1.Silent) (h : Carries through back reply) :
    Carries through (front ++ back) reply := by
  cases reply with
  | closed => exact List.forall_mem_append.mpr ⟨hfront, h⟩
  | text response =>
    obtain ⟨before, after, check, rfl, hbefore, hafter, htext⟩ := h
    refine ⟨front ++ before, after, check, (List.append_assoc ..).symm, ?_, hafter, ?_⟩
    · exact List.forall_mem_append.mpr ⟨hfront, hbefore⟩
    · rw [receivedText_append, receivedText_of_silent hfront]
      exact htext
  | file path =>
    obtain ⟨before, after, opened, rfl, hbefore, hafter⟩ := h
    refine ⟨front ++ before, after, opened, (List.append_assoc ..).symm, ?_, hafter⟩
    exact List.forall_mem_append.mpr ⟨hfront, hbefore⟩

/-- What is called behind a reply is silent, goes with a file as well, and maps none. -/
def Call.Ends (c : Call) : Prop := c.Silent ∧ c.Moves ∧ ∀ n, c ≠ .mmap n

theorem Call.Ends.not_maps {event : Σ c, Answer c} (h : event.1.Ends) : ¬ Maps event := by
  obtain ⟨c, r⟩ := event
  cases c <;> first | exact id | exact absurd rfl (h.2.2 _)

theorem Hands.append (h : Hands through opened front) (hback : ∀ event ∈ back, event.1.Ends) :
    Hands through opened (front ++ back) := by
  have hsilent : ∀ event ∈ back, event.1.Silent := fun event hevent => (hback event hevent).1
  rcases h with ⟨hfront, hfailed⟩ | ⟨n, file, rest, hopened, rfl, hhanded, hcount, hall⟩
  · refine .inl ⟨List.forall_mem_append.mpr ⟨hfront, fun event hevent => ?_⟩, fun hthrough => ?_⟩
    · exact ⟨hsilent event hevent, (hback event hevent).not_maps⟩
    · rcases hfailed hthrough with hopen | hlock | hstat | ⟨n, hmap⟩
      · exact .inl hopen
      · exact .inr (.inl (List.mem_append_left _ hlock))
      · exact .inr (.inr (.inl (List.mem_append_left _ hstat)))
      · exact .inr (.inr (.inr ⟨n, List.mem_append_left _ hmap⟩))
  · obtain ⟨hnothing, hno⟩ := quiet_of_silent hsilent
    refine .inr ⟨n, file, rest ++ back, hopened, rfl, ?_, ?_, fun hthrough hclean => ?_⟩
    · rw [handedOver_append, bytesSent_append, hnothing, hno, List.append_nil, Nat.add_zero, hhanded]
    · rw [bytesSent_append, hno, Nat.add_zero]
      exact hcount
    · rw [handedOver_append, hnothing, List.append_nil]
      exact hall hthrough fun event hevent => hclean event (List.mem_append_left _ hevent)

theorem Hands.mono {through' : Prop} (h : Hands through opened trace) (hthrough : through' → through) :
    Hands through' opened trace := by
  rcases h with ⟨hsilent, hfailed⟩ | ⟨n, file, rest, hopened, hrest, hhanded, hcount, hall⟩
  · exact .inl ⟨hsilent, hfailed ∘ hthrough⟩
  · exact .inr ⟨n, file, rest, hopened, hrest, hhanded, hcount, hall ∘ hthrough⟩

theorem Carries.append (h : Carries through front reply) (hback : ∀ event ∈ back, event.1.Ends) :
    Carries through (front ++ back) reply := by
  have hsilent : ∀ event ∈ back, event.1.Silent := fun event hevent => (hback event hevent).1
  cases reply with
  | closed => exact List.forall_mem_append.mpr ⟨h, hsilent⟩
  | text response =>
    obtain ⟨before, after, check, rfl, hbefore, hafter, htext⟩ := h
    refine ⟨before, after ++ back, check, List.append_assoc .., hbefore, ?_, ?_⟩
    · exact List.forall_mem_append.mpr ⟨hafter, hsilent⟩
    · rw [receivedText_append, receivedText_of_silent hsilent, List.append_nil, htext]
  | file path =>
    obtain ⟨before, after, opened, rfl, hbefore, hafter, hhands⟩ := h
    refine ⟨before, after ++ back, opened, List.append_assoc .., hbefore, ?_, hhands.append hback⟩
    exact List.forall_mem_append.mpr ⟨hafter, fun event hevent => (hback event hevent).2.1⟩

/-- What is shown when the program is through, was shown before. -/
theorem Carries.weaken (h : Carries True trace reply) : Carries False trace reply := by
  cases reply with
  | closed | text => exact h
  | file path =>
    obtain ⟨front, back, opened, htrace, hfront, hback, hhands⟩ := h
    exact ⟨front, back, opened, htrace, hfront, hback, hhands.mono False.elim⟩

/-! ### Programs that agree with a function -/

/-- The reply that the function gives is the one that the trace shows. -/
def Shows (through : Prop) (x : Except Stop Reply) (trace : Trace Answer) : Prop :=
  ∃ reply, x = .ok reply ∧ Carries through trace reply

/-- At any time in a run the client has been shown nothing or what the function gives, and when the
program returns it has been shown that. -/
def Agrees {α : Type} (disk : Disk) (p : Serve α) (x : Except Stop Reply) : Prop :=
  ∀ trace q, p.Steps trace q → (∀ event ∈ trace, disk.Gives event) →
    ((∀ event ∈ trace, event.1.Silent) ∨ Shows False x trace) ∧ ∀ a, q = .ret a → Shows True x trace

section

variable {α β : Type} {p : Serve α} {f : α → Serve β} {x : Except Stop Reply}

theorem Shows.prepend (hfront : ∀ event ∈ front, event.1.Silent) (h : Shows through x back) :
    Shows through x (front ++ back) := by
  obtain ⟨reply, hreply, hcarries⟩ := h
  exact ⟨reply, hreply, hcarries.prepend hfront⟩

theorem Shows.weaken (h : Shows True x trace) : Shows False x trace := by
  obtain ⟨reply, hreply, hcarries⟩ := h
  exact ⟨reply, hreply, hcarries.weaken⟩

/-- A silent part comes first. -/
theorem Agrees.silent_bind (hp : p.MakesOnly Call.Silent)
    (hf : ∀ front a, p.Leads front (.ok a) → (∀ event ∈ front, disk.Gives event) →
      Agrees disk (f a) x) : Agrees disk (p >>= f) x := by
  intro trace q h hgives
  rcases Steps.of_bind h with ⟨p', hp', rfl, hret⟩ | ⟨front, back, a, rfl, hfront, hback⟩
  · exact ⟨.inl (hp.of_mem hp'), fun b hb => absurd hb (bind_ne_ret hret f b)⟩
  · obtain ⟨hgivesFront, hgivesBack⟩ := List.forall_mem_append.mp hgives
    obtain ⟨hsofar, hdone⟩ := hf front a hfront hgivesFront back q hback hgivesBack
    have hsilent := hp.of_mem hfront
    refine ⟨hsofar.imp (fun hquiet => ?_) (Shows.prepend hsilent), fun b hb => (hdone b hb).prepend hsilent⟩
    exact List.forall_mem_append.mpr ⟨hsilent, hquiet⟩

/-- A part that shows nothing comes last. -/
theorem Agrees.bind_ends (h : Agrees disk p x) (hf : ∀ a, (f a).MakesOnly Call.Ends) :
    Agrees disk (p >>= f) x := by
  intro trace q hsteps hgives
  rcases Steps.of_bind hsteps with ⟨p', hp', rfl, hret⟩ | ⟨front, back, a, rfl, hfront, hback⟩
  · exact ⟨(h trace p' hp' hgives).1, fun b hb => absurd hb (bind_ne_ret hret f b)⟩
  · obtain ⟨hgivesFront, -⟩ := List.forall_mem_append.mp hgives
    obtain ⟨reply, hreply, hcarries⟩ := (h front _ hfront hgivesFront).2 a rfl
    have hshows : Shows True x (front ++ back) := ⟨reply, hreply, hcarries.append ((hf a).of_mem hback)⟩
    exact ⟨.inr hshows.weaken, fun _ _ => hshows⟩

/-- A silent program agrees with a connection that is closed. -/
theorem agrees_closed (hp : p.MakesOnly Call.Silent) : Agrees disk p (.ok .closed) :=
  fun _ _ h _ => ⟨.inl (hp.of_mem h), fun _ _ => ⟨.closed, rfl, hp.of_mem h⟩⟩

theorem agrees_halt (e : Ending) : Agrees disk (.halt e : Serve α) x := by
  intro trace q h _
  obtain ⟨rfl, rfl⟩ := steps_halt_iff.mp h
  exact ⟨.inl nofun, nofun⟩

theorem agrees_sendText (response : CStr) {g : Int → Serve β} (hg : ∀ check, (g check).MakesOnly Call.Silent) :
    Agrees disk ((perform (.sendText response) : Serve Int) >>= g) (.ok (.text response)) := by
  intro trace q h _
  rcases steps_ask_bind h with ⟨rfl, rfl⟩ | ⟨(check : Int), rest, rfl, hrest⟩
  · exact ⟨.inl nofun, nofun⟩
  · have hsilent := (hg check).of_mem hrest
    have hshows : Shows True (.ok (.text response)) (⟨.sendText response, check⟩ :: rest) := by
      refine ⟨_, rfl, [], rest, check, rfl, nofun, hsilent, ?_⟩
      change response.chars.take check.toNat ++ receivedText rest = _
      rw [receivedText_of_silent hsilent, List.append_nil]
    exact ⟨.inr hshows.weaken, fun _ _ => hshows⟩

end

/-! ### The parts of the program -/

section

variable {Q : Call → Prop} {rounds : Nat} {file : List Byte} {pathFile addr : CStr}

theorem makesOnly_threadSender_of (hQ : ∀ c : Call, c.Moves → Q c) :
    (threadSender rounds file pathFile addr).MakesOnly Q := by
  have hlog := hQ .writeLog trivial
  refine .ask_bind (hQ .signal trivial) fun (ignored : Bool) => ?_
  cases ignored with
  | false => exact makesOnly_fail hlog 1
  | true =>
    refine (makesOnly_sendLoop hlog (fun rest => hQ (.send rest) trivial) file file.length 0).bind
      fun sent => ?_
    cases sent with
    | none => trivial
    | some sent =>
      refine .ask_bind (hQ .shutdown trivial) fun (shut : Bool) => ?_
      cases shut with
      | false => exact makesOnly_log hlog
      | true =>
        refine (makesOnly_recvLoop hlog (hQ .recv trivial) rounds).bind fun closed => ?_
        change (if _ then _ else _ : Serve Unit).MakesOnly _
        split
        · refine makesOnly_logTransfer (fun c hc => hQ c ?_) _ _ _
          cases c <;> first | exact trivial | exact hc.elim
        · trivial

theorem makesOnly_giveUp (hlog : Q .writeLog) (hunlock : Q (.unlockFile false))
    (hclose : Q (.close false)) : giveUp.MakesOnly Q := by
  refine (makesOnly_log hlog).bind fun _ => .ask_bind hunlock fun unlocked => ?_
  exact (makesOnly_logUnless hlog unlocked).bind fun _ => .ask_bind hclose fun _ => trivial

theorem makesOnly_sendMapped (hQ : ∀ c : Call, c.Moves → Q c) :
    (sendMapped rounds file pathFile addr).MakesOnly Q := by
  have hrequire := makesOnly_require (hQ .writeLog trivial) 1
  refine .ask_bind (hQ (.unlockFile true) trivial) fun unlocked => (hrequire unlocked).bind fun _ => ?_
  refine .ask_bind (hQ (.close true) trivial) fun closed => (hrequire closed).bind fun _ => ?_
  refine .ask_bind (hQ .createThread trivial) fun created => (hrequire created).bind fun _ => ?_
  refine (makesOnly_threadSender_of hQ).bind fun _ => ?_
  refine .ask_bind (hQ .joinThread trivial) fun joined => (hrequire joined).bind fun _ => ?_
  exact .ask_bind (hQ .munmap trivial) fun unmapped => (hrequire unmapped).bind fun _ => trivial

/-- A program that hands over a file from its start, and the whole of it when it returns without a
failure on the connection. -/
def SendsFile {α : Type} (file : List Byte) (p : Serve α) : Prop :=
  ∀ trace q, p.Steps trace q → (∀ event ∈ trace, Possible event) → InStep file 0 trace ∧
    ∀ a, q = .ret a → (∀ event ∈ trace, ¬ Broken event) → bytesSent trace = file.length

theorem SendsFile.silent_bind {α β : Type} {p : Serve α} {f : α → Serve β}
    (hp : p.MakesOnly Call.Silent) (hf : ∀ a, SendsFile file (f a)) : SendsFile file (p >>= f) := by
  intro trace q h hpossible
  rcases Steps.of_bind h with ⟨p', hp', rfl, hret⟩ | ⟨front, back, a, rfl, hfront, hback⟩
  · have hquiet : InStep file 0 (trace ++ []) :=
      inStep_quiet_append (quiet_of_silent (hp.of_mem hp')) (inStep_nil (Nat.zero_le _))
    rw [List.append_nil] at hquiet
    exact ⟨hquiet, fun b hb => absurd hb (bind_ne_ret hret f b)⟩
  · have hquiet := quiet_of_silent (hp.of_mem hfront)
    obtain ⟨hstep, hall⟩ := hf a back q hback (List.forall_mem_append.mp hpossible).2
    refine ⟨inStep_quiet_append hquiet hstep, fun b hb hclean => ?_⟩
    rw [bytesSent_append, hquiet.2, Nat.zero_add]
    exact hall b hb (List.forall_mem_append.mp hclean).2

theorem SendsFile.bind_silent {α β : Type} {p : Serve α} {f : α → Serve β} (hp : SendsFile file p)
    (hf : ∀ a, (f a).MakesOnly Call.Silent) : SendsFile file (p >>= f) := by
  intro trace q h hpossible
  rcases Steps.of_bind h with ⟨p', hp', rfl, hret⟩ | ⟨front, back, a, rfl, hfront, hback⟩
  · exact ⟨(hp trace p' hp' hpossible).1, fun b hb => absurd hb (bind_ne_ret hret f b)⟩
  · have hquiet := quiet_of_silent ((hf a).of_mem hback)
    obtain ⟨hstep, hall⟩ := hp front _ hfront (List.forall_mem_append.mp hpossible).1
    refine ⟨inStep_append_quiet hstep hquiet, fun b hb hclean => ?_⟩
    rw [bytesSent_append, hquiet.2, Nat.add_zero]
    exact hall a rfl (List.forall_mem_append.mp hclean).1

theorem sendsFile_threadSender : SendsFile file (threadSender rounds file pathFile addr) := by
  intro trace q h hpossible
  rcases threadSender_cases h hpossible with hun | hlogging
  · refine ⟨hun.inStep, ?_⟩
    rintro ⟨⟩ rfl hclean
    obtain ⟨event, hevent, hbroken⟩ := hun.broken
    exact absurd hbroken (hclean event hevent)
  · obtain ⟨hstep, hcomplete⟩ := hlogging.transfer
    exact ⟨hstep, fun _ _ _ => hcomplete.sent⟩

theorem sendsFile_sendMapped : SendsFile file (sendMapped rounds file pathFile addr) := by
  have hrequire : ∀ ok, (require 1 ok).MakesOnly Call.Silent := makesOnly_require trivial 1
  refine .silent_bind (p := perform (.unlockFile true)) ⟨trivial, fun _ => trivial⟩ fun unlocked => ?_
  refine .silent_bind (hrequire unlocked) fun _ => ?_
  refine .silent_bind (p := perform (.close true)) ⟨trivial, fun _ => trivial⟩ fun closed => ?_
  refine .silent_bind (hrequire closed) fun _ => ?_
  refine .silent_bind (p := perform .createThread) ⟨trivial, fun _ => trivial⟩ fun created => ?_
  refine .silent_bind (hrequire created) fun _ => ?_
  refine sendsFile_threadSender.bind_silent fun _ => ?_
  refine .ask_bind trivial fun joined => (hrequire joined).bind fun _ => ?_
  exact .ask_bind trivial fun unmapped => (hrequire unmapped).bind fun _ => trivial

theorem ends_log : log.MakesOnly Call.Ends := makesOnly_log ⟨trivial, trivial, nofun⟩

/-- A program that stops here has handed nothing over. -/
theorem hands_of_call {c : Call} {f : Answer c → Serve Bool} {q : Serve Bool}
    (hq : q = (perform c >>= f)) (hsilent : ∀ event ∈ trace, event.1.Silent ∧ ¬ Maps event) :
    Hands (∃ a, q = .ret a) opened trace := by
  refine .inl ⟨hsilent, ?_⟩
  rintro ⟨a, ha⟩
  cases hq.symm.trans ha

/-- Neither does a branch that gives the file up. -/
theorem hands_of_ends {p q : Serve Bool} (front : Trace Answer) (hp : p.MakesOnly Call.Ends)
    (hsilent : ∀ event ∈ front, event.1.Silent ∧ ¬ Maps event) (hfailed : Unmapped opened front)
    (h : p.Steps back q) : Hands through opened (front ++ back) := by
  have hfront : Hands through opened front := .inl ⟨hsilent, fun _ => hfailed⟩
  exact hfront.append (hp.of_mem h)

theorem hands_sendMapped {n : Nat} (file : { file : List Byte // file.length = n }) {q : Serve Bool}
    (h : (sendMapped rounds file.1 pathFile addr).Steps trace q)
    (hpossible : ∀ event ∈ trace, Possible event) :
    Hands (∃ a, q = .ret a) true
      (⟨.lockFile, true⟩ :: ⟨.fstat, some n⟩ :: ⟨.mmap n, some file⟩ :: trace) := by
  obtain ⟨hstep, hall⟩ := sendsFile_sendMapped trace q h hpossible
  have hcalls : Quiet [⟨.lockFile, true⟩, ⟨.fstat, some n⟩, ⟨.mmap n, some file⟩] := ⟨rfl, rfl⟩
  obtain ⟨hhanded, hcount⟩ := inStep_quiet_append hcalls hstep
  rw [Nat.zero_add, file.2] at hcount
  refine .inr ⟨n, file, trace, rfl, rfl, hhanded, hcount, ?_⟩
  rintro ⟨a, rfl⟩ hclean
  have hsent : bytesSent trace = file.1.length :=
    hall a rfl fun event hevent => hclean event (by simp [hevent])
  change handedOver trace = file.1
  rw [hstep.1, hsent, List.drop_zero, List.take_length]

/-- What is called behind the opening of a file is for that file, and hands over its mapping. -/
theorem agrees_loadFileMemoryAndSend :
    Agrees disk (loadFileMemoryAndSend rounds pathFile addr) (.ok (.file pathFile)) := by
  intro trace q h hgives
  rcases steps_ask_bind h with ⟨rfl, rfl⟩ | ⟨(opened : Bool), rest, rfl, hrest⟩
  · exact ⟨.inl nofun, nofun⟩
  have hmoves : ∀ event ∈ rest, event.1.Moves := by
    refine MakesOnly.of_mem ?_ hrest
    have hlog : (do log; return false : Serve Bool).MakesOnly Call.Moves :=
      (makesOnly_log trivial).bind fun _ => trivial
    cases opened with
    | false => exact hlog
    | true =>
      refine .ask_bind trivial fun (locked : Bool) => ?_
      cases locked with
      | false => exact hlog
      | true =>
        refine .ask_bind trivial fun (statFd : Option Nat) => ?_
        cases statFd with
        | none => exact makesOnly_giveUp trivial trivial trivial
        | some lenFile =>
          refine .ask_bind trivial fun fileToSend => ?_
          cases fileToSend with
          | none => exact makesOnly_giveUp trivial trivial trivial
          | some file => exact makesOnly_sendMapped fun _ => id
  have hhands : Hands (∃ a, q = .ret a) opened rest := by
    have hgiveUp : giveUp.MakesOnly Call.Ends :=
      makesOnly_giveUp ⟨trivial, trivial, nofun⟩ ⟨trivial, trivial, nofun⟩ ⟨trivial, trivial, nofun⟩
    have hlog : (do log; return false : Serve Bool).MakesOnly Call.Ends := ends_log.bind fun _ => trivial
    have hpossible : ∀ event ∈ rest, Possible event := fun event hevent =>
      (hgives event (.tail _ hevent)).possible
    cases opened with
    | false => exact hands_of_ends [] hlog nofun (.inl rfl) hrest
    | true =>
      rcases steps_ask_bind hrest with ⟨rfl, hq⟩ | ⟨(locked : Bool), rest, rfl, hlocked⟩
      · exact hands_of_call hq nofun
      cases locked with
      | false =>
        exact hands_of_ends [⟨.lockFile, false⟩] hlog (by simp [Call.Silent, Maps])
          (.inr (.inl (.head _))) hlocked
      | true =>
        rcases steps_ask_bind hlocked with ⟨rfl, hq⟩ | ⟨(statFd : Option Nat), rest, rfl, hstat⟩
        · exact hands_of_call hq (by simp [Call.Silent, Maps])
        cases statFd with
        | none =>
          exact hands_of_ends [⟨.lockFile, true⟩, ⟨.fstat, none⟩] hgiveUp
            (by simp [Call.Silent, Maps]) (.inr (.inr (.inl (.tail _ (.head _))))) hstat
        | some n =>
          rcases steps_ask_bind hstat with ⟨rfl, hq⟩ |
            ⟨(mapped : Option { file : List Byte // file.length = n }), rest, rfl, hmapped⟩
          · exact hands_of_call hq (by simp [Call.Silent, Maps])
          cases mapped with
          | none =>
            exact hands_of_ends [⟨.lockFile, true⟩, ⟨.fstat, some n⟩, ⟨.mmap n, none⟩] hgiveUp
              (by simp [Call.Silent, Maps]) (.inr (.inr (.inr ⟨n, by simp⟩))) hmapped
          | some file =>
            exact hands_sendMapped file hmapped fun event hevent => hpossible event (by simp [hevent])
  refine ⟨.inr ⟨_, rfl, [], rest, opened, rfl, nofun, hmoves, hhands.mono False.elim⟩, fun a ha => ?_⟩
  exact ⟨_, rfl, [], rest, opened, rfl, nofun, hmoves, hhands.mono fun _ => ⟨a, ha⟩⟩

end

/-! ### The answer to a request -/

section

variable {rounds : Nat} {stack : (n : Nat) → CharArray n} {settings : Settings} {addr : CStr}

theorem silent_log : log.MakesOnly Call.Silent := makesOnly_log trivial

/-- What the function makes of a menu. -/
def Reply.ofMenu : Option CStr → Reply
  | none => .closed
  | some response => .text response

theorem agrees_sendMenu (response : Option CStr) :
    Agrees disk (Serve.sendMenu response)
      (do let response ← endMenu response; return Reply.ofMenu (some response)) := by
  cases response with
  | none => exact agrees_halt _
  | some response =>
    refine Agrees.silent_bind (makesOnly_grow trivial (fun _ => trivial) _ _) fun front menu hgrow _ => ?_
    obtain ⟨grown, rest, rfl, hrequire⟩ := leads_ask_bind_iff.mp hgrow
    obtain ⟨-, hmenu⟩ := leads_compute (leads_require (f := fun _ => compute _) hrequire)
    rw [hmenu, ok_bind]
    refine agrees_sendText menu fun check => ?_
    refine (makesOnly_logUnless trivial _).bind fun _ => silent_log.bind fun _ => ?_
    exact .ask_bind trivial fun closed => makesOnly_logUnless trivial closed

theorem agrees_sendContentOfDir (pathFile clientSelector hostname : CStr) (port : Int) :
    Agrees disk (Serve.sendContentOfDir pathFile clientSelector hostname port)
      (do
        let response ← sendContentOfDir disk.typeOf pathFile clientSelector hostname port
          (disk.folder pathFile)
        return Reply.ofMenu response) := by
  refine Agrees.silent_bind silent_log fun _ _ _ _ => ?_
  refine Agrees.silent_bind (p := perform (.opendir pathFile clientSelector)) ⟨trivial, fun _ => trivial⟩
    fun front (folder : Option (List DirEntry)) hopen hgives => ?_
  obtain ⟨folder', rest, rfl, hret⟩ := leads_ask_bind_iff.mp hopen
  obtain rfl := eq_of_leads_ret hret
  obtain rfl : folder' = disk.folder pathFile := hgives _ (.head _)
  cases disk.folder pathFile with
  | none => exact agrees_closed silent_log
  | some folder =>
    refine Agrees.silent_bind (makesOnly_menuLoop trivial (fun _ => trivial) (fun _ => trivial)
      (fun _ => trivial) ..) fun front response hloop hgives => ?_
    have hmenu := menuLoop_agrees (fun event hevent => (hgives event hevent).probes) hloop
    have hsend : Agrees disk _ _ := agrees_sendMenu response
    rw [sendContentOfDir, hmenu, ok_bind]
    cases hend : endMenu response with
    | error stop => rwa [hend] at hsend
    | ok menu => rwa [hend] at hsend

theorem agrees_respond (path input : CStr) :
    Agrees disk (Serve.respond rounds stack settings addr path input)
      (respond disk stack settings path input) := by
  refine Agrees.silent_bind (makesOnly_typePath trivial (fun _ => trivial) (fun _ => trivial) path)
    fun front type htype hgives => ?_
  have htypeOf := typePath_of_probes (fun event hevent => (hgives event hevent).probes) htype
  rw [respond, htypeOf, ok_bind]
  split_ifs with hdir herror
  · have hmenu : Agrees disk _ _ :=
      agrees_sendContentOfDir path input settings.hostname.str settings.port
    cases hcontent : sendContentOfDir disk.typeOf path input settings.hostname.str settings.port
        (disk.folder path) with
    | error stop => rwa [hcontent] at hmenu
    | ok response =>
      rw [hcontent] at hmenu
      cases response <;> exact hmenu
  · refine Agrees.silent_bind (makesOnly_compute _) fun front temp htemp _ => ?_
    obtain ⟨-, hreply⟩ := leads_compute htemp
    rw [hreply, ok_bind]
    exact agrees_sendText temp fun check => makesOnly_logUnless trivial _
  · exact agrees_loadFileMemoryAndSend.bind_ends fun _ => ends_log

theorem ends_closeSocketKillChild (mode : Byte) (errcode : Nat) :
    (closeSocketKillChild mode errcode).MakesOnly Call.Ends := by
  rw [closeSocketKillChild]
  split
  · exact ends_log
  · trivial

theorem agrees_close : Agrees disk (do log; closeSocketKillChild settings.mode 0) (.ok .closed) :=
  agrees_closed (silent_log.bind fun _ => (ends_closeSocketKillChild ..).mono fun _ h => h.1)

theorem agrees_answer (input : CStr) :
    Agrees disk (Serve.answer rounds stack settings addr input) (answer disk stack settings input) := by
  refine Agrees.silent_bind silent_log fun _ _ _ _ => ?_
  refine Agrees.silent_bind (p := perform (.allocate .pathFile)) ⟨trivial, fun _ => trivial⟩
    fun _ (allocated : Bool) _ _ => ?_
  refine Agrees.silent_bind (makesOnly_require trivial 1 allocated) fun _ _ _ _ => ?_
  refine Agrees.silent_bind (makesOnly_compute _) fun front path hpath _ => ?_
  obtain ⟨-, hpath⟩ := leads_compute hpath
  rw [answer, hpath, ok_bind]
  split_ifs with hlen
  · exact agrees_close
  · refine Agrees.silent_bind (makesOnly_compute _) fun front path hcat _ => ?_
    obtain ⟨-, hcat⟩ := leads_compute hcat
    rw [hcat]
    refine Agrees.silent_bind silent_log fun _ _ _ _ => ?_
    change Agrees disk _ (if checkSecurityPath path.str = true then _ else _)
    split_ifs with hcheck
    · exact agrees_close
    · exact (agrees_respond _ _).bind_ends fun _ => ends_closeSocketKillChild ..

theorem agrees_received (check : Int) (input : List Byte) :
    Agrees disk (Serve.received rounds stack settings addr (some (check, input)))
      (if check = -1 then .ok .closed else answer disk stack settings (CStr.ofBuffer input)) := by
  rw [Serve.received]
  split_ifs
  · exact agrees_close
  · refine Agrees.silent_bind (p := perform .shrink) ⟨trivial, fun _ => trivial⟩
      fun front (shrunk : Shrink) hshrink hgives => ?_
    obtain ⟨shrunk', rest, rfl, hret⟩ := leads_ask_bind_iff.mp hshrink
    obtain rfl := eq_of_leads_ret hret
    obtain rfl : shrunk' = .inPlace := hgives _ (.head _)
    exact agrees_answer _

/-- The calls before the request is read. -/
theorem steps_managementFunction {q : Serve Unit}
    (h : (Serve.managementFunction rounds stack settings addr).Steps trace q) :
    (∀ event ∈ trace, event.1.Silent) ∧ (∀ a, q ≠ .ret a) ∨
      ∃ front outcomes back, trace = front ++ ⟨.recvs, outcomes⟩ :: back ∧
        (∀ event ∈ front, event.1.Silent) ∧
        (Serve.received rounds stack settings addr
          (readRequest (List.replicate (inputSize settings.homedir.str) NUL)
            (inputSize settings.homedir.str) outcomes)).Steps back q := by
  rcases steps_ask_bind h with ⟨rfl, rfl⟩ | ⟨(allocated : Bool), rest, rfl, hrest⟩
  · exact .inl ⟨nofun, nofun⟩
  have hfirst : ∀ trace : Trace Answer, (∀ event ∈ trace, event.1.Silent) →
      ∀ event ∈ (⟨.allocate .input, allocated⟩ : Σ c, Answer c) :: trace, event.1.Silent :=
    fun _ htrace => List.forall_mem_cons.mpr ⟨trivial, htrace⟩
  have hrequire : (require 1 allocated).MakesOnly Call.Silent := makesOnly_require trivial 1 allocated
  rcases Steps.of_bind hrest with ⟨p', hp', rfl, hret⟩ | ⟨front, back, _, rfl, hfront, hback⟩
  · exact .inl ⟨hfirst _ (hrequire.of_mem hp'), fun a ha => bind_ne_ret hret _ a ha⟩
  rcases steps_ask_bind hback with ⟨rfl, rfl⟩ | ⟨(outcomes : List Recv), rest, rfl, hrecv⟩
  · rw [List.append_nil]
    exact .inl ⟨hfirst _ (hrequire.of_mem hfront), nofun⟩
  · exact .inr ⟨_, outcomes, rest, rfl, hfirst _ (hrequire.of_mem hfront), hrecv⟩

/-- The client has been shown the reply that the function gives for the bytes received. -/
def Replied (through : Prop) (disk : Disk) (stack : (n : Nat) → CharArray n) (settings : Settings)
    (trace : Trace Answer) : Prop :=
  ∃ outcomes reply, ⟨.recvs, outcomes⟩ ∈ trace ∧
    managementFunction disk stack settings outcomes = .ok (some reply) ∧ Carries through trace reply

theorem replied_managementFunction {q : Serve Unit}
    (h : (Serve.managementFunction rounds stack settings addr).Steps trace q)
    (hgives : ∀ event ∈ trace, disk.Gives event) :
    ((∀ event ∈ trace, event.1.Silent) ∨ Replied False disk stack settings trace) ∧
      ∀ a, q = .ret a → Replied True disk stack settings trace := by
  rcases steps_managementFunction h with ⟨hsilent, hret⟩ | ⟨front, outcomes, back, rfl, hfront, hback⟩
  · exact ⟨.inl hsilent, fun a ha => absurd ha (hret a)⟩
  obtain ⟨-, hgivesBack⟩ := List.forall_mem_append.mp hgives
  have hgivesBack := (List.forall_mem_cons.mp hgivesBack).2
  have hrecv : (⟨.recvs, outcomes⟩ : Σ c, Answer c) ∈ front ++ ⟨.recvs, outcomes⟩ :: back := by simp
  have hbefore : ∀ event ∈ front ++ [⟨.recvs, outcomes⟩], event.1.Silent :=
    List.forall_mem_append.mpr ⟨hfront, List.forall_mem_singleton.mpr trivial⟩
  rw [List.append_cons] at hrecv ⊢
  cases hread : readRequest (List.replicate (inputSize settings.homedir.str) NUL)
      (inputSize settings.homedir.str) outcomes with
  | none =>
    rw [hread] at hback
    obtain ⟨rfl, rfl⟩ := steps_halt_iff.mp hback
    rw [List.append_nil]
    exact ⟨.inl hbefore, nofun⟩
  | some result =>
    obtain ⟨check, input⟩ := result
    rw [hread] at hback
    have hreplied (through : Prop) : Shows through (if check = -1 then .ok .closed
        else answer disk stack settings (CStr.ofBuffer input)) back →
        Replied through disk stack settings (front ++ [⟨.recvs, outcomes⟩] ++ back) := by
      rintro ⟨reply, hreply, hcarries⟩
      refine ⟨outcomes, reply, hrecv, ?_, hcarries.prepend hbefore⟩
      simp only [managementFunction, hread]
      split_ifs at hreply ⊢
      · exact congrArg (fun r => Except.ok (some r)) (Except.ok.inj hreply)
      · rw [hreply]
        rfl
    obtain ⟨hsofar, hdone⟩ := agrees_received check input back q hback hgivesBack
    refine ⟨hsofar.imp (fun hquiet => ?_) (hreplied False), fun a ha => hreplied True (hdone a ha)⟩
    exact List.forall_mem_append.mpr ⟨hbefore, hquiet⟩

theorem silent_of_fail {f : Unit → Serve Unit} {q : Serve Unit}
    (h : (fail 1 >>= f).Steps trace q) : (∀ event ∈ trace, event.1.Silent) ∧ ∀ a, q ≠ .ret a := by
  rcases Steps.of_bind h with ⟨p', hp', rfl, hret⟩ | ⟨front, back, a, rfl, hfront, -⟩
  · exact ⟨(makesOnly_fail trivial 1).of_mem hp', bind_ne_ret hret f⟩
  · exact (not_returns (dies_fail 1) hfront).elim

theorem Replied.cons {event : Σ c, Answer c} (hevent : event.1.Silent)
    (h : Replied through disk stack settings trace) :
    Replied through disk stack settings (event :: trace) := by
  obtain ⟨outcomes, reply, hrecv, hfunction, hcarries⟩ := h
  exact ⟨outcomes, reply, .tail _ hrecv, hfunction,
    hcarries.prepend (List.forall_mem_singleton.mpr hevent)⟩

end

/-- At any time in serving a client, the client has been shown nothing, or exactly the reply that
`managementFunction` gives for the bytes received. When a thread is through it has been shown that reply:
a file as a whole, if the file could be mapped and nothing failed on the connection. -/
theorem one_reply {v : Visitor} {q : Serve Unit} (h : v.serve.Steps trace q)
    (hgives : ∀ event ∈ trace, disk.Gives event) :
    ((∀ event ∈ trace, event.1.Silent) ∨ Replied False disk v.stack v.settings trace) ∧
      ∀ a, q = .ret a → Replied True disk v.stack v.settings trace := by
  rw [Visitor.serve] at h
  split at h
  · rcases steps_ask_bind h with ⟨rfl, rfl⟩ | ⟨(ignored : Bool), rest, rfl, hrest⟩
    · exact ⟨.inl (List.forall_mem_nil _), fun a ha => by cases ha⟩
    have hrestGives := (List.forall_mem_cons.mp hgives).2
    cases ignored with
    | false =>
      obtain ⟨hquiet, hret⟩ := silent_of_fail hrest
      exact ⟨.inl (List.forall_mem_cons.mpr ⟨trivial, hquiet⟩), fun a ha => absurd ha (hret a)⟩
    | true =>
      obtain ⟨hsofar, hdone⟩ := replied_managementFunction hrest hrestGives
      refine ⟨hsofar.imp (fun hquiet => ?_) (Replied.cons trivial), fun a ha => (hdone a ha).cons trivial⟩
      exact List.forall_mem_cons.mpr ⟨trivial, hquiet⟩
  · exact replied_managementFunction h hgives

/-- What the client of `smallRequest` finds on the disk. -/
def smallDisk : Disk where
  probe _ := .output (bytes "text/plain; charset=us-ascii\n")
  stack _ := CharArray.zero 64
  folder _ := none

/-- The file of two bytes is sent, in two calls. -/
theorem one_reply_small :
    Replied True smallDisk CharArray.zero threadSettings (smallRequest ++ smallFile ++
        [⟨.writeLog, LogAnswer.printed⟩, ⟨.writeLog, LogAnswer.printed⟩]) ∧
      handedOver (smallRequest ++ smallFile ++
        [⟨.writeLog, LogAnswer.printed⟩, ⟨.writeLog, LogAnswer.printed⟩]) = bytes "hi" := by
  have hsteps : smallVisitor.serve.Steps (smallRequest ++ smallFile ++
      [⟨.writeLog, LogAnswer.printed⟩, ⟨.writeLog, LogAnswer.printed⟩]) (.ret ()) := by
    rw [List.append_assoc, smallFile, twoSends]
    refine steps_smallRequest.trans ?_
    repeat apply Steps.call
    exact .refl _
  refine ⟨(one_reply hsteps ?_).2 () rfl, rfl⟩
  simp [smallRequest, asked, smallFile, twoSends, Disk.Gives, smallDisk]
  decide

end Sacagawea
