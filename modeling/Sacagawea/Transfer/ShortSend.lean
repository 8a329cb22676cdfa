import Sacagawea.Transfer.Agreement

/-!
# Menus and short sends

`thread_sender` calls `send` again until the whole file has been taken. `send_content_of_dir` calls it
once, and only looks whether it failed.
-/

namespace Sacagawea

open Program

/-- What the client is handed of a text. -/
def receive : (Σ c, Answer c) → List Byte
  | ⟨.sendText text, (check : Int)⟩ => text.chars.take check.toNat
  | _ => []

def receivedText (trace : Trace Answer) : List Byte := trace.flatMap receive

/-- `send` takes a byte at least, and no more than it is given. -/
def Counts : (Σ c, Answer c) → Prop
  | ⟨.sendText text, (check : Int)⟩ => 1 ≤ check ∧ check ≤ text.chars.length
  | _ => True

/-- `send` takes all that it is given. -/
def TakesWhole : (Σ c, Answer c) → Prop
  | ⟨.sendText text, (check : Int)⟩ => check = text.chars.length
  | _ => True

/-- A run of `send_content_of_dir` in which the loop makes the response of the directory. -/
def MenuOf (pathFile clientSelector hostname : CStr) (port : Int) (trace : Trace Answer)
    (response : CStr) : Prop :=
  ∃ folder front back, trace = ⟨.writeLog, LogAnswer.printed⟩ ::
      ⟨.opendir pathFile clientSelector, some folder⟩ :: (front ++ back) ∧
    (Serve.menuLoop pathFile clientSelector hostname port folder none).Leads front (.ok (some response))

/-! ### The calls that send no text -/

def Call.Replies : Call → Prop
  | .sendText _ => True
  | _ => False

theorem receive_of_not_replies {event : Σ c, Answer c} (h : ¬ event.1.Replies) : receive event = [] := by
  obtain ⟨c, answer⟩ := event
  cases c <;> first | rfl | exact absurd trivial h

theorem takesWhole_of_not_replies {event : Σ c, Answer c} (h : ¬ event.1.Replies) : TakesWhole event := by
  obtain ⟨c, answer⟩ := event
  cases c <;> first | trivial | exact absurd trivial h

/-- A call that sends no text can be left out. -/
theorem takesWhole_cons {event : Σ c, Answer c} {trace : Trace Answer} (h : ¬ event.1.Replies) :
    (∀ e ∈ event :: trace, TakesWhole e) ↔ ∀ e ∈ trace, TakesWhole e := by
  rw [List.forall_mem_cons, and_iff_right (takesWhole_of_not_replies h)]

theorem receivedText_append (front back : Trace Answer) :
    receivedText (front ++ back) = receivedText front ++ receivedText back :=
  List.flatMap_append

theorem receivedText_eq_nil {trace : Trace Answer} (h : ∀ event ∈ trace, ¬ event.1.Replies) :
    receivedText trace = [] :=
  List.flatMap_eq_nil_iff.mpr fun event hevent => receive_of_not_replies (h event hevent)

theorem makesOnly_require {Q : Call → Prop} (hlog : Q .writeLog) (code : Nat) (ok : Bool) :
    (require code ok).MakesOnly Q := by
  cases ok with
  | true => trivial
  | false => exact makesOnly_fail hlog code

theorem makesOnly_compute {α : Type} {Q : Call → Prop} (x : Except Stop α) : (compute x).MakesOnly Q := by
  cases x <;> trivial

theorem makesOnly_require_compute {α : Type} {Q : Call → Prop} (hlog : Q .writeLog) (code : Nat)
    (ok : Bool) (x : Except Stop α) : (require code ok >>= fun _ => compute x).MakesOnly Q :=
  (makesOnly_require hlog code ok).bind fun _ => makesOnly_compute x

theorem makesOnly_logText {Q : Call → Prop} (hlog : Q .writeLog) (message : CStr) :
    (logText message).MakesOnly Q :=
  (makesOnly_compute _).bind fun _ => makesOnly_log hlog

theorem makesOnly_drainOutput {Q : Call → Prop} (hlog : Q .writeLog) (rounds : Nat)
    (popenOutput stream : List Byte) : (Serve.drainOutput rounds popenOutput stream).MakesOnly Q := by
  induction rounds generalizing popenOutput stream with
  | zero => trivial
  | succ rounds ih =>
    rw [Serve.drainOutput]
    split
    · trivial
    · exact (makesOnly_logText hlog _).bind fun _ => ih _ _

theorem makesOnly_typePath {Q : Call → Prop} (hlog : Q .writeLog) (hallocate : ∀ b, Q (.allocate b))
    (hpopen : ∀ path, Q (.popen path)) (path : CStr) : (Serve.typePath path).MakesOnly Q := by
  refine .ask_bind (hallocate _) fun (allocated : Bool) => ?_
  refine (makesOnly_require hlog 5 allocated).bind fun _ => ?_
  refine .ask_bind (hpopen path) fun (output : CharArray 64 × Probe) => ?_
  obtain ⟨stack, probe⟩ := output
  cases probe with
  | noStream | unreadable => exact makesOnly_fail hlog 5
  | output text =>
    change (Serve.classifyText stack text).MakesOnly Q
    simp only [Serve.classifyText]
    split
    · refine (makesOnly_logText hlog _).bind fun _ => ?_
      exact (makesOnly_drainOutput hlog _ _ _).bind fun _ => trivial
    · trivial

theorem makesOnly_entryLine {Q : Call → Prop} (hlog : Q .writeLog) (hallocate : ∀ b, Q (.allocate b))
    (hpopen : ∀ path, Q (.popen path)) (pathFile clientSelector hostname : CStr) (port : Int)
    (name : CStr) : (Serve.entryLine pathFile clientSelector hostname port name).MakesOnly Q := by
  refine .ask_bind (hallocate _) fun (allocated : Bool) => ?_
  refine (makesOnly_require hlog 1 allocated).bind fun _ => (makesOnly_compute _).bind fun path => ?_
  refine (makesOnly_typePath hlog hallocate hpopen path).bind fun type => ?_
  refine .ask_bind (hallocate _) fun (allocated : Bool) => ?_
  exact makesOnly_require_compute hlog 1 allocated _

theorem makesOnly_grow {Q : Call → Prop} (hlog : Q .writeLog) (hgrow : ∀ size, Q (.grow size))
    (size : Nat) (response : Except Stop CStr) : (Serve.grow size response).MakesOnly Q := by
  exact .ask_bind (hgrow size) fun grown => makesOnly_require_compute hlog 1 grown response

theorem makesOnly_menuLoop {Q : Call → Prop} (hlog : Q .writeLog) (hallocate : ∀ b, Q (.allocate b))
    (hpopen : ∀ path, Q (.popen path)) (hgrow : ∀ size, Q (.grow size))
    (pathFile clientSelector hostname : CStr) (port : Int) (folder : List DirEntry)
    (response : Option CStr) :
    (Serve.menuLoop pathFile clientSelector hostname port folder response).MakesOnly Q := by
  induction folder generalizing response with
  | nil => trivial
  | cons subFile folder ih =>
    rw [Serve.menuLoop]
    split
    · exact ih response
    · refine (makesOnly_entryLine hlog hallocate hpopen ..).bind fun line => ?_
      exact (makesOnly_grow hlog hgrow _ _).bind fun response => ih (some response)

/-! ### What the client receives -/

/-- The loop sends no text. -/
theorem menuLoop_sends_nothing {pathFile clientSelector hostname : CStr} {port : Int}
    {folder : List DirEntry} {response : Option CStr} {trace : Trace Answer} {q : Serve (Option CStr)}
    (h : (Serve.menuLoop pathFile clientSelector hostname port folder response).Steps trace q) :
    ∀ event ∈ trace, ¬ event.1.Replies :=
  (makesOnly_menuLoop (Q := fun c => ¬ c.Replies) id (fun _ => id) (fun _ => id) (fun _ => id) ..).of_mem h

/-- What follows the loop sends the response with the last line, in one call. -/
theorem sendMenu_sends {response : CStr} {trace : Trace Answer}
    (h : (Serve.sendMenu (some response)).Leads trace (.ok ())) :
    ∃ (menu : CStr) (check : Int), menu.chars = response.chars ++ bytes ".\r\n" ∧
      ⟨.sendText menu, check⟩ ∈ trace ∧ receivedText trace = menu.chars.take check.toNat ∧
      ((∀ event ∈ trace, TakesWhole event) ↔ check = menu.chars.length) := by
  obtain ⟨menu, rest, hend, rfl, hsend⟩ := leads_grow_bind h
  obtain ⟨_, -, htext⟩ := bind_eq_ok_iff.mp hend
  obtain ⟨(check : Int), back, rfl, hback⟩ := leads_ask_bind_iff.mp hsend
  have hquiet : ∀ event ∈ back, ¬ event.1.Replies := by
    refine MakesOnly.of_mem (Q := fun c => ¬ c.Replies) ?_ hback
    refine (makesOnly_logUnless id _).bind fun _ => (makesOnly_log id).bind fun _ => ?_
    exact .ask_bind id fun closed => makesOnly_logUnless id closed
  refine ⟨menu, check, ?_, .tail _ (.head _), ?_, ?_⟩
  · rw [← Except.ok.inj htext]
    rfl
  · change List.take _ _ ++ receivedText back = _
    rw [receivedText_eq_nil hquiet, List.append_nil]
  · rw [takesWhole_cons id, List.forall_mem_cons]
    exact and_iff_left fun event hevent => takesWhole_of_not_replies (hquiet event hevent)

/-- Each run that returns has a menu, unless the directory could not be opened. -/
theorem menuOf_of_returns {pathFile clientSelector hostname : CStr} {port : Int} {trace : Trace Answer}
    (h : (Serve.sendContentOfDir pathFile clientSelector hostname port).Leads trace (.ok ())) :
    (∃ response, MenuOf pathFile clientSelector hostname port trace response) ∨
      ⟨.opendir pathFile clientSelector, none⟩ ∈ trace := by
  obtain ⟨rest, rfl, hopen⟩ := leads_log_bind h
  obtain ⟨(folder : Option (List DirEntry)), rest, rfl, hfolder⟩ := leads_ask_bind_iff.mp hopen
  cases folder with
  | none => exact .inr (.tail _ (.head _))
  | some folder =>
    obtain ⟨front, back, response, rfl, hloop, hsend⟩ := Steps.of_bind_ret hfolder
    cases response with
    | none => cases (leads_halt_iff.mp (leads_ok_iff.mpr hsend)).2
    | some response => exact .inl ⟨response, folder, front, back, rfl, hloop⟩

/-- A menu reaches the client whole exactly when `send` takes it in one call. -/
theorem menu_received_iff {pathFile clientSelector hostname : CStr} {port : Int} {trace : Trace Answer}
    {response : CStr}
    (h : (Serve.sendContentOfDir pathFile clientSelector hostname port).Leads trace (.ok ()))
    (hmenu : MenuOf pathFile clientSelector hostname port trace response)
    (hcounts : ∀ event ∈ trace, Counts event) :
    receivedText trace = response.chars ++ bytes ".\r\n" ↔ ∀ event ∈ trace, TakesWhole event := by
  obtain ⟨folder, front, back, rfl, hloop⟩ := hmenu
  obtain ⟨rest, heq, hopen⟩ := leads_log_bind h
  obtain rfl := (List.cons.inj heq).2
  obtain ⟨_, rest, heq, hfolder⟩ := leads_ask_bind_iff.mp hopen
  obtain ⟨hevent, rfl⟩ := List.cons.inj heq
  cases hevent
  obtain ⟨front', back', response', hsplit, hloop', hsend⟩ := Steps.of_bind_ret hfolder
  obtain ⟨rfl, rfl⟩ := Steps.ret_unique hloop hloop' hsplit
  have hquiet := menuLoop_sends_nothing hloop
  have hfront : ∀ event ∈ front, TakesWhole event :=
    fun event hevent => takesWhole_of_not_replies (hquiet event hevent)
  obtain ⟨menu, check, htext, hmem, hreceived, hwhole⟩ := sendMenu_sends (leads_ok_iff.mpr hsend)
  have hcheck : 1 ≤ check ∧ check ≤ menu.chars.length := hcounts ⟨.sendText menu, check⟩ (by simp [hmem])
  rw [takesWhole_cons id, takesWhole_cons id, List.forall_mem_append, and_iff_right hfront, hwhole,
    ← htext]
  change receivedText (front ++ back) = menu.chars ↔ _
  rw [receivedText_append, receivedText_eq_nil hquiet, List.nil_append, hreceived,
    List.take_eq_self_iff]
  omega

def todayEntry : DirEntry := ⟨CStr.lit "today", by decide, by decide, by decide⟩

def notesPath : CStr := CStr.lit "/srv/notes"

def notesSelector : CStr := CStr.lit "notes"

def notesHost : CStr := CStr.lit "host.lan"

def notesLine : CStr := CStr.lit "0today\tnotes/today\thost.lan\t70\r\n"

def notesMenu : CStr := CStr.lit "0today\tnotes/today\thost.lan\t70\r\n.\r\n"

/-- The calls of the loop for a directory with one entry. -/
def notesLoop : Trace Answer :=
  [⟨.allocate .pathOfSubfile, true⟩, ⟨.allocate .sanitized, true⟩,
    ⟨.popen (CStr.lit "/srv/notes/today"), (CharArray.zero 64, Probe.output (bytes "text/plain\n"))⟩,
    ⟨.allocate .responseLine, true⟩, ⟨.grow 33, true⟩]

/-- The directory is sent, and `send` returns `check`. -/
def notesSent (check : Int) : Trace Answer :=
  ⟨.writeLog, LogAnswer.printed⟩ :: ⟨.opendir notesPath notesSelector, some [todayEntry]⟩ ::
    (notesLoop ++ [⟨.grow 36, true⟩, ⟨.sendText notesMenu, check⟩, ⟨.writeLog, LogAnswer.printed⟩,
      ⟨.closedir, true⟩])

theorem menuOf_notesSent (check : Int) :
    MenuOf notesPath notesSelector notesHost 70 (notesSent check) notesLine := by
  refine ⟨[todayEntry], notesLoop, _, rfl, ?_⟩
  repeat apply Steps.call
  exact .refl _

/-- The client has one byte of the menu, and nothing has failed. -/
theorem menu_cut_after_one_byte :
    (Serve.sendContentOfDir notesPath notesSelector notesHost 70).Leads (notesSent 1) (.ok ()) ∧
      MenuOf notesPath notesSelector notesHost 70 (notesSent 1) notesLine ∧
      (∀ event ∈ notesSent 1, Counts event) ∧ receivedText (notesSent 1) = bytes "0" ∧
      bytes "0" ≠ notesLine.chars ++ bytes ".\r\n" := by
  refine ⟨?_, menuOf_notesSent 1, ?_, by decide, by decide⟩
  · repeat apply Steps.call
    exact .refl _
  · simp [notesSent, notesLoop, Counts]
    decide

theorem menu_received_notes : receivedText (notesSent 35) = notesLine.chars ++ bytes ".\r\n" := by
  have hrun : (Serve.sendContentOfDir notesPath notesSelector notesHost 70).Leads (notesSent 35)
      (.ok ()) := by
    repeat apply Steps.call
    exact .refl _
  have hlength : notesMenu.chars.length = 35 := by decide
  refine (menu_received_iff hrun (menuOf_notesSent 35) ?_).mpr ?_
  · simp [notesSent, notesLoop, Counts, hlength]
  · simp [notesSent, notesLoop, TakesWhole, hlength]

end Sacagawea
