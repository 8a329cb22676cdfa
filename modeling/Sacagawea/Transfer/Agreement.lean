import Sacagawea.Transfer.Isolation

/-!
# The listing with its calls

`type_path` and the loop of `send_content_of_dir` stand in this development twice: with the calls they
make, and as functions of what the calls answer. A run of the first that returns gives what the second
does, when each path is answered by the type it has.
-/

namespace Sacagawea

open Program

/-- What `popen` gives for a path is of the type that the path has. -/
def Probes (typeOf : CStr → Except Stop GopherType) : (Σ c, Answer c) → Prop
  | ⟨.popen path, (output : CharArray 64 × Probe)⟩ => typePath output.1 output.2 = typeOf path
  | _ => True

/-! ### Runs that return -/

section

variable {α β : Type} {trace : Trace Answer} {b : β}

theorem leads_compute {x : Except Stop α} {a : α} (h : (compute x).Leads trace (.ok a)) :
    trace = [] ∧ x = .ok a := by
  cases x with
  | ok a' => exact ⟨(leads_ret_iff.mp h).1, congrArg Except.ok (eq_of_leads_ret h)⟩
  | error stop => cases (leads_halt_iff.mp h).2

theorem leads_compute_bind {x : Except Stop α} {f : α → Serve β}
    (h : (compute x >>= f).Leads trace (.ok b)) : ∃ a, x = .ok a ∧ (f a).Leads trace (.ok b) := by
  cases x with
  | ok a => exact ⟨a, rfl, h⟩
  | error stop => cases (leads_halt_iff.mp h).2

theorem leads_log_bind {f : Unit → Serve β} (h : (log >>= f).Leads trace (.ok b)) :
    ∃ rest, trace = ⟨.writeLog, LogAnswer.printed⟩ :: rest ∧ (f ()).Leads rest (.ok b) := by
  obtain ⟨(answer : LogAnswer), rest, rfl, hrest⟩ := leads_ask_bind_iff.mp h
  cases answer with
  | printed => exact ⟨rest, rfl, hrest⟩
  | noMemory | brokenPipe => cases (leads_halt_iff.mp hrest).2

/-- A text that has been logged is one that `write_log` can print. -/
theorem leads_logText_bind {message : CStr} {f : Unit → Serve β}
    (h : (logText message >>= f).Leads trace (.ok b)) :
    (∃ formatted, writeLog message = .ok formatted) ∧
      ∃ rest, trace = ⟨.writeLog, LogAnswer.printed⟩ :: rest ∧ (f ()).Leads rest (.ok b) := by
  rw [logText] at h
  cases hmessage : writeLog message with
  | ok formatted =>
    rw [hmessage] at h
    exact ⟨⟨formatted, rfl⟩, leads_log_bind h⟩
  | error stop =>
    rw [hmessage] at h
    cases (leads_halt_iff.mp h).2

theorem leads_grow_bind {size : Nat} {x : Except Stop CStr} {f : CStr → Serve β}
    (h : (Serve.grow size x >>= f).Leads trace (.ok b)) :
    ∃ text rest, x = .ok text ∧ trace = ⟨.grow size, true⟩ :: rest ∧ (f text).Leads rest (.ok b) := by
  obtain ⟨front, back, text, rfl, hgrow, hrest⟩ := Steps.of_bind_ret h
  obtain ⟨grown, rest, rfl, hrequire⟩ := leads_ask_bind_iff.mp (leads_ok_iff.mpr hgrow)
  obtain rfl := eq_true_of_require hrequire
  obtain ⟨rfl, hx⟩ := leads_compute (leads_require (f := fun _ => compute x) hrequire)
  exact ⟨text, back, hx, rfl, hrest⟩

end

/-! ### The type of a path -/

theorem drainOutput_agrees {rounds : Nat} {popenOutput stream out : List Byte} {trace : Trace Answer}
    (h : (Serve.drainOutput rounds popenOutput stream).Leads trace (.ok out)) :
    drainOutput rounds popenOutput stream = .ok out := by
  induction rounds generalizing popenOutput stream trace with
  | zero => exact congrArg Except.ok (eq_of_leads_ret h)
  | succ rounds ih =>
    rw [Serve.drainOutput] at h
    rw [drainOutput]
    cases hread : fgets popenOutput 64 stream with
    | none =>
      rw [hread] at h
      exact congrArg Except.ok (eq_of_leads_ret h)
    | some next =>
      rw [hread] at h
      obtain ⟨⟨formatted, hformatted⟩, rest, -, hrest⟩ := leads_logText_bind h
      exact bind_eq_ok_iff.mpr ⟨formatted, hformatted, ih hrest⟩

theorem classifyText_agrees {stack : CharArray 64} {text : List Byte} {type : GopherType}
    {trace : Trace Answer} (h : (Serve.classifyText stack text).Leads trace (.ok type)) :
    typePath stack (.output text) = .ok type := by
  rcases hread : (fgets stack.cells 64 text).getD (stack.cells, []) with ⟨popenOutput, stream⟩
  simp only [Serve.classifyText, hread] at h
  simp only [typePath, hread]
  by_cases hcannot : startsWith popenOutput (bytes "cannot")
  · rw [if_pos hcannot] at h
    rw [if_pos hcannot]
    obtain ⟨⟨formatted, hformatted⟩, rest, -, hdrain⟩ := leads_logText_bind h
    obtain ⟨front, back, out, -, hout, hclassify⟩ := Steps.of_bind_ret hdrain
    rw [hformatted, ok_bind, drainOutput_agrees hout]
    exact congrArg Except.ok (eq_of_leads_ret (leads_ok_iff.mpr hclassify))
  · rw [if_neg hcannot] at h
    rw [if_neg hcannot]
    exact congrArg Except.ok (eq_of_leads_ret h)

/-- The type of a path is that of what the command has been answered. -/
theorem typePath_agrees {path : CStr} {type : GopherType} {trace : Trace Answer}
    (h : (Serve.typePath path).Leads trace (.ok type)) :
    ∃ output : CharArray 64 × Probe, ⟨.popen path, output⟩ ∈ trace ∧
      typePath output.1 output.2 = .ok type := by
  obtain ⟨allocated, rest, rfl, hallocated⟩ := leads_ask_bind_iff.mp h
  have hpopen := leads_require hallocated
  obtain ⟨(output : CharArray 64 × Probe), rest, rfl, hprobe⟩ := leads_ask_bind_iff.mp hpopen
  refine ⟨output, .tail _ (.head _), ?_⟩
  obtain ⟨stack, probe⟩ := output
  cases probe with
  | noStream | unreadable => exact (not_returns (dies_fail 5) hprobe).elim
  | output text => exact classifyText_agrees hprobe

theorem typePath_of_probes {typeOf : CStr → Except Stop GopherType} {path : CStr} {type : GopherType}
    {trace : Trace Answer} (hprobes : ∀ event ∈ trace, Probes typeOf event)
    (h : (Serve.typePath path).Leads trace (.ok type)) : typeOf path = .ok type := by
  obtain ⟨output, hmem, htype⟩ := typePath_agrees h
  exact (hprobes _ hmem).symm.trans htype

/-! ### The menu of a directory -/

variable {typeOf : CStr → Except Stop GopherType} {pathFile clientSelector hostname : CStr} {port : Int}
  {trace : Trace Answer}

theorem entryLine_agrees {name line : CStr} (hprobes : ∀ event ∈ trace, Probes typeOf event)
    (h : (Serve.entryLine pathFile clientSelector hostname port name).Leads trace (.ok line)) :
    ∃ path type, pathOfSubfile pathFile name = .ok path ∧ typeOf path = .ok type ∧
      responseLine type name clientSelector hostname port = .ok line := by
  obtain ⟨allocated, rest, rfl, hallocated⟩ := leads_ask_bind_iff.mp h
  obtain ⟨path, hpath, hrest⟩ := leads_compute_bind (leads_require hallocated)
  obtain ⟨front, back, type, rfl, htype, hline⟩ := Steps.of_bind_ret hrest
  obtain ⟨_, rest, rfl, hrequire⟩ := leads_ask_bind_iff.mp (leads_ok_iff.mpr hline)
  have hfront := (List.forall_mem_append.mp (List.forall_mem_cons.mp hprobes).2).1
  have hresponse := leads_require hrequire
  exact ⟨path, type, hpath, typePath_of_probes hfront (leads_ok_iff.mpr htype),
    (leads_compute hresponse).2⟩

/-- The loop makes what the one without calls does. -/
theorem menuLoop_agrees {folder : List DirEntry} {response out : Option CStr}
    (hprobes : ∀ event ∈ trace, Probes typeOf event)
    (h : (Serve.menuLoop pathFile clientSelector hostname port folder response).Leads trace (.ok out)) :
    menuLoop typeOf pathFile clientSelector hostname port folder response = .ok out := by
  induction folder generalizing response trace with
  | nil => exact congrArg Except.ok (eq_of_leads_ret h)
  | cons subFile folder ih =>
    rw [Serve.menuLoop] at h
    rw [menuLoop]
    by_cases hskip : skipped subFile.name
    · rw [if_pos hskip] at h
      rw [if_pos hskip]
      exact ih hprobes h
    · rw [if_neg hskip] at h
      rw [if_neg hskip]
      obtain ⟨front, back, line, rfl, hline, hrest⟩ := Steps.of_bind_ret h
      obtain ⟨hfront, hback⟩ := List.forall_mem_append.mp hprobes
      obtain ⟨text, rest, happend, rfl, hloop⟩ := leads_grow_bind (leads_ok_iff.mpr hrest)
      obtain ⟨-, hprobes⟩ := List.forall_mem_cons.mp hback
      obtain ⟨path, type, hpath, htype, hentry⟩ := entryLine_agrees hfront (leads_ok_iff.mpr hline)
      rw [hpath, ok_bind, htype, ok_bind, hentry, ok_bind, happend, ok_bind]
      exact ih hprobes hloop

end Sacagawea
