import Mathlib.Data.List.DropRight
import Sacagawea.Gopher.TypePath
import Sacagawea.Log.Decode
import Sacagawea.Request.SecurityPath

/-!
# What write_log prints

`write_log` formats a message into an array, cuts off the newlines at its end, and formats it once more
behind the date and the level, with one newline. Both arrays have 1024 bytes, less the date for the
first, and both are full before the text is when a client has sent a long path.
-/

namespace Sacagawea

namespace Console

/-! ### The code -/

/-- `LOG_STR_LEN` -/
def logStrLen : Nat := 1024

inductive Level where
  | error
  | warning
  | info
  | debug
  deriving DecidableEq, Repr

/-- The level as the number of the source. -/
def Level.num : Level → Nat
  | .error => 0
  | .warning => 1
  | .info => 2
  | .debug => 3

/-- `log_lv_name` -/
def Level.name : Level → CStr
  | .error => CStr.lit "ERROR"
  | .warning => CStr.lit "WARNING"
  | .info => CStr.lit "INFO"
  | .debug => CStr.lit "DEBUG"

/-- `LOG_LEVEL` -/
def logLevel : Level := .debug

inductive Output where
  | stderr
  | stdout
  deriving DecidableEq, Repr

/-- Where a level is printed. -/
def Level.output (level : Level) : Option Output :=
  if level.num ≤ Level.warning.num then some .stderr
  else if level.num ≤ logLevel.num then some .stdout
  else none

/-- `vsnprintf(a, n, ..)`, which leaves alone what is behind its NUL. -/
def vsnprintf {n : Nat} (a : CharArray n) (text : CStr) : CharArray n where
  cells := ((snprintf n text).chars ++ NUL :: a.cells.drop ((snprintf n text).strlen + 1)).take n
  size := by
    rw [List.length_take, List.length_append, List.length_cons, List.length_drop, a.size]
    change min n ((snprintf n text).strlen + _) = n
    omega

/-- The loop that cuts off the newlines, for as many rounds as are looked at. It looks at the byte in
front of the array when the string is empty. -/
def trimNewlines {n : Nat} : (rounds : Nat) → CharArray n → Except Stop (Option (CharArray n))
  | 0, _ => .ok none
  | rounds + 1, formatted => do
    let length ← formatted.strlen
    if length = 0 then .error .undefined
    else if formatted.cells[length - 1]? = some LF then do
      let formatted ← formatted.put (length - 1) NUL
      trimNewlines rounds formatted
    else .ok (some formatted)

/-- The size of the first array, behind the date. -/
@[irreducible] def messageSize (date : Tm) : Nat := logStrLen - (dateString date).strlen

/-- A call of `write_log`: the whole text its arguments make, and what `date_string` and `malloc` give.
-/
structure LogCall where
  level : Level
  message : CStr
  date : Tm
  memory : CharArray (messageSize date)

/-- `"%s %s: %s\n"` -/
def logText (ds name formatted : CStr) : CStr where
  chars := ds.chars ++ space :: (name.chars ++ colon :: space :: (formatted.chars ++ [LF]))
  noNul := by
    have hplain : NUL ∉ [space, colon, LF] := by decide
    simp only [List.mem_cons, List.not_mem_nil, or_false, not_or] at hplain
    simp [ds.noNul, name.noNul, formatted.noNul, hplain]

def LogCall.logString (call : LogCall) (formatted : CStr) : CStr :=
  snprintf logStrLen (logText (dateString call.date) call.level.name formatted)

/-- `fprintf` to where the level is printed. -/
def Level.print (level : Level) (text : CStr) (printed : Output → List Byte) : Output → List Byte :=
  fun output => if level.output = some output then printed output ++ text.chars else printed output

/-- `write_log`, with enough memory. -/
def writeLog (rounds : Nat) (call : LogCall) (printed : Output → List Byte) :
    Except Stop (Option (Output → List Byte)) := do
  let formatted ← trimNewlines rounds (vsnprintf call.memory call.message)
  .ok (formatted.map fun formatted => call.level.print (call.logString formatted.str) printed)

/-- One call after the other. -/
def writeLogs (rounds : Nat) : List LogCall → (Output → List Byte) →
    Except Stop (Option (Output → List Byte))
  | [], printed => .ok (some printed)
  | call :: calls, printed => do
    let next ← writeLog rounds call printed
    next.elim (.ok none) fun printed => writeLogs rounds calls printed

/-! ### The newlines at the end -/

/-- A text without the newlines at its end. -/
def trimmed (text : List Byte) : List Byte := text.rdropWhile (· == LF)

theorem trimmed_eq_nil_iff {text : List Byte} : trimmed text = [] ↔ ∀ c ∈ text, c = LF := by
  simp only [trimmed, List.rdropWhile_eq_nil_iff, beq_iff_eq]

theorem stripNewlines_eq (message : List Byte) :
    stripNewlines message = if message.dropWhile (· == LF) = [] then .error .undefined
      else .ok (message.dropWhile (· == LF)) := by
  induction message with
  | nil => rfl
  | cons c message ih =>
    rw [stripNewlines]
    by_cases hc : c = LF
    · rw [if_pos hc, ih, List.dropWhile_cons_of_pos (p := (· == LF)) (beq_iff_eq.mpr hc)]
    · rw [if_neg hc, List.dropWhile_cons_of_neg (p := (· == LF)) fun h => hc (beq_iff_eq.mp h),
        if_neg (List.cons_ne_nil _ _)]

/-- What `type_path` gets printed is the trimmed text. -/
theorem writeLog_eq_ok_iff {message : CStr} {text : List Byte} :
    Sacagawea.writeLog message = .ok text ↔ trimmed message.chars ≠ [] ∧ trimmed message.chars = text := by
  have hnil : trimmed message.chars = [] ↔ message.chars.reverse.dropWhile (· == LF) = [] :=
    List.reverse_eq_nil_iff
  rw [Sacagawea.writeLog, stripNewlines_eq, Ne, hnil]
  split_ifs with h
  · exact iff_of_false nofun fun hno => hno.1 h
  · rw [ok_bind, and_iff_right h]
    change Except.ok (trimmed message.chars) = .ok text ↔ _
    rw [Except.ok.injEq]

/-- A newline goes in each round, until the string ends in something else or is empty. -/
theorem trimNewlines_cases {n : Nat} (rounds : Nat) {a : CharArray n} {s rest : List Byte}
    (hcells : a.cells = s ++ NUL :: rest) (hs : NUL ∉ s) :
    rounds ≤ s.length ∧ trimNewlines rounds a = .ok none ∨
      trimmed s = [] ∧ trimNewlines rounds a = .error .undefined ∨
      trimmed s ≠ [] ∧ ∃ b, trimNewlines rounds a = .ok (some b) ∧ b.str.chars = trimmed s := by
  induction rounds generalizing a s rest with
  | zero => exact .inl ⟨Nat.zero_le _, rfl⟩
  | succ rounds ih =>
    rw [trimNewlines, strlen_of_cells hcells hs, ok_bind]
    rcases List.eq_nil_or_concat' s with rfl | ⟨front, c, rfl⟩
    · exact .inr (.inl ⟨rfl, if_pos rfl⟩)
    have hlength : (front ++ [c]).length = front.length + 1 := List.length_append
    have hwhole : a.cells = front ++ c :: NUL :: rest := by
      rw [hcells, List.append_assoc]
      rfl
    have hlast : (a.cells)[front.length]? = some c := by
      rw [hwhole, List.getElem?_append_right le_rfl, Nat.sub_self]
      rfl
    rw [hlength, if_neg (Nat.succ_ne_zero _), Nat.add_one_sub_one, hlast]
    by_cases hc : c = LF
    · obtain ⟨b, hput, hcells'⟩ := put_behind hwhole (List.cons_ne_nil _ _) NUL
      have htrimmed : trimmed (front ++ [c]) = trimmed front :=
        List.rdropWhile_concat_pos _ _ _ (beq_iff_eq.mpr hc)
      rw [if_pos (congrArg some hc), hput, ok_bind, htrimmed]
      rcases ih hcells' fun hmem => hs (List.mem_append_left _ hmem) with ⟨hfew, hnone⟩ | hover
      · exact .inl ⟨Nat.succ_le_succ hfew, hnone⟩
      · exact .inr hover
    · have htrimmed : trimmed (front ++ [c]) = front ++ [c] :=
        List.rdropWhile_concat_neg _ _ _ fun h => hc (beq_iff_eq.mp h)
      rw [if_neg fun h => hc (Option.some.inj h), htrimmed]
      have hne : front ++ [c] ≠ [] := List.append_ne_nil_of_right_ne_nil _ (List.cons_ne_nil _ _)
      exact .inr (.inr ⟨hne, a, rfl, str_of_cells hcells hs⟩)

theorem vsnprintf_cells {n : Nat} (hn : 0 < n) (a : CharArray n) (text : CStr) :
    (vsnprintf a text).cells =
      (snprintf n text).chars ++ NUL :: a.cells.drop ((snprintf n text).strlen + 1) := by
  have hle : (snprintf n text).strlen ≤ n - 1 := List.length_take_le _ _
  apply List.take_of_length_le
  rw [List.length_append, List.length_cons, List.length_drop, a.size]
  change (snprintf n text).strlen + _ ≤ n
  omega

theorem messageSize_eq (date : Tm) : messageSize date = 1002 := by
  rw [messageSize, CStr.strlen, length_dateString]
  rfl

/-- The first array has room for 1001 bytes of the message. -/
theorem LogCall.memory_cells (call : LogCall) :
    ∃ rest, (vsnprintf call.memory call.message).cells = call.message.chars.take 1001 ++ NUL :: rest := by
  have hsize := messageSize_eq call.date
  have htext : (snprintf (messageSize call.date) call.message).chars =
      call.message.chars.take 1001 := by
    rw [hsize]
    rfl
  have hpos : 0 < messageSize call.date := by
    rw [hsize]
    decide
  exact ⟨_, by rw [vsnprintf_cells hpos, htext]⟩

theorem LogCall.trimNewlines_cases (call : LogCall) (rounds : Nat) :
    rounds ≤ 1001 ∧ trimNewlines rounds (vsnprintf call.memory call.message) = .ok none ∨
      trimmed (call.message.chars.take 1001) = [] ∧
        trimNewlines rounds (vsnprintf call.memory call.message) = .error .undefined ∨
      trimmed (call.message.chars.take 1001) ≠ [] ∧
        ∃ b, trimNewlines rounds (vsnprintf call.memory call.message) = .ok (some b) ∧
          b.str.chars = trimmed (call.message.chars.take 1001) := by
  obtain ⟨rest, hcells⟩ := call.memory_cells
  have hno : NUL ∉ call.message.chars.take 1001 := fun h => call.message.noNul (List.mem_of_mem_take h)
  rcases Console.trimNewlines_cases rounds hcells hno with ⟨hfew, hnone⟩ | hover
  · exact .inl ⟨hfew.trans (List.length_take_le _ _), hnone⟩
  · exact .inr hover

/-- What `type_path` logs fits the array, and its pieces are trimmed as they are there. -/
theorem trimNewlines_agrees (call : LogCall) (hfits : call.message.strlen ≤ 1001) (text : List Byte) :
    Sacagawea.writeLog call.message = .ok text ↔
      ∃ rounds formatted, trimNewlines rounds (vsnprintf call.memory call.message) =
        .ok (some formatted) ∧ formatted.str.chars = text := by
  have hwhole : call.message.chars.take 1001 = call.message.chars := List.take_of_length_le hfits
  have hcases := fun rounds => hwhole ▸ call.trimNewlines_cases rounds
  rw [writeLog_eq_ok_iff]
  constructor
  · rintro ⟨hne, rfl⟩
    rcases hcases 1002 with ⟨hfew, -⟩ | ⟨hnil, -⟩ | ⟨-, b, hok, hb⟩
    · exact absurd hfew (by decide)
    · exact absurd hnil hne
    · exact ⟨1002, b, hok, hb⟩
  · rintro ⟨rounds, formatted, hok, rfl⟩
    rcases hcases rounds with ⟨-, hnone⟩ | ⟨-, herror⟩ | ⟨hne, b, hb, hstr⟩
    · cases hok.symm.trans hnone
    · cases hok.symm.trans herror
    · obtain rfl := Option.some.inj (Except.ok.inj (hok.symm.trans hb))
      exact ⟨hne, hstr.symm⟩

/-- The loop ends, and stays in the array, exactly when one of the first 1001 bytes of the message is
not a newline. -/
theorem trimNewlines_inBounds_iff (call : LogCall) :
    (∃ rounds formatted,
        trimNewlines rounds (vsnprintf call.memory call.message) = .ok (some formatted)) ↔
      ∃ c ∈ call.message.chars.take 1001, c ≠ LF := by
  have hprintable : (∃ c ∈ call.message.chars.take 1001, c ≠ LF) ↔
      trimmed (call.message.chars.take 1001) ≠ [] := by
    rw [Ne, trimmed_eq_nil_iff]
    push Not
    rfl
  rw [hprintable]
  constructor
  · rintro ⟨rounds, formatted, hok⟩
    rcases call.trimNewlines_cases rounds with ⟨-, hnone⟩ | ⟨-, herror⟩ | ⟨hne, -⟩
    · cases hok.symm.trans hnone
    · cases hok.symm.trans herror
    · exact hne
  · intro hne
    rcases call.trimNewlines_cases 1002 with ⟨hfew, -⟩ | ⟨hnil, -⟩ | ⟨-, b, hok, -⟩
    · exact absurd hfew (by decide)
    · exact absurd hnil hne
    · exact ⟨1002, b, hok⟩

/-- What `file` says of a path of 21 bytes that does not exist. -/
def cannotOpen21 : List Byte :=
  bytes "cannot open `/srv/aaaaaaaaaaaaaaaa' (No such file or directory)\n"

/-- The second piece of it is a newline, and `write_log` looks at the byte in front of its array. -/
theorem lone_newline_leaves_array :
    (fgetsPieces 64 cannotOpen21).tail = [[LF]] ∧
      ∀ (date : Tm) (memory : CharArray (messageSize date)),
        ¬ ∃ rounds formatted,
          trimNewlines rounds (vsnprintf memory (CStr.ofBuffer [LF])) = .ok (some formatted) := by
  refine ⟨by decide +kernel, fun date memory => ?_⟩
  rintro ⟨rounds, formatted, hok⟩
  rcases (LogCall.mk .debug (CStr.ofBuffer [LF]) date memory).trimNewlines_cases rounds with
    ⟨-, hnone⟩ | ⟨-, herror⟩ | ⟨hne, -⟩
  · cases hok.symm.trans hnone
  · cases hok.symm.trans herror
  · have hnil : trimmed ((CStr.ofBuffer [LF]).chars.take 1001) = [] := by decide
    exact hne hnil

/-! ### What is printed -/

/-- The message without the newlines at its end. -/
def LogCall.body (call : LogCall) : List Byte := trimmed call.message.chars

/-- What stands in front of the message. -/
def LogCall.head (call : LogCall) : List Byte :=
  (dateString call.date).chars ++ space :: (call.level.name.chars ++ [colon, space])

/-- The line a message is to be printed as. -/
def LogCall.line (call : LogCall) : List Byte := call.head ++ call.body

/-- There is something to print, and room for it and a newline. -/
def LogCall.Fits (call : LogCall) : Prop :=
  call.body ≠ [] ∧ call.level.name.strlen + call.body.length ≤ 997

instance (call : LogCall) : Decidable call.Fits := inferInstanceAs (Decidable (_ ∧ _))

/-- The lines that are to be printed somewhere. -/
def linesOn (output : Output) (calls : List LogCall) : List (List Byte) :=
  (calls.filter fun call => call.level.output = some output).map LogCall.line

theorem trimmed_append_newlines (text : List Byte) {newlines : List Byte} (h : ∀ c ∈ newlines, c = LF) :
    trimmed (text ++ newlines) = trimmed text := by
  have hall : ∀ c ∈ newlines.reverse, (c == LF) = true := fun c hc =>
    beq_iff_eq.mpr (h c (List.mem_reverse.mp hc))
  rw [trimmed, List.rdropWhile, List.reverse_append, List.dropWhile_append_of_pos hall]
  rfl

theorem trimmed_of_not_mem {text : List Byte} (h : LF ∉ text) : trimmed text = text :=
  List.rdropWhile_eq_self_iff.mpr fun hne hlast => h (beq_iff_eq.mp hlast ▸ List.getLast_mem hne)

/-- Of a message without newlines inside, the array has what fits of the body. -/
theorem trimmed_take {text : List Byte} (h : LF ∉ trimmed text) (m : Nat) :
    trimmed (text.take m) = (trimmed text).take m := by
  have hnewlines : ∀ c ∈ (text.rtakeWhile (· == LF)).take (m - (trimmed text).length), c = LF := by
    intro c hc
    have hmem : c ∈ text.rtakeWhile (· == LF) := List.mem_of_mem_take hc
    exact beq_iff_eq.mp (List.mem_rtakeWhile_imp (p := (· == LF)) hmem)
  have hsplit : text.take m = (trimmed text).take m ++
      (text.rtakeWhile (· == LF)).take (m - (trimmed text).length) := by
    rw [← List.take_append, trimmed, List.rdropWhile_append_rtakeWhile]
  rw [hsplit, trimmed_append_newlines _ hnewlines]
  exact trimmed_of_not_mem fun hmem => h (List.mem_of_mem_take hmem)

theorem LogCall.lf_not_mem_head (call : LogCall) : LF ∉ call.head := by
  have hdate : LF ∉ (dateString call.date).chars := fun hmem =>
    not_mem_dateText call.date (by decide) (by decide) (by decide) (List.mem_of_mem_take hmem)
  have hname : ∀ level : Level, LF ∉ level.name.chars := by
    intro level
    cases level <;> decide
  have hcolon : LF ≠ colon := by decide
  have hblank : LF ≠ space := by decide
  simp [LogCall.head, hdate, hname, hcolon, hblank]

theorem LogCall.length_head (call : LogCall) : call.head.length = 25 + call.level.name.strlen := by
  rw [LogCall.head, List.length_append, length_dateString, List.length_cons, List.length_append]
  change 22 + (call.level.name.strlen + 2 + 1) = _
  omega

/-- The second array has room for 1023 bytes, with the newline or without. -/
theorem LogCall.logString_cases (call : LogCall) (hplain : LF ∉ call.body) {formatted : CStr}
    (hformatted : formatted.chars = call.body.take 1001) :
    call.level.name.strlen + call.body.length ≤ 997 ∧
        (call.logString formatted).chars = call.line ++ [LF] ∨
      997 < call.level.name.strlen + call.body.length ∧ LF ∉ (call.logString formatted).chars := by
  have htext : (call.logString formatted).chars =
      (call.head ++ call.body.take 1001 ++ [LF]).take 1023 := by
    rw [← hformatted]
    simp only [LogCall.logString, logText, LogCall.head, snprintf, List.append_assoc, List.cons_append]
    rfl
  have hhead := call.length_head
  rcases Nat.lt_or_ge 997 (call.level.name.strlen + call.body.length) with hlong | hfits
  · have hfull : 1023 ≤ (call.head ++ call.body.take 1001).length := by
      rw [List.length_append, List.length_take]
      omega
    refine .inr ⟨hlong, fun hmem => ?_⟩
    rw [htext, List.take_append_of_le_length hfull] at hmem
    rcases List.mem_append.mp (List.mem_of_mem_take hmem) with hmem | hmem
    · exact call.lf_not_mem_head hmem
    · exact hplain (List.mem_of_mem_take hmem)
  · have hbody : call.body.take 1001 = call.body := List.take_of_length_le (by omega)
    refine .inl ⟨hfits, ?_⟩
    rw [htext, hbody]
    apply List.take_of_length_le
    rw [List.length_append, List.length_append, List.length_singleton]
    omega

/-- A call prints its line, or a text without a newline, or ends in front of its array. -/
theorem writeLog_cases (call : LogCall) (hplain : LF ∉ call.body) (rounds : Nat)
    (printed : Output → List Byte) :
    rounds ≤ 1001 ∧ writeLog rounds call printed = .ok none ∨
      ¬ call.Fits ∧ writeLog rounds call printed = .error .undefined ∨
      ∃ text, writeLog rounds call printed = .ok (some (call.level.print text printed)) ∧
        (call.Fits ∧ text.chars = call.line ++ [LF] ∨ ¬ call.Fits ∧ LF ∉ text.chars) := by
  have htake : trimmed (call.message.chars.take 1001) = call.body.take 1001 := trimmed_take hplain 1001
  rcases call.trimNewlines_cases rounds with ⟨hfew, hnone⟩ | ⟨hnil, herror⟩ | ⟨hne, formatted, hok, hstr⟩
  · exact .inl ⟨hfew, by rw [writeLog, hnone]; rfl⟩
  · refine .inr (.inl ⟨fun hfits => hfits.1 ?_, by rw [writeLog, herror, error_bind]⟩)
    rw [htake, List.take_eq_nil_iff] at hnil
    exact hnil.resolve_left (by decide)
  · rw [htake] at hne hstr
    have hbody : call.body ≠ [] := fun hnil => hne (by rw [hnil, List.take_nil])
    refine .inr (.inr ⟨call.logString formatted.str, by rw [writeLog, hok]; rfl, ?_⟩)
    rcases call.logString_cases hplain hstr with ⟨hfits, hline⟩ | ⟨hlong, hno⟩
    · exact .inl ⟨⟨hbody, hfits⟩, hline⟩
    · exact .inr ⟨fun hfits => Nat.not_le_of_lt hlong hfits.2, hno⟩

/-! ### One message after the other -/

theorem LogCall.lf_not_mem_line {call : LogCall} (hplain : LF ∉ call.body) : LF ∉ call.line := by
  rw [LogCall.line, List.mem_append, not_or]
  exact ⟨call.lf_not_mem_head, hplain⟩

theorem LogCall.count_line {call : LogCall} (hplain : LF ∉ call.body) :
    (call.line ++ [LF]).count LF = 1 := by
  rw [List.count_append, List.count_eq_zero_of_not_mem (LogCall.lf_not_mem_line hplain)]
  rfl

theorem Level.exists_output (level : Level) : ∃ output, level.output = some output := by
  cases level <;> exact ⟨_, rfl⟩

/-- With enough rounds, messages that fit are printed as their lines. -/
theorem writeLogs_of_fits {calls : List LogCall} (hplain : ∀ call ∈ calls, LF ∉ call.body)
    (hfits : ∀ call ∈ calls, call.Fits) (printed : Output → List Byte) :
    writeLogs 1002 calls printed =
      .ok (some fun output => printed output ++ (linesOn output calls).flatMap (· ++ [LF])) := by
  induction calls generalizing printed with
  | nil => simp [writeLogs, linesOn]
  | cons call calls ih =>
    obtain ⟨hcall, hcalls⟩ := List.forall_mem_cons.mp hplain
    obtain ⟨hfit, hfits⟩ := List.forall_mem_cons.mp hfits
    rcases writeLog_cases call hcall 1002 printed with
      ⟨hfew, -⟩ | ⟨hno, -⟩ | ⟨text, hok, ⟨-, htext⟩ | ⟨hno, -⟩⟩
    · exact absurd hfew (by decide)
    · exact absurd hfit hno
    · rw [writeLogs, hok, ok_bind, Option.elim_some, ih hcalls hfits]
      congr 2
      funext output
      rw [Level.print, linesOn, linesOn, List.filter_cons]
      by_cases houtput : call.level.output = some output
      · rw [if_pos houtput, if_pos (decide_eq_true houtput), List.map_cons, List.flatMap_cons, htext,
          List.append_assoc]
      · rw [if_neg houtput, if_neg (by rw [decide_eq_true_eq]; exact houtput)]
    · exact absurd hfit hno

/-- Each message that does not fit leaves a newline out. -/
theorem count_writeLogs {calls : List LogCall} (hplain : ∀ call ∈ calls, LF ∉ call.body) {rounds : Nat}
    {printed printed' : Output → List Byte} (hok : writeLogs rounds calls printed = .ok (some printed'))
    (output : Output) :
    (printed' output).count LF + calls.countP (fun call => call.level.output = some output ∧ ¬ call.Fits) =
      (printed output).count LF + (linesOn output calls).length := by
  induction calls generalizing printed with
  | nil =>
    obtain rfl := Option.some.inj (Except.ok.inj hok)
    rfl
  | cons call calls ih =>
    obtain ⟨hcall, hcalls⟩ := List.forall_mem_cons.mp hplain
    rw [writeLogs] at hok
    rcases writeLog_cases call hcall rounds printed with ⟨-, hnone⟩ | ⟨-, herror⟩ | ⟨text, hsome, htext⟩
    · rw [hnone] at hok
      cases hok
    · rw [herror] at hok
      cases hok
    · rw [hsome, ok_bind, Option.elim_some] at hok
      have hrest := ih hcalls hok
      rw [linesOn, List.length_map] at hrest ⊢
      rw [List.filter_cons, List.countP_cons]
      by_cases houtput : call.level.output = some output
      · have hprint : call.level.print text printed output = printed output ++ text.chars := if_pos houtput
        rw [hprint, List.count_append] at hrest
        rw [if_pos (decide_eq_true houtput), List.length_cons]
        rcases htext with ⟨hfits, htext⟩ | ⟨hno, htext⟩
        · rw [htext, LogCall.count_line hcall] at hrest
          rw [if_neg (by simp [hfits])]
          omega
        · rw [List.count_eq_zero_of_not_mem htext] at hrest
          rw [if_pos (by simp [houtput, hno])]
          omega
      · have hprint : call.level.print text printed output = printed output := if_neg houtput
        rw [hprint] at hrest
        rw [if_neg (by simp [houtput]), if_neg (by simp [houtput])]
        exact hrest

/-- Messages are printed as one line each exactly when there is something to print of each, and each has
at most 997 bytes with the name of its level. -/
theorem writeLogs_lines_iff {calls : List LogCall} (hplain : ∀ call ∈ calls, LF ∉ call.body) :
    (∃ rounds printed, writeLogs rounds calls (fun _ => []) = .ok (some printed) ∧
        ∀ output, (printed output).splitOn LF = linesOn output calls ++ [[]]) ↔
      ∀ call ∈ calls, call.body ≠ [] ∧ call.level.name.strlen + call.body.length ≤ 997 := by
  constructor
  · rintro ⟨rounds, printed, hok, hlines⟩ call hcall
    obtain ⟨output, houtput⟩ := call.level.exists_output
    have hlength := congrArg List.length (hlines output)
    rw [Split.length_splitOn, List.length_append, List.length_singleton] at hlength
    have hcount := count_writeLogs hplain hok output
    rw [List.count_nil] at hcount
    have hnone : calls.countP (fun call => call.level.output = some output ∧ ¬ call.Fits) = 0 := by omega
    have hfits := List.countP_eq_zero.mp hnone call hcall
    rw [decide_eq_true_eq, not_and, not_not] at hfits
    exact hfits houtput
  · intro hfits
    refine ⟨1002, _, writeLogs_of_fits hplain hfits _, fun output => ?_⟩
    have hclean : ∀ line ∈ linesOn output calls, LF ∉ line := by
      intro line hline
      obtain ⟨call, hcall, rfl⟩ := List.mem_map.mp hline
      exact LogCall.lf_not_mem_line (hplain call (List.mem_of_mem_filter hcall))
    rw [List.nil_append, Split.splitOn_lines, Split.flatMap_splitOn_of_not_mem hclean]

/-- What `management_function` logs of a request that the filter refuses. -/
def refusal (selector : CStr) : LogCall where
  level := .warning
  message := CStr.lit "Path traversal detected in client's request: " ++
    pathFile (CStr.lit "/pub/") selector
  date := ⟨Fin.last 11, 31, 2020, 12, 30, 0⟩
  memory := .zero _

def longSelector : CStr := ⟨bytes "../" ++ List.replicate 1000 97, by decide +kernel⟩

/-- The first of two messages is cut off in front of its newline, and the second stands behind it. -/
theorem refusals_joined :
    checkSecurityPath (pathFile (CStr.lit "/pub/") longSelector) = true ∧
      (do
        let printed ← writeLogs 2 [refusal longSelector, refusal (CStr.lit "../etc")] fun _ => []
        .ok (printed.map fun (streams : Output → List Byte) => ((streams .stderr).splitOn LF).length)) =
        .ok (some 2) := by
  decide +kernel

theorem refusals_two_lines :
    ∃ rounds printed, writeLogs rounds [refusal (CStr.lit "../a"), refusal (CStr.lit "../b")]
        (fun _ => []) = .ok (some printed) ∧
      ∀ output, (printed output).splitOn LF =
        linesOn output [refusal (CStr.lit "../a"), refusal (CStr.lit "../b")] ++ [[]] :=
  (writeLogs_lines_iff (by decide +kernel)).mpr (by decide +kernel)

end Console

end Sacagawea
