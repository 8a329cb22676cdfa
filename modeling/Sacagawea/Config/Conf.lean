import Sacagawea.Base.Settings
import Sacagawea.Lib.Capture

/-!
# The configuration

config.c reads sacagawea.conf with `fgets`, in pieces of at most 511 bytes, and looks for a setting
at the start of each piece with a regular expression. At a reload only the port is read.

What lies outside of the program is an argument: the file as it can be read, and whether a directory
can be opened.
-/

namespace Sacagawea

/-! ### Regular expressions -/

/-- `[[:space:]]` -/
def isSpace (c : Byte) : Bool := c = 32 || (9 ≤ c && c ≤ 13)

/-- `[[:digit:]]` -/
def isDigit (c : Byte) : Bool := 48 ≤ c && c ≤ 57

/-- `"^mode[[:space:]]+([tp])"` -/
def modePattern : KeywordPattern Byte where
  keyword := bytes "mode"
  sep := isSpace
  cls c := c = 116 || c = 112
  max := 1
  pos := by decide

/-- `"^home-directory[[:space:]]+([^\n\r]{1,259})"` -/
def homedirPattern : KeywordPattern Byte where
  keyword := bytes "home-directory"
  sep := isSpace
  cls c := c ≠ LF && c ≠ CR
  max := 259
  pos := by decide

/-- `"^hostname[[:space:]]+([^\n\r]{1,255})"` -/
def hostnamePattern : KeywordPattern Byte where
  keyword := bytes "hostname"
  sep := isSpace
  cls c := c ≠ LF && c ≠ CR
  max := 255
  pos := by decide

/-- `"^port[[:space:]]+([[:digit:]]{1,5})"` -/
def portPattern : KeywordPattern Byte where
  keyword := bytes "port"
  sep := isSpace
  cls := isDigit
  max := 5
  pos := by decide

/-- `do_regex`, with the POSIX functions: what the group captures, or the empty string. -/
def doRegex (pattern : KeywordPattern Byte) (str : CStr) : CStr where
  chars := (pattern.capture str.chars).getD []
  noNul h := by
    cases hcapture : pattern.capture str.chars with
    | none =>
      rw [hcapture] at h
      exact nomatch h
    | some value =>
      rw [hcapture] at h
      obtain ⟨seps, hmatches⟩ := KeywordPattern.exists_matches_of_capture hcapture
      exact str.noNul (hmatches.isInfix_line.subset h)

/-! ### One line -/

/-- `strtol(s, NULL, 10)` of a string that starts with digits. -/
def strtol (s : CStr) : Nat :=
  (s.chars.takeWhile isDigit).foldl (fun val c => 10 * val + (c.toNat - 48)) 0

/-- The part of `read_conf_line` for the mode. -/
def readMode (line : CStr) (settings : Settings) : Settings :=
  match (doRegex modePattern line).chars with
  | [] => settings
  | mode :: _ => if mode = 116 then { settings with mode := 116 }
    else if mode = 112 then { settings with mode := 112 }
    else settings

/-- The part of `read_conf_line` for the home directory, with the directories `opendir` opens. -/
def readHomedir (opendir : CStr → Bool) (line : CStr) (settings : Settings) : Except Stop Settings :=
  let path := doRegex homedirPattern line
  if path.strlen = 0 then .ok settings
  else if opendir path = false then .error (.exit 1)
  else do
    let homedir ← settings.homedir.strncpy path 259
    let length ← homedir.strlen
    if length = 0 then .error .undefined
    else if homedir.cells[length - 1]? = some slash then .ok { settings with homedir }
    else do
      let homedir ← homedir.put length slash
      let length ← homedir.strlen
      let homedir ← homedir.put (length + 1) NUL
      .ok { settings with homedir }

/-- The part of `read_conf_line` for the host name. -/
def readHostname (line : CStr) (settings : Settings) : Except Stop Settings :=
  let name := doRegex hostnamePattern line
  if name.strlen = 0 then .ok settings
  else do
    let hostname ← settings.hostname.strncpy name 255
    .ok { settings with hostname }

def readConfLine (opendir : CStr → Bool) (line : CStr) (settings : Settings) : Except Stop Settings := do
  let settings := readMode line settings
  let settings ← readHomedir opendir line settings
  readHostname line settings

def checkIfPortChange (line : CStr) (settings : Settings) : Except Stop (Settings × Bool) :=
  let digits := doRegex portPattern line
  if digits.strlen = 0 then .ok (settings, false)
  else
    let val := strtol digits
    if val = 0 then .error (.exit 1)
    else if (val : Int) ≠ settings.port ∧ val < 65536 then .ok ({ settings with port := val }, true)
    else .ok (settings, false)

/-! ### The file -/

/-- An open sacagawea.conf: what can be read of it, and whether reading fails behind that. -/
structure ConfStream where
  content : List Byte
  broken : Bool
  deriving DecidableEq

/-- `fgets` would go on reading behind these bytes. -/
def wantsMore (size : Nat) (piece : List Byte) : Bool :=
  piece.length < size - 1 && piece.getLast? ≠ some LF

/-- `fgets(line, 512, fp)`, which returns `NULL` at the end of the file, and where reading fails. -/
def ConfStream.fgetsLine (fp : ConfStream) (line : List Byte) : Option (List Byte × ConfStream) :=
  if fp.broken && wantsMore 512 (fgetsTake 511 fp.content).1 then none
  else (fgets line 512 fp.content).map fun (line, content) => (line, { fp with content })

/-- The end of the line is cut off. The source looks at `line[line_len - 1]`, which is outside of
the array when the line is empty. -/
def stripNewline (line : List Byte) : Except Stop (List Byte) :=
  let lineLen := (CStr.ofBuffer line).strlen
  if lineLen = 0 then .error .undefined
  else if (line)[lineLen - 1]? = some LF then .ok (line.set (lineLen - 1) NUL)
  else .ok line

/-- What is done with a line. -/
def readLine (opendir : CStr → Bool) (calledFromHandler : Bool) (line : CStr) (settings : Settings)
    (portChange : Bool) : Except Stop (Settings × Bool) := do
  let settings ← if calledFromHandler then .ok settings else readConfLine opendir line settings
  let (settings, change) ← checkIfPortChange line settings
  .ok (settings, portChange || change)

/-- The loop of `read_and_check_conf`. The test of `line_len` against 512 is always met, so it is
left out. Each piece takes a byte at least, so the length of the file bounds the number of rounds.
-/
def readLines (opendir : CStr → Bool) (calledFromHandler : Bool) :
    (rounds : Nat) → (line : List Byte) → ConfStream → Settings → Bool → Except Stop (Settings × Bool)
  | 0, _, _, settings, portChange => .ok (settings, portChange)
  | rounds + 1, line, fp, settings, portChange =>
    match fp.fgetsLine line with
    | none => if fp.broken then .error (.exit 5) else .ok (settings, portChange)
    | some (line, fp) => do
      let line ← stripNewline line
      let (settings, portChange) ←
        readLine opendir calledFromHandler (CStr.ofBuffer line) settings portChange
      readLines opendir calledFromHandler rounds line fp settings portChange

/-- `read_and_check_conf`, with the result of `fopen` and the contents of `line` before it is read
into. -/
def readAndCheckConf (opendir : CStr → Bool) (fopen : Option ConfStream) (line : CharArray 512)
    (settings : Settings) (calledFromHandler : Bool) : Except Stop (Settings × Bool) :=
  match fopen with
  | none => .error (.exit 5)
  | some fp => readLines opendir calledFromHandler (fp.content.length + 1) line.cells fp settings false

/-! ### The loop as a fold over the lines -/

/-- The pieces that are read before the end of the file or the failure. -/
def ConfStream.pieces (fp : ConfStream) : List (List Byte) :=
  (fgetsPieces 512 fp.content).filter fun piece => !(fp.broken && wantsMore 512 piece)

def chomp (s : CStr) : CStr where
  chars := if s.chars.getLast? = some LF then s.chars.dropLast else s.chars
  noNul h := by
    split at h
    · exact s.noNul (List.mem_of_mem_dropLast h)
    · exact s.noNul h

/-- What the loop does with the string in the array. -/
def confStep (opendir : CStr → Bool) (calledFromHandler : Bool) (result : Settings × Bool) (str : CStr) :
    Except Stop (Settings × Bool) :=
  if str.chars = [] then .error .undefined
  else readLine opendir calledFromHandler (chomp str) result.1 result.2

/-- The settings of a line other than the port are read first, unless the line is read again. -/
theorem readLine_cases {opendir : CStr → Bool} {calledFromHandler : Bool} {line : CStr}
    {settings : Settings} {portChange : Bool} {result : Settings × Bool}
    (h : readLine opendir calledFromHandler line settings portChange = .ok result) :
    ∃ settings₀ change, (calledFromHandler = true ∧ settings₀ = settings ∨
        calledFromHandler = false ∧ readConfLine opendir line settings = .ok settings₀) ∧
      checkIfPortChange line settings₀ = .ok (result.1, change) ∧ result.2 = (portChange || change) := by
  rw [readLine] at h
  cases calledFromHandler with
  | true =>
    obtain ⟨settings₀, hsame, h⟩ := bind_eq_ok_iff.mp h
    obtain ⟨⟨settings₁, change⟩, hcheck, hok⟩ := bind_eq_ok_iff.mp h
    cases hok
    exact ⟨settings₀, change, .inl ⟨rfl, (Except.ok.inj hsame).symm⟩, hcheck, rfl⟩
  | false =>
    obtain ⟨settings₀, hconf, h⟩ := bind_eq_ok_iff.mp h
    obtain ⟨⟨settings₁, change⟩, hcheck, hok⟩ := bind_eq_ok_iff.mp h
    cases hok
    exact ⟨settings₀, change, .inr ⟨rfl, hconf⟩, hcheck, rfl⟩

theorem stripNewline_spec (line : List Byte) :
    (CStr.ofBuffer line).chars = [] ∧ stripNewline line = .error .undefined ∨
      (CStr.ofBuffer line).chars ≠ [] ∧
        ∃ line', stripNewline line = .ok line' ∧ CStr.ofBuffer line' = chomp (CStr.ofBuffer line) := by
  obtain ⟨tail, htail⟩ := CStr.ofBuffer_prefix line
  rcases List.eq_nil_or_concat (CStr.ofBuffer line).chars with hnil | ⟨front, last, hconcat⟩
  · refine .inl ⟨hnil, ?_⟩
    rw [stripNewline, CStr.strlen, hnil]
    rfl
  · rw [List.concat_eq_append] at hconcat
    have hne : (CStr.ofBuffer line).chars ≠ [] := by simp [hconcat]
    refine .inr ⟨hne, ?_⟩
    have hlen : (CStr.ofBuffer line).strlen = front.length + 1 := by
      rw [CStr.strlen, hconcat, List.length_append, List.length_singleton]
    have hline : front ++ last :: tail = line := by
      rw [← htail, hconcat, List.append_assoc, List.singleton_append]
    have hget : (line)[front.length]? = some last := by
      rw [← hline]
      simp
    have hstrip : stripNewline line =
        if last = LF then .ok (line.set front.length NUL) else .ok line := by
      simp only [stripNewline, hlen, Nat.add_one_sub_one, hget, Option.some.injEq]
      exact if_neg (Nat.succ_ne_zero _)
    rw [hstrip]
    by_cases hlast : last = LF
    · refine ⟨_, if_pos hlast, CStr.ext ?_⟩
      have hset : line.set front.length NUL = front ++ NUL :: tail := by
        rw [← hline]
        simp
      have hfront : ∀ c ∈ front, (c != NUL) = true := fun c hc =>
        (CStr.ofBuffer line).forall_mem_chars_ne c (by simp [hconcat, hc])
      rw [hset, CStr.ofBuffer_append_nul, CStr.chars_ofBuffer, List.takeWhile_eq_self_iff.mpr hfront]
      simp [chomp, hconcat, hlast]
    · refine ⟨_, if_neg hlast, CStr.ext ?_⟩
      simp [chomp, hconcat, hlast]

def ConfStream.strings (fp : ConfStream) : List CStr := fp.pieces.map CStr.ofBuffer

/-- One `fgets` gives the first string and leaves the others. -/
theorem fgetsLine_spec (fp : ConfStream) (line : List Byte) :
    fp.fgetsLine line = none ∧ fp.strings = [] ∨
      ∃ line' content, fp.fgetsLine line = some (line', { fp with content }) ∧
        content.length < fp.content.length ∧
        fp.strings = CStr.ofBuffer line' :: ConfStream.strings { fp with content } := by
  by_cases hcontent : fp.content = []
  · refine .inl ⟨?_, ?_⟩
    · rw [ConfStream.fgetsLine, fgets, if_pos hcontent]
      exact ite_self _
    · rw [ConfStream.strings, ConfStream.pieces, hcontent]
      rfl
  · have hpieces := fgetsPieces_eq (by decide : 2 ≤ 512) hcontent
    cases hmore : fp.broken && wantsMore 512 (fgetsTake 511 fp.content).1 with
    | true =>
      refine .inl ⟨if_pos hmore, ?_⟩
      have hwants := (Bool.and_eq_true_iff.mp hmore).2
      rw [wantsMore, Bool.and_eq_true_iff, decide_eq_true_iff, decide_eq_true_iff] at hwants
      have hrest := fgetsTake_snd_eq_nil hwants.1 hwants.2
      rw [ConfStream.strings, ConfStream.pieces, hpieces, hrest,
        List.filter_cons_of_neg (by simp [hmore])]
      rfl
    | false =>
      refine .inr ⟨(fgetsTake 511 fp.content).1 ++
        NUL :: line.drop ((fgetsTake 511 fp.content).1.length + 1), (fgetsTake 511 fp.content).2, ?_,
        length_fgetsTake_snd (Nat.succ_pos 510) hcontent, ?_⟩
      · rw [ConfStream.fgetsLine, if_neg (by simp [hmore]), fgets, if_neg hcontent]
        rfl
      · rw [ConfStream.strings, ConfStream.pieces, hpieces, List.filter_cons_of_pos (by simp [hmore]),
          List.map_cons, CStr.ofBuffer_append_nul]
        rfl

theorem readLines_eq (opendir : CStr → Bool) (calledFromHandler : Bool) {rounds : Nat} {line : List Byte}
    {fp : ConfStream} (h : fp.content.length < rounds) (settings : Settings) (portChange : Bool) :
    readLines opendir calledFromHandler rounds line fp settings portChange =
      (do
        let result ← fp.strings.foldlM (confStep opendir calledFromHandler) (settings, portChange)
        if fp.broken then .error (.exit 5) else .ok result) := by
  induction rounds generalizing line fp settings portChange with
  | zero => omega
  | succ rounds ih =>
    rw [readLines]
    rcases fgetsLine_spec fp line with ⟨hfgets, hstrings⟩ | ⟨line', content, hfgets, hlength, hstrings⟩
    · rw [hfgets, hstrings]
      rfl
    · rw [hfgets, hstrings, List.foldlM_cons]
      rcases stripNewline_spec line' with ⟨hnil, hstrip⟩ | ⟨hne, line'', hstrip, hstr⟩
      · simp only [hstrip, confStep, hnil, if_true, error_bind]
      · simp only [hstrip, ok_bind, confStep, if_neg hne, hstr]
        cases readLine opendir calledFromHandler (chomp (CStr.ofBuffer line')) settings
            portChange with
        | error stop => rfl
        | ok result =>
          simp only [ok_bind]
          have hless := Nat.lt_of_lt_of_le hlength (Nat.le_of_lt_succ h)
          exact @ih line'' { fp with content } hless result.1 result.2

/-! ### The port at a reload -/

/-- The number a `port` line names. -/
def namedPort (line : CStr) : Option Nat :=
  let digits := doRegex portPattern line
  if digits.strlen = 0 then none else some (strtol digits)

def namedPorts (strs : List CStr) : List Nat := strs.filterMap fun str => namedPort (chomp str)

/-- The last of the numbers that is a port, or the port before. -/
def lastPort (port : Int) (ports : List Nat) : Int :=
  (ports.filter (· < 65536)).foldl (fun _ (val : Nat) => (val : Int)) port

/-- One of the numbers is a port, and another one. -/
def MovesPort (port : Int) (ports : List Nat) : Prop := ∃ val ∈ ports, val < 65536 ∧ (val : Int) ≠ port

instance (port : Int) (ports : List Nat) : Decidable (MovesPort port ports) :=
  inferInstanceAs (Decidable (∃ val ∈ ports, val < 65536 ∧ (val : Int) ≠ port))

theorem namedPorts_cons (str : CStr) (strs : List CStr) :
    namedPorts (str :: strs) = (namedPort (chomp str)).toList ++ namedPorts strs := by
  rw [namedPorts, List.filterMap_cons, namedPorts]
  cases namedPort (chomp str) <;> rfl

theorem checkIfPortChange_eq (line : CStr) (settings : Settings) :
    checkIfPortChange line settings = match namedPort line with
      | none => .ok (settings, false)
      | some val =>
        if val = 0 then .error (.exit 1)
        else if (val : Int) ≠ settings.port ∧ val < 65536 then .ok ({ settings with port := val }, true)
        else .ok (settings, false) := by
  rw [checkIfPortChange, namedPort]
  by_cases hnone : (doRegex portPattern line).strlen = 0
  · rw [if_pos hnone, if_pos hnone]
  · rw [if_neg hnone, if_neg hnone]

theorem lastPort_cons (port : Int) (val : Nat) (ports : List Nat) :
    lastPort port (val :: ports) = lastPort (if val < 65536 then val else port) ports := by
  rw [lastPort, List.filter_cons]
  by_cases hval : val < 65536
  · rw [if_pos hval, if_pos (by simpa using hval)]
    rfl
  · rw [if_neg hval, if_neg (by simpa using hval)]
    rfl

theorem movesPort_cons (port : Int) (val : Nat) (ports : List Nat) :
    MovesPort port (val :: ports) ↔ (val < 65536 ∧ (val : Int) ≠ port) ∨ MovesPort port ports :=
  List.exists_mem_cons_iff ..

/-- At a reload the lines end the server when one names port 0, and otherwise set the last port
named, and report a change when a port other than the one before is named. -/
theorem foldlM_confStep_handler (opendir : CStr → Bool) {strs : List CStr}
    (hstrs : ∀ str ∈ strs, str.chars ≠ []) (settings : Settings) (portChange : Bool) :
    strs.foldlM (confStep opendir true) (settings, portChange) =
      if 0 ∈ namedPorts strs then .error (.exit 1)
      else .ok ({ settings with port := lastPort settings.port (namedPorts strs) },
        portChange || decide (MovesPort settings.port (namedPorts strs))) := by
  induction strs generalizing settings portChange with
  | nil => simp [namedPorts, lastPort, MovesPort, pure, Except.pure]
  | cons str strs ih =>
    obtain ⟨hstr, hstrs⟩ := List.forall_mem_cons.mp hstrs
    have hstep : confStep opendir true (settings, portChange) str = (do
        let (settings, change) ← checkIfPortChange (chomp str) settings
        .ok (settings, portChange || change)) := by
      rw [confStep, if_neg hstr, readLine]
      rfl
    rw [List.foldlM_cons, hstep, checkIfPortChange_eq]
    rw [namedPorts, List.filterMap_cons, ← namedPorts]
    cases namedPort (chomp str) with
    | none =>
      simp only [ok_bind, Bool.or_false]
      exact ih hstrs settings portChange
    | some val =>
      simp only [List.mem_cons, lastPort_cons, movesPort_cons]
      by_cases hzero : val = 0
      · simp [hzero]
      · simp only [if_neg hzero, Ne.symm hzero, false_or]
        by_cases hchange : (val : Int) ≠ settings.port ∧ val < 65536
        · simp only [if_pos hchange, ok_bind, Bool.or_true]
          rw [ih hstrs]
          simp [hchange.2, hchange.1]
        · -- the port named is the one in force, or none at all
          have hsame : (if val < 65536 then (val : Int) else settings.port) = settings.port := by
            split
            next hval => exact not_not.mp fun hne => hchange ⟨hne, hval⟩
            next => rfl
          simp only [if_neg hchange, ok_bind, Bool.or_false]
          rw [ih hstrs, hsame]
          simp [and_comm, hchange]

end Sacagawea
