import Sacagawea.Config.Conf
import Sacagawea.Lib.Split

/-!
# The configuration by lines

sacagawea.conf is meant to be read line by line, and it is read with `fgets`, which also stops behind
511 bytes. Each piece of a longer line is then looked at as if it were a line. The file says the same
by lines and by pieces when the first piece of a long line names what the line does and the pieces
behind it name nothing.
-/

namespace Sacagawea

def confPatterns : List (KeywordPattern Byte) :=
  [modePattern, homedirPattern, hostnamePattern, portPattern]

/-- The two strings name the same settings. -/
def SameSettings (str str' : CStr) : Prop :=
  ∀ pattern ∈ confPatterns, doRegex pattern str = doRegex pattern str'

instance (str str' : CStr) : Decidable (SameSettings str str') :=
  inferInstanceAs (Decidable (∀ pattern ∈ confPatterns, doRegex pattern str = doRegex pattern str'))

/-- Nothing is named in the string. -/
def Silent (str : CStr) : Prop := SameSettings str (CStr.ofBuffer [])

instance (str : CStr) : Decidable (Silent str) := inferInstanceAs (Decidable (SameSettings ..))

/-- The first 511 bytes of a line name what the line names, and the pieces behind them nothing. -/
def NamedInFront (line : List Byte) : Prop :=
  SameSettings (CStr.ofBuffer (line.take 511)) (CStr.ofBuffer line) ∧
    ∀ piece ∈ fgetsPieces 512 (line.drop 511), Silent (CStr.ofBuffer piece)

instance (line : List Byte) : Decidable (NamedInFront line) :=
  inferInstanceAs (Decidable (_ ∧ ∀ piece ∈ fgetsPieces 512 (line.drop 511), _))

/-- `read_conf_line` and then `check_if_port_change`. -/
def applyLine (opendir : CStr → Bool) (settings : Settings) (line : CStr) : Except Stop Settings := do
  let settings ← readConfLine opendir line settings
  let (settings, _) ← checkIfPortChange line settings
  .ok settings

/-- What a configuration stands for: the settings its lines make, one after the other. -/
def confSettings (opendir : CStr → Bool) (content : List Byte) (settings : Settings) :
    Except Stop Settings :=
  (content.splitOn LF).foldlM (fun settings line => applyLine opendir settings (CStr.ofBuffer line))
    settings

/-! ### What a string names -/

theorem applyLine_congr (opendir : CStr → Bool) (settings : Settings) {str str' : CStr}
    (h : SameSettings str str') : applyLine opendir settings str = applyLine opendir settings str' := by
  have hmode := h modePattern (by simp [confPatterns])
  have hhomedir := h homedirPattern (by simp [confPatterns])
  have hhostname := h hostnamePattern (by simp [confPatterns])
  have hport := h portPattern (by simp [confPatterns])
  simp only [applyLine, readConfLine, readMode, readHomedir, readHostname, checkIfPortChange, hmode,
    hhomedir, hhostname, hport]

theorem applyLine_silent (opendir : CStr → Bool) (settings : Settings) {str : CStr} (h : Silent str) :
    applyLine opendir settings str = .ok settings := by
  rw [applyLine_congr opendir settings h]
  rfl

/-! ### The pieces of one line -/

def applyPiece (opendir : CStr → Bool) (settings : Settings) (piece : List Byte) : Except Stop Settings :=
  applyLine opendir settings (chomp (CStr.ofBuffer piece))

theorem chomp_ofBuffer_line {line : List Byte} (hnul : NUL ∉ line) :
    chomp (CStr.ofBuffer (line ++ [LF])) = CStr.ofBuffer line := by
  have hall : ∀ c ∈ line, (c != NUL) = true := fun c hc => bne_iff_ne.mpr fun h => hnul (h ▸ hc)
  have hchars : (CStr.ofBuffer (line ++ [LF])).chars = line ++ [LF] := by
    rw [CStr.chars_ofBuffer, List.takeWhile_append_of_pos hall]
    rfl
  apply CStr.ext
  rw [CStr.chars_ofBuffer, List.takeWhile_eq_self_iff.mpr hall]
  simp [chomp, hchars]

theorem chomp_ofBuffer {line : List Byte} (hline : LF ∉ line) :
    chomp (CStr.ofBuffer line) = CStr.ofBuffer line := by
  apply CStr.ext
  refine if_neg fun hlast => hline ?_
  exact (CStr.ofBuffer_prefix line).subset (List.mem_of_getLast? hlast)

theorem not_mem_of_fgetsPieces {c : Byte} {line piece : List Byte} (hline : c ∉ line)
    (h : piece ∈ fgetsPieces 512 line) : c ∉ piece :=
  fun hc => hline ((mem_fgetsPieces (by decide) h).2.subset hc)

/-- A line that fits is one piece, with its newline. -/
theorem fgetsPieces_line {line : List Byte} (hline : LF ∉ line) (hshort : line.length < 511)
    (rest : List Byte) : fgetsPieces 512 (line ++ LF :: rest) = (line ++ [LF]) :: fgetsPieces 512 rest := by
  rw [fgetsPieces_eq (by decide) (by simp)]
  change (fgetsTake 511 _).1 :: fgetsPieces 512 (fgetsTake 511 _).2 = _
  rw [fgetsTake_line hline hshort]

/-- A longer one begins with a piece of 511 bytes. -/
theorem fgetsPieces_long {line : List Byte} (hline : LF ∉ line) (hlong : 511 ≤ line.length)
    (rest : List Byte) :
    fgetsPieces 512 (line ++ rest) = line.take 511 :: fgetsPieces 512 (line.drop 511 ++ rest) := by
  have hne : line ++ rest ≠ [] := by
    intro hnil
    rw [(List.append_eq_nil_iff.mp hnil).1] at hlong
    exact absurd hlong (by decide)
  rw [fgetsPieces_eq (by decide) hne]
  change (fgetsTake 511 _).1 :: fgetsPieces 512 (fgetsTake 511 _).2 = _
  rw [fgetsTake_long hline hlong]

theorem fgetsPieces_end {line : List Byte} (hline : LF ∉ line) (hne : line ≠ [])
    (hshort : line.length ≤ 511) : fgetsPieces 512 line = [line] := by
  rw [fgetsPieces_eq (by decide) hne]
  change (fgetsTake 511 _).1 :: fgetsPieces 512 (fgetsTake 511 _).2 = _
  rw [fgetsTake_end hline hshort]
  rfl

section

variable (opendir : CStr → Bool)

theorem foldlM_applyPiece_end {line : List Byte} (hline : LF ∉ line)
    (hsilent : ∀ piece ∈ fgetsPieces 512 line, Silent (CStr.ofBuffer piece)) (settings : Settings) :
    (fgetsPieces 512 line).foldlM (applyPiece opendir) settings = .ok settings := by
  have hpiece : ∀ piece ∈ fgetsPieces 512 line, applyPiece opendir settings piece = .ok settings := by
    intro piece hpiece
    rw [applyPiece, chomp_ofBuffer (not_mem_of_fgetsPieces hline hpiece)]
    exact applyLine_silent opendir settings (hsilent piece hpiece)
  generalize fgetsPieces 512 line = pieces at hpiece
  induction pieces with
  | nil => rfl
  | cons piece pieces ih =>
    obtain ⟨hfirst, hpieces⟩ := List.forall_mem_cons.mp hpiece
    rw [List.foldlM_cons, hfirst, ok_bind]
    exact ih hpieces

theorem foldlM_applyPiece_silent {line : List Byte} (hline : LF ∉ line) (hnul : NUL ∉ line)
    (hsilent : ∀ piece ∈ fgetsPieces 512 line, Silent (CStr.ofBuffer piece)) (rest : List Byte)
    (settings : Settings) :
    (fgetsPieces 512 (line ++ LF :: rest)).foldlM (applyPiece opendir) settings =
      (fgetsPieces 512 rest).foldlM (applyPiece opendir) settings := by
  induction hlength : line.length using Nat.strong_induction_on generalizing line with
  | _ length ih =>
  subst hlength
  by_cases hshort : line.length < 511
  · have hquiet : Silent (CStr.ofBuffer line) := by
      by_cases hnil : line = []
      · rw [hnil]
        exact fun _ _ => rfl
      · rw [fgetsPieces_end hline hnil (Nat.le_of_lt hshort)] at hsilent
        exact hsilent line (List.mem_singleton.mpr rfl)
    rw [fgetsPieces_line hline hshort, List.foldlM_cons, applyPiece, chomp_ofBuffer_line hnul,
      applyLine_silent opendir settings hquiet, ok_bind]
  · have hlong := Nat.le_of_not_lt hshort
    have hpieces := fgetsPieces_long hline hlong []
    rw [List.append_nil, List.append_nil] at hpieces
    rw [hpieces] at hsilent
    obtain ⟨hfirst, hsilent⟩ := List.forall_mem_cons.mp hsilent
    have hdrop : ∀ c, c ∉ line → c ∉ line.drop 511 := fun c hc hmem => hc (List.mem_of_mem_drop hmem)
    have htake : LF ∉ line.take 511 := fun hmem => hline (List.mem_of_mem_take hmem)
    have hless : (line.drop 511).length < line.length := by
      rw [List.length_drop]
      omega
    rw [fgetsPieces_long hline hlong, List.foldlM_cons, applyPiece, chomp_ofBuffer htake,
      applyLine_silent opendir settings hfirst, ok_bind]
    exact ih _ hless (hdrop LF hline) (hdrop NUL hnul) hsilent rfl

/-- The pieces of a line do what the line does. -/
theorem foldlM_applyPiece_line {line : List Byte} (hline : LF ∉ line) (hnul : NUL ∉ line)
    (hnamed : NamedInFront line) (rest : List Byte) (settings : Settings) :
    (fgetsPieces 512 (line ++ LF :: rest)).foldlM (applyPiece opendir) settings = (do
      let settings ← applyLine opendir settings (CStr.ofBuffer line)
      (fgetsPieces 512 rest).foldlM (applyPiece opendir) settings) := by
  by_cases hshort : line.length < 511
  · rw [fgetsPieces_line hline hshort, List.foldlM_cons, applyPiece, chomp_ofBuffer_line hnul]
  · have htake : LF ∉ line.take 511 := fun hmem => hline (List.mem_of_mem_take hmem)
    have hdrop : ∀ c, c ∉ line → c ∉ line.drop 511 := fun c hc hmem => hc (List.mem_of_mem_drop hmem)
    rw [fgetsPieces_long hline (Nat.le_of_not_lt hshort), List.foldlM_cons, applyPiece,
      chomp_ofBuffer htake, applyLine_congr opendir settings hnamed.1]
    congr 1
    funext settings
    exact foldlM_applyPiece_silent opendir (hdrop LF hline) (hdrop NUL hnul) hnamed.2 rest settings

theorem foldlM_applyPiece_last {line : List Byte} (hline : LF ∉ line) (hnamed : NamedInFront line)
    (settings : Settings) :
    (fgetsPieces 512 line).foldlM (applyPiece opendir) settings =
      applyLine opendir settings (CStr.ofBuffer line) := by
  by_cases hnil : line = []
  · subst hnil
    rfl
  by_cases hshort : line.length ≤ 511
  · rw [fgetsPieces_end hline hnil hshort, List.foldlM_cons, applyPiece, chomp_ofBuffer hline]
    exact bind_pure _
  · have htake : LF ∉ line.take 511 := fun hmem => hline (List.mem_of_mem_take hmem)
    have hdrop : LF ∉ line.drop 511 := fun hmem => hline (List.mem_of_mem_drop hmem)
    have hpieces := fgetsPieces_long hline (Nat.le_of_not_le hshort) []
    rw [List.append_nil, List.append_nil] at hpieces
    rw [hpieces, List.foldlM_cons, applyPiece, chomp_ofBuffer htake,
      applyLine_congr opendir settings hnamed.1]
    calc _ = applyLine opendir settings (CStr.ofBuffer line) >>= fun settings => .ok settings := by
          congr 1
          funext settings
          exact foldlM_applyPiece_end opendir hdrop hnamed.2 settings
      _ = applyLine opendir settings (CStr.ofBuffer line) := bind_pure _

/-! ### The file -/

theorem foldlM_applyPiece_lines {lines : List (List Byte)} (hne : lines ≠ [])
    (hline : ∀ line ∈ lines, LF ∉ line ∧ NUL ∉ line ∧ NamedInFront line) (settings : Settings) :
    (fgetsPieces 512 ([LF].intercalate lines)).foldlM (applyPiece opendir) settings =
      lines.foldlM (fun settings line => applyLine opendir settings (CStr.ofBuffer line)) settings := by
  induction lines generalizing settings with
  | nil => exact absurd rfl hne
  | cons line lines ih =>
    obtain ⟨⟨hlf, hnul, hnamed⟩, hlines⟩ := List.forall_mem_cons.mp hline
    rw [List.foldlM_cons]
    cases lines with
    | nil =>
      rw [List.intercalate_singleton, foldlM_applyPiece_last opendir hlf hnamed]
      exact (bind_pure _).symm
    | cons next lines =>
      have hcontent : [LF].intercalate (line :: next :: lines) =
          line ++ LF :: [LF].intercalate (next :: lines) := by
        rw [List.intercalate_cons_cons, List.append_assoc, List.singleton_append]
      rw [hcontent, foldlM_applyPiece_line opendir hlf hnul hnamed]
      congr 1
      funext settings
      exact ih (List.cons_ne_nil _ _) hlines settings

theorem foldlM_confStep_fst {strs : List CStr} (hstrs : ∀ str ∈ strs, str.chars ≠ [])
    (settings : Settings) (portChange : Bool) :
    (strs.foldlM (confStep opendir false) (settings, portChange)).map Prod.fst =
      strs.foldlM (fun settings str => applyLine opendir settings (chomp str)) settings := by
  induction strs generalizing settings portChange with
  | nil => rfl
  | cons str strs ih =>
    obtain ⟨hstr, hstrs⟩ := List.forall_mem_cons.mp hstrs
    rw [List.foldlM_cons, List.foldlM_cons, confStep, if_neg hstr, readLine, applyLine]
    simp only [Bool.false_eq_true, if_false]
    cases readConfLine opendir (chomp str) settings with
    | error stop => rfl
    | ok settings =>
      simp only [ok_bind]
      cases checkIfPortChange (chomp str) settings with
      | error stop => rfl
      | ok result => exact ih hstrs result.1 (portChange || result.2)

/-- `read_and_check_conf` looks at the pieces. -/
theorem readAndCheckConf_pieces {content : List Byte} (hnul : NUL ∉ content) (line : CharArray 512)
    (settings : Settings) :
    (readAndCheckConf opendir (some ⟨content, false⟩) line settings false).map Prod.fst =
      (fgetsPieces 512 content).foldlM (applyPiece opendir) settings := by
  have hpieces : ConfStream.strings ⟨content, false⟩ = (fgetsPieces 512 content).map CStr.ofBuffer := by
    rw [ConfStream.strings, ConfStream.pieces]
    simp
  have hstrs : ∀ str ∈ (fgetsPieces 512 content).map CStr.ofBuffer, str.chars ≠ [] := by
    refine List.forall_mem_map.mpr fun piece hpiece hnil => ?_
    obtain ⟨hne, hpart⟩ := mem_fgetsPieces (by decide) hpiece
    obtain ⟨c, piece, rfl⟩ := List.exists_cons_of_ne_nil hne
    have hc : (c != NUL) = true :=
      bne_iff_ne.mpr fun hzero => hnul (hpart.subset (hzero ▸ List.mem_cons_self))
    rw [CStr.chars_ofBuffer, List.takeWhile_cons, if_pos hc] at hnil
    cases hnil
  rw [readAndCheckConf, readLines_eq _ _ (Nat.lt_succ_self _), hpieces]
  have hfold := foldlM_confStep_fst opendir hstrs settings false
  rw [List.foldlM_map] at hfold
  calc _ = Except.map Prod.fst
        (((fgetsPieces 512 content).map CStr.ofBuffer).foldlM (confStep opendir false) (settings, false)) := by
        congr 1
        exact bind_pure _
    _ = _ := by
        rw [foldlM_confStep_fst opendir hstrs, List.foldlM_map]
        rfl

/-- The settings are those of the lines when each line names in its first 511 bytes what it names,
and nothing behind them. -/
theorem readAndCheckConf_lines {content : List Byte} (hnul : NUL ∉ content)
    (hnamed : ∀ line ∈ content.splitOn LF, NamedInFront line) (line : CharArray 512)
    (settings : Settings) :
    (readAndCheckConf opendir (some ⟨content, false⟩) line settings false).map Prod.fst =
      confSettings opendir content settings := by
  have hlines : ∀ line ∈ content.splitOn LF, LF ∉ line ∧ NUL ∉ line ∧ NamedInFront line := by
    intro line hline
    refine ⟨Split.not_mem_of_mem_splitOn hline, fun h => hnul ?_, hnamed line hline⟩
    exact (Split.infix_of_mem_splitOn hline).subset h
  have hfold := foldlM_applyPiece_lines opendir (List.splitOn_ne_nil LF content) hlines settings
  rw [List.intercalate_splitOn] at hfold
  rw [readAndCheckConf_pieces opendir hnul, hfold, confSettings]

end

/-- One line of 511 times `x` and `port 80`. -/
def longLine : List Byte := List.replicate 511 120 ++ bytes "port 80\n"

/-- The end of the line is taken for a setting. -/
theorem longLine_sets_port :
    NUL ∉ longLine ∧
      (readAndCheckConf (fun _ => true) (some ⟨longLine, false⟩) (.zero 512)
        ⟨7070, 0, 116, .zero _, .zero _⟩ false).map (·.1.port) = .ok 80 ∧
      (confSettings (fun _ => true) longLine ⟨7070, 0, 116, .zero _, .zero _⟩).map (·.port) =
        .ok 7070 := by
  decide +kernel

/-- A comment of 602 bytes and two settings. -/
def longComment : List Byte := bytes "# " ++ List.replicate 600 120 ++ bytes "\nmode p\nport 80"

theorem readAndCheckConf_lines_readme :
    ((readAndCheckConf (fun _ => true) (some ⟨longComment, false⟩) (.zero 512)
      ⟨7070, 0, 116, .zero _, .zero _⟩ false).map Prod.fst).map (fun settings => (settings.port, settings.mode)) =
        .ok (80, 112) := by
  rw [readAndCheckConf_lines (fun _ => true) (by decide +kernel) (by decide +kernel)]
  decide +kernel

end Sacagawea
