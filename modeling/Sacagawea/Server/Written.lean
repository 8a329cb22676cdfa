import Sacagawea.Server.Homedir

/-!
# What is written and what is taken

The expressions of config.c have no anchor at their end, and each of them bounds what its group takes.
A value that is longer, or that something follows, is cut off where the group ends, and what is left
takes effect. The exceptions are the ports that are no ports: 0 ends the server, and a number of more
than sixteen bits is passed over.
-/

namespace Sacagawea

/-- A byte that does not end the line. -/
def inLine (c : Byte) : Bool := c ≠ LF && c ≠ CR

/-- What is written behind the keyword and the spaces, up to the end of the line. -/
def valueOf (pattern : KeywordPattern Byte) (line : CStr) : List Byte :=
  (pattern.written line.chars).takeWhile inLine

/-- The number that digits name. -/
def numeral (digits : List Byte) : Nat := digits.foldl (fun val c => 10 * val + (c.toNat - 48)) 0

/-- The last byte of the host name is a NUL, as `main` leaves it. -/
def Settings.HostTerminated (settings : Settings) : Prop := (settings.hostname.cells)[255]? = some NUL

/-- Every setting the line changes gets the whole value that is written there. -/
structure StoresWhole (line : CStr) : Prop where
  mode : ∀ opendir settings settings', settings.HostTerminated →
    readConfLine opendir line settings = .ok settings' → settings'.mode ≠ settings.mode →
      valueOf modePattern line = [settings'.mode]
  homedir : ∀ opendir settings settings', settings.HostTerminated →
    readConfLine opendir line settings = .ok settings' → settings'.homedir ≠ settings.homedir →
      settings'.homedir.str.chars = withSlash (valueOf homedirPattern line)
  hostname : ∀ opendir settings settings', settings.HostTerminated →
    readConfLine opendir line settings = .ok settings' → settings'.hostname ≠ settings.hostname →
      settings'.hostname.str.chars = valueOf hostnamePattern line
  port : ∀ settings settings' change, checkIfPortChange line settings = .ok (settings', change) →
    settings'.port ≠ settings.port →
      (∀ c ∈ valueOf portPattern line, isDigit c = true) ∧
        settings'.port = numeral (valueOf portPattern line)

/-- No byte of the spaces behind the first can be taken for a value. -/
def NoBlankValue (pattern : KeywordPattern Byte) (line : CStr) : Prop :=
  ∀ c ∈ (pattern.separators line.chars).tail, inLine c = false

/-- What is written is what the expressions take. -/
structure Storable (line : CStr) : Prop where
  mode : modePattern.Names line.chars → (valueOf modePattern line).head? = some 116 ∨
    (valueOf modePattern line).head? = some 112 → (valueOf modePattern line).length = 1
  homedir : homedirPattern.Names line.chars →
    if valueOf homedirPattern line = [] then NoBlankValue homedirPattern line
    else (valueOf homedirPattern line).length < 258 ∨
      (valueOf homedirPattern line).length = 258 ∧
        (valueOf homedirPattern line).getLast? = some slash
  hostname : hostnamePattern.Names line.chars →
    if valueOf hostnamePattern line = [] then NoBlankValue hostnamePattern line
    else (valueOf hostnamePattern line).length ≤ 255
  port : portPattern.Names line.chars →
    ((valueOf portPattern line).takeWhile isDigit).take 5 = valueOf portPattern line ∨
      numeral (((valueOf portPattern line).takeWhile isDigit).take 5) = 0 ∨
      65536 ≤ numeral (((valueOf portPattern line).takeWhile isDigit).take 5)

/-! ### What the expressions take -/

theorem chars_doRegex (pattern : KeywordPattern Byte) (line : CStr) :
    (doRegex pattern line).chars = (pattern.capture line.chars).getD [] := rfl

theorem isSpace_of_not_inLine {c : Byte} (h : inLine c = false) : isSpace c = true := by
  simp only [inLine, Bool.and_eq_false_iff, decide_eq_false_iff_not, not_not] at h
  rcases h with rfl | rfl <;> decide

/-- What is written starts in the line. -/
theorem valueOf_eq_nil_iff {pattern : KeywordPattern Byte} (hsep : pattern.sep = isSpace) (line : CStr) :
    valueOf pattern line = [] ↔ pattern.written line.chars = [] := by
  rw [valueOf]
  cases hwritten : pattern.written line.chars with
  | nil => exact iff_of_true rfl rfl
  | cons c rest =>
    have hc : inLine c = true := by
      have hnosep := KeywordPattern.sep_head_written hwritten
      rw [hsep] at hnosep
      by_contra hno
      rw [isSpace_of_not_inLine (Bool.eq_false_iff.mpr hno)] at hnosep
      cases hnosep
    rw [List.takeWhile_cons_of_pos hc]
    exact iff_of_false (List.cons_ne_nil _ _) (List.cons_ne_nil _ _)

section

variable {pattern : KeywordPattern Byte} {line : CStr}

theorem doRegex_of_not_names (h : ¬ pattern.Names line.chars) : (doRegex pattern line).chars = [] := by
  rw [chars_doRegex, KeywordPattern.capture_of_not_names h]
  rfl

/-- An expression that takes everything in the line takes what is written, up to its bound. -/
theorem doRegex_of_value (hsep : pattern.sep = isSpace) (hcls : pattern.cls = inLine)
    (h : pattern.Names line.chars) (hvalue : valueOf pattern line ≠ []) :
    (doRegex pattern line).chars = (valueOf pattern line).take pattern.max := by
  obtain ⟨c, rest, hwritten⟩ :=
    List.exists_cons_of_ne_nil fun hnil => hvalue ((valueOf_eq_nil_iff hsep line).mpr hnil)
  have hc : pattern.cls c = true := by
    rw [hcls]
    by_contra hno
    rw [valueOf, hwritten, List.takeWhile_cons_of_neg hno] at hvalue
    exact hvalue rfl
  rw [chars_doRegex, KeywordPattern.capture_eq_run h hwritten hc, Option.getD_some, KeywordPattern.run,
    hcls, valueOf]

/-- Where nothing is written it takes a space, or nothing. -/
theorem doRegex_of_no_value (hsep : pattern.sep = isSpace) (hcls : pattern.cls = inLine)
    (h : pattern.Names line.chars) (hvalue : valueOf pattern line = []) :
    NoBlankValue pattern line ∧ (doRegex pattern line).chars = [] ∨
      ¬ NoBlankValue pattern line ∧ ∃ c, isSpace c = true ∧ (doRegex pattern line).chars = [c] := by
  have hwritten := (valueOf_eq_nil_iff hsep line).mp hvalue
  by_cases hblank : NoBlankValue pattern line
  · refine .inl ⟨hblank, ?_⟩
    rw [chars_doRegex, KeywordPattern.capture_eq_none_of_written h (hcls ▸ hblank) (by simp [hwritten])]
    rfl
  · have hsome : ∃ c ∈ (pattern.separators line.chars).tail, pattern.cls c = true := by
      simpa [NoBlankValue, hcls] using hblank
    obtain ⟨c, hc, hcapture⟩ := KeywordPattern.capture_of_written_nil h hwritten hsome
    exact .inr ⟨hblank, c, hsep ▸ hc, by rw [chars_doRegex, hcapture]; rfl⟩

/-- When such an expression takes something that is no space, it is of a value that is written. -/
theorem value_of_taken {P : Prop} (hsep : pattern.sep = isSpace) (hcls : pattern.cls = inLine)
    (htaken : (doRegex pattern line).chars ≠ []) (hfits : pattern.Names line.chars →
      if valueOf pattern line = [] then NoBlankValue pattern line else P) :
    (doRegex pattern line).chars = (valueOf pattern line).take pattern.max ∧ P := by
  have h : pattern.Names line.chars := by
    by_contra hno
    exact htaken (doRegex_of_not_names hno)
  have hfits := hfits h
  have hvalue : valueOf pattern line ≠ [] := by
    intro hvalue
    rw [if_pos hvalue] at hfits
    rcases doRegex_of_no_value hsep hcls h hvalue with ⟨-, hnil⟩ | ⟨hblank, -⟩
    · exact htaken hnil
    · exact hblank hfits
  rw [if_neg hvalue] at hfits
  exact ⟨doRegex_of_value hsep hcls h hvalue, hfits⟩

/-- An expression that takes no space takes the bytes of its class from the start of what is written. -/
theorem doRegex_of_class (hdisjoint : ∀ c, pattern.sep c = true → pattern.cls c = false)
    (hcls : ∀ c, pattern.cls c = true → inLine c = true) (h : pattern.Names line.chars) :
    (doRegex pattern line).chars = ((valueOf pattern line).takeWhile pattern.cls).take pattern.max := by
  have hvalue : (valueOf pattern line).takeWhile pattern.cls =
      (pattern.written line.chars).takeWhile pattern.cls := by
    rw [valueOf, List.takeWhile_takeWhile]
    congr 1
    funext c
    cases hc : pattern.cls c with
    | false => simp
    | true => simp [hcls c hc]
  rw [chars_doRegex, hvalue]
  by_cases hhead : ∃ c rest, pattern.written line.chars = c :: rest ∧ pattern.cls c = true
  · obtain ⟨c, rest, hwritten, hc⟩ := hhead
    rw [KeywordPattern.capture_eq_run h hwritten hc]
    rfl
  · have hnone : ∀ c, (pattern.written line.chars).head? = some c → pattern.cls c = false := by
      intro c hc
      obtain ⟨rest, hrest⟩ := List.head?_eq_some_iff.mp hc
      exact Bool.eq_false_iff.mpr fun hpos => hhead ⟨c, rest, hrest, hpos⟩
    have htail : ∀ c ∈ (pattern.separators line.chars).tail, pattern.cls c = false :=
      fun c hc => hdisjoint c (KeywordPattern.sep_of_mem_tail c hc)
    rw [KeywordPattern.capture_eq_none_of_written h htail hnone]
    cases hwritten : pattern.written line.chars with
    | nil =>
      rw [List.takeWhile_nil, List.take_nil]
      rfl
    | cons c rest =>
      rw [List.takeWhile_cons_of_neg (by simp [hnone c (by rw [hwritten]; rfl)]), List.take_nil]
      rfl

end

/-! ### The mode -/

theorem cls_modePattern {c : Byte} : modePattern.cls c = true ↔ c = 116 ∨ c = 112 := by
  simp [modePattern]

theorem modeAfter_of_not_names {line : CStr} (h : ¬ modePattern.Names line.chars) (mode : Byte) :
    modeAfter line mode = mode := by
  rw [modeAfter, doRegex_of_not_names h]

theorem modeAfter_of_names {line : CStr} (h : modePattern.Names line.chars) :
    (∃ c rest, valueOf modePattern line = c :: rest ∧ (c = 116 ∨ c = 112) ∧
        ∀ mode, modeAfter line mode = c) ∨
      (¬ ((valueOf modePattern line).head? = some 116 ∨ (valueOf modePattern line).head? = some 112) ∧
        ∀ mode, modeAfter line mode = mode) := by
  have hdisjoint : ∀ c, isSpace c = true → modePattern.cls c = false := by
    intro c hspace
    by_contra hc
    rcases cls_modePattern.mp (Bool.not_eq_false _ ▸ hc) with rfl | rfl <;> cases hspace
  have hline : ∀ c, modePattern.cls c = true → inLine c = true := by
    intro c hc
    rcases cls_modePattern.mp hc with rfl | rfl <;> rfl
  have htaken := doRegex_of_class hdisjoint hline h
  cases hvalue : valueOf modePattern line with
  | nil =>
    rw [hvalue] at htaken
    exact .inr ⟨by simp, fun mode => by rw [modeAfter, htaken]; rfl⟩
  | cons c rest =>
    rw [hvalue] at htaken
    by_cases hc : modePattern.cls c = true
    · rw [List.takeWhile_cons_of_pos hc] at htaken
      have hletter := cls_modePattern.mp hc
      refine .inl ⟨c, rest, rfl, hletter, fun mode => ?_⟩
      rw [modeAfter, htaken]
      rcases hletter with rfl | rfl <;> rfl
    · rw [List.takeWhile_cons_of_neg hc] at htaken
      refine .inr ⟨fun hhead => hc ?_, fun mode => by rw [modeAfter, htaken]; rfl⟩
      exact cls_modePattern.mpr (by simpa using hhead)

/-- The mode is the whole word exactly when the word is one letter, or does not start with a mode. -/
theorem modeAfter_whole_iff (line : CStr) :
    (∀ mode, modeAfter line mode ≠ mode → valueOf modePattern line = [modeAfter line mode]) ↔
      (modePattern.Names line.chars → (valueOf modePattern line).head? = some 116 ∨
        (valueOf modePattern line).head? = some 112 → (valueOf modePattern line).length = 1) := by
  by_cases h : modePattern.Names line.chars
  · rcases modeAfter_of_names h with ⟨c, rest, hvalue, hletter, hafter⟩ | ⟨hhead, hafter⟩
    · simp only [hafter, hvalue, h, true_implies]
      constructor
      · intro hwhole _
        have hne : ∃ mode, c ≠ mode := by
          rcases hletter with rfl | rfl
          · exact ⟨0, by decide⟩
          · exact ⟨0, by decide⟩
        obtain ⟨mode, hmode⟩ := hne
        rw [hwhole mode hmode]
        rfl
      · intro hlength mode _
        have hone := hlength (by simpa using hletter)
        rw [List.length_cons, Nat.add_eq_right, List.length_eq_zero_iff] at hone
        rw [hone]
    · exact iff_of_true (fun mode hne => absurd (hafter mode) hne) fun _ h => absurd h hhead
  · exact iff_of_true (fun mode hne => absurd (modeAfter_of_not_names h mode) hne) fun hno => absurd hno h

/-! ### The port -/

theorem numeral_append (front back : List Byte) :
    numeral (front ++ back) = back.foldl (fun val c => 10 * val + (c.toNat - 48)) (numeral front) :=
  List.foldl_append

theorem le_foldl_numeral (val : Nat) (digits : List Byte) :
    val ≤ digits.foldl (fun val c => 10 * val + (c.toNat - 48)) val := by
  induction digits generalizing val with
  | nil => exact le_rfl
  | cons c digits ih =>
    rw [List.foldl_cons]
    have hstep := ih (10 * val + (c.toNat - 48))
    omega

/-- A number that is cut off is another one. -/
theorem numeral_take_lt {digits : List Byte} {n : Nat} (hcut : digits.take n ≠ digits)
    (hpos : numeral (digits.take n) ≠ 0) : numeral (digits.take n) < numeral digits := by
  have hsplit : numeral digits = numeral (digits.take n ++ digits.drop n) := by
    rw [List.take_append_drop]
  rw [hsplit, numeral_append]
  cases hdrop : digits.drop n with
  | nil =>
    have hall : digits.take n = digits := List.take_of_length_le (List.drop_eq_nil_iff.mp hdrop)
    exact absurd hall hcut
  | cons c rest =>
    rw [List.foldl_cons]
    have hstep := le_foldl_numeral (10 * numeral (digits.take n) + (c.toNat - 48)) rest
    omega

theorem namedPort_of_not_names {line : CStr} (h : ¬ portPattern.Names line.chars) :
    namedPort line = none := by
  have hnone : (doRegex portPattern line).strlen = 0 := by
    rw [CStr.strlen, doRegex_of_not_names h]
    rfl
  rw [namedPort]
  exact if_pos hnone

theorem namedPort_of_names {line : CStr} (h : portPattern.Names line.chars) :
    namedPort line =
      if ((valueOf portPattern line).takeWhile isDigit).take 5 = [] then none
      else some (numeral (((valueOf portPattern line).takeWhile isDigit).take 5)) := by
  have hdisjoint : ∀ c, isSpace c = true → isDigit c = false := by
    intro c hspace
    by_contra hc
    simp only [isSpace, isDigit, Bool.not_eq_false, Bool.and_eq_true, Bool.or_eq_true,
      decide_eq_true_eq] at hspace hc
    rcases hspace with rfl | ⟨-, hle⟩
    · exact absurd hc.1 (by decide)
    · exact absurd (UInt8.le_trans hc.1 hle) (by decide)
  have hline : ∀ c, isDigit c = true → inLine c = true := by
    intro c hc
    by_contra hno
    rw [hdisjoint c (isSpace_of_not_inLine (Bool.eq_false_iff.mpr hno))] at hc
    cases hc
  have htaken := @doRegex_of_class portPattern line hdisjoint hline h
  change _ = ((valueOf portPattern line).takeWhile isDigit).take 5 at htaken
  have hall : ∀ c ∈ (doRegex portPattern line).chars, isDigit c = true := by
    rw [htaken]
    exact fun c hc => List.mem_takeWhile_imp (List.mem_of_mem_take hc)
  rw [namedPort, ← htaken]
  simp only [CStr.strlen, List.length_eq_zero_iff, strtol, List.takeWhile_eq_self_iff.mpr hall, numeral]

/-- The port is the whole number that is written exactly when the expression takes all of it, or what
it takes is no port. -/
theorem checkIfPortChange_whole_iff (line : CStr) :
    (∀ settings settings' change, checkIfPortChange line settings = .ok (settings', change) →
        settings'.port ≠ settings.port →
          (∀ c ∈ valueOf portPattern line, isDigit c = true) ∧
            settings'.port = numeral (valueOf portPattern line)) ↔
      (portPattern.Names line.chars →
        ((valueOf portPattern line).takeWhile isDigit).take 5 = valueOf portPattern line ∨
          numeral (((valueOf portPattern line).takeWhile isDigit).take 5) = 0 ∨
          65536 ≤ numeral (((valueOf portPattern line).takeWhile isDigit).take 5)) := by
  by_cases h : portPattern.Names line.chars
  · rw [imp_iff_right h]
    have hport := namedPort_of_names h
    set digits := ((valueOf portPattern line).takeWhile isDigit).take 5 with hdigits
    constructor
    · intro hwhole
      by_contra hno
      rw [not_or, not_or, not_le] at hno
      obtain ⟨hcut, hzero, hlt⟩ := hno
      have hne : digits ≠ [] := fun hnil => hzero (by rw [hnil]; rfl)
      rw [if_neg hne] at hport
      have hcheck : checkIfPortChange line ⟨-1, 0, 116, .zero _, .zero _⟩ =
          .ok (⟨numeral digits, 0, 116, .zero _, .zero _⟩, true) := by
        rw [checkIfPortChange_eq, hport]
        simp only
        rw [if_neg hzero, if_pos ⟨by omega, hlt⟩]
      obtain ⟨hall, hnumber⟩ := hwhole _ _ _ hcheck (by simp only; omega)
      rw [List.takeWhile_eq_self_iff.mpr hall] at hdigits
      rw [hdigits] at hcut hzero
      have hless := numeral_take_lt hcut hzero
      rw [← hdigits] at hless
      simp only at hnumber
      omega
    · intro hfits settings settings' change hcheck hchange
      rw [checkIfPortChange_eq, hport] at hcheck
      by_cases hne : digits = []
      · rw [if_pos hne] at hcheck
        cases hcheck
        exact absurd rfl hchange
      · rw [if_neg hne] at hcheck
        simp only at hcheck
        split_ifs at hcheck with hzero hmoves
        · cases hcheck
          have hwhole : digits = valueOf portPattern line :=
            hfits.resolve_right fun hno => hno.elim hzero fun hbig => absurd hmoves.2 (by omega)
          rw [← hwhole]
          exact ⟨fun c hc => List.mem_takeWhile_imp (List.mem_of_mem_take hc), rfl⟩
        · cases hcheck
          exact absurd rfl hchange
  · refine iff_of_true ?_ fun hno => absurd hno h
    intro settings settings' change hcheck hne
    rw [checkIfPortChange_eq, namedPort_of_not_names h] at hcheck
    cases hcheck
    exact absurd rfl hne

/-! ### The host name -/

theorem hostnameAfter_of_nil {line : CStr} (h : (doRegex hostnamePattern line).chars = [])
    (hostname : CharArray 256) : hostnameAfter line hostname = .ok hostname :=
  if_pos (List.length_eq_zero_iff.mpr h)

theorem hostnameAfter_str {line : CStr} (h : (doRegex hostnamePattern line).chars ≠ [])
    {hostname : CharArray 256} (hterminated : (hostname.cells)[255]? = some NUL) :
    ∃ hostname', hostnameAfter line hostname = .ok hostname' ∧
      hostname'.str.chars = (doRegex hostnamePattern line).chars := by
  have hlength : (doRegex hostnamePattern line).strlen ≤ 255 := strlen_doRegex_le hostnamePattern line
  have hlen : (doRegex hostnamePattern line).strlen ≠ 0 := CStr.strlen_ne_zero h
  have hlast : hostname.cells.drop 255 = [NUL] := by
    have hend : hostname.cells.drop 256 = [] := List.drop_eq_nil_iff.mpr hostname.size.le
    rw [List.drop_eq_getElem?_toList_append, hterminated, hend]
    rfl
  obtain ⟨hostname', hok, hcells⟩ := strncpy_cells hostname (by decide) hlength
  rw [hlast, ← List.replicate_succ', List.replicate_succ] at hcells
  exact ⟨hostname', by rw [hostnameAfter, if_neg hlen, hok], str_of_cells hcells (CStr.noNul _)⟩

/-- The host name is all that is written exactly when it fits, and no space is taken for one. -/
theorem hostnameAfter_whole_iff (line : CStr) :
    (∀ hostname hostname', (hostname.cells)[255]? = some NUL →
        hostnameAfter line hostname = .ok hostname' → hostname' ≠ hostname →
          hostname'.str.chars = valueOf hostnamePattern line) ↔
      (hostnamePattern.Names line.chars →
        if valueOf hostnamePattern line = [] then NoBlankValue hostnamePattern line
        else (valueOf hostnamePattern line).length ≤ 255) := by
  constructor
  · intro hwhole h
    have htaken : (doRegex hostnamePattern line).chars ≠ [] →
        (doRegex hostnamePattern line).chars = valueOf hostnamePattern line := by
      intro hne
      obtain ⟨hostname', hok, hstr⟩ := hostnameAfter_str hne (by decide : (CharArray.zero 256).cells[255]? = _)
      rw [← hstr]
      refine hwhole _ _ (by decide) hok ?_
      rintro rfl
      exact hne hstr.symm
    split_ifs with hvalue
    · rcases doRegex_of_no_value rfl rfl h hvalue with ⟨hblank, -⟩ | ⟨-, c, -, hc⟩
      · exact hblank
      · have hnil := htaken (by rw [hc]; exact List.cons_ne_nil _ _)
        rw [hc, hvalue] at hnil
        cases hnil
    · have hcut := doRegex_of_value rfl rfl h hvalue
      have hall := htaken fun hnil => by
        rw [hcut, List.take_eq_nil_iff] at hnil
        exact hnil.elim (by decide) hvalue
      rw [hcut] at hall
      exact (List.take_eq_self_iff _).mp hall
  · intro hfits hostname hostname' hterminated hok hchange
    have hne : (doRegex hostnamePattern line).chars ≠ [] := by
      intro hnil
      rw [hostnameAfter_of_nil hnil] at hok
      exact hchange (Except.ok.inj hok).symm
    obtain ⟨htaken, hfits⟩ := value_of_taken rfl rfl hne hfits
    obtain ⟨last, hlast, hstr⟩ := hostnameAfter_str hne hterminated
    obtain rfl := Except.ok.inj (hlast.symm.trans hok)
    rw [hstr, htaken]
    exact List.take_of_length_le hfits

/-! ### The home directory -/

/-- The settings of a server started in a long directory: not clear behind the bound of `strncpy`. -/
def dirtyHomedir : CharArray pathMax :=
  ⟨List.replicate 259 NUL ++ 97 :: 97 :: List.replicate 3835 NUL, by
    rw [List.length_append, List.length_cons, List.length_cons, List.length_replicate,
      List.length_replicate]
    rfl⟩

theorem homedirAfter_of_nil {line : CStr} (h : (doRegex homedirPattern line).chars = [])
    (opendir : CStr → Bool) (homedir : CharArray pathMax) :
    homedirAfter opendir line homedir = .ok homedir :=
  if_pos (List.length_eq_zero_iff.mpr h)

theorem homedirAfter_zero {line : CStr} (h : (doRegex homedirPattern line).chars ≠ []) :
    ∃ b, homedirAfter (fun _ => true) line (.zero pathMax) = .ok b ∧
      b.str.chars = withSlash (doRegex homedirPattern line).chars := by
  have hlength : (doRegex homedirPattern line).strlen ≤ 259 := strlen_doRegex_le homedirPattern line
  have hclear : ∀ i < pathMax, behind (.zero pathMax) i = some NUL := by
    intro i hi
    rw [behind]
    split_ifs
    · rfl
    · exact (List.getElem?_replicate ..).trans (if_pos hi)
  apply (homedirAfter_iff _ h rfl).mpr
  have hsecond := hclear ((doRegex homedirPattern line).strlen + 1) (by rw [pathMax]; omega)
  rw [hclear (doRegex homedirPattern line).strlen (by rw [pathMax]; omega), hsecond]
  split_ifs
  · rfl
  · exact ⟨.inl rfl, rfl⟩

/-- Behind a directory that reaches the bound, what is there is served with it. -/
theorem homedirAfter_dirty {line : CStr} (hlong : (doRegex homedirPattern line).strlen = 259 ∨
      (doRegex homedirPattern line).strlen = 258 ∧
        (doRegex homedirPattern line).chars.getLast? ≠ some slash) :
    ∃ b, homedirAfter (fun _ => true) line dirtyHomedir = .ok b ∧
      (doRegex homedirPattern line).strlen + 1 < b.str.strlen := by
  have hlength : (doRegex homedirPattern line).strlen ≤ 259 := strlen_doRegex_le homedirPattern line
  have hlen : (doRegex homedirPattern line).strlen ≠ 0 := by omega
  have hnul := (doRegex homedirPattern line).noNul
  have hdrop : dirtyHomedir.cells.drop 259 = 97 :: 97 :: NUL :: NUL :: NUL :: List.replicate 3832 NUL :=
    List.drop_left' List.length_replicate
  obtain ⟨a, ha, hcells⟩ := strncpy_cells dirtyHomedir (by decide) hlength
  rw [hdrop] at hcells
  have hafter : homedirAfter (fun _ => true) line dirtyHomedir = closeHomedir a := by
    rw [homedirAfter, if_neg hlen, if_neg (by decide), ha, ok_bind]
  rw [hafter]
  rcases hlong with hlong | ⟨hlong, hslash⟩
  · rw [hlong] at hcells ⊢
    have hsplit : a.cells = (doRegex homedirPattern line).chars ++ [97, 97] ++
        NUL :: NUL :: NUL :: List.replicate 3832 NUL := by
      rw [hcells, List.append_assoc]
      rfl
    obtain ⟨hstr, hok⟩ := closeHomedir_append hsplit (List.not_mem_append hnul (by decide))
      (List.append_ne_nil_of_right_ne_nil _ (List.cons_ne_nil _ _))
      (by rw [List.getLast?_append_of_ne_nil _ (List.cons_ne_nil _ _)]; decide)
    obtain ⟨b, hb⟩ := hok [] _ rfl List.not_mem_nil (List.cons_ne_nil _ _)
    refine ⟨b, hb, ?_⟩
    rw [CStr.strlen] at hlong
    rw [CStr.strlen, hstr b hb, List.length_append, List.length_append, hlong, List.length_cons]
    exact Nat.lt_add_right _ (by decide)
  · rw [hlong] at hcells ⊢
    have hne : (doRegex homedirPattern line).chars ≠ [] := fun hnil => hlen (List.length_eq_zero_iff.mpr hnil)
    obtain ⟨hstr, hok⟩ := closeHomedir_append hcells hnul hne hslash
    obtain ⟨b, hb⟩ := hok [97, 97] _ rfl (by decide) (List.cons_ne_nil _ _)
    refine ⟨b, hb, ?_⟩
    rw [CStr.strlen] at hlong
    rw [CStr.strlen, hstr b hb, List.length_append, hlong]
    decide

theorem str_zero : (CharArray.zero pathMax).str.strlen = 0 := by
  rfl

theorem str_dirtyHomedir : dirtyHomedir.str.strlen = 0 := by
  rfl

/-- A directory that is all that is written, whatever was there before, leaves room for the slash. -/
theorem homedir_fits_of_whole {line : CStr} (hwhole : ∀ opendir homedir homedir',
      homedirAfter opendir line homedir = .ok homedir' → homedir' ≠ homedir →
        homedir'.str.chars = withSlash (valueOf homedirPattern line))
    (h : homedirPattern.Names line.chars) :
    if valueOf homedirPattern line = [] then NoBlankValue homedirPattern line
    else (valueOf homedirPattern line).length < 258 ∨
      (valueOf homedirPattern line).length = 258 ∧
        (valueOf homedirPattern line).getLast? = some slash := by
  have htaken : (doRegex homedirPattern line).chars ≠ [] →
      withSlash (doRegex homedirPattern line).chars = withSlash (valueOf homedirPattern line) := by
    intro hne
    obtain ⟨b, hok, hstr⟩ := homedirAfter_zero hne
    rw [← hstr]
    refine hwhole _ _ _ hok ?_
    rintro rfl
    have hlength := (withSlash_length (doRegex homedirPattern line).chars).1
    rw [← hstr, ← CStr.strlen, str_zero] at hlength
    exact Nat.lt_irrefl 0 hlength
  split_ifs with hvalue
  · rcases doRegex_of_no_value rfl rfl h hvalue with ⟨hblank, -⟩ | ⟨-, c, hspace, hc⟩
    · exact hblank
    · have hnil := htaken (by rw [hc]; exact List.cons_ne_nil _ _)
      have hslash : c ≠ slash := by
        rintro rfl
        cases hspace
      rw [hc, hvalue, withSlash, if_neg (by simpa using hslash)] at hnil
      cases hnil
  · have hcut : (doRegex homedirPattern line).chars = (valueOf homedirPattern line).take 259 :=
      doRegex_of_value rfl rfl h hvalue
    by_contra hno
    rw [not_or, not_and] at hno
    have hlong : (doRegex homedirPattern line).strlen = 259 ∨
        (doRegex homedirPattern line).strlen = 258 ∧
          (doRegex homedirPattern line).chars.getLast? ≠ some slash := by
      rw [CStr.strlen, hcut]
      by_cases hlength : (valueOf homedirPattern line).length = 258
      · rw [List.take_of_length_le (by omega)]
        exact .inr ⟨hlength, hno.2 hlength⟩
      · rw [List.length_take]
        omega
    obtain ⟨b, hok, hlonger⟩ := homedirAfter_dirty hlong
    have hne : (doRegex homedirPattern line).chars ≠ [] := by
      intro hnil
      rw [CStr.strlen, hnil] at hlong
      simp at hlong
    have hstr := hwhole _ _ _ hok fun hsame => by
      rw [hsame, str_dirtyHomedir] at hlonger
      exact Nat.not_lt_zero _ hlonger
    have hle := (withSlash_length (doRegex homedirPattern line).chars).2
    rw [htaken hne, ← hstr, ← CStr.strlen, ← CStr.strlen] at hle
    omega

/-- The home directory is all that is written exactly when it leaves room for the slash in front of
the bound, or ends in one there, and no space is taken for one. -/
theorem homedirAfter_whole_iff (line : CStr) :
    (∀ opendir homedir homedir', homedirAfter opendir line homedir = .ok homedir' → homedir' ≠ homedir →
        homedir'.str.chars = withSlash (valueOf homedirPattern line)) ↔
      (homedirPattern.Names line.chars →
        if valueOf homedirPattern line = [] then NoBlankValue homedirPattern line
        else (valueOf homedirPattern line).length < 258 ∨
          (valueOf homedirPattern line).length = 258 ∧
            (valueOf homedirPattern line).getLast? = some slash) := by
  constructor
  · exact homedir_fits_of_whole
  · intro hfits opendir homedir homedir' hok hchange
    have hne : (doRegex homedirPattern line).chars ≠ [] := by
      intro hnil
      rw [homedirAfter_of_nil hnil] at hok
      exact hchange (Except.ok.inj hok).symm
    obtain ⟨hcut, hfits⟩ := value_of_taken rfl rfl hne hfits
    have htaken : (doRegex homedirPattern line).chars = valueOf homedirPattern line := by
      rw [hcut]
      apply List.take_of_length_le
      change _ ≤ 259
      omega
    have hopen : opendir (doRegex homedirPattern line) = true := by
      by_contra hclosed
      have hlen : (doRegex homedirPattern line).strlen ≠ 0 := CStr.strlen_ne_zero hne
      rw [homedirAfter, if_neg hlen, if_pos (Bool.eq_false_iff.mpr hclosed)] at hok
      cases hok
    obtain ⟨b, hb, hstr⟩ := (homedirAfter_iff homedir hne hopen).mpr (by
      rw [CStr.strlen, htaken]
      split_ifs with hslash
      · exact if_pos (by omega)
      · have hshort := hfits.resolve_right fun hend => hslash hend.2
        exact ⟨.inl (if_pos (by omega)), if_pos (by omega)⟩)
    obtain rfl := Except.ok.inj (hb.symm.trans hok)
    rw [hstr, htaken]

/-! ### The line -/

theorem readConfLine_fields {opendir : CStr → Bool} {line : CStr} {settings settings' : Settings}
    (h : readConfLine opendir line settings = .ok settings') :
    homedirAfter opendir line settings.homedir = .ok settings'.homedir ∧
      hostnameAfter line settings.hostname = .ok settings'.hostname ∧
      settings'.mode = modeAfter line settings.mode := by
  rw [readConfLine_eq] at h
  obtain ⟨homedir, hhome, h⟩ := bind_eq_ok_iff.mp h
  obtain ⟨hostname, hhost, h⟩ := bind_eq_ok_iff.mp h
  cases h
  exact ⟨hhome, hhost, rfl⟩

/-- A line is read when the part for the home directory returns. -/
theorem readConfLine_of_homedir {opendir : CStr → Bool} {line : CStr} {settings : Settings}
    {homedir : CharArray pathMax} (hhome : homedirAfter opendir line settings.homedir = .ok homedir) :
    ∃ settings', readConfLine opendir line settings = .ok settings' ∧ settings'.homedir = homedir := by
  obtain ⟨hostname, hhost⟩ := hostnameAfter_ok line settings.hostname
  exact ⟨_, by rw [readConfLine_eq, hhome, ok_bind, hhost, ok_bind], rfl⟩

theorem exists_homedirAfter_zero (line : CStr) :
    ∃ b, homedirAfter (fun _ => true) line (.zero pathMax) = .ok b := by
  by_cases hnil : (doRegex homedirPattern line).chars = []
  · exact ⟨_, homedirAfter_of_nil hnil _ _⟩
  · obtain ⟨b, hb, -⟩ := homedirAfter_zero hnil
    exact ⟨b, hb⟩

/-- Each setting that a line changes gets the whole value written there, exactly when what is written
is what the expressions take. -/
theorem storesWhole_iff (line : CStr) : StoresWhole line ↔ Storable line := by
  obtain ⟨home, hhome⟩ := exists_homedirAfter_zero line
  have hzero : (CharArray.zero 256).cells[255]? = some NUL := by decide
  constructor
  · intro h
    refine ⟨(modeAfter_whole_iff line).mp ?_, (homedirAfter_whole_iff line).mp ?_,
      (hostnameAfter_whole_iff line).mp ?_, (checkIfPortChange_whole_iff line).mp h.port⟩
    · intro mode hchange
      obtain ⟨settings', hread, -⟩ := @readConfLine_of_homedir _ _ ⟨0, 0, mode, .zero _, .zero _⟩ _ hhome
      have hmode := (readConfLine_fields hread).2.2
      rw [← hmode] at hchange ⊢
      exact h.mode _ ⟨0, 0, mode, .zero _, .zero _⟩ _ hzero hread hchange
    · intro opendir homedir homedir' hafter hchange
      obtain ⟨settings', hread, hsame⟩ := @readConfLine_of_homedir _ _ ⟨0, 0, 0, homedir, .zero _⟩ _ hafter
      rw [← hsame] at hchange ⊢
      exact h.homedir _ ⟨0, 0, 0, homedir, .zero _⟩ _ hzero hread hchange
    · intro hostname hostname' hterminated hafter hchange
      obtain ⟨settings', hread, -⟩ := @readConfLine_of_homedir _ _ ⟨0, 0, 0, .zero _, hostname⟩ _ hhome
      obtain rfl := Except.ok.inj ((readConfLine_fields hread).2.1.symm.trans hafter)
      exact h.hostname _ ⟨0, 0, 0, .zero _, hostname⟩ _ hterminated hread hchange
  · intro h
    refine ⟨?_, ?_, ?_, (checkIfPortChange_whole_iff line).mpr h.port⟩
    · intro opendir settings settings' _ hread hchange
      rw [(readConfLine_fields hread).2.2] at hchange ⊢
      exact (modeAfter_whole_iff line).mpr h.mode _ hchange
    · intro opendir settings settings' _ hread
      exact (homedirAfter_whole_iff line).mpr h.homedir _ _ _ (readConfLine_fields hread).1
    · intro opendir settings settings' hterminated hread
      exact (hostnameAfter_whole_iff line).mpr h.hostname _ _ hterminated (readConfLine_fields hread).2.1

/-! ### The host name of the server -/

theorem hostnameAfter_terminated {line : CStr} {hostname hostname' : CharArray 256}
    (hterminated : (hostname.cells)[255]? = some NUL) (h : hostnameAfter line hostname = .ok hostname') :
    (hostname'.cells)[255]? = some NUL := by
  by_cases hnil : (doRegex hostnamePattern line).chars = []
  · rw [hostnameAfter_of_nil hnil] at h
    rwa [← Except.ok.inj h]
  · have hlen : (doRegex hostnamePattern line).strlen ≠ 0 := CStr.strlen_ne_zero hnil
    have hlength : (doRegex hostnamePattern line).strlen ≤ 255 := strlen_doRegex_le hostnamePattern line
    obtain ⟨copied, hok, hcells⟩ := strncpy_cells hostname (by decide) hlength
    rw [hostnameAfter, if_neg hlen] at h
    obtain rfl := Except.ok.inj (hok.symm.trans h)
    have hfront : ((doRegex hostnamePattern line).chars ++
        List.replicate (255 - (doRegex hostnamePattern line).strlen) NUL).length = 255 := by
      rw [List.length_append, List.length_replicate, ← CStr.strlen]
      omega
    rw [hcells, ← List.append_assoc, List.getElem?_append_right hfront.le, hfront, List.getElem?_drop]
    exact hterminated

theorem confStep_terminated {opendir : CStr → Bool} {calledFromHandler : Bool} {str : CStr}
    {result result' : Settings × Bool} (hterminated : result.1.HostTerminated)
    (h : confStep opendir calledFromHandler result str = .ok result') : result'.1.HostTerminated := by
  rw [confStep] at h
  split_ifs at h
  obtain ⟨settings, change, hread, hcheck, -⟩ := readLine_cases h
  rw [(checkIfPortChange_cases hcheck).1]
  rcases hread with ⟨-, rfl⟩ | ⟨-, hread⟩
  · exact hterminated
  · exact hostnameAfter_terminated hterminated (readConfLine_fields hread).2.1

theorem parseOpts_hostname {opts : List Opt} {settings settings' : Settings} {debugMode debugMode' : Bool}
    (h : parseOpts opts settings debugMode = .ok (settings', debugMode')) :
    settings'.hostname = settings.hostname := by
  induction opts generalizing settings debugMode with
  | nil =>
    cases h
    rfl
  | cons opt opts ih =>
    cases opt with
    | unknown => cases h
    | _ =>
      rw [parseOpts] at h
      rw [ih h]

theorem strcpy_terminated {s : CStr} {hostname : CharArray 256}
    (h : (CharArray.zero 256).strcpy s = .ok hostname) : (hostname.cells)[255]? = some NUL := by
  rw [CharArray.strcpy] at h
  split_ifs at h with hroom
  rw [← Except.ok.inj h]
  change (s.chars ++ NUL :: (List.replicate 256 NUL).drop (s.strlen + 1))[255]? = _
  rw [List.drop_replicate, ← List.replicate_succ,
    List.getElem?_append_right (Nat.le_of_succ_le_succ hroom), List.getElem?_replicate]
  apply if_pos
  rw [CStr.strlen] at hroom ⊢
  omega

/-- The settings `main` starts the server with have their host name ended by the last byte. -/
theorem mainSettings_terminated {calls : MainCalls} {settings : Settings}
    (h : mainSettings calls = .ok settings) : settings.HostTerminated := by
  rw [mainSettings] at h
  split_ifs at h
  obtain ⟨homedir, -, h⟩ := bind_eq_ok_iff.mp h
  obtain ⟨hostname, hhost, h⟩ := bind_eq_ok_iff.mp h
  obtain ⟨⟨configured, change⟩, hconf, h⟩ := bind_eq_ok_iff.mp h
  obtain ⟨⟨parsed, debugMode⟩, hopts, h⟩ := bind_eq_ok_iff.mp h
  obtain ⟨_, -, h⟩ := bind_eq_ok_iff.mp h
  obtain ⟨_, -, h⟩ := bind_eq_ok_iff.mp h
  cases h
  have hstart : Settings.HostTerminated ⟨defaultServerPort, 0, 116, homedir, hostname⟩ :=
    strcpy_terminated hhost
  have hconfigured : configured.HostTerminated :=
    readAndCheckConf_preserves (fun _ _ _ => confStep_terminated) hstart hconf
  rw [Settings.HostTerminated, parseOpts_hostname hopts]
  exact hconfigured

/-- A port of six digits is cut off after five, and a mode after its first letter. -/
theorem value_cut :
    checkIfPortChange (CStr.lit "port 123456") ⟨7070, 3, 116, .zero _, .zero _⟩ =
        .ok (⟨12345, 3, 116, .zero _, .zero _⟩, true) ∧
      valueOf portPattern (CStr.lit "port 123456") = bytes "123456" ∧
      modeAfter (CStr.lit "mode private") 116 = 112 ∧
      ¬ StoresWhole (CStr.lit "port 123456") := by
  have hcheck : checkIfPortChange (CStr.lit "port 123456") ⟨7070, 3, 116, .zero _, .zero _⟩ =
      .ok (⟨12345, 3, 116, .zero _, .zero _⟩, true) := rfl
  have hvalue : valueOf portPattern (CStr.lit "port 123456") = bytes "123456" := by decide +kernel
  refine ⟨hcheck, hvalue, by decide +kernel, fun h => ?_⟩
  have hport := (h.port _ _ _ hcheck (by decide)).2
  rw [hvalue] at hport
  exact absurd hport (by decide +kernel)

end Sacagawea
