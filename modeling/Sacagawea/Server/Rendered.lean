import Sacagawea.Config.Lines
import Sacagawea.Server.Written

/-!
# A configuration that is written

What a configuration stands for is a list of settings: each line gives one of them a value, and the
last line that names a setting decides. A file that is written that way, with values the expressions
take whole, is read as just that, whatever the settings were before. So the settings of a server can
be written to a file, and a server that reads the file has them.
-/

namespace Sacagawea

/-! ### The lines -/

/-- The settings, by the keyword of their line. -/
inductive ConfKey where
  | mode
  | homedir
  | hostname
  | port
  deriving DecidableEq, Repr

def ConfKey.pattern : ConfKey → KeywordPattern Byte
  | .mode => modePattern
  | .homedir => homedirPattern
  | .hostname => hostnamePattern
  | .port => portPattern

/-- What else the code asks of a value: a directory has its slash and NUL within the bound of
`strncpy`, and a port is one. -/
def ConfKey.Fits : ConfKey → List Byte → Prop
  | .homedir, value => (withSlash value).length ≤ 258
  | .port, value => 0 < numeral value ∧ numeral value < 65536
  | .mode, _ | .hostname, _ => True

/-- A setting with a value that its expression takes whole. -/
structure ConfItem where
  key : ConfKey
  value : List Byte
  nonempty : value ≠ []
  whole : ∀ c ∈ value, key.pattern.cls c = true
  starts : ∀ c ∈ value.head?, isSpace c = false
  short : value.length ≤ key.pattern.max
  noNul : NUL ∉ value
  fits : key.Fits value

/-- The keyword, a space and the value. -/
def ConfItem.line (item : ConfItem) : List Byte := item.key.pattern.keyword ++ 32 :: item.value

def renderConf (items : List ConfItem) : List Byte := items.flatMap fun item => item.line ++ [LF]

/-! ### What they stand for -/

/-- The settings as they are used. -/
structure ConfView where
  mode : Byte
  homedir : List Byte
  hostname : List Byte
  port : Int
  deriving DecidableEq

def Settings.view (settings : Settings) : ConfView where
  mode := settings.mode
  homedir := settings.homedir.str.chars
  hostname := settings.hostname.str.chars
  port := settings.port

/-- The value of the item, when it is for this setting. -/
def ConfItem.valueOf? (key : ConfKey) (item : ConfItem) : Option (List Byte) :=
  if item.key = key then some item.value else none

/-- The value that the last item for the setting gives. -/
def lastValue (key : ConfKey) (items : List ConfItem) : Option (List Byte) :=
  (items.filterMap (ConfItem.valueOf? key)).getLast?

/-- The settings behind a configuration. -/
def ConfView.behind (view : ConfView) (items : List ConfItem) : ConfView where
  mode := (lastValue .mode items).elim view.mode fun value => value.headD NUL
  homedir := (lastValue .homedir items).elim view.homedir withSlash
  hostname := (lastValue .hostname items).elim view.hostname id
  port := (lastValue .port items).elim view.port fun value => numeral value

theorem lastValue_cons (key : ConfKey) (item : ConfItem) (items : List ConfItem) :
    lastValue key (item :: items) = (lastValue key items).or (item.valueOf? key) := by
  rw [lastValue, lastValue, List.filterMap_cons]
  cases item.valueOf? key with
  | none => exact (Option.or_none).symm
  | some value =>
    rw [List.getLast?_cons, Option.or_some]

theorem lastValue_singleton (key : ConfKey) (item : ConfItem) :
    lastValue key [item] = item.valueOf? key := by
  rw [lastValue_cons]
  exact Option.none_or

/-- An item first, and then the others. -/
theorem behind_cons (view : ConfView) (item : ConfItem) (items : List ConfItem) :
    view.behind (item :: items) = (view.behind [item]).behind items := by
  have helim : ∀ {α β : Type} (last first : Option α) (d : β) (f : α → β),
      (last.or first).elim d f = last.elim (first.elim d f) f := by
    intro α β last first d f
    cases last <;> rfl
  simp only [ConfView.behind, lastValue_singleton, lastValue_cons _ item items, helim]

/-! ### What the expressions take of a line -/

theorem keyword_prefix_iff (key key' : ConfKey) (rest : List Byte) :
    key.pattern.keyword <+: key'.pattern.keyword ++ rest ↔ key = key' := by
  constructor
  · intro h
    rcases List.prefix_or_prefix_of_prefix h (List.prefix_append _ rest) with h | h
    all_goals
      cases key <;> cases key' <;> first | rfl | exact absurd h (by decide)
  · rintro rfl
    exact List.prefix_append _ _

namespace ConfItem

variable (item : ConfItem)

theorem drop_line : item.line.drop item.key.pattern.keyword.length = 32 :: item.value := by
  rw [line, List.drop_left]

theorem sep_pattern (key : ConfKey) : key.pattern.sep = isSpace := by
  cases key <;> rfl

theorem written_line : item.key.pattern.written item.line = item.value := by
  have hspace : isSpace 32 = true := by decide
  rw [KeywordPattern.written, drop_line, sep_pattern, List.dropWhile_cons_of_pos hspace]
  have hstarts := item.starts
  cases hvalue : item.value with
  | nil => rfl
  | cons c rest =>
    rw [hvalue] at hstarts
    exact List.dropWhile_cons_of_neg (by simp [hstarts c rfl])

theorem names_line : item.key.pattern.Names item.line := by
  have hspace : isSpace 32 = true := by decide
  refine ⟨List.prefix_append _ _, ?_⟩
  rw [KeywordPattern.separators, drop_line, sep_pattern, List.takeWhile_cons_of_pos hspace]
  exact List.cons_ne_nil _ _

theorem nul_not_mem_line : NUL ∉ item.line := by
  have hkeyword : ∀ key : ConfKey, NUL ∉ key.pattern.keyword := by
    intro key
    cases key <;> decide
  simp only [line, List.mem_append, List.mem_cons, not_or]
  exact ⟨hkeyword item.key, by decide, item.noNul⟩

theorem lf_not_mem_line : LF ∉ item.line := by
  have hkeyword : ∀ key : ConfKey, LF ∉ key.pattern.keyword ∧ key.pattern.cls LF = false := by
    intro key
    cases key <;> decide
  obtain ⟨hline, hcls⟩ := hkeyword item.key
  simp only [line, List.mem_append, List.mem_cons, not_or]
  refine ⟨hline, by decide, fun hvalue => ?_⟩
  rw [item.whole LF hvalue] at hcls
  cases hcls

def str : CStr := ⟨item.line, item.nul_not_mem_line⟩

/-- The expression of the line's own keyword takes the value, and the others take nothing. -/
theorem chars_doRegex_line (key : ConfKey) :
    (doRegex key.pattern item.str).chars = (item.valueOf? key).getD [] := by
  rw [valueOf?]
  split_ifs with hkey
  · subst hkey
    obtain ⟨c, rest, hvalue⟩ := List.exists_cons_of_ne_nil item.nonempty
    have hc : item.key.pattern.cls c = true := item.whole c (hvalue ▸ List.mem_cons_self)
    have hwritten := item.written_line
    have hrun : item.key.pattern.run item.value = item.value := by
      rw [KeywordPattern.run, List.takeWhile_eq_self_iff.mpr item.whole]
      exact List.take_of_length_le item.short
    rw [hvalue] at hwritten
    change (item.key.pattern.capture item.line).getD [] = item.value
    rw [KeywordPattern.capture_eq_run item.names_line hwritten hc, hwritten, ← hvalue, hrun]
    rfl
  · apply doRegex_of_not_names
    rintro ⟨hkeyword, -⟩
    exact hkey ((keyword_prefix_iff key item.key _).mp hkeyword).symm

end ConfItem

/-! ### One line -/

variable {opendir : CStr → Bool} (item : ConfItem)

theorem modeAfter_line (mode : Byte) :
    modeAfter item.str mode = (item.valueOf? .mode).elim mode fun value => value.headD NUL := by
  have htaken : (doRegex modePattern item.str).chars = (item.valueOf? .mode).getD [] :=
    item.chars_doRegex_line .mode
  rw [modeAfter, htaken]
  by_cases hkey : item.key = .mode
  · obtain ⟨c, rest, hvalue⟩ := List.exists_cons_of_ne_nil item.nonempty
    have hc : item.key.pattern.cls c = true := item.whole c (hvalue ▸ List.mem_cons_self)
    rw [hkey] at hc
    simp only [ConfItem.valueOf?, hkey, if_true, hvalue, Option.getD_some, Option.elim_some, List.headD_cons]
    rcases cls_modePattern.mp hc with rfl | rfl <;> rfl
  · simp [ConfItem.valueOf?, hkey]

theorem hostnameAfter_line {hostname : CharArray 256} (hterminated : (hostname.cells)[255]? = some NUL) :
    ∃ hostname', hostnameAfter item.str hostname = .ok hostname' ∧
      hostname'.str.chars = (item.valueOf? .hostname).elim hostname.str.chars id := by
  have htaken : (doRegex hostnamePattern item.str).chars = (item.valueOf? .hostname).getD [] :=
    item.chars_doRegex_line .hostname
  by_cases hkey : item.key = .hostname
  · have hvalue : item.valueOf? .hostname = some item.value := if_pos hkey
    rw [hvalue] at htaken ⊢
    change _ = item.value at htaken
    obtain ⟨hostname', hok, hstr⟩ := hostnameAfter_str (htaken ▸ item.nonempty) hterminated
    exact ⟨hostname', hok, hstr.trans htaken⟩
  · have hvalue : item.valueOf? .hostname = none := if_neg hkey
    rw [hvalue] at htaken ⊢
    exact ⟨hostname, hostnameAfter_of_nil htaken hostname, rfl⟩

theorem homedirAfter_line (homedir : CharArray pathMax)
    (hopen : ∀ path : CStr, item.key = .homedir → path.chars = item.value → opendir path = true) :
    ∃ homedir', homedirAfter opendir item.str homedir = .ok homedir' ∧
      homedir'.str.chars = (item.valueOf? .homedir).elim homedir.str.chars withSlash := by
  have htaken : (doRegex homedirPattern item.str).chars = (item.valueOf? .homedir).getD [] :=
    item.chars_doRegex_line .homedir
  by_cases hkey : item.key = .homedir
  · have hvalue : item.valueOf? .homedir = some item.value := if_pos hkey
    rw [hvalue] at htaken ⊢
    change _ = item.value at htaken
    have hfits : item.key.Fits item.value := item.fits
    rw [hkey] at hfits
    have hlength : (withSlash item.value).length ≤ 258 := hfits
    rw [Option.elim_some, ← htaken]
    have hclear : ∀ i < 259, behind homedir i = some NUL := fun i hi => if_pos hi
    apply (homedirAfter_iff homedir (htaken ▸ item.nonempty) (hopen _ hkey htaken)).mpr
    rw [CStr.strlen, htaken]
    rw [withSlash] at hlength
    split_ifs at hlength ⊢
    · exact hclear _ (by omega)
    · rw [List.length_append, List.length_singleton] at hlength
      exact ⟨.inl (hclear _ (by omega)), hclear _ (by omega)⟩
  · have hvalue : item.valueOf? .homedir = none := if_neg hkey
    rw [hvalue] at htaken ⊢
    exact ⟨homedir, homedirAfter_of_nil htaken opendir homedir, rfl⟩

theorem namedPort_line : namedPort item.str = (item.valueOf? .port).map numeral := by
  have htaken : (doRegex portPattern item.str).chars = (item.valueOf? .port).getD [] :=
    item.chars_doRegex_line .port
  by_cases hkey : item.key = .port
  · have hvalue : item.valueOf? .port = some item.value := if_pos hkey
    rw [hvalue] at htaken ⊢
    change _ = item.value at htaken
    have hall : ∀ c ∈ item.value, isDigit c = true := by
      intro c hc
      have hcls := item.whole c hc
      rw [hkey] at hcls
      exact hcls
    have hlen : (doRegex portPattern item.str).strlen ≠ 0 := CStr.strlen_ne_zero (htaken ▸ item.nonempty)
    rw [namedPort]
    simp only [if_neg hlen, strtol, htaken, List.takeWhile_eq_self_iff.mpr hall]
    rfl
  · have hvalue : item.valueOf? .port = none := if_neg hkey
    rw [hvalue] at htaken ⊢
    exact if_pos (List.length_eq_zero_iff.mpr htaken)

/-- A line gives its setting the value and leaves the others. -/
theorem applyLine_item {settings : Settings} (hterminated : settings.HostTerminated)
    (hopen : ∀ path : CStr, item.key = .homedir → path.chars = item.value → opendir path = true) :
    ∃ settings', applyLine opendir settings item.str = .ok settings' ∧
      settings'.view = settings.view.behind [item] ∧ settings'.HostTerminated := by
  obtain ⟨homedir, hhome, hhomestr⟩ := homedirAfter_line item settings.homedir hopen
  obtain ⟨hostname, hhost, hhoststr⟩ := hostnameAfter_line item hterminated
  have hread : readConfLine opendir item.str settings = .ok { settings with
      mode := modeAfter item.str settings.mode, homedir := homedir, hostname := hostname } := by
    rw [readConfLine_eq, hhome, ok_bind, hhost, ok_bind]
  have hport : ∀ settings : Settings, ∃ change, checkIfPortChange item.str settings =
      .ok ({ settings with
        port := (item.valueOf? .port).elim settings.port fun value => numeral value }, change) := by
    intro settings
    rw [checkIfPortChange_eq, namedPort_line]
    by_cases hkey : item.key = .port
    · have hvalue : item.valueOf? .port = some item.value := if_pos hkey
      have hfits : item.key.Fits item.value := item.fits
      rw [hkey] at hfits
      obtain ⟨hpos, hlt⟩ : 0 < numeral item.value ∧ numeral item.value < 65536 := hfits
      simp only [hvalue, Option.map_some, Option.elim_some]
      rw [if_neg (Nat.pos_iff_ne_zero.mp hpos)]
      split_ifs with hmoves
      · exact ⟨true, rfl⟩
      · have hsame : (numeral item.value : Int) = settings.port := by
          by_contra hne
          exact hmoves ⟨hne, hlt⟩
        rw [hsame]
        exact ⟨false, rfl⟩
    · have hvalue : item.valueOf? .port = none := if_neg hkey
      simp only [hvalue, Option.map_none, Option.elim_none]
      exact ⟨false, rfl⟩
  obtain ⟨change, hcheck⟩ := hport { settings with
    mode := modeAfter item.str settings.mode, homedir := homedir, hostname := hostname }
  refine ⟨_, by rw [applyLine, hread, ok_bind, hcheck]; rfl, ?_, hostnameAfter_terminated hterminated hhost⟩
  simp only [Settings.view, ConfView.behind, lastValue_singleton, modeAfter_line, hhomestr, hhoststr]

/-! ### The file -/

theorem namedInFront_of_short {line : List Byte} (h : line.length ≤ 511) : NamedInFront line := by
  rw [NamedInFront, List.take_of_length_le h, List.drop_eq_nil_of_le h]
  exact ⟨fun _ _ => rfl, nofun⟩

theorem ConfItem.length_line : item.line.length ≤ 511 := by
  have hpattern : ∀ key : ConfKey, key.pattern.keyword.length ≤ 14 ∧ key.pattern.max ≤ 259 := by
    intro key
    cases key <;> decide
  obtain ⟨hkeyword, hmax⟩ := hpattern item.key
  have hshort := item.short
  rw [line, List.length_append, List.length_cons]
  omega

theorem renderConf_eq (items : List ConfItem) :
    renderConf items = [LF].intercalate (items.map ConfItem.line ++ [[]]) := by
  induction items with
  | nil => rfl
  | cons item items ih =>
    rw [List.map_cons, List.cons_append, List.intercalate_cons_of_ne_nil (by simp), ← ih]
    rfl

theorem nul_not_mem_renderConf (items : List ConfItem) : NUL ∉ renderConf items := by
  intro h
  obtain ⟨item, -, hline⟩ := List.mem_flatMap.mp h
  rcases List.mem_append.mp hline with hline | hline
  · exact item.nul_not_mem_line hline
  · exact absurd hline (by decide)

theorem foldlM_applyLine_items (items : List ConfItem) {settings : Settings}
    (hterminated : settings.HostTerminated) (hopen : ∀ item ∈ items, ∀ path : CStr,
      item.key = .homedir → path.chars = item.value → opendir path = true) :
    ∃ settings', (items.map ConfItem.line ++ [[]]).foldlM (fun settings line =>
        applyLine opendir settings (CStr.ofBuffer line)) settings = .ok settings' ∧
      settings'.view = settings.view.behind items := by
  induction items generalizing settings with
  | nil => exact ⟨settings, applyLine_silent opendir settings fun _ _ => rfl, rfl⟩
  | cons item items ih =>
    obtain ⟨hfirst, hrest⟩ := List.forall_mem_cons.mp hopen
    have hstr : CStr.ofBuffer item.line = item.str := CStr.ext (CStr.chars_ofBuffer_chars item.str)
    obtain ⟨middle, hmiddle, hview, hterminated⟩ := applyLine_item item hterminated hfirst
    obtain ⟨settings', hfold, hview'⟩ := ih hterminated hrest
    refine ⟨settings', ?_, ?_⟩
    · rw [List.map_cons, List.cons_append, List.foldlM_cons, hstr, hmiddle, ok_bind]
      exact hfold
    · rw [hview', hview, ← behind_cons]

/-- A configuration that is written is read as what it stands for: each setting has the value of the
last line for it, and is as before when there is none. -/
theorem rendered_conf_read (items : List ConfItem) {settings : Settings}
    (hterminated : settings.HostTerminated) (hopen : ∀ item ∈ items, ∀ path : CStr,
      item.key = .homedir → path.chars = item.value → opendir path = true) (line : CharArray 512) :
    ∃ settings' change, readAndCheckConf opendir (some ⟨renderConf items, false⟩) line settings false =
        .ok (settings', change) ∧ settings'.view = settings.view.behind items := by
  have hlines : ∀ line ∈ items.map ConfItem.line ++ [[]], LF ∉ line ∧ NUL ∉ line ∧ NamedInFront line := by
    rw [List.forall_mem_append, List.forall_mem_map, List.forall_mem_singleton]
    exact ⟨fun item _ => ⟨item.lf_not_mem_line, item.nul_not_mem_line, namedInFront_of_short item.length_line⟩,
      nofun, nofun, namedInFront_of_short (by decide)⟩
  obtain ⟨settings', hfold, hview⟩ := foldlM_applyLine_items items hterminated hopen
  have hread := readAndCheckConf_pieces opendir (nul_not_mem_renderConf items) line settings
  rw [renderConf_eq, foldlM_applyPiece_lines opendir (by simp) hlines, hfold, ← renderConf_eq] at hread
  obtain ⟨⟨last, change⟩, hok, hlast⟩ : ∃ result, readAndCheckConf opendir
      (some ⟨renderConf items, false⟩) line settings false = .ok result ∧ result.1 = settings' := by
    cases hresult : readAndCheckConf opendir (some ⟨renderConf items, false⟩) line settings false with
    | error stop => rw [hresult] at hread; cases hread
    | ok result =>
      rw [hresult] at hread
      exact ⟨result, rfl, Except.ok.inj hread⟩
  exact ⟨last, change, hok, (congrArg Settings.view hlast).trans hview⟩

/-- The second line for the port decides. -/
theorem rendered_conf_read_small :
    ∃ settings' change, readAndCheckConf (fun _ => true) (some ⟨bytes "port 70\nport 80\n", false⟩)
        (.zero 512) ⟨7070, 0, 116, .zero _, .zero _⟩ false = .ok (settings', change) ∧
      settings'.view = ⟨116, [], [], 80⟩ :=
  have hterminated : (CharArray.zero 256).cells[255]? = some NUL := by decide
  @rendered_conf_read (fun _ => true)
    [⟨.port, bytes "70", by decide, List.all_eq_true.mp (by decide), by rintro c ⟨⟩; rfl, by decide,
        by decide, ⟨by decide, by decide⟩⟩,
      ⟨.port, bytes "80", by decide, List.all_eq_true.mp (by decide), by rintro c ⟨⟩; rfl, by decide,
        by decide, ⟨by decide, by decide⟩⟩]
    ⟨7070, 0, 116, .zero _, .zero _⟩ hterminated (fun _ _ _ _ _ => rfl) (.zero 512)

/-! ### The settings of a server -/

/-- The settings can stand in a configuration. -/
structure ConfView.Writable (view : ConfView) : Prop where
  mode : view.mode = 116 ∨ view.mode = 112
  homedirLine : ∀ c ∈ view.homedir, homedirPattern.cls c = true
  homedirStarts : ∀ c ∈ view.homedir.head?, isSpace c = false
  homedirSlash : view.homedir.getLast? = some slash
  homedirShort : view.homedir.length ≤ 258
  homedirNoNul : NUL ∉ view.homedir
  hostnameLine : ∀ c ∈ view.hostname, hostnamePattern.cls c = true
  hostnameStarts : ∀ c ∈ view.hostname.head?, isSpace c = false
  hostnameNonempty : view.hostname ≠ []
  hostnameShort : view.hostname.length ≤ 255
  hostnameNoNul : NUL ∉ view.hostname
  port : 1 ≤ view.port ∧ view.port ≤ 65535

theorem numeral_digits (n : Nat) : numeral (digits n) = n := by
  have hdigit : ∀ c ∈ Nat.toDigits 10 n, c.toUInt8.toNat = c.toNat := fun c hc =>
    (toNat_toUInt8_of_isDigit (Nat.isDigit_of_mem_toDigits (by decide) (by decide) hc)).1
  rw [numeral, digits, List.foldl_map]
  calc _ = Nat.ofDigitChars 10 (Nat.toDigits 10 n) 0 :=
        List.foldl_ext _ _ _ fun val c hc => by rw [hdigit c hc]; rfl
    _ = n := Nat.ofDigitChars_ten_toDigits

theorem withSlash_of_slash {path : List Byte} (h : path.getLast? = some slash) : withSlash path = path :=
  if_pos h

def modeItem (view : ConfView) (h : view.Writable) : ConfItem where
  key := .mode
  value := [view.mode]
  nonempty := List.cons_ne_nil _ _
  whole c hc := by
    rw [List.mem_singleton.mp hc]
    exact cls_modePattern.mpr h.mode
  starts c hc := by
    obtain rfl : view.mode = c := Option.some.inj hc
    rcases h.mode with hmode | hmode <;> rw [hmode] <;> decide
  short := Nat.le_refl 1
  noNul hnul := by
    have hmode : NUL = view.mode := List.mem_singleton.mp hnul
    rcases h.mode with h | h <;> rw [h] at hmode <;> exact absurd hmode (by decide)
  fits := trivial

def homedirItem (view : ConfView) (h : view.Writable) : ConfItem where
  key := .homedir
  value := view.homedir
  nonempty hnil := by
    have hslash := h.homedirSlash
    rw [hnil] at hslash
    cases hslash
  whole := h.homedirLine
  starts := h.homedirStarts
  short := h.homedirShort.trans (by decide)
  noNul := h.homedirNoNul
  fits := by
    rw [ConfKey.Fits, withSlash_of_slash h.homedirSlash]
    exact h.homedirShort

def hostnameItem (view : ConfView) (h : view.Writable) : ConfItem where
  key := .hostname
  value := view.hostname
  nonempty := h.hostnameNonempty
  whole := h.hostnameLine
  starts := h.hostnameStarts
  short := h.hostnameShort
  noNul := h.hostnameNoNul
  fits := trivial

theorem isSpace_of_mem_digits {n : Nat} {c : Byte} (hc : c ∈ digits n) : isSpace c = false := by
  obtain ⟨hlow, -⟩ := mem_digits hc
  by_contra hno
  simp only [isSpace, Bool.not_eq_false, Bool.or_eq_true, Bool.and_eq_true, decide_eq_true_eq] at hno
  rcases hno with rfl | ⟨-, hle⟩
  · exact absurd hlow (by decide)
  · exact absurd (UInt8.le_trans hlow hle) (by decide)

theorem digits_ne_nil (n : Nat) : digits n ≠ [] := by
  rw [digits, Ne, List.map_eq_nil_iff]
  exact Nat.toDigits_ne_nil

theorem cls_portPattern_of_mem_digits {n : Nat} {c : Byte} (hc : c ∈ digits n) :
    portPattern.cls c = true := by
  obtain ⟨hlow, hhigh⟩ := mem_digits hc
  change (48 ≤ c && c ≤ 57) = true
  simp [hlow, hhigh]

theorem ConfView.Writable.length_digits {view : ConfView} (h : view.Writable) :
    (digits view.port.toNat).length ≤ 5 := by
  have hport := h.port
  have hlt : view.port.toNat < 10 ^ 5 := by omega
  exact (length_digits_le_iff (by decide)).mpr hlt

theorem ConfView.Writable.fits_port {view : ConfView} (h : view.Writable) :
    ConfKey.port.Fits (digits view.port.toNat) := by
  have hport := h.port
  rw [ConfKey.Fits, numeral_digits]
  omega

def portItem (view : ConfView) (h : view.Writable) : ConfItem where
  key := .port
  value := digits view.port.toNat
  nonempty := digits_ne_nil _
  whole _ hc := cls_portPattern_of_mem_digits hc
  starts _ hc := isSpace_of_mem_digits (List.mem_of_mem_head? hc)
  short := h.length_digits
  noNul := nul_not_mem_digits _
  fits := h.fits_port

/-- The four lines of the settings. -/
def ConfView.items (view : ConfView) (h : view.Writable) : List ConfItem :=
  [modeItem view h, homedirItem view h, hostnameItem view h, portItem view h]

/-- The settings of a server are read back from the configuration that is written for them, over any
settings. -/
theorem conf_round_trip {view : ConfView} (h : view.Writable) {settings : Settings}
    (hterminated : settings.HostTerminated)
    (hopen : ∀ path : CStr, path.chars = view.homedir → opendir path = true) (line : CharArray 512) :
    ∃ settings' change, readAndCheckConf opendir (some ⟨renderConf (view.items h), false⟩) line settings
        false = .ok (settings', change) ∧ settings'.view = view := by
  have hopens : ∀ item ∈ view.items h, ∀ path : CStr, item.key = .homedir → path.chars = item.value →
      opendir path = true := by
    simp only [ConfView.items, List.forall_mem_cons]
    exact ⟨fun _ => nofun, fun path _ => hopen path, fun _ => nofun, fun _ => nofun, nofun⟩
  obtain ⟨settings', change, hread, hview⟩ := rendered_conf_read (view.items h) hterminated hopens line
  refine ⟨settings', change, hread, hview.trans ?_⟩
  have hport := h.port
  have hnumber : ((numeral (digits view.port.toNat) : Nat) : Int) = view.port := by
    rw [numeral_digits]
    omega
  calc settings.view.behind (view.items h) =
        ⟨view.mode, withSlash view.homedir, view.hostname, numeral (digits view.port.toNat)⟩ := rfl
    _ = view := by rw [withSlash_of_slash h.homedirSlash, hnumber]

/-- A server that has been started on port 7070 reads the configuration of one on port 80. -/
theorem conf_round_trip_small :
    ∃ settings settings' change, mainSettings (startedWith (CStr.lit "7070")) = .ok settings ∧
      readAndCheckConf (fun _ => true)
        (some ⟨bytes "mode p\nhome-directory /srv/\nhostname localhost\nport 80\n", false⟩) (.zero 512)
        settings false = .ok (settings', change) ∧
      settings'.view = ⟨112, bytes "/srv/", bytes "localhost", 80⟩ := by
  obtain ⟨settings, hmain⟩ : ∃ settings, mainSettings (startedWith (CStr.lit "7070")) = .ok settings :=
    ⟨_, rfl⟩
  obtain ⟨settings', change, hread⟩ := @conf_round_trip (fun _ => true)
    ⟨112, bytes "/srv/", bytes "localhost", 80⟩
    { mode := .inr rfl
      homedirLine := List.all_eq_true.mp (by decide)
      homedirStarts := by rintro c ⟨⟩; rfl
      homedirSlash := by decide
      homedirShort := by decide
      homedirNoNul := by decide
      hostnameLine := List.all_eq_true.mp (by decide)
      hostnameStarts := by rintro c ⟨⟩; rfl
      hostnameNonempty := by decide
      hostnameShort := by decide
      hostnameNoNul := by decide
      port := by decide } settings (mainSettings_terminated hmain) (fun _ _ => rfl) (.zero 512)
  exact ⟨settings, settings', change, hmain, hread⟩

end Sacagawea
