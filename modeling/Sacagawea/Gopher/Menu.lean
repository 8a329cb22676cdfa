import Sacagawea.Gopher.TypePath
import Sacagawea.Lib.Table
import Sacagawea.Request.SecurityPath

/-!
# The menu of a directory

`send_content_of_dir` of gopher.c answers a request for a directory with one line for each entry. A
line is written into an array sized by hand, and the lines are collected in a string that is
reallocated for each of them. The sizes pass through an `int`. Every `malloc` the code asks for with
a size it meant is taken to succeed.
-/

namespace Sacagawea

/-- What `readdir` can return: a file name. -/
structure DirEntry where
  name : CStr
  noSlash : slash ∉ name.chars
  nonempty : name.chars ≠ []
  short : name.strlen ≤ maxFileName
  deriving DecidableEq

/-! ### The code -/

/-- The entries the loop skips. -/
def skipped (name : CStr) : Bool := name.chars == bytes ".." || name.chars == bytes "."

/-- `s[strlen(s) - 1]` -/
def lastByte (s : CStr) : Except Stop Byte :=
  match s.chars.getLast? with
  | some c => .ok c
  | none => .error .undefined

/-- `malloc(len)` or `realloc(p, len)` for an `int len` that was given the value `size`. A negative
length asks for more than there is. A length that has wrapped around is not the one that is then
written to. -/
def allocate (size : Nat) : Except Stop Unit :=
  if toInt size < 0 then .error (.exit 1)
  else if toInt size < size then .error .undefined
  else .ok ()

def pathOfSubfile (pathFile name : CStr) : Except Stop CStr := do
  if (← lastByte pathFile) = slash then
    return snprintf (pathFile.strlen + name.strlen + 1) (pathFile ++ name)
  else
    return snprintf (pathFile.strlen + name.strlen + 2) (pathFile ++ CStr.lit "/" ++ name)

/-- `type` as `%c` writes it. -/
def GopherType.toCStr (type : GopherType) : CStr :=
  ⟨[type.char], by simpa using type.char_ne.1.symm⟩

/-- The line of one entry, in an array of `len_responce` bytes. -/
def responseLine (type : GopherType) (name clientSelector hostname : CStr) (port : Int) :
    Except Stop CStr := do
  let portStr := snprintf 6 (decimal port)
  let lenResponce := 2 + (name.strlen + 1) + (clientSelector.strlen + name.strlen + 2) +
    (hostname.strlen + 1) + portStr.strlen + 3
  allocate lenResponce
  if (← lastByte clientSelector) ≠ slash then
    return snprintf lenResponce (type.toCStr ++ name ++ CStr.lit "\t" ++ clientSelector ++
      CStr.lit "/" ++ name ++ CStr.lit "\t" ++ hostname ++ CStr.lit "\t" ++ decimal port ++
      CStr.lit "\r\n")
  else
    return snprintf lenResponce (type.toCStr ++ name ++ CStr.lit "\t" ++ clientSelector ++ name ++
      CStr.lit "\t" ++ hostname ++ CStr.lit "\t" ++ decimal port ++ CStr.lit "\r\n")

/-- The two branches that put a line into `response`, which is `NULL` before the first one. -/
def appendLine (response : Option CStr) (line : CStr) : Except Stop CStr :=
  match response with
  | none => do
    allocate (line.strlen + 1)
    return line
  | some response => do
    allocate (response.strlen + line.strlen + 1)
    return response ++ line

/-- The `while` over what `readdir` returns. -/
def menuLoop (typeOf : CStr → Except Stop GopherType) (pathFile clientSelector hostname : CStr)
    (port : Int) : List DirEntry → Option CStr → Except Stop (Option CStr)
  | [], response => .ok response
  | subFile :: folder, response =>
    if skipped subFile.name then
      menuLoop typeOf pathFile clientSelector hostname port folder response
    else do
      let path ← pathOfSubfile pathFile subFile.name
      let type ← typeOf path
      let line ← responseLine type subFile.name clientSelector hostname port
      let response ← appendLine response line
      menuLoop typeOf pathFile clientSelector hostname port folder (some response)

/-- The line with the dot. Without an entry `strlen` is given `NULL`. -/
def endMenu : Option CStr → Except Stop CStr
  | none => .error .undefined
  | some response => do
    allocate (response.strlen + 4)
    return response ++ CStr.lit ".\r\n"

/-- The response `send_content_of_dir` sends. There is none for a directory that cannot be opened.
-/
def sendContentOfDir (typeOf : CStr → Except Stop GopherType)
    (pathFile clientSelector hostname : CStr) (port : Int) (folder : Option (List DirEntry)) :
    Except Stop (Option CStr) :=
  match folder with
  | none => .ok none
  | some folder => do
    let response ← menuLoop typeOf pathFile clientSelector hostname port folder none
    let response ← endMenu response
    return some response

/-! ### What the menu is for -/

def listed (folder : List DirEntry) : List CStr := (folder.map DirEntry.name).filter (!skipped ·)

/-- What is put behind a directory to name an entry of it. -/
def below (dir name : CStr) : CStr :=
  if dir.chars.getLast? = some slash then dir ++ name else dir ++ CStr.lit "/" ++ name

/-- The item of an entry: type and name, selector, host, port. -/
def menuItem (typeOf : CStr → GopherType) (pathFile clientSelector hostname : CStr) (port : Int)
    (name : CStr) : List (List Byte) :=
  [(typeOf (below pathFile name)).char :: name.chars, (below clientSelector name).chars,
    hostname.chars, (decimal port).chars]

def menuItems (typeOf : CStr → GopherType) (pathFile clientSelector hostname : CStr) (port : Int)
    (folder : List DirEntry) : List (List (List Byte)) :=
  (listed folder).map (menuItem typeOf pathFile clientSelector hostname port) ++ [[bytes "."]]

/-- A client splits the response at CR LF and each line at TAB. -/
def decodeMenu (response : CStr) : List (List (List Byte)) := Table.decode TAB CR LF response.chars

def lineSize (clientSelector hostname : CStr) (port : Int) (name : CStr) : Nat :=
  1 + name.strlen + 1 + (below clientSelector name).strlen + 1 + hostname.strlen + 1 +
    (decimal port).strlen + 2

/-- The bytes the menu takes, with its last line and its NUL. -/
def menuSize (clientSelector hostname : CStr) (port : Int) (folder : List DirEntry) : Nat :=
  ((listed folder).map (lineSize clientSelector hostname port)).sum + 4

/-! ### One entry -/

theorem allocate_eq_ok_iff {size : Nat} : allocate size = .ok () ↔ size < 2 ^ 31 := by
  have hlt := toInt_lt size
  constructor
  · intro h
    rw [allocate] at h
    split at h
    · cases h
    · split at h
      · cases h
      · omega
  · intro h
    rw [allocate, toInt_of_lt h, if_neg (by omega), if_neg (by omega)]

theorem allocate_cases (size : Nat) :
    allocate size = .ok () ∨ (∃ stop, allocate size = .error stop) ∧ 2 ^ 31 ≤ size := by
  by_cases hsize : size < 2 ^ 31
  · exact .inl (allocate_eq_ok_iff.mpr hsize)
  · refine .inr ⟨?_, Nat.le_of_not_lt hsize⟩
    cases hresult : allocate size with
    | ok => exact absurd (allocate_eq_ok_iff.mp hresult) hsize
    | error stop => exact ⟨stop, rfl⟩

theorem endMenu_eq_ok_iff {response out : CStr} :
    endMenu (some response) = .ok out ↔
      response.strlen + 4 < 2 ^ 31 ∧ response ++ CStr.lit ".\r\n" = out := by
  rw [endMenu, bind_eq_ok_iff]
  constructor
  · intro ⟨_, hroom, hout⟩
    exact ⟨allocate_eq_ok_iff.mp hroom, Except.ok.inj hout⟩
  · intro ⟨hroom, hout⟩
    exact ⟨(), allocate_eq_ok_iff.mpr hroom, congrArg Except.ok hout⟩

theorem lastByte_of_ne_nil {s : CStr} (hs : s.chars ≠ []) :
    ∃ c, s.chars.getLast? = some c ∧ lastByte s = .ok c := by
  have hlast := List.getLast?_eq_some_getLast hs
  exact ⟨_, hlast, by rw [lastByte, hlast]⟩

theorem pathOfSubfile_eq {pathFile : CStr} (hpath : pathFile.chars ≠ []) (name : CStr) :
    pathOfSubfile pathFile name = .ok (below pathFile name) := by
  obtain ⟨c, hlast, hc⟩ := lastByte_of_ne_nil hpath
  simp only [pathOfSubfile, hc, bind, Except.bind, pure, Except.pure, below, hlast, Option.some.injEq]
  split
  · rw [snprintf_of_lt (by rw [CStr.strlen_append]; omega)]
  · rw [snprintf_of_lt]
    rw [CStr.strlen_append, CStr.strlen_append]
    change _ + 1 + _ < _
    omega

theorem strlen_below_le (dir name : CStr) : (below dir name).strlen ≤ dir.strlen + name.strlen + 1 := by
  rw [below]
  split
  · rw [CStr.strlen_append]
    omega
  · rw [CStr.strlen_append, CStr.strlen_append]
    change _ + 1 + _ ≤ _
    omega

def itemLine (type : GopherType) (name clientSelector hostname : CStr) (port : Int) : CStr :=
  type.toCStr ++ name ++ CStr.lit "\t" ++ below clientSelector name ++ CStr.lit "\t" ++ hostname ++
    CStr.lit "\t" ++ decimal port ++ CStr.lit "\r\n"

theorem strlen_itemLine (type : GopherType) (name clientSelector hostname : CStr) (port : Int) :
    (itemLine type name clientSelector hostname port).strlen =
      lineSize clientSelector hostname port name := by
  simp only [itemLine, CStr.strlen_append]
  rfl

/-- The `len_responce` of an entry. -/
def lineBuffer (clientSelector hostname : CStr) (port : Int) (name : CStr) : Nat :=
  2 + (name.strlen + 1) + (clientSelector.strlen + name.strlen + 2) + (hostname.strlen + 1) +
    (snprintf 6 (decimal port)).strlen + 3

/-- The line as it is written. It is cut off when the port has more than five characters. -/
def shownLine (type : GopherType) (name clientSelector hostname : CStr) (port : Int) : CStr :=
  snprintf (lineBuffer clientSelector hostname port name)
    (itemLine type name clientSelector hostname port)

def shownSize (clientSelector hostname : CStr) (port : Int) (name : CStr) : Nat :=
  min (lineBuffer clientSelector hostname port name - 1) (lineSize clientSelector hostname port name)

theorem strlen_shownLine (type : GopherType) (name clientSelector hostname : CStr) (port : Int) :
    (shownLine type name clientSelector hostname port).strlen =
      shownSize clientSelector hostname port name := by
  rw [shownSize, ← strlen_itemLine type]
  exact List.length_take

theorem shownLine_eq_itemLine (type : GopherType) (name clientSelector hostname : CStr) {port : Int}
    (hport : 1 ≤ port ∧ port ≤ 65535) :
    shownLine type name clientSelector hostname port =
      itemLine type name clientSelector hostname port := by
  have hdigits := strlen_decimal_le (n := port) (by omega) (by omega)
  have hbelow := strlen_below_le clientSelector name
  apply snprintf_of_lt
  rw [strlen_itemLine, lineSize, lineBuffer, snprintf_of_lt (Nat.lt_succ_of_le hdigits)]
  omega

/-- What the request and the settings guarantee for the strings of a line. -/
structure LineSetting (pathFile clientSelector hostname : CStr) : Prop where
  path : pathFile.chars ≠ []
  selector : clientSelector.chars ≠ []
  selectorLen : clientSelector.strlen < pathMax
  host : hostname.strlen ≤ 255

theorem lineSetting_pathFile {homedir clientSelector hostname : CStr} (hsel : clientSelector.chars ≠ [])
    (hpath : homedir.strlen + clientSelector.strlen < pathMax) (hhost : hostname.strlen ≤ 255) :
    LineSetting (pathFile homedir clientSelector) clientSelector hostname where
  path := by simp [pathFile, hsel]
  selector := hsel
  selectorLen := by omega
  host := hhost

/-- A line that is written is that line. -/
theorem eq_shownLine_of_ok {type : GopherType} {name clientSelector hostname line : CStr} {port : Int}
    (h : responseLine type name clientSelector hostname port = .ok line) :
    line = shownLine type name clientSelector hostname port := by
  rw [responseLine, ← lineBuffer] at h
  obtain ⟨_, -, h⟩ := bind_eq_ok_iff.mp h
  obtain ⟨c, hc, h⟩ := bind_eq_ok_iff.mp h
  have hsel : clientSelector.chars ≠ [] := by
    intro hnil
    rw [lastByte, hnil] at hc
    cases hc
  obtain ⟨d, hlast, hd⟩ := lastByte_of_ne_nil hsel
  obtain rfl : d = c := Except.ok.inj (hd.symm.trans hc)
  by_cases hslash : d = slash
  · rw [if_neg (not_not.mpr hslash)] at h
    rw [← Except.ok.inj h, shownLine, itemLine, below, if_pos (by rw [hlast, hslash])]
    simp only [CStr.append_assoc]
  · have hno : ¬ clientSelector.chars.getLast? = some slash := by
      rw [hlast]
      exact fun heq => hslash (Option.some.inj heq)
    rw [if_pos hslash] at h
    rw [← Except.ok.inj h, shownLine, itemLine, below, if_neg hno]
    simp only [CStr.append_assoc]

theorem responseLine_eq (type : GopherType) {pathFile name clientSelector hostname : CStr} {port : Int}
    (hname : name.strlen ≤ maxFileName) (h : LineSetting pathFile clientSelector hostname) :
    responseLine type name clientSelector hostname port =
      .ok (shownLine type name clientSelector hostname port) := by
  obtain ⟨c, -, hc⟩ := lastByte_of_ne_nil h.selector
  have hdigits : (snprintf 6 (decimal port)).strlen ≤ 5 := List.length_take_le 5 _
  have hlen := h.selectorLen
  have hhost := h.host
  have hsize : lineBuffer clientSelector hostname port name < 2 ^ 31 := by
    rw [maxFileName] at hname
    rw [pathMax] at hlen
    rw [lineBuffer]
    omega
  obtain ⟨line, hline⟩ : ∃ line, responseLine type name clientSelector hostname port = .ok line := by
    rw [responseLine, ← lineBuffer, allocate_eq_ok_iff.mpr hsize, ok_bind, hc, ok_bind]
    split <;> exact ⟨_, rfl⟩
  rw [hline, eq_shownLine_of_ok hline]

theorem chars_itemLine (typeOf : CStr → GopherType) (pathFile clientSelector hostname : CStr)
    (port : Int) (name : CStr) :
    (itemLine (typeOf (below pathFile name)) name clientSelector hostname port).chars =
      [TAB].intercalate (menuItem typeOf pathFile clientSelector hostname port name) ++ crlf := by
  have htab : (CStr.lit "\t").chars = [TAB] := by decide
  have hend : (CStr.lit "\r\n").chars = crlf := by decide
  simp only [itemLine, CStr.chars_append, htab, hend, menuItem, List.intercalate_cons_cons,
    List.intercalate_singleton, List.append_assoc, GopherType.toCStr, List.cons_append,
    List.nil_append]

theorem length_encode_items (typeOf : CStr → GopherType) (pathFile clientSelector hostname : CStr)
    (port : Int) (names : List CStr) :
    (Table.encode TAB CR LF (names.map (menuItem typeOf pathFile clientSelector hostname port))).length =
      (names.map (lineSize clientSelector hostname port)).sum := by
  rw [Table.encode, List.flatMap_map, List.length_flatMap]
  congr 1
  refine List.map_congr_left fun name _ => ?_
  rw [← strlen_itemLine (typeOf (below pathFile name)), CStr.strlen, chars_itemLine]
  rfl

/-! ### The loop -/

def collected (response : Option CStr) : List Byte := response.elim [] CStr.chars

theorem appendLine_cases (response : Option CStr) (line : CStr) :
    (∃ out, appendLine response line = .ok out ∧ out.chars = collected response ++ line.chars) ∨
      (∃ stop, appendLine response line = .error stop) ∧
        2 ^ 31 ≤ (collected response).length + line.strlen + 1 := by
  cases response with
  | none =>
    rcases allocate_cases (line.strlen + 1) with h | ⟨⟨stop, h⟩, hsize⟩
    · exact .inl ⟨line, by rw [appendLine, h, ok_bind]; rfl, rfl⟩
    · refine .inr ⟨⟨stop, by rw [appendLine, h, error_bind]⟩, ?_⟩
      simpa [collected] using hsize
  | some response =>
    rcases allocate_cases (response.strlen + line.strlen + 1) with h | ⟨⟨stop, h⟩, hsize⟩
    · exact .inl ⟨response ++ line, by rw [appendLine, h, ok_bind]; rfl, rfl⟩
    · exact .inr ⟨⟨stop, by rw [appendLine, h, error_bind]⟩, hsize⟩

/-- The loop appends the lines of the listed entries. It stops when the text outgrows an `int`. -/
theorem menuLoop_shown {typeOf : CStr → Except Stop GopherType} {pathFile clientSelector hostname : CStr}
    (h : LineSetting pathFile clientSelector hostname) (port : Int) (types : CStr → GopherType)
    (folder : List DirEntry) (response : Option CStr)
    (htypes : ∀ name ∈ listed folder, typeOf (below pathFile name) = .ok (types name)) :
    (∃ out, menuLoop typeOf pathFile clientSelector hostname port folder response = .ok out ∧
        (out = none ↔ response = none ∧ listed folder = []) ∧
        collected out = collected response ++ (listed folder).flatMap fun name =>
          (shownLine (types name) name clientSelector hostname port).chars) ∨
      (∃ stop, menuLoop typeOf pathFile clientSelector hostname port folder response = .error stop) ∧
        2 ^ 31 ≤ (collected response).length +
          ((listed folder).map (shownSize clientSelector hostname port)).sum + 1 := by
  induction folder generalizing response with
  | nil => exact .inl ⟨response, rfl, by simp [listed], by simp [listed]⟩
  | cons subFile folder ih =>
    by_cases hskip : skipped subFile.name
    · have hlisted : listed (subFile :: folder) = listed folder := by simp [listed, hskip]
      rw [hlisted] at htypes
      rw [menuLoop, if_pos hskip, hlisted]
      exact ih response htypes
    · have hlisted : listed (subFile :: folder) = subFile.name :: listed folder := by
        simp [listed, hskip]
      rw [hlisted] at htypes
      obtain ⟨htype, htypes⟩ := List.forall_mem_cons.mp htypes
      set line := shownLine (types subFile.name) subFile.name clientSelector hostname port with hline
      have hstep : menuLoop typeOf pathFile clientSelector hostname port (subFile :: folder) response =
          appendLine response line >>= fun out =>
            menuLoop typeOf pathFile clientSelector hostname port folder (some out) := by
        rw [menuLoop, if_neg hskip, pathOfSubfile_eq h.path, ok_bind, htype, ok_bind,
          responseLine_eq _ subFile.short h, ok_bind]
      have hsize : line.strlen = shownSize clientSelector hostname port subFile.name :=
        strlen_shownLine ..
      rw [hstep, hlisted, List.map_cons, List.flatMap_cons, List.sum_cons, ← hsize]
      rcases appendLine_cases response line with ⟨out, hout, htext⟩ | ⟨⟨stop, hstop⟩, hlen⟩
      · rw [hout, ok_bind]
        have hcollected : collected (some out) = collected response ++ line.chars := htext
        rcases ih (some out) htypes with ⟨res, hres, hnone, hrows⟩ | ⟨hstop, hlen⟩
        · refine .inl ⟨res, hres, by simpa using hnone, ?_⟩
          rw [hrows, hcollected, List.append_assoc]
        · refine .inr ⟨hstop, ?_⟩
          rw [hcollected, List.length_append] at hlen
          rw [CStr.strlen, ← Nat.add_assoc]
          exact hlen
      · refine .inr ⟨⟨stop, by rw [hstop, error_bind]⟩, ?_⟩
        omega

/-- The setting of one request for a directory: what the selector, the settings and the commands run
on the entries guarantee. -/
structure MenuSetting (typeOf : CStr → Except Stop GopherType) (types : CStr → GopherType)
    (pathFile clientSelector hostname : CStr) (port : Int) : Prop where
  typed : ∀ path, typeOf path = .ok (types path)
  path : pathFile.chars ≠ []
  selector : clientSelector.chars ≠ []
  selectorLen : clientSelector.strlen < pathMax
  host : hostname.strlen ≤ 255
  port : 1 ≤ port ∧ port ≤ 65535

section

variable {typeOf : CStr → Except Stop GopherType} {types : CStr → GopherType}
  {pathFile clientSelector hostname : CStr} {port : Int}

/-- The loop appends the rows of the listed entries. It stops when the text outgrows an `int`. -/
theorem menuLoop_cases (h : MenuSetting typeOf types pathFile clientSelector hostname port)
    (folder : List DirEntry) (response : Option CStr) :
    (∃ out, menuLoop typeOf pathFile clientSelector hostname port folder response = .ok out ∧
        (out = none ↔ response = none ∧ listed folder = []) ∧
        collected out = collected response ++ Table.encode TAB CR LF
          ((listed folder).map (menuItem types pathFile clientSelector hostname port))) ∨
      (∃ stop, menuLoop typeOf pathFile clientSelector hostname port folder response = .error stop) ∧
        2 ^ 31 ≤ (collected response).length +
          ((listed folder).map (lineSize clientSelector hostname port)).sum + 1 := by
  have hline : ∀ type name, shownLine type name clientSelector hostname port =
      itemLine type name clientSelector hostname port := fun type name =>
    shownLine_eq_itemLine type name clientSelector hostname h.port
  have hrows : ∀ names : List CStr, (names.flatMap fun name =>
      (shownLine (types (below pathFile name)) name clientSelector hostname port).chars) =
      Table.encode TAB CR LF (names.map (menuItem types pathFile clientSelector hostname port)) := by
    intro names
    simp only [hline, chars_itemLine, Table.encode, List.flatMap_map]
    rfl
  have hsize : shownSize clientSelector hostname port = lineSize clientSelector hostname port := by
    funext name
    rw [← strlen_shownLine .text, hline, strlen_itemLine]
  have hlines : LineSetting pathFile clientSelector hostname :=
    ⟨h.path, h.selector, h.selectorLen, h.host⟩
  have hloop := menuLoop_shown hlines port (fun name => types (below pathFile name)) folder
    response fun name _ => h.typed (below pathFile name)
  rwa [hrows, hsize] at hloop

/-- The response is the table of the items, if there is one and its size fits an `int`. -/
theorem sendContentOfDir_cases (h : MenuSetting typeOf types pathFile clientSelector hostname port)
    (folder : List DirEntry) :
    (∃ response, sendContentOfDir typeOf pathFile clientSelector hostname port (some folder) =
          .ok (some response) ∧
        listed folder ≠ [] ∧ menuSize clientSelector hostname port folder < 2 ^ 31 ∧
        response.chars = Table.encode TAB CR LF
          (menuItems types pathFile clientSelector hostname port folder)) ∨
      (∃ stop, sendContentOfDir typeOf pathFile clientSelector hostname port (some folder) =
          .error stop) ∧
        (listed folder = [] ∨ 2 ^ 31 ≤ menuSize clientSelector hostname port folder) := by
  rcases menuLoop_cases h folder none with ⟨out, hout, hnone, hrows⟩ | ⟨⟨stop, hstop⟩, hlen⟩
  · cases out with
    | none =>
      refine .inr ⟨⟨.undefined, ?_⟩, .inl (hnone.mp rfl).2⟩
      simp only [sendContentOfDir, hout, ok_bind, endMenu, error_bind]
    | some response =>
      have hsize : response.strlen + 4 = menuSize clientSelector hostname port folder := by
        have hlen := congrArg List.length hrows
        rw [collected, List.length_append, length_encode_items] at hlen
        simpa [menuSize, CStr.strlen, collected] using hlen
      rcases allocate_cases (response.strlen + 4) with hok | ⟨⟨stop, herr⟩, hbig⟩
      · refine .inl ⟨response ++ CStr.lit ".\r\n", ?_, ?_, ?_, ?_⟩
        · simp only [sendContentOfDir, hout, ok_bind, endMenu, hok]
          rfl
        · intro hempty
          exact absurd (hnone.mpr ⟨rfl, hempty⟩) (by simp)
        · rw [← hsize]
          exact allocate_eq_ok_iff.mp hok
        · have hdot : (CStr.lit ".\r\n").chars = Table.encode TAB CR LF [[bytes "."]] := by decide
          rw [menuItems, Table.encode_append, ← hdot, CStr.chars_append]
          exact congrArg (· ++ _) hrows
      · refine .inr ⟨⟨stop, ?_⟩, .inr (hsize ▸ hbig)⟩
        simp only [sendContentOfDir, hout, ok_bind, endMenu, herr, error_bind]
  · refine .inr ⟨⟨stop, by simp only [sendContentOfDir, hstop, error_bind]⟩, .inr ?_⟩
    simp only [collected, Option.elim_none, List.length_nil] at hlen
    rw [menuSize]
    omega

end

/-! ### Reading the menu -/

/-- A string without TAB and without CR LF. -/
def Plain (s : CStr) : Prop := Table.Clean TAB CR LF s.chars

instance (s : CStr) : Decidable (Plain s) := inferInstanceAs (Decidable (Table.Clean ..))

theorem clean_cons_iff {c : Byte} (htab : c ≠ TAB) (hcr : c ≠ CR) (s : CStr) :
    Table.Clean TAB CR LF (c :: s.chars) ↔ Plain s := by
  simp [Plain, Table.Clean, List.infix_cons_iff, htab.symm, hcr.symm]

theorem tab_mem_below_iff (dir name : CStr) :
    TAB ∈ (below dir name).chars ↔ TAB ∈ dir.chars ∨ TAB ∈ name.chars := by
  have hone : (CStr.lit "/").chars = [slash] := by decide
  rw [below]
  split
  · rw [CStr.chars_append, List.mem_append]
  · simp [hone, TAB, slash]

theorem crlf_infix_below_iff (dir name : CStr) :
    crlf <:+: (below dir name).chars ↔ crlf <:+: dir.chars ∨ crlf <:+: name.chars := by
  have hone : (CStr.lit "/").chars = [slash] := by decide
  rw [below]
  split
  · rename_i hlast
    rw [CStr.chars_append, Split.infix_append_iff_of_getLast hlast (by decide)]
  · rw [CStr.chars_append, CStr.chars_append, hone,
      Split.infix_append_iff_of_getLast List.getLast?_concat (by decide), crlf,
      Split.pair_infix_append_iff]
    have hpair : ¬ [CR, LF] <:+: [slash] := by decide
    have hhead : ¬ [slash].head? = some LF := by decide
    simp only [hpair, hhead, and_false, or_false]

theorem plain_below_iff (dir name : CStr) : Plain (below dir name) ↔ Plain dir ∧ Plain name := by
  have hcrlf := crlf_infix_below_iff dir name
  rw [crlf] at hcrlf
  simp only [Plain, Table.Clean, tab_mem_below_iff, hcrlf]
  tauto

theorem plain_decimal (port : Int) : Plain (decimal port) := by
  have hno : ∀ b ∈ (decimal port).chars, b ≠ TAB ∧ b ≠ CR := by
    intro b hb
    rcases mem_decimal hb with rfl | ⟨hle, -⟩
    · decide
    · constructor <;> (rintro rfl; exact absurd hle (by decide))
  refine ⟨fun h => (hno _ h).1 rfl, fun h => (hno CR ?_).2 rfl⟩
  exact h.subset List.mem_cons_self

theorem menuItem_clean_iff (typeOf : CStr → GopherType) (pathFile clientSelector hostname : CStr)
    (port : Int) (name : CStr) :
    (∀ field ∈ menuItem typeOf pathFile clientSelector hostname port name,
        Table.Clean TAB CR LF field) ↔
      Plain clientSelector ∧ Plain hostname ∧ Plain name := by
  obtain ⟨-, htab, hcr, -⟩ := (typeOf (below pathFile name)).char_ne
  have hbelow : Table.Clean TAB CR LF (below clientSelector name).chars ↔
      Plain clientSelector ∧ Plain name := plain_below_iff clientSelector name
  have hport : Table.Clean TAB CR LF (decimal port).chars := plain_decimal port
  have hhost : Table.Clean TAB CR LF hostname.chars ↔ Plain hostname := Iff.rfl
  simp only [menuItem, List.forall_mem_cons, clean_cons_iff htab hcr, hbelow, hhost, hport,
    List.not_mem_nil, false_implies, implies_true]
  tauto

theorem menuItems_clean_iff {typeOf : CStr → GopherType} {pathFile clientSelector hostname : CStr}
    {port : Int} {folder : List DirEntry} (hne : listed folder ≠ []) :
    (∀ row ∈ menuItems typeOf pathFile clientSelector hostname port folder,
        row ≠ [] ∧ ∀ field ∈ row, Table.Clean TAB CR LF field) ↔
      Plain clientSelector ∧ Plain hostname ∧ ∀ name ∈ listed folder, Plain name := by
  have hdot : [bytes "."] ≠ [] ∧ Table.Clean TAB CR LF (bytes ".") := by decide
  simp only [menuItems, List.forall_mem_append, List.forall_mem_map, List.forall_mem_singleton,
    and_iff_left hdot, menuItem_clean_iff]
  obtain ⟨first, hfirst⟩ := List.exists_mem_of_ne_nil _ hne
  constructor
  · intro h
    exact ⟨(h first hfirst).2.1, (h first hfirst).2.2.1, fun name hname => (h name hname).2.2.2⟩
  · rintro ⟨hsel, hhost, hnames⟩ name hname
    exact ⟨List.cons_ne_nil _ _, hsel, hhost, hnames name hname⟩

/-- A client reads the items of the menu exactly when there is one, the response fits an `int`, and
neither the names, the selector nor the host name contain a delimiter. -/
theorem decodeMenu_iff {probe : CStr → Probe} {stack : CStr → CharArray 64} {types : CStr → GopherType}
    {homedir clientSelector hostname : CStr} {port : Int} (folder : List DirEntry)
    (htypes : ∀ path, typePath (stack path) (probe path) = .ok (types path))
    (hsel : clientSelector.chars ≠ []) (hpath : (pathFile homedir clientSelector).strlen < pathMax)
    (hhost : hostname.strlen ≤ 255) (hport : 1 ≤ port ∧ port ≤ 65535) :
    (∃ response, sendContentOfDir (fun path => typePath (stack path) (probe path))
          (pathFile homedir clientSelector) clientSelector hostname port (some folder) =
          .ok (some response) ∧
        decodeMenu response = menuItems types (pathFile homedir clientSelector) clientSelector hostname
          port folder ++ [[[]]]) ↔
      listed folder ≠ [] ∧ menuSize clientSelector hostname port folder < 2 ^ 31 ∧
        Plain clientSelector ∧ Plain hostname ∧ ∀ name ∈ listed folder, Plain name := by
  have h : MenuSetting (fun path => typePath (stack path) (probe path)) types
      (pathFile homedir clientSelector) clientSelector hostname port :=
    { typed := htypes
      path := by simp [pathFile, hsel]
      selector := hsel
      selectorLen := by
        rw [pathFile, CStr.strlen_append] at hpath
        omega
      host := hhost
      port := hport }
  rcases sendContentOfDir_cases h folder with
    ⟨response, hresponse, hne, hsize, hchars⟩ | ⟨⟨stop, hstop⟩, hno⟩
  · have hread : decodeMenu response = menuItems types (pathFile homedir clientSelector)
        clientSelector hostname port folder ++ [[[]]] ↔
        Plain clientSelector ∧ Plain hostname ∧ ∀ name ∈ listed folder, Plain name := by
      rw [decodeMenu, hchars, Table.decode_encode_iff (by decide) (by decide) (by decide),
        menuItems_clean_iff hne]
    constructor
    · rintro ⟨response', hresponse', hdecode⟩
      obtain rfl : response = response' := by
        rw [hresponse] at hresponse'
        exact Option.some.inj (Except.ok.inj hresponse')
      exact ⟨hne, hsize, hread.mp hdecode⟩
    · rintro ⟨-, -, hplain⟩
      exact ⟨response, hresponse, hread.mpr hplain⟩
  · constructor
    · rintro ⟨response, hresponse, -⟩
      rw [hstop] at hresponse
      cases hresponse
    · rintro ⟨hne, hsize, -⟩
      rcases hno with hempty | hbig
      · exact absurd hempty hne
      · omega

/-- In `/srv/`, a file name with a TAB gives an item of six fields, and without any file the
response is read through `NULL`. -/
theorem menu_not_decoded :
    (sendContentOfDir (fun _ => typePath (.zero 64) (.output (bytes "text/plain"))) (CStr.lit "/srv//")
        (CStr.lit "/") (CStr.lit "localhost") 7070
        (some [⟨CStr.lit "a\tb", by decide, by decide, by decide⟩]) =
          .ok (some (CStr.lit "0a\tb\t/a\tb\tlocalhost\t7070\r\n.\r\n")) ∧
      decodeMenu (CStr.lit "0a\tb\t/a\tb\tlocalhost\t7070\r\n.\r\n") ≠
        menuItems (fun _ => .text) (CStr.lit "/srv//") (CStr.lit "/") (CStr.lit "localhost") 7070
          [⟨CStr.lit "a\tb", by decide, by decide, by decide⟩] ++ [[[]]]) ∧
      sendContentOfDir (fun _ => typePath (.zero 64) (.output (bytes "text/plain")))
        (CStr.lit "/srv//") (CStr.lit "/") (CStr.lit "localhost") 7070 (some []) =
          .error .undefined := by
  decide +kernel

theorem decodeMenu_iff_readme :
    ∃ response, sendContentOfDir (fun _ => typePath (.zero 64) (.output (bytes "text/plain")))
        (CStr.lit "/srv/docs") (CStr.lit "docs") (CStr.lit "localhost") 7070
        (some [⟨CStr.lit "..", by decide, by decide, by decide⟩,
          ⟨CStr.lit "README", by decide, by decide, by decide⟩]) = .ok (some response) ∧
      decodeMenu response = [[bytes "0README", bytes "docs/README", bytes "localhost", bytes "7070"],
        [bytes "."], [[]]] :=
  (@decodeMenu_iff (fun _ => .output (bytes "text/plain")) (fun _ => .zero 64) (fun _ => .text)
    (CStr.lit "/srv/") (CStr.lit "docs") (CStr.lit "localhost") 7070
    [⟨CStr.lit "..", by decide, by decide, by decide⟩,
      ⟨CStr.lit "README", by decide, by decide, by decide⟩]
    (fun _ => by decide) (by decide) (by decide) (by decide) (by decide)).mpr (by decide +kernel)

end Sacagawea
