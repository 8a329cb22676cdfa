import Sacagawea.Gopher.Requestable
import Sacagawea.Lib.Unfold
import Sacagawea.Request.Navigation

/-!
# Reading the whole tree

A client starts with a menu, and asks for every item of it: a menu for a directory, and the file
otherwise. What it finds that way, with the names it has followed, is the tree of the files below the
home directory, when each name can stand in a menu and each selector in a request.
-/

namespace Sacagawea

/-! ### The two sides -/

/-- What there is to say of an item: the name, the type, and what a request for it gives when it is
neither a directory nor an error. -/
structure Found where
  name : List Byte
  type : Byte
  reply : Option Reply
  deriving DecidableEq

/-- A row of a menu, as a client takes it. The line with the dot is no item. -/
def readItem (ask : List Byte → Option Reply) : List (List Byte) → Option (Found × Option (List Byte))
  | [type :: name, selector, _, _] =>
    if type = GopherType.directory.char then some (⟨name, type, none⟩, some selector)
    else if type = GopherType.error.char then some (⟨name, type, none⟩, none)
    else some (⟨name, type, ask selector⟩, none)
  | _ => none

/-- A client asks for a selector and takes the answer for a menu. -/
def menuOf (ask : List Byte → Option Reply) (selector : List Byte) : List (Found × Option (List Byte)) :=
  match ask selector with
  | some (.text response) => (decodeMenu response).filterMap (readItem ask)
  | _ => []

/-- An entry of a directory, as it is on the disk. -/
def entryAt (types : CStr → GopherType) (path name : CStr) : Found × Option CStr :=
  let type := types (below path name)
  if type = .directory then (⟨name.chars, type.char, none⟩, some (below path name))
  else if type = .error then (⟨name.chars, type.char, none⟩, none)
  else (⟨name.chars, type.char, some (.file (below path name))⟩, none)

def Disk.entriesAt (disk : Disk) (types : CStr → GopherType) (path : CStr) : List (Found × Option CStr) :=
  (((disk.folder path).map listed).getD []).map (entryAt types path)

/-- Each selector is answered as `management_function` answers it, in whatever pieces it and its CR LF
arrive. -/
def Answers (disk : Disk) (stack : (n : Nat) → CharArray n) (settings : Settings)
    (ask : List Byte → Option Reply) : Prop :=
  ∀ selector : CStr, ∃ outcomes,
    Schedule (inputSize settings.homedir.str) (selector.chars ++ crlf) outcomes ∧
    delivered outcomes = (selector.chars ++ crlf).take (inputSize settings.homedir.str) ∧
    ask selector.chars = (managementFunction disk stack settings outcomes).toOption.join

/-- A selector that can be sent, and stand in a menu. -/
structure Sendable (homedir sel : CStr) : Prop where
  nonempty : sel.chars ≠ []
  plain : Plain sel
  passes : checkSecurityPath sel = false
  fits : homedir.strlen + sel.strlen + 1 < pathMax

/-- To this depth, the directories below the selector can be listed, and their names and selectors
sent. -/
def Served (disk : Disk) (types : CStr → GopherType) (settings : Settings) : Nat → CStr → Prop
  | 0, _ => True
  | depth + 1, sel => types (pathFile settings.homedir.str sel) = .directory ∧
    ∃ folder ∈ disk.folder (pathFile settings.homedir.str sel), listed folder ≠ [] ∧
      menuSize sel settings.hostname.str settings.port folder < 2 ^ 31 ∧ ¬ bytes ".." <:+ sel.chars ∧
      ∀ name ∈ listed folder, Plain name ∧ ¬ bytes "..\\" <:+: name.chars ∧
        settings.homedir.str.strlen + (below sel name).strlen + 1 < pathMax ∧
        (types (pathFile settings.homedir.str (below sel name)) = .directory →
          Served disk types settings depth (below sel name))

instance decidableServed (disk : Disk) (types : CStr → GopherType) (settings : Settings) :
    ∀ depth sel, Decidable (Served disk types settings depth sel)
  | 0, _ => isTrue trivial
  | depth + 1, sel =>
    have := decidableServed disk types settings depth
    inferInstanceAs (Decidable (_ = _ ∧
      ∃ folder ∈ disk.folder (pathFile settings.homedir.str sel), listed folder ≠ [] ∧ _ < 2 ^ 31 ∧ ¬ _ ∧
        ∀ name ∈ listed folder, Plain name ∧ ¬ _ ∧ _ < pathMax ∧
          (_ = _ → Served disk types settings depth (below sel name))))

/-- The probes give types, `homedir` ends with a slash and passes the filter, and the host and the port
can stand in a menu. -/
structure CrawlSetting (disk : Disk) (types : CStr → GopherType) (settings : Settings) : Prop where
  typed : ∀ path, disk.typeOf path = .ok (types path)
  slash : settings.homedir.str.chars.getLast? = some slash
  passes : checkSecurityPath settings.homedir.str = false
  hostPlain : Plain settings.hostname.str
  hostShort : settings.hostname.str.strlen ≤ 255
  port : 1 ≤ settings.port ∧ settings.port ≤ 65535

/-! ### One request -/

section

variable {disk : Disk} {types : CStr → GopherType} {stack : (n : Nat) → CharArray n} {settings : Settings}
  {ask : List Byte → Option Reply}

theorem Sendable.below {homedir sel : CStr} (h : Sendable homedir sel) (hdots : ¬ bytes ".." <:+ sel.chars)
    (entry : DirEntry) (hplain : Plain entry.name) (hback : ¬ bytes "..\\" <:+: entry.name.chars)
    (hfits : homedir.strlen + (below sel entry.name).strlen + 1 < pathMax) :
    Sendable homedir (below sel entry.name) where
  nonempty := by
    rw [Sacagawea.below]
    split_ifs <;> simp [h.nonempty]
  plain := (plain_below_iff sel entry.name).mpr ⟨h.plain, hplain⟩
  passes := (checkSecurityPath_below h.passes entry).mpr ⟨hdots, hback⟩
  fits := hfits

/-- A selector that can be sent is answered by what `respond` does for its path. -/
theorem ask_eq (h : CrawlSetting disk types settings) (hask : Answers disk stack settings ask) {sel : CStr}
    (hsel : Sendable settings.homedir.str sel) :
    ask sel.chars = (respond disk stack settings (pathFile settings.homedir.str sel) sel).toOption := by
  obtain ⟨outcomes, hs, hdelivered, hanswer⟩ := hask sel
  have hfits : settings.homedir.str.strlen + sel.chars.length + 1 < pathMax := hsel.fits
  have hmax : pathMax = 4096 := rfl
  have hlength : sel.chars.length + 1 < inputSize settings.homedir.str := by
    rw [inputSize, maxRequestLen]
    omega
  have hroom : 0 < inputSize settings.homedir.str := by omega
  have hread := (readRequest_closed_iff hroom sel.chars).mpr ⟨hsel.plain.2, hlength⟩ outcomes hs hdelivered
  have hpass : checkSecurityPath (pathFile settings.homedir.str sel) = false := by
    rw [pathFile, checkSecurityPath_append h.slash, h.passes, hsel.passes]
    rfl
  have hstr : CStr.ofBuffer (sel.chars ++ [NUL]) = sel := CStr.ofBuffer_terminated sel []
  have hret : ((sel.chars.length : Int) + 1) ≠ -1 := by omega
  rw [hanswer]
  simp only [managementFunction, hread]
  rw [if_neg hret, hstr, answer_eq _ _ _ _ (by omega), if_pos ⟨Nat.lt_of_succ_lt hfits, hpass⟩]
  cases respond disk stack settings (pathFile settings.homedir.str sel) sel <;> rfl

/-! ### One menu -/

theorem char_injective {type type' : GopherType} (h : type.char = type'.char) : type = type' := by
  cases type <;> cases type' <;> first | rfl | exact absurd h (by decide)

/-- The row of an entry is taken for what the entry is, when it can be asked for. -/
theorem readItem_menuItem (h : CrawlSetting disk types settings) (hask : Answers disk stack settings ask)
    {sel name : CStr} (hsel : sel.chars ≠ []) (hname : Sendable settings.homedir.str (below sel name)) :
    ∃ item, readItem ask (menuItem types (pathFile settings.homedir.str sel) sel settings.hostname.str
        settings.port name) = some item ∧
      Unfold.Matches (fun selector path => selector = (below sel name).chars ∧
          path = pathFile settings.homedir.str (below sel name) ∧ types path = .directory) item
        (entryAt types (pathFile settings.homedir.str sel) name) := by
  have hpath := below_pathFile settings.homedir.str hsel name
  have hreply := ask_eq h hask hname
  rw [← hpath] at hreply
  simp only [menuItem, readItem, entryAt]
  generalize hpath' : below (pathFile settings.homedir.str sel) name = path at hreply hpath
  by_cases hdir : types path = .directory
  · simp only [hdir, if_true]
    exact ⟨_, rfl, rfl, .some ⟨rfl, hpath, hdir⟩⟩
  · have hchar : (types path).char ≠ GopherType.directory.char := fun heq => hdir (char_injective heq)
    rw [if_neg hchar, if_neg hdir]
    by_cases herror : types path = .error
    · simp only [herror, if_true]
      exact ⟨_, rfl, rfl, .none⟩
    · have hchar' : (types path).char ≠ GopherType.error.char := fun heq => herror (char_injective heq)
      rw [if_neg hchar', if_neg herror]
      have hfile : ask (below sel name).chars = some (.file path) := by
        rw [hreply, respond, h.typed, ok_bind, if_neg hdir, if_neg herror]
        rfl
      exact ⟨_, rfl, by rw [hfile], .none⟩

/-- What a client has and where that is on the disk, when it can be followed to the depth. -/
def Follows (disk : Disk) (types : CStr → GopherType) (settings : Settings) (depth : Nat)
    (selector : List Byte) (path : CStr) : Prop :=
  ∃ sel : CStr, selector = sel.chars ∧ path = pathFile settings.homedir.str sel ∧
    Sendable settings.homedir.str sel ∧ Served disk types settings depth sel

theorem forall₂_filterMap {α β γ δ : Type} {M : γ → δ → Prop} {read : β → Option γ} {row : α → β}
    {entry : α → δ} {names : List α}
    (h : ∀ name ∈ names, ∃ item, read (row name) = some item ∧ M item (entry name)) :
    List.Forall₂ M ((names.map row).filterMap read) (names.map entry) := by
  induction names with
  | nil => exact .nil
  | cons name names ih =>
    obtain ⟨⟨item, hitem, hmatch⟩, hrest⟩ := List.forall_mem_cons.mp h
    rw [List.map_cons, List.map_cons, List.filterMap_cons_some hitem]
    exact .cons hmatch (ih hrest)

/-- The response to a directory that is served is the table of its items. -/
theorem menu_decoded (h : CrawlSetting disk types settings) (hask : Answers disk stack settings ask)
    {sel : CStr} (hsel : Sendable settings.homedir.str sel) {folder : List DirEntry}
    (hdir : types (pathFile settings.homedir.str sel) = .directory)
    (hfolder : disk.folder (pathFile settings.homedir.str sel) = some folder) (hne : listed folder ≠ [])
    (hsize : menuSize sel settings.hostname.str settings.port folder < 2 ^ 31)
    (hplain : ∀ name ∈ listed folder, Plain name) :
    ∃ response, ask sel.chars = some (.text response) ∧
      decodeMenu response = menuItems types (pathFile settings.homedir.str sel) sel settings.hostname.str
        settings.port folder ++ [[[]]] := by
  have hsetting : MenuSetting disk.typeOf types (pathFile settings.homedir.str sel) sel
      settings.hostname.str settings.port :=
    { typed := h.typed
      path := by simp [pathFile, hsel.nonempty]
      selector := hsel.nonempty
      selectorLen := by
        have hfits := hsel.fits
        omega
      host := h.hostShort
      port := h.port }
  rcases sendContentOfDir_cases hsetting folder with
    ⟨response, hresponse, -, -, hchars⟩ | ⟨-, hempty | hbig⟩
  · refine ⟨response, ?_, ?_⟩
    · rw [ask_eq h hask hsel, respond, h.typed, ok_bind, if_pos hdir, hfolder, hresponse]
      rfl
    · rw [decodeMenu, hchars]
      exact Table.decode_encode (by decide) (by decide) (by decide)
        ((menuItems_clean_iff hne).mpr ⟨hsel.plain, h.hostPlain, hplain⟩)
  · exact absurd hempty hne
  · exact absurd hsize (Nat.not_lt.mpr hbig)

/-- A client finds the entries of a directory in its menu, and can follow those that are directories.
-/
theorem menuOf_matches (h : CrawlSetting disk types settings) (hask : Answers disk stack settings ask)
    {depth : Nat} {selector : List Byte} {path : CStr}
    (hfollows : Follows disk types settings (depth + 1) selector path) :
    List.Forall₂ (Unfold.Matches (Follows disk types settings depth)) (menuOf ask selector)
      (disk.entriesAt types path) := by
  obtain ⟨sel, rfl, rfl, hsel, hdir, folder, hfolder, hne, hsize, hdots, hnames⟩ := hfollows
  obtain ⟨response, hanswer, hdecoded⟩ := menu_decoded h hask hsel hdir hfolder hne hsize
    fun name hname => (hnames name hname).1
  have hmenu : menuOf ask sel.chars = ((listed folder).map (menuItem types
      (pathFile settings.homedir.str sel) sel settings.hostname.str settings.port)).filterMap
        (readItem ask) := by
    have hend : ([[bytes "."], [[]]] : List (List (List Byte))).filterMap (readItem ask) = [] := rfl
    simp only [menuOf, hanswer, hdecoded, menuItems]
    rw [List.append_assoc, List.filterMap_append]
    exact (congrArg _ hend).trans (List.append_nil _)
  have hentries : disk.entriesAt types (pathFile settings.homedir.str sel) =
      (listed folder).map (entryAt types (pathFile settings.homedir.str sel)) := by
    rw [Disk.entriesAt, hfolder]
    rfl
  rw [hmenu, hentries]
  refine forall₂_filterMap fun name hname => ?_
  obtain ⟨hplain, hback, hfits, hserved⟩ := hnames name hname
  obtain ⟨entry, rfl⟩ : ∃ entry : DirEntry, entry.name = name := by
    obtain ⟨entry, -, hentry⟩ := List.mem_map.mp (List.mem_filter.mp hname).1
    exact ⟨entry, hentry⟩
  have hsend := hsel.below hdots entry hplain hback hfits
  obtain ⟨item, hitem, hmatch⟩ := readItem_menuItem h hask hsel.nonempty hsend
  refine ⟨item, hitem, hmatch.mono ?_⟩
  rintro selector path ⟨rfl, rfl, hdir⟩
  exact ⟨_, rfl, rfl, hsend, hserved hdir⟩

/-! ### The tree -/

/-- What a client finds from a selector, by asking for each item of each menu, is what there is on the
disk from its path: the same names and types at each place, and for each file the answer with that
file. However the requests arrive, nothing is missing and there is nothing else. -/
theorem crawl_finds_tree (h : CrawlSetting disk types settings) (hask : Answers disk stack settings ask)
    {sel : CStr} (hsel : Sendable settings.homedir.str sel) {depth : Nat}
    (hserved : Served disk types settings depth sel) :
    Unfold.ways (menuOf ask) depth sel.chars =
      Unfold.ways (disk.entriesAt types) depth (pathFile settings.homedir.str sel) :=
  Unfold.ways_eq (fun _ _ _ => menuOf_matches h hask) ⟨sel, rfl, rfl, hsel, hserved⟩

end

/-- A request that arrives in one piece. -/
def wholeRequest (size : Nat) (selector : List Byte) : List Recv :=
  match (selector ++ crlf).take size with
  | [] => []
  | first :: more => [.data first more]

def askWhole (disk : Disk) (stack : (n : Nat) → CharArray n) (settings : Settings)
    (selector : List Byte) : Option Reply :=
  (managementFunction disk stack settings
    (wholeRequest (inputSize settings.homedir.str) selector)).toOption.join

theorem answers_askWhole (disk : Disk) (stack : (n : Nat) → CharArray n) (settings : Settings) :
    Answers disk stack settings (askWhole disk stack settings) := by
  intro selector
  refine ⟨_, ?_, ?_, rfl⟩
  all_goals
    rw [wholeRequest]
    split
  · exact .waiting
  · next first more hpiece =>
    have hshort := List.length_take_le (inputSize settings.homedir.str) (selector.chars ++ crlf)
    rw [hpiece] at hshort
    have hstream : selector.chars ++ crlf =
        first :: more ++ (selector.chars ++ crlf).drop (inputSize settings.homedir.str) := by
      rw [← hpiece, List.take_append_drop]
    rw [hstream]
    exact .data hshort .waiting
  · next hnil => exact hnil.symm
  · next first more hpiece =>
    rw [hpiece]
    exact congrArg (first :: ·) (List.append_nil more)

/-- What `readdir` can give. -/
def CStr.IsName (name : CStr) : Prop :=
  slash ∉ name.chars ∧ name.chars ≠ [] ∧ name.strlen ≤ maxFileName

instance (name : CStr) : Decidable name.IsName := inferInstanceAs (Decidable (_ ∧ _ ∧ _))

def CStr.entry (name : CStr) (h : name.IsName) : DirEntry := ⟨name, h.1, h.2.1, h.2.2⟩

theorem nul_not_mem_a : NUL ∉ bytes "a" := by decide

/-- In `/srv/`, the file `about` and the directory `docs` with the file `a`. -/
def docsDisk : Disk where
  probe path := .output (if path.chars = bytes "/srv//" ∨ path.chars = bytes "/srv//docs" then bytes "inode/directory"
    else bytes "text/plain")
  stack _ := .zero 64
  folder path := if path.chars = bytes "/srv//" then
      some [(CStr.lit "..").entry (by decide), (CStr.lit "about").entry (by decide),
        (CStr.lit "docs").entry (by decide)]
    else if path.chars = bytes "/srv//docs" then some [(CStr.lit "a" nul_not_mem_a).entry (by decide)]
    else none

def docsTypes (path : CStr) : GopherType :=
  if path.chars = bytes "/srv//" ∨ path.chars = bytes "/srv//docs" then .directory else .text

def docsSettings : Settings where
  port := 7070
  socket := 3
  mode := 116
  homedir := ⟨(bytes "/srv/").rightpad pathMax NUL, by decide +kernel⟩
  hostname := .zero 256

theorem crawl_finds_tree_small :
    Unfold.ways (menuOf (askWhole docsDisk CharArray.zero docsSettings)) 3 (bytes "/") =
      [[⟨bytes "about", 48, some (.file (CStr.lit "/srv//about"))⟩], [⟨bytes "docs", 49, none⟩],
        [⟨bytes "docs", 49, none⟩, ⟨bytes "a", 48, some (.file (CStr.lit "/srv//docs/a"))⟩]] := by
  have hsetting : CrawlSetting docsDisk docsTypes docsSettings :=
    { typed := by
        intro path
        simp only [Disk.typeOf, docsDisk, docsTypes]
        split_ifs <;> decide +kernel
      slash := by decide +kernel
      passes := by decide +kernel
      hostPlain := by decide +kernel
      hostShort := by decide +kernel
      port := by decide }
  have hsel : Sendable docsSettings.homedir.str (CStr.lit "/") :=
    ⟨by decide, by decide, by decide, by decide +kernel⟩
  have hserved : Served docsDisk docsTypes docsSettings 3 (CStr.lit "/") := by decide +kernel
  exact (crawl_finds_tree hsetting (answers_askWhole docsDisk CharArray.zero docsSettings) hsel
    hserved).trans (by decide +kernel)

end Sacagawea
