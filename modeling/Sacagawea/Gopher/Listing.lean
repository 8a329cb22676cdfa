import Mathlib.Algebra.Order.BigOperators.Group.List
import Mathlib.Algebra.Order.Group.Nat
import Sacagawea.Gopher.Menu

/-!
# The listing of a directory, for every request

A selector can be empty, and so can a directory. `send_content_of_dir` looks at the last character of
the selector for each entry, and takes the length of the response when the entries have been read,
whether or not there was one. The buffer of a line counts the port with the five digits of a port, and
`-P` takes any number.
-/

namespace Sacagawea

/-- Each entry that is listed has a line, so the path it is probed at has a type, and there is a
character to look at in the selector. -/
theorem menuLoop_ok {typeOf : CStr → Except Stop GopherType} {pathFile clientSelector hostname : CStr}
    {port : Int} {folder : List DirEntry} {response out : Option CStr}
    (h : menuLoop typeOf pathFile clientSelector hostname port folder response = .ok out) :
    ∀ name ∈ listed folder, clientSelector.chars ≠ [] ∧
      ∃ path type, pathOfSubfile pathFile name = .ok path ∧ typeOf path = .ok type := by
  induction folder generalizing response with
  | nil => exact nofun
  | cons subFile folder ih =>
    by_cases hskip : skipped subFile.name
    · have hlisted : listed (subFile :: folder) = listed folder := by simp [listed, hskip]
      rw [menuLoop, if_pos hskip] at h
      rw [hlisted]
      exact ih h
    · have hlisted : listed (subFile :: folder) = subFile.name :: listed folder := by
        simp [listed, hskip]
      rw [menuLoop, if_neg hskip] at h
      obtain ⟨path, hpath, h⟩ := bind_eq_ok_iff.mp h
      obtain ⟨type, htype, h⟩ := bind_eq_ok_iff.mp h
      obtain ⟨line, hline, h⟩ := bind_eq_ok_iff.mp h
      obtain ⟨grown, -, h⟩ := bind_eq_ok_iff.mp h
      rw [hlisted]
      refine List.forall_mem_cons.mpr ⟨⟨fun hnil => ?_, path, type, hpath, htype⟩, ih h⟩
      rw [responseLine] at hline
      obtain ⟨_, -, hline⟩ := bind_eq_ok_iff.mp hline
      obtain ⟨c, hc, -⟩ := bind_eq_ok_iff.mp hline
      rw [lastByte, hnil] at hc
      cases hc

theorem menuLoop_of_listed_nil (typeOf : CStr → Except Stop GopherType)
    (pathFile clientSelector hostname : CStr) (port : Int) (response : Option CStr)
    {folder : List DirEntry} (h : listed folder = []) :
    menuLoop typeOf pathFile clientSelector hostname port folder response = .ok response := by
  induction folder with
  | nil => rfl
  | cons subFile folder ih =>
    by_cases hskip : skipped subFile.name
    · have hlisted : listed (subFile :: folder) = listed folder := by simp [listed, hskip]
      rw [menuLoop, if_pos hskip]
      exact ih (hlisted ▸ h)
    · simp [listed, hskip] at h

/-! ### The room for a line -/

/-- A line has room exactly when the port has no more than two digits that were not counted, or one
where a slash is put in. -/
theorem room_iff (name clientSelector hostname : CStr) (port : Int) :
    lineSize clientSelector hostname port name + 1 ≤ lineBuffer clientSelector hostname port name ↔
      (decimal port).strlen ≤ 6 ∨
        clientSelector.chars.getLast? = some slash ∧ (decimal port).strlen ≤ 7 := by
  have hcounted : (snprintf 6 (decimal port)).strlen = min 5 (decimal port).strlen := List.length_take
  rw [lineSize, lineBuffer, hcounted, below]
  split_ifs with hslash
  · rw [CStr.strlen_append]
    simp only [hslash, true_and]
    omega
  · rw [CStr.strlen_append, CStr.strlen_append]
    change _ + (_ + 1 + _) + _ + _ + _ + _ + _ + _ ≤ _ ↔ _
    simp only [hslash, false_and, or_false]
    omega

/-- The six or seven characters are those of these ports. -/
theorem room_iff_port (name clientSelector hostname : CStr) (port : Int) :
    lineSize clientSelector hostname port name + 1 ≤ lineBuffer clientSelector hostname port name ↔
      -99999 ≤ port ∧ port ≤ 999999 ∨
        clientSelector.chars.getLast? = some slash ∧ -999999 ≤ port ∧ port ≤ 9999999 := by
  have hsix : (decimal port).strlen ≤ 6 ↔ -99999 ≤ port ∧ port ≤ 999999 := by
    rw [strlen_decimal_le_iff (k := 5) (by decide)]
    omega
  have hseven : (decimal port).strlen ≤ 7 ↔ -999999 ≤ port ∧ port ≤ 9999999 := by
    rw [strlen_decimal_le_iff (k := 6) (by decide)]
    omega
  rw [room_iff, hsix, hseven]

/-- The room does not depend on the name, so one line that is cut off means that all are. -/
theorem sum_shownSize_eq_iff {clientSelector hostname : CStr} {port : Int} {names : List CStr}
    (hnames : names ≠ []) :
    (names.map (shownSize clientSelector hostname port)).sum =
        (names.map (lineSize clientSelector hostname port)).sum ↔
      -99999 ≤ port ∧ port ≤ 999999 ∨
        clientSelector.chars.getLast? = some slash ∧ -999999 ≤ port ∧ port ≤ 9999999 := by
  constructor
  · intro hsum
    by_contra hport
    have hcut : ∀ name, shownSize clientSelector hostname port name <
        lineSize clientSelector hostname port name := by
      intro name
      rw [← room_iff_port name clientSelector hostname port] at hport
      have hpos : 0 < lineBuffer clientSelector hostname port name := by
        rw [lineBuffer]
        omega
      rw [shownSize]
      omega
    have hless := List.sum_lt_sum_of_ne_nil hnames (shownSize clientSelector hostname port)
      (lineSize clientSelector hostname port) fun name _ => hcut name
    exact hless.ne hsum
  · intro hport
    refine congrArg List.sum (List.map_congr_left fun name _ => ?_)
    have hroom := (room_iff_port name clientSelector hostname port).mpr hport
    rw [shownSize]
    omega

theorem shownLine_of_room (type : GopherType) {name clientSelector hostname : CStr} {port : Int}
    (hroom : lineSize clientSelector hostname port name + 1 ≤
      lineBuffer clientSelector hostname port name) :
    shownLine type name clientSelector hostname port =
      itemLine type name clientSelector hostname port :=
  snprintf_of_lt (by rw [strlen_itemLine]; exact hroom)

/-! ### When a directory is listed -/

/-- What the listing of a folder should be: the item line of each entry, and the line with the dot. -/
def listing (types : CStr → GopherType) (clientSelector hostname : CStr) (port : Int)
    (folder : List DirEntry) : List Byte :=
  ((listed folder).flatMap fun name =>
    (itemLine (types name) name clientSelector hostname port).chars) ++ bytes ".\r\n"

/-- The bytes of the listing and its NUL. -/
def listingSize (clientSelector hostname : CStr) (port : Int) (folder : List DirEntry) : Nat :=
  ((listed folder).map (lineSize clientSelector hostname port)).sum + 4

theorem length_listing (types : CStr → GopherType) (clientSelector hostname : CStr) (port : Int)
    (folder : List DirEntry) :
    (listing types clientSelector hostname port folder).length + 1 =
      listingSize clientSelector hostname port folder := by
  have hlines : (listed folder).map (fun name =>
        (itemLine (types name) name clientSelector hostname port).chars.length) =
      (listed folder).map (lineSize clientSelector hostname port) := by
    apply List.map_congr_left
    intro name _
    exact strlen_itemLine (types name) name clientSelector hostname port
  rw [listing, listingSize, List.length_append, List.length_flatMap, hlines]
  rfl

theorem length_flatMap_shownLine (types : CStr → GopherType) (clientSelector hostname : CStr)
    (port : Int) (folder : List DirEntry) :
    ((listed folder).flatMap fun name =>
        (shownLine (types name) name clientSelector hostname port).chars).length =
      ((listed folder).map (shownSize clientSelector hostname port)).sum := by
  rw [List.length_flatMap]
  refine congrArg List.sum (List.map_congr_left fun name _ => ?_)
  exact strlen_shownLine (types name) name clientSelector hostname port

/-- A directory is listed exactly when the selector is not empty, the directory has an entry, each
entry gets a type, the port has no more characters than a line has bytes for, and the size of the
listing fits an `int`. -/
theorem listing_sent_iff {typeOf : CStr → Except Stop GopherType} {homedir clientSelector hostname : CStr}
    (hpath : (pathFile homedir clientSelector).strlen < pathMax) (hhost : hostname.strlen ≤ 255)
    (port : Int) (folder : List DirEntry) :
    (∃ types : CStr → GopherType, ∃ response : CStr,
        (∀ name ∈ listed folder,
          typeOf (below (pathFile homedir clientSelector) name) = .ok (types name)) ∧
        sendContentOfDir typeOf (pathFile homedir clientSelector) clientSelector hostname port
          (some folder) = .ok (some response) ∧
        response.chars = listing types clientSelector hostname port folder) ↔
      clientSelector.chars ≠ [] ∧ listed folder ≠ [] ∧
        (∀ name ∈ listed folder, ∃ type,
          typeOf (below (pathFile homedir clientSelector) name) = .ok type) ∧
        (-99999 ≤ port ∧ port ≤ 999999 ∨
          clientSelector.chars.getLast? = some slash ∧ -999999 ≤ port ∧ port ≤ 9999999) ∧
        listingSize clientSelector hostname port folder < 2 ^ 31 := by
  have hsetting (hsel : clientSelector.chars ≠ []) :
      LineSetting (pathFile homedir clientSelector) clientSelector hostname := by
    rw [pathFile, CStr.strlen_append] at hpath
    exact lineSetting_pathFile hsel hpath hhost
  constructor
  · rintro ⟨types, response, htypes, hsent, hchars⟩
    rw [sendContentOfDir] at hsent
    obtain ⟨out, hloop, hsent⟩ := bind_eq_ok_iff.mp hsent
    obtain ⟨ended, hend, hsent⟩ := bind_eq_ok_iff.mp hsent
    obtain rfl : ended = response := Option.some.inj (Except.ok.inj hsent)
    cases out with
    | none => cases hend
    | some text =>
      obtain ⟨hroom, hended⟩ := endMenu_eq_ok_iff.mp hend
      have hne : listed folder ≠ [] := by
        intro hnil
        have hnone := menuLoop_of_listed_nil typeOf (pathFile homedir clientSelector) clientSelector
          hostname port none hnil
        rw [hnone] at hloop
        cases hloop
      obtain ⟨first, hfirst⟩ := List.exists_mem_of_ne_nil _ hne
      have hsel : clientSelector.chars ≠ [] := (menuLoop_ok hloop first hfirst).1
      have hlength : text.strlen + 4 = listingSize clientSelector hostname port folder := by
        rw [← length_listing types, ← hchars, ← hended, CStr.chars_append, List.length_append]
        rfl
      refine ⟨hsel, hne, fun name hname => ⟨_, htypes name hname⟩, ?_, hlength ▸ hroom⟩
      -- the text has the lines that were written, and is as long as the item lines
      rcases menuLoop_shown (hsetting hsel) port types folder none htypes with
        ⟨out, hout, -, htext⟩ | ⟨⟨stop, hstop⟩, -⟩
      · obtain rfl : some text = out := Except.ok.inj (hloop.symm.trans hout)
        have hshown : text.strlen = ((listed folder).map (shownSize clientSelector hostname port)).sum := by
          rw [← length_flatMap_shownLine types]
          exact congrArg List.length htext
        rw [hshown, listingSize] at hlength
        exact (sum_shownSize_eq_iff hne).mp (Nat.add_right_cancel hlength)
      · cases hloop.symm.trans hstop
  · rintro ⟨hsel, hne, htyped, hport, hsize⟩
    obtain ⟨types, htypes⟩ : ∃ types : CStr → GopherType, ∀ name ∈ listed folder,
        typeOf (below (pathFile homedir clientSelector) name) = .ok (types name) := by
      refine ⟨fun name => (typeOf (below (pathFile homedir clientSelector) name)).toOption.getD .error,
        fun name hname => ?_⟩
      obtain ⟨type, htype⟩ := htyped name hname
      beta_reduce
      rw [htype]
      rfl
    have hline : ∀ type name, shownLine type name clientSelector hostname port =
        itemLine type name clientSelector hostname port := fun type name =>
      shownLine_of_room type ((room_iff_port name clientSelector hostname port).mpr hport)
    rcases menuLoop_shown (hsetting hsel) port types folder none htypes with
      ⟨out, hloop, hnone, htext⟩ | ⟨-, hbig⟩
    · obtain ⟨text, rfl⟩ : ∃ text, out = some text :=
        Option.ne_none_iff_exists'.mp fun h => hne (hnone.mp h).2
      simp only [hline] at htext
      have hchars : (text ++ CStr.lit ".\r\n").chars =
          listing types clientSelector hostname port folder :=
        congrArg (· ++ bytes ".\r\n") htext
      have hroom : text.strlen + 4 < 2 ^ 31 := by
        rw [← length_listing types, ← hchars, CStr.chars_append, List.length_append] at hsize
        exact hsize
      refine ⟨types, text ++ CStr.lit ".\r\n", htypes, ?_, hchars⟩
      rw [sendContentOfDir, hloop, ok_bind, endMenu_eq_ok_iff.mpr ⟨hroom, rfl⟩, ok_bind]
      rfl
    · change 2 ^ 31 ≤ 0 + _ + 1 at hbig
      rw [(sum_shownSize_eq_iff hne).mpr hport] at hbig
      rw [listingSize] at hsize
      omega

/-- The first request of a client, for the empty selector, and a request for an empty directory. -/
theorem listing_undefined :
    sendContentOfDir (fun _ => .ok .text) (CStr.lit "/srv/") (CStr.lit "") (CStr.lit "localhost") 7070
        (some [⟨CStr.lit "README", by decide, by decide, by decide⟩]) = .error .undefined ∧
      sendContentOfDir (fun _ => .ok .text) (CStr.lit "/srv/docs") (CStr.lit "docs")
        (CStr.lit "localhost") 7070 (some []) = .error .undefined := by
  decide +kernel

theorem listing_sent_readme :
    ∃ response, sendContentOfDir (fun _ => .ok .text) (CStr.lit "/srv/docs") (CStr.lit "docs")
        (CStr.lit "localhost") 7070 (some [⟨CStr.lit "README", by decide, by decide, by decide⟩]) =
          .ok (some response) ∧
      response.chars = bytes "0README\tdocs/README\tlocalhost\t7070\r\n.\r\n" := by
  obtain ⟨types, response, htypes, hsent, hchars⟩ := (@listing_sent_iff (fun _ => .ok .text)
    (CStr.lit "/srv/") (CStr.lit "docs") (CStr.lit "localhost") (by decide) (by decide) 7070
    [⟨CStr.lit "README", by decide, by decide, by decide⟩]).mpr
      ⟨by decide, by decide, fun _ _ => ⟨_, rfl⟩, by decide, by decide⟩
  refine ⟨response, hsent, ?_⟩
  have htype : types (CStr.lit "README") = .text :=
    (Except.ok.inj (htypes (CStr.lit "README") (by decide))).symm
  have hlisting : listing types (CStr.lit "docs") (CStr.lit "localhost") 7070
      [⟨CStr.lit "README", by decide, by decide, by decide⟩] =
      (itemLine (types (CStr.lit "README")) (CStr.lit "README") (CStr.lit "docs")
        (CStr.lit "localhost") 7070).chars ++ [] ++ bytes ".\r\n" := rfl
  rw [hchars, hlisting, htype]
  decide +kernel

end Sacagawea
