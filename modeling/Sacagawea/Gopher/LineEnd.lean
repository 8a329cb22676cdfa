import Sacagawea.Gopher.Listing
import Sacagawea.Server.Main

/-!
# The end of a menu line

The size of a line is summed up before the line is written. Of the port it counts what fits an array
of six bytes, while the line is written with the whole number. Two bytes are counted that the line
does not have, and one of them goes to the slash behind the selector.
-/

namespace Sacagawea

/-- A line that is cut off ends in the port or in the CR behind it. -/
theorem getLast?_shownLine_of_cut (type : GopherType) {name clientSelector hostname : CStr} {port : Int}
    (hcut : lineBuffer clientSelector hostname port name ≤ lineSize clientSelector hostname port name) :
    (shownLine type name clientSelector hostname port).chars.getLast? ≠ some LF := by
  set front := type.toCStr ++ name ++ CStr.lit "\t" ++ below clientSelector name ++ CStr.lit "\t" ++
    hostname ++ CStr.lit "\t" with hfront
  set back := (decimal port).chars ++ [CR] with hback
  have hline : (itemLine type name clientSelector hostname port).chars = front.chars ++ back ++ [LF] := by
    rw [itemLine, hfront, hback]
    simp only [CStr.chars_append, List.append_assoc]
    rfl
  have hsize : front.strlen + back.length + 1 = lineSize clientSelector hostname port name := by
    rw [← strlen_itemLine type]
    change _ = (itemLine type name clientSelector hostname port).chars.length
    simp only [hline, List.length_append, List.length_singleton, CStr.strlen]
  have hroom : front.strlen + 1 < lineBuffer clientSelector hostname port name := by
    have hback_length : back.length = (decimal port).strlen + 1 := List.length_append
    have hcounted : (snprintf 6 (decimal port)).strlen = min 5 (decimal port).strlen := List.length_take
    have hdir := strlen_below_le clientSelector name
    rw [hback_length, lineSize] at hsize
    rw [lineBuffer, hcounted]
    omega
  have hno : LF ∉ back := by
    rw [hback, List.mem_append, List.mem_singleton, not_or]
    refine ⟨fun hmem => ?_, by decide⟩
    rcases mem_decimal hmem with h | h
    · exact absurd h (by decide)
    · exact absurd h.1 (by decide)
  have htake : (shownLine type name clientSelector hostname port).chars =
      front.chars ++ back.take (lineBuffer clientSelector hostname port name - 1 - front.strlen) := by
    change (itemLine type name clientSelector hostname port).chars.take _ = _
    rw [hline, List.take_append_of_le_length, List.take_append, List.take_of_length_le]
    · rfl
    · simp only [CStr.strlen] at hroom
      omega
    · rw [List.length_append]
      simp only [CStr.strlen] at hsize
      omega
  have hne : back.take (lineBuffer clientSelector hostname port name - 1 - front.strlen) ≠ [] := by
    rw [Ne, List.take_eq_nil_iff, not_or]
    exact ⟨by omega, by simp [hback]⟩
  rw [htake, List.getLast?_append_of_ne_nil _ hne]
  intro hlast
  exact hno (List.mem_of_mem_take (List.mem_of_getLast? hlast))

/-- So a line keeps its CR LF exactly when it has room. -/
theorem ends_crlf_iff (type : GopherType) {name clientSelector hostname : CStr} (port : Int)
    (hname : name.strlen ≤ maxFileName) (hselector : clientSelector.chars ≠ [])
    (hlength : clientSelector.strlen < pathMax) (hhost : hostname.strlen ≤ 255) :
    (∃ line, responseLine type name clientSelector hostname port = .ok line ∧ crlf <:+ line.chars) ↔
      lineSize clientSelector hostname port name + 1 ≤ lineBuffer clientSelector hostname port name := by
  have hsetting : LineSetting clientSelector clientSelector hostname :=
    ⟨hselector, hselector, hlength, hhost⟩
  rw [responseLine_eq type hname hsetting]
  constructor
  · rintro ⟨line, hline, hends⟩
    obtain rfl := Except.ok.inj hline
    by_contra hcut
    refine getLast?_shownLine_of_cut type (Nat.le_of_lt_succ (Nat.lt_of_not_le hcut)) ?_
    obtain ⟨front, hfront⟩ := hends
    rw [← hfront, List.getLast?_append_of_ne_nil _ (by decide)]
    rfl
  · intro hroom
    refine ⟨_, rfl, ?_⟩
    rw [shownLine_of_room type hroom, itemLine, CStr.chars_append]
    exact List.suffix_append _ _

/-- A line is written whole exactly when its port has no more characters than there are bytes for: six,
and seven behind a selector that ends in a slash. -/
theorem line_uncut_iff (type : GopherType) {name clientSelector hostname : CStr} (port : Int)
    (hname : name.strlen ≤ maxFileName) (hselector : clientSelector.chars ≠ [])
    (hlength : clientSelector.strlen < pathMax) (hhost : hostname.strlen ≤ 255) :
    (lineSize clientSelector hostname port name + 1 ≤ lineBuffer clientSelector hostname port name ∧
        ∃ line, responseLine type name clientSelector hostname port = .ok line ∧ crlf <:+ line.chars) ↔
      -99999 ≤ port ∧ port ≤ 999999 ∨
        clientSelector.chars.getLast? = some slash ∧ -999999 ≤ port ∧ port ≤ 9999999 := by
  rw [ends_crlf_iff type port hname hselector hlength hhost, and_self, room_iff_port]

/-- A server started with `-P 1000070` listens on port 17030, and its lines lack the LF. -/
theorem port1000070_cut :
    ∃ settings server, mainSettings (startedWith (CStr.lit "1000070")) = .ok settings ∧
      ((serverRun settings).after (serverRun settings).init (openingOf (toPort80 true))).acceptor.server =
        some server ∧
      server.Listens 17030 ∧
      (responseLine .text (CStr.lit "README") (CStr.lit "docs") settings.hostname.str
          settings.port).map CStr.chars = .ok (bytes "0README\tdocs/README\tlocalhost\t1000070\r") :=
  ⟨_, _, rfl, rfl, rfl, by decide +kernel⟩

theorem line_uncut_port70 :
    ∃ line, responseLine .text (CStr.lit "README") (CStr.lit "docs") (CStr.lit "localhost") 70 = .ok line ∧
      crlf <:+ line.chars :=
  ((line_uncut_iff .text 70 (by decide) (by decide) (by decide) (by decide)).mpr (by decide)).2

end Sacagawea
