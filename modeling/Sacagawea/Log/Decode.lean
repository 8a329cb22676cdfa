import Mathlib.Data.Fin.Tuple.Reflection
import Sacagawea.Lib.Split
import Sacagawea.Log.Conservation
import Sacagawea.Log.Record

/-!
# Reading the log

What a reader of sacagawea.log can learn from it. A record is a line when the path has no newline,
which the code does not see to. The path stands in the middle of the line without quotes, between a
date of fixed length and fields that have no space, so a reader finds its ends from both sides.
-/

namespace Sacagawea

/-- A file that has been sent to a client. -/
structure FileTransfer where
  date : Tm
  path : CStr
  lenFile : Nat
  client : Endpoint
  pathLen : path.strlen < pathMax
  sizeT : lenFile < 2 ^ 64

/-- The record of a transfer without its newline. -/
def FileTransfer.line (t : FileTransfer) : List Byte :=
  (dateString t.date).chars ++ space :: t.path.chars ++ space :: digits t.lenFile ++
    space :: bytes "B" ++ space :: (addrString t.client).chars

theorem chars_logsString (t : FileTransfer) :
    (logsString (dateString t.date) t.path t.lenFile (addrString t.client)).chars = t.line ++ [LF] := by
  rw [logsString_eq _ _ _ t.sizeT]
  simp only [CStr.chars_append, FileTransfer.line]
  have hblank : (CStr.lit " ").chars = [space] := by decide
  have hunit : (CStr.lit " B ").chars = space :: (bytes "B" ++ [space]) := by decide
  have hend : (CStr.lit "\n").chars = [LF] := by decide
  rw [hblank, hunit, hend]
  simp [number]

/-! ### The code of a reader -/

/-- The decimal number in a text. -/
def readNumber (text : List Byte) : Nat := text.foldl (fun n c => 10 * n + (c.toNat - 48)) 0

/-- The port that has the two bytes of a number, the other way round. -/
def ntohs (n : Nat) : UInt16 := .ofNat (n % 256 * 256 + n / 256)

def readAddr (text : List Byte) : Option Endpoint := do
  let (ip, port) ← Split.cutLast colon text
  match ip.splitOn dot with
  | [a, b, c, d] =>
    some ⟨![.ofNat (readNumber a), .ofNat (readNumber b), .ofNat (readNumber c), .ofNat (readNumber d)],
      ntohs (readNumber port)⟩
  | _ => none

/-- The path, the size and the client in a line, from its end. The date takes 22 characters. -/
def decodeLine (line : List Byte) : Option (List Byte × Nat × Endpoint) := do
  let (line, addr) ← Split.cutLast space line
  let (line, _) ← Split.cutLast space line
  let (line, size) ← Split.cutLast space line
  let client ← readAddr addr
  return (line.drop 23, readNumber size, client)

/-- The lines of the log, which each end in a newline. -/
def logLines (logFile : List Byte) : List (List Byte) := (logFile.splitOn LF).dropLast

/-! ### A line -/

theorem readNumber_digits (n : Nat) : readNumber (digits n) = n := by
  have hfold : ∀ (cs : List Char) (init : Nat), (∀ c ∈ cs, c.isDigit) →
      (cs.map Char.toUInt8).foldl (fun n c => 10 * n + (c.toNat - 48)) init =
        Nat.ofDigitChars 10 cs init := by
    intro cs
    induction cs with
    | nil => exact fun _ _ => rfl
    | cons c cs ih =>
      intro init hdigits
      obtain ⟨hc, hcs⟩ := List.forall_mem_cons.mp hdigits
      rw [List.map_cons, List.foldl_cons, ih _ hcs, (toNat_toUInt8_of_isDigit hc).1,
        Nat.ofDigitChars_cons]
      rfl
  rw [readNumber, digits, hfold _ 0 fun c hc => Nat.isDigit_of_mem_toDigits (by decide) (by decide) hc]
  exact Nat.ofDigitChars_ten_toDigits

theorem ntohs_htons (port : UInt16) : ntohs (htons port) = port := by
  have hlt := port.toNat_lt
  apply UInt16.toNat_inj.mp
  have hhigh : (port.toNat % 256 * 256 + port.toNat / 256) % 256 = port.toNat / 256 := by omega
  have hlow : (port.toNat % 256 * 256 + port.toNat / 256) / 256 = port.toNat % 256 := by omega
  rw [ntohs, htons, UInt16.toNat_ofNat', hhigh, hlow, Nat.div_add_mod', Nat.mod_eq_of_lt hlt]

theorem not_mem_digits {c : Byte} (h : ¬ (48 ≤ c ∧ c ≤ 57)) (n : Nat) : c ∉ digits n :=
  fun hmem => h (mem_digits hmem)

/-- The address is read back. -/
theorem readAddr_addrString (client : Endpoint) : readAddr (addrString client).chars = some client := by
  have hdot : (CStr.lit ".").chars = [dot] := by decide
  have hcolon : (CStr.lit ":").chars = [colon] := by decide
  have hip : (inetNtoa client.ip).chars = [dot].intercalate [digits (client.ip 0).toNat,
      digits (client.ip 1).toNat, digits (client.ip 2).toNat, digits (client.ip 3).toNat] := by
    simp [inetNtoa, hdot, number]
  have hsplit : (inetNtoa client.ip).chars.splitOn dot = [digits (client.ip 0).toNat,
      digits (client.ip 1).toNat, digits (client.ip 2).toNat, digits (client.ip 3).toNat] := by
    rw [hip]
    apply List.splitOn_intercalate
    · simp [not_mem_digits (c := dot) (by decide)]
    · exact List.cons_ne_nil _ _
  have hchars : (addrString client).chars =
      (inetNtoa client.ip).chars ++ colon :: digits (htons client.port) := by
    rw [addrString_eq]
    simp [hcolon, number]
  rw [readAddr, hchars, Split.cutLast_append _ (not_mem_digits (by decide) _)]
  simp only [Option.bind_eq_bind, Option.bind_some, hsplit, readNumber_digits, ntohs_htons,
    UInt8.ofNat_toNat, Option.some.injEq]
  have hparts : ![client.ip 0, client.ip 1, client.ip 2, client.ip 3] = client.ip :=
    FinVec.etaExpand_eq client.ip
  rw [hparts]

theorem length_dateString (tm : Tm) : (dateString tm).chars.length = 22 := by
  have hpad : ∀ width n, width ≤ (padded width n).length := by
    intro width n
    rw [padded, List.length_leftpad]
    exact Nat.le_max_left _ _
  have hmonth : (monthName tm.mon).length = 3 := by
    generalize tm.mon = mon
    revert mon
    decide
  have hday := hpad 2 tm.mday
  have hyear := hpad 4 tm.year
  have hhour := hpad 2 tm.hour
  have hmin := hpad 2 tm.min
  have hsec := hpad 2 tm.sec
  have hlong : 22 ≤ (dateText tm).length := by
    simp only [dateText, List.length_cons, List.length_append, hmonth]
    omega
  change ((dateText tm).take 22).length = 22
  rw [List.length_take, Nat.min_eq_left hlong]

theorem not_mem_addrString {c : Byte} (hdigit : ¬ (48 ≤ c ∧ c ≤ 57)) (hdot : c ≠ dot) (hcolon : c ≠ colon)
    (client : Endpoint) : c ∉ (addrString client).chars := by
  have hno := not_mem_digits hdigit
  have hdotText : (CStr.lit ".").chars = [dot] := by decide
  have hcolonText : (CStr.lit ":").chars = [colon] := by decide
  rw [addrString_eq]
  simp [inetNtoa, number, hdotText, hcolonText, hno, hdot, hcolon]

/-- Whatever the path, the fields of a line are read back. -/
theorem decodeLine_line (t : FileTransfer) :
    decodeLine t.line = some (t.path.chars, t.lenFile, t.client) := by
  have hdate : (dateString t.date).chars.length = 22 := length_dateString t.date
  have haddr : space ∉ (addrString t.client).chars :=
    not_mem_addrString (by decide) (by decide) (by decide) t.client
  have hsize : space ∉ digits t.lenFile := not_mem_digits (by decide) _
  have hpath : ((dateString t.date).chars ++ space :: t.path.chars).drop 23 = t.path.chars := by
    rw [← List.singleton_append, ← List.append_assoc]
    exact List.drop_left' (by rw [List.length_append, hdate]; rfl)
  have hunit : space ∉ bytes "B" := by decide
  simp only [decodeLine, FileTransfer.line, Split.cutLast_append _ haddr, Split.cutLast_append _ hunit,
    Split.cutLast_append _ hsize, readAddr_addrString, readNumber_digits, hpath, Option.bind_eq_bind,
    Option.bind_some, Option.pure_def]

/-- A line has a newline in it where the path has one. -/
theorem lf_mem_line_iff (t : FileTransfer) : LF ∈ t.line ↔ LF ∈ t.path.chars := by
  have hdate : LF ∉ (dateString t.date).chars := fun hmem =>
    not_mem_dateText t.date (by decide) (by decide) (by decide) (List.mem_of_mem_take hmem)
  have haddr : LF ∉ (addrString t.client).chars :=
    not_mem_addrString (by decide) (by decide) (by decide) t.client
  have hsize : LF ∉ digits t.lenFile := not_mem_digits (by decide) _
  have hunit : LF ∉ bytes "B" := by decide
  have hblank : LF ≠ space := by decide
  simp [FileTransfer.line, hdate, haddr, hsize, hunit, hblank]

/-! ### The log of a run -/

/-- The record that `thread_sender` writes. -/
def FileTransfer.record (t : FileTransfer) : Record where
  text := logsString (dateString t.date) t.path t.lenFile (addrString t.client)
  fits := by
    have hpath := t.pathLen
    have hdate : (dateString t.date).strlen = 22 := length_dateString t.date
    have haddr : (addrString t.client).strlen ≤ 21 := List.length_take_le 21 _
    have hcut : (logsString (dateString t.date) t.path t.lenFile (addrString t.client)).strlen ≤
        lenLogsString (dateString t.date) t.path (addrString t.client) - 1 := List.length_take_le _ _
    rw [lenLogsString] at hcut
    rw [pathMax] at hpath
    omega

/-- The senders of some transfers. -/
def transferLog {ι : Type} (transfers : ι → FileTransfer) (capacity : Option Nat) : LogConfig ι where
  record i := (transfers i).record
  capacity := capacity

/-- The log is read back as the transfers exactly when no path has a newline. -/
theorem log_read_iff {ι : Type} [DecidableEq ι] {transfers : ι → FileTransfer} {capacity : Option Nat}
    {s : LogState ι} (h : (logProtocol (transferLog transfers capacity)).Reach (fun _ a => a.Transfers) s)
    (hread : s.beingRead = []) (hpipe : s.encoded = []) :
    (logLines s.logFile).map decodeLine =
        s.written.map (fun i => some ((transfers i).path.chars, (transfers i).lenFile, (transfers i).client)) ↔
      ∀ i ∈ s.written, LF ∉ (transfers i).path.chars := by
  set lines := s.written.map fun i => (transfers i).line with hlines
  have hlog : s.logFile = lines.flatMap (· ++ [LF]) := by
    have hleft := logged_and_left h
    rw [hread, hpipe, Header.unframe_nil, List.flatten_nil, List.append_nil, List.append_nil] at hleft
    rw [hleft, hlines, List.flatMap_map]
    exact List.flatMap_congr fun i _ => chars_logsString (transfers i)
  have hcut : logLines s.logFile = lines.flatMap (List.splitOn LF) := by
    rw [logLines, hlog, Split.splitOn_lines, List.dropLast_concat]
  rw [hcut]
  constructor
  · intro hall i hi
    have hlength : (lines.flatMap (List.splitOn LF)).length = lines.length := by
      have hcount := congrArg List.length hall
      rw [List.length_map, List.length_map] at hcount
      rw [hcount, hlines, List.length_map]
    have hclean := Split.not_mem_of_length_splitOn_lines hlength
    rw [← lf_mem_line_iff]
    exact hclean _ (List.mem_map.mpr ⟨i, hi, rfl⟩)
  · intro hclean
    have hplain : ∀ l ∈ lines, LF ∉ l := by
      intro l hl
      obtain ⟨i, hi, rfl⟩ := List.mem_map.mp hl
      exact (lf_mem_line_iff _).not.mpr (hclean i hi)
    rw [Split.flatMap_splitOn_of_not_mem hplain, hlines, List.map_map]
    exact List.map_congr_left fun i _ => decodeLine_line (transfers i)

/-- The log of one sender, of a file of two bytes for port 80 of a client. -/
def smallLog (path : CStr) (h : path.strlen < pathMax) : LogConfig Unit :=
  transferLog (fun _ => ⟨⟨0, 1, 2020, 12, 30, 0⟩, path, 2, ⟨![10, 0, 0, 1], 80⟩, h, by decide⟩) none

/-- The log process waits, the sender writes its record of 51 bytes, and it is logged. -/
def loggedOnce : List (LogAction Unit) :=
  [.logLock, .wait] ++ transfer () ++ [.resume, .readLen, .readBody 51, .append, .next]

def loggedSmall (path : CStr) (h : path.strlen < pathMax) : LogState Unit :=
  (logProtocol (smallLog path h)).after .start loggedOnce

/-- The name of a file has a newline, and its transfer takes two lines. -/
theorem newline_takes_two_lines :
    (logProtocol (smallLog (CStr.lit "/srv/a\nb") (by decide))).Reach (fun _ a => a.Transfers)
        (loggedSmall (CStr.lit "/srv/a\nb") (by decide)) ∧
      (loggedSmall (CStr.lit "/srv/a\nb") (by decide)).beingRead = [] ∧
      (loggedSmall (CStr.lit "/srv/a\nb") (by decide)).encoded = [] ∧
      (loggedSmall (CStr.lit "/srv/a\nb") (by decide)).written = [()] ∧
      (logLines (loggedSmall (CStr.lit "/srv/a\nb") (by decide)).logFile).length = 2 := by
  have hruns : (logProtocol (smallLog (CStr.lit "/srv/a\nb") (by decide))).Runs
      (fun _ a => a.Transfers) .start loggedOnce := by
    decide +kernel
  refine ⟨Transition.Reach.after .init hruns, ?_, ?_, ?_, ?_⟩ <;> decide +kernel

theorem log_read_small :
    (logLines (loggedSmall (CStr.lit "/srv/a b") (by decide)).logFile).map decodeLine =
      [some (bytes "/srv/a b", 2, ⟨![10, 0, 0, 1], 80⟩)] := by
  have hruns : (logProtocol (smallLog (CStr.lit "/srv/a b") (by decide))).Runs
      (fun _ a => a.Transfers) .start loggedOnce := by
    decide +kernel
  have hreach : (logProtocol (smallLog (CStr.lit "/srv/a b") (by decide))).Reach
      (fun _ a => a.Transfers) (loggedSmall (CStr.lit "/srv/a b") (by decide)) :=
    Transition.Reach.after .init hruns
  have hwritten : (loggedSmall (CStr.lit "/srv/a b") (by decide)).written = [()] := by
    decide +kernel
  have hread := (log_read_iff hreach (by decide +kernel) (by decide +kernel)).mpr fun _ _ => by decide
  rw [hwritten] at hread
  exact hread

end Sacagawea
