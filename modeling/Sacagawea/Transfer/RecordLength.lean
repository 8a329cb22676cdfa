import Mathlib.Data.Fin.VecNotation
import Sacagawea.Log.Protocol
import Sacagawea.Transfer.ThreadSender

/-!
# The length in front of a record

The log process takes a record out of the pipe by the length in front of it, and a reader of the log
finds its end by the newline. So it must have been formatted into a buffer with room for all of it,
which is allocated before the size of the file is known in digits.
-/

namespace Sacagawea

open Program

instance : Nonempty Tm := ⟨⟨0, 1, 1970, 0, 0, 0⟩⟩

/-- What is written to the pipe is the record, and its length. -/
def Call.WritesWhole (record : CStr) : Call → Prop
  | .writeLen len => len = record.strlen
  | .writeText text => text = record
  | _ => True

/-! ### What thread_sender writes -/

theorem keepsToOne_logTransfer (pathFile : CStr) (lenFile : Nat) (addr : CStr) :
    (logTransfer pathFile lenFile addr).KeepsToOne fun date =>
      Call.WritesWhole (logsString (dateString date) pathFile lenFile addr) := by
  refine .bind (p := perform .dateString) (fun _ => ⟨trivial, fun _ => trivial⟩)
    fun (date : Option Tm) => ?_
  cases date with
  | none => exact (makesOnly_fail trivial 5).keepsToOne (i := Classical.arbitrary Tm)
  | some date =>
    apply MakesOnly.keepsToOne (i := date)
    refine .ask_bind trivial fun (allocated : Bool) => ?_
    cases allocated with
    | false => exact makesOnly_log trivial
    | true =>
      refine .ask_bind trivial fun (formatted : Bool) => ?_
      cases formatted with
      | false => exact makesOnly_log trivial
      | true =>
        refine .ask_bind trivial fun (locked : Bool) => ?_
        cases locked with
        | false => exact makesOnly_log trivial
        | true => exact makesOnly_sendRecord trivial rfl rfl trivial trivial

/-- A run writes one record, of one date. -/
theorem keepsToOne_threadSender (rounds : Nat) (file : List Byte) (pathFile addr : CStr) :
    (threadSender rounds file pathFile addr).KeepsToOne fun date =>
      Call.WritesWhole (logsString (dateString date) pathFile file.length addr) := by
  refine .bind (p := perform .signal) (fun _ => ⟨trivial, fun _ => trivial⟩)
    fun (ignored : Bool) => ?_
  cases ignored with
  | false => exact (makesOnly_fail trivial 1).keepsToOne (i := Classical.arbitrary Tm)
  | true =>
    refine .bind (fun _ => makesOnly_sendLoop trivial (fun _ => trivial) file file.length 0)
      fun sent => ?_
    cases sent with
    | none => exact MakesOnly.keepsToOne (i := Classical.arbitrary Tm) trivial
    | some bytesSent =>
      refine .bind (p := perform .shutdown) (fun _ => ⟨trivial, fun _ => trivial⟩)
        fun (shut : Bool) => ?_
      cases shut with
      | false => exact (makesOnly_log trivial).keepsToOne (i := Classical.arbitrary Tm)
      | true =>
        refine .bind (fun _ => makesOnly_recvLoop trivial trivial rounds) fun closed => ?_
        split_ifs
        · exact keepsToOne_logTransfer pathFile file.length addr
        · exact MakesOnly.keepsToOne (i := Classical.arbitrary Tm) trivial

/-! ### The record -/

/-- The record has room in its buffer, with its NUL. It ends in a newline, and its length is read back
from the pipe. -/
structure Uncut (date : Tm) (pathFile : CStr) (lenFile : Nat) (client : Endpoint) : Prop where
  room : (recordText (dateString date) pathFile lenFile (addrString client)).strlen + 1 ≤
    lenLogsString (dateString date) pathFile (addrString client)
  newline : (recordText (dateString date) pathFile lenFile (addrString client)).chars.getLast? = some LF
  length : pathFile.strlen < pathMax →
    decodeInt (encodeInt (recordText (dateString date) pathFile lenFile (addrString client)).strlen) =
      (recordText (dateString date) pathFile lenFile (addrString client)).strlen

theorem uncut (date : Tm) (pathFile : CStr) {lenFile : Nat} (hsize : lenFile < 2 ^ 64)
    (client : Endpoint) : Uncut date pathFile lenFile client := by
  have hroom := strlen_recordText_lt (dateString date) pathFile (addrString client) hsize
  refine ⟨hroom, List.getLast?_concat, fun hpath => decodeInt_encodeInt (hroom.trans ?_)⟩
  have hdate : (dateString date).strlen ≤ 22 := List.length_take_le 22 _
  have haddr : (addrString client).strlen ≤ 21 := List.length_take_le 21 _
  rw [pathMax] at hpath
  rw [lenLogsString]
  omega

/-- Every record is whole, and in a run of `thread_sender` what is written to the pipe is the record and
its length. -/
theorem record_uncut {rounds : Nat} {file : List Byte} {pathFile : CStr} {client : Endpoint}
    {trace : Trace Answer} {q : Serve Unit} (hfile : file.length < 2 ^ 64)
    (h : (threadSender rounds file pathFile (addrString client)).Steps trace q) :
    (∀ date, Uncut date pathFile file.length client) ∧
      ∃ date, ∀ event ∈ trace,
        event.1.WritesWhole (recordText (dateString date) pathFile file.length (addrString client)) := by
  refine ⟨fun date => uncut date pathFile hfile client, ?_⟩
  obtain ⟨date, hdate⟩ := keepsToOne_threadSender rounds file pathFile (addrString client) trace q h
  have hrecord : logsString (dateString date) pathFile file.length (addrString client) =
      recordText (dateString date) pathFile file.length (addrString client) := logsString_eq _ _ _ hfile
  exact ⟨date, hrecord ▸ hdate⟩

/-- The client of `smallAddr`. -/
def smallClient : Endpoint := ⟨![10, 0, 0, 1], 20480⟩

theorem addrString_smallClient : addrString smallClient = smallAddr := by
  decide +kernel

theorem record_uncut_twoSends :
    ∃ date, ∀ event ∈ twoSends,
      event.1.WritesWhole (recordText (dateString date) smallPath 2 (addrString smallClient)) := by
  have hrun : (threadSender 1 (bytes "hi") smallPath (addrString smallClient)).Steps twoSends (.ret ()) := by
    rw [addrString_smallClient]
    exact steps_twoSends
  exact (record_uncut (by decide) hrun).2

end Sacagawea
