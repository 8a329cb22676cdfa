import Sacagawea.Base.Settings

/-!
# The text of a log record

When a file has been sent, `thread_sender` formats a line with the date, the path, the size and the
address of the client, in a buffer it sizes by hand. The address was formatted by `accept_wrapper`,
from a `sockaddr_in` whose port is in network byte order.
-/

namespace Sacagawea

def space : Byte := 32
def colon : Byte := 58

/-! ### The date -/

/-- The members of `struct tm` that are used, with the year as `tm_year + 1900`. -/
structure Tm where
  mon : Fin 12
  mday : Nat
  year : Nat
  hour : Nat
  min : Nat
  sec : Nat

/-- The letters `asctime` has for a month. -/
def monthName (mon : Fin 12) : List Byte :=
  bytes (["Jan", "Feb", "Mar", "Apr", "May", "Jun", "Jul", "Aug", "Sep", "Oct", "Nov", "Dec"].getD mon "")

/-- `%0nd` of a number that is not negative. -/
def padded (width n : Nat) : List Byte := (digits n).leftpad width 48

def dateText (tm : Tm) : List Byte :=
  91 :: (monthName tm.mon ++ space :: (padded 2 tm.mday ++ space :: (padded 4 tm.year ++
    space :: (padded 2 tm.hour ++ colon :: (padded 2 tm.min ++ colon :: (padded 2 tm.sec ++ [93]))))))

theorem mem_padded {width n : Nat} {c : Byte} (h : c ∈ padded width n) : 48 ≤ c ∧ c ≤ 57 := by
  rw [padded, List.leftpad, List.mem_append] at h
  rcases h with h | h
  · rw [List.eq_of_mem_replicate h]
    decide
  · exact mem_digits h

theorem not_mem_dateText (tm : Tm) {c : Byte} (hmonth : ∀ mon, c ∉ monthName mon)
    (hdigit : ¬ (48 ≤ c ∧ c ≤ 57)) (hother : c ∉ [91, space, colon, 93]) : c ∉ dateText tm := by
  have hpad : ∀ width n, c ∉ padded width n := fun width n h => hdigit (mem_padded h)
  simp only [List.mem_cons, List.not_mem_nil, or_false, not_or] at hother
  simp [dateText, hmonth, hpad, hother]

/-- `date_string`: what fits twenty-two characters. -/
def dateString (tm : Tm) : CStr :=
  snprintf 23 ⟨dateText tm, not_mem_dateText tm (by decide) (by decide) (by decide)⟩

/-! ### The address -/

/-- The address and the port of a client. -/
structure Endpoint where
  ip : Fin 4 → Byte
  port : UInt16

/-- The port as it stands in `sin_port`, on a machine with the low byte first. -/
def htons (port : UInt16) : Nat := port.toNat % 256 * 256 + port.toNat / 256

/-- `%d` of a number that is not negative. -/
def number (n : Nat) : CStr := ⟨digits n, nul_not_mem_digits n⟩

def inetNtoa (ip : Fin 4 → Byte) : CStr :=
  number (ip 0).toNat ++ CStr.lit "." ++ number (ip 1).toNat ++ CStr.lit "." ++ number (ip 2).toNat ++
    CStr.lit "." ++ number (ip 3).toNat

/-- The `addr` of a client. -/
def addrString (client : Endpoint) : CStr :=
  snprintf addrMaxlen (inetNtoa client.ip ++ CStr.lit ":" ++ number (htons client.port))

/-! ### The record -/

/-- The `len_logs_string` that is allocated. -/
def lenLogsString (ds pathFile addr : CStr) : Nat :=
  (ds.strlen + 1) + (pathFile.strlen + 1) + 24 + (addr.strlen + 2)

def logsString (ds pathFile : CStr) (lenFile : Nat) (addr : CStr) : CStr :=
  snprintf (lenLogsString ds pathFile addr) (ds ++ CStr.lit " " ++ pathFile ++ CStr.lit " " ++
    number lenFile ++ CStr.lit " B " ++ addr ++ CStr.lit "\n")

theorem strlen_number_le {n k : Nat} (hk : 0 < k) (h : n < 10 ^ k) : (number n).strlen ≤ k := by
  change (digits n).length ≤ k
  rw [digits, List.length_map]
  exact (Nat.length_toDigits_le_iff (by decide) hk).mpr h

/-- The address fits its array. -/
theorem addrString_eq (client : Endpoint) :
    addrString client = inetNtoa client.ip ++ CStr.lit ":" ++ number (htons client.port) := by
  have hbyte : ∀ i, (number (client.ip i).toNat).strlen ≤ 3 := fun i =>
    strlen_number_le (by decide) (Nat.lt_trans (client.ip i).toNat_lt (by decide))
  have hport : (number (htons client.port)).strlen ≤ 5 := by
    have hlt := client.port.toNat_lt
    apply strlen_number_le (by decide)
    rw [htons]
    omega
  have hdot : (CStr.lit ".").strlen = 1 := by decide
  have hcolon : (CStr.lit ":").strlen = 1 := by decide
  have h₀ := hbyte 0
  have h₁ := hbyte 1
  have h₂ := hbyte 2
  have h₃ := hbyte 3
  apply snprintf_of_lt
  simp only [inetNtoa, CStr.strlen_append, hdot, hcolon, addrMaxlen]
  omega

/-- The text of a record. -/
def recordText (ds pathFile : CStr) (lenFile : Nat) (addr : CStr) : CStr :=
  ds ++ CStr.lit " " ++ pathFile ++ CStr.lit " " ++ number lenFile ++ CStr.lit " B " ++ addr ++
    CStr.lit "\n"

theorem strlen_recordText (ds pathFile addr : CStr) (lenFile : Nat) :
    (recordText ds pathFile lenFile addr).strlen =
      ds.strlen + pathFile.strlen + (number lenFile).strlen + addr.strlen + 6 := by
  have hblank : (CStr.lit " ").strlen = 1 := by decide
  have hunit : (CStr.lit " B ").strlen = 3 := by decide
  have hend : (CStr.lit "\n").strlen = 1 := by decide
  simp only [recordText, CStr.strlen_append, hblank, hunit, hend]
  omega

/-- The size of a file has twenty digits at most, and the buffer has twenty-four bytes for it. -/
theorem strlen_recordText_lt (ds pathFile addr : CStr) {lenFile : Nat} (h : lenFile < 2 ^ 64) :
    (recordText ds pathFile lenFile addr).strlen < lenLogsString ds pathFile addr := by
  have hsize : (number lenFile).strlen ≤ 20 :=
    strlen_number_le (by decide) (Nat.lt_trans h (by decide))
  rw [strlen_recordText, lenLogsString]
  omega

/-- The record fits the buffer that is allocated for it. -/
theorem logsString_eq (ds pathFile addr : CStr) {lenFile : Nat} (h : lenFile < 2 ^ 64) :
    logsString ds pathFile lenFile addr = ds ++ CStr.lit " " ++ pathFile ++ CStr.lit " " ++
      number lenFile ++ CStr.lit " B " ++ addr ++ CStr.lit "\n" :=
  snprintf_of_lt (strlen_recordText_lt ds pathFile addr h)

end Sacagawea
