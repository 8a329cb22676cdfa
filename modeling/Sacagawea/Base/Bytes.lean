import Mathlib.Algebra.Order.Ring.Int
import Mathlib.Data.List.Basic
import Mathlib.Data.List.Infix
import Mathlib.Data.List.TakeWhile

/-!
# Bytes, C strings and C integers

The C data the server works on. A `char` is a byte, an array of `char` is a list of bytes whose
length is the size of the array, and a string is what the string functions see of an array: the
bytes before the first NUL. `CStr` carries that as a field, so that no string of the model contains
a NUL.

A function of the source that can end the program, or do something C leaves undefined, returns
`Except Stop`.
-/

namespace Sacagawea

abbrev Byte := UInt8

def bytes (s : String) : List Byte := s.toList.map Char.toUInt8

def NUL : Byte := 0
def TAB : Byte := 9
def LF : Byte := 10
def CR : Byte := 13
def quote : Byte := 39
def dot : Byte := 46
def slash : Byte := 47
def backslash : Byte := 92

def crlf : List Byte := [CR, LF]

/-- How a call can end without returning: by `exit(code)`, or in an access C leaves undefined. -/
inductive Stop where
  | exit (code : Nat)
  | undefined
  deriving DecidableEq, Repr

@[simp] theorem ok_bind {α β : Type} (a : α) (f : α → Except Stop β) : (Except.ok a >>= f) = f a := (rfl)

@[simp] theorem error_bind {α β : Type} (stop : Stop) (f : α → Except Stop β) :
    (Except.error stop >>= f) = .error stop := (rfl)

theorem bind_eq_ok_iff {α β : Type} {x : Except Stop α} {f : α → Except Stop β} {b : β} :
    (x >>= f) = .ok b ↔ ∃ a, x = .ok a ∧ f a = .ok b := by
  cases x with
  | error stop => exact iff_of_false nofun nofun
  | ok a =>
    rw [ok_bind]
    constructor
    · exact fun h => ⟨a, rfl, h⟩
    · intro ⟨_, hok, h⟩
      cases hok
      exact h

theorem toOption_eq_some_iff {α : Type} {x : Except Stop α} {a : α} :
    x.toOption = some a ↔ x = .ok a := by
  cases x <;> simp [Except.toOption]

theorem forall_bne_of_not_mem {c : Byte} {text : List Byte} (h : c ∉ text) :
    ∀ d ∈ text, (d != c) = true := by
  intro d hd
  rw [bne_iff_ne]
  rintro rfl
  exact h hd

/-! ### Strings -/

/-- A C string: the bytes before the terminating NUL. -/
@[ext] structure CStr where
  chars : List Byte
  noNul : NUL ∉ chars
  deriving DecidableEq

namespace CStr

/-- The string that starts at the beginning of an array. -/
def ofBuffer (buf : List Byte) : CStr where
  chars := buf.takeWhile (· != NUL)
  noNul h := by simpa using List.mem_takeWhile_imp h

theorem chars_ofBuffer (buf : List Byte) : (ofBuffer buf).chars = buf.takeWhile (· != NUL) := rfl

def lit (s : String) (h : NUL ∉ bytes s := by decide) : CStr := ⟨bytes s, h⟩

def strlen (s : CStr) : Nat := s.chars.length

/-- `strcat`. -/
instance : Append CStr where
  append s t := ⟨s.chars ++ t.chars, by simp [s.noNul, t.noNul]⟩

@[simp] theorem chars_append (s t : CStr) : (s ++ t).chars = s.chars ++ t.chars := rfl

@[simp] theorem strlen_append (s t : CStr) : (s ++ t).strlen = s.strlen + t.strlen :=
  List.length_append

theorem strlen_ne_zero {s : CStr} (h : s.chars ≠ []) : s.strlen ≠ 0 :=
  fun hzero => h (List.length_eq_zero_iff.mp hzero)

theorem append_assoc (s t u : CStr) : s ++ t ++ u = s ++ (t ++ u) :=
  CStr.ext (List.append_assoc _ _ _)

theorem forall_mem_chars_ne (s : CStr) : ∀ c ∈ s.chars, (c != NUL) = true :=
  forall_bne_of_not_mem s.noNul

theorem ofBuffer_terminated (s : CStr) (rest : List Byte) :
    ofBuffer (s.chars ++ NUL :: rest) = s := by
  apply CStr.ext
  rw [chars_ofBuffer, List.takeWhile_append_of_pos s.forall_mem_chars_ne]
  simp

theorem ofBuffer_append_nul (piece rest : List Byte) :
    ofBuffer (piece ++ NUL :: rest) = ofBuffer piece := by
  apply CStr.ext
  rw [chars_ofBuffer, chars_ofBuffer, List.takeWhile_append]
  split
  next hall => simp [(List.takeWhile_prefix _).eq_of_length hall]
  next => rfl

theorem chars_ofBuffer_chars (s : CStr) : (ofBuffer s.chars).chars = s.chars :=
  List.takeWhile_eq_self_iff.mpr s.forall_mem_chars_ne

theorem ofBuffer_prefix (buf : List Byte) : (ofBuffer buf).chars <+: buf :=
  List.takeWhile_prefix _

end CStr

/-! ### Arrays -/

/-- `char a[n]`. -/
@[ext] structure CharArray (n : Nat) where
  cells : List Byte
  size : cells.length = n
  deriving DecidableEq

namespace CharArray

/-- An array of NULs, as `calloc` gives it. -/
def zero (n : Nat) : CharArray n := ⟨List.replicate n NUL, List.length_replicate⟩

def str {n : Nat} (a : CharArray n) : CStr := CStr.ofBuffer a.cells

/-- `a[i] = b`. -/
def put {n : Nat} (a : CharArray n) (i : Nat) (b : Byte) : Except Stop (CharArray n) :=
  if i < n then .ok ⟨a.cells.set i b, by rw [List.length_set, a.size]⟩ else .error .undefined

def strcpy {n : Nat} (a : CharArray n) (s : CStr) : Except Stop (CharArray n) :=
  if h : s.strlen + 1 ≤ n then
    .ok ⟨s.chars ++ NUL :: a.cells.drop (s.strlen + 1), by
      simp only [CStr.strlen] at h
      simp only [List.length_append, List.length_cons, List.length_drop, CStr.strlen, a.size]
      omega⟩
  else .error .undefined

def strcat {n : Nat} (a : CharArray n) (s : CStr) : Except Stop (CharArray n) := a.strcpy (a.str ++ s)

/-- `strlen(a)`, which leaves the array when there is no NUL in it. -/
def strlen {n : Nat} (a : CharArray n) : Except Stop Nat :=
  if NUL ∈ a.cells then .ok a.str.strlen else .error .undefined

/-- `strncpy(a, s, size)`: what is left of the `size` bytes is filled with NULs, and no NUL follows
a longer string. -/
def strncpy {n : Nat} (a : CharArray n) (s : CStr) (size : Nat) : Except Stop (CharArray n) :=
  if h : size ≤ n then
    .ok ⟨(s.chars.take size).rightpad size NUL ++ a.cells.drop size, by
      simp only [List.length_append, List.length_rightpad, List.length_take, List.length_drop, a.size]
      omega⟩
  else .error .undefined

theorem strcpy_spec {n : Nat} (a : CharArray n) {s : CStr} (h : s.strlen + 1 ≤ n) :
    ∃ b, a.strcpy s = .ok b ∧ b.str = s :=
  ⟨_, dif_pos h, CStr.ofBuffer_terminated s _⟩

/-- A string that has been copied had room. -/
theorem strcpy_eq_ok {n : Nat} {a b : CharArray n} {s : CStr} (h : a.strcpy s = .ok b) :
    s.strlen < n ∧ b.str = s := by
  by_cases hroom : s.strlen + 1 ≤ n
  · obtain ⟨b', hb', hstr⟩ := a.strcpy_spec hroom
    obtain rfl := Except.ok.inj (hb'.symm.trans h)
    exact ⟨hroom, hstr⟩
  · rw [strcpy, dif_neg hroom] at h
    cases h

end CharArray

section

variable {n : Nat} {a : CharArray n} {s rest : List Byte}

theorem str_of_cells (hcells : a.cells = s ++ NUL :: rest) (hs : NUL ∉ s) : a.str.chars = s := by
  rw [CharArray.str, hcells, CStr.chars_ofBuffer, List.takeWhile_append_of_pos (forall_bne_of_not_mem hs),
    List.takeWhile_cons_of_neg (by simp), List.append_nil]

theorem strlen_of_cells (hcells : a.cells = s ++ NUL :: rest) (hs : NUL ∉ s) :
    a.strlen = .ok s.length := by
  have hnul : NUL ∈ a.cells := by
    rw [hcells]
    exact List.mem_append_right _ List.mem_cons_self
  rw [CharArray.strlen, if_pos hnul, CStr.strlen, str_of_cells hcells hs]

theorem put_behind (hcells : a.cells = s ++ rest) (hroom : rest ≠ []) (c : Byte) :
    ∃ b : CharArray n, a.put s.length c = .ok b ∧ b.cells = s ++ c :: rest.tail := by
  obtain ⟨d, rest, rfl⟩ := List.exists_cons_of_ne_nil hroom
  have hlt : s.length < n := by
    rw [← a.size, hcells, List.length_append, List.length_cons]
    omega
  refine ⟨_, if_pos hlt, ?_⟩
  simp only [hcells, List.set_append_right _ _ le_rfl, Nat.sub_self, List.set_cons_zero, List.tail_cons]

theorem put_end (hcells : a.cells = s) (c : Byte) : a.put s.length c = .error .undefined := by
  have hlength : ¬ s.length < n := by
    rw [← hcells, a.size]
    exact Nat.lt_irrefl _
  exact if_neg hlength

end

/-! ### Formatting -/

def digits (n : Nat) : List Byte := (Nat.toDigits 10 n).map Char.toUInt8

theorem toNat_toUInt8_of_isDigit {c : Char} (h : c.isDigit) :
    c.toUInt8.toNat = c.toNat ∧ 48 ≤ c.toNat ∧ c.toNat ≤ 57 := by
  simp only [Char.isDigit, ge_iff_le, Bool.and_eq_true, decide_eq_true_eq,
    UInt32.le_iff_toNat_le] at h
  refine ⟨?_, h⟩
  have htop : c.val.toNat ≤ 57 := h.2
  simp only [Char.toUInt8, UInt32.toNat_toUInt8, Char.toNat]
  omega

theorem mem_digits {n : Nat} {b : Byte} (h : b ∈ digits n) : 48 ≤ b ∧ b ≤ 57 := by
  obtain ⟨c, hc, rfl⟩ := List.mem_map.mp h
  obtain ⟨hval, hrange⟩ :=
    toNat_toUInt8_of_isDigit (Nat.isDigit_of_mem_toDigits (by decide) (by decide) hc)
  rw [UInt8.le_iff_toNat_le, UInt8.le_iff_toNat_le, hval]
  exact hrange

theorem nul_not_mem_digits (n : Nat) : NUL ∉ digits n :=
  fun h => absurd (mem_digits h).1 (by decide)

/-- `%d` -/
def decimal : Int → CStr
  | .ofNat n => ⟨digits n, fun h => absurd (mem_digits h).1 (by decide)⟩
  | .negSucc n => ⟨45 :: digits (n + 1), by
      rw [List.mem_cons, not_or]
      exact ⟨by decide, fun h => absurd (mem_digits h).1 (by decide)⟩⟩

theorem length_digits_le_iff {n k : Nat} (hk : 0 < k) : (digits n).length ≤ k ↔ n < 10 ^ k := by
  rw [digits, List.length_map]
  exact Nat.length_toDigits_le_iff (by decide) hk

/-- A sign takes the place of a digit. -/
theorem strlen_decimal_le_iff {n : Int} {k : Nat} (hk : 0 < k) :
    (decimal n).strlen ≤ k + 1 ↔ -10 ^ k < n ∧ n < 10 ^ (k + 1) := by
  have hpow : ∀ j : Nat, ((10 ^ j : Nat) : Int) = 10 ^ j := fun j => by push_cast; rfl
  have hpos : ∀ j : Nat, 0 < 10 ^ j := fun j => Nat.pow_pos (by decide)
  cases n with
  | ofNat m =>
    change (digits m).length ≤ k + 1 ↔ _
    rw [length_digits_le_iff (Nat.succ_pos k), ← hpow, ← hpow]
    have := hpos k
    simp only [Int.ofNat_eq_natCast]
    omega
  | negSucc m =>
    change (digits (m + 1)).length + 1 ≤ k + 1 ↔ _
    rw [Nat.add_le_add_iff_right, length_digits_le_iff hk, ← hpow, ← hpow]
    have := hpos (k + 1)
    omega

theorem strlen_decimal_le {n : Int} (h₀ : 0 ≤ n) (h : n < 100000) : (decimal n).strlen ≤ 5 :=
  (strlen_decimal_le_iff (k := 4) (by decide)).mpr (by omega)

theorem mem_decimal {n : Int} {b : Byte} (h : b ∈ (decimal n).chars) : b = 45 ∨ 48 ≤ b ∧ b ≤ 57 := by
  cases n with
  | ofNat n => exact .inr (mem_digits h)
  | negSucc n =>
    rcases List.mem_cons.mp h with h | h
    · exact .inl h
    · exact .inr (mem_digits h)

/-- What `snprintf` leaves in an array of `size` bytes when the whole output is `text`. -/
def snprintf (size : Nat) (text : CStr) : CStr :=
  ⟨text.chars.take (size - 1), fun h => text.noNul (List.mem_of_mem_take h)⟩

theorem snprintf_of_lt {size : Nat} {text : CStr} (h : text.strlen < size) :
    snprintf size text = text :=
  CStr.ext (List.take_of_length_le (by simp only [CStr.strlen] at h; omega))

/-! ### Reading a stream -/

/-- The bytes one `fgets` takes from a stream, at most `room`, and what it leaves. -/
def fgetsTake : (room : Nat) → List Byte → List Byte × List Byte
  | 0, input => ([], input)
  | _ + 1, [] => ([], [])
  | room + 1, c :: input =>
    if c = LF then ([c], input) else (c :: (fgetsTake room input).1, (fgetsTake room input).2)

/-- `fgets(buf, size, stream)`, with the new contents of the array. At the end of the stream it is
`NULL` and leaves the array alone. -/
def fgets (buf : List Byte) (size : Nat) (input : List Byte) : Option (List Byte × List Byte) :=
  if input = [] then none
  else
    let (piece, rest) := fgetsTake (size - 1) input
    some (piece ++ NUL :: buf.drop (piece.length + 1), rest)

theorem fgetsTake_append (room : Nat) (input : List Byte) :
    (fgetsTake room input).1 ++ (fgetsTake room input).2 = input := by
  induction room generalizing input with
  | zero => rfl
  | succ room ih =>
    cases input with
    | nil => rfl
    | cons c input =>
      rw [fgetsTake]
      split
      · rfl
      · rw [List.cons_append, ih]

/-- `fgets` stops behind a newline, behind `room` bytes, or at the end of the stream. -/
theorem fgetsTake_snd_eq_nil {room : Nat} {input : List Byte}
    (hlength : (fgetsTake room input).1.length < room)
    (hlast : (fgetsTake room input).1.getLast? ≠ some LF) : (fgetsTake room input).2 = [] := by
  induction room generalizing input with
  | zero => omega
  | succ room ih =>
    cases input with
    | nil => rfl
    | cons c input =>
      rw [fgetsTake] at hlength hlast ⊢
      split at hlength
      next hc =>
        rw [if_pos hc, hc] at hlast
        exact absurd rfl hlast
      next hc =>
        rw [if_neg hc] at hlast ⊢
        refine ih (Nat.lt_of_succ_lt_succ hlength) fun h => hlast ?_
        rw [List.getLast?_cons, h]
        rfl

/-- The pieces in which a stream is read by one `fgets` after the other, of `top + 1` bytes at most,
and the first of `room + 1`. -/
def cutPieces (top : Nat) : (room : Nat) → List Byte → List (List Byte)
  | _, [] => []
  | 0, c :: input => [c] :: cutPieces top top input
  | room + 1, c :: input =>
    if c = LF then [c] :: cutPieces top top input
    else match cutPieces top room input with
      | [] => [[c]]
      | piece :: pieces => (c :: piece) :: pieces

/-- The pieces `fgets(buf, size, stream)` gives. -/
def fgetsPieces (size : Nat) (input : List Byte) : List (List Byte) :=
  cutPieces (size - 2) (size - 2) input

theorem cutPieces_eq (top room : Nat) {input : List Byte} (h : input ≠ []) :
    cutPieces top room input =
      (fgetsTake (room + 1) input).1 :: cutPieces top top (fgetsTake (room + 1) input).2 := by
  induction room generalizing input with
  | zero =>
    obtain ⟨c, input, rfl⟩ := List.exists_cons_of_ne_nil h
    rw [cutPieces, fgetsTake]
    split <;> rfl
  | succ room ih =>
    obtain ⟨c, input, rfl⟩ := List.exists_cons_of_ne_nil h
    rw [cutPieces, fgetsTake]
    split
    · rfl
    · by_cases hinput : input = []
      · subst hinput
        rfl
      · rw [ih hinput]

/-- One `fgets` gives the first piece and leaves the others. -/
theorem fgetsPieces_eq {size : Nat} (hsize : 2 ≤ size) {input : List Byte} (h : input ≠ []) :
    fgetsPieces size input =
      (fgetsTake (size - 1) input).1 :: fgetsPieces size (fgetsTake (size - 1) input).2 := by
  obtain ⟨top, rfl⟩ := Nat.exists_eq_add_of_le' hsize
  exact cutPieces_eq top top h

theorem length_fgetsTake_snd {room : Nat} (hroom : 0 < room) {input : List Byte} (h : input ≠ []) :
    (fgetsTake room input).2.length < input.length := by
  obtain ⟨room, rfl⟩ := Nat.exists_eq_add_of_le' hroom
  obtain ⟨c, input, rfl⟩ := List.exists_cons_of_ne_nil h
  rw [fgetsTake]
  split
  · exact Nat.lt_succ_self _
  · have hlength := congrArg List.length (fgetsTake_append room input)
    simp only [List.length_append, List.length_cons] at hlength ⊢
    omega

theorem mem_fgetsPieces {size : Nat} (hsize : 2 ≤ size) {input piece : List Byte}
    (h : piece ∈ fgetsPieces size input) : piece ≠ [] ∧ piece <:+: input := by
  by_cases hinput : input = []
  · subst hinput
    exact absurd h List.not_mem_nil
  · have hless := length_fgetsTake_snd (Nat.sub_pos_of_lt hsize) hinput
    have happend := fgetsTake_append (size - 1) input
    rw [fgetsPieces_eq hsize hinput] at h
    rcases List.mem_cons.mp h with rfl | h
    · refine ⟨fun hnil => ?_, [], (fgetsTake (size - 1) input).2, happend⟩
      rw [hnil, List.nil_append] at happend
      exact absurd (congrArg List.length happend) (Nat.ne_of_lt hless)
    · obtain ⟨hne, hinfix⟩ := mem_fgetsPieces hsize h
      exact ⟨hne, hinfix.trans ⟨(fgetsTake (size - 1) input).1, [], by rw [List.append_nil, happend]⟩⟩
termination_by input.length

/-- A line that fits is read with its newline. -/
theorem fgetsTake_line {room : Nat} {line : List Byte} (hline : LF ∉ line) (hroom : line.length < room)
    (rest : List Byte) : fgetsTake room (line ++ LF :: rest) = (line ++ [LF], rest) := by
  induction line generalizing room with
  | nil =>
    obtain ⟨room, rfl⟩ := Nat.exists_eq_add_of_le' hroom
    exact if_pos rfl
  | cons c line ih =>
    obtain ⟨room, rfl⟩ := Nat.exists_eq_add_of_le' (Nat.lt_of_le_of_lt (Nat.succ_pos _) hroom)
    rw [List.mem_cons, not_or] at hline
    rw [List.cons_append, fgetsTake, if_neg (Ne.symm hline.1),
      ih hline.2 (Nat.lt_of_succ_lt_succ hroom)]
    rfl

/-- Of a longer one, what fits is. -/
theorem fgetsTake_long {room : Nat} {line : List Byte} (hline : LF ∉ line) (hroom : room ≤ line.length)
    (rest : List Byte) : fgetsTake room (line ++ rest) = (line.take room, line.drop room ++ rest) := by
  induction room generalizing line with
  | zero => cases line <;> rfl
  | succ room ih =>
    obtain ⟨c, line, rfl⟩ := List.exists_cons_of_length_pos (Nat.lt_of_lt_of_le (Nat.succ_pos _) hroom)
    rw [List.mem_cons, not_or] at hline
    rw [List.cons_append, fgetsTake, if_neg (Ne.symm hline.1),
      ih hline.2 (Nat.le_of_succ_le_succ hroom)]
    rfl

theorem fgetsTake_end {room : Nat} {line : List Byte} (hline : LF ∉ line) (hroom : line.length ≤ room) :
    fgetsTake room line = (line, []) := by
  induction line generalizing room with
  | nil => cases room <;> rfl
  | cons c line ih =>
    obtain ⟨room, rfl⟩ := Nat.exists_eq_add_of_le' (Nat.lt_of_lt_of_le (Nat.succ_pos _) hroom)
    rw [List.mem_cons, not_or] at hline
    rw [fgetsTake, if_neg (Ne.symm hline.1), ih hline.2 (Nat.le_of_succ_le_succ hroom)]

/-! ### Integers -/

/-- The value an `int` gets from a `size_t`. -/
def toInt (n : Nat) : Int := Int.bmod n (2 ^ 32)

theorem toInt_of_lt {n : Nat} (h : n < 2 ^ 31) : toInt n = n :=
  Int.bmod_eq_of_le (by omega) (by omega)

theorem toInt_lt (n : Nat) : toInt n < 2 ^ 31 :=
  calc Int.bmod n (2 ^ 32) < (((2 ^ 32 : Nat) : Int) + 1) / 2 := Int.bmod_lt (Nat.two_pow_pos 32)
    _ = 2 ^ 31 := by decide

theorem bmod_nonpos {n m : Nat} (hn : n ≤ m) (hhalf : (m + 1) / 2 ≤ n) : Int.bmod n m ≤ 0 := by
  rcases Nat.lt_or_eq_of_le hn with hlt | rfl
  · have hmod : (n : Int) % m = n := Int.emod_eq_of_lt (Int.natCast_nonneg n) (Int.ofNat_lt.mpr hlt)
    rw [Int.bmod_neg _ _ (by rw [hmod]; omega), hmod]
    omega
  · rw [Int.bmod_self]

/-- A positive `int` is the `unsigned int` it has been made of. -/
theorem toInt_of_pos {n : Nat} (hn : n < 2 ^ 32) (hpos : 0 < toInt n) : toInt n = n :=
  toInt_of_lt (not_le.mp fun hlarge => absurd hpos (not_lt.mpr (bmod_nonpos hn.le hlarge)))

end Sacagawea
