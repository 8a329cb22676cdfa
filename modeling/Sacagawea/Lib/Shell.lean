import Mathlib.Data.List.Basic

/-!
# How a POSIX shell reads a simple command

The part of the shell's token recognition that quoting is about: blanks separate words, a backslash
keeps the next byte, single quotes keep everything up to the next single quote, double quotes
everything but `$`, a backquote and a backslash. `simpleCommand` gives the words of a line that is
one simple command in which nothing is left to expand. It is on the safe side: outside quotes it
takes only bytes that stand for themselves wherever they are, so a line with an operator, an
expansion, an assignment or a line continuation is not read at all.

`escape` is the usual way to put any text between single quotes, and `read_quoteWord` says that the
shell reads the text back.
-/

namespace Shell

def tab : UInt8 := 9
def newline : UInt8 := 10
def space : UInt8 := 32
def doubleQuote : UInt8 := 34
def dollar : UInt8 := 36
def singleQuote : UInt8 := 39
def escapeByte : UInt8 := 92
def backquote : UInt8 := 96

/-- The bytes that stand for themselves outside quotes in every position: letters, digits and `% + ,
- . / : @ _`. -/
def plain (c : UInt8) : Bool :=
  (48 ≤ c && c ≤ 57) || (65 ≤ c && c ≤ 90) || (97 ≤ c && c ≤ 122) ||
    c ∈ [37, 43, 44, 45, 46, 47, 58, 64, 95]

/-- Where the reader is: between words, or in a word of which it has read some bytes. -/
inductive Mode where
  | blank
  | word (w : List UInt8)
  | escaped (w : List UInt8)
  | single (w : List UInt8)
  | double (w : List UInt8)
  | doubleEscaped (w : List UInt8)

/-- The words of a line, or `none` when it holds more than words. -/
def read : Mode → List UInt8 → Option (List (List UInt8))
  | .blank, [] => some []
  | .word w, [] => some [w]
  | .escaped _, [] | .single _, [] | .double _, [] | .doubleEscaped _, [] => none
  | .blank, c :: rest =>
    if c = space ∨ c = tab then read .blank rest
    else if c = singleQuote then read (.single []) rest
    else if c = doubleQuote then read (.double []) rest
    else if c = escapeByte then read (.escaped []) rest
    else if plain c then read (.word [c]) rest
    else none
  | .word w, c :: rest =>
    if c = space ∨ c = tab then (read .blank rest).map (w :: ·)
    else if c = singleQuote then read (.single w) rest
    else if c = doubleQuote then read (.double w) rest
    else if c = escapeByte then read (.escaped w) rest
    else if plain c then read (.word (w ++ [c])) rest
    else none
  | .escaped w, c :: rest => if c = newline then none else read (.word (w ++ [c])) rest
  | .single w, c :: rest =>
    if c = singleQuote then read (.word w) rest else read (.single (w ++ [c])) rest
  | .double w, c :: rest =>
    if c = doubleQuote then read (.word w) rest
    else if c = dollar ∨ c = backquote then none
    else if c = escapeByte then read (.doubleEscaped w) rest
    else read (.double (w ++ [c])) rest
  | .doubleEscaped w, c :: rest =>
    if c = newline then none
    else if c = dollar ∨ c = backquote ∨ c = doubleQuote ∨ c = escapeByte then
      read (.double (w ++ [c])) rest
    else read (.double (w ++ [escapeByte, c])) rest

/-- The words the shell takes for the start of a compound command when they come first. -/
def reserved : List (List UInt8) :=
  ["case", "do", "done", "elif", "else", "esac", "fi", "for", "if", "in", "then", "until",
    "while"].map fun s => s.toList.map Char.toUInt8

/-- The words of a line that is exactly one simple command. -/
def simpleCommand (line : List UInt8) : Option (List (List UInt8)) :=
  match read .blank line with
  | some (command :: args) => if command ∈ reserved then none else some (command :: args)
  | _ => none

/-! ### Unquoted words -/

theorem plain_ne {c : UInt8} (h : plain c = true) :
    ¬ (c = space ∨ c = tab) ∧ c ≠ singleQuote ∧ c ≠ doubleQuote ∧ c ≠ escapeByte := by
  refine ⟨?_, ?_, ?_, ?_⟩
  · rintro (rfl | rfl) <;> revert h <;> decide
  all_goals
    rintro rfl
    revert h
    decide

theorem read_word_plain {text : List UInt8} (h : ∀ c ∈ text, plain c = true) (w rest : List UInt8) :
    read (.word w) (text ++ rest) = read (.word (w ++ text)) rest := by
  induction text generalizing w with
  | nil => simp
  | cons c text ih =>
    have hc := h c List.mem_cons_self
    obtain ⟨hblank, hsingle, hdouble, hescape⟩ := plain_ne hc
    rw [List.cons_append, read, if_neg hblank, if_neg hsingle, if_neg hdouble, if_neg hescape,
      if_pos hc, ih fun d hd => h d (List.mem_cons_of_mem _ hd), List.append_assoc,
      List.singleton_append]

theorem read_plain {text : List UInt8} (h : ∀ c ∈ text, plain c = true) (hne : text ≠ [])
    (rest : List UInt8) :
    read .blank (text ++ space :: rest) = (read .blank rest).map (text :: ·) := by
  obtain ⟨c, text, rfl⟩ := List.exists_cons_of_ne_nil hne
  have hc := h c List.mem_cons_self
  obtain ⟨hblank, hsingle, hdouble, hescape⟩ := plain_ne hc
  rw [List.cons_append, read, if_neg hblank, if_neg hsingle, if_neg hdouble, if_neg hescape,
    if_pos hc, read_word_plain fun d hd => h d (List.mem_cons_of_mem _ hd)]
  rw [read, if_pos (.inl rfl), List.singleton_append]

/-! ### Quoted words -/

/-- Close the quotes, put an escaped quote, and open them again. -/
def escapeQuote : List UInt8 := [singleQuote, escapeByte, singleQuote, singleQuote]

/-- The text with every single quote escaped. -/
def escape (text : List UInt8) : List UInt8 :=
  text.flatMap fun c => if c = singleQuote then escapeQuote else [c]

def quoteWord (text : List UInt8) : List UInt8 := singleQuote :: escape text ++ [singleQuote]

theorem read_escapeQuote (w rest : List UInt8) :
    read (.single w) (escapeQuote ++ rest) = read (.single (w ++ [singleQuote])) rest := by
  simp [escapeQuote, read, singleQuote, space, tab, doubleQuote, escapeByte, newline]

/-- Between quotes the escaped text is read as the text. -/
theorem read_single_escape (text w rest : List UInt8) :
    read (.single w) (escape text ++ singleQuote :: rest) = read (.word (w ++ text)) rest := by
  induction text generalizing w with
  | nil => simp [escape, read]
  | cons c text ih =>
    rw [escape, List.flatMap_cons, ← escape, List.append_assoc]
    by_cases hc : c = singleQuote
    · subst hc
      rw [if_pos rfl, read_escapeQuote, ih, List.append_assoc, List.singleton_append]
    · rw [if_neg hc, List.singleton_append, read, if_neg hc, ih, List.append_assoc,
        List.singleton_append]

/-- A quoted text is read as that text, at the start of a word. -/
theorem read_quoteWord (text rest : List UInt8) :
    read .blank (quoteWord text ++ rest) = read (.word text) rest := by
  rw [quoteWord, List.append_assoc, List.cons_append, List.singleton_append, read, if_neg (by decide),
    if_pos rfl, read_single_escape, List.nil_append]

theorem length_escape (text : List UInt8) :
    (escape text).length = text.length + 3 * text.count singleQuote := by
  induction text with
  | nil => rfl
  | cons c text ih =>
    rw [escape, List.flatMap_cons, ← escape, List.length_append, ih, List.length_cons,
      List.count_cons]
    by_cases hc : c = singleQuote
    · simp [hc, escapeQuote]
      omega
    · simp [hc]
      omega

theorem mem_escape {text : List UInt8} {c : UInt8} (h : c ∈ escape text) :
    c ∈ text ∨ c = singleQuote ∨ c = escapeByte := by
  rw [escape, List.mem_flatMap] at h
  obtain ⟨d, hd, hc⟩ := h
  split at hc
  · simp only [escapeQuote, List.mem_cons, List.not_mem_nil, or_false] at hc
    tauto
  · rw [List.mem_singleton] at hc
    exact .inl (hc ▸ hd)

end Shell
