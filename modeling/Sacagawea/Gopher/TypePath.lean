import Sacagawea.Base.Settings

/-!
# The gopher type of a path

`type_path` runs `file -bi` on the path and classifies the MIME type by an `if`-chain of prefixes.
Only what the command printed and what was on the stack before decide the outcome, so these are the
arguments here.
-/

namespace Sacagawea

inductive GopherType where
  | directory
  | search
  | multipart
  | binary
  | audio
  | html
  | text
  | gif
  | image
  | mac
  | error
  deriving DecidableEq, Repr

/-- The type as the character of the source: `1`, `7`, `M`, `9`, `s`, `h`, `0`, `g`, `I`, `4`, `3`.
-/
def GopherType.char : GopherType → Byte
  | .directory => 49
  | .search => 55
  | .multipart => 77
  | .binary => 57
  | .audio => 115
  | .html => 104
  | .text => 48
  | .gif => 103
  | .image => 73
  | .mac => 52
  | .error => 51

/-- What running the command gives: no stream, a stream that cannot be read, or the text it prints.
-/
inductive Probe where
  | noStream
  | unreadable
  | output (text : List Byte)
  deriving DecidableEq, Repr

/-! ### The code -/

def dir1 : List Byte := bytes "inode/directory"
def empty0 : List Byte := bytes "inode/x-empty"
def gopher1 : List Byte := bytes "application/gopher"
def mac4 : List Byte := bytes "application/mac"
def application9 : List Byte := bytes "application/"
def multipartM : List Byte := bytes "multipart/mixed"
def audioS : List Byte := bytes "audio/"
def htmlH : List Byte := bytes "text/html"
def text0 : List Byte := bytes "text/"
def gifG : List Byte := bytes "image/gif"
def imageI : List Byte := bytes "image/"

/-- `strncmp(buf, literal, strlen(literal)) == 0` -/
def startsWith (buf literal : List Byte) : Bool := literal.isPrefixOf buf

/-- The loop of `write_log` that cuts off the newlines at the end of a message, over the bytes of the
message from its end. It looks at the byte before the NUL also when nothing is left. -/
def stripNewlines : List Byte → Except Stop (List Byte)
  | [] => .error .undefined
  | c :: message => if c = LF then stripNewlines message else .ok (c :: message)

/-- What `write_log` prints behind the date and the level. -/
def writeLog (message : CStr) : Except Stop (List Byte) := do
  let formatted ← stripNewlines message.chars.reverse
  return formatted.reverse

/-- The loop that logs the rest of an error message, reusing the buffer. Each piece takes a byte at
least, so the length of the stream bounds the number of rounds. -/
def drainOutput : (rounds : Nat) → (popenOutput stream : List Byte) → Except Stop (List Byte)
  | 0, popenOutput, _ => .ok popenOutput
  | rounds + 1, popenOutput, stream =>
    match fgets popenOutput 64 stream with
    | none => .ok popenOutput
    | some (popenOutput, stream) => do
      let _ ← writeLog (CStr.ofBuffer popenOutput)
      drainOutput rounds popenOutput stream

def classify (popenOutput : List Byte) : GopherType :=
  if startsWith popenOutput dir1 then .directory
  else if startsWith popenOutput gopher1 then .search
  else if startsWith popenOutput multipartM then .multipart
  else if startsWith popenOutput application9 then .binary
  else if startsWith popenOutput audioS then .audio
  else if startsWith popenOutput htmlH then .html
  else if startsWith popenOutput text0 || startsWith popenOutput empty0 then .text
  else if startsWith popenOutput gifG then .gif
  else if startsWith popenOutput imageI then .image
  else if startsWith popenOutput mac4 then .mac
  else .error

/-- `type_path`, with the contents `stack` of `popen_output` before it is read into. -/
def typePath (stack : CharArray 64) : Probe → Except Stop GopherType
  | .noStream => .error (.exit 5)
  | .unreadable => .error (.exit 5)
  | .output text => do
    let (popenOutput, stream) := (fgets stack.cells 64 text).getD (stack.cells, [])
    let popenOutput ←
      if startsWith popenOutput (bytes "cannot") then do
        let _ ← writeLog (CStr.ofBuffer popenOutput)
        drainOutput stream.length popenOutput stream
      else .ok popenOutput
    return classify popenOutput

/-! ### Probes without a type -/

/-- `write_log` has something to print. -/
def Loggable (message : CStr) : Prop := ∃ c ∈ message.chars, c ≠ LF

instance (message : CStr) : Decidable (Loggable message) :=
  inferInstanceAs (Decidable (∃ c ∈ message.chars, c ≠ LF))

/-- The probes that stop `type_path`: the command cannot be run or read, or a piece of its message
behind the first leaves `write_log` with nothing to print. -/
def Probe.Stops : Probe → Prop
  | .noStream | .unreadable => True
  | .output text => bytes "cannot" <+: text ∧
      ∃ piece ∈ (fgetsPieces 64 text).tail, ¬ Loggable (CStr.ofBuffer piece)

theorem GopherType.char_ne (type : GopherType) :
    type.char ≠ NUL ∧ type.char ≠ TAB ∧ type.char ≠ CR ∧ type.char ≠ LF := by
  cases type <;> decide

end Sacagawea
