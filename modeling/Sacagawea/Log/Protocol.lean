import Sacagawea.Base.Bytes
import Sacagawea.Lib.Framing
import Sacagawea.Lib.Transition

/-!
# The log protocol

A thread that has sent a file puts a record for the log into a pipe, and the log process takes it
out and appends it to the log file. The pipe, a counter of the records in it, a mutex and a
condition variable are shared: `thread_sender` of gopher.c writes under the mutex and signals,
`log_management` of log.c waits on the condition and drains the pipe while the counter is positive.

The parties take one step at a time, in any order. A step is one call or one update of the source.
`pthread_cond_wait` is three steps: it releases the mutex and blocks, is woken by a signal or
without one, and takes the mutex again. A signal without a process that waits is lost.
-/

namespace Sacagawea

/-! ### The length of a record -/

/-- The four bytes `write(fd, &len, sizeof(int))` sends of a `long`. -/
def encodeInt (n : Nat) : List Byte :=
  [.ofNat n, .ofNat (n / 256), .ofNat (n / 256 / 256), .ofNat (n / 256 / 256 / 256)]

/-- The `int` that `read(fd, &len_string, sizeof(int))` makes of the bytes it gets. -/
def decodeInt (header : List Byte) : Int := toInt (header.foldr (fun b n => b.toNat + 256 * n) 0)

theorem decodeInt_encodeInt {n : Nat} (h : n < 2 ^ 31) : decodeInt (encodeInt n) = n := by
  have hsum : (encodeInt n).foldr (fun b n => b.toNat + 256 * n) 0 = n := by
    simp only [encodeInt, List.foldr_cons, List.foldr_nil, UInt8.toNat_ofNat']
    omega
  rw [decodeInt, hsum, toInt_of_lt h]

/-- Records in the pipe stand behind their length as an `int`. -/
def intHeader : Header Byte where
  width := 4
  width_pos := by decide
  encode := encodeInt
  decode header := if 0 ≤ decodeInt header then some (decodeInt header).toNat else none
  bound := 2 ^ 31
  length_encode _ := rfl
  decode_encode h := by rw [decodeInt_encodeInt h, if_pos (by omega), Int.toNat_natCast]

/-! ### The parties -/

/-- Where a sender stands in its critical section. A write that fails ends the thread there. -/
inductive SenderPc where
  | start
  | locked
  | counted
  | headed
  | bodied
  | signalled
  | done
  | died
  deriving DecidableEq, Repr

/-- Where the log process stands: before its mutex lock, with the mutex before its first wait,
blocked in a wait, woken there, in the `for`, with a record half read, and with a record appended.
-/
inductive LogPc where
  | start
  | holding
  | waiting
  | woken
  | draining
  | reading (lenString : Int) (readLine : List Byte)
  | appended
  deriving DecidableEq, Repr

inductive Party (ι : Type) where
  | sender (i : ι)
  | log
  deriving DecidableEq

structure Record where
  text : CStr
  fits : text.strlen < 2 ^ 31

/-- The records of the senders, and the size of the pipe if it has one. -/
structure LogConfig (ι : Type) where
  record : ι → Record
  capacity : Option Nat

/-- The shared state, and in `taken` the senders in the order they took the mutex. -/
structure LogState (ι : Type) where
  sender : ι → SenderPc
  log : LogPc
  owner : Option (Party ι)
  cont : Nat
  pipe : List Byte
  logFile : List Byte
  taken : List ι

/-- The steps of a sender, and those of the log process. `failLen` and `failRecord` are writes that
return an error, `wake` is a return from the wait without a signal. -/
inductive LogAction (ι : Type) where
  | lock (i : ι)
  | count (i : ι)
  | writeLen (i : ι)
  | writeRecord (i : ι)
  | signal (i : ι)
  | unlock (i : ι)
  | failLen (i : ι)
  | failRecord (i : ι)
  | logLock
  | wait
  | wake
  | resume
  | readLen
  | readBody (n : Nat)
  | append
  | next

variable {ι : Type}

def LogConfig.text (cfg : LogConfig ι) (i : ι) : List Byte := (cfg.record i).text.chars

/-- A write of `n` bytes does not block. -/
def LogConfig.Fits (cfg : LogConfig ι) (n : Nat) : Prop := ∀ c ∈ cfg.capacity, n ≤ c

instance (cfg : LogConfig ι) (n : Nat) : Decidable (cfg.Fits n) :=
  decidable_of_iff (cfg.capacity.all (n ≤ ·)) (by
    cases h : cfg.capacity <;> simp [LogConfig.Fits, h])

/-! ### The steps -/

def LogState.start : LogState ι where
  sender _ := .start
  log := .start
  owner := none
  cont := 0
  pipe := []
  logFile := []
  taken := []

/-- In a record, `n` bytes are asked for at most and there are as many. -/
def LogPc.MayRead (n piped : Nat) : LogPc → Prop
  | .reading lenString readLine => 0 < n ∧ readLine.length + n ≤ lenString ∧ n ≤ piped
  | _ => False

/-- All bytes of the record have been read. -/
def LogPc.MayAppend : LogPc → Prop
  | .reading lenString readLine => lenString ≤ readLine.length
  | _ => False

def logEnabled (cfg : LogConfig ι) (s : LogState ι) : LogAction ι → Prop
  | .lock i => s.sender i = .start ∧ s.owner = none
  | .count i => s.sender i = .locked
  | .writeLen i => s.sender i = .counted ∧ cfg.Fits (s.pipe.length + 4)
  | .writeRecord i => s.sender i = .headed ∧ cfg.Fits (s.pipe.length + (cfg.text i).length)
  | .signal i => s.sender i = .bodied
  | .unlock i => s.sender i = .signalled
  | .failLen i => s.sender i = .counted
  | .failRecord i => s.sender i = .headed
  | .logLock => s.log = .start ∧ s.owner = none
  | .wait => s.log = .holding ∨ s.log = .draining ∧ s.cont = 0
  | .wake => s.log = .waiting
  | .resume => s.log = .woken ∧ s.owner = none
  | .readLen => s.log = .draining ∧ 0 < s.cont ∧ 4 ≤ s.pipe.length
  | .readBody n => s.log.MayRead n s.pipe.length
  | .append => s.log.MayAppend
  | .next => s.log = .appended

variable [DecidableEq ι]

instance (n piped : Nat) : (log : LogPc) → Decidable (log.MayRead n piped)
  | .reading .. => inferInstanceAs (Decidable (_ ∧ _ ∧ _))
  | .start | .holding | .waiting | .woken | .draining | .appended => isFalse id

instance : (log : LogPc) → Decidable log.MayAppend
  | .reading .. => inferInstanceAs (Decidable (_ ≤ _))
  | .start | .holding | .waiting | .woken | .draining | .appended => isFalse id

instance (cfg : LogConfig ι) (s : LogState ι) : (a : LogAction ι) → Decidable (logEnabled cfg s a)
  | .lock _ | .logLock | .resume | .writeLen _ | .writeRecord _ => inferInstanceAs (Decidable (_ ∧ _))
  | .count _ | .signal _ | .unlock _ | .failLen _ | .failRecord _ | .wake | .next =>
    inferInstanceAs (Decidable (_ = _))
  | .wait => inferInstanceAs (Decidable (_ ∨ _ ∧ _))
  | .readLen => inferInstanceAs (Decidable (_ ∧ _ ∧ _))
  | .readBody _ => inferInstanceAs (Decidable (LogPc.MayRead ..))
  | .append => inferInstanceAs (Decidable (LogPc.MayAppend _))

def LogState.move (s : LogState ι) (i : ι) (pc : SenderPc) : LogState ι :=
  { s with sender := Function.update s.sender i pc }

def logNext (cfg : LogConfig ι) (s : LogState ι) : LogAction ι → LogState ι
  | .lock i => { s.move i .locked with owner := some (.sender i), taken := s.taken ++ [i] }
  | .count i => { s.move i .counted with cont := s.cont + 1 }
  | .writeLen i => { s.move i .headed with pipe := s.pipe ++ encodeInt (cfg.text i).length }
  | .writeRecord i => { s.move i .bodied with pipe := s.pipe ++ cfg.text i }
  | .signal i => { s.move i .signalled with log := if s.log = .waiting then .woken else s.log }
  | .unlock i => { s.move i .done with owner := none }
  | .failLen i => s.move i .died
  | .failRecord i => s.move i .died
  | .logLock => { s with log := .holding, owner := some .log }
  | .wait => { s with log := .waiting, owner := none }
  | .wake => { s with log := .woken }
  | .resume => { s with log := .draining, owner := some .log }
  | .readLen => { s with log := .reading (decodeInt (s.pipe.take 4)) [], pipe := s.pipe.drop 4 }
  | .readBody n => match s.log with
    | .reading lenString readLine =>
      { s with log := .reading lenString (readLine ++ s.pipe.take n), pipe := s.pipe.drop n }
    | _ => s
  -- the record is written as a string, with the NUL put behind it
  | .append => match s.log with
    | .reading _ readLine =>
      { s with log := .appended, logFile := s.logFile ++ (CStr.ofBuffer readLine).chars }
    | _ => s
  | .next => { s with log := .draining, cont := s.cont - 1 }

/-- The senders and the log process over one pipe. -/
def logProtocol (cfg : LogConfig ι) : Transition (LogState ι) (LogAction ι) where
  init := .start
  enabled := logEnabled cfg
  next := logNext cfg

instance (cfg : LogConfig ι) (s : LogState ι) (a : LogAction ι) :
    Decidable ((logProtocol cfg).enabled s a) :=
  inferInstanceAs (Decidable (logEnabled cfg s a))

theorem readBody_inv {cfg : LogConfig ι} {s : LogState ι} {n : Nat}
    (h : logEnabled cfg s (.readBody n)) :
    ∃ lenString readLine, s.log = .reading lenString readLine ∧ 0 < n ∧
      readLine.length + n ≤ lenString ∧ n ≤ s.pipe.length ∧
      logNext cfg s (.readBody n) =
        { s with log := .reading lenString (readLine ++ s.pipe.take n), pipe := s.pipe.drop n } := by
  cases hlog : s.log with
  | reading lenString readLine =>
    rw [logEnabled, hlog] at h
    exact ⟨lenString, readLine, rfl, h.1, h.2.1, h.2.2, by simp only [logNext, hlog]⟩
  | _ =>
    rw [logEnabled, hlog] at h
    exact h.elim

theorem append_inv {cfg : LogConfig ι} {s : LogState ι} (h : logEnabled cfg s .append) :
    ∃ lenString readLine, s.log = .reading lenString readLine ∧ lenString ≤ readLine.length ∧
      logNext cfg s .append =
        { s with log := .appended, logFile := s.logFile ++ (CStr.ofBuffer readLine).chars } := by
  cases hlog : s.log with
  | reading lenString readLine =>
    rw [logEnabled, hlog] at h
    exact ⟨lenString, readLine, rfl, h, by simp only [logNext, hlog]⟩
  | _ =>
    rw [logEnabled, hlog] at h
    exact h.elim

end Sacagawea
