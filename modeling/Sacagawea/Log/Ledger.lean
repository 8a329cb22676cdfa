import Sacagawea.Log.Mutex

/-!
# Where the records are

The records go through four stages in the order their senders took the mutex: the holder of the
mutex has its record pending until it is written, then it is queued in the pipe, then in the hand of
the log process, then logged. A `Ledger` says which sender's record is where. `Represents` connects
it to the protocol: what is logged, what of a record has been read, what stands in the pipe, and
what `cont` counts.
-/

namespace Sacagawea

variable {ι : Type}

/-! ### The ledger -/

/-- The senders whose record is logged, read, in the pipe, and still to be written. -/
structure Ledger (ι : Type) where
  logged : List ι
  inHand : Option ι
  queued : List ι
  pending : Option ι

namespace Ledger

def written (l : Ledger ι) : List ι := l.logged ++ l.inHand.toList ++ l.queued

/-- The senders that took the mutex, in that order. -/
def order (l : Ledger ι) : List ι := l.written ++ l.pending.toList

/-- What happens to a record: it is announced, written, picked up, and logged. -/
inductive Step : Ledger ι → Ledger ι → Prop
  | announce {l i} : l.pending = none → Step l { l with pending := some i }
  | write {l i} : l.pending = some i → Step l { l with queued := l.queued ++ [i], pending := none }
  | pick {l i queued} : l.inHand = none → l.queued = i :: queued →
      Step l { l with inHand := some i, queued := queued }
  | log {l i} : l.inHand = some i → Step l { l with logged := l.logged ++ [i], inHand := none }

end Ledger

/-- The sender has not written all of its record. -/
def SenderPc.Writing : SenderPc → Prop
  | .locked | .counted | .headed => True
  | _ => False

def SenderPc.Written : SenderPc → Prop
  | .bodied | .signalled | .done => True
  | _ => False

instance : DecidablePred SenderPc.Written := fun pc => by
  cases pc <;> first | exact isTrue trivial | exact isFalse id

def LogPc.AtRest : LogPc → Prop
  | .reading .. | .appended => False
  | _ => True

/-- The reading end: the record in hand, its bytes still in the pipe, and whether `cont` still
counts it. -/
inductive ReadingEnd (cfg : LogConfig ι) : LogPc → Option ι → List Byte → Nat → Prop
  | rest {log} : log.AtRest → ReadingEnd cfg log none [] 0
  | reading {i readLine unread} : cfg.text i = readLine ++ unread →
      ReadingEnd cfg (.reading (cfg.text i).length readLine) (some i) unread 1
  | appended : ReadingEnd cfg .appended none [] 1

/-- The writing end: the pending record, its bytes already in the pipe, and whether `cont` counts
it. -/
inductive WritingEnd (cfg : LogConfig ι) (sender : ι → SenderPc) : Option ι → List Byte → Nat → Prop
  | rest : (∀ i, ¬ (sender i).Writing) → WritingEnd cfg sender none [] 0
  | locked {i} : sender i = .locked → WritingEnd cfg sender (some i) [] 0
  | counted {i} : sender i = .counted → WritingEnd cfg sender (some i) [] 1
  | headed {i} : sender i = .headed →
      WritingEnd cfg sender (some i) (encodeInt (cfg.text i).length) 1

/-- The whole records of the senders, as they stand in the pipe. -/
def frames (cfg : LogConfig ι) (senders : List ι) : List Byte :=
  (senders.map cfg.text).flatMap intHeader.frame

/-- The state of the protocol is one in which the records are where the ledger says. -/
structure Represents (cfg : LogConfig ι) (s : LogState ι) (l : Ledger ι) : Prop where
  taken : s.taken = l.order
  settled : ∀ i ∈ l.written, (s.sender i).Written
  logFile : s.logFile = l.logged.flatMap cfg.text
  ends : ∃ unread n half m, ReadingEnd cfg s.log l.inHand unread n ∧
    WritingEnd cfg s.sender l.pending half m ∧
    s.pipe = unread ++ frames cfg l.queued ++ half ∧ s.cont = n + l.queued.length + m

theorem frames_append (cfg : LogConfig ι) (senders senders' : List ι) :
    frames cfg (senders ++ senders') = frames cfg senders ++ frames cfg senders' := by
  rw [frames, List.map_append, List.flatMap_append]
  rfl

theorem frames_cons (cfg : LogConfig ι) (i : ι) (senders : List ι) :
    frames cfg (i :: senders) = encodeInt (cfg.text i).length ++ (cfg.text i ++ frames cfg senders) := by
  rw [frames, List.map_cons, List.flatMap_cons, Header.frame, List.append_assoc]
  rfl

/-! ### The two ends -/

theorem ReadingEnd.rest_of_not_holds {cfg : LogConfig ι} {log : LogPc} {inHand : Option ι}
    {unread : List Byte} {n : Nat} (h : ReadingEnd cfg log inHand unread n) (hlog : ¬ log.Holds) :
    inHand = none ∧ unread = [] ∧ n = 0 := by
  cases h with
  | rest => exact ⟨rfl, rfl, rfl⟩
  | reading => exact absurd trivial hlog
  | appended => exact absurd trivial hlog

theorem ReadingEnd.at_rest {cfg : LogConfig ι} {log log' : LogPc} {inHand : Option ι}
    {unread : List Byte} {n : Nat} (h : ReadingEnd cfg log inHand unread n) (hrest : log.AtRest)
    (hrest' : log'.AtRest) : ReadingEnd cfg log' inHand unread n := by
  cases h with
  | rest => exact .rest hrest'
  | reading => exact hrest.elim
  | appended => exact hrest.elim

theorem SenderPc.Written.not_writing {pc : SenderPc} (h : pc.Written) : ¬ pc.Writing := by
  cases pc <;> first | exact id | exact h.elim

theorem SenderPc.Writing.holds {pc : SenderPc} (h : pc.Writing) : pc.Holds := by
  cases pc <;> trivial

theorem WritingEnd.writing {cfg : LogConfig ι} {sender : ι → SenderPc} {i : ι} {half : List Byte}
    {m : Nat} (h : WritingEnd cfg sender (some i) half m) : (sender i).Writing := by
  cases h with
  | locked h | counted h | headed h =>
    rw [h]
    trivial

theorem WritingEnd.rest_of_not_holds {cfg : LogConfig ι} {sender : ι → SenderPc} {pending : Option ι}
    {half : List Byte} {m : Nat} (h : WritingEnd cfg sender pending half m)
    (hnone : ∀ i, ¬ (sender i).Holds) : pending = none ∧ half = [] ∧ m = 0 := by
  cases pending with
  | some i => exact absurd h.writing.holds (hnone i)
  | none =>
    cases h
    exact ⟨rfl, rfl, rfl⟩

theorem WritingEnd.pending_eq {cfg : LogConfig ι} {sender : ι → SenderPc} {pending : Option ι}
    {half : List Byte} {m : Nat} (h : WritingEnd cfg sender pending half m) {i : ι}
    (hi : (sender i).Writing) (hone : ∀ j, (sender j).Holds → j = i) : pending = some i := by
  cases pending with
  | some j => rw [hone j h.writing.holds]
  | none =>
    cases h with
    | rest hrest => exact absurd hi (hrest i)

theorem WritingEnd.half {cfg : LogConfig ι} {sender : ι → SenderPc} {pending : Option ι}
    {half : List Byte} {m : Nat} (h : WritingEnd cfg sender pending half m) :
    (intHeader.unframe half).flatten = [] ∧ (pending = none → half = []) := by
  cases h with
  | rest => exact ⟨rfl, fun _ => rfl⟩
  | locked => exact ⟨rfl, nofun⟩
  | counted => exact ⟨rfl, nofun⟩
  | @headed i => exact ⟨Header.flatten_unframe_encode (cfg.record i).fits, nofun⟩

theorem WritingEnd.move [DecidableEq ι] {cfg : LogConfig ι} {sender : ι → SenderPc} {pending : Option ι}
    {half : List Byte} {m : Nat} (h : WritingEnd cfg sender pending half m) {i : ι} {pc : SenderPc}
    (hold : ¬ (sender i).Writing) (hnew : ¬ pc.Writing) :
    WritingEnd cfg (Function.update sender i pc) pending half m := by
  have hkeep : ∀ j old, sender j = old → old.Writing → Function.update sender i pc j = old := by
    rintro j old rfl hj
    refine Function.update_of_ne ?_ _ _
    rintro rfl
    exact hold hj
  cases h with
  | rest hrest =>
    refine .rest fun j => ?_
    by_cases hj : j = i
    · rwa [hj, Function.update_self]
    · rw [Function.update_of_ne hj]
      exact hrest j
  | locked hj => exact .locked (hkeep _ _ hj trivial)
  | counted hj => exact .counted (hkeep _ _ hj trivial)
  | headed hj => exact .headed (hkeep _ _ hj trivial)

end Sacagawea
