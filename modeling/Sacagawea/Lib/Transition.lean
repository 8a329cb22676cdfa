import Mathlib.Data.List.Basic
import Mathlib.Logic.Function.Basic

/-!
# Transition systems

A system of parties that take steps one at a time is a state, an initial value of it, and for each
action a guard and an update. A run is a list of actions. A property of runs is often stated for the
runs whose steps all meet a condition on the state and the action, so reachability takes such a
condition.

`Mutex.Owned` relates a mutex to the parties: its owner is the one party that is in its critical
section.
-/

structure Transition (σ α : Type*) where
  init : σ
  enabled : σ → α → Prop
  next : σ → α → σ

namespace Transition

variable {σ α : Type*} (S : Transition σ α)

/-- The states that runs lead to when each step meets `ok`. -/
inductive Reach (ok : σ → α → Prop) : σ → Prop
  | init : Reach ok S.init
  | step {s : σ} {a : α} : Reach ok s → ok s a → S.enabled s a → Reach ok (S.next s a)

/-- The states that runs from one state lead to. -/
inductive Leads (ok : σ → α → Prop) (s : σ) : σ → Prop
  | refl : Leads ok s s
  | step {t : σ} {a : α} : Leads ok s t → ok t a → S.enabled t a → Leads ok s (S.next t a)

variable {S} {ok : σ → α → Prop}

/-- What holds at the start and is preserved by each step that meets the condition holds in every
state reached. -/
theorem Reach.invariant {I : σ → Prop} (hinit : I S.init)
    (hstep : ∀ s a, S.Reach ok s → I s → ok s a → S.enabled s a → I (S.next s a)) {s : σ}
    (h : S.Reach ok s) : I s := by
  induction h with
  | init => exact hinit
  | step hs hok henabled ih => exact hstep _ _ hs ih hok henabled

theorem Reach.next {s : σ} (h : S.Reach ok s) (a : α) (hok : ok s a) (henabled : S.enabled s a) :
    S.Reach ok (S.next s a) :=
  h.step hok henabled

theorem Reach.mono {ok' : σ → α → Prop} (hok : ∀ s a, ok s a → ok' s a) {s : σ}
    (h : S.Reach ok s) : S.Reach ok' s :=
  h.invariant .init fun _ _ _ ih hstep henabled => ih.step (hok _ _ hstep) henabled

/-! ### Runs -/

def after (S : Transition σ α) (s : σ) (actions : List α) : σ := actions.foldl S.next s

/-- Each action of the list is enabled when its turn comes, and meets the condition. -/
def Runs (S : Transition σ α) (ok : σ → α → Prop) : σ → List α → Prop
  | _, [] => True
  | s, a :: actions => ok s a ∧ S.enabled s a ∧ Runs S ok (S.next s a) actions

instance decidableRuns (S : Transition σ α) (ok : σ → α → Prop) [∀ s a, Decidable (S.enabled s a)]
    [∀ s a, Decidable (ok s a)] : ∀ s actions, Decidable (S.Runs ok s actions)
  | _, [] => isTrue trivial
  | s, a :: actions =>
    have := decidableRuns S ok (S.next s a) actions
    inferInstanceAs (Decidable (_ ∧ _ ∧ _))

/-- A run from a reachable state ends in a reachable state. -/
theorem Reach.after {s : σ} (h : S.Reach ok s) {actions : List α} (hruns : S.Runs ok s actions) :
    S.Reach ok (S.after s actions) := by
  induction actions generalizing s with
  | nil => exact h
  | cons a actions ih => exact ih (h.step hruns.1 hruns.2.1) hruns.2.2

/-- What holds before a run and is preserved by each step of it holds after it. -/
theorem Runs.invariant {I : σ → Prop} {s : σ} {actions : List α} (hruns : S.Runs ok s actions)
    (hs : I s) (hstep : ∀ s, ∀ a ∈ actions, I s → ok s a → S.enabled s a → I (S.next s a)) :
    I (S.after s actions) := by
  induction actions generalizing s with
  | nil => exact hs
  | cons a actions ih =>
    have hnext : I (S.next s a) := hstep s a (.head _) hs hruns.1 hruns.2.1
    exact ih hruns.2.2 hnext fun s b hb => hstep s b (.tail _ hb)

end Transition

/-! ### A mutex -/

namespace Mutex

variable {P : Type*}

/-- A party is in its critical section exactly when it owns the mutex. -/
def Owned (inside : P → Prop) (owner : Option P) : Prop := ∀ p, inside p ↔ owner = some p

variable {inside inside' : P → Prop} {owner : Option P} {p : P}

theorem Owned.unique (h : Owned inside owner) {p q : P} (hp : inside p) (hq : inside q) : p = q :=
  Option.some.inj (((h p).mp hp).symm.trans ((h q).mp hq))

/-- A step outside of the mutex, or within a critical section. -/
theorem Owned.congr (h : Owned inside owner) (hsame : ∀ q, inside' q ↔ inside q) :
    Owned inside' owner :=
  fun q => (hsame q).trans (h q)

theorem Owned.acquire (h : Owned inside none) (hothers : ∀ q, q ≠ p → (inside' q ↔ inside q))
    (hin : inside' p) : Owned inside' (some p) := by
  intro q
  by_cases hq : q = p
  · subst hq
    exact iff_of_true hin rfl
  · rw [hothers q hq, h q]
    exact iff_of_false nofun (fun heq => hq (Option.some.inj heq).symm)

theorem Owned.release (h : Owned inside (some p)) (hothers : ∀ q, q ≠ p → (inside' q ↔ inside q))
    (hout : ¬ inside' p) : Owned inside' none := by
  intro q
  by_cases hq : q = p
  · subst hq
    exact iff_of_false hout nofun
  · rw [hothers q hq, h q]
    exact iff_of_false (fun heq => hq (Option.some.inj heq).symm) nofun

end Mutex
