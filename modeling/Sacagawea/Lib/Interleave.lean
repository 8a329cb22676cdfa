import Mathlib.Logic.Function.Basic
import Sacagawea.Lib.Transition
import Sacagawea.Lib.Typestate

/-!
# Programs side by side

Parties that each run a program make their calls one at a time, in any order. What they share is a host:
it decides which answers a call can have at the moment and is changed by them, it sees a party halt, and
it takes steps of its own.

A property of all interleavings is proved for one call of one party, in a typestate that the programs are
checked against. The programs themselves are not looked at again (`Host.invariant`).
-/

/-- What the parties share, and what becomes of it. -/
structure Host (κ : Type) {C : Type} (R : C → Type) (σ A : Type) where
  init : σ
  allows : σ → κ → (c : C) → R c → Prop
  after : σ → κ → (c : C) → R c → σ
  halted : σ → κ → σ
  enabled : σ → A → Prop
  next : σ → A → σ

/-- The parties, with the calls each has made and whether the host has seen it halt. -/
structure Interleaving (κ : Type) {C : Type} (R : C → Type) (ε α σ : Type) where
  program : κ → Program R ε α
  trace : κ → Program.Trace R
  gone : κ → Bool
  host : σ

/-- A party makes its next call, which is answered from a table, or leaves when it has halted. -/
inductive Turn (κ : Type) {C : Type} (R : C → Type) (A : Type) where
  | call (k : κ) (answer : (c : C) → R c)
  | leave (k : κ)
  | own (a : A)

namespace Host

variable {κ C ε α σ A : Type} {R : C → Type} [DecidableEq κ]

/-! ### The steps -/

def turn (H : Host κ R σ A) (s : Interleaving κ R ε α σ) : Turn κ R A → Interleaving κ R ε α σ
  | .call k answer => match s.program k with
    | .call c next =>
      { s with
        program := Function.update s.program k (next (answer c))
        trace := Function.update s.trace k (s.trace k ++ [⟨c, answer c⟩])
        host := H.after s.host k c (answer c) }
    | _ => s
  | .leave k => { s with gone := Function.update s.gone k true, host := H.halted s.host k }
  | .own a => { s with host := H.next s.host a }

/-- The parties start with their programs. -/
def system (H : Host κ R σ A) (start : κ → Program R ε α) :
    Transition (Interleaving κ R ε α σ) (Turn κ R A) where
  init := ⟨start, fun _ => [], fun _ => false, H.init⟩
  enabled s
    | .call k answer => ∃ c next, s.program k = .call c next ∧ H.allows s.host k c (answer c)
    | .leave k => s.gone k = false ∧ ∃ e, s.program k = .halt e
    | .own a => H.enabled s.host a
  next := H.turn

variable {H : Host κ R σ A} {start : κ → Program R ε α} {s : Interleaving κ R ε α σ}
  {ok : Interleaving κ R ε α σ → Turn κ R A → Prop}

/-- What a call does. -/
theorem turn_call {k : κ} {answer : (c : C) → R c} {c : C} {next : R c → Program R ε α}
    (hprogram : s.program k = .call c next) :
    H.turn s (.call k answer) =
      { s with
        program := Function.update s.program k (next (answer c))
        trace := Function.update s.trace k (s.trace k ++ [⟨c, answer c⟩])
        host := H.after s.host k c (answer c) } := by
  simp only [turn, hprogram]

/-- A call that has an answer can be made. -/
theorem enabled_call [∀ c, Nonempty (R c)] {k : κ} {c : C} {r : R c} {next : R c → Program R ε α}
    (hprogram : s.program k = .call c next) (hallows : H.allows s.host k c r) :
    ∃ answer : (c : C) → R c, answer c = r ∧ (H.system start).enabled s (.call k answer) := by
  classical
  let answer : (c : C) → R c := Function.update (fun c => Classical.arbitrary (R c)) c r
  have hanswer : answer c = r := Function.update_self ..
  exact ⟨answer, hanswer, c, next, hprogram, hanswer ▸ hallows⟩

/-! ### The parties by themselves -/

/-- The calls of a party are a run of its program. -/
theorem steps_of_reach (h : (H.system start).Reach ok s) (k : κ) :
    (start k).Steps (s.trace k) (s.program k) := by
  refine h.invariant (I := fun s => (start k).Steps (s.trace k) (s.program k)) (.refl _) ?_
  intro s a _ ih _ henabled
  cases a with
  | leave => exact ih
  | own => exact ih
  | call j answer =>
    obtain ⟨c, next, hprogram, -⟩ := henabled
    change (start k).Steps ((H.turn s _).trace k) ((H.turn s _).program k)
    rw [turn_call hprogram]
    by_cases hk : k = j
    · subst hk
      rw [hprogram] at ih
      simp only [Function.update_self]
      exact ih.trans (.call c (answer c) (.refl _))
    · simpa only [Function.update_of_ne hk] using ih

variable {Q : Type} {T : κ → Typestate R Q} {post : α → Q → Prop} {q₀ : Q}

theorem typed_of_reach (hstart : ∀ k, (start k).Typed (T k) post q₀) (h : (H.system start).Reach ok s)
    (k : κ) : (s.program k).Typed (T k) post ((T k).after q₀ (s.trace k)) :=
  (hstart k).steps (steps_of_reach h k)

/-- A party that the host has seen halt makes no more calls. -/
theorem halted_of_gone (h : (H.system start).Reach ok s) {k : κ} (hgone : s.gone k = true) :
    ∃ e, s.program k = .halt e := by
  refine h.invariant (I := fun s => s.gone k = true → ∃ e, s.program k = .halt e) ?_ ?_ hgone
  · exact fun hgone => absurd hgone Bool.false_ne_true
  intro s a _ ih _ henabled hgone
  cases a with
  | own => exact ih hgone
  | leave j =>
    by_cases hk : k = j
    · exact hk ▸ henabled.2
    · change Function.update s.gone j true k = true at hgone
      rw [Function.update_of_ne hk] at hgone
      exact ih hgone
  | call j answer =>
    obtain ⟨c, next, hprogram, -⟩ := henabled
    change (H.turn s _).gone k = true at hgone
    change ∃ e, (H.turn s _).program k = .halt e
    rw [turn_call hprogram] at hgone ⊢
    obtain ⟨e, he⟩ := ih hgone
    by_cases hk : k = j
    · subst hk
      rw [hprogram] at he
      cases he
    · exact ⟨e, by simpa only [Function.update_of_ne hk] using he⟩

/-- The host allows the answers of a trace, one after the other. -/
def Grants (H : Host κ R σ A) (k : κ) : σ → Program.Trace R → Prop
  | _, [] => True
  | host, ⟨c, r⟩ :: trace => H.allows host k c r ∧ H.Grants k (H.after host k c r) trace

def afterAll (H : Host κ R σ A) (k : κ) (host : σ) (trace : Program.Trace R) : σ :=
  trace.foldl (fun host event => H.after host k event.1 event.2) host

/-- One party goes on while the others wait. -/
theorem reach_of_steps [∀ c, Nonempty (R c)] (h : (H.system start).Reach ok s) {k : κ}
    (hok : ∀ s answer, ok s (.call k answer)) {p : Program R ε α} {trace : Program.Trace R}
    (hsteps : (s.program k).Steps trace p) (hgrants : H.Grants k s.host trace) :
    (H.system start).Reach ok
      { s with
        program := Function.update s.program k p
        trace := Function.update s.trace k (s.trace k ++ trace)
        host := H.afterAll k s.host trace } := by
  generalize hprogram : s.program k = q at hsteps
  induction hsteps generalizing s with
  | refl q =>
    rw [← hprogram, List.append_nil, Function.update_eq_self, Function.update_eq_self]
    exact h
  | @call c next r trace q _ ih =>
    obtain ⟨answer, hanswer, henabled⟩ := @enabled_call _ _ _ _ _ _ _ _ H start s _ _ _ _ _ hprogram hgrants.1
    have hreach : (H.system start).Reach ok (H.turn s (.call k answer)) := h.step (hok _ _) henabled
    rw [turn_call hprogram, hanswer] at hreach
    have hlast := ih hreach hgrants.2 (Function.update_self ..)
    simp only [Function.update_self, Function.update_idem, List.append_assoc, List.singleton_append] at hlast
    exact hlast

/-- A party that can make a call has not halted. -/
theorem not_gone_of_call (h : (H.system start).Reach ok s) {k : κ} {c : C} {next : R c → Program R ε α}
    (hprogram : s.program k = .call c next) : s.gone k = false := by
  by_contra hgone
  obtain ⟨e, he⟩ := halted_of_gone h (eq_true_of_ne_false hgone)
  rw [hprogram] at he
  cases he

/-! ### All together -/

/-- The rule for all interleavings of programs that a typestate has been checked for. -/
theorem invariant (hstart : ∀ k, (start k).Typed (T k) post q₀)
    {I : (κ → Q) → (κ → Bool) → σ → Prop} (hinit : I (fun _ => q₀) (fun _ => false) H.init)
    (hcall : ∀ q gone host k c r, I q gone host → gone k = false → (T k).may (q k) c →
      H.allows host k c r → I (Function.update q k ((T k).next (q k) c r)) gone (H.after host k c r))
    (hleave : ∀ q gone host k, I q gone host → gone k = false →
      I q (Function.update gone k true) (H.halted host k))
    (hown : ∀ q gone host a, I q gone host → H.enabled host a → I q gone (H.next host a))
    (h : (H.system start).Reach ok s) : I (fun k => (T k).after q₀ (s.trace k)) s.gone s.host := by
  refine h.invariant (I := fun s => I (fun k => (T k).after q₀ (s.trace k)) s.gone s.host) ?_ ?_
  · exact hinit
  intro s a hs ih _ henabled
  cases a with
  | own a => exact hown _ _ _ a ih henabled
  | leave k => exact hleave _ _ _ k ih henabled.1
  | call k answer =>
    obtain ⟨c, next, hprogram, hallows⟩ := henabled
    have htyped := typed_of_reach hstart hs k
    rw [hprogram] at htyped
    have hstates : (fun j => (T j).after q₀ (Function.update s.trace k (s.trace k ++ [⟨c, answer c⟩]) j)) =
        Function.update (fun j => (T j).after q₀ (s.trace j)) k
          ((T k).next ((T k).after q₀ (s.trace k)) c (answer c)) := by
      funext j
      by_cases hj : j = k
      · subst hj
        simp only [Function.update_self, Typestate.after_append, Typestate.after_cons, Typestate.after_nil]
      · simp only [Function.update_of_ne hj]
    change I (fun j => (T j).after q₀ ((H.turn s _).trace j)) (H.turn s _).gone (H.turn s _).host
    rw [turn_call hprogram]
    simp only [hstates]
    exact hcall _ _ _ k c (answer c) ih (not_gone_of_call hs hprogram) htyped.1 hallows

end Host
