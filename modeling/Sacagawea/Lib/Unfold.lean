import Mathlib.Data.List.Forall2
import Mathlib.Data.Option.Basic

/-!
# What can be reached from a node

A node has labelled items, and behind an item there can be a node again. Following them to a depth
gives the labels on each way from the node. Two ways of finding the items of a node agree to a depth
when they agree at each node, on the labels and up to the relation of the nodes behind them.
-/

namespace Unfold

variable {ν μ α : Type*}

/-- The labels on the ways from the node that have at most `depth` items. -/
def ways (items : ν → List (α × Option ν)) : (depth : Nat) → ν → List (List α)
  | 0, _ => []
  | depth + 1, v => (items v).flatMap fun item =>
    [item.1] :: (item.2.elim [] (ways items depth)).map (item.1 :: ·)

/-- The two items have the same label, and related nodes behind them. -/
def Matches (R : ν → μ → Prop) (item : α × Option ν) (item' : α × Option μ) : Prop :=
  item.1 = item'.1 ∧ Option.Rel R item.2 item'.2

theorem Matches.mono {R R' : ν → μ → Prop} {item : α × Option ν} {item' : α × Option μ}
    (h : Matches R item item') (hR : ∀ v w, R v w → R' v w) : Matches R' item item' := by
  obtain ⟨label, behind⟩ := item
  obtain ⟨label', behind'⟩ := item'
  obtain ⟨hlabel, hbehind⟩ : label = label' ∧ Option.Rel R behind behind' := h
  refine ⟨hlabel, ?_⟩
  cases hbehind with
  | none => exact .none
  | some hnode => exact .some (hR _ _ hnode)

/-- Nodes whose items match as far as the depth goes have the same ways. -/
theorem ways_eq {items : ν → List (α × Option ν)} {items' : μ → List (α × Option μ)}
    {R : Nat → ν → μ → Prop}
    (hitems : ∀ depth v w, R (depth + 1) v w → List.Forall₂ (Matches (R depth)) (items v) (items' w))
    {depth : Nat} {v : ν} {w : μ} (h : R depth v w) : ways items depth v = ways items' depth w := by
  induction depth generalizing v w with
  | zero => rfl
  | succ depth ih =>
    have hlists := hitems depth v w h
    simp only [ways]
    generalize items v = front, items' w = front' at hlists
    induction hlists with
    | nil => rfl
    | @cons item item' rest rest' hitem _ ihrest =>
      obtain ⟨label, behind⟩ := item
      obtain ⟨label', behind'⟩ := item'
      obtain ⟨rfl, hbehind⟩ : label = label' ∧ Option.Rel (R depth) behind behind' := hitem
      have hways : behind.elim [] (ways items depth) = behind'.elim [] (ways items' depth) := by
        cases hbehind with
        | none => rfl
        | some hnode => exact ih hnode
      rw [List.flatMap_cons, List.flatMap_cons, ihrest, hways]

end Unfold
