import Sacagawea.Lib.Split

/-!
# Tables written with delimiters

A table is a list of rows and a row a list of fields. It is written with one symbol between the
fields of a row and a pair of symbols behind each row, with nothing escaped. Reading it cuts at the
pair and then at the symbol. It is read back exactly when no field contains a delimiter.
-/

namespace Table

variable {α : Type*}

/-- Write the fields of each row with `x` between them and `a`, `b` behind them. -/
def encode (x a b : α) (rows : List (List (List α))) : List α :=
  rows.flatMap fun row => [x].intercalate row ++ [a, b]

/-- Cut into rows, and each row into fields. Behind the last delimiter there is one more row, with
one empty field if the text ends there. -/
def decode [DecidableEq α] (x a b : α) (text : List α) : List (List (List α)) :=
  (Split.splitPair a b text).map (List.splitOn x)

def Clean (x a b : α) (field : List α) : Prop := x ∉ field ∧ ¬ [a, b] <:+: field

instance [DecidableEq α] (x a b : α) (field : List α) : Decidable (Clean x a b field) :=
  inferInstanceAs (Decidable (_ ∧ _))

variable {x a b : α}

theorem encode_append (rows rows' : List (List (List α))) :
    encode x a b (rows ++ rows') = encode x a b rows ++ encode x a b rows' :=
  List.flatMap_append

variable [DecidableEq α]

/-- What is read has clean fields, and a field at least in each row. -/
theorem clean_of_mem_decode {text : List α} {row : List (List α)} (hrow : row ∈ decode x a b text) :
    row ≠ [] ∧ ∀ field ∈ row, Clean x a b field := by
  obtain ⟨line, hline, rfl⟩ := List.mem_map.mp hrow
  refine ⟨List.splitOn_ne_nil _ _, fun field hfield => ⟨Split.not_mem_of_mem_splitOn hfield, ?_⟩⟩
  intro hpair
  exact Split.not_infix_of_mem_splitPair hline (hpair.trans (Split.infix_of_mem_splitOn hfield))

theorem decode_encode (ha : x ≠ a) (hb : x ≠ b) (hab : a ≠ b) {rows : List (List (List α))}
    (hrows : ∀ row ∈ rows, row ≠ [] ∧ ∀ field ∈ row, Clean x a b field) :
    decode x a b (encode x a b rows) = rows ++ [[[]]] := by
  have hlines : ∀ line ∈ rows.map [x].intercalate, ¬ [a, b] <:+: line := by
    intro line hline hpair
    obtain ⟨row, hrow, rfl⟩ := List.mem_map.mp hline
    obtain ⟨field, hfield, hinfix⟩ := (Split.pair_infix_intercalate_iff ha hb row).mp hpair
    exact ((hrows row hrow).2 field hfield).2 hinfix
  have htext : encode x a b rows = (rows.map [x].intercalate).flatMap (· ++ [a, b]) := by
    rw [encode, List.flatMap_map]
  have hread : ∀ row ∈ rows, ([x].intercalate row).splitOn x = row := fun row hrow =>
    List.splitOn_intercalate x (fun field hfield => ((hrows row hrow).2 field hfield).1)
      (hrows row hrow).1
  rw [decode, htext, Split.splitPair_lines hab hlines, List.map_append, List.map_map]
  congr 1
  exact (List.map_congr_left hread).trans (List.map_id rows)

/-- A table is read back exactly when its fields are clean. -/
theorem decode_encode_iff (ha : x ≠ a) (hb : x ≠ b) (hab : a ≠ b) {rows : List (List (List α))} :
    decode x a b (encode x a b rows) = rows ++ [[[]]] ↔
      ∀ row ∈ rows, row ≠ [] ∧ ∀ field ∈ row, Clean x a b field := by
  refine ⟨fun h row hrow => ?_, decode_encode ha hb hab⟩
  exact clean_of_mem_decode (h ▸ List.mem_append_left _ hrow)

end Table
