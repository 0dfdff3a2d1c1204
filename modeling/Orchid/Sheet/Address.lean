import Orchid.Base.Text
import Orchid.Sheet.Reference

/-!
# Addresses of cells

An address is the letters of a column and a row; `orchid-viewers/src/office/calc.rs`. Columns and
rows are 32-bit numbers.
-/

namespace Orchid.Sheet

/-- `split_address` -/
def splitAddress (address : Text) : Option (ℕ × ℕ) :=
  if address.any Char.isDigit then do
    let col ← columnIndex (address.takeWhile fun ch => !ch.isDigit)
    let row ← parseU32 (address.dropWhile fun ch => !ch.isDigit)
    some (col, row)
  else none

/-- `u32::checked_add` -/
def checkedAdd (a b : ℕ) : Option ℕ := if a + b < 2 ^ 32 then some (a + b) else none

/-- The address of a column and a row. -/
def cellName (col row : ℕ) : Text := columnName col ++ Nat.toDigits 10 row

/-- `shift_address` -/
def shiftAddress (address : Text) (down right : ℕ) : Option Text := do
  let (col, row) ← splitAddress address
  let col ← checkedAdd col right
  let row ← checkedAdd row down
  if row = 0 ∨ maxRow < row then none
  else if 3 < (columnName col).length ∨ columnName col = [] then none
  else some (cellName col row)

/-- The cells of a rectangle, row by row. -/
def rectangle (c₁ c₂ r₁ r₂ : ℕ) : List (ℕ × ℕ) :=
  (List.range' r₁ (r₂ - r₁ + 1)).flatMap fun row =>
    (List.range' c₁ (c₂ - c₁ + 1)).map fun col => (col, row)

/-- `cells_in_range`; the outer `Option` is missing on a panic. -/
def cellsInRange (start finish : Text) : Option (Option (List Text)) :=
  match splitAddress start, splitAddress finish with
  | some (c₁, r₁), some (c₂, r₂) =>
    let width := max c₁ c₂ - min c₁ c₂ + 1
    let height := max r₁ r₂ - min r₁ r₂ + 1
    if 2 ^ 32 ≤ width ∨ 2 ^ 32 ≤ height then none
    else if 4096 < min (width * height) (2 ^ 32 - 1) then some none
    else
      some (some ((rectangle (min c₁ c₂) (max c₁ c₂) (min r₁ r₂) (max r₁ r₂)).map fun cell =>
        cellName cell.1 cell.2))
  | _, _ => some none

/-! ### Columns -/

lemma columnLetters_of_le {steps index : ℕ} (h : index ≤ steps) :
    columnLetters steps index = columnName index := by
  induction index using Nat.strong_induction_on generalizing steps with
  | h index ih =>
    unfold columnName
    cases steps with
    | zero => rw [Nat.le_zero.mp h]
    | succ steps =>
      cases index with
      | zero => rfl
      | succ index =>
        have hquot : index / 26 ≤ index := Nat.div_le_self ..
        rw [columnLetters, columnLetters, if_neg (Nat.succ_ne_zero _), if_neg (Nat.succ_ne_zero _),
          Nat.add_sub_cancel, ih _ (by omega) (by omega), ih _ (by omega) hquot]

lemma columnName_succ (index : ℕ) :
    columnName (index + 1) = columnName (index / 26) ++ [Char.ofNat (65 + index % 26)] := by
  rw [columnName, columnLetters, if_neg (Nat.succ_ne_zero _), Nat.add_sub_cancel,
    columnLetters_of_le (Nat.div_le_self ..)]

/-- A letter has its place in the alphabet. -/
lemma toUpper_spec {c : Char} (h : c.isAlpha = true) :
    c.toUpper.toNat - 65 < 26 ∧ Char.ofNat (65 + (c.toUpper.toNat - 65)) = c.toUpper := by
  have hascii : ∀ n < 128, (Char.ofNat n).isAlpha = true →
      (Char.ofNat n).toUpper.toNat - 65 < 26 ∧
        Char.ofNat (65 + ((Char.ofNat n).toUpper.toNat - 65)) = (Char.ofNat n).toUpper := by
    decide
  have hsmall : c.toNat < 128 := by
    delta Char.isAlpha Char.isUpper Char.isLower at h
    simp only [Bool.or_eq_true, Bool.and_eq_true, decide_eq_true_eq, ge_iff_le,
      UInt32.le_iff_toNat_le] at h
    change c.val.toNat < 128
    have hZ : 'Z'.val.toNat = 90 := rfl
    have hz : 'z'.val.toNat = 122 := rfl
    omega
  rw [← Char.ofNat_toNat c] at h ⊢
  exact hascii _ hsmall h

lemma columnName_of_columnIndex {letters : Text} {index : ℕ}
    (h : columnIndex letters = some index) : columnName index = letters.map Char.toUpper := by
  induction letters using List.reverseRecOn generalizing index with
  | nil =>
    obtain rfl : 0 = index := Option.some.inj h
    rfl
  | append_singleton letters ch ih =>
    rw [columnIndex_append] at h
    obtain ⟨value, hvalue, hstep⟩ := Option.bind_eq_some_iff.mp h
    obtain ⟨halpha, rfl, -⟩ := columnStep_eq_some hstep
    obtain ⟨hsmall, hchar⟩ := toUpper_spec halpha
    have hquot : (value * 26 + (ch.toUpper.toNat - 65)) / 26 = value := by omega
    have hrest : (value * 26 + (ch.toUpper.toNat - 65)) % 26 = ch.toUpper.toNat - 65 := by omega
    rw [← Nat.add_assoc, columnName_succ, hquot, hrest, hchar, ih hvalue, List.map_append,
      List.map_singleton]

lemma columnIndex_columnName {index : ℕ} (h : index < 2 ^ 32) :
    columnIndex (columnName index) = some index :=
  columnIndex_columnLetters (le_refl _) h

/-! ### Addresses -/

lemma parseU32_lt {t : Text} {n : ℕ} (h : parseU32 t = some n) : n < 2 ^ 32 := by
  simpa using (Option.filter_eq_some_iff.mp h).2

lemma splitAddress_eq_some {address : Text} {col row : ℕ}
    (h : splitAddress address = some (col, row)) : col < 2 ^ 32 ∧ row < 2 ^ 32 := by
  unfold splitAddress at h
  split_ifs at h
  obtain ⟨c, hc, h⟩ := Option.bind_eq_some_iff.mp h
  obtain ⟨r, hr, h⟩ := Option.bind_eq_some_iff.mp h
  cases h
  exact ⟨columnIndex_lt hc, parseU32_lt hr⟩

/-- An address is read as its column and its row. -/
lemma splitAddress_cellName {col row : ℕ} (hcol : col < 2 ^ 32) (hrow : row < 2 ^ 32) :
    splitAddress (cellName col row) = some (col, row) := by
  have hletters : ∀ c ∈ columnName col, (!c.isDigit) = true := by
    intro c hc
    have halpha := columnLetters_alpha _ _ c hc
    rw [Bool.not_eq_true']
    by_contra hdigit
    rw [Bool.not_eq_false] at hdigit
    rw [CellRef.not_isAlpha_of_isDigit hdigit] at halpha
    cases halpha
  have hdigits : ∀ c ∈ Nat.toDigits 10 row, c.isDigit = true := fun c hc =>
    Nat.isDigit_of_mem_toDigits (by decide) (by decide) hc
  have hne : Nat.toDigits 10 row ≠ [] := Nat.toDigits_ne_nil
  obtain ⟨d, ds, hds⟩ := List.exists_cons_of_ne_nil hne
  have hd : d.isDigit = true := hdigits d (by simp [hds])
  have hparse : parseU32 (Nat.toDigits 10 row) = some row := by
    have hpad : pad 0 row = Nat.toDigits 10 row := by simp [pad]
    exact hpad ▸ parseU32_pad hrow
  have htake : (cellName col row).takeWhile (fun ch => !ch.isDigit) = columnName col := by
    rw [cellName, List.takeWhile_append_of_pos hletters, hds,
      List.takeWhile_cons_of_neg (by simp [hd]), List.append_nil]
  have hdrop : (cellName col row).dropWhile (fun ch => !ch.isDigit) = Nat.toDigits 10 row := by
    rw [cellName, List.dropWhile_append_of_pos hletters, hds,
      List.dropWhile_cons_of_neg (by simp [hd])]
  have hany : (cellName col row).any Char.isDigit = true := by
    rw [List.any_eq_true]
    exact ⟨d, by simp [cellName, hds], hd⟩
  rw [splitAddress, if_pos hany, htake, hdrop, columnIndex_columnName hcol, hparse]
  rfl

lemma shiftAddress_eq_some {address x : Text} {down right : ℕ}
    (h : shiftAddress address down right = some x) :
    ∃ col row, splitAddress address = some (col, row) ∧ col + right < 2 ^ 32 ∧
      row + down < 2 ^ 32 ∧ x = cellName (col + right) (row + down) := by
  unfold shiftAddress checkedAdd at h
  obtain ⟨⟨col, row⟩, hsplit, h⟩ := Option.bind_eq_some_iff.mp h
  obtain ⟨col', hcol, h⟩ := Option.bind_eq_some_iff.mp h
  obtain ⟨row', hrow, h⟩ := Option.bind_eq_some_iff.mp h
  split_ifs at hcol with hcol'
  split_ifs at hrow with hrow'
  obtain rfl := Option.some.inj hcol
  obtain rfl := Option.some.inj hrow
  split_ifs at h
  exact ⟨col, row, hsplit, hcol', hrow', (Option.some.inj h).symm⟩

/-- Moving twice is moving once by the sums. -/
lemma shiftAddress_add {address x : Text} {d₁ r₁ d₂ r₂ : ℕ}
    (h : (shiftAddress address d₁ r₁).bind (fun a => shiftAddress a d₂ r₂) = some x) {y : Text}
    (h' : shiftAddress address (d₁ + d₂) (r₁ + r₂) = some y) : x = y := by
  obtain ⟨a, ha, hx⟩ := Option.bind_eq_some_iff.mp h
  obtain ⟨col, row, hsplit, hcol, hrow, rfl⟩ := shiftAddress_eq_some ha
  obtain ⟨col', row', hsplit', -, -, rfl⟩ := shiftAddress_eq_some hx
  obtain ⟨col'', row'', hsplit'', -, -, rfl⟩ := shiftAddress_eq_some h'
  rw [splitAddress_cellName hcol hrow] at hsplit'
  rw [hsplit] at hsplit''
  obtain ⟨rfl, rfl⟩ := Prod.mk.inj (Option.some.inj hsplit')
  obtain ⟨rfl, rfl⟩ := Prod.mk.inj (Option.some.inj hsplit'')
  rw [Nat.add_assoc, Nat.add_assoc]

/-! ### Ranges -/

lemma mem_rectangle {c₁ c₂ r₁ r₂ : ℕ} (hc : c₁ ≤ c₂) (hr : r₁ ≤ r₂) {cell : ℕ × ℕ} :
    cell ∈ rectangle c₁ c₂ r₁ r₂ ↔
      (c₁ ≤ cell.1 ∧ cell.1 ≤ c₂) ∧ (r₁ ≤ cell.2 ∧ cell.2 ≤ r₂) := by
  simp only [rectangle, List.mem_flatMap, List.mem_map, List.mem_range'_1]
  constructor
  · rintro ⟨row, hrow, col, hcol, rfl⟩
    simp only
    omega
  · intro h
    exact ⟨cell.2, by omega, cell.1, by omega, rfl⟩

/-- A cell stands before another: in a row above, or in the same one further left. -/
def Before (x y : ℕ × ℕ) : Prop := x.2 < y.2 ∨ x.2 = y.2 ∧ x.1 < y.1

lemma pairwise_rectangle (c₁ c₂ r₁ r₂ : ℕ) : (rectangle c₁ c₂ r₁ r₂).Pairwise Before := by
  rw [rectangle, List.pairwise_flatMap]
  constructor
  · intro row _
    rw [List.pairwise_map]
    exact (List.pairwise_lt_range' 1).imp fun h => .inr ⟨rfl, h⟩
  · refine (List.pairwise_lt_range' 1).imp fun {row row'} h x hx y hy => ?_
    obtain ⟨col, -, rfl⟩ := List.mem_map.mp hx
    obtain ⟨col', -, rfl⟩ := List.mem_map.mp hy
    exact .inl h

/-- Column names and indices undo each other, moving an address twice adds up, and a range lists
the cells of its rectangle row by row, each once, if there are no more than 4096 of them. -/
theorem address_spec :
    (∀ n, 1 ≤ n → n < 2 ^ 32 → columnIndex (columnName n) = some n) ∧
    (∀ letters index, letters ≠ [] → columnIndex letters = some index →
      columnName index = letters.map Char.toUpper) ∧
    (∀ address x y d₁ r₁ d₂ r₂,
      (shiftAddress address d₁ r₁).bind (fun a => shiftAddress a d₂ r₂) = some x →
      shiftAddress address (d₁ + d₂) (r₁ + r₂) = some y → x = y) ∧
    ∀ a b c₁ r₁ c₂ r₂, splitAddress a = some (c₁, r₁) → splitAddress b = some (c₂, r₂) →
      ((max c₁ c₂ - min c₁ c₂ + 1) * (max r₁ r₂ - min r₁ r₂ + 1) ≤ 4096 →
        ∃ cells : List (ℕ × ℕ),
          cellsInRange a b = some (some (cells.map fun cell => cellName cell.1 cell.2)) ∧
          (∀ cell, cell ∈ cells ↔ (min c₁ c₂ ≤ cell.1 ∧ cell.1 ≤ max c₁ c₂) ∧
            (min r₁ r₂ ≤ cell.2 ∧ cell.2 ≤ max r₁ r₂)) ∧
          cells.Pairwise Before ∧
          ∀ cell ∈ cells, splitAddress (cellName cell.1 cell.2) = some cell) ∧
      (4096 < (max c₁ c₂ - min c₁ c₂ + 1) * (max r₁ r₂ - min r₁ r₂ + 1) →
        max c₁ c₂ - min c₁ c₂ + 1 < 2 ^ 32 → max r₁ r₂ - min r₁ r₂ + 1 < 2 ^ 32 →
        cellsInRange a b = some none) := by
  refine ⟨fun n _ h => columnIndex_columnName h, fun _ _ _ h => columnName_of_columnIndex h,
    fun _ _ _ _ _ _ _ h h' => shiftAddress_add h h', ?_⟩
  intro a b c₁ r₁ c₂ r₂ ha hb
  have hc : min c₁ c₂ ≤ max c₁ c₂ := min_le_max
  have hr : min r₁ r₂ ≤ max r₁ r₂ := min_le_max
  have hc₂ : max c₁ c₂ < 2 ^ 32 := max_lt (splitAddress_eq_some ha).1 (splitAddress_eq_some hb).1
  have hr₂ : max r₁ r₂ < 2 ^ 32 := max_lt (splitAddress_eq_some ha).2 (splitAddress_eq_some hb).2
  generalize hwidth : max c₁ c₂ - min c₁ c₂ + 1 = width
  generalize hheight : max r₁ r₂ - min r₁ r₂ + 1 = height
  constructor
  · intro hsmall
    have hw : width ≤ width * height := Nat.le_mul_of_pos_right _ (by omega)
    have hh : height ≤ width * height := Nat.le_mul_of_pos_left _ (by omega)
    refine ⟨rectangle (min c₁ c₂) (max c₁ c₂) (min r₁ r₂) (max r₁ r₂), ?_,
      fun cell => mem_rectangle hc hr, pairwise_rectangle .., fun cell hcell => ?_⟩
    · simp only [cellsInRange, ha, hb, hwidth, hheight]
      rw [if_neg (by omega), if_neg (by omega)]
    · rw [mem_rectangle hc hr] at hcell
      exact splitAddress_cellName (hcell.1.2.trans_lt hc₂) (hcell.2.2.trans_lt hr₂)
  · intro hlarge hw hh
    simp only [cellsInRange, ha, hb, hwidth, hheight]
    rw [if_neg (by omega), if_pos (lt_min hlarge (by decide))]

theorem address_spec_moved : columnIndex (columnName 27) = some 27 ∧
    columnName 731 = "aBc".toList.map Char.toUpper ∧
    (∀ y, shiftAddress "AA5".toList (1 + 2) (3 + 4) = some y → "AH8".toList = y) ∧
    (∃ cells : List (ℕ × ℕ),
      cellsInRange "B3".toList "A1".toList =
        some (some (cells.map fun cell => cellName cell.1 cell.2)) ∧
      (∀ cell, cell ∈ cells ↔ (1 ≤ cell.1 ∧ cell.1 ≤ 2) ∧ (1 ≤ cell.2 ∧ cell.2 ≤ 3)) ∧
      cells.Pairwise Before ∧ ∀ cell ∈ cells, splitAddress (cellName cell.1 cell.2) = some cell) ∧
    cellsInRange "A1".toList "A5000".toList = some none :=
  have hspec := address_spec
  ⟨hspec.1 27 (by decide) (by decide), hspec.2.1 "aBc".toList 731 (by decide) (by decide),
    fun y h => hspec.2.2.1 "AA5".toList "AH8".toList y 1 3 2 4 (by decide) h,
    (hspec.2.2.2 "B3".toList "A1".toList 2 3 1 1 (by decide) (by decide)).1 (by decide),
    (hspec.2.2.2 "A1".toList "A5000".toList 1 1 1 5000 (by decide) (by decide)).2 (by decide)
      (by decide) (by decide)⟩

/-- A column of five thousand cells is not listed. -/
theorem not_cellsInRange : ¬ ∀ a b c₁ r₁ c₂ r₂, splitAddress a = some (c₁, r₁) →
    splitAddress b = some (c₂, r₂) → ∃ cells, cellsInRange a b = some (some cells) := by
  intro h
  obtain ⟨cells, hcells⟩ := h "A1".toList "A5000".toList 1 1 1 5000 (by decide) (by decide)
  have hnone : cellsInRange "A1".toList "A5000".toList = some none := by decide
  rw [hnone] at hcells
  cases hcells

end Orchid.Sheet
