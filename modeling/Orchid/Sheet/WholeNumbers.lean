import Mathlib.Algebra.Order.Floor.Semifield
import Mathlib.Data.List.Infix
import Orchid.Lib.Binary64

/-!
# Functions of whole numbers

`LCM`, `BITLSHIFT` and `BITRSHIFT`, which count in 64 bits; `orchid-viewers/src/office/calc.rs`. A
product that leaves them is a panic.
-/

namespace Orchid.Sheet

open Lib

/-! ### The least common multiple -/

/-- A product that does not fit. -/
inductive Overflow
  | overflow
  deriving DecidableEq

/-- `gcd_u64` -/
def gcdU64 (left right : ℕ) : ℕ :=
  if right = 0 then left else gcdU64 right (left % right)
termination_by right
decreasing_by exact Nat.mod_lt _ (Nat.pos_of_ne_zero ‹_›)

/-- `whole_arg` -/
def wholeArg : Binary64 → Option ℕ
  | .finite x => if x < 0 ∨ 10 ^ 15 ≤ x then none else some ⌊x⌋₊
  | _ => none

/-- The loop of `lcm_excel` from the number it has reached. -/
def lcmLoop (acc : ℕ) : List Binary64 → Except Overflow (Option ℕ)
  | [] => .ok (some (roundNat acc))
  | number :: args =>
    match wholeArg number with
    | none => .ok none
    | some next =>
      if next = 0 ∨ acc = 0 then .ok (some 0)
      else
        let acc := acc / gcdU64 acc next * next
        if 2 ^ 64 ≤ acc then .error .overflow
        else if 10 ^ 15 ≤ roundNat acc then .ok none
        else lcmLoop acc args

/-- `lcm_excel` -/
def lcmExcel (args : List Binary64) : Except Overflow (Option ℕ) :=
  if args = [] then .ok none else lcmLoop 1 args

lemma gcdU64_eq_gcd (left right : ℕ) : gcdU64 left right = left.gcd right := by
  fun_induction gcdU64 left right with
  | case1 left => exact (Nat.gcd_zero_right left).symm
  | case2 left right hne ih => rw [ih, Nat.gcd_comm left, Nat.gcd_rec right left, Nat.gcd_comm]

lemma div_gcdU64_mul (acc next : ℕ) : acc / gcdU64 acc next * next = acc.lcm next := by
  rw [gcdU64_eq_gcd, Nat.div_mul_right_comm (Nat.gcd_dvd_left acc next), Nat.lcm_eq_mul_div]

lemma wholeArg_of_range {x : ℚ} (h : 0 ≤ x ∧ x < 10 ^ 15) : wholeArg (.finite x) = some ⌊x⌋₊ :=
  if_neg (not_or.mpr ⟨h.1.not_gt, h.2.not_ge⟩)

/-- What `LCM` returns of whole numbers. -/
def lcmOf (acc : ℕ) (ns : List ℕ) : Option ℕ :=
  if 0 ∈ ns then some 0
  else if ns.foldl Nat.lcm acc < 10 ^ 15 then some (ns.foldl Nat.lcm acc) else none

/-- The multiple that reaches the bound fits into 64 bits, and no number behind it is zero. -/
def LeavesInRange (acc : ℕ) (ns : List ℕ) : Prop :=
  ∀ p n s, ns = p ++ n :: s → p.foldl Nat.lcm acc < 10 ^ 15 →
    10 ^ 15 ≤ (p ++ [n]).foldl Nat.lcm acc → (p ++ [n]).foldl Nat.lcm acc < 2 ^ 64 ∧ 0 ∉ s

lemma leavesInRange_nil (acc : ℕ) : LeavesInRange acc [] :=
  fun _ _ _ h => absurd h (by simp)

lemma foldl_lcm_zero (ns : List ℕ) : ns.foldl Nat.lcm 0 = 0 := by
  induction ns with
  | nil => rfl
  | cons n ns ih => rw [List.foldl_cons, Nat.lcm_zero_left, ih]

lemma leavesInRange_zero (ns : List ℕ) : LeavesInRange 0 ns :=
  fun _ _ _ _ _ h => absurd h (by rw [foldl_lcm_zero]; decide)

lemma le_foldl_lcm {ns : List ℕ} (h : 0 ∉ ns) {acc : ℕ} (hacc : acc ≠ 0) :
    acc ≤ ns.foldl Nat.lcm acc := by
  induction ns generalizing acc with
  | nil => exact le_rfl
  | cons n ns ih =>
    obtain ⟨hn, hns⟩ := not_or.mp (mt List.mem_cons.mpr h)
    have hstep : acc ≤ acc.lcm n :=
      Nat.le_of_dvd (Nat.lcm_pos (Nat.pos_of_ne_zero hacc) (Nat.pos_of_ne_zero (Ne.symm hn)))
        (Nat.dvd_lcm_left acc n)
    exact hstep.trans (ih hns (Nat.lcm_ne_zero hacc (Ne.symm hn)))

/-- Behind the first number the multiples start from that one. -/
lemma leavesInRange_cons {acc n : ℕ} {ns : List ℕ} (h : acc.lcm n < 10 ^ 15) :
    LeavesInRange acc (n :: ns) ↔ LeavesInRange (acc.lcm n) ns := by
  constructor
  · intro hleaves p m s hns hp hm
    exact hleaves (n :: p) m s (by rw [hns, List.cons_append]) hp hm
  · intro hleaves p m s hns hp hm
    cases p with
    | nil =>
      obtain ⟨rfl, rfl⟩ := List.cons.inj hns
      exact absurd hm h.not_ge
    | cons n' p =>
      obtain ⟨rfl, rfl⟩ := List.cons.inj hns
      exact hleaves p m s rfl hp hm

/-- At the number that takes the multiple to the bound, the two conditions on it remain. -/
lemma leavesInRange_of_reached {acc n : ℕ} {ns : List ℕ} (hacc : acc < 10 ^ 15)
    (h : 10 ^ 15 ≤ acc.lcm n) :
    LeavesInRange acc (n :: ns) ↔ acc.lcm n < 2 ^ 64 ∧ 0 ∉ ns := by
  constructor
  · exact fun hleaves => hleaves [] n ns rfl hacc h
  · intro hend p m s hns hp hm
    cases p with
    | nil =>
      obtain ⟨rfl, rfl⟩ := List.cons.inj hns
      exact hend
    | cons n' p =>
      obtain ⟨rfl, rfl⟩ := List.cons.inj hns
      have hmem : 0 ∉ p := fun hz => hend.2 (List.mem_append_left _ hz)
      have hne : acc.lcm n ≠ 0 := fun hz => absurd (hz ▸ h) (by decide)
      exact absurd (h.trans (le_foldl_lcm hmem hne)) hp.not_ge

lemma lcmOf_cons {n : ℕ} (hn : n ≠ 0) (acc : ℕ) (ns : List ℕ) :
    lcmOf acc (n :: ns) = lcmOf (acc.lcm n) ns := by
  have hmem : 0 ∈ n :: ns ↔ 0 ∈ ns := by simp [hn.symm]
  rw [lcmOf, lcmOf, List.foldl_cons]
  exact if_congr hmem rfl rfl

lemma lcmOf_of_reached {acc : ℕ} (hacc : acc ≠ 0) (h : 10 ^ 15 ≤ acc) (ns : List ℕ) :
    lcmOf acc ns = if 0 ∈ ns then some 0 else none := by
  unfold lcmOf
  split_ifs with hz hlt
  · rfl
  · exact absurd (h.trans (le_foldl_lcm hz hacc)) hlt.not_ge
  · rfl

lemma lcmLoop_iff {args : List ℚ} (hargs : ∀ x ∈ args, 0 ≤ x ∧ x < 10 ^ 15) {acc : ℕ}
    (hpos : acc ≠ 0) (hacc : acc < 10 ^ 15) :
    lcmLoop acc (args.map .finite) = .ok (lcmOf acc (args.map fun x => ⌊x⌋₊)) ↔
      LeavesInRange acc (args.map fun x => ⌊x⌋₊) := by
  induction args generalizing acc with
  | nil =>
    refine iff_of_true ?_ (leavesInRange_nil acc)
    rw [List.map_nil, lcmLoop, roundNat_of_lt (hacc.trans (by decide)), List.map_nil, lcmOf,
      if_neg List.not_mem_nil, List.foldl_nil, if_pos hacc]
  | cons x args ih =>
    have hrest : ∀ y ∈ args, 0 ≤ y ∧ y < 10 ^ 15 := fun y hy => hargs y (List.mem_cons_of_mem x hy)
    simp only [List.map_cons, lcmLoop, wholeArg_of_range (hargs x List.mem_cons_self),
      div_gcdU64_mul, or_iff_left hpos, le_roundNat_iff (by decide : 10 ^ 15 ≤ 2 ^ 53)]
    generalize ⌊x⌋₊ = n
    generalize hns : args.map (fun x => ⌊x⌋₊) = ns at ih ⊢
    by_cases hn : n = 0
    · subst hn
      rw [if_pos rfl, leavesInRange_cons (by simp), Nat.lcm_zero_right]
      exact iff_of_true (by simp [lcmOf]) (leavesInRange_zero ns)
    have hne : acc.lcm n ≠ 0 := Nat.lcm_ne_zero hpos hn
    rw [if_neg hn, lcmOf_cons hn]
    by_cases hreach : 10 ^ 15 ≤ acc.lcm n
    · rw [leavesInRange_of_reached hacc hreach, if_pos hreach, lcmOf_of_reached hne hreach]
      by_cases hfits : 2 ^ 64 ≤ acc.lcm n
      · rw [if_pos hfits]
        exact iff_of_false nofun fun h => hfits.not_gt h.1
      · rw [if_neg hfits, and_iff_right (not_le.mp hfits)]
        split_ifs with hz
        · exact iff_of_false nofun (not_not.mpr hz)
        · exact iff_of_true rfl hz
    · have hlt := not_le.mp hreach
      rw [if_neg (hlt.trans (by decide)).not_ge, if_neg hreach, leavesInRange_cons hlt,
        ih hrest hne hlt]

/-- `LCM` is right exactly if the least common multiple of the first arguments that reaches `1e15`
fits into 64 bits and no argument behind is zero. -/
theorem lcmExcel_iff (args : List ℚ) (hne : args ≠ [])
    (hargs : ∀ x ∈ args, 0 ≤ x ∧ x < 10 ^ 15) :
    lcmExcel (args.map .finite) = .ok (lcmOf 1 (args.map fun x => ⌊x⌋₊)) ↔
      LeavesInRange 1 (args.map fun x => ⌊x⌋₊) := by
  rw [lcmExcel, if_neg (mt List.map_eq_nil_iff.mp hne)]
  exact lcmLoop_iff hargs one_ne_zero (by decide)

theorem lcmExcel_pair : lcmExcel ([4, 13 / 2].map .finite) = .ok (some 12) := by
  have hfloor : ⌊(13 / 2 : ℚ)⌋₊ = 6 := by norm_num [Nat.floor_eq_iff]
  have hwhole : [(4 : ℚ), 13 / 2].map (fun x => ⌊x⌋₊) = [4, 6] := by simp [hfloor]
  have h := (lcmExcel_iff [4, 13 / 2] (by simp) (by norm_num)).mpr
  rw [hwhole] at h
  rw [h ?_]
  · rfl
  · rw [leavesInRange_cons (by decide), leavesInRange_cons (by decide)]
    exact leavesInRange_nil _

/-- `LCM(999999999999999, 999999999999998)` -/
theorem not_lcmExcel : ¬ ∀ args : List ℚ, args ≠ [] → (∀ x ∈ args, 0 ≤ x ∧ x < 10 ^ 15) →
    lcmExcel (args.map .finite) = .ok (lcmOf 1 (args.map fun x => ⌊x⌋₊)) := by
  intro h
  have hpair := h [999999999999999, 999999999999998] (by simp) (by norm_num)
  have hwhole : [(999999999999999 : ℚ), 999999999999998].map (fun x => ⌊x⌋₊) =
      [999999999999999, 999999999999998] := by simp
  rw [lcmExcel, if_neg (by simp), lcmLoop_iff (by norm_num) one_ne_zero (by decide),
    hwhole] at hpair
  have hend := hpair [999999999999999] 999999999999998 [] rfl (by decide) (by decide)
  exact absurd hend.1 (by decide)

/-! ### Moving bits -/

/-- `bit_whole` -/
def bitWhole : Binary64 → Option ℕ
  | .finite x => if x < 0 ∨ 2 ^ 48 ≤ x then none else some ⌊x⌋₊
  | _ => none

/-- `u64::checked_shl` -/
def checkedShl (n places : ℕ) : Option ℕ :=
  if places < 64 then some (n * 2 ^ places % 2 ^ 64) else none

/-- `bit_shift` -/
def bitShift (number shift : Binary64) (right : Bool) : Option ℕ :=
  match bitWhole number, shift with
  | some number, .finite shift =>
    if 53 < |truncate shift| then none
    else
      let places := if right then -truncate shift else truncate shift
      if 0 ≤ places then
        if 48 ≤ places ∧ number ≠ 0 then none
        else
          match checkedShl number places.toNat with
          | none => none
          | some shifted => if 2 ^ 48 ≤ shifted then none else some (roundNat shifted)
      else some (roundNat (number / 2 ^ (-places).toNat))
  | _, _ => none

/-- What a shift is meant to return: the number times a power of two, without what stands behind the
point. -/
def shifted (number : ℕ) (places : ℤ) : Option ℕ :=
  if ⌊(number * 2 ^ places : ℚ)⌋₊ < 2 ^ 48 then some ⌊(number * 2 ^ places : ℚ)⌋₊ else none

/-- A shift to the left leaves the bits where they are seen: if some go beyond the first 48, then
some of these are among the next sixteen. -/
def KeepsBits (number : ℕ) (places : ℤ) : Prop :=
  0 < places → places < 48 → number / 2 ^ (48 - places).toNat % 2 ^ 16 = 0 →
    number / 2 ^ (48 - places).toNat = 0

lemma shifted_natCast (number k : ℕ) :
    shifted number k = if number * 2 ^ k < 2 ^ 48 then some (number * 2 ^ k) else none := by
  have hvalue : (number * 2 ^ (k : ℤ) : ℚ) = (number * 2 ^ k : ℕ) := by push_cast; rfl
  rw [shifted, hvalue, Nat.floor_natCast]

lemma shifted_neg_natCast {number : ℕ} (hnumber : number < 2 ^ 48) (k : ℕ) :
    shifted number (-k) = some (number / 2 ^ k) := by
  have hvalue : (number * 2 ^ (-k : ℤ) : ℚ) = (number : ℚ) / (2 ^ k : ℕ) := by
    rw [zpow_neg, ← div_eq_mul_inv]
    push_cast
    rfl
  rw [shifted, hvalue, Nat.floor_div_eq_div, if_pos ((Nat.div_le_self ..).trans_lt hnumber)]

/-- The bits beyond the first 48 once the number is moved. -/
lemma div_two_pow {number k : ℕ} (hk : k ≤ 48) :
    number * 2 ^ k / 2 ^ 48 = number / 2 ^ (48 - k) := by
  have hsplit : 2 ^ 48 = 2 ^ (48 - k) * 2 ^ k := by rw [← pow_add, Nat.sub_add_cancel hk]
  rw [hsplit, Nat.mul_div_mul_right _ _ (by positivity)]

/-- The word holds the moved number, or it shows that it does not. -/
lemma word_iff (m : ℕ) :
    (if 2 ^ 48 ≤ m % 2 ^ 64 then none else some (roundNat (m % 2 ^ 64))) =
        (if m < 2 ^ 48 then some m else none) ↔ (m / 2 ^ 48 % 2 ^ 16 = 0 → m / 2 ^ 48 = 0) := by
  have hround (h : ¬ 2 ^ 48 ≤ m % 2 ^ 64) : roundNat (m % 2 ^ 64) = m % 2 ^ 64 :=
    roundNat_of_lt ((not_le.mp h).trans (by decide))
  split_ifs with hword hfits hfits
  · exact iff_of_false nofun (by omega)
  · exact iff_of_true rfl (by omega)
  · rw [hround hword, Option.some.injEq]
    omega
  · exact iff_of_false nofun (by omega)

theorem bitShift_iff (number : ℕ) (shift : ℤ) (right : Bool) (hnumber : number < 2 ^ 48)
    (hshift : |shift| ≤ 53) :
    bitShift (.finite number) (.finite shift) right =
        shifted number (if right then -shift else shift) ↔
      KeepsBits number (if right then -shift else shift) := by
  have hwhole : bitWhole (.finite number) = some number := by
    rw [bitWhole, if_neg (not_or.mpr ⟨not_lt.mpr (Nat.cast_nonneg _), not_le.mpr ?_⟩),
      Nat.floor_natCast]
    exact_mod_cast hnumber
  have hplaces : |if right then -shift else shift| ≤ 53 := by
    split_ifs
    · rwa [abs_neg]
    · exact hshift
  simp only [bitShift, hwhole, truncate_intCast, if_neg hshift.not_gt]
  generalize (if right then -shift else shift) = places at hplaces
  rcases le_or_gt 0 places with hsign | hsign
  · obtain ⟨k, rfl⟩ := Int.eq_ofNat_of_zero_le hsign
    rw [Nat.abs_cast] at hplaces
    have hk64 : k < 64 := by omega
    rw [if_pos hsign, Int.toNat_natCast, shifted_natCast, checkedShl, if_pos hk64]
    by_cases hk : 48 ≤ k
    · have hkeeps : KeepsBits number k := fun _ hlt => absurd hlt (by omega)
      refine iff_of_true ?_ hkeeps
      by_cases hzero : number = 0
      · subst hzero
        rw [if_neg fun h => h.2 rfl, Nat.zero_mul]
        rfl
      · have hbig : 2 ^ 48 ≤ number * 2 ^ k :=
          (Nat.pow_le_pow_right two_pos hk).trans
            (Nat.le_mul_of_pos_left _ (Nat.pos_of_ne_zero hzero))
        have hplace : (48 : ℤ) ≤ k := by exact_mod_cast hk
        rw [if_pos (And.intro hplace hzero), if_neg hbig.not_gt]
    · have hplace : ¬ ((48 : ℤ) ≤ k ∧ number ≠ 0) := fun h => hk (by exact_mod_cast h.1)
      have hrest : (48 - (k : ℤ)).toNat = 48 - k := by omega
      rw [if_neg hplace]
      refine (word_iff _).trans ?_
      rw [div_two_pow (by omega), KeepsBits, hrest]
      constructor
      · exact fun h _ _ => h
      · intro h
        by_cases hzero : k = 0
        · intro _
          rw [hzero]
          exact Nat.div_eq_of_lt hnumber
        · exact h (by omega) (by omega)
  · obtain ⟨k, rfl⟩ := Int.exists_eq_neg_ofNat hsign.le
    refine iff_of_true ?_ fun hpos => absurd hpos (by omega)
    rw [if_neg hsign.not_ge, shifted_neg_natCast hnumber, neg_neg, Int.toNat_natCast,
      roundNat_of_lt]
    exact (Nat.div_le_self ..).trans_lt (hnumber.trans (by decide))

theorem bitShift_iff_three : bitShift (.finite 5) (.finite 3) false = shifted 5 3 :=
  (bitShift_iff 5 3 false (by decide) (by decide)).mpr (fun _ _ _ => by decide)

/-- `BITLSHIFT(140737488355328, 17)` -/
theorem not_bitShift : ¬ ∀ (number : ℕ) (shift : ℤ) (right : Bool), number < 2 ^ 48 →
    |shift| ≤ 53 → bitShift (.finite number) (.finite shift) right =
      shifted number (if right then -shift else shift) := by
  intro h
  have hword := h (2 ^ 47) 17 false (by decide) (by decide)
  have hlost : bitShift (.finite (2 ^ 47 : ℕ)) (.finite (17 : ℤ)) false = some 0 := by
    norm_num [bitShift, bitWhole, truncate, checkedShl]
    decide
  have hshifted : shifted (2 ^ 47) 17 = none := (shifted_natCast _ 17).trans (if_neg (by decide))
  rw [hlost, if_neg Bool.false_ne_true, hshifted] at hword
  cases hword

end Orchid.Sheet
