import Mathlib.Data.Int.CardIntervalMod
import Mathlib.Data.Int.ConditionallyCompleteOrder
import Mathlib.Data.Int.Interval
import Mathlib.Data.Nat.Nth
import Orchid.Lib.Binary64

/-!
# Working days

`NETWORKDAYS` and `WORKDAY`; `orchid-viewers/src/office/calc.rs`. Days are numbered, and a weekend
is a mask of the days of the week from Monday on.
-/

namespace Orchid.Sheet

open Lib

/-- A mask of the days of the week. -/
abbrev Weekend := Fin 7 → Bool

/-- `WEEKEND_SAT_SUN` -/
def weekendSatSun : Weekend := fun day => day = 5 || day = 6

/-- `weekday_mon0` -/
def weekdayMon0 (serial : ℤ) : Fin 7 :=
  Fin.ofNat 7 ((if serial % 7 = 0 then 7 else serial % 7) - 1).toNat

/-- `is_workday_serial` -/
def isWorkdaySerial (serial : ℤ) : Bool := !weekendSatSun (weekdayMon0 serial)

/-- `holiday_hit` -/
def holidayHit (day : ℤ) (holidays : List Binary64) : Bool :=
  holidays.any fun holiday => holiday.toI64 == day

/-- The last day of the calendar. -/
def lastSerial : ℤ := 2958465

/-- `networkdays_excel` -/
def networkdaysExcel (start finish : Binary64) (holidays : List Binary64) : Option ℤ :=
  match start, finish with
  | .finite _, .finite _ =>
    let first := min start.toI64 finish.toI64
    let last := max start.toI64 finish.toI64
    if first < 0 ∨ lastSerial < last ∨ 100000 < last - first then none
    else
      let days := (List.range (last - first + 1).toNat).map fun i : ℕ => first + i
      let count := days.countP fun day => isWorkdaySerial day && !holidayHit day holidays
      some (if start.toI64 ≤ finish.toI64 then (count : ℤ) else -count)
  | _, _ => none

/-- A day that is neither in a weekend nor a holiday. -/
def works (weekend : Weekend) (holidays : List Binary64) (day : ℤ) : Bool :=
  !weekend (weekdayMon0 day) && !holidayHit day holidays

/-- The loop of `workday_excel`, by at most so many days. -/
def workdayLoop (weekend : Weekend) (holidays : List Binary64) (step : ℤ) :
    ℕ → ℕ → ℤ → Option ℤ
  | _, 0, day => some day
  | 0, _ + 1, _ => none
  | guard + 1, left + 1, day =>
    if ¬ (0 ≤ day + step ∧ day + step ≤ lastSerial) then none
    else
      workdayLoop weekend holidays step guard
        (if works weekend holidays (day + step) then left else left + 1) (day + step)

/-- `workday_excel` -/
def workdayExcel (start days : Binary64) (holidays : List Binary64) (weekend : Weekend) :
    Option ℤ :=
  match start, days with
  | .finite s, .finite d =>
    if s < 0 ∨ lastSerial < s then none
    else if 10000 < |truncate d| then none
    else if truncate d = 0 then some (truncate s)
    else
      workdayLoop weekend holidays (if 0 < truncate d then 1 else -1) 20000 (truncate d).natAbs
        start.toI64
  | _, _ => none

/-! ### Counting days -/

/-- The working days behind `start` up to `day`, less those from `day` up to it. -/
noncomputable def worked (p : ℤ → Bool) (start day : ℤ) : ℤ :=
  ((Finset.Ioc start day).filter fun d => p d).card -
    ((Finset.Ico day start).filter fun d => p d).card

/-- `day` is the working day with so many behind `start`. -/
def IsWorkday (p : ℤ → Bool) (start count day : ℤ) : Prop :=
  worked p start day = count ∧ p day = true

/-- The days that follow one in a direction. -/
def following (p : ℤ → Bool) (step start : ℤ) (i : ℕ) : Prop := p (start + step * (i + 1)) = true

instance (p : ℤ → Bool) (step start : ℤ) : DecidablePred (following p step start) :=
  fun _ => inferInstanceAs (Decidable (_ = _))

lemma card_eq_count (p : ℤ → Bool) {step : ℤ} (start : ℤ) (k : ℕ) (days : Finset ℤ)
    (hstep : step ≠ 0) (hdays : ∀ d, d ∈ days ↔ ∃ i < k, start + step * (i + 1) = d) :
    (days.filter fun d => p d).card = Nat.count (following p step start) k := by
  rw [Nat.count_eq_card_filter_range]
  symm
  refine Finset.card_bij (fun i _ => start + step * (i + 1)) ?_ ?_ ?_
  · intro i hi
    obtain ⟨hi, hp⟩ := Finset.mem_filter.mp hi
    exact Finset.mem_filter.mpr ⟨(hdays _).mpr ⟨i, Finset.mem_range.mp hi, rfl⟩, hp⟩
  · intro i _ j _ h
    have := mul_left_cancel₀ hstep (add_left_cancel h)
    omega
  · intro d hd
    obtain ⟨hd, hp⟩ := Finset.mem_filter.mp hd
    obtain ⟨i, hi, rfl⟩ := (hdays d).mp hd
    exact ⟨i, Finset.mem_filter.mpr ⟨Finset.mem_range.mpr hi, hp⟩, rfl⟩

lemma worked_add (p : ℤ → Bool) (start : ℤ) (k : ℕ) :
    worked p start (start + k) = Nat.count (following p 1 start) k := by
  have hcard := card_eq_count p start k (Finset.Ioc start (start + k)) one_ne_zero fun d => by
      rw [Finset.mem_Ioc]
      refine ⟨fun h => ⟨(d - start - 1).toNat, by omega, by omega⟩, ?_⟩
      rintro ⟨i, hi, rfl⟩
      omega
  have hempty : Finset.Ico (start + k) start = ∅ := Finset.Ico_eq_empty (by omega)
  rw [worked, hcard, hempty, Finset.filter_empty, Finset.card_empty, Nat.cast_zero, sub_zero]

lemma worked_sub (p : ℤ → Bool) (start : ℤ) (k : ℕ) :
    worked p start (start - k) = -Nat.count (following p (-1) start) k := by
  have hcard := card_eq_count p start k (Finset.Ico (start - k) start)
    (neg_ne_zero.mpr one_ne_zero) fun d => by
      rw [Finset.mem_Ico]
      refine ⟨fun h => ⟨(start - d - 1).toNat, by omega, by omega⟩, ?_⟩
      rintro ⟨i, hi, rfl⟩
      omega
  have hempty : Finset.Ioc start (start - k) = ∅ := Finset.Ioc_eq_empty (by omega)
  rw [worked, hcard, hempty, Finset.filter_empty, Finset.card_empty, Nat.cast_zero, zero_sub]

lemma following_succ (p : ℤ → Bool) (step start : ℤ) (i : ℕ) :
    following p step start (i + 1) ↔ following p step (start + step) i := by
  have hday : start + step * (((i + 1 : ℕ) : ℤ) + 1) = start + step + step * (i + 1) := by
    push_cast
    ring
  rw [following, following, hday]

lemma count_following_succ (p : ℤ → Bool) (step start : ℤ) (k : ℕ) :
    Nat.count (following p step start) (k + 1) =
      Nat.count (following p step (start + step)) k +
        if following p step start 0 then 1 else 0 := by
  rw [Nat.count_succ']
  congr 2
  funext i
  exact propext (following_succ p step start i)

lemma worked_step {p : ℤ → Bool} {step : ℤ} (hstep : step = 1 ∨ step = -1) (start : ℤ) (k : ℕ) :
    worked p start (start + step * k) = step * Nat.count (following p step start) k := by
  rcases hstep with rfl | rfl
  · rw [one_mul, one_mul, worked_add]
  · rw [neg_one_mul, neg_one_mul, ← sub_eq_add_neg, worked_sub]

lemma exists_step {p : ℤ → Bool} {step : ℤ} (hstep : step = 1 ∨ step = -1) {start day : ℤ}
    (h : 0 < step * worked p start day) : ∃ k : ℕ, day = start + step * (k + 1) := by
  rcases hstep with rfl | rfl
  · have hlt : start < day := by
      by_contra hle
      rw [worked, Finset.Ioc_eq_empty hle, Finset.filter_empty, Finset.card_empty] at h
      omega
    exact ⟨(day - start - 1).toNat, by omega⟩
  · have hlt : day < start := by
      by_contra hle
      rw [worked, Finset.Ico_eq_empty hle, Finset.filter_empty, Finset.card_empty] at h
      omega
    exact ⟨(start - day - 1).toNat, by omega⟩

/-- The day is the one that follows behind so many working ones. -/
lemma isWorkday_iff {p : ℤ → Bool} {step : ℤ} (hstep : step = 1 ∨ step = -1) {start day : ℤ}
    {left : ℕ} : IsWorkday p start (step * (left + 1)) day ↔
      ∃ k : ℕ, day = start + step * (k + 1) ∧ following p step start k ∧
        Nat.count (following p step start) k = left := by
  have hsquare : step * step = 1 := by rcases hstep with rfl | rfl <;> rfl
  have hcancel {a b : ℤ} (h : step * a = step * b) : a = b := by
    rcases hstep with rfl | rfl <;> omega
  have hcount (k : ℕ) (hk : following p step start k) :
      worked p start (start + step * (k + 1)) =
        step * (Nat.count (following p step start) k + 1) := by
    have hworked := worked_step (p := p) hstep start (k + 1)
    rw [Nat.count_succ, if_pos hk] at hworked
    exact_mod_cast hworked
  constructor
  · rintro ⟨hworked, hday⟩
    have hpos : 0 < step * worked p start day := by
      rw [hworked, ← mul_assoc, hsquare]
      omega
    obtain ⟨k, rfl⟩ := exists_step hstep hpos
    refine ⟨k, rfl, hday, ?_⟩
    have := hcancel ((hcount k hday).symm.trans hworked)
    omega
  · rintro ⟨k, rfl, hk, rfl⟩
    exact ⟨hcount k hk, hk⟩

lemma isWorkday_unique {p : ℤ → Bool} {start count day day' : ℤ} (hcount : count ≠ 0)
    (h : IsWorkday p start count day) (h' : IsWorkday p start count day') : day = day' := by
  obtain ⟨step, left, hstep, rfl⟩ :
      ∃ (step : ℤ) (left : ℕ), (step = 1 ∨ step = -1) ∧ count = step * (left + 1) := by
    rcases lt_or_gt_of_ne hcount with hneg | hpos
    · exact ⟨-1, (-count - 1).toNat, .inr rfl, by omega⟩
    · exact ⟨1, (count - 1).toNat, .inl rfl, by omega⟩
  obtain ⟨k, rfl, hk, heq⟩ := (isWorkday_iff hstep).mp h
  obtain ⟨k', rfl, hk', heq'⟩ := (isWorkday_iff hstep).mp h'
  rw [Nat.count_injective hk hk' (heq.trans heq'.symm)]

/-! ### The loop -/

lemma weekdayMon0_eq_iff {day : ℤ} {i : Fin 7} :
    weekdayMon0 day = i ↔ (day - i - 1) % 7 = 0 := by
  have := i.isLt
  rw [weekdayMon0, Fin.ext_iff, Fin.val_ofNat]
  split_ifs <;> omega

variable {weekend : Weekend} {holidays : List Binary64} {step : ℤ}

/-- Behind any day there are more working days than the list has holidays. -/
lemma infinite_following (holidays : List Binary64) (hmask : ∃ i, weekend i = false)
    (hstep : step = 1 ∨ step = -1) (start : ℤ) :
    (Set.ofPred (following (works weekend holidays) step start)).Infinite := by
  obtain ⟨i, hi⟩ := hmask
  have hne : step ≠ 0 := by rcases hstep with rfl | rfl <;> decide
  have hinj : Function.Injective fun k : ℕ => start + step * ((k : ℤ) + 1) := by
    intro k k' h
    have := mul_left_cancel₀ hne (add_left_cancel h)
    omega
  let week : Set ℕ := {k | weekdayMon0 (start + step * (k + 1)) = i}
  let free : Set ℤ := {d | d ∈ holidays.map Binary64.toI64}
  have hweek : week.Infinite := by
    refine Set.infinite_of_injective_forall_mem
      (f := fun m : ℕ => 7 * m + ((step * (i + 1 - start) - 1) % 7).toNat) (fun m m' h => ?_)
      fun m => weekdayMon0_eq_iff.mpr ?_
    · simp only at h
      omega
    · rcases hstep with rfl | rfl <;> push_cast <;> omega
  have hfree : (Set.preimage (fun k : ℕ => start + step * ((k : ℤ) + 1)) free).Finite :=
    (List.finite_toSet _).preimage hinj.injOn
  refine (hweek.sdiff hfree).mono fun k hk => ?_
  have hday : weekdayMon0 (start + step * (k + 1)) = i := hk.1
  have hhit : holidayHit (start + step * (k + 1)) holidays = false := by
    rw [← Bool.not_eq_true, holidayHit, List.any_eq_true]
    rintro ⟨h, hmem, heq⟩
    exact hk.2 (List.mem_map.mpr ⟨h, hmem, beq_iff_eq.mp heq⟩)
  show works weekend holidays (start + step * (k + 1)) = true
  rw [works, hday, hi, hhit]
  rfl

/-- The loop comes to the day behind so many working ones, unless it is out of reach. -/
lemma workdayLoop_eq (hstep : step = 1 ∨ step = -1) {day : ℤ} {left k : ℕ}
    (hin : 0 ≤ day ∧ day ≤ lastSerial) (hk : following (works weekend holidays) step day k)
    (hleft : Nat.count (following (works weekend holidays) step day) k = left) (guard : ℕ) :
    workdayLoop weekend holidays step guard (left + 1) day =
      if k + 1 ≤ guard ∧ 0 ≤ day + step * (k + 1) ∧ day + step * (k + 1) ≤ lastSerial then
        some (day + step * (k + 1)) else none := by
  induction guard generalizing day left k with
  | zero => rw [workdayLoop, if_neg (by omega)]
  | succ guard ih =>
    rw [workdayLoop]
    by_cases hnext : 0 ≤ day + step ∧ day + step ≤ lastSerial
    · rw [if_neg (not_not.mpr hnext)]
      cases k with
      | zero =>
        have hworks : works weekend holidays (day + step) = true := by
          simpa [following] using hk
        obtain rfl : left = 0 := hleft.symm
        rw [if_pos hworks, workdayLoop, if_pos (by simpa using hnext)]
        simp
      | succ k =>
        rw [following_succ] at hk
        rw [count_following_succ] at hleft
        have hday : day + step * (((k + 1 : ℕ) : ℤ) + 1) = day + step + step * (k + 1) := by
          push_cast
          ring
        have hfirst : following (works weekend holidays) step day 0 ↔
            works weekend holidays (day + step) = true := by
          simp [following]
        have hrest : (if works weekend holidays (day + step) then left else left + 1) =
            Nat.count (following (works weekend holidays) step (day + step)) k + 1 := by
          rw [← hleft]
          simp only [hfirst]
          split_ifs <;> rfl
        rw [hday, hrest, ih hnext hk rfl]
        exact if_congr (and_congr_left' Nat.succ_le_succ_iff.symm) rfl rfl
    · rw [if_pos hnext, if_neg]
      rintro ⟨-, hlow, hhigh⟩
      rcases hstep with rfl | rfl <;> omega

/-- The working days of a range are counted. -/
lemma networkdaysExcel_eq {first last : ℤ} (hle : first ≤ last)
    (hfirst : 0 ≤ first) (hlast : last ≤ lastSerial) (hfar : last - first ≤ 100000) :
    networkdaysExcel (.finite first) (.finite last) holidays =
      some (((Finset.Icc first last).filter fun d => works weekendSatSun holidays d).card : ℤ) := by
  have hbound : lastSerial < 2 ^ 63 := by decide
  have hfirst64 : Binary64.toI64 (.finite first) = first := Binary64.toI64_intCast (by omega)
  have hlast64 : Binary64.toI64 (.finite last) = last := Binary64.toI64_intCast (by omega)
  have hdays := card_eq_count (works weekendSatSun holidays) (first - 1)
    (last - first + 1).toNat (Finset.Icc first last) one_ne_zero fun d => by
      rw [Finset.mem_Icc]
      refine ⟨fun h => ⟨(d - first).toNat, by omega, by omega⟩, ?_⟩
      rintro ⟨i, hi, rfl⟩
      omega
  have hcount : ((List.range (last - first + 1).toNat).map fun i : ℕ => first + i).countP
      (fun day => isWorkdaySerial day && !holidayHit day holidays) =
        Nat.count (following (works weekendSatSun holidays) 1 (first - 1))
          (last - first + 1).toNat := by
    rw [List.countP_map, Nat.count]
    refine List.countP_congr fun i _ => ?_
    have hday : first - 1 + 1 * ((i : ℤ) + 1) = first + i := by ring
    rw [decide_eq_true_eq, following, hday]
    rfl
  rw [networkdaysExcel, hfirst64, hlast64]
  simp only [min_eq_left hle, max_eq_right hle]
  rw [if_neg (by omega), if_pos hle, hdays, hcount]

/-- `WORKDAY` finds the working day with as many in between as it is asked for, if it lies in the
calendar and not more than twenty thousand days away; for the usual weekend `NETWORKDAYS` counts
these days again. Asked for none it returns the day it starts from. -/
theorem workdayExcel_spec (start days : ℚ) (holidays : List Binary64) (weekend : Weekend)
    (hstart : 0 ≤ start ∧ start ≤ lastSerial) (hdays : |days| ≤ 10000)
    (hmask : ∃ i, weekend i = false) :
    (truncate days = 0 →
      workdayExcel (.finite start) (.finite days) holidays weekend = some (truncate start)) ∧
    (truncate days ≠ 0 → ∃ d,
      IsWorkday (works weekend holidays) (truncate start) (truncate days) d ∧
      (∀ d', IsWorkday (works weekend holidays) (truncate start) (truncate days) d' → d' = d) ∧
      workdayExcel (.finite start) (.finite days) holidays weekend =
        (if |d - truncate start| ≤ 20000 ∧ 0 ≤ d ∧ d ≤ lastSerial then some d else none) ∧
      (weekend = weekendSatSun → |d - truncate start| ≤ 20000 → 0 ≤ d → d ≤ lastSerial →
        (0 < truncate days → networkdaysExcel (.finite (truncate start + 1 : ℤ)) (.finite d)
          holidays = some (truncate days)) ∧
        (truncate days < 0 → networkdaysExcel (.finite d) (.finite (truncate start - 1 : ℤ))
          holidays = some (-truncate days)))) := by
  have hs : 0 ≤ truncate start ∧ truncate start ≤ lastSerial := by
    rw [truncate, if_pos hstart.1]
    exact ⟨Int.floor_nonneg.mpr hstart.1, by exact_mod_cast (Int.floor_le start).trans hstart.2⟩
  have hd : |truncate days| ≤ 10000 := abs_truncate_le (by exact_mod_cast hdays)
  have hin : ¬ (start < 0 ∨ lastSerial < start) := not_or.mpr ⟨hstart.1.not_gt, hstart.2.not_gt⟩
  have hstart64 : Binary64.toI64 (.finite start) = truncate start := by
    have hbound : lastSerial < 2 ^ 63 := by decide
    rw [Binary64.toI64]
    omega
  simp only [workdayExcel, if_neg hin, if_neg hd.not_gt, hstart64]
  generalize truncate start = s at hs
  generalize truncate days = count at hd
  refine ⟨fun h => if_pos h, fun hcount => ?_⟩
  rw [if_neg hcount]
  obtain ⟨step, left, hstep, hsign, hleft⟩ : ∃ (step : ℤ) (left : ℕ), (step = 1 ∨ step = -1) ∧
      (if 0 < count then 1 else -1) = step ∧ count = step * (left + 1) := by
    rcases lt_or_gt_of_ne hcount with hneg | hpos
    · exact ⟨-1, (-count - 1).toNat, .inr rfl, if_neg hneg.not_gt, by omega⟩
    · exact ⟨1, (count - 1).toNat, .inl rfl, if_pos hpos, by omega⟩
  have hinf := infinite_following holidays hmask hstep s
  obtain ⟨k, hk, hkleft⟩ : ∃ k, following (works weekend holidays) step s k ∧
      Nat.count (following (works weekend holidays) step s) k = left :=
    ⟨_, Nat.nth_mem_of_infinite hinf left, Nat.count_nth_of_infinite hinf left⟩
  have hday : IsWorkday (works weekend holidays) s count (s + step * (k + 1)) :=
    hleft ▸ (isWorkday_iff hstep).mpr ⟨k, rfl, hk, hkleft⟩
  have habs : count.natAbs = left + 1 := by
    rw [hleft, Int.natAbs_mul]
    rcases hstep with rfl | rfl <;> simp <;> omega
  have hfar : |s + step * (k + 1) - s| = k + 1 := by
    rw [add_sub_cancel_left, abs_mul]
    rcases hstep with rfl | rfl <;> simp <;> omega
  refine ⟨_, hday, fun d' hd' => isWorkday_unique hcount hd' hday, ?_, ?_⟩
  · rw [hsign, habs, workdayLoop_eq hstep hs hk hkleft, hfar]
    exact if_congr (and_congr_left' (by omega)) rfl rfl
  · rintro rfl hreach hlow hhigh
    generalize s + step * (k + 1) = d at hday hreach hlow hhigh
    obtain ⟨hworked, -⟩ := hday
    rw [abs_le] at hreach
    constructor
    · intro hpos
      have hlt : s < d := by
        by_contra hle
        rw [worked, Finset.Ioc_eq_empty hle, Finset.filter_empty, Finset.card_empty] at hworked
        omega
      have hdays : Finset.Icc (s + 1) d = Finset.Ioc s d := by
        ext x
        rw [Finset.mem_Icc, Finset.mem_Ioc, Int.add_one_le_iff]
      have hnone : Finset.Ico d s = ∅ := Finset.Ico_eq_empty (by omega)
      rw [worked, hnone, Finset.filter_empty, Finset.card_empty, Nat.cast_zero, sub_zero] at hworked
      rw [networkdaysExcel_eq (by omega) (by omega) hhigh (by omega), hdays, hworked]
    · intro hneg
      have hlt : d < s := by
        by_contra hle
        rw [worked, Finset.Ico_eq_empty hle, Finset.filter_empty, Finset.card_empty] at hworked
        omega
      have hdays : Finset.Icc d (s - 1) = Finset.Ico d s := by
        ext x
        rw [Finset.mem_Icc, Finset.mem_Ico, Int.le_sub_one_iff]
      have hnone : Finset.Ioc s d = ∅ := Finset.Ioc_eq_empty (by omega)
      rw [worked, hnone, Finset.filter_empty, Finset.card_empty, Nat.cast_zero, zero_sub] at hworked
      rw [networkdaysExcel_eq (by omega) hlow (by omega) (by omega), hdays, ← hworked, neg_neg]

/-- Five working days behind a Monday, with a holiday on the Tuesday. -/
theorem workdayExcel_five :
    IsWorkday (works weekendSatSun [.finite 2]) 1 5 9 ∧
    workdayExcel (.finite 1) (.finite 5) [.finite 2] weekendSatSun = some 9 ∧
    networkdaysExcel (.finite 2) (.finite 9) [.finite 2] = some 5 := by
  have h := workdayExcel_spec 1 5 [.finite 2] weekendSatSun (by norm_num [lastSerial])
    (by norm_num) ⟨0, by decide⟩
  have hone : truncate 1 = 1 := truncate_intCast 1
  have hfive : truncate 5 = 5 := truncate_intCast 5
  rw [hone, hfive] at h
  obtain ⟨d, hd, -, hexcel, hcount⟩ := h.2 (by decide)
  have hnine : workdayExcel (.finite 1) (.finite 5) [.finite 2] weekendSatSun = some 9 := by
    decide +kernel
  rw [hnine] at hexcel
  split_ifs at hexcel with hrange
  obtain rfl := Option.some.inj hexcel
  exact ⟨hd, hnine, (hcount rfl hrange.1 hrange.2.1 hrange.2.2).1 (by decide)⟩

/-- Only Mondays are worked. -/
def mondays : Weekend := fun day => day ≠ 0

/-- No days behind a Saturday is that Saturday; ten thousand Mondays are too far away for the loop,
though the last of them lies in the calendar; the days from the one behind the start to the one that
is found are other days if that one lies before. -/
theorem not_workdayExcel :
    (workdayExcel (.finite 6) (.finite 0) [] weekendSatSun = some 6 ∧
      ¬ IsWorkday (works weekendSatSun []) 6 0 6) ∧
    (workdayExcel (.finite 1) (.finite 10000) [] mondays = none ∧
      ∃ d, IsWorkday (works mondays []) 1 10000 d ∧ 0 ≤ d ∧ d ≤ lastSerial) ∧
    (workdayExcel (.finite 9) (.finite (-1)) [] weekendSatSun = some 8 ∧
      networkdaysExcel (.finite 10) (.finite 8) [] = some (-3)) := by
  refine ⟨⟨by decide +kernel, fun h => absurd h.2 (by decide)⟩, ?_, by decide +kernel,
    by decide +kernel⟩
  have hone : truncate 1 = 1 := truncate_intCast 1
  have hdays : truncate 10000 = 10000 := truncate_intCast 10000
  have hfollowing (k : ℕ) : following (works mondays []) 1 1 k ↔ Nat.ModEq 7 k 6 := by
    rw [following, works, holidayHit, List.any_nil, Bool.not_false, Bool.and_true, mondays,
      Bool.not_eq_true', decide_eq_false_iff_not, not_not, weekdayMon0_eq_iff, Nat.ModEq,
      Fin.val_zero]
    omega
  have hlast : following (works mondays []) 1 1 69999 := (hfollowing _).mpr rfl
  have hcount : Nat.count (following (works mondays []) 1 1) 69999 = 9999 := by
    have hmod : Nat.count (following (works mondays []) 1 1) 69999 =
        Nat.count (fun k => Nat.ModEq 7 k 6) 69999 := by
      congr 1
      funext k
      exact propext (hfollowing k)
    rw [hmod]
    exact (Nat.count_modEq_card 69999 (r := 7) (by decide) 6).trans (by norm_num)
  constructor
  · have hloop := workdayLoop_eq (.inl rfl) (by decide) hlast hcount 20000
    rw [if_neg (by omega)] at hloop
    have hstart : Binary64.toI64 (.finite 1) = 1 := Binary64.toI64_intCast (n := 1) (by decide)
    have hrange : ¬ ((1 : ℚ) < 0 ∨ (lastSerial : ℚ) < 1) := by norm_num [lastSerial]
    have hsign : (if (0 : ℤ) < 10000 then (1 : ℤ) else -1) = 1 := rfl
    have habs : (10000 : ℤ).natAbs = 9999 + 1 := rfl
    simp only [workdayExcel, hone, hdays, hstart, if_neg hrange]
    rw [if_neg (by decide), if_neg (by decide), hsign, habs, hloop]
  · exact ⟨_, (isWorkday_iff (.inl rfl)).mpr ⟨69999, rfl, hlast, hcount⟩, by decide, by decide⟩

end Orchid.Sheet
