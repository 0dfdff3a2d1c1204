import Mathlib.Tactic.IntervalCases
import Orchid.Fs.Path
import Orchid.Lib.ByteText
import Orchid.Lib.Chunks

/-!
# Uuencode

`uuencode` and `uudecode` of `orchid-fs/src/operations/encode.rs`. The bits that a shift or a mask
takes out are written as quotients and remainders.
-/

namespace Orchid.Fs

open Lib (chunks utf8Bytes)

/-! ### Encoding -/

/-- `uue_len` -/
def uueLen (n : ℕ) : Char := Char.ofNat (32 + n % 2 ^ 8)

/-- `uue_byte` -/
def uueByte (n : ℕ) : Char := Char.ofNat (32 + n % 64)

/-- The four characters of three bytes. -/
def uueGroup (a b c : U8) : Text :=
  let n := a.val * 2 ^ 16 + b.val * 2 ^ 8 + c.val
  [uueByte (n / 2 ^ 18), uueByte (n / 2 ^ 12), uueByte (n / 2 ^ 6), uueByte n]

/-- The groups of a line; what is missing from the last one is zero. -/
def uueGroups : Bytes → Text
  | [] => []
  | [a] => uueGroup a 0 0
  | [a, b] => uueGroup a b 0
  | a :: b :: c :: rest => uueGroup a b c ++ uueGroups rest

/-- The line of a chunk. -/
def uueLine (chunk : Bytes) : Text := uueLen chunk.length :: uueGroups chunk ++ ['\n']

/-- The line in front of the data. -/
def uueHeader (name : Text) : Text := "begin 644 ".toList ++ name ++ ['\n']

/-- The lines of the data and those behind it. -/
def uueBody (data : Bytes) : Text := (chunks 45 data).flatMap uueLine ++ "`\nend\n".toList

/-- `uuencode` -/
def uuencode (data : Bytes) (name : Text) : Text := uueHeader name ++ uueBody data

/-! ### Decoding -/

/-- `uue_decode_len` -/
def uueDecodeLen (c : U8) : ℕ := (c - 32).val % 64

/-- `uue_val` -/
def uueVal (c : U8) : ℕ := (c - 32).val % 64

/-- The bytes of whole groups, as long as some remain. -/
def uueData : ℕ → Bytes → Bytes
  | 0, _ => []
  | remaining + 1, a :: b :: c :: d :: rest =>
    let n := uueVal a * 2 ^ 18 + uueVal b * 2 ^ 12 + uueVal c * 2 ^ 6 + uueVal d
    [Fin.ofNat (2 ^ 8) (n / 2 ^ 16), Fin.ofNat (2 ^ 8) (n / 2 ^ 8), Fin.ofNat (2 ^ 8) n].take
      (remaining + 1) ++ uueData (remaining + 1 - 3) rest
  | _ + 1, _ => []

/-- The bytes of a line without its end. -/
def uueLineData : Bytes → Bytes
  | [] => []
  | c :: data => uueData (uueDecodeLen c) data

/-- `trim_end_matches(['\r', '\n'])` -/
def trimLineEnd (line : Text) : Text := line.rdropWhile fun c => c = '\r' ∨ c = '\n'

/-- The lines behind the first, up to one that starts with `end`. -/
def uueRead : List Text → Bytes
  | [] => []
  | line :: rest =>
    let t := trimLineEnd line
    if "end".toList <+: t then [] else uueLineData (utf8Bytes t) ++ uueRead rest

/-- A line that the data may begin behind. -/
def isUueBegin (line : Text) : Bool := "begin ".toList <+: trimStart line

/-- `uudecode` -/
def uudecode (text : Text) : Except FsError Bytes :=
  match (lines text).dropWhile (!isUueBegin ·) with
  | [] => .error (.invalidPath "missing uuencode begin line".toList)
  | _ :: rest => .ok (uueRead rest)


/-! ### Characters -/

/-- An ASCII character is one byte. -/
lemma utf8Bytes_ofNat (n : Fin 128) : utf8Bytes [Char.ofNat n] = [Fin.ofNat (2 ^ 8) n] := by
  revert n
  decide

lemma utf8Bytes_cons (c : Char) (t : Text) : utf8Bytes (c :: t) = utf8Bytes [c] ++ utf8Bytes t := by
  simp [utf8Bytes]

lemma utf8Bytes_uueByte (n : ℕ) : utf8Bytes [uueByte n] = [Fin.ofNat (2 ^ 8) (32 + n % 64)] :=
  utf8Bytes_ofNat ⟨32 + n % 64, by omega⟩

lemma utf8Bytes_uueLen {n : ℕ} (h : n ≤ 45) :
    utf8Bytes [uueLen n] = [Fin.ofNat (2 ^ 8) (32 + n)] := by
  have hmod : n % 2 ^ 8 = n := Nat.mod_eq_of_lt (by omega)
  rw [uueLen, hmod]
  exact utf8Bytes_ofNat ⟨32 + n, by omega⟩

lemma uueVal_ofNat {n : ℕ} (h : n < 64) : uueVal (Fin.ofNat (2 ^ 8) (32 + n)) = n := by
  have key : ∀ n : Fin 64, uueVal (Fin.ofNat (2 ^ 8) (32 + n.val)) = n.val := by decide
  exact key ⟨n, h⟩

lemma uueByte_ne_newline (n : ℕ) : uueByte n ≠ '\n' ∧ uueByte n ≠ '\r' := by
  have key : ∀ n : Fin 64, Char.ofNat (32 + n.val) ≠ '\n' ∧ Char.ofNat (32 + n.val) ≠ '\r' := by
    decide
  exact key ⟨n % 64, Nat.mod_lt _ (by decide)⟩

lemma uueLen_ne {n : ℕ} (h : n ≤ 45) : uueLen n ≠ '\n' ∧ uueLen n ≠ '\r' ∧ uueLen n ≠ 'e' := by
  have key : ∀ n : Fin 46, uueLen n ≠ '\n' ∧ uueLen n ≠ '\r' ∧ uueLen n ≠ 'e' := by decide
  exact key ⟨n, by omega⟩

/-! ### Groups -/

lemma length_uueGroups (chunk : Bytes) :
    (uueGroups chunk).length = 4 * ((chunk.length + 2) / 3) := by
  fun_induction uueGroups chunk with
  | case1 => rfl
  | case2 | case3 => simp [uueGroup]
  | case4 a b c rest ih =>
    rw [List.length_append, ih]
    simp only [uueGroup, List.length_cons, List.length_nil]
    omega

lemma exists_of_mem_uueGroups {chunk : Bytes} {c : Char} (h : c ∈ uueGroups chunk) :
    ∃ n, c = uueByte n := by
  have hgroup : ∀ {x y z : U8}, c ∈ uueGroup x y z → ∃ n, c = uueByte n := by
    intro x y z hc
    simp only [uueGroup, List.mem_cons, List.not_mem_nil, or_false] at hc
    rcases hc with hc | hc | hc | hc <;> exact ⟨_, hc⟩
  fun_induction uueGroups chunk with
  | case1 => cases h
  | case2 => exact hgroup h
  | case3 => exact hgroup h
  | case4 a b c rest ih => exact (List.mem_append.mp h).elim hgroup ih

lemma utf8Bytes_uueGroup (a b c : U8) :
    utf8Bytes (uueGroup a b c) =
      [a.val / 4, a.val % 4 * 16 + b.val / 16, b.val % 16 * 4 + c.val / 64, c.val % 64].map
        fun n => Fin.ofNat (2 ^ 8) (32 + n) := by
  have ha := a.isLt
  have hb := b.isLt
  have hc := c.isLt
  have h₁ : (a.val * 2 ^ 16 + b.val * 2 ^ 8 + c.val) / 2 ^ 18 % 64 = a.val / 4 := by omega
  have h₂ : (a.val * 2 ^ 16 + b.val * 2 ^ 8 + c.val) / 2 ^ 12 % 64 =
      a.val % 4 * 16 + b.val / 16 := by omega
  have h₃ : (a.val * 2 ^ 16 + b.val * 2 ^ 8 + c.val) / 2 ^ 6 % 64 =
      b.val % 16 * 4 + c.val / 64 := by omega
  have h₄ : (a.val * 2 ^ 16 + b.val * 2 ^ 8 + c.val) % 64 = c.val % 64 := by omega
  simp only [uueGroup]
  rw [utf8Bytes_cons, utf8Bytes_cons (uueByte (_ / 2 ^ 12)), utf8Bytes_cons (uueByte (_ / 2 ^ 6)),
    utf8Bytes_uueByte, utf8Bytes_uueByte, utf8Bytes_uueByte, utf8Bytes_uueByte, h₁, h₂, h₃, h₄]
  rfl

/-- The three bytes of a group, as far as they are asked for. -/
lemma uueData_group (r : ℕ) (a b c : U8) (rest : Bytes) :
    uueData r (utf8Bytes (uueGroup a b c) ++ rest) =
      [a, b, c].take r ++ uueData (r - 3) rest := by
  have ha := a.isLt
  have hb := b.isLt
  have hc := c.isLt
  cases r with
  | zero => simp [uueData]
  | succ r =>
    rw [utf8Bytes_uueGroup]
    simp only [List.map_cons, List.map_nil, List.cons_append, List.nil_append, uueData]
    rw [uueVal_ofNat (by omega), uueVal_ofNat (by omega), uueVal_ofNat (by omega),
      uueVal_ofNat (by omega)]
    congr 2
    simp only [List.cons.injEq, and_true]
    refine ⟨Fin.ext ?_, Fin.ext ?_, Fin.ext ?_⟩ <;> simp only [Fin.val_ofNat] <;> omega

lemma uueData_short {bytes : Bytes} (h : bytes.length < 4) (r : ℕ) : uueData r bytes = [] := by
  fun_cases uueData r bytes with
  | case1 => rfl
  | case2 r a b c d rest =>
    simp only [List.length_cons] at h
    omega
  | case3 => rfl

lemma length_utf8Bytes_uue {t : Text} (h : ∀ c ∈ t, ∃ n, c = uueByte n) :
    (utf8Bytes t).length = t.length := by
  induction t with
  | nil => rfl
  | cons c t ih =>
    obtain ⟨⟨n, rfl⟩, ht⟩ := List.forall_mem_cons.mp h
    rw [utf8Bytes_cons, utf8Bytes_uueByte, List.length_append, ih ht, List.length_cons]
    exact Nat.add_comm _ _

/-- A part of the groups of a line gives the bytes of those that are whole. -/
lemma uueData_take (chunk : Bytes) (m : ℕ) :
    uueData chunk.length (utf8Bytes ((uueGroups chunk).take m)) = chunk.take (3 * (m / 4)) := by
  by_cases hm : m < 4
  · have hlen : (utf8Bytes ((uueGroups chunk).take m)).length < 4 := by
      rw [length_utf8Bytes_uue fun c hc => exists_of_mem_uueGroups (List.mem_of_mem_take hc),
        List.length_take]
      omega
    rw [uueData_short hlen, Nat.div_eq_of_lt hm, Nat.mul_zero, List.take_zero]
  obtain ⟨m, rfl⟩ := Nat.exists_eq_add_of_le (Nat.not_lt.mp hm)
  have htake : ∀ (a b c : U8) (t : Text),
      (uueGroup a b c ++ t).take (4 + m) = uueGroup a b c ++ t.take m := by
    intro a b c t
    have hlen : (uueGroup a b c).length = 4 := by simp [uueGroup]
    rw [← hlen, List.take_length_add_append]
  have hcount : 3 * ((4 + m) / 4) = 3 * (m / 4) + 3 := by omega
  rw [hcount]
  have hlast : ∀ (a b c : U8) (r : ℕ), r ≤ 3 →
      uueData r (utf8Bytes ((uueGroup a b c).take (4 + m))) = [a, b, c].take r := by
    intro a b c r hr
    have hdata := uueData_group r a b c []
    rw [Nat.sub_eq_zero_of_le hr] at hdata
    rw [← List.append_nil (uueGroup a b c), htake, List.take_nil, List.append_nil]
    simpa [uueData] using hdata
  fun_cases uueGroups chunk with
  | case1 => simp [uueData]
  | case2 a => exact (hlast a 0 0 1 (by decide)).trans (by simp)
  | case3 a b => exact (hlast a b 0 2 (by decide)).trans (by simp)
  | case4 a b c rest =>
    have ih := uueData_take rest m
    have happ : utf8Bytes (uueGroup a b c ++ (uueGroups rest).take m) =
        utf8Bytes (uueGroup a b c) ++ utf8Bytes ((uueGroups rest).take m) := by
      simp [utf8Bytes]
    have hlen : (a :: b :: c :: rest).length = rest.length + 3 := rfl
    have hall : [a, b, c].take (rest.length + 3) = [a, b, c] := List.take_of_length_le (by simp)
    rw [htake, happ, hlen, uueData_group, Nat.add_sub_cancel, ih, hall]
    rfl
termination_by chunk.length

/-! ### Lines of data -/

/-- A part of a line, without its break. -/
lemma uueRead_line {chunk : Bytes} (hlen : chunk.length ≤ 45) (m : ℕ) (rest : List Text) :
    uueRead ((uueLen chunk.length :: (uueGroups chunk).take m) :: rest) =
      chunk.take (3 * (m / 4)) ++ uueRead rest := by
  obtain ⟨hn, hr, he⟩ := uueLen_ne hlen
  have htrim : trimLineEnd (uueLen chunk.length :: (uueGroups chunk).take m) =
      uueLen chunk.length :: (uueGroups chunk).take m := by
    refine List.rdropWhile_eq_self_iff.mpr fun hne => ?_
    have hlast := List.getLast_mem hne
    have hplain : ∀ c ∈ uueLen chunk.length :: (uueGroups chunk).take m, c ≠ '\n' ∧ c ≠ '\r' := by
      refine List.forall_mem_cons.mpr ⟨⟨hn, hr⟩, fun c hc => ?_⟩
      obtain ⟨n, rfl⟩ := exists_of_mem_uueGroups (List.mem_of_mem_take hc)
      exact uueByte_ne_newline n
    have := hplain _ hlast
    simp [this.1, this.2]
  have hend : ¬"end".toList <+: uueLen chunk.length :: (uueGroups chunk).take m := fun h =>
    he (List.cons_prefix_cons.mp h).1.symm
  have hcount : uueDecodeLen (Fin.ofNat (2 ^ 8) (32 + chunk.length)) = chunk.length :=
    uueVal_ofNat (by omega)
  rw [uueRead, htrim]
  simp only [if_neg hend]
  rw [utf8Bytes_cons, utf8Bytes_uueLen hlen, List.singleton_append, uueLineData, hcount,
    uueData_take]

lemma notMem_uueLine {chunk : Bytes} (hlen : chunk.length ≤ 45) (m : ℕ) :
    '\n' ∉ uueLen chunk.length :: (uueGroups chunk).take m := by
  intro h
  rcases List.mem_cons.mp h with h | h
  · exact (uueLen_ne hlen).1 h.symm
  · obtain ⟨n, hn⟩ := exists_of_mem_uueGroups (List.mem_of_mem_take h)
    exact (uueByte_ne_newline n).1 hn.symm

/-- A whole line gives its chunk. -/
lemma uueRead_uueLine {chunk : Bytes} (hlen : chunk.length ≤ 45) (t : Text) :
    uueRead (lines (uueLine chunk ++ t)) = chunk ++ uueRead (lines t) := by
  have htake : (uueGroups chunk).take (uueGroups chunk).length = uueGroups chunk :=
    List.take_length
  have hnot := notMem_uueLine hlen (uueGroups chunk).length
  have hread := uueRead_line hlen (uueGroups chunk).length (lines t)
  have hr : '\r' ∉ uueLen chunk.length :: uueGroups chunk := by
    intro h
    rcases List.mem_cons.mp h with h | h
    · exact (uueLen_ne hlen).2.1 h.symm
    · obtain ⟨n, hn⟩ := exists_of_mem_uueGroups h
      exact (uueByte_ne_newline n).2 hn.symm
  rw [htake] at hnot hread
  have hall : chunk.take (3 * ((uueGroups chunk).length / 4)) = chunk := by
    rw [length_uueGroups]
    exact List.take_of_length_le (by omega)
  rw [hall] at hread
  rw [uueLine, List.append_assoc, List.singleton_append, lines,
    linesFrom_append hnot hr _ [] List.not_mem_nil, List.nil_append]
  exact hread

/-- The data of all lines. -/
lemma uueRead_uueBody (data : Bytes) : uueRead (lines (uueBody data)) = data := by
  induction data using Lib.chunks_induction (n := 45) (by decide) with
  | nil => decide
  | step data hne ih =>
    have hlen : (data.take 45).length ≤ 45 := by
      rw [List.length_take]
      exact Nat.min_le_left _ _
    rw [uueBody, Lib.chunks_of_ne_nil (by decide) hne, List.flatMap_cons, List.append_assoc,
      uueRead_uueLine hlen]
    exact (congrArg (data.take 45 ++ ·) ih).trans (List.take_append_drop 45 data)

/-! ### Cutting a text -/

/-- The number of bytes in the first `k` characters of lines of data, of which there are enough. -/
def uueKept (k : ℕ) : ℕ := 45 * (k / 62) + 3 * ((k % 62 - 1) / 4)

/-- The lines of data that end somewhere give the bytes of the groups in front of there. -/
lemma uueRead_take (data : Bytes) (k : ℕ) :
    uueRead (lines ((uueBody data).take k)) = data.take (uueKept k) := by
  induction data using Lib.chunks_induction (n := 45) (by decide) generalizing k with
  | nil =>
    rw [List.take_nil]
    by_cases hk : k < 6
    · interval_cases k <;> decide
    · rw [List.take_of_length_le (by simpa [uueBody] using hk)]
      exact uueRead_uueBody []
  | step data hne ih =>
    have hpos := List.length_pos_iff.mpr hne
    have hsplit : uueBody data = uueLine (data.take 45) ++ uueBody (data.drop 45) := by
      rw [uueBody, Lib.chunks_of_ne_nil (by decide) hne, List.flatMap_cons, List.append_assoc,
        uueBody]
    have htake : (data.take 45).length = min 45 data.length := List.length_take
    have hle : (data.take 45).length ≤ 45 := htake.le.trans (Nat.min_le_left _ _)
    have hgroups := length_uueGroups (data.take 45)
    have hline : (uueLine (data.take 45)).length = (uueGroups (data.take 45)).length + 2 := by
      simp [uueLine]
    rw [hsplit]
    rcases Nat.lt_or_ge k (uueLine (data.take 45)).length with hk | hk
    · -- The text ends in the first line.
      rw [List.take_append_of_le_length hk.le, uueLine, List.take_append_of_le_length]
      · cases k with
        | zero => simp [lines, linesFrom, uueRead, uueKept]
        | succ m =>
          have hkept : 3 * (m / 4) ≤ 45 → 3 * (m / 4) = uueKept (m + 1) := by
            unfold uueKept
            omega
          rw [List.take_succ_cons, lines, linesFrom_of_notMem (notMem_uueLine hle m),
            if_neg (by simp), List.nil_append, uueRead_line hle, uueRead, List.append_nil,
            List.take_take, Nat.min_eq_left (by omega), hkept (by omega)]
      · rw [List.length_cons]
        omega
    · obtain ⟨k, rfl⟩ := Nat.exists_eq_add_of_le hk
      rw [List.take_length_add_append, uueRead_uueLine hle, ih]
      rcases Nat.le_total data.length 45 with hlen | hlen
      · have hall : data.length ≤ uueKept ((uueLine (data.take 45)).length + k) := by
          unfold uueKept
          omega
        rw [List.take_of_length_le hall, List.drop_of_length_le hlen, List.take_nil,
          List.append_nil, List.take_of_length_le hlen]
      · have hkept : uueKept ((uueLine (data.take 45)).length + k) = 45 + uueKept k := by
          unfold uueKept
          omega
        rw [hkept, List.take_add]

/-! ### The header -/

/-- A line that the decoder passes over. -/
def Silent (line : Text) : Prop :=
  ¬"end".toList <+: trimLineEnd line ∧
    ((utf8Bytes (trimLineEnd line)).length < 5 ∨
      ∀ c ∈ (utf8Bytes (trimLineEnd line)).head?, uueDecodeLen c = 0)

lemma uueData_eq_nil_iff (r : ℕ) (bytes : Bytes) :
    uueData r bytes = [] ↔ bytes.length < 4 ∨ r = 0 := by
  fun_cases uueData r bytes with
  | case1 => simp
  | case2 r a b c d rest => simp
  | case3 r bytes h =>
    refine iff_of_true rfl (.inl ?_)
    by_contra hlen
    rcases bytes with _ | ⟨a, _ | ⟨b, _ | ⟨c, _ | ⟨d, rest⟩⟩⟩⟩
    · simp at hlen
    · simp at hlen
    · simp at hlen
    · simp at hlen
    · exact h a b c d rest rfl

lemma uueLineData_eq_nil_iff (bytes : Bytes) :
    uueLineData bytes = [] ↔ bytes.length < 5 ∨ ∀ c ∈ bytes.head?, uueDecodeLen c = 0 := by
  cases bytes with
  | nil => simp [uueLineData]
  | cons c bytes =>
    rw [uueLineData, uueData_eq_nil_iff, List.length_cons]
    simp only [List.head?_cons, Option.mem_def, Option.some.injEq, forall_eq', Nat.succ_lt_succ_iff]

/-- Silent lines change nothing. -/
lemma uueRead_append {pre : List Text} (h : ∀ line ∈ pre, Silent line) (rest : List Text) :
    uueRead (pre ++ rest) = uueRead rest := by
  induction pre with
  | nil => rfl
  | cons line pre ih =>
    obtain ⟨⟨hend, hdata⟩, hpre⟩ := List.forall_mem_cons.mp h
    rw [List.cons_append, uueRead]
    simp only [if_neg hend]
    rw [(uueLineData_eq_nil_iff _).mpr hdata, ih hpre, List.nil_append]

/-- Only silent lines change nothing in front of any others. -/
lemma silent_of_uueRead {pre : List Text}
    (h : ∀ data, uueRead (pre ++ lines (uueBody data)) = data) : ∀ line ∈ pre, Silent line := by
  induction pre with
  | nil => exact fun line hline => absurd hline List.not_mem_nil
  | cons line pre ih =>
    by_cases hend : "end".toList <+: trimLineEnd line
    · have hnil := h [0]
      rw [List.cons_append, uueRead] at hnil
      simp only [if_pos hend] at hnil
      cases hnil
    · have hread : ∀ data, uueLineData (utf8Bytes (trimLineEnd line)) ++
          uueRead (pre ++ lines (uueBody data)) = data := by
        intro data
        have hdata := h data
        rw [List.cons_append, uueRead] at hdata
        simpa only [if_neg hend] using hdata
      have hdata := (List.append_eq_nil_iff.mp (hread [])).1
      refine List.forall_mem_cons.mpr
        ⟨⟨hend, (uueLineData_eq_nil_iff _).mp hdata⟩, ih fun data => ?_⟩
      simpa only [hdata, List.nil_append] using hread data

/-- The first line of a text that begins like one. -/
lemma linesFrom_begin (more t : Text) : ∃ line rest,
    linesFrom ("begin ".toList ++ more) t = line :: rest ∧ "begin ".toList <+: line := by
  induction t generalizing more with
  | nil => exact ⟨_, [], rfl, List.prefix_append _ _⟩
  | cons c t ih =>
    rw [linesFrom]
    split_ifs with hc hlast
    · refine ⟨_, _, rfl, ?_⟩
      rcases List.eq_nil_or_concat more with rfl | ⟨more, d, rfl⟩
      · exact absurd hlast (by decide)
      · rw [List.concat_eq_append, ← List.append_assoc, List.dropLast_concat]
        exact List.prefix_append _ _
    · exact ⟨_, _, rfl, List.prefix_append _ _⟩
    · rw [List.append_assoc]
      exact ih (more ++ [c])

lemma lines_begin (t : Text) : ∃ line rest,
    lines ("begin ".toList ++ t) = line :: rest ∧ isUueBegin line = true := by
  obtain ⟨line, rest, hlines, u, rfl⟩ := linesFrom_begin [] t
  exact ⟨_, rest, hlines, decide_eq_true (List.prefix_append "begin ".toList u)⟩

/-- A text that begins so is read from its second line. -/
lemma uudecode_begin (t : Text) :
    uudecode ("begin ".toList ++ t) = .ok (uueRead (lines ("begin ".toList ++ t)).tail) := by
  obtain ⟨line, rest, hlines, hbegin⟩ := lines_begin t
  have hdrop : (line :: rest).dropWhile (!isUueBegin ·) = line :: rest := by
    rw [List.dropWhile_cons, hbegin]
    rfl
  rw [uudecode, hlines, hdrop]
  rfl

lemma uueHeader_eq (name : Text) :
    uueHeader name = "begin ".toList ++ ("644 ".toList ++ name ++ ['\n']) := by
  have hword : "begin 644 ".toList = "begin ".toList ++ "644 ".toList := by decide
  unfold uueHeader
  rw [hword, List.append_assoc, List.append_assoc, List.append_assoc]

/-- What stands behind the header is read behind the lines of the name. -/
lemma uudecode_header (name t : Text) :
    uudecode (uueHeader name ++ t) =
      .ok (uueRead ((lines (uueHeader name)).tail ++ lines t)) := by
  have hsplit : lines (uueHeader name ++ t) = lines (uueHeader name) ++ lines t := by
    unfold uueHeader
    rw [List.append_assoc, List.singleton_append, lines, linesFrom_newline]
    rfl
  have hne : lines (uueHeader name) ≠ [] := by
    obtain ⟨line, rest, hlines, -⟩ := lines_begin ("644 ".toList ++ name ++ ['\n'])
    rw [uueHeader_eq, hlines]
    exact List.cons_ne_nil line rest
  have hbegin : uueHeader name ++ t =
      "begin ".toList ++ ("644 ".toList ++ name ++ ['\n'] ++ t) := by
    rw [uueHeader_eq, List.append_assoc]
  rw [hbegin, uudecode_begin, ← hbegin, hsplit, List.tail_append_of_ne_nil hne]

/-- Where the name is on one line, a text cut behind the header gives the bytes of the groups in
front of the cut. -/
lemma uudecode_take {name : Text} (h : ∀ line ∈ (lines (uueHeader name)).tail, Silent line)
    (bs : Bytes) (k : ℕ) :
    uudecode ((uuencode bs name).take ((uueHeader name).length + k)) =
      .ok (bs.take (uueKept k)) := by
  rw [uuencode, List.take_length_add_append, uudecode_header, uueRead_append h, uueRead_take]

/-- Coding and back gives the bytes again if the name takes no line that the decoder reads. A text
that was cut is an error only where the cut is in front of the end of its first word; one that was
cut behind the header is data, and the same data only if all its groups are left. -/
theorem uudecode_uuencode_iff (name : Text) :
    ((∀ bs, uudecode (uuencode bs name) = .ok bs) ↔
      ∀ line ∈ (lines (uueHeader name)).tail, Silent line) ∧
    (∀ bs k, (∃ e, uudecode ((uuencode bs name).take k) = .error e) ↔ k < 6) ∧
    ((∀ line ∈ (lines (uueHeader name)).tail, Silent line) → ∀ bs k,
      uudecode ((uuencode bs name).take ((uueHeader name).length + k)) = .ok bs ↔
        bs.length ≤ uueKept k) := by
  refine ⟨⟨fun h => silent_of_uueRead fun data => ?_, fun h bs => ?_⟩,
    fun bs k => ⟨?_, fun hk => ?_⟩, fun h bs k => ?_⟩
  · have := h data
    rw [uuencode, uudecode_header] at this
    exact Except.ok.inj this
  · rw [uuencode, uudecode_header, uueRead_append h, uueRead_uueBody]
  · rintro ⟨e, he⟩
    by_contra hk
    obtain ⟨k, rfl⟩ := Nat.exists_eq_add_of_le (Nat.not_lt.mp hk)
    have htake : (uuencode bs name).take (6 + k) =
        "begin ".toList ++ ("644 ".toList ++ name ++ ['\n'] ++ uueBody bs).take k := by
      have hlen : 6 + k = "begin ".toList.length + k := rfl
      rw [uuencode, uueHeader_eq, List.append_assoc, hlen, List.take_length_add_append]
    rw [htake, uudecode_begin] at he
    cases he
  · refine ⟨.invalidPath "missing uuencode begin line".toList, ?_⟩
    have htake : (uuencode bs name).take k = "begin ".toList.take k := by
      rw [uuencode, uueHeader_eq, List.append_assoc, List.take_append_of_le_length]
      exact hk.le
    rw [htake]
    interval_cases k <;> rfl
  · rw [uudecode_take h, Except.ok.injEq]
    refine ⟨fun hall => ?_, List.take_of_length_le⟩
    rw [← hall, List.length_take]
    exact Nat.min_le_left _ _

/-- A text cut between two groups is read as shorter data. -/
theorem uudecode_cut : ¬∀ bs name k, k ≤ (uuencode bs name).length - 4 →
    ∃ e, uudecode ((uuencode bs name).take k) = .error e := by
  intro h
  obtain ⟨e, he⟩ := h [1, 2, 3, 255, 0] ['x'] 17 (by decide)
  have hcut : uudecode ((uuencode [1, 2, 3, 255, 0] ['x']).take 17) = .ok [1, 2, 3] := rfl
  rw [hcut] at he
  cases he

end Orchid.Fs
