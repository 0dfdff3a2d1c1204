import Orchid.Content.ChunkStore
import Mathlib.Tactic.SplitIfs

/-!
# Files of the chunk store

The temporary files stay apart from each other and from the blobs, so what a `put` writes before its
rename touches no blob.
-/

namespace Orchid.Content

variable {H : Type} {s s' : Store H} {key : H} {bytes : Bytes} {file off : ℕ}

/-- No file has two temporary entries, or a temporary one and one as a blob. -/
structure Store.FilesApart (s : Store H) : Prop where
  tmp_lt : ∀ h file, s.tmp h = some file → file < s.nextFile
  blob_lt : ∀ h file, s.blob h = some file → file < s.nextFile
  tmp_inj : ∀ h h' file, s.tmp h = some file → s.tmp h' = some file → h = h'
  tmp_ne_blob : ∀ h h' file, s.tmp h = some file → s.blob h' ≠ some file

/-- The step leaves the files alone. -/
structure SameFiles (s s' : Store H) : Prop where
  tmp : s'.tmp = s.tmp
  blob : s'.blob = s.blob
  content : s'.content = s.content
  nextFile : s'.nextFile = s.nextFile

lemma SameFiles.filesApart (hs : SameFiles s s') (h : s.FilesApart) : s'.FilesApart := by
  obtain ⟨tmp_lt, blob_lt, tmp_inj, tmp_ne_blob⟩ := h
  constructor
  all_goals
    simp only [hs.tmp, hs.blob, hs.nextFile]
    assumption

/-- What writing the next piece behind what is there does. -/
lemma writeAt_spec {n : ℕ} (hbytes : s.content file = bytes.take off) (hoff : off ≤ bytes.length) :
    SameFiles { s with content := (s.writeAt file off ((bytes.drop off).take n)).content }
        (s.writeAt file off ((bytes.drop off).take n)) ∧
      (s.writeAt file off ((bytes.drop off).take n)).content file =
        bytes.take (off + ((bytes.drop off).take n).length) ∧
      ∀ g, g ≠ file → (s.writeAt file off ((bytes.drop off).take n)).content g = s.content g := by
  refine ⟨⟨rfl, rfl, rfl, rfl⟩, ?_, fun g hg => Function.update_of_ne hg _ _⟩
  have hlen : (bytes.take off).length = off := List.length_take_of_le hoff
  show Function.update s.content file _ file = _
  have hgap : (bytes.take off).drop (off + ((bytes.drop off).take n).length) = [] :=
    List.drop_eq_nil_of_le (hlen.le.trans (Nat.le_add_right _ _))
  have hpiece : (bytes.drop off).take n = (bytes.drop off).take ((bytes.drop off).take n).length :=
    List.prefix_iff_eq_take.mp (List.take_prefix n _)
  rw [Function.update_self, hbytes, hlen, hgap, Nat.sub_self, List.replicate_zero, List.append_nil,
    List.append_nil, List.take_of_length_le hlen.le, List.take_add, ← hpiece]

variable [DecidableEq H]

lemma sameFiles_forget (key : H) : SameFiles s (s.forget key) := ⟨rfl, rfl, rfl, rfl⟩

lemma sameFiles_setRow (key : H) (row : Option ChunkRefInfo) : SameFiles s (s.setRow key row) :=
  ⟨rfl, rfl, rfl, rfl⟩

/-- What opening the temporary file does. -/
lemma createTmp_spec (h : s.FilesApart) (key : H) :
    (s.createTmp key).1.FilesApart ∧ (s.createTmp key).1.tmp key = some (s.createTmp key).2 ∧
      (∀ k, k ≠ key → (s.createTmp key).1.tmp k = s.tmp k) ∧
      (s.createTmp key).1.blob = s.blob ∧ (s.createTmp key).1.rows = s.rows ∧
      (s.createTmp key).1.content (s.createTmp key).2 = [] ∧
      (∀ k g, k ≠ key → s.tmp k = some g → (s.createTmp key).1.content g = s.content g) ∧
      ∀ k g, s.blob k = some g → (s.createTmp key).1.content g = s.content g := by
  obtain ⟨tmp_lt, blob_lt, tmp_inj, tmp_ne_blob⟩ := h
  cases hkey : s.tmp key with
  | some file =>
    have heq : s.createTmp key = (s.setContent file [], file) := by simp [Store.createTmp, hkey]
    rw [heq]
    refine ⟨⟨tmp_lt, blob_lt, tmp_inj, tmp_ne_blob⟩, hkey, fun _ _ => rfl, rfl, rfl,
      Function.update_self _ _ _, fun k g hk hg => ?_, fun k g hg => ?_⟩
    · refine Function.update_of_ne ?_ _ _
      rintro rfl
      exact hk (tmp_inj k key g hg hkey)
    · refine Function.update_of_ne ?_ _ _
      rintro rfl
      exact tmp_ne_blob key k g hkey hg
  | none =>
    have heq : s.createTmp key = ({ (s.setContent s.nextFile []).setTmp key (some s.nextFile) with
        nextFile := s.nextFile + 1 }, s.nextFile) := by simp [Store.createTmp, hkey]
    -- the new file is neither a temporary one nor a blob yet
    have htmp : ∀ k g, Function.update s.tmp key (some s.nextFile) k = some g →
        (k = key ∧ g = s.nextFile) ∨ (s.tmp k = some g ∧ g < s.nextFile) := by
      intro k g hg
      by_cases hk : k = key
      · subst hk
        rw [Function.update_self] at hg
        exact .inl ⟨rfl, (Option.some.inj hg).symm⟩
      · rw [Function.update_of_ne hk] at hg
        exact .inr ⟨hg, tmp_lt k g hg⟩
    rw [heq]
    refine ⟨⟨fun k g hg => ?_, fun k g hg => (blob_lt k g hg).trans (Nat.lt_succ_self _),
      fun k k' g hg hg' => ?_, fun k k' g hg hg' => ?_⟩, Function.update_self _ _ _,
      fun k hk => Function.update_of_ne hk _ _, rfl, rfl, Function.update_self _ _ _,
      fun k g hk hg => Function.update_of_ne (tmp_lt k g hg).ne _ _,
      fun k g hg => Function.update_of_ne (blob_lt k g hg).ne _ _⟩
    · rcases htmp k g hg with ⟨-, rfl⟩ | ⟨-, hlt⟩
      · exact Nat.lt_succ_self _
      · exact hlt.trans (Nat.lt_succ_self _)
    · rcases htmp k g hg with ⟨hk, hnew⟩ | ⟨hold, hlt⟩ <;>
        rcases htmp k' g hg' with ⟨hk', hnew'⟩ | ⟨hold', hlt'⟩
      · rw [hk, hk']
      · exact absurd hnew hlt'.ne
      · exact absurd hnew' hlt.ne
      · exact tmp_inj k k' g hold hold'
    · rcases htmp k g hg with ⟨rfl, rfl⟩ | ⟨hold, -⟩
      · exact absurd (blob_lt k' _ hg') (lt_irrefl _)
      · exact tmp_ne_blob k k' g hold hg'

lemma filesApart_setTmp_none (h : s.FilesApart) (key : H) : (s.setTmp key none).FilesApart := by
  have htmp : ∀ k g, (s.setTmp key none).tmp k = some g → s.tmp k = some g := by
    intro k g hg
    by_cases hk : k = key
    · subst hk
      simp [Store.setTmp] at hg
    · simpa [Store.setTmp, hk] using hg
  exact ⟨fun k g hg => h.tmp_lt k g (htmp k g hg), h.blob_lt,
    fun k k' g hg hg' => h.tmp_inj k k' g (htmp k g hg) (htmp k' g hg'),
    fun k k' g hg => h.tmp_ne_blob k k' g (htmp k g hg)⟩

lemma filesApart_rename (h : s.FilesApart) (hfile : s.tmp key = some file) :
    ((s.setBlob key (some file)).setTmp key none).FilesApart := by
  have hblob : ∀ k g, Function.update s.blob key (some file) k = some g →
      (k = key ∧ g = file) ∨ s.blob k = some g := by
    intro k g hg
    by_cases hk : k = key
    · subst hk
      rw [Function.update_self] at hg
      exact .inl ⟨rfl, (Option.some.inj hg).symm⟩
    · rw [Function.update_of_ne hk] at hg
      exact .inr hg
  obtain ⟨tmp_lt, -, tmp_inj, tmp_ne_blob⟩ := filesApart_setTmp_none h key
  refine ⟨tmp_lt, fun k g hg => ?_, tmp_inj, fun k k' g hg hg' => ?_⟩
  · rcases hblob k g hg with ⟨-, rfl⟩ | hg
    · exact h.tmp_lt key _ hfile
    · exact h.blob_lt k g hg
  · rcases hblob k' g hg' with ⟨-, rfl⟩ | hg'
    · by_cases hk : k = key
      · subst hk
        simp [Store.setTmp] at hg
      · have hg : s.tmp k = some g := (Function.update_of_ne hk _ _).symm.trans hg
        exact hk (h.tmp_inj k key g hg hfile)
    · exact tmp_ne_blob k k' g hg hg'

lemma filesApart_setBlob_none (h : s.FilesApart) (key : H) : (s.setBlob key none).FilesApart := by
  have hblob : ∀ k g, (s.setBlob key none).blob k = some g → s.blob k = some g := by
    intro k g hg
    by_cases hk : k = key
    · subst hk
      simp [Store.setBlob] at hg
    · exact (Function.update_of_ne hk _ _).symm.trans hg
  exact ⟨h.tmp_lt, fun k g hg => h.blob_lt k g (hblob k g hg), h.tmp_inj,
    fun k k' g hg hg' => h.tmp_ne_blob k k' g hg (hblob k' g hg')⟩

end Orchid.Content
