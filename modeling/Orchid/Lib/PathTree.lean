import Mathlib.Data.List.Dedup
import Mathlib.Data.List.Infix
import Mathlib.Data.List.Nodup

/-!
# Trees as maps from paths

A tree says what stands at every path. Of a list of paths, those below a place are listed from
there, each once.
-/

namespace Orchid.Lib

/-- A tree: what stands at every path. -/
abbrev PathTree (ν α : Type*) := List ν → Option α

variable {ν : Type*} [DecidableEq ν] {paths : List (List ν)} {P : List ν → Prop} [DecidablePred P]
  {p r : List ν}

/-- Of the paths with a property, those below a place, from there. -/
lemma mem_map_drop_iff :
    r ∈ (paths.dedup.filter fun q => p <+: q ∧ P q).map (fun q => q.drop p.length) ↔
      p ++ r ∈ paths ∧ P (p ++ r) := by
  simp only [List.mem_map, List.mem_filter, List.mem_dedup, decide_eq_true_eq]
  constructor
  · rintro ⟨q, ⟨hmem, ⟨rest, rfl⟩, hq⟩, rfl⟩
    rw [List.drop_left]
    exact ⟨hmem, hq⟩
  · exact fun h => ⟨p ++ r, ⟨h.1, List.prefix_append _ _, h.2⟩, List.drop_left⟩

lemma nodup_map_drop :
    ((paths.dedup.filter fun q => p <+: q ∧ P q).map fun q => q.drop p.length).Nodup := by
  refine List.Nodup.map_on (fun q hq q' hq' heq => ?_) ((List.nodup_dedup _).filter _)
  simp only [List.mem_filter, decide_eq_true_eq] at hq hq'
  obtain ⟨-, ⟨rest, rfl⟩, -⟩ := hq
  obtain ⟨-, ⟨rest', rfl⟩, -⟩ := hq'
  rw [List.drop_left, List.drop_left] at heq
  rw [heq]

end Orchid.Lib
