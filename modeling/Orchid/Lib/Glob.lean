import Orchid.Lib.Occurrences

/-!
# Glob patterns

A pattern is a list of items: an element, a joker for one element, a run of elements without the
separator, and any part at all. What an element and a joker stand for in the text are parameters, so
that the same patterns are read over elements and over their codes. Where the first element of a
code is told from the others, a pattern without jokers matches the same texts either way.
-/

namespace Orchid.Lib

variable {α β : Type*}

/-- An item of a pattern over the elements `α`. -/
inductive GlobItem (α : Type*)
  | one (a : α)
  | joker
  | run
  | anything
  deriving DecidableEq

/-- `code` is what an element stands for, `single` what a joker may stand for. -/
def GlobMatches (code : α → List β) (single : List β → Prop) (sep : β) :
    List (GlobItem α) → List β → Prop
  | [], t => t = []
  | .one a :: p, t => ∃ v, t = code a ++ v ∧ GlobMatches code single sep p v
  | .joker :: p, t => ∃ u v, t = u ++ v ∧ single u ∧ GlobMatches code single sep p v
  | .run :: p, t => ∃ u v, t = u ++ v ∧ sep ∉ u ∧ GlobMatches code single sep p v
  | .anything :: p, t => ∃ u v, t = u ++ v ∧ GlobMatches code single sep p v

/-- The text that a pattern matches with separators for the jokers and nothing for the rest. -/
def skeleton (sep : α) : List (GlobItem α) → List α
  | [] => []
  | .one a :: p => a :: skeleton sep p
  | .joker :: p => sep :: skeleton sep p
  | .run :: p => skeleton sep p
  | .anything :: p => skeleton sep p

section Elements

variable {single : List α → Prop} {sep : α}

lemma length_skeleton_le (hsingle : ∀ u, single u → ∃ a ≠ sep, u = [a]) {p : List (GlobItem α)}
    {t : List α} (h : GlobMatches (fun a => [a]) single sep p t) :
    (skeleton sep p).length ≤ t.length := by
  induction p generalizing t with
  | nil => exact Nat.zero_le _
  | cons item p ih =>
    cases item with
    | one a =>
      obtain ⟨v, rfl, hv⟩ := h
      exact Nat.succ_le_succ (ih hv)
    | joker =>
      obtain ⟨u, v, rfl, hu, hv⟩ := h
      obtain ⟨a, -, rfl⟩ := hsingle u hu
      exact Nat.succ_le_succ (ih hv)
    | run =>
      obtain ⟨u, v, rfl, -, hv⟩ := h
      rw [List.length_append]
      exact (ih hv).trans (Nat.le_add_left ..)
    | anything =>
      obtain ⟨u, v, rfl, hv⟩ := h
      rw [List.length_append]
      exact (ih hv).trans (Nat.le_add_left ..)

/-- A joker that is not the separator does not match its skeleton. -/
lemma joker_notMem_of_skeleton (hsingle : ∀ u, single u → ∃ a ≠ sep, u = [a])
    {p : List (GlobItem α)}
    (h : GlobMatches (fun a => [a]) single sep p (skeleton sep p)) : .joker ∉ p := by
  induction p with
  | nil => exact List.not_mem_nil
  | cons item p ih =>
    -- nothing is left for a part that may be empty
    have hpart {u v : List α} (heq : skeleton sep p = u ++ v)
        (hv : GlobMatches (fun a => [a]) single sep p v) : v = skeleton sep p := by
      have hle := length_skeleton_le hsingle hv
      rw [heq, List.length_append] at hle
      obtain rfl : u = [] := List.eq_nil_of_length_eq_zero (by omega)
      exact heq.symm
    cases item with
    | one a =>
      obtain ⟨v, heq, hv⟩ := h
      obtain rfl : skeleton sep p = v := by simpa [skeleton] using heq
      simpa using ih hv
    | joker =>
      obtain ⟨u, v, heq, hu, -⟩ := h
      obtain ⟨a, hne, rfl⟩ := hsingle u hu
      rw [skeleton, List.cons_append] at heq
      exact absurd (List.cons.inj heq).1.symm hne
    | run =>
      obtain ⟨u, v, heq, -, hv⟩ := h
      obtain rfl := hpart heq hv
      simpa using ih hv
    | anything =>
      obtain ⟨u, v, heq, hv⟩ := h
      obtain rfl := hpart heq hv
      simpa using ih hv

end Elements

/-! ### Codes -/

/-- A part of the codes of a text ends between two elements or within a code. -/
lemma flatMap_eq_append (enc : α → List β) {t : List α} {u v : List β}
    (h : t.flatMap enc = u ++ v) :
    (∃ t₁ t₂, t = t₁ ++ t₂ ∧ u = t₁.flatMap enc ∧ v = t₂.flatMap enc) ∨
      ∃ t₁ c t₂ pre front, t = t₁ ++ c :: t₂ ∧ enc c = pre ++ front ∧ pre ≠ [] ∧ front ≠ [] ∧
        u = t₁.flatMap enc ++ pre ∧ v = front ++ t₂.flatMap enc := by
  induction t generalizing u with
  | nil =>
    obtain ⟨rfl, rfl⟩ := List.append_eq_nil_iff.mp h.symm
    exact .inl ⟨[], [], rfl, rfl, rfl⟩
  | cons c t ih =>
    rw [List.flatMap_cons] at h
    rcases List.append_eq_append_iff.mp h with ⟨more, rfl, htail⟩ | ⟨front, hcode, rfl⟩
    · rcases ih htail with ⟨t₁, t₂, rfl, rfl, rfl⟩ |
        ⟨t₁, d, t₂, pre, front, rfl, hcode, hpre, hfront, rfl, rfl⟩
      · exact .inl ⟨c :: t₁, t₂, rfl, rfl, rfl⟩
      · exact .inr ⟨c :: t₁, d, t₂, pre, front, rfl, hcode, hpre, hfront,
          by rw [List.flatMap_cons, List.append_assoc], rfl⟩
    · rcases eq_or_ne u [] with rfl | hu
      · exact .inl ⟨[], c :: t, rfl, rfl, by rw [List.flatMap_cons, hcode]; rfl⟩
      · rcases eq_or_ne front [] with rfl | hfront
        · rw [List.append_nil] at hcode
          exact .inl ⟨[c], t, rfl, by simp [hcode], rfl⟩
        · exact .inr ⟨[], c, t, u, front, rfl, hcode, hu, hfront, rfl, rfl⟩

section Codes

variable {enc : α → List β} {lead : β → Prop} {sep : α} {sepCode : β} {single : List α → Prop}
  {single' : List β → Prop}

/-- What matches by elements matches by codes, as long as there is no joker. -/
lemma GlobMatches.flatMap (hsep : ∀ c, sepCode ∈ enc c → c = sep) {p : List (GlobItem α)}
    (hjoker : .joker ∉ p) {t : List α} (h : GlobMatches (fun a => [a]) single sep p t) :
    GlobMatches enc single' sepCode p (t.flatMap enc) := by
  induction p generalizing t with
  | nil =>
    obtain rfl : t = [] := h
    rfl
  | cons item p ih =>
    obtain ⟨hitem, hrest⟩ := not_or.mp (mt List.mem_cons.mpr hjoker)
    cases item with
    | one a =>
      obtain ⟨v, rfl, hv⟩ := h
      exact ⟨v.flatMap enc, rfl, ih hrest hv⟩
    | joker =>
      exact absurd rfl hitem
    | run =>
      obtain ⟨u, v, rfl, hu, hv⟩ := h
      refine ⟨u.flatMap enc, v.flatMap enc, List.flatMap_append, fun hmem => ?_, ih hrest hv⟩
      obtain ⟨c, hc, hin⟩ := List.mem_flatMap.mp hmem
      exact hu (hsep c hin ▸ hc)
    | anything =>
      obtain ⟨u, v, rfl, hv⟩ := h
      exact ⟨u.flatMap enc, v.flatMap enc, List.flatMap_append, ih hrest hv⟩

/-- What matches by codes matches by elements, as long as there is no joker: from between two
elements, and from within the code of `c` too. -/
lemma GlobMatches.of_flatMap (hsync : SelfSync enc lead) (hcode : enc sep = [sepCode])
    (hsep : ∀ c, sepCode ∈ enc c → c = sep) {p : List (GlobItem α)} (hjoker : .joker ∉ p) :
    (∀ t, GlobMatches enc single' sepCode p (t.flatMap enc) →
      GlobMatches (fun a => [a]) single sep p t) ∧
    ∀ c pre front t, enc c = pre ++ front → pre ≠ [] → front ≠ [] →
      GlobMatches enc single' sepCode p (front ++ t.flatMap enc) →
      GlobMatches (fun a => [a]) single sep p (c :: t) := by
  induction p with
  | nil =>
    refine ⟨fun t h => ?_, fun c pre front t _ _ hfront h => ?_⟩
    · cases t with
      | nil => rfl
      | cons c t =>
        obtain ⟨b, rest, hb, -⟩ := hsync.first c
        have hnil : (c :: t).flatMap enc = [] := h
        rw [List.flatMap_cons, hb] at hnil
        cases hnil
    · exact absurd (List.append_eq_nil_iff.mp h).1 hfront
  | cons item p ih =>
    obtain ⟨hitem, hrest⟩ := not_or.mp (mt List.mem_cons.mpr hjoker)
    obtain ⟨hstart, hwithin⟩ := ih hrest
    -- a part of the codes is a part of the text
    have hpart {t : List α} {u v : List β} (heq : t.flatMap enc = u ++ v)
        (hv : GlobMatches enc single' sepCode p v) :
        ∃ t₁ t₂, t = t₁ ++ t₂ ∧ (sepCode ∉ u → sep ∉ t₁) ∧
          GlobMatches (fun a => [a]) single sep p t₂ := by
      have hnot {t₁ : List α} {u' : List β} (h : sepCode ∉ t₁.flatMap enc ++ u') : sep ∉ t₁ :=
        fun hmem => h (List.mem_append_left _ (List.mem_flatMap.mpr ⟨sep, hmem, by simp [hcode]⟩))
      rcases flatMap_eq_append enc heq with ⟨t₁, t₂, rfl, rfl, rfl⟩ |
        ⟨t₁, c, t₂, pre, front, rfl, hc, hpre, hfront, rfl, rfl⟩
      · exact ⟨t₁, t₂, rfl, fun h => @hnot t₁ [] (by rwa [List.append_nil]), hstart _ hv⟩
      · exact ⟨t₁, c :: t₂, rfl, hnot, hwithin c pre front t₂ hc hpre hfront hv⟩
    -- the separator is not within a code
    have hclean {c : α} {pre front : List β} (hc : enc c = pre ++ front) (hpre : pre ≠ [])
        (hfront : front ≠ []) : sepCode ∉ pre := by
      intro hmem
      obtain rfl := hsep c (by rw [hc]; exact List.mem_append_left _ hmem)
      have hlen := congrArg List.length (hcode.symm.trans hc)
      have h₁ := List.length_pos_of_ne_nil hpre
      have h₂ := List.length_pos_of_ne_nil hfront
      rw [List.length_append, List.length_singleton] at hlen
      omega
    cases item with
    | one a =>
      obtain ⟨b, rest, hb, hlead, -⟩ := hsync.first a
      refine ⟨fun t ⟨v, heq, hv⟩ => ?_, fun c pre front t hc hpre hfront ⟨v, heq, hv⟩ => ?_⟩
      · cases t with
        | nil =>
          rw [hb] at heq
          cases heq
        | cons c t =>
          rw [List.flatMap_cons] at heq
          obtain rfl := hsync.inj _ _ _ _ heq
          obtain rfl := List.append_cancel_left heq
          exact ⟨t, rfl, hstart t hv⟩
      · obtain ⟨b', rest', hb', -, hnot⟩ := hsync.first c
        obtain ⟨x, front, rfl⟩ := List.exists_cons_of_ne_nil hfront
        obtain ⟨y, pre, rfl⟩ := List.exists_cons_of_ne_nil hpre
        rw [hb, List.cons_append, List.cons_append] at heq
        obtain rfl := (List.cons.inj heq).1
        rw [hb', List.cons_append] at hc
        refine absurd hlead (hnot x ?_)
        rw [(List.cons.inj hc).2]
        exact List.mem_append_right _ List.mem_cons_self
    | joker => exact absurd rfl hitem
    | run =>
      refine ⟨fun t ⟨u, v, heq, hu, hv⟩ => ?_,
        fun c pre front t hc hpre hfront ⟨u, v, heq, hu, hv⟩ => ?_⟩
      · obtain ⟨t₁, t₂, rfl, hsep₁, hv⟩ := hpart heq hv
        exact ⟨t₁, t₂, rfl, hsep₁ hu, hv⟩
      · have hwhole : (c :: t).flatMap enc = (pre ++ u) ++ v := by
          rw [List.flatMap_cons, hc, List.append_assoc, heq, List.append_assoc]
        obtain ⟨t₁, t₂, ht, hsep₁, hv⟩ := hpart hwhole hv
        refine ⟨t₁, t₂, ht, hsep₁ fun hmem => ?_, hv⟩
        exact (List.mem_append.mp hmem).elim (hclean hc hpre hfront) hu
    | anything =>
      refine ⟨fun t ⟨u, v, heq, hv⟩ => ?_, fun c pre front t hc _ _ ⟨u, v, heq, hv⟩ => ?_⟩
      · obtain ⟨t₁, t₂, rfl, -, hv⟩ := hpart heq hv
        exact ⟨t₁, t₂, rfl, hv⟩
      · have hwhole : (c :: t).flatMap enc = (pre ++ u) ++ v := by
          rw [List.flatMap_cons, hc, List.append_assoc, heq, List.append_assoc]
        obtain ⟨t₁, t₂, ht, -, hv⟩ := hpart hwhole hv
        exact ⟨t₁, t₂, ht, hv⟩

/-- With jokers for single codes, a pattern matches the codes of its skeleton. -/
lemma globMatches_skeleton (hcode : enc sep = [sepCode]) (hsingle : single' [sepCode])
    (p : List (GlobItem α)) :
    GlobMatches enc single' sepCode p ((skeleton sep p).flatMap enc) := by
  induction p with
  | nil => rfl
  | cons item p ih =>
    cases item with
    | one a => exact ⟨_, rfl, ih⟩
    | joker => exact ⟨[sepCode], _, by rw [skeleton, List.flatMap_cons, hcode], hsingle, ih⟩
    | run => exact ⟨[], _, rfl, List.not_mem_nil, ih⟩
    | anything => exact ⟨[], _, rfl, ih⟩

variable (single') in
/-- Jokers for single codes mean the same as jokers for single elements other than the separator in
the patterns that have none. -/
theorem globMatches_flatMap_iff (hsync : SelfSync enc lead) (hcode : enc sep = [sepCode])
    (hsep : ∀ c, sepCode ∈ enc c → c = sep) (hsingle : ∀ u, single u → ∃ a ≠ sep, u = [a])
    (hsingle' : single' [sepCode]) (p : List (GlobItem α)) :
    (∀ t, GlobMatches enc single' sepCode p (t.flatMap enc) ↔
      GlobMatches (fun a => [a]) single sep p t) ↔ .joker ∉ p := by
  constructor
  · intro h
    exact joker_notMem_of_skeleton hsingle ((h _).mp (globMatches_skeleton hcode hsingle' p))
  · intro hjoker t
    exact ⟨(GlobMatches.of_flatMap hsync hcode hsep hjoker).1 t, GlobMatches.flatMap hsep hjoker⟩

end Codes

end Orchid.Lib
