import Mathlib.Data.List.Basic
import Mathlib.Data.List.Forall2
import Mathlib.Data.List.Induction

/-!
# Lists of partial computations

A computation over a list that fails when one of its steps fails: where no step does, the
whole returns, and what each step ensures holds of the result.
-/

namespace FastLivo.Lib

variable {α β σ : Type*}

theorem mapM_eq_some {f : α → Option β} {P : β → Prop} {l : List α}
    (h : ∀ a ∈ l, ∃ b, f a = some b ∧ P b) : ∃ bs, l.mapM f = some bs ∧ ∀ b ∈ bs, P b := by
  induction l with
  | nil => exact ⟨[], rfl, by simp⟩
  | cons a l ih =>
    obtain ⟨⟨b, hb, hP⟩, hl⟩ := List.forall_mem_cons.mp h
    obtain ⟨bs, hbs, hPs⟩ := ih hl
    exact ⟨b :: bs, by simp [hb, hbs], List.forall_mem_cons.mpr ⟨hP, hPs⟩⟩

theorem mapM_eq_map {f : α → Option β} {g : α → β} {l : List α} (h : ∀ a ∈ l, f a = some (g a)) :
    l.mapM f = some (l.map g) := by
  induction l with
  | nil => rfl
  | cons a l ih =>
    obtain ⟨ha, hl⟩ := List.forall_mem_cons.mp h
    rw [List.mapM_cons, ha, ih hl]
    rfl

theorem mapM_congr {f g : α → Option β} {l : List α} (h : ∀ a ∈ l, f a = g a) :
    l.mapM f = l.mapM g := by
  induction l with
  | nil => rfl
  | cons a l ih =>
    obtain ⟨ha, hl⟩ := List.forall_mem_cons.mp h
    rw [List.mapM_cons, List.mapM_cons, ha, ih hl]

/-- A loop over the first indices of a list is a loop over its first elements. -/
theorem mapM_range {l : List α} {n : ℕ} (hn : n ≤ l.length) (f : α → Option β) :
    ((List.range n).mapM fun i => l[i]?.bind f) = (l.take n).mapM f := by
  induction n with
  | zero => simp
  | succ n ih =>
    have hget : l[n]? = some l[n] := List.getElem?_eq_getElem hn
    rw [List.range_succ, List.take_add_one, List.mapM_append, List.mapM_append, ih (by omega)]
    simp [hget]

/-- A loop over more indices than a list has reads behind its end. -/
theorem mapM_range_eq_none {l : List α} {n : ℕ} (hn : l.length < n) (f : α → Option β) :
    ((List.range n).mapM fun i => l[i]?.bind f) = none := by
  induction n with
  | zero => omega
  | succ n ih =>
    rw [List.range_succ, List.mapM_append]
    by_cases hlast : l.length < n
    · rw [ih hlast]
      rfl
    · have hget : l[n]? = none := List.getElem?_eq_none (by omega)
      simp [hget]

/-- A loop over the indices of a list that selects by element. -/
theorem filterMap_range_getElem? (l : List α) (f : α → Option β) :
    ((List.range l.length).filterMap fun i => l[i]?.bind f) = l.filterMap f := by
  induction l using List.reverseRecOn with
  | nil => rfl
  | append_singleton l a ih =>
    rw [List.length_append, List.length_singleton, List.range_succ, List.filterMap_append,
      List.filterMap_append, ← ih]
    refine congrArg₂ (· ++ ·) (List.filterMap_congr fun i hi => ?_) ?_
    · rw [List.getElem?_append_left (List.mem_range.mp hi)]
    · rw [List.filterMap_cons, List.getElem?_concat_length, List.filterMap_cons]
      rfl

theorem length_of_mapM {f : α → Option β} {l : List α} {bs : List β} (h : l.mapM f = some bs) :
    bs.length = l.length := by
  induction l generalizing bs with
  | nil =>
    obtain rfl := Option.some.inj h
    rfl
  | cons a l ih =>
    rw [List.mapM_cons] at h
    obtain ⟨b, -, h⟩ := Option.bind_eq_some_iff.mp h
    obtain ⟨bs', hbs, h⟩ := Option.bind_eq_some_iff.mp h
    obtain rfl := Option.some.inj h
    rw [List.length_cons, List.length_cons, ih hbs]

theorem mem_of_mapM {f : α → Option β} {l : List α} {bs : List β} (h : l.mapM f = some bs) {b : β}
    (hb : b ∈ bs) : ∃ a ∈ l, f a = some b := by
  induction l generalizing bs with
  | nil =>
    obtain rfl := Option.some.inj h
    cases hb
  | cons a l ih =>
    rw [List.mapM_cons] at h
    obtain ⟨b', hb', h⟩ := Option.bind_eq_some_iff.mp h
    obtain ⟨bs', hbs, h⟩ := Option.bind_eq_some_iff.mp h
    obtain rfl := Option.some.inj h
    rcases List.mem_cons.mp hb with rfl | hb
    · exact ⟨a, List.mem_cons_self, hb'⟩
    · obtain ⟨a', ha', hfa⟩ := ih hbs hb
      exact ⟨a', List.mem_cons_of_mem a ha', hfa⟩

/-- The elements and what was made of them, in pairs. -/
theorem forall₂_of_mapM {f : α → Option β} {l : List α} {bs : List β}
    (h : l.mapM f = some bs) : List.Forall₂ (fun a b => f a = some b) l bs := by
  induction l generalizing bs with
  | nil =>
    obtain rfl := Option.some.inj h
    exact .nil
  | cons a l ih =>
    rw [List.mapM_cons] at h
    obtain ⟨b, hb, h⟩ := Option.bind_eq_some_iff.mp h
    obtain ⟨bs', hbs, h⟩ := Option.bind_eq_some_iff.mp h
    obtain rfl := Option.some.inj h
    exact .cons hb (ih hbs)

/-- Two computations over a list both return the same exactly when each of their steps does. -/
theorem mapM_agree_iff {f g : α → Option β} {l : List α} :
    (∃ bs, l.mapM f = some bs ∧ l.mapM g = some bs) ↔
      ∀ a ∈ l, ∃ b, f a = some b ∧ g a = some b := by
  induction l with
  | nil => simp
  | cons a l ih =>
    rw [List.forall_mem_cons, ← ih]
    constructor
    · rintro ⟨bs, hf, hg⟩
      rw [List.mapM_cons] at hf hg
      obtain ⟨b, hb, hf⟩ := Option.bind_eq_some_iff.mp hf
      obtain ⟨c, hc, hg⟩ := Option.bind_eq_some_iff.mp hg
      obtain ⟨bs', hbs, hf⟩ := Option.bind_eq_some_iff.mp hf
      obtain ⟨cs', hcs, hg⟩ := Option.bind_eq_some_iff.mp hg
      obtain rfl := Option.some.inj hf
      obtain ⟨rfl, rfl⟩ := List.cons.inj (Option.some.inj hg)
      exact ⟨⟨_, hb, hc⟩, _, hbs, hcs⟩
    · rintro ⟨⟨b, hfa, hga⟩, bs, hf, hg⟩
      exact ⟨b :: bs, by simp [hfa, hf], by simp [hga, hg]⟩

/-- Two selections that leave nothing out agree exactly when all their elements do. -/
theorem filterMap_eq_filterMap_iff {f g : α → Option β} {l : List α} (hf : ∀ a ∈ l, (f a).isSome)
    (hg : ∀ a ∈ l, (g a).isSome) : l.filterMap f = l.filterMap g ↔ ∀ a ∈ l, f a = g a := by
  induction l with
  | nil => simp
  | cons a l ih =>
    obtain ⟨hfa, hf⟩ := List.forall_mem_cons.mp hf
    obtain ⟨hga, hg⟩ := List.forall_mem_cons.mp hg
    obtain ⟨b, hb⟩ := Option.isSome_iff_exists.mp hfa
    obtain ⟨c, hc⟩ := Option.isSome_iff_exists.mp hga
    rw [List.forall_mem_cons, List.filterMap_cons_some hb, List.filterMap_cons_some hc,
      List.cons.injEq, ih hf hg, hb, hc, Option.some_inj]

theorem foldlM_eq_some {f : σ → α → Option σ} {P : σ → Prop} {l : List α}
    (h : ∀ a ∈ l, ∀ s, P s → ∃ t, f s a = some t ∧ P t) {s : σ} (hs : P s) :
    ∃ t, l.foldlM f s = some t ∧ P t := by
  induction l generalizing s with
  | nil => exact ⟨s, rfl, hs⟩
  | cons a l ih =>
    obtain ⟨ha, hl⟩ := List.forall_mem_cons.mp h
    obtain ⟨t, ht, hPt⟩ := ha s hs
    obtain ⟨u, hu, hPu⟩ := ih hl hPt
    exact ⟨u, by simp [ht, hu], hPu⟩

theorem lookup_of_mem [BEq α] [LawfulBEq α] {l : List (α × β)} {p : α × β} (h : p ∈ l) :
    ∃ b, l.lookup p.1 = some b := by
  induction l with
  | nil => cases h
  | cons q l ih =>
    rw [List.lookup_cons]
    split
    · exact ⟨_, rfl⟩
    · rename_i hne
      rcases List.mem_cons.mp h with rfl | h
      · simp at hne
      · exact ih h

theorem getLast?_of_ne_nil {l : List α} (h : l ≠ []) : ∃ a, l.getLast? = some a :=
  ⟨_, List.getLast?_eq_some_getLast h⟩

end FastLivo.Lib
