import FastLivo.Lib.Assign
import FastLivo.Lib.Run
import Mathlib.Algebra.BigOperators.Group.Finset.Basic
import Mathlib.Algebra.Order.BigOperators.Group.Finset
import Mathlib.Data.List.Range

/-!
# A parallel loop with a lock

The iterations of a loop run interleaved in any order. Each one works on its own element, then
takes the lock, stores a flag in a packed vector of bits and a value in a vector, and gives the
lock back. A flag is stored by reading its word and writing the word back, so that it is the lock
that keeps the flags of one word. However the iterations are interleaved, no run stops before all
are done, and then flags and values are those of the iterations one after the other.
-/

namespace FastLivo.Lib

variable {α β : Type*}

/-- What an iteration has to store. -/
inductive LoopResult (α : Type*)
  | skip
  | fail
  | hit (a : α)

/-- The flag of an iteration. -/
def LoopResult.flag : LoopResult α → Bool
  | .hit _ => true
  | .skip | .fail => false

/-- The value of an iteration, or what its place was made with. -/
def LoopResult.value (blank : α) : LoopResult α → α
  | .hit a => a
  | .skip | .fail => blank

/-- What an iteration adds to the values that are flagged. -/
def LoopResult.stored : LoopResult α → Option α
  | .hit a => some a
  | .skip | .fail => none

/-- Where an iteration is. -/
inductive IterPc (α : Type*)
  | start
  | lock (t : LoopResult α)
  | readWord (t : LoopResult α)
  | writeWord (t : LoopResult α) (w : BitVec 64)
  | store (a : α)
  | unlock
  | done

/-- An iteration that has nothing to store does not take the lock. -/
def LoopResult.first : LoopResult α → IterPc α
  | .skip => .done
  | .fail => .lock .fail
  | .hit a => .lock (.hit a)

/-- What follows the flag. -/
def LoopResult.next : LoopResult α → IterPc α
  | .hit a => .store a
  | .skip | .fail => .unlock

/-- The iterations, and what they share. -/
structure LoopState (α β : Type*) where
  pc : ℕ → IterPc α
  holder : Option ℕ
  elements : ℕ → β
  words : ℕ → BitVec 64
  values : ℕ → α

/-- The loop before its first step. -/
def LoopState.initial (blank : α) (elements : ℕ → β) : LoopState α β :=
  ⟨fun _ => .start, none, elements, fun _ => 0, fun _ => blank⟩

/-- The flag of an iteration in its word. -/
def LoopState.flag (s : LoopState α β) (i : ℕ) : Bool := (s.words (i / 64)).getLsbD (i % 64)

/-- The values that are flagged, in the order of the loop. -/
def LoopState.collect (n : ℕ) (s : LoopState α β) : List α :=
  (List.range n).filterMap fun i => if s.flag i then some (s.values i) else none

/-- A word with one bit replaced. -/
def setBit (w : BitVec 64) (i : ℕ) (b : Bool) : BitVec 64 :=
  if b then w ||| BitVec.twoPow 64 i else w &&& ~~~BitVec.twoPow 64 i

theorem getLsbD_setBit (w : BitVec 64) {i j : ℕ} (hj : j < 64) (b : Bool) :
    (setBit w i b).getLsbD j = if j = i then b else w.getLsbD j := by
  unfold setBit
  split
  · rename_i hb
    by_cases hij : j = i
    · subst hij
      simp [hb, hj]
    · simp [hij, hj]
  · rename_i hb
    by_cases hij : j = i
    · subst hij
      simp [Bool.eq_false_iff.mpr hb, hj]
    · simp [hij, hj]

def LoopState.goto (s : LoopState α β) (i : ℕ) (pc : IterPc α) : LoopState α β :=
  { s with pc := assign s.pc i pc }

/-- A step of iteration `i`; `none` where it waits, is done, or does what is undefined. -/
def loopStep (n : ℕ) (work : β → Option (LoopResult α × β)) (s : LoopState α β) (i : ℕ) :
    Option (LoopState α β) :=
  if n ≤ i then none
  else
    match s.pc i with
    | .start => (work (s.elements i)).map fun (t, b) =>
      { s.goto i t.first with elements := assign s.elements i b }
    | .lock t =>
      if s.holder.isSome then none else some { s.goto i (.readWord t) with holder := some i }
    | .readWord t => some (s.goto i (.writeWord t (s.words (i / 64))))
    | .writeWord t w => some
      { s.goto i t.next with words := assign s.words (i / 64) (setBit w (i % 64) t.flag) }
    | .store a => some { s.goto i .unlock with values := assign s.values i a }
    | .unlock => some { s.goto i .done with holder := none }
    | .done => none

/-! ## The invariant -/

/-- The iteration is between taking the lock and giving it back. -/
def IterPc.Critical : IterPc α → Prop
  | .readWord _ | .writeWord .. | .store _ | .unlock => True
  | .start | .lock _ | .done => False

/-- What an iteration that began with the element `x` did so far. -/
def IterInv (work : β → Option (LoopResult α × β)) (blank : α) (x : β) (pc : IterPc α)
    (element : β) (flag : Bool) (value : α) : Prop :=
  match pc with
  | .start => element = x ∧ flag = false ∧ value = blank
  | .lock t | .readWord t | .writeWord t _ =>
    work x = some (t, element) ∧ flag = false ∧ value = blank
  | .store a => work x = some (.hit a, element) ∧ flag = true ∧ value = blank
  | .unlock | .done => ∃ t, work x = some (t, element) ∧ flag = t.flag ∧ value = t.value blank

/-- The lock is held by the iteration in its critical section, which has the word as it is. -/
structure LoopInv (n : ℕ) (work : β → Option (LoopResult α × β)) (blank : α) (elements : ℕ → β)
    (s : LoopState α β) : Prop where
  holder : ∀ i, s.holder = some i ↔ (s.pc i).Critical
  each : ∀ i, IterInv work blank (elements i) (s.pc i) (s.elements i) (s.flag i) (s.values i)
  word : ∀ i t w, s.pc i = .writeWord t w → w = s.words (i / 64)
  outside : ∀ i, n ≤ i → s.pc i = .start

theorem loopInv_initial (n : ℕ) (work : β → Option (LoopResult α × β)) (blank : α)
    (elements : ℕ → β) : LoopInv n work blank elements (.initial blank elements) where
  holder _ := ⟨nofun, False.elim⟩
  each _ := ⟨rfl, by simp [LoopState.flag, LoopState.initial], rfl⟩
  word _ _ _ := nofun
  outside _ _ := rfl

section Step

variable {n : ℕ} {work : β → Option (LoopResult α × β)} {blank : α} {elements : ℕ → β}
  {s t : LoopState α β} {i : ℕ}

theorem assign_eq_self {γ : Type*} (f : ℕ → γ) (i : ℕ) : f = assign f i (f i) := by
  funext j
  unfold assign
  split
  · rename_i hj
    rw [hj]
  · rfl

/-- A step of one iteration: the others keep the lock and their flags. -/
theorem LoopInv.move (h : LoopInv n work blank elements s) (hi : i < n) {pc : IterPc α} {b : β}
    {a : α} (hpc : t.pc = assign s.pc i pc) (helements : t.elements = assign s.elements i b)
    (hvalues : t.values = assign s.values i a) (hholder : t.holder = some i ↔ pc.Critical)
    (hothers : ∀ j, j ≠ i → (t.holder = some j ↔ s.holder = some j))
    (hwords : t.words = s.words ∨ s.holder = some i ∧ ∀ j, j ≠ i → t.flag j = s.flag j)
    (heach : IterInv work blank (elements i) pc b (t.flag i) a)
    (hword : ∀ task w, pc = .writeWord task w → w = t.words (i / 64)) :
    LoopInv n work blank elements t := by
  have hflag : ∀ j, j ≠ i → t.flag j = s.flag j := by
    intro j hj
    rcases hwords with hsame | ⟨-, hsame⟩
    · simp only [LoopState.flag, hsame]
    · exact hsame j hj
  refine ⟨fun j => ?_, fun j => ?_, fun j task w hj => ?_, fun j hj => ?_⟩
  · by_cases hij : j = i
    · subst hij
      rw [hpc, assign_self]
      exact hholder
    · rw [hpc, assign_of_ne hij, hothers j hij]
      exact h.holder j
  · by_cases hij : j = i
    · subst hij
      rw [hpc, helements, hvalues, assign_self, assign_self, assign_self]
      exact heach
    · rw [hpc, helements, hvalues, assign_of_ne hij, assign_of_ne hij, assign_of_ne hij,
        hflag j hij]
      exact h.each j
  · by_cases hij : j = i
    · subst hij
      rw [hpc, assign_self] at hj
      exact hword task w hj
    · rw [hpc, assign_of_ne hij] at hj
      rcases hwords with hsame | ⟨hheld, -⟩
      · rw [hsame]
        exact h.word j task w hj
      · have hcritical : s.holder = some j := (h.holder j).mpr (by rw [hj]; trivial)
        exact absurd (Option.some.inj (hcritical.symm.trans hheld)) hij
  · have hij : j ≠ i := by omega
    rw [hpc, assign_of_ne hij]
    exact h.outside j hj

theorem flag_setBit {b : Bool} (hwords : t.words = assign s.words (i / 64)
    (setBit (s.words (i / 64)) (i % 64) b)) (j : ℕ) :
    t.flag j = if j = i then b else s.flag j := by
  have hlt : j % 64 < 64 := Nat.mod_lt _ (by decide)
  unfold LoopState.flag
  rw [hwords]
  by_cases hword : j / 64 = i / 64
  · rw [hword, assign_self, getLsbD_setBit _ hlt]
    have hiff : j % 64 = i % 64 ↔ j = i := by omega
    simp only [hiff]
  · rw [assign_of_ne hword, if_neg (fun hij => hword (by rw [hij]))]

/-- One step keeps the invariant. -/
theorem LoopInv.step (h : LoopInv n work blank elements s) (hst : loopStep n work s i = some t) :
    LoopInv n work blank elements t := by
  unfold loopStep at hst
  split at hst
  · cases hst
  · rename_i hlt
    have hi : i < n := Nat.lt_of_not_le hlt
    have heach := h.each i
    have hholder := h.holder i
    have hword := h.word i
    cases hpc : s.pc i with
    | start =>
      rw [hpc] at hst heach hholder
      obtain ⟨⟨task, b⟩, hwork, rfl⟩ := Option.map_eq_some_iff.mp hst
      obtain ⟨helement, hflag, hvalue⟩ := heach
      rw [helement] at hwork
      cases task with
      | skip =>
        exact h.move hi rfl rfl (assign_eq_self _ i) hholder
          (fun _ _ => Iff.rfl) (.inl rfl) ⟨.skip, hwork, hflag, hvalue⟩ nofun
      | fail =>
        exact h.move hi rfl rfl (assign_eq_self _ i) hholder
          (fun _ _ => Iff.rfl) (.inl rfl) ⟨hwork, hflag, hvalue⟩ nofun
      | hit a =>
        exact h.move hi rfl rfl (assign_eq_self _ i) hholder
          (fun _ _ => Iff.rfl) (.inl rfl) ⟨hwork, hflag, hvalue⟩ nofun
    | lock task =>
      rw [hpc] at hst heach
      simp only at hst
      split at hst
      · cases hst
      · rename_i hfree
        have hnone : s.holder = none := by simpa using hfree
        obtain rfl := Option.some.inj hst
        refine h.move hi rfl (assign_eq_self _ i) (assign_eq_self _ i)
          ⟨fun _ => trivial, fun _ => rfl⟩ (fun j hj => ?_) (.inl rfl) heach nofun
        rw [hnone]
        exact ⟨fun hsome => absurd (Option.some.inj hsome).symm hj, nofun⟩
    | readWord task =>
      rw [hpc] at hst heach hholder
      obtain rfl := Option.some.inj hst
      refine h.move hi rfl (assign_eq_self _ i) (assign_eq_self _ i) hholder (fun _ _ => Iff.rfl)
        (.inl rfl) heach fun task' w hw => ?_
      exact ((IterPc.writeWord.inj hw).2).symm
    | writeWord task w =>
      rw [hpc] at hst heach hholder
      obtain rfl := hword task w hpc
      obtain rfl := Option.some.inj hst
      obtain ⟨hwork, -, hvalue⟩ := heach
      have hheld : s.holder = some i := hholder.mpr trivial
      have hflags := flag_setBit (s := s) (i := i) (b := task.flag)
        (t := { s.goto i task.next with
          words := assign s.words (i / 64) (setBit (s.words (i / 64)) (i % 64) task.flag) }) rfl
      refine h.move hi rfl (assign_eq_self _ i) (assign_eq_self _ i) ?_ (fun _ _ => Iff.rfl)
        (.inr ⟨hheld, fun j hj => (hflags j).trans (if_neg hj)⟩) ?_ ?_
      · cases task <;> exact ⟨fun _ => trivial, fun _ => hheld⟩
      · rw [hflags i, if_pos rfl]
        cases task with
        | skip | fail => exact ⟨_, hwork, rfl, hvalue⟩
        | hit a => exact ⟨hwork, rfl, hvalue⟩
      · cases task <;> nofun
    | store a =>
      rw [hpc] at hst heach hholder
      obtain rfl := Option.some.inj hst
      obtain ⟨hwork, hflag, -⟩ := heach
      exact h.move hi rfl (assign_eq_self _ i) rfl hholder (fun _ _ => Iff.rfl) (.inl rfl)
        ⟨.hit a, hwork, hflag, rfl⟩ nofun
    | unlock =>
      rw [hpc] at hst heach hholder
      obtain rfl := Option.some.inj hst
      have hheld : s.holder = some i := hholder.mpr trivial
      refine h.move hi rfl (assign_eq_self _ i) (assign_eq_self _ i) ⟨nofun, False.elim⟩
        (fun j hj => ?_) (.inl rfl) heach nofun
      rw [hheld]
      exact ⟨nofun, fun hsome => absurd (Option.some.inj hsome).symm hj⟩
    | done =>
      rw [hpc] at hst
      cases hst

/-! ## Progress -/

/-- Steps that an iteration has left, at most. -/
def IterPc.rank : IterPc α → ℕ
  | .start => 6
  | .lock _ => 5
  | .readWord _ => 4
  | .writeWord .. => 3
  | .store _ => 2
  | .unlock => 1
  | .done => 0

def LoopState.rank (n : ℕ) (s : LoopState α β) : ℕ := ∑ i ∈ Finset.range n, (s.pc i).rank

/-- A step moves one iteration on. -/
theorem loopStep_pc (hst : loopStep n work s i = some t) :
    i < n ∧ ∃ pc, t.pc = assign s.pc i pc ∧ pc.rank < (s.pc i).rank := by
  unfold loopStep at hst
  split at hst
  · cases hst
  · rename_i hlt
    refine ⟨Nat.lt_of_not_le hlt, ?_⟩
    cases hpc : s.pc i with
    | start =>
      rw [hpc] at hst
      obtain ⟨⟨task, b⟩, -, rfl⟩ := Option.map_eq_some_iff.mp hst
      refine ⟨_, rfl, ?_⟩
      cases task <;> simp [LoopResult.first, IterPc.rank]
    | lock task =>
      rw [hpc] at hst
      simp only at hst
      split at hst
      · cases hst
      · obtain rfl := Option.some.inj hst
        exact ⟨_, rfl, Nat.lt_succ_self 4⟩
    | readWord task =>
      rw [hpc] at hst
      obtain rfl := Option.some.inj hst
      exact ⟨_, rfl, Nat.lt_succ_self 3⟩
    | writeWord task w =>
      rw [hpc] at hst
      obtain rfl := Option.some.inj hst
      refine ⟨_, rfl, ?_⟩
      cases task <;> simp [LoopResult.next, IterPc.rank]
    | store a =>
      rw [hpc] at hst
      obtain rfl := Option.some.inj hst
      exact ⟨_, rfl, Nat.lt_succ_self 1⟩
    | unlock =>
      rw [hpc] at hst
      obtain rfl := Option.some.inj hst
      exact ⟨_, rfl, Nat.lt_succ_self 0⟩
    | done =>
      rw [hpc] at hst
      cases hst

theorem rank_step (hst : loopStep n work s i = some t) : t.rank n < s.rank n := by
  obtain ⟨hi, pc, hpc, hlt⟩ := loopStep_pc hst
  refine Finset.sum_lt_sum (fun j _ => ?_) ⟨i, Finset.mem_range.mpr hi, ?_⟩
  · rw [hpc]
    by_cases hj : j = i
    · subst hj
      rw [assign_self]
      exact hlt.le
    · rw [assign_of_ne hj]
  · rw [hpc, assign_self]
    exact hlt

/-- A run is not longer than the work there was. -/
theorem length_add_rank_le {is : List ℕ} (h : exec (loopStep n work) s is = some t) :
    is.length + t.rank n ≤ s.rank n := by
  induction is generalizing s with
  | nil =>
    obtain rfl := Option.some.inj h
    simp
  | cons i is ih =>
    obtain ⟨u, hst, hrest⟩ := Option.bind_eq_some_iff.mp h
    have hless := rank_step hst
    have hlength := ih hrest
    rw [List.length_cons]
    omega

/-- An iteration that is not done has a step, or the one that holds the lock has, if none does what
is undefined. -/
theorem LoopInv.progress (h : LoopInv n work blank elements s)
    (hdefined : ∀ i < n, (work (elements i)).isSome) (hi : i < n) (hrest : s.pc i ≠ .done) :
    ∃ j t, (j = i ∨ (s.pc j).Critical) ∧ loopStep n work s j = some t := by
  have hheld (j : ℕ) (hj : s.holder = some j) : ∃ t, loopStep n work s j = some t := by
    have hcritical := (h.holder j).mp hj
    have hlt : ¬n ≤ j := by
      intro hle
      rw [h.outside j hle] at hcritical
      exact hcritical
    unfold loopStep
    rw [if_neg hlt]
    cases hpc : s.pc j with
    | start | lock | done =>
      rw [hpc] at hcritical
      exact hcritical.elim
    | readWord | writeWord | store | unlock => exact ⟨_, rfl⟩
  cases hlock : s.holder with
  | some j =>
    obtain ⟨t, ht⟩ := hheld j hlock
    exact ⟨j, t, .inr ((h.holder j).mp hlock), ht⟩
  | none =>
    have hfree : ¬(s.pc i).Critical := by
      intro hc
      have hsome := (h.holder i).mpr hc
      rw [hlock] at hsome
      cases hsome
    have hstep : ∃ t, loopStep n work s i = some t := by
      unfold loopStep
      rw [if_neg (Nat.not_le.mpr hi)]
      cases hpc : s.pc i with
      | start =>
        have helement : s.elements i = elements i := by
          have heach := h.each i
          rw [hpc] at heach
          exact heach.1
        obtain ⟨r, hr⟩ := Option.isSome_iff_exists.mp (hdefined i hi)
        exact ⟨_, by simp only [helement, hr, Option.map_some]; rfl⟩
      | lock task => exact ⟨_, by simp only [hlock, Option.isSome_none]; rfl⟩
      | readWord | writeWord | store | unlock =>
        rw [hpc] at hfree
        exact absurd trivial hfree
      | done => exact absurd hpc hrest
    obtain ⟨t, ht⟩ := hstep
    exact ⟨i, t, .inl rfl, ht⟩

/-- Once all iterations are done, flags and values are those that the iterations had to store. -/
theorem LoopInv.finished (h : LoopInv n work blank elements s) (hdone : ∀ i < n, s.pc i = .done)
    {tasks : ℕ → LoopResult α × β} (htasks : ∀ i < n, work (elements i) = some (tasks i)) :
    (∀ i < n, s.elements i = (tasks i).2) ∧
      s.collect n = (List.range n).filterMap fun i => (tasks i).1.stored := by
  have heach : ∀ i < n, s.elements i = (tasks i).2 ∧ s.flag i = (tasks i).1.flag ∧
      s.values i = (tasks i).1.value blank := by
    intro i hi
    have hinv := h.each i
    rw [hdone i hi] at hinv
    obtain ⟨task, hwork, hflag, hvalue⟩ := hinv
    have htask := Option.some.inj ((htasks i hi).symm.trans hwork)
    rw [htask]
    exact ⟨rfl, hflag, hvalue⟩
  refine ⟨fun i hi => (heach i hi).1, List.filterMap_congr fun i hi => ?_⟩
  obtain ⟨-, hflag, hvalue⟩ := heach i (List.mem_range.mp hi)
  rw [hflag, hvalue]
  cases (tasks i).1 <;> rfl

/-- Whatever a run does, the invariant holds behind it. -/
theorem loopInv_of_exec {is : List ℕ}
    (h : exec (loopStep n work) (.initial blank elements) is = some s) :
    LoopInv n work blank elements s :=
  (Reach.of_exec h).invariant (loopInv_initial n work blank elements)
    (fun _ _ hinv _ hst => hinv.step hst)

theorem rank_initial (n : ℕ) (blank : α) (elements : ℕ → β) :
    (LoopState.initial blank elements).rank n = n * 6 := by
  simp [LoopState.rank, LoopState.initial, IterPc.rank]

end Step

end FastLivo.Lib
