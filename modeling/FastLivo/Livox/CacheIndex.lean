import FastLivo.Lib.Assign
import FastLivo.Livox.PointFormats
import FastLivo.Livox.Threads

/-!
# The indices of the devices

`CacheIndex` gives every device one of the entries of `lidars_`. The threads of the SDK and the one
that starts the driver call it in any order. A critical section under `index_mutex_` is one step;
so is a look into the map without the mutex. `GetFreeIndex` looks for the key in one critical
section and takes an index in another.
-/

namespace FastLivo.Livox

open Lib

/-- `GenerateIndexKey`. -/
def generateIndexKey (livoxLidarType : UInt8) (handle : UInt32) : Option String :=
  if livoxLidarType = kLivoxLidarType then some ("livox_lidar_" ++ Nat.repr handle.toNat) else none

/-- The functions of `CacheIndex` that are called. -/
inductive IndexFn
  | getFreeIndex | getIndex | lvxGetIndex
  deriving DecidableEq, Repr

/-- Where a call is. -/
inductive IndexPc
  | idle
  | findFree (fn : IndexFn) (key : String)
  | takeFree (fn : IndexFn) (key : String)
  | find (fn : IndexFn) (key : String)
  | read (fn : IndexFn) (key : String)
  deriving DecidableEq, Repr

/-- What a call returned: an index, or -1. A type that is not known has no key. -/
structure IndexAnswer where
  fn : IndexFn
  key : Option String
  index : Option ℕ
  deriving DecidableEq, Repr

/-- The members of `CacheIndex`, the calls, and what they returned. -/
structure CacheIndex where
  mapIndex : String → Option ℕ
  indexCache : ℕ → Bool
  pc : ℕ → IndexPc
  answers : List IndexAnswer

/-- `CacheIndex::CacheIndex`. -/
def CacheIndex.initial : CacheIndex := ⟨fun _ => none, fun _ => false, fun _ => .idle, []⟩

/-- A thread makes a call, or goes on with it. -/
inductive IndexEvent
  | call (thread : ℕ) (fn : IndexFn) (livoxLidarType : UInt8) (handle : UInt32)
  | step (thread : ℕ)
  deriving DecidableEq, Repr

/-- Where a call with a key begins. -/
def IndexFn.entry (key : String) : IndexFn → IndexPc
  | .getFreeIndex => .findFree .getFreeIndex key
  | .getIndex => .find .getIndex key
  | .lvxGetIndex => .find .lvxGetIndex key

/-- The loop of `GetFreeIndex`. -/
def freeIndex (indexCache : ℕ → Bool) : Option ℕ :=
  (List.range kMaxSourceLidar).find? fun i => !indexCache i

def CacheIndex.goto (s : CacheIndex) (thread : ℕ) (pc : IndexPc) : CacheIndex :=
  { s with pc := assign s.pc thread pc }

/-- A call returns. -/
def CacheIndex.answer (s : CacheIndex) (thread : ℕ) (fn : IndexFn) (key : Option String)
    (index : Option ℕ) : CacheIndex :=
  { s with pc := assign s.pc thread .idle, answers := s.answers ++ [⟨fn, key, index⟩] }

/-- A step of a call; `none` if there is no call. -/
def callStep (s : CacheIndex) (thread : ℕ) : Option CacheIndex :=
  match s.pc thread with
  | .idle => none
  | .findFree fn key =>
    match s.mapIndex key with
    | some i => some (s.answer thread fn (some key) (some i))
    | none => some (s.goto thread (.takeFree fn key))
  | .takeFree fn key =>
    -- Whether the key has an index by now is not looked at again.
    match freeIndex s.indexCache with
    | some i => some { s.answer thread fn (some key) (some i) with
        mapIndex := assign s.mapIndex key (some i), indexCache := assign s.indexCache i true }
    | none => some (s.answer thread fn (some key) none)
  | .find fn key =>
    match s.mapIndex key with
    | some _ => some (s.goto thread (.read fn key))
    | none =>
      if fn = .getIndex then some (s.answer thread fn (some key) none)
      else some (s.goto thread (.findFree fn key))
  | .read fn key =>
    -- `operator[]` makes an entry of a key that has none.
    let i := (s.mapIndex key).getD 0
    some { s.answer thread fn (some key) (some i) with mapIndex := assign s.mapIndex key (some i) }

/-- A step of the threads. A type that is not known is refused at once. -/
def indexStep (s : CacheIndex) : IndexEvent → Option CacheIndex
  | .call thread fn livoxLidarType handle =>
    if s.pc thread = .idle then
      match generateIndexKey livoxLidarType handle with
      | some key => some (s.goto thread (fn.entry key))
      | none => some (s.answer thread fn none none)
    else none
  | .step thread => callStep s thread

/-! ## Keys and free indices -/

theorem repr_injective : Function.Injective Nat.repr := by
  intro a b h
  have hdigits : Nat.toDigits 10 a = Nat.toDigits 10 b := String.ofList_injective h
  rw [← Nat.ofDigitChars_toDigits (b := 10) (n := a) (by decide) (by decide), hdigits,
    Nat.ofDigitChars_toDigits (by decide) (by decide)]

/-- Devices with one key are one device. -/
theorem generateIndexKey_injective {livoxLidarType livoxLidarType' : UInt8} {handle handle' : UInt32}
    {key : String} (h : generateIndexKey livoxLidarType handle = some key)
    (h' : generateIndexKey livoxLidarType' handle' = some key) : handle = handle' := by
  unfold generateIndexKey at h h'
  split at h
  · split at h'
    · have heq := Option.some.inj (h.trans h'.symm)
      exact UInt32.toNat_inj.mp (repr_injective ((String.append_right_inj _).mp heq))
    · cases h'
  · cases h

theorem freeIndex_eq_some {indexCache : ℕ → Bool} {i : ℕ} (h : freeIndex indexCache = some i) :
    i < kMaxSourceLidar ∧ indexCache i = false := by
  have hmem := List.mem_of_find?_eq_some h
  have hfree := List.find?_some h
  exact ⟨List.mem_range.mp hmem, by simpa using hfree⟩

theorem freeIndex_eq_none {indexCache : ℕ → Bool} (h : freeIndex indexCache = none) {i : ℕ}
    (hi : i < kMaxSourceLidar) : indexCache i = true := by
  have hall := List.find?_range_eq_none.mp h i hi
  simpa using hall

theorem generateIndexKey_eq {livoxLidarType livoxLidarType' : UInt8} {handle : UInt32}
    {key key' : String} (h : generateIndexKey livoxLidarType handle = some key)
    (h' : generateIndexKey livoxLidarType' handle = some key') : key = key' := by
  unfold generateIndexKey at h h'
  split at h
  · split at h'
    · exact Option.some.inj (h.symm.trans h')
    · cases h'
  · cases h

/-! ## What a step does -/

/-- Where the calls can be: only a call that may take an index is on its way to take one, and a
call that reads the map finds its key there. -/
structure CallsInv (s : CacheIndex) : Prop where
  takes : ∀ thread fn key,
    s.pc thread = .findFree fn key ∨ s.pc thread = .takeFree fn key → fn ≠ .getIndex
  reads : ∀ thread fn key, s.pc thread = .read fn key → (s.mapIndex key).isSome

/-- The effects of a step. -/
inductive IndexEffect (s : CacheIndex) (e : IndexEvent) (thread : ℕ) : CacheIndex → Prop
  | goes {pc : IndexPc}
      (htakes : ∀ fn key, pc = .findFree fn key ∨ pc = .takeFree fn key → fn ≠ .getIndex)
      (hreads : ∀ fn key, pc = .read fn key → (s.mapIndex key).isSome)
      (hlooked : ∀ fn key, pc = .takeFree fn key →
        e = .step thread ∧ s.pc thread = .findFree fn key ∧ s.mapIndex key = none) :
      IndexEffect s e thread (s.goto thread pc)
  | told {fn : IndexFn} {key : String} {i : ℕ} (hmap : s.mapIndex key = some i) :
      IndexEffect s e thread (s.answer thread fn (some key) (some i))
  | took {fn : IndexFn} {key : String} {i : ℕ} (hpc : s.pc thread = .takeFree fn key)
      (hfree : freeIndex s.indexCache = some i) :
      IndexEffect s e thread { s.answer thread fn (some key) (some i) with
        mapIndex := assign s.mapIndex key (some i), indexCache := assign s.indexCache i true }
  | refused {fn : IndexFn} {key : String} (hpc : s.pc thread = .takeFree fn key)
      (hfree : freeIndex s.indexCache = none) : IndexEffect s e thread (s.answer thread fn (some key) none)
  | unknown {key : String} (hmap : s.mapIndex key = none) :
      IndexEffect s e thread (s.answer thread .getIndex (some key) none)
  | unknownType {fn : IndexFn} : IndexEffect s e thread (s.answer thread fn none none)

theorem callStep_cases {s t : CacheIndex} {thread : ℕ} (h : CallsInv s)
    (hst : callStep s thread = some t) : IndexEffect s (.step thread) thread t := by
  unfold callStep at hst
  cases hpc : s.pc thread with
  | idle =>
    rw [hpc] at hst
    cases hst
  | findFree fn key =>
    rw [hpc] at hst
    cases hmap : s.mapIndex key with
    | some i =>
      simp only [hmap] at hst
      obtain rfl := Option.some.inj hst
      exact .told hmap
    | none =>
      simp only [hmap] at hst
      obtain rfl := Option.some.inj hst
      have hfn := h.takes thread fn key (.inl hpc)
      refine .goes ?_ nofun ?_
      · rintro fn' key' (hne | heq)
        · cases hne
        · cases heq
          exact hfn
      · rintro fn' key' heq
        cases heq
        exact ⟨rfl, hpc, hmap⟩
  | takeFree fn key =>
    rw [hpc] at hst
    cases hfree : freeIndex s.indexCache with
    | some i =>
      simp only [hfree] at hst
      obtain rfl := Option.some.inj hst
      exact .took hpc hfree
    | none =>
      simp only [hfree] at hst
      obtain rfl := Option.some.inj hst
      exact .refused hpc hfree
  | find fn key =>
    rw [hpc] at hst
    cases hmap : s.mapIndex key with
    | some i =>
      simp only [hmap] at hst
      obtain rfl := Option.some.inj hst
      refine .goes (by rintro fn' key' (hne | hne) <;> cases hne) ?_ nofun
      rintro fn' key' heq
      cases heq
      rw [hmap]
      rfl
    | none =>
      simp only [hmap] at hst
      split at hst
      · rename_i hfn
        obtain rfl := Option.some.inj hst
        rw [hfn]
        exact .unknown hmap
      · rename_i hfn
        obtain rfl := Option.some.inj hst
        refine .goes ?_ nofun nofun
        rintro fn' key' (heq | hne)
        · cases heq
          exact hfn
        · cases hne
  | read fn key =>
    rw [hpc] at hst
    obtain ⟨i, hi⟩ := Option.isSome_iff_exists.mp (h.reads thread fn key hpc)
    simp only [hi, Option.getD_some] at hst
    obtain rfl := Option.some.inj hst
    -- The entry that `operator[]` would make is there.
    have hsame : assign s.mapIndex key (some i) = s.mapIndex := by
      funext key'
      by_cases hkey : key' = key
      · rw [hkey, assign_self, hi]
      · exact assign_of_ne hkey
    rw [hsame]
    exact .told hi

theorem indexStep_cases {s t : CacheIndex} {e : IndexEvent} (h : CallsInv s)
    (hst : indexStep s e = some t) : ∃ thread, IndexEffect s e thread t := by
  cases e with
  | step thread => exact ⟨thread, callStep_cases h hst⟩
  | call thread fn livoxLidarType handle =>
    simp only [indexStep] at hst
    split at hst
    · split at hst
      · obtain rfl := Option.some.inj hst
        refine ⟨thread, .goes ?_ ?_ ?_⟩
        · rintro fn' key' (heq | heq) <;> cases fn <;> cases heq
          exact nofun
        · rintro fn' key' heq
          cases fn <;> cases heq
        · rintro fn' key' heq
          cases fn <;> cases heq
      · obtain rfl := Option.some.inj hst
        exact ⟨thread, .unknownType⟩
    · cases hst

/-! ## Every interleaving -/

/-- The index is that of the key: the map says so, or a call was told so. -/
def CacheIndex.Knows (s : CacheIndex) (key : String) (i : ℕ) : Prop :=
  s.mapIndex key = some i ∨ ∃ fn, ⟨fn, some key, some i⟩ ∈ s.answers

/-- An index that is known is taken, for one key. -/
structure IndexInv (s : CacheIndex) : Prop extends CallsInv s where
  taken : ∀ key i, s.Knows key i → i < kMaxSourceLidar ∧ s.indexCache i = true
  distinct : ∀ key key' i, s.Knows key i → s.Knows key' i → key = key'
  mapped : ∀ a ∈ s.answers, a.index.isSome → ∃ key, a.key = some key ∧ (s.mapIndex key).isSome
  served : s.answers.Pairwise fun a b =>
    a.key = b.key → a.index.isSome → b.fn = .getIndex → b.index.isSome
  full : ∀ a ∈ s.answers, a.fn ≠ .getIndex → a.key.isSome → a.index = none →
    ∀ i < kMaxSourceLidar, s.indexCache i = true

theorem indexInv_initial : IndexInv .initial where
  takes _ _ _ := by rintro (h | h) <;> cases h
  reads _ _ _ := nofun
  taken _ _ := by rintro (h | ⟨_, h⟩) <;> cases h
  distinct _ _ _ := by rintro (h | ⟨_, h⟩) <;> cases h
  mapped _ := nofun
  served := .nil
  full _ := nofun

theorem CallsInv.move {s t : CacheIndex} {thread : ℕ} {pc : IndexPc} (h : CallsInv s)
    (hpc : t.pc = assign s.pc thread pc)
    (hmap : ∀ key, (s.mapIndex key).isSome → (t.mapIndex key).isSome)
    (htakes : ∀ fn key, pc = .findFree fn key ∨ pc = .takeFree fn key → fn ≠ .getIndex)
    (hreads : ∀ fn key, pc = .read fn key → (t.mapIndex key).isSome) : CallsInv t := by
  refine ⟨fun thread' fn key hat => ?_, fun thread' fn key hat => ?_⟩
  · by_cases heq : thread' = thread
    · subst heq
      rw [hpc, assign_self] at hat
      exact htakes fn key hat
    · rw [hpc, assign_of_ne heq] at hat
      exact h.takes thread' fn key hat
  · by_cases heq : thread' = thread
    · subst heq
      rw [hpc, assign_self] at hat
      exact hreads fn key hat
    · rw [hpc, assign_of_ne heq] at hat
      exact hmap key (h.reads thread' fn key hat)

/-- A step keeps where the calls can be. -/
theorem CallsInv.step {s t : CacheIndex} {e : IndexEvent} {thread : ℕ} (h : CallsInv s)
    (heffect : IndexEffect s e thread t) : CallsInv t := by
  have hidle : ∀ fn key, IndexPc.idle = .findFree fn key ∨ IndexPc.idle = .takeFree fn key →
      fn ≠ .getIndex := by
    rintro fn key (hne | hne) <;> cases hne
  cases heffect with
  | goes htakes hreads _ => exact h.move rfl (fun _ => id) htakes hreads
  | told | refused | unknown | unknownType => exact h.move rfl (fun _ => id) hidle nofun
  | @took fn key i =>
    refine h.move rfl (fun key' hsome => ?_) hidle nofun
    by_cases heq : key' = key
    · subst heq
      show (assign s.mapIndex key' (some i) key').isSome = true
      rw [assign_self]
      rfl
    · show (assign s.mapIndex key (some i) key').isSome = true
      rw [assign_of_ne heq]
      exact hsome

theorem knows_answer {s : CacheIndex} {thread : ℕ} {fn : IndexFn} {key : Option String}
    {key' : String} {index : Option ℕ} {i : ℕ} (h : (s.answer thread fn key index).Knows key' i) :
    s.Knows key' i ∨ key = some key' ∧ index = some i := by
  rcases h with hmap | ⟨fn', hmem⟩
  · exact .inl (.inl hmap)
  · rcases List.mem_append.mp hmem with hold | hnew
    · exact .inl (.inr ⟨fn', hold⟩)
    · cases List.mem_singleton.mp hnew
      exact .inr ⟨rfl, rfl⟩

theorem knows_answer_none {s : CacheIndex} {thread : ℕ} {fn : IndexFn} {key : Option String}
    {key' : String} {i : ℕ} (h : (s.answer thread fn key none).Knows key' i) : s.Knows key' i := by
  rcases knows_answer h with hold | ⟨-, hi⟩
  · exact hold
  · cases hi

/-- A call returns: what it is told keeps the invariant. -/
theorem IndexInv.answered {s t : CacheIndex} {b : IndexAnswer} (h : IndexInv s) (hcalls : CallsInv t)
    (hanswers : t.answers = s.answers ++ [b])
    (hmap : ∀ key, (s.mapIndex key).isSome → (t.mapIndex key).isSome)
    (hcache : ∀ i, s.indexCache i = true → t.indexCache i = true)
    (hknows : ∀ key i, t.Knows key i →
      s.Knows key i ∨ b.key = some key ∧ freeIndex s.indexCache = some i ∧ t.indexCache i = true)
    (hindex : b.index.isSome → ∃ key, b.key = some key ∧ (t.mapIndex key).isSome)
    (hserved : ∀ key, b.key = some key → b.fn = .getIndex → b.index = none → s.mapIndex key = none)
    (hfull : b.fn ≠ .getIndex → b.key.isSome → b.index = none → freeIndex s.indexCache = none) :
    IndexInv t := by
  -- An index that was free was nobody's.
  have hnew : ∀ key i, s.Knows key i → freeIndex s.indexCache ≠ some i := by
    intro key i hold hfree
    have htaken := (h.taken key i hold).2
    rw [(freeIndex_eq_some hfree).2] at htaken
    cases htaken
  refine { hcalls with taken := ?_, distinct := ?_, mapped := ?_, served := ?_, full := ?_ }
  · intro key i hk
    rcases hknows key i hk with hold | ⟨-, hfree, htaken⟩
    · exact ⟨(h.taken key i hold).1, hcache i (h.taken key i hold).2⟩
    · exact ⟨(freeIndex_eq_some hfree).1, htaken⟩
  · intro key key' i hk hk'
    rcases hknows key i hk with hold | ⟨hb, hfree, -⟩
    · rcases hknows key' i hk' with hold' | ⟨-, hfree, -⟩
      · exact h.distinct key key' i hold hold'
      · exact absurd hfree (hnew key i hold)
    · rcases hknows key' i hk' with hold' | ⟨hb', -, -⟩
      · exact absurd hfree (hnew key' i hold')
      · exact Option.some.inj (hb.symm.trans hb')
  · intro a ha hsome
    rw [hanswers] at ha
    rcases List.mem_append.mp ha with hold | hlast
    · obtain ⟨key, hkey, hmapped⟩ := h.mapped a hold hsome
      exact ⟨key, hkey, hmap key hmapped⟩
    · cases List.mem_singleton.mp hlast
      exact hindex hsome
  · rw [hanswers, List.pairwise_append]
    refine ⟨h.served, List.pairwise_singleton _ _, fun a ha b' hlast hkey hsome hfn => ?_⟩
    cases List.mem_singleton.mp hlast
    cases hnone : b.index with
    | some _ => rfl
    | none =>
      obtain ⟨key, hsame, hmapped⟩ := h.mapped a ha hsome
      rw [hserved key (hkey.symm.trans hsame) hfn hnone] at hmapped
      cases hmapped
  · intro a ha hfn hkey hnone i hi
    rw [hanswers] at ha
    rcases List.mem_append.mp ha with hold | hlast
    · exact hcache i (h.full a hold hfn hkey hnone i hi)
    · cases List.mem_singleton.mp hlast
      exact hcache i (freeIndex_eq_none (hfull hfn hkey hnone) hi)

/-- One step keeps the invariant, whichever thread takes it. -/
theorem IndexInv.step {s t : CacheIndex} {e : IndexEvent} {thread : ℕ} (h : IndexInv s)
    (heffect : IndexEffect s e thread t) : IndexInv t := by
  have hcalls := h.toCallsInv.step heffect
  cases heffect with
  | goes => exact { hcalls with
      taken := h.taken, distinct := h.distinct, mapped := h.mapped, served := h.served,
      full := h.full }
  | @told fn key i hmap =>
    refine h.answered hcalls rfl (fun _ => id) (fun _ => id) (fun key' i' hk => .inl ?_)
      (fun _ => ?_) nofun nofun
    · rcases knows_answer hk with hold | ⟨hkey, hi⟩
      · exact hold
      · cases hkey
        cases hi
        exact .inl hmap
    · refine ⟨key, rfl, ?_⟩
      show (s.mapIndex key).isSome = true
      rw [hmap]
      rfl
  | @took fn key i hpc hfree =>
    have hself : assign s.mapIndex key (some i) key = some i := assign_self
    refine h.answered hcalls rfl (fun key' hsome => ?_) (fun i' htaken => ?_) (fun key' i' hk => ?_)
      (fun _ => ?_) nofun nofun
    · show (assign s.mapIndex key (some i) key').isSome = true
      by_cases heq : key' = key
      · rw [heq, hself]
        rfl
      · rw [assign_of_ne heq]
        exact hsome
    · show assign s.indexCache i true i' = true
      by_cases heq : i' = i
      · rw [heq, assign_self]
      · rw [assign_of_ne heq]
        exact htaken
    · have hnew : some key = some key' ∧ some i = some i' ∨ s.Knows key' i' := by
        rcases hk with hmap | ⟨fn', hmem⟩
        · by_cases heq : key' = key
          · subst heq
            exact .inl ⟨rfl, hself.symm.trans hmap⟩
          · refine .inr (.inl ?_)
            exact (assign_of_ne heq).symm.trans hmap
        · have hans : (s.answer thread fn (some key) (some i)).Knows key' i' := .inr ⟨fn', hmem⟩
          exact (knows_answer hans).symm
      rcases hnew with ⟨hkey, hi⟩ | hold
      · cases hi
        exact .inr ⟨hkey, hfree, assign_self⟩
      · exact .inl hold
    · refine ⟨key, rfl, ?_⟩
      show (assign s.mapIndex key (some i) key).isSome = true
      rw [hself]
      rfl
  | @refused fn key hpc hfree =>
    exact h.answered hcalls rfl (fun _ => id) (fun _ => id)
      (fun key' i' hk => .inl (knows_answer_none hk)) nofun
      (fun _ _ hfn _ => absurd hfn (h.takes thread fn key (.inr hpc))) (fun _ _ _ => hfree)
  | @unknown key hmap =>
    exact h.answered hcalls rfl (fun _ => id) (fun _ => id)
      (fun key' i' hk => .inl (knows_answer_none hk)) nofun
      (fun key' hkey _ _ => Option.some.inj hkey ▸ hmap) (fun hfn _ => absurd rfl hfn)
  | unknownType =>
    exact h.answered hcalls rfl (fun _ => id) (fun _ => id)
      (fun key' i' hk => .inl (knows_answer_none hk)) nofun (fun _ hkey => by cases hkey)
      (fun _ hkey => by cases hkey)

theorem indexInv_of_reach {ok : CacheIndex → IndexEvent → Prop} {s : CacheIndex}
    (h : Reach indexStep ok .initial s) : IndexInv s := by
  refine h.invariant indexInv_initial fun e _ hinv _ hst => ?_
  obtain ⟨thread, heffect⟩ := indexStep_cases hinv.toCallsInv hst
  exact hinv.step heffect

/-- A call for the device was told the index. -/
def CacheIndex.Handed (s : CacheIndex) (handle : UInt32) (i : ℕ) : Prop :=
  ∃ livoxLidarType key fn, generateIndexKey livoxLidarType handle = some key ∧
    ⟨fn, some key, some i⟩ ∈ s.answers

/-- However the threads take turns, no two devices get one index, every index is one of
`lidars_`, `GetIndex` finds a device from the first time that a call was told its index, and a
device of the known type is refused only when all indices are taken; one of any other type is. -/
theorem indices_distinct {es : List IndexEvent} {s : CacheIndex}
    (h : exec indexStep .initial es = some s) :
    (∀ handle i, s.Handed handle i → i < kMaxSourceLidar) ∧
    (∀ handle handle' i, s.Handed handle i → s.Handed handle' i → handle = handle') ∧
    (s.answers.Pairwise fun a b =>
      a.key = b.key → a.index.isSome → b.fn = .getIndex → b.index.isSome) ∧
    (∀ a ∈ s.answers, a.fn ≠ .getIndex → a.key.isSome → a.index = none →
      ∀ i < kMaxSourceLidar, s.indexCache i = true) ∧
    (∀ a ∈ s.answers, a.key = none → a.index = none) := by
  have hinv := indexInv_of_reach (Reach.of_exec h)
  refine ⟨?_, ?_, hinv.served, hinv.full, fun a ha hkey => ?_⟩
  · rintro handle i ⟨livoxLidarType, key, fn, -, hmem⟩
    exact (hinv.taken key i (.inr ⟨fn, hmem⟩)).1
  · rintro handle handle' i ⟨type, key, fn, hkey, hmem⟩ ⟨type', key', fn', hkey', hmem'⟩
    have heq := hinv.distinct key key' i (.inr ⟨fn, hmem⟩) (.inr ⟨fn', hmem'⟩)
    rw [heq] at hkey
    exact generateIndexKey_injective hkey hkey'
  · cases hindex : a.index with
    | none => rfl
    | some i =>
      obtain ⟨key, hsome, -⟩ := hinv.mapped a ha (by rw [hindex]; rfl)
      rw [hkey] at hsome
      cases hsome

/-- Two devices whose registrations overlap, a packet of each, and a device of another type. -/
def twoDevices : List IndexEvent :=
  [.call 2 .getFreeIndex 0 7, .call 0 .getFreeIndex kLivoxLidarType 7, .call 1 .getFreeIndex kLivoxLidarType 8, .step 0,
    .step 1, .step 1, .step 0, .call 0 .getIndex kLivoxLidarType 7,
    .call 1 .getIndex kLivoxLidarType 8, .step 0, .step 1, .step 0, .step 1]

theorem indices_distinct_twoDevices : ∃ s, exec indexStep .initial twoDevices = some s ∧
    s.answers.length = 5 ∧ s.Handed 7 1 ∧ s.Handed 8 0 ∧
      ∀ handle, s.Handed handle 0 → handle = 8 := by
  have htest : (exec indexStep .initial twoDevices).any (fun s => decide (s.answers.length = 5 ∧
      ⟨.getIndex, some "livox_lidar_7", some 1⟩ ∈ s.answers ∧
      ⟨.getIndex, some "livox_lidar_8", some 0⟩ ∈ s.answers)) = true := by
    decide +kernel
  obtain ⟨s, hrun, hanswers⟩ := exists_exec_of_any _ htest
  obtain ⟨hlength, hseven, height⟩ := of_decide_eq_true hanswers
  have hfirst : s.Handed 8 0 :=
    ⟨kLivoxLidarType, "livox_lidar_8", .getIndex, by decide +kernel, height⟩
  have hsecond : s.Handed 7 1 :=
    ⟨kLivoxLidarType, "livox_lidar_7", .getIndex, by decide +kernel, hseven⟩
  exact ⟨s, hrun, hlength, hsecond, hfirst, fun handle hhanded =>
    (indices_distinct hrun).2.1 handle 8 0 hhanded hfirst⟩

/-! ## Calls that do not overlap -/

/-- No call goes on to take an index for a key for which another one is about to. -/
def NoOverlap (s : CacheIndex) (e : IndexEvent) : Prop :=
  ∀ thread fn key, e = .step thread → s.pc thread = .findFree fn key → s.mapIndex key = none →
    ∀ thread' fn', s.pc thread' ≠ .takeFree fn' key

/-- The map says what every call was told, and every index that is taken is in it. -/
structure StableInv (s : CacheIndex) : Prop where
  told : ∀ a ∈ s.answers, ∀ key i, a.key = some key → a.index = some i → s.mapIndex key = some i
  unmapped : ∀ thread fn key, s.pc thread = .takeFree fn key → s.mapIndex key = none
  alone : ∀ thread thread' fn fn' key, s.pc thread = .takeFree fn key →
    s.pc thread' = .takeFree fn' key → thread = thread'
  owned : ∀ i, s.indexCache i = true → ∃ key, s.mapIndex key = some i

theorem stableInv_initial : StableInv .initial := ⟨nofun, nofun, nofun, nofun⟩

theorem takeFree_answer {s : CacheIndex} {thread thread' : ℕ} (fn : IndexFn) (key : Option String)
    (index : Option ℕ) {fn' : IndexFn} {key' : String}
    (h : (s.answer thread fn key index).pc thread' = .takeFree fn' key') :
    thread' ≠ thread ∧ s.pc thread' = .takeFree fn' key' := by
  by_cases heq : thread' = thread
  · subst heq
    have hidle : (s.answer thread' fn key index).pc thread' = .idle := assign_self
    rw [hidle] at h
    cases h
  · exact ⟨heq, (assign_of_ne heq).symm.trans h⟩

/-- A call that returns without taking an index. -/
theorem StableInv.answered {s : CacheIndex} {thread : ℕ} {fn : IndexFn} {key : Option String}
    {index : Option ℕ} (h : StableInv s)
    (hindex : ∀ key' i, key = some key' → index = some i → s.mapIndex key' = some i) :
    StableInv (s.answer thread fn key index) where
  told a ha key' i hkey hi := by
    rcases List.mem_append.mp ha with hold | hlast
    · exact h.told a hold key' i hkey hi
    · cases List.mem_singleton.mp hlast
      exact hindex key' i hkey hi
  unmapped thread' fn' key' hpc := h.unmapped thread' fn' key' (takeFree_answer fn key index hpc).2
  alone thread' thread'' fn' fn'' key' hpc hpc' :=
    h.alone thread' thread'' fn' fn'' key' (takeFree_answer fn key index hpc).2
      (takeFree_answer fn key index hpc').2
  owned := h.owned

theorem StableInv.step {s t : CacheIndex} {e : IndexEvent} {thread : ℕ} (h : StableInv s)
    (hok : NoOverlap s e) (heffect : IndexEffect s e thread t) : StableInv t := by
  cases heffect with
  | @goes pc _ _ hlooked =>
    refine ⟨h.told, fun thread' fn key hpc => ?_, fun thread' thread'' fn fn' key hpc hpc' => ?_,
      h.owned⟩
    · by_cases heq : thread' = thread
      · subst heq
        exact (hlooked fn key (assign_self.symm.trans hpc)).2.2
      · exact h.unmapped thread' fn key ((assign_of_ne heq).symm.trans hpc)
    · by_cases heq : thread' = thread
      · by_cases heq' : thread'' = thread
        · exact heq.trans heq'.symm
        · subst heq
          obtain ⟨he, hfind, hnone⟩ := hlooked fn key (assign_self.symm.trans hpc)
          have hother := (assign_of_ne heq').symm.trans hpc'
          exact absurd hother (hok thread' fn key he hfind hnone thread'' fn')
      · have hother := (assign_of_ne heq).symm.trans hpc
        by_cases heq' : thread'' = thread
        · subst heq'
          obtain ⟨he, hfind, hnone⟩ := hlooked fn' key (assign_self.symm.trans hpc')
          exact absurd hother (hok thread'' fn' key he hfind hnone thread' fn)
        · exact h.alone thread' thread'' fn fn' key hother ((assign_of_ne heq').symm.trans hpc')
  | told hmap =>
    exact h.answered fun key' i' hkey hi => by
      rw [← Option.some.inj hkey, ← hi]
      exact hmap
  | refused | unknown | unknownType => exact h.answered fun _ _ _ hi => by cases hi
  | @took fn key i hpc hfree =>
    have hnone := h.unmapped thread fn key hpc
    have hkept : ∀ key' i', s.mapIndex key' = some i' →
        assign s.mapIndex key (some i) key' = some i' := by
      intro key' i' hsome
      have hne : key' ≠ key := by
        rintro rfl
        rw [hnone] at hsome
        cases hsome
      rw [assign_of_ne hne]
      exact hsome
    refine ⟨fun a ha key' i' hkey hi => ?_, fun thread' fn' key' hat => ?_,
      fun thread' thread'' fn' fn'' key' hat hat' => ?_, fun i' htaken => ?_⟩
    · rcases List.mem_append.mp ha with hold | hlast
      · exact hkept key' i' (h.told a hold key' i' hkey hi)
      · cases List.mem_singleton.mp hlast
        cases Option.some.inj hkey
        exact assign_self.trans hi
    · obtain ⟨hne, hold⟩ := takeFree_answer fn (some key) (some i) hat
      have hkey : key' ≠ key := by
        rintro rfl
        exact hne (h.alone thread' thread fn' fn key' hold hpc)
      exact (assign_of_ne hkey).trans (h.unmapped thread' fn' key' hold)
    · exact h.alone thread' thread'' fn' fn'' key' (takeFree_answer fn (some key) (some i) hat).2
        (takeFree_answer fn (some key) (some i) hat').2
    · by_cases heq : i' = i
      · subst heq
        exact ⟨key, assign_self⟩
      · obtain ⟨key', hsome⟩ := h.owned i' ((assign_of_ne heq).symm.trans htaken)
        exact ⟨key', hkept key' i' hsome⟩

/-- A call takes an index. -/
theorem indexStep_take {s : CacheIndex} {thread : ℕ} {fn : IndexFn} {key : String} {j : ℕ}
    (hpc : s.pc thread = .takeFree fn key) (hfree : freeIndex s.indexCache = some j) :
    ∃ t, indexStep s (.step thread) = some t ∧
      t.answers = s.answers ++ [⟨fn, some key, some j⟩] ∧
      t.indexCache = assign s.indexCache j true ∧ ∀ other ≠ thread, t.pc other = s.pc other := by
  refine ⟨{ s.answer thread fn (some key) (some j) with
      mapIndex := assign s.mapIndex key (some j), indexCache := assign s.indexCache j true },
    by simp only [indexStep, callStep, hpc, hfree], rfl, rfl, fun other hne => ?_⟩
  exact assign_of_ne hne

theorem exists_freeIndex {indexCache : ℕ → Bool} {i : ℕ} (hi : i < kMaxSourceLidar)
    (hfree : indexCache i = false) : ∃ j, freeIndex indexCache = some j := by
  cases h : freeIndex indexCache with
  | some j => exact ⟨j, rfl⟩
  | none =>
    have htaken := freeIndex_eq_none h hi
    rw [hfree] at htaken
    cases htaken

/-- Two calls for one key that are about to take an index are told two, if there are two. -/
theorem told_two_of_overlap {s : CacheIndex} {thread thread' : ℕ} {fn fn' : IndexFn} {key : String}
    (hfind : s.pc thread = .findFree fn key) (hnone : s.mapIndex key = none)
    (htake : s.pc thread' = .takeFree fn' key) {i i' : ℕ} (hne : i ≠ i')
    (hi : i < kMaxSourceLidar) (hi' : i' < kMaxSourceLidar) (hfree : s.indexCache i = false)
    (hfree' : s.indexCache i' = false) :
    ∃ t j j', exec indexStep s [.step thread, .step thread', .step thread] = some t ∧ j ≠ j' ∧
      ⟨fn', some key, some j⟩ ∈ t.answers ∧ ⟨fn, some key, some j'⟩ ∈ t.answers := by
  have hthread : thread' ≠ thread := by
    rintro rfl
    rw [hfind] at htake
    cases htake
  obtain ⟨j, hj⟩ := exists_freeIndex hi hfree
  obtain ⟨j', hj'⟩ : ∃ j', freeIndex (assign s.indexCache j true) = some j' := by
    by_cases heq : i = j
    · exact exists_freeIndex hi' ((assign_of_ne fun h => hne (heq.trans h.symm)).trans hfree')
    · exact exists_freeIndex hi ((assign_of_ne heq).trans hfree)
  have hfirst : indexStep s (.step thread) = some (s.goto thread (.takeFree fn key)) := by
    simp only [indexStep, callStep, hfind, hnone]
  obtain ⟨m, hm, hanswers, hcache, hpc⟩ := indexStep_take
    (s := s.goto thread (.takeFree fn key)) ((assign_of_ne hthread).trans htake) hj
  have hcache' : m.indexCache = assign s.indexCache j true := hcache
  rw [← hcache'] at hj'
  obtain ⟨t, ht, hanswers', -, -⟩ := indexStep_take ((hpc thread hthread.symm).trans assign_self) hj'
  refine ⟨t, j, j', ?_, fun heq => ?_, ?_, ?_⟩
  · rw [exec_cons, hfirst, Option.bind_some, exec_cons, hm, Option.bind_some, exec_cons, ht]
    rfl
  · have hfree_again := (freeIndex_eq_some hj').2
    rw [hcache', ← heq, assign_self] at hfree_again
    cases hfree_again
  · rw [hanswers', hanswers]
    simp
  · rw [hanswers']
    simp

/-- Without calls that overlap a device has one index, which the map holds, and a device of the
known type is refused only when every index is that of a device. Calls that overlap from here on
are told two indices of one device. -/
theorem one_index_per_device {s : CacheIndex} (h : Reach indexStep NoOverlap .initial s) :
    (∀ handle i i', s.Handed handle i → s.Handed handle i' → i = i') ∧
    (∀ a ∈ s.answers, a.fn ≠ .getIndex → a.key.isSome → a.index = none →
      ∀ i < kMaxSourceLidar, ∃ key, s.mapIndex key = some i) ∧
    (∀ e, ¬NoOverlap s e → (∃ i i', i ≠ i' ∧ i < kMaxSourceLidar ∧ i' < kMaxSourceLidar ∧
        s.indexCache i = false ∧ s.indexCache i' = false) →
      ∃ es t fn fn' key j j', exec indexStep s (e :: es) = some t ∧ j ≠ j' ∧
        ⟨fn, some key, some j⟩ ∈ t.answers ∧ ⟨fn', some key, some j'⟩ ∈ t.answers) := by
  have hstable : StableInv s := by
    refine h.invariant stableInv_initial fun e hreach hinv hok hst => ?_
    obtain ⟨thread, heffect⟩ := indexStep_cases (indexInv_of_reach hreach).toCallsInv hst
    exact hinv.step hok heffect
  refine ⟨?_, fun a ha hfn hkey hnone i hi => ?_, fun e hoverlap hfree => ?_⟩
  · rintro handle i i' ⟨type, key, fn, hkey, hmem⟩ ⟨type', key', fn', hkey', hmem'⟩
    obtain rfl := generateIndexKey_eq hkey hkey'
    have hi := hstable.told _ hmem key i rfl rfl
    have hi' := hstable.told _ hmem' key i' rfl rfl
    exact Option.some.inj (hi.symm.trans hi')
  · exact hstable.owned i ((indexInv_of_reach h).full a ha hfn hkey hnone i hi)
  · unfold NoOverlap at hoverlap
    push Not at hoverlap
    obtain ⟨thread, fn, key, rfl, hfind, hnone, thread', fn', htake⟩ := hoverlap
    obtain ⟨i, i', hne, hi, hi', hfree, hfree'⟩ := hfree
    obtain ⟨t, j, j', hexec, htwo, hj, hj'⟩ :=
      told_two_of_overlap hfind hnone htake hne hi hi' hfree hfree'
    exact ⟨_, t, fn', fn, key, j, j', hexec, htwo, hj, hj'⟩

/-- A thread overlaps with none while the others make no calls. -/
theorem noOverlap_of_idle {s : CacheIndex} {thread : ℕ}
    (h : ∀ thread', thread' ≠ thread → s.pc thread' = .idle) : NoOverlap s (.step thread) := by
  rintro _ fn key he hpc - thread' fn' htake
  cases he
  by_cases heq : thread' = thread
  · rw [heq, hpc] at htake
    cases htake
  · rw [h thread' heq] at htake
    cases htake

/-- One device is registered; then the registrations of another one overlap. -/
theorem one_index_per_device_overlap : ∃ s, Reach indexStep NoOverlap .initial s ∧
    s.Handed 8 0 ∧ (∀ i, s.Handed 8 i → i = 0) ∧
      ∃ es t fn fn' key j j', exec indexStep s (.step 1 :: es) = some t ∧ j ≠ j' ∧
        ⟨fn, some key, some j⟩ ∈ t.answers ∧ ⟨fn', some key, some j'⟩ ∈ t.answers := by
  obtain ⟨key, hkey⟩ : ∃ key, generateIndexKey kLivoxLidarType 8 = some key := ⟨_, rfl⟩
  obtain ⟨key', hkey'⟩ : ∃ key, generateIndexKey kLivoxLidarType 7 = some key := ⟨_, rfl⟩
  have hdiffer : key' ≠ key := by
    rintro rfl
    cases generateIndexKey_injective hkey hkey'
  have hcall : Reach indexStep NoOverlap .initial
      (CacheIndex.initial.goto 0 (.findFree .getFreeIndex key)) := by
    refine .next (.call 0 .getFreeIndex kLivoxLidarType 8) .start (fun _ _ _ he => by cases he) ?_
    simp only [indexStep, hkey]
    rfl
  have hfind := hcall.next (.step 0) (noOverlap_of_idle fun _ hne => assign_of_ne hne) rfl
  have htake := hfind.next (.step 0)
    (noOverlap_of_idle fun _ hne => (assign_of_ne hne).trans (assign_of_ne hne)) rfl
  obtain ⟨s, hreach, hanswers, hidle, hnone, hcache⟩ : ∃ s, Reach indexStep NoOverlap .initial s ∧
      s.answers = [⟨.getFreeIndex, some key, some 0⟩] ∧ (∀ thread, s.pc thread = .idle) ∧
        s.mapIndex key' = none ∧ s.indexCache = assign (fun _ => false) 0 true := by
    refine ⟨_, htake, rfl, fun thread => ?_, assign_of_ne hdiffer, rfl⟩
    by_cases heq : thread = 0
    · subst heq
      rfl
    · exact (assign_of_ne heq).trans ((assign_of_ne heq).trans (assign_of_ne heq))
  have hagain : Reach indexStep NoOverlap .initial (s.goto 0 (.findFree .getFreeIndex key')) := by
    refine hreach.next (.call 0 .getFreeIndex kLivoxLidarType 7) (fun _ _ _ he => by cases he) ?_
    simp only [indexStep, hkey', if_pos (hidle 0)]
    rfl
  have habout : Reach indexStep NoOverlap .initial
      ((s.goto 0 (.findFree .getFreeIndex key')).goto 0 (.takeFree .getFreeIndex key')) := by
    refine hagain.next (.step 0)
      (noOverlap_of_idle fun thread hne => (assign_of_ne hne).trans (hidle thread)) ?_
    have hpc : (s.goto 0 (.findFree .getFreeIndex key')).pc 0 = .findFree .getFreeIndex key' := rfl
    have hmap : (s.goto 0 (.findFree .getFreeIndex key')).mapIndex key' = none := hnone
    simp only [indexStep, callStep, hpc, hmap]
  have hboth := habout.next (.call 1 .getFreeIndex kLivoxLidarType 7) (fun _ _ _ he => by cases he)
    (t := ((s.goto 0 (.findFree .getFreeIndex key')).goto 0 (.takeFree .getFreeIndex key')).goto 1
      (.findFree .getFreeIndex key')) (by
    simp only [indexStep, hkey']
    exact if_pos (hidle 1))
  obtain ⟨hone, -, htwo⟩ := one_index_per_device hboth
  have hhanded : CacheIndex.Handed (((s.goto 0 (.findFree .getFreeIndex key')).goto 0
      (.takeFree .getFreeIndex key')).goto 1 (.findFree .getFreeIndex key')) 8 0 := by
    refine ⟨kLivoxLidarType, key, .getFreeIndex, hkey, ?_⟩
    show _ ∈ s.answers
    rw [hanswers]
    exact List.mem_singleton_self _
  refine ⟨_, hboth, hhanded, fun i hi => hone 8 i 0 hi hhanded, htwo (.step 1) ?_ ⟨1, 2, ?_⟩⟩
  · exact fun hno => hno 1 .getFreeIndex key' rfl rfl hnone 0 .getFreeIndex rfl
  · show 1 ≠ 2 ∧ _ ∧ _ ∧ s.indexCache 1 = false ∧ s.indexCache 2 = false
    rw [hcache]
    decide

end FastLivo.Livox
