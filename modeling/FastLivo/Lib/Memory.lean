import Mathlib.Algebra.GroupWithZero.Nat
import Mathlib.Data.List.Basic

/-!
# Memory of typed values

A byte of memory is a place in the representation of a value. A value is read back from an
address where its bytes stand in order, and nothing is read from other bytes.
-/

namespace FastLivo.Lib.Memory

variable {V : Type*}

/-- The byte at this index of a value. -/
structure Fragment (V : Type*) where
  value : V
  index : ℕ
  deriving DecidableEq, Repr

/-- The bytes of a value. -/
def bytesOf (size : V → ℕ) (v : V) : List (Fragment V) := (List.range (size v)).map (Fragment.mk v)

/-- The bytes of a packed structure. -/
def packed (size : V → ℕ) (vs : List V) : List (Fragment V) := vs.flatMap (bytesOf size)

/-- The value of so many bytes at this address. -/
def read [DecidableEq V] (size : V → ℕ) (memory : List (Fragment V)) (address width : ℕ) :
    Option V :=
  let bytes := (memory.drop address).take width
  bytes.head?.bind fun f => if bytes = bytesOf size f.value then some f.value else none

@[simp] theorem length_bytesOf (size : V → ℕ) (v : V) : (bytesOf size v).length = size v := by
  simp [bytesOf]

@[simp] theorem packed_nil (size : V → ℕ) : packed size [] = [] := rfl

@[simp] theorem packed_cons (size : V → ℕ) (v : V) (vs : List V) :
    packed size (v :: vs) = bytesOf size v ++ packed size vs := rfl

@[simp] theorem packed_append (size : V → ℕ) (vs ws : List V) :
    packed size (vs ++ ws) = packed size vs ++ packed size ws := by
  simp [packed]

@[simp] theorem length_packed (size : V → ℕ) (vs : List V) :
    (packed size vs).length = (vs.map size).sum := by
  induction vs with
  | nil => rfl
  | cons v vs ih => simp [ih]

theorem head?_bytesOf (size : V → ℕ) {v : V} (h : 0 < size v) :
    (bytesOf size v).head? = some ⟨v, 0⟩ := by
  unfold bytesOf
  rw [List.head?_map, List.head?_range, if_neg (by omega)]
  rfl

/-- A value is read from where it was written. -/
theorem read_of_bytes [DecidableEq V] (size : V → ℕ) {memory before after : List (Fragment V)}
    {v : V} {address width : ℕ} (hmemory : memory = before ++ (bytesOf size v ++ after))
    (haddress : before.length = address) (hwidth : size v = width) (hpos : 0 < width) :
    read size memory address width = some v := by
  have hbytes : (memory.drop address).take width = bytesOf size v := by
    rw [hmemory, ← haddress, List.drop_left]
    apply List.take_left'
    rw [length_bytesOf, hwidth]
  unfold read
  dsimp only
  rw [hbytes, head?_bytesOf size (by omega)]
  simp

/-- The member of a packed structure at its offset. -/
theorem read_packed [DecidableEq V] (size : V → ℕ) (members : List V) (i : ℕ)
    (hi : i < members.length) (hpos : 0 < size members[i]) (after : List (Fragment V)) :
    read size (packed size members ++ after) ((members.take i).map size).sum (size members[i]) =
      some members[i] := by
  have hsplit : packed size members = packed size (members.take i) ++
      (bytesOf size members[i] ++ packed size (members.drop (i + 1))) := by
    rw [← packed_cons, ← List.drop_eq_getElem_cons hi, ← packed_append, List.take_append_drop]
  have hmemory : packed size members ++ after = packed size (members.take i) ++
      (bytesOf size members[i] ++ (packed size (members.drop (i + 1)) ++ after)) := by
    rw [hsplit, List.append_assoc, List.append_assoc]
  exact read_of_bytes size hmemory (length_packed size _) rfl hpos

/-- An address past the first block is an address in the rest. -/
theorem read_append_right [DecidableEq V] (size : V → ℕ) (before memory : List (Fragment V))
    (address width : ℕ) :
    read size (before ++ memory) (before.length + address) width =
      read size memory address width := by
  have hdrop : (before ++ memory).drop (before.length + address) = memory.drop address := by
    rw [← List.drop_drop, List.drop_left]
  unfold read
  rw [hdrop]

/-- So many blocks of one length. -/
theorem length_blocks {step : ℕ} {blocks : List (List (Fragment V))}
    (hstep : ∀ b ∈ blocks, b.length = step) : blocks.flatten.length = blocks.length * step := by
  induction blocks with
  | nil => simp
  | cons b blocks ih =>
    have htail := ih fun c hc => hstep c (List.mem_cons_of_mem _ hc)
    rw [List.flatten_cons, List.length_append, hstep b List.mem_cons_self, htail,
      List.length_cons, Nat.succ_mul, Nat.add_comm]

/-- Blocks of one length lie at the multiples of it. -/
theorem read_block [DecidableEq V] (size : V → ℕ) {blocks : List (List (Fragment V))} {step : ℕ}
    (hstep : ∀ b ∈ blocks, b.length = step) {i : ℕ} (hi : i < blocks.length)
    (address width : ℕ) :
    read size blocks.flatten (i * step + address) width =
      read size (blocks[i] ++ (blocks.drop (i + 1)).flatten) address width := by
  have hsplit : blocks.flatten =
      (blocks.take i).flatten ++ (blocks[i] ++ (blocks.drop (i + 1)).flatten) := by
    rw [← List.flatten_cons, ← List.drop_eq_getElem_cons hi, ← List.flatten_append,
      List.take_append_drop]
  have hlength : (blocks.take i).flatten.length = i * step := by
    rw [length_blocks fun b hb => hstep b (List.mem_of_mem_take hb), List.length_take,
      Nat.min_eq_left (Nat.le_of_lt hi)]
  rw [hsplit, ← hlength, read_append_right]

end FastLivo.Lib.Memory
