-- SUMMARY: Byte memory with bounds-checked little-endian words, and what a write changes.
import SegregatedFit.Error
import SegregatedFit.Word

/-!
# Memory

A memory is a row of bytes. A word is stored in eight of them, least
significant byte first. `load` and `store` are total (past the end a load sees
zeros and a store does nothing); `readWord` and `writeWord` refuse a word that
is not wholly inside. Main statements: a store changes no other bytes than its
own (`byteAt_store_of_outside`), and a load sees no others (`load_congr`).
-/
namespace SegregatedFit

/-- A row of bytes. -/
structure Memory where
  bytes : ByteArray
  deriving Inhabited

namespace Memory

/-- No bytes. -/
def empty : Memory := ⟨ByteArray.empty⟩

/-- The number of bytes. -/
def size (m : Memory) : Nat := m.bytes.size

/-- The byte at `i`; zero past the end. -/
def byteAt (m : Memory) (i : Nat) : UInt8 :=
  if h : i < m.bytes.size then m.bytes[i] else 0

/-- Stores `b` at `i`; nothing happens past the end. -/
def setByte (m : Memory) (i : Nat) (b : UInt8) : Memory :=
  if h : i < m.bytes.size then ⟨m.bytes.set i b⟩ else m

/-- Adds `n` zero bytes at the end. -/
def extend (m : Memory) : Nat → Memory
  | 0 => m
  | n + 1 => extend ⟨m.bytes.push 0⟩ n

/-- `n` zero bytes. -/
def zeros (n : Nat) : Memory := empty.extend n

/-- The `n` bytes from `off` on, in order. -/
def slice (m : Memory) (off n : Nat) : List UInt8 := (List.range' off n).map m.byteAt

/-- Stores the bytes from `off` on, in order. -/
def setSlice (m : Memory) (off : Nat) : List UInt8 → Memory
  | [] => m
  | b :: bs => (m.setByte off b).setSlice (off + 1) bs

/-- The number in the `n` bytes from `off` on, least significant first. -/
def load (m : Memory) (off : Nat) : Nat → Nat
  | 0 => 0
  | n + 1 => (m.byteAt off).toNat + 256 * m.load (off + 1) n

/-- Stores the number into the `n` bytes from `off` on, least significant first. -/
def store (m : Memory) (off value : Nat) : Nat → Memory
  | 0 => m
  | n + 1 => (m.setByte off (UInt8.ofNat value)).store (off + 1) (value / 256) n

/-- The word at `off`. -/
def readWord (m : Memory) (off : Nat) : Except HeapError Nat :=
  if off + wordSize ≤ m.size then .ok (m.load off wordSize) else .error (.outOfBounds off m.size)

/-- Stores a word at `off`. -/
def writeWord (off value : Nat) : Action HeapError Memory Unit := fun m =>
  if off + wordSize ≤ m.size then .ok () (m.store off value wordSize)
  else .error (.refused (.outOfBounds off m.size)) m

/-- Copies the `n` bytes from `src` on to `dst`. The two ranges may overlap. -/
def copy (src n dst : Nat) : Action HeapError Memory Unit := fun m =>
  if src + n ≤ m.size ∧ dst + n ≤ m.size then .ok () (m.setSlice dst (m.slice src n))
  else .error (.trapped .outOfRange) m

/-! ## Sizes -/

@[simp] theorem size_setByte (m : Memory) (i : Nat) (b : UInt8) :
    (m.setByte i b).size = m.size := by
  simp only [setByte]
  split
  · simp [size, ← ByteArray.size_data, ByteArray.data_set]
  · rfl

@[simp] theorem size_extend (m : Memory) (n : Nat) : (m.extend n).size = m.size + n := by
  induction n generalizing m with
  | zero => rfl
  | succ n ih =>
    have hpush : size ⟨m.bytes.push 0⟩ = m.size + 1 := ByteArray.size_push
    rw [extend, ih, hpush]
    omega

@[simp] theorem size_zeros (n : Nat) : (zeros n).size = n := by
  simp [zeros, show empty.size = 0 from rfl]

@[simp] theorem size_store (m : Memory) (off value n : Nat) :
    (m.store off value n).size = m.size := by
  induction n generalizing m off value with
  | zero => rfl
  | succ n ih => simp [store, ih]

@[simp] theorem size_setSlice (m : Memory) (off : Nat) (bs : List UInt8) :
    (m.setSlice off bs).size = m.size := by
  induction bs generalizing m off with
  | nil => rfl
  | cons b bs ih => simp [setSlice, ih]

@[simp] theorem length_slice (m : Memory) (off n : Nat) : (m.slice off n).length = n := by
  simp [slice]

/-! ## Bytes after a write -/

theorem byteAt_of_size_le {m : Memory} {i : Nat} (h : m.size ≤ i) : m.byteAt i = 0 :=
  dif_neg (Nat.not_lt.2 h)

theorem byteAt_setByte_self {m : Memory} {i : Nat} (b : UInt8) (h : i < m.size) :
    (m.setByte i b).byteAt i = b := by
  have h' : i < m.bytes.size := h
  have hset : i < (m.bytes.set i b h').size := by
    simpa [← ByteArray.size_data, ByteArray.data_set] using h'
  simp [byteAt, hset, setByte, h', ByteArray.getElem_eq_getElem_data, ByteArray.data_set]

theorem byteAt_setByte_of_ne {m : Memory} {i j : Nat} (b : UInt8) (h : i ≠ j) :
    (m.setByte i b).byteAt j = m.byteAt j := by
  have hsize : (m.setByte i b).bytes.size = m.bytes.size := size_setByte m i b
  simp only [byteAt, hsize]
  split
  · simp only [setByte]
    split
    · simp [ByteArray.getElem_eq_getElem_data, ByteArray.data_set, Array.getElem_set, h]
    · rfl
  · rfl

theorem byteAt_extend (m : Memory) (n i : Nat) : (m.extend n).byteAt i = m.byteAt i := by
  induction n generalizing m with
  | zero => rfl
  | succ n ih =>
    rw [extend, ih]
    simp only [byteAt, ByteArray.size_push]
    by_cases h : i < m.bytes.size
    · simp only [h, Nat.lt_succ_of_lt h, dite_true, ByteArray.getElem_eq_getElem_data,
        ByteArray.data_push]
      exact Array.getElem_push_lt h
    · by_cases h' : i < m.bytes.size + 1
      · obtain rfl : i = m.bytes.size := by omega
        simp [ByteArray.getElem_eq_getElem_data, ← ByteArray.size_data]
      · simp [h, h']

/-- A store changes the bytes in its range and no others. -/
theorem byteAt_store_of_outside {m : Memory} {off value n i : Nat} (h : i < off ∨ off + n ≤ i) :
    (m.store off value n).byteAt i = m.byteAt i := by
  induction n generalizing m off value with
  | zero => rfl
  | succ n ih => rw [store, ih (by omega), byteAt_setByte_of_ne _ (by omega)]

theorem byteAt_setSlice_of_outside {m : Memory} {off i : Nat} {bs : List UInt8}
    (h : i < off ∨ off + bs.length ≤ i) : (m.setSlice off bs).byteAt i = m.byteAt i := by
  induction bs generalizing m off with
  | nil => rfl
  | cons b bs ih =>
    rw [List.length_cons] at h
    rw [setSlice, ih (by omega), byteAt_setByte_of_ne _ (by omega)]

/-- What was stored is what is there. -/
theorem slice_setSlice {m : Memory} {off : Nat} {bs : List UInt8}
    (h : off + bs.length ≤ m.size) : (m.setSlice off bs).slice off bs.length = bs := by
  induction bs generalizing m off with
  | nil => rfl
  | cons b bs ih =>
    rw [List.length_cons] at h
    have hrest := @ih (m.setByte off b) (off + 1) (by rw [size_setByte]; omega)
    simp only [slice, List.length_cons, List.range'_succ, List.map_cons, setSlice] at hrest ⊢
    rw [hrest, byteAt_setSlice_of_outside (by omega), byteAt_setByte_self b (by omega)]

theorem take_slice {m : Memory} {off k n : Nat} (h : k ≤ n) :
    (m.slice off n).take k = m.slice off k := by
  obtain ⟨rest, rfl⟩ := Nat.exists_eq_add_of_le h
  rw [slice, slice, ← List.range'_append_1, List.map_append, List.take_left' (by simp)]

/-! ## Words after a write -/

/-- A load depends on the bytes in its range alone. -/
theorem load_congr {m m' : Memory} {off n : Nat}
    (h : ∀ i, off ≤ i → i < off + n → m.byteAt i = m'.byteAt i) : m.load off n = m'.load off n := by
  induction n generalizing off with
  | zero => rfl
  | succ n ih =>
    rw [load, load, h off (Nat.le_refl _) (by omega),
      ih fun i hi hlt => h i (by omega) (by omega)]

theorem load_store_of_disjoint {m : Memory} {off off' value n k : Nat}
    (h : off' + k ≤ off ∨ off + n ≤ off') : (m.store off value n).load off' k = m.load off' k :=
  load_congr fun i hi hlt => byteAt_store_of_outside (by omega)

end Memory
end SegregatedFit
