import Mathlib.Algebra.Order.Ring.Nat
import Mathlib.Data.List.GetD

/-!
# Byte buffers and little-endian numbers

A buffer is a function from offsets to bytes.  `copyTo` writes a byte string at an offset and
`copyFrom` reads one; reads and writes at disjoint places do not see each other.  `leBytes n` writes
a number in `n` bytes, the least significant one first, and `ofLeBytes` reads it back; the two are
inverse to each other on numbers that fit and on strings of the right length.
-/

namespace ThunderboltStack.Lib

abbrev Buffer : Type := ℕ → UInt8

def copyTo (p : ℕ) (bytes : List UInt8) (buf : Buffer) : Buffer :=
  fun i ↦ if p ≤ i ∧ i < p + bytes.length then bytes.getD (i - p) 0 else buf i

/-- Read `n` bytes at an offset. -/
def copyFrom (p n : ℕ) (buf : Buffer) : List UInt8 :=
  (List.range n).map fun i ↦ buf (p + i)

section Copies

variable {p q n i : ℕ} {bytes : List UInt8} {buf buf' : Buffer}

@[simp]
theorem length_copyFrom (p n : ℕ) (buf : Buffer) : (copyFrom p n buf).length = n := by
  simp [copyFrom]

theorem copyTo_of_mem (hlo : p ≤ i) (hhi : i < p + bytes.length) :
    copyTo p bytes buf i = bytes.getD (i - p) 0 :=
  if_pos ⟨hlo, hhi⟩

theorem copyTo_of_notMem (h : i < p ∨ p + bytes.length ≤ i) : copyTo p bytes buf i = buf i := by
  apply if_neg
  omega

theorem copyFrom_congr (h : ∀ i < n, buf (p + i) = buf' (p + i)) :
    copyFrom p n buf = copyFrom p n buf' := by
  apply List.map_congr_left
  intro i hi
  exact h i (List.mem_range.1 hi)

theorem copyFrom_copyTo (h : n = bytes.length) : copyFrom p n (copyTo p bytes buf) = bytes := by
  subst h
  apply List.ext_getElem
  · simp
  · intro i hi hi'
    have hmem : copyTo p bytes buf (p + i) = bytes.getD (p + i - p) 0 :=
      copyTo_of_mem (by omega) (by omega)
    simp only [copyFrom, List.getElem_map, List.getElem_range, hmem, Nat.add_sub_cancel_left]
    exact List.getD_eq_getElem _ _ hi'

theorem copyFrom_copyTo_of_disjoint (h : p + n ≤ q ∨ q + bytes.length ≤ p) :
    copyFrom p n (copyTo q bytes buf) = copyFrom p n buf := by
  apply copyFrom_congr
  intro i hi
  apply copyTo_of_notMem
  omega

/-- Writing what was read gives the bytes that were read. -/
theorem copyTo_copyFrom (hlo : p ≤ i) (hhi : i < p + n) :
    copyTo p (copyFrom p n buf) buf' i = buf i := by
  have hlt : i - p < (copyFrom p n buf).length := by
    rw [length_copyFrom]
    omega
  rw [copyTo_of_mem hlo (by rw [length_copyFrom]; exact hhi), List.getD_eq_getElem _ _ hlt]
  simp only [copyFrom, List.getElem_map, List.getElem_range]
  congr 1
  omega

theorem copyFrom_add (p m n : ℕ) (buf : Buffer) :
    copyFrom p (m + n) buf = copyFrom p m buf ++ copyFrom (p + m) n buf := by
  simp only [copyFrom, List.range_add, List.map_append, List.map_map]
  congr 2
  funext i
  exact congrArg buf (Nat.add_assoc p m i).symm

theorem copyTo_append (p : ℕ) (bytes bytes' : List UInt8) (buf : Buffer) :
    copyTo p (bytes ++ bytes') buf = copyTo (p + bytes.length) bytes' (copyTo p bytes buf) := by
  funext i
  simp only [copyTo, List.length_append]
  split
  · next h =>
    split
    · next h' =>
      rw [List.getD_append_right _ _ _ _ (by omega)]
      congr 1
      omega
    · next h' =>
      rw [if_pos (by omega), List.getD_append _ _ _ _ (by omega)]
  · next h => rw [if_neg (by omega), if_neg (by omega)]

theorem eq_of_copyFrom_eq (h : copyFrom p n buf = copyFrom p n buf') (hlo : p ≤ i)
    (hhi : i < p + n) : buf i = buf' i := by
  calc buf i = copyTo p (copyFrom p n buf) buf i := (copyTo_copyFrom hlo hhi).symm
    _ = copyTo p (copyFrom p n buf') buf i := by rw [h]
    _ = buf' i := copyTo_copyFrom hlo hhi

end Copies

/-! ## Messages -/

structure Field where
  offset : ℕ
  bytes : List UInt8

def Field.Apart (f g : Field) : Prop :=
  f.offset + f.bytes.length ≤ g.offset ∨ g.offset + g.bytes.length ≤ f.offset

def Laid : ℕ → List Field → Prop
  | _, [] => True
  | p, f :: fields => p ≤ f.offset ∧ Laid (f.offset + f.bytes.length) fields

def writeFields (fields : List Field) (buf : Buffer) : Buffer :=
  fields.foldl (fun buf f ↦ copyTo f.offset f.bytes buf) buf

section Messages

variable {f : Field} {fields : List Field} {buf : Buffer}

theorem Laid.offset_le {p : ℕ} (h : Laid p fields) (hf : f ∈ fields) : p ≤ f.offset := by
  induction fields generalizing p with
  | nil => cases hf
  | cons g fields ih =>
    obtain rfl | hf := List.mem_cons.1 hf
    · exact h.1
    · calc p ≤ g.offset := h.1
        _ ≤ g.offset + g.bytes.length := Nat.le_add_right _ _
        _ ≤ f.offset := ih h.2 hf

theorem Laid.apart {p : ℕ} (h : Laid p fields) : fields.Pairwise Field.Apart := by
  induction fields generalizing p with
  | nil => exact .nil
  | cons g fields ih =>
    apply List.Pairwise.cons
    · exact fun f hf ↦ .inl (h.2.offset_le hf)
    · exact ih h.2

theorem copyFrom_writeFields_of_apart (h : ∀ g ∈ fields, f.Apart g) :
    copyFrom f.offset f.bytes.length (writeFields fields buf) =
      copyFrom f.offset f.bytes.length buf := by
  induction fields generalizing buf with
  | nil => rfl
  | cons g fields ih =>
    calc copyFrom f.offset f.bytes.length (writeFields (g :: fields) buf)
        = copyFrom f.offset f.bytes.length (copyTo g.offset g.bytes buf) :=
          ih fun g' hg' ↦ h g' (List.mem_cons_of_mem g hg')
      _ = copyFrom f.offset f.bytes.length buf :=
          copyFrom_copyTo_of_disjoint (h g List.mem_cons_self)

theorem copyFrom_writeFields (h : fields.Pairwise Field.Apart) (hf : f ∈ fields) :
    copyFrom f.offset f.bytes.length (writeFields fields buf) = f.bytes := by
  induction fields generalizing buf with
  | nil => cases hf
  | cons g fields ih =>
    obtain ⟨hg, hrest⟩ := List.pairwise_cons.1 h
    obtain rfl | hf := List.mem_cons.1 hf
    · exact (copyFrom_writeFields_of_apart hg).trans (copyFrom_copyTo rfl)
    · exact ih hrest hf

end Messages

/-- The low `n` bytes of a number, the least significant one first. -/
def leBytes : ℕ → ℕ → List UInt8
  | 0, _ => []
  | n + 1, v => UInt8.ofNat v :: leBytes n (v / 256)

def ofLeBytes : List UInt8 → ℕ
  | [] => 0
  | b :: bytes => b.toNat + 256 * ofLeBytes bytes

section Numbers

variable {n v : ℕ} {bytes : List UInt8}

@[simp]
theorem length_leBytes (n v : ℕ) : (leBytes n v).length = n := by
  induction n generalizing v with
  | zero => rfl
  | succ n ih => simp [leBytes, ih]

theorem ofLeBytes_leBytes (n v : ℕ) : ofLeBytes (leBytes n v) = v % 256 ^ n := by
  induction n generalizing v with
  | zero => simp [leBytes, ofLeBytes, Nat.mod_one]
  | succ n ih =>
    have hbyte : (UInt8.ofNat v).toNat = v % 256 := UInt8.toNat_ofNat'
    have hpow : 256 ^ (n + 1) = 256 * 256 ^ n := pow_succ' 256 n
    rw [leBytes, ofLeBytes, ih, hbyte, hpow, Nat.mod_mul]

theorem leBytes_ofLeBytes (h : bytes.length = n) : leBytes n (ofLeBytes bytes) = bytes := by
  induction bytes generalizing n with
  | nil =>
    subst h
    rfl
  | cons b bytes ih =>
    subst h
    have hb := b.toNat_lt
    have hhead : UInt8.ofNat (b.toNat + 256 * ofLeBytes bytes) = b := by
      apply UInt8.toNat_inj.1
      rw [UInt8.toNat_ofNat']
      omega
    have htail : (b.toNat + 256 * ofLeBytes bytes) / 256 = ofLeBytes bytes := by omega
    rw [List.length_cons, ofLeBytes, leBytes, hhead, htail, ih rfl]

theorem leBytes_mod (n v : ℕ) : leBytes n (v % 256 ^ n) = leBytes n v := by
  calc leBytes n (v % 256 ^ n) = leBytes n (ofLeBytes (leBytes n v)) := by rw [ofLeBytes_leBytes]
    _ = leBytes n v := leBytes_ofLeBytes (length_leBytes n v)

theorem leBytes_add (m n v : ℕ) : leBytes (m + n) v = leBytes m v ++ leBytes n (v / 256 ^ m) := by
  induction m generalizing v with
  | zero => simp [leBytes]
  | succ m ih =>
    rw [Nat.succ_add, leBytes, leBytes, ih, Nat.div_div_eq_div_mul, pow_succ, mul_comm]
    rfl

theorem ofLeBytes_append (bytes bytes' : List UInt8) :
    ofLeBytes (bytes ++ bytes') = ofLeBytes bytes + 256 ^ bytes.length * ofLeBytes bytes' := by
  induction bytes with
  | nil => simp [ofLeBytes]
  | cons b bytes ih =>
    rw [List.cons_append, ofLeBytes, ofLeBytes, ih, List.length_cons, pow_succ', Nat.mul_add,
      Nat.mul_assoc, Nat.add_assoc]

/-- Numbers put side by side with `|` are added. -/
theorem or_mul_two_pow {a k : ℕ} (h : a < 2 ^ k) (b : ℕ) : a ||| b * 2 ^ k = a + b * 2 ^ k := by
  rw [Nat.or_comm, Nat.mul_comm, ← Nat.two_pow_add_eq_or_of_lt h, Nat.add_comm]

end Numbers

end ThunderboltStack.Lib
