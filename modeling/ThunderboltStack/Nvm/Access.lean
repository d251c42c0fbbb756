import Mathlib.Algebra.Order.Ring.Int
import Mathlib.Data.List.Basic
import Mathlib.Tactic.Common
import ThunderboltStack.Lib.Loop

/-!
# Chunked access to the NVM

`tb_nvm_read_data` and `tb_nvm_write_data` move a buffer in blocks of at most 16 dwords.  The
addresses are `unsigned int`s, so the flash is a map on 32 bit words.  Every access to a block
answers with an error code.  Sizes are those of objects in memory, which leave room for
`size + offset` in a `size_t`.
-/

namespace ThunderboltStack.Nvm

open ThunderboltStack.Lib

def enodev : ℤ := -19

def etimedout : ℤ := -110

def eio : ℤ := -5

/-- `NVM_DATA_DWORDS * 4`. -/
def blockBytes : ℕ := 16 * 4

def offset (address : UInt32) : ℕ :=
  (address &&& 3).toNat

theorem offset_eq (address : UInt32) : offset address = address.toNat % 4 := by
  rw [offset, UInt32.toNat_and]
  exact Nat.and_two_pow_sub_one_eq_mod address.toNat 2

theorem offset_lt (address : UInt32) : offset address < 4 := by
  rw [offset_eq]
  omega

/-- An address is that of its dword and the offset in it. -/
theorem dword_add_offset (a : UInt32) : 4 * (a / 4) + UInt32.ofNat (offset a) = a := by
  apply UInt32.toNat.inj
  have hlt := a.toNat_lt
  have hfour : (4 : UInt32).toNat = 4 := rfl
  rw [offset_eq, UInt32.toNat_add, UInt32.toNat_mul, UInt32.toNat_div, UInt32.toNat_ofNat', hfour]
  omega

/-- A failure uses up one of the failures that the answers have. -/
theorem failures_tail_lt {answers : List ℤ} {n : ℕ} (hret : answers.headD 0 ≠ 0)
    (hn : answers.countP (· ≠ 0) ≤ n) :
    answers.headD 0 ∈ answers ∧ answers.tail.countP (· ≠ 0) < n := by
  cases answers with
  | nil => exact absurd rfl hret
  | cons ret rest =>
    rw [List.headD_cons] at hret
    rw [List.countP_cons_of_pos (by simpa using hret)] at hn
    exact ⟨List.mem_cons_self, hn⟩

theorem failures_tail_le {answers : List ℤ} {n : ℕ} (hn : answers.countP (· ≠ 0) ≤ n) :
    answers.tail.countP (· ≠ 0) ≤ n :=
  Nat.le_trans (List.tail_sublist answers).countP_le hn

/-! ## Reading -/

/-- The variables of `tb_nvm_read_data`.  `buf` is what was copied so far, and `answers` are the
results of the block reads to come; those after the last succeed. -/
structure ReadState where
  address : UInt32
  buf : List UInt8
  size : ℕ
  retries : ℕ
  answers : List ℤ

/-- The condition of the loop of `tb_nvm_read_data`. -/
def ReadState.next (s : ReadState) : Pass ReadState (ℤ × List UInt8) :=
  if 0 < s.size then .again s else .done (0, s.buf)

/-- The `n` bytes of the flash from an address on. -/
def bytesAt (flash : UInt32 → UInt8) (address : UInt32) (n : ℕ) : List UInt8 :=
  (List.range n).map fun i ↦ flash (address + UInt32.ofNat i)

/-- A pass of the loop of `tb_nvm_read_data`. -/
def readPass (flash : UInt32 → UInt8) (s : ReadState) : Pass ReadState (ℤ × List UInt8) :=
  let nbytes := min (s.size + offset s.address) blockBytes
  let dwaddress := s.address / 4
  let dwords := (nbytes + 3) / 4
  let ret := s.answers.headD 0
  if ret ≠ 0 then
    if ret ≠ enodev ∧ s.retries ≠ 0 then
      { s with retries := s.retries - 1, answers := s.answers.tail }.next
    else .done (ret, s.buf)
  else
    let data := bytesAt flash (4 * dwaddress) (4 * dwords)
    let nbytes := nbytes - offset s.address
    { s with
      address := s.address + UInt32.ofNat nbytes
      buf := s.buf ++ (data.drop (offset s.address)).take nbytes
      size := s.size - nbytes
      answers := s.answers.tail }.next

/-- What `tb_nvm_read_data` returns within `n` passes, with the buffer. -/
def nvmReadData (flash : UInt32 → UInt8) (address : UInt32) (size retries : ℕ) (answers : List ℤ)
    (n : ℕ) : Option (ℤ × List UInt8) :=
  loop (readPass flash) n ⟨address, [], size, retries, answers⟩

section Read

variable {flash : UInt32 → UInt8} {address : UInt32} {size : ℕ} {s : ReadState}

@[simp]
theorem length_bytesAt (n : ℕ) : (bytesAt flash address n).length = n := by
  simp [bytesAt]

theorem bytesAt_add (m n : ℕ) : bytesAt flash address (m + n) =
    bytesAt flash address m ++ bytesAt flash (address + UInt32.ofNat m) n := by
  simp [bytesAt, List.range_add, Function.comp_def, UInt32.add_assoc]

theorem bytesAt_slice {k c n : ℕ} (h : k + c ≤ n) : ((bytesAt flash address n).drop k).take c =
    bytesAt flash (address + UInt32.ofNat k) c := by
  obtain ⟨r, rfl⟩ := Nat.exists_eq_add_of_le h
  rw [Nat.add_assoc, bytesAt_add, List.drop_left' (length_bytesAt k), bytesAt_add,
    List.take_left' (length_bytesAt c)]

/-- What holds before every pass: the first bytes are in the buffer, the rest is still to be read,
and the failures to come can be retried. -/
structure Reading (flash : UInt32 → UInt8) (address : UInt32) (size : ℕ) (s : ReadState) :
    Prop where
  left : 0 < s.size
  sum : s.buf.length + s.size = size
  buf : s.buf = bytesAt flash address s.buf.length
  position : s.address = address + UInt32.ofNat s.buf.length
  transient : ∀ ret ∈ s.answers, ret ≠ enodev
  budget : s.answers.countP (· ≠ 0) ≤ s.retries

/-- A pass of the read loop copies the next bytes or uses up a retry, and its end has copied all. -/
theorem reading_pass (h : Reading flash address size s) :
    (readPass flash s).Holds (fun s' ↦ Reading flash address size s' ∧
      s'.size + s'.retries < s.size + s.retries) fun r ↦ r = (0, bytesAt flash address size) := by
  have hleft := h.left
  have hsum := h.sum
  have htail : ∀ ret ∈ s.answers.tail, ret ≠ enodev :=
    fun ret hret ↦ h.transient ret (List.mem_of_mem_tail hret)
  simp only [readPass]
  split
  · next hret =>
    obtain ⟨hmem, hbudget⟩ := failures_tail_lt hret h.budget
    rw [if_pos ⟨h.transient _ hmem, by omega⟩, ReadState.next, if_pos hleft]
    refine ⟨{ h with transient := htail, budget := ?_ }, ?_⟩ <;> dsimp only <;> omega
  · have hoffset := offset_lt s.address
    rw [bytesAt_slice (by unfold blockBytes; omega), dword_add_offset]
    generalize hc : min (s.size + offset s.address) blockBytes - offset s.address = c
    have hc : 0 < c ∧ c ≤ s.size := by
      unfold blockBytes at hc
      omega
    have hbuf : s.buf ++ bytesAt flash s.address c = bytesAt flash address (s.buf.length + c) := by
      rw [bytesAt_add, ← h.buf, ← h.position]
    have hlength : (s.buf ++ bytesAt flash s.address c).length = s.buf.length + c := by simp
    unfold ReadState.next
    split
    · next hleft' =>
      dsimp only at hleft'
      refine ⟨⟨hleft', ?_, ?_, ?_, htail, failures_tail_le h.budget⟩, ?_⟩
      · dsimp only
        omega
      · rw [hlength, hbuf]
      · rw [hlength, h.position, UInt32.add_assoc, UInt32.ofNat_add]
      · dsimp only
        omega
    · next hdone =>
      dsimp only at hdone
      rw [hbuf, show s.buf.length + c = size by omega]
      rfl

end Read

/-! ## Writing -/

structure BlockWrite where
  address : UInt32
  block : List UInt8
  ret : ℤ

/-- The variables of `tb_nvm_write_data` with the block writes so far, the latest first.  `buf` is
what is left of the buffer, whose length is `size`; `answers` are the results to come. -/
structure WriteState where
  address : UInt32
  buf : List UInt8
  retries : ℕ
  writes : List BlockWrite
  answers : List ℤ

/-- The condition of the loop of `tb_nvm_write_data`. -/
def WriteState.next (s : WriteState) : Pass WriteState (Option ℤ × List BlockWrite) :=
  if s.buf ≠ [] then .again s else .done (some 0, s.writes)

/-- A pass of the loop of `tb_nvm_write_data`.  `min_t(u32, …)` cuts the sum down to 32 bits.  The
copy to `data` must stay inside both arrays: it returns `none` otherwise.  The bytes of `data`
before the offset are not set by the source; they are zero here. -/
def writePass (s : WriteState) : Pass WriteState (Option ℤ × List BlockWrite) :=
  let nbytes := min ((s.buf.length + offset s.address) % 2 ^ 32) blockBytes
  if blockBytes < offset s.address + nbytes ∨ s.buf.length < nbytes then .done (none, s.writes)
  else
    let data := List.replicate (offset s.address) 0 ++ s.buf.take nbytes
    let ret := s.answers.headD 0
    let dwaddress := s.address / 4
    let writes := ⟨4 * dwaddress, data.take (4 * (nbytes / 4)), ret⟩ :: s.writes
    if ret ≠ 0 then
      if ret = etimedout then
        if s.retries ≠ 0 then
          { s with retries := s.retries - 1, writes, answers := s.answers.tail }.next
        else .done (some eio, writes)
      else .done (some ret, writes)
    else
      { s with
        address := s.address + UInt32.ofNat nbytes
        buf := s.buf.drop nbytes
        writes
        answers := s.answers.tail }.next

/-- What `tb_nvm_write_data` returns within `n` passes, with the block writes. -/
def nvmWriteData (address : UInt32) (buf : List UInt8) (retries : ℕ) (answers : List ℤ) (n : ℕ) :
    Option (Option ℤ × List BlockWrite) :=
  loop writePass n ⟨address, buf, retries, [], answers⟩

/-- The writes store the first `n` bytes of the buffer one after the other from the address on; one
that fails is of bytes that come next. -/
def Stores (address : UInt32) (buf : List UInt8) : List BlockWrite → ℕ → Prop
  | [], n => n = 0
  | w :: ws, n => ∃ m, Stores address buf ws m ∧ w.address = address + UInt32.ofNat m ∧
      w.block = (buf.drop m).take w.block.length ∧ m + w.block.length ≤ buf.length ∧
      n = if w.ret = 0 then m + w.block.length else m

structure Writing (address : UInt32) (buf : List UInt8) (n : ℕ) (s : WriteState) : Prop where
  le : n ≤ buf.length
  aligned : n % 4 = 0
  rest : s.buf = buf.drop n
  position : s.address = address + UInt32.ofNat n
  stores : Stores address buf s.writes n
  timeout : ∀ ret ∈ s.answers, ret = 0 ∨ ret = etimedout
  budget : s.answers.countP (· ≠ 0) ≤ s.retries

section Write

variable {address : UInt32} {buf : List UInt8} {n : ℕ} {s : WriteState}

/-- A dword aligned pass writes the next bytes, and is repeated after a timeout.  It writes none if
the low 32 bits of the length are zero. -/
theorem writing_pass (haddress : address.toNat % 4 = 0) (hbuf : buf.length % 4 = 0)
    (h : Writing address buf n s) :
    ∃ s' n', writePass s = s'.next ∧ Writing address buf n' s' ∧
      (n' = n ∧ s'.retries < s.retries ∨
        n' = n + min ((buf.length - n) % 2 ^ 32) blockBytes ∧ s'.retries = s.retries) := by
  have hle := h.le
  have haligned := h.aligned
  have hlength : s.buf.length = buf.length - n := by rw [h.rest, List.length_drop]
  have hoffset : offset s.address = 0 := by
    rw [offset_eq, h.position, UInt32.toNat_add, UInt32.toNat_ofNat']
    omega
  have hdword : 4 * (s.address / 4) = s.address := by
    simpa [hoffset] using dword_add_offset s.address
  obtain ⟨c, hc⟩ : ∃ c, c = min ((buf.length - n) % 2 ^ 32) blockBytes := ⟨_, rfl⟩
  have hsmall : c ≤ blockBytes ∧ c ≤ buf.length - n ∧ 4 * (c / 4) = c := by
    unfold blockBytes at hc ⊢
    omega
  have htail : ∀ ret ∈ s.answers.tail, ret = 0 ∨ ret = etimedout :=
    fun ret hret ↦ h.timeout ret (List.mem_of_mem_tail hret)
  have hblock : (s.buf.take c).length = c := by
    rw [List.length_take]
    omega
  simp only [writePass, hoffset, hdword, hlength, Nat.add_zero, ← hc, if_neg (by omega :
    ¬ (blockBytes < 0 + c ∨ buf.length - n < c)), hsmall.2.2, List.replicate_zero, List.nil_append,
    List.take_take, Nat.min_self]
  split
  · next hret =>
    obtain ⟨hmem, hbudget⟩ := failures_tail_lt hret h.budget
    rw [if_pos ((h.timeout _ hmem).resolve_left hret), if_pos (by omega)]
    refine ⟨_, n, rfl, { h with stores := ?_, timeout := htail, budget := ?_ }, .inl ⟨rfl, ?_⟩⟩
    · exact ⟨n, h.stores, h.position, by rw [hblock, h.rest], by rw [hblock]; omega,
        (if_neg hret).symm⟩
    all_goals dsimp only; omega
  · next hret =>
    refine ⟨_, n + c, rfl, ⟨by omega, by omega, ?_, ?_, ?_, htail, ?_⟩, .inr ⟨rfl, rfl⟩⟩
    · rw [h.rest, List.drop_drop]
    · rw [h.position, UInt32.add_assoc, UInt32.ofNat_add]
    · refine ⟨n, h.stores, h.position, by rw [hblock, h.rest], by rw [hblock]; omega, ?_⟩
      rw [if_pos (not_not.mp hret), hblock]
    · exact failures_tail_le h.budget

/-- A pass of the write loop stores the next bytes or uses up a retry, and its end has stored all.
-/
theorem writing_holds (haddress : address.toNat % 4 = 0) (hbuf : buf.length % 4 = 0)
    (hsize : buf.length < 2 ^ 32) (h : Writing address buf n s) :
    (writePass s).Holds (fun s' ↦ (∃ n', Writing address buf n' s') ∧
      s'.buf.length + s'.retries < s.buf.length + s.retries) fun r ↦
        r = (some 0, r.2) ∧ Stores address buf r.2 buf.length := by
  obtain ⟨s', n', hpass, h', hnext⟩ := writing_pass haddress hbuf h
  have hlength : s.buf.length = buf.length - n := by rw [h.rest, List.length_drop]
  have hlength' : s'.buf.length = buf.length - n' := by rw [h'.rest, List.length_drop]
  have hle := h'.le
  rw [hpass]
  unfold WriteState.next
  split
  · next hleft =>
    have hpos := List.length_pos_iff.mpr hleft
    refine ⟨⟨n', h'⟩, ?_⟩
    unfold blockBytes at hnext
    omega
  · next hleft =>
    have hend : n' = buf.length := by
      rw [not_not.mp hleft, List.length_nil] at hlength'
      omega
    exact ⟨rfl, hend ▸ h'.stores⟩

/-- A buffer of 4 GiB or more is never written to its end. -/
theorem nvmWriteData_eq_none {retries : ℕ} {answers : List ℤ} (haddress : address.toNat % 4 = 0)
    (hsize : 2 ^ 32 ≤ buf.length) (hbuf : buf.length % 4 = 0)
    (htimeout : ∀ ret ∈ answers, ret = 0 ∨ ret = etimedout)
    (hbudget : answers.countP (· ≠ 0) ≤ retries) (k : ℕ) :
    nvmWriteData address buf retries answers k = none := by
  refine loop_eq_none (I := fun s ↦ ∃ n, Writing address buf n s ∧ 2 ^ 32 ≤ buf.length - n)
    (fun s ⟨n, hs, hleft⟩ ↦ ?_) k ⟨0, ⟨Nat.zero_le _, rfl, rfl, (UInt32.add_zero address).symm, rfl,
      htimeout, hbudget⟩, hsize⟩
  obtain ⟨s', n', hpass, hs', hnext⟩ := writing_pass haddress hbuf hs
  have hleft' : 2 ^ 32 ≤ buf.length - n' := by
    unfold blockBytes at hnext
    omega
  refine ⟨s', ?_, n', hs', hleft'⟩
  rw [hpass, WriteState.next, if_pos]
  rw [hs'.rest]
  exact List.ne_nil_of_length_pos (by rw [List.length_drop]; omega)

end Write

/-- Reading returns the bytes at the address despite transient errors.  So does writing store the
buffer there, and nothing elsewhere, exactly if the buffer's length fits in 32 bits. -/
theorem nvmData_iff (flash : UInt32 → UInt8) (address : UInt32) (retries : ℕ) :
    (∀ (size : ℕ) (answers : List ℤ), 0 < size → (∀ ret ∈ answers, ret ≠ enodev) →
      answers.countP (· ≠ 0) ≤ retries →
      ∃ k, nvmReadData flash address size retries answers k =
        some (0, bytesAt flash address size)) ∧
    ∀ (buf : List UInt8) (answers : List ℤ), address.toNat % 4 = 0 → buf.length % 4 = 0 →
      (∀ ret ∈ answers, ret = 0 ∨ ret = etimedout) → answers.countP (· ≠ 0) ≤ retries →
      ((∃ k writes, nvmWriteData address buf retries answers k = some (some 0, writes) ∧
        Stores address buf writes buf.length) ↔ buf.length < 2 ^ 32) := by
  refine ⟨fun size answers hsize htransient hbudget ↦ ?_,
    fun buf answers haddress hbuf htimeout hbudget ↦ ⟨fun h ↦ ?_, fun hsize ↦ ?_⟩⟩
  · obtain ⟨k, r, hk, rfl⟩ := loop_returns (I := Reading flash address size)
      (fun s ↦ s.size + s.retries) (fun s hs ↦ reading_pass hs)
      (s := ⟨address, [], size, retries, answers⟩)
      ⟨hsize, Nat.zero_add size, rfl, (UInt32.add_zero address).symm, htransient, hbudget⟩
    exact ⟨k, hk⟩
  · by_contra hsize
    obtain ⟨k, writes, hk, -⟩ := h
    have hnone := nvmWriteData_eq_none haddress (Nat.le_of_not_lt hsize) hbuf htimeout hbudget k
    exact absurd (hk.symm.trans hnone) (Option.some_ne_none _)
  · obtain ⟨k, r, hk, hr, hstores⟩ := loop_returns (I := fun s ↦ ∃ n, Writing address buf n s)
      (fun s ↦ s.buf.length + s.retries)
      (fun s hs ↦ writing_holds haddress hbuf hsize hs.choose_spec)
      (s := ⟨address, buf, retries, [], answers⟩)
      ⟨0, Nat.zero_le _, rfl, rfl, (UInt32.add_zero address).symm, rfl, htimeout, hbudget⟩
    exact ⟨k, r.2, hr ▸ hk, hstores⟩

theorem nvmData_iff_retried : ∃ k writes,
    nvmWriteData 8 [1, 2, 3, 4] 1 [etimedout] k = some (some 0, writes) ∧
      Stores 8 [1, 2, 3, 4] writes 4 :=
  ((nvmData_iff (fun _ ↦ 0) 8 1).2 [1, 2, 3, 4] [etimedout] (by decide) (by decide) (by simp)
    (by decide)).mpr (by decide)

end ThunderboltStack.Nvm
