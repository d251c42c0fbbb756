import ThunderboltStack.PropertyBlock.RoundTrip

/-!
# Copies of property directories

`tb_property_copy_dir` copies a tree.  Data is copied by its length, but a text by `strcpy` into
zeroed memory of the same length, so what a peer put behind the end of a text is lost.
-/

namespace ThunderboltStack.PropertyBlock

/-- `strcpy` of a buffer into zeroed memory of its length. -/
def strcpy : List UInt8 → List UInt8
  | [] => []
  | c :: rest => if c = 0 then List.replicate (rest.length + 1) 0 else c :: strcpy rest

def Padded (buf : List UInt8) : Prop :=
  buf.Pairwise fun c c' ↦ c = 0 → c' = 0

@[simp]
theorem length_strcpy (buf : List UInt8) : (strcpy buf).length = buf.length := by
  induction buf with
  | nil => rfl
  | cons c rest ih =>
    rw [strcpy]
    split <;> simp [ih]

theorem strcpy_eq_iff (buf : List UInt8) : strcpy buf = buf ↔ Padded buf := by
  induction buf with
  | nil => simp [strcpy, Padded]
  | cons c rest ih =>
    rw [strcpy, Padded, List.pairwise_cons, ← Padded]
    split
    · next hc =>
      subst hc
      rw [List.replicate_succ, List.cons_inj_right]
      refine ⟨fun h ↦ ?_, fun h ↦ (List.eq_replicate_of_mem fun c hc ↦ h.1 c hc rfl).symm⟩
      rw [← h, Padded, List.pairwise_replicate]
      exact ⟨fun c hc _ ↦ List.eq_of_mem_replicate hc, .inr id⟩
    · next hc => simp [hc, ih]

theorem strcpy_append_zero (buf : List UInt8) : strcpy (buf ++ [0]) = strcpy buf ++ [0] := by
  induction buf with
  | nil => rfl
  | cons c rest ih =>
    rw [List.cons_append, strcpy, strcpy, ih]
    split
    · simp [List.replicate_succ']
    · rfl

theorem length_flatMap_bytes (dwords : List UInt32) :
    (dwords.flatMap bytes).length = 4 * dwords.length := by
  induction dwords with
  | nil => rfl
  | cons d rest ih =>
    simp only [List.flatMap_cons, List.length_append, ih, bytes, List.length_cons, List.length_nil]
    omega

theorem toDwords_flatMap_bytes (dwords : List UInt32) :
    toDwords (dwords.flatMap bytes) = dwords := by
  induction dwords with
  | nil => rfl
  | cons d rest ih =>
    rw [List.flatMap_cons, bytes]
    simp only [List.cons_append, List.nil_append, toDwords, dword_byte, ih]

theorem flatMap_bytes_toDwords (buf : List UInt8) (h : buf.length % 4 = 0) :
    (toDwords buf).flatMap bytes = buf := by
  fun_induction toDwords buf with
  | case1 b₀ b₁ b₂ b₃ rest ih =>
    have hrest := ih (by simp only [List.length_cons] at h; omega)
    simp [bytes, hrest]
  | _ => simp_all

/-- The bytes of a text end with a zero byte. -/
theorem Text.bytes_eq (t : Text) :
    t.dwords = [] ∨ ∃ chars, t.dwords.flatMap bytes = chars ++ [0] := by
  obtain ⟨dwords, hterminated⟩ := t
  rcases List.eq_nil_or_concat dwords with rfl | ⟨init, last, rfl⟩
  · exact .inl rfl
  · have hlast : dword (byte last 0) (byte last 1) (byte last 2) 0 = last := by
      simpa [forceNul] using hterminated
    refine .inr ⟨init.flatMap bytes ++ [byte last 0, byte last 1, byte last 2], ?_⟩
    have hzero : byte last 3 = 0 := by
      rw [← hlast, byte_dword_three]
    simp [bytes, hzero]

def Text.copy (t : Text) : Text where
  dwords := toDwords (strcpy (t.dwords.flatMap bytes))
  terminated := by
    obtain hnil | ⟨chars, hchars⟩ := t.bytes_eq
    · rw [hnil]
      rfl
    · rw [hchars, strcpy_append_zero]
      exact (forceNul_toDwords (strcpy chars)).1

def Leaf.copy : Leaf → Leaf
  | .text t => .text t.copy
  | value => value

def Props.copy : Props → Props
  | .nil => .nil
  | .leaf key value rest => .leaf key value.copy rest.copy
  | .dir key uuid properties rest => .dir key uuid properties.copy rest.copy

/-- `tb_property_copy_dir` with memory for the copy. -/
def Dir.copyDir (d : Dir) : Dir :=
  ⟨d.uuid, d.properties.copy⟩

/-- Every text has only zeros behind its end. -/
def Props.Padded : Props → Prop
  | .nil => True
  | .leaf _ (.text t) rest => PropertyBlock.Padded (t.dwords.flatMap bytes) ∧ rest.Padded
  | .leaf _ _ rest => rest.Padded
  | .dir _ _ properties rest => properties.Padded ∧ rest.Padded

theorem Text.copy_eq_iff (t : Text) : t.copy = t ↔ Padded (t.dwords.flatMap bytes) := by
  have hlength : (strcpy (t.dwords.flatMap bytes)).length % 4 = 0 := by
    rw [length_strcpy, length_flatMap_bytes]
    omega
  rw [← strcpy_eq_iff]
  constructor
  · intro h
    conv_rhs => rw [← h]
    exact (flatMap_bytes_toDwords _ hlength).symm
  · intro h
    have hdwords : t.copy.dwords = t.dwords :=
      (congrArg toDwords h).trans (toDwords_flatMap_bytes t.dwords)
    cases t
    simpa [Text.copy] using hdwords

theorem Text.length_copy (t : Text) : t.copy.dwords.length = t.dwords.length := by
  have hbytes := length_flatMap_bytes t.copy.dwords
  rw [Text.copy, flatMap_bytes_toDwords, length_strcpy, length_flatMap_bytes] at hbytes
  · exact (Nat.eq_of_mul_eq_mul_left (by decide) hbytes).symm
  · rw [length_strcpy, length_flatMap_bytes]
    omega

theorem Leaf.length_payload_copy (value : Leaf) :
    value.copy.payload.length = value.payload.length := by
  cases value with
  | text t => exact t.length_copy
  | _ => rfl

theorem Props.copy_eq_iff (ps : Props) : ps.copy = ps ↔ ps.Padded := by
  induction ps with
  | nil => simp [Props.copy, Props.Padded]
  | leaf key value rest ih =>
    cases value <;> simp [Props.copy, Leaf.copy, Props.Padded, ih, Text.copy_eq_iff]
  | dir key uuid properties rest ihp ih => simp [Props.copy, Props.Padded, ihp, ih]

theorem Props.copy_lengths (ps : Props) (recurse : Bool) :
    ps.copy.len recurse = ps.len recurse ∧ ps.copy.dataLen recurse = ps.dataLen recurse := by
  induction ps with
  | nil => exact ⟨rfl, rfl⟩
  | leaf key value rest ih =>
    simp only [Props.copy, Props.len, Props.dataLen, Leaf.length_payload_copy, ih, and_self]
  | dir key uuid properties rest ihp ih =>
    simp only [Props.copy, Props.len, Props.dataLen, ihp, ih, and_self]

theorem Props.InRange.copy {ps : Props} (h : ps.InRange) : ps.copy.InRange := by
  induction ps with
  | nil => trivial
  | leaf key value rest ih => exact ⟨value.length_payload_copy ▸ h.1, ih h.2⟩
  | dir key uuid properties rest ihp ih =>
    refine ⟨h.1, ?_, ihp h.2.2.1, ih h.2.2.2⟩
    rw [dirLength, (properties.copy_lengths false).1]
    exact h.2.1

theorem Dir.InRange.copy {d : Dir} (h : d.InRange) : d.copyDir.InRange := by
  refine ⟨h.root, ?_, h.properties.copy⟩
  rw [dirLength, Dir.copyDir, (d.properties.copy_lengths false).1]
  exact h.short

theorem Dir.formatSize_copyDir (d : Dir) : d.copyDir.formatSize = d.formatSize := by
  obtain ⟨hlen, hdata⟩ := d.properties.copy_lengths true
  rw [Dir.formatSize, dirLength, Dir.copyDir, hlen, hdata]
  rfl

/-- A copy is formatted to the same block if every text has only zeros behind its end.  For a tree
that can be formatted this is needed. -/
theorem copyDir_format_iff (d : Dir) :
    (d.properties.Padded → ∀ len mem, d.copyDir.format len mem = d.format len mem) ∧
    (d.InRange → d.formatSize < 2 ^ 31 →
      ((∀ len mem, d.copyDir.format len mem = d.format len mem) ↔ d.properties.Padded)) := by
  have hcopy : d.properties.Padded → ∀ len mem, d.copyDir.format len mem = d.format len mem := by
    intro h len mem
    rw [Dir.copyDir, (Props.copy_eq_iff _).mpr h]
  refine ⟨hcopy, fun hrange hsize ↦ ⟨fun h ↦ ?_, hcopy⟩⟩
  -- the parser gets the tree and its copy back from the same block
  have hback : Outcome.ok d.copyDir = .ok d := by
    rw [← hrange.copy.parse_format (d.formatSize_copyDir ▸ hsize)
      (Nat.lt_succ_of_le (Nat.le_max_right d.properties.height d.properties.copy.height)),
      d.formatSize_copyDir, h d.formatSize ⟨fun _ ↦ 0, 0⟩]
    exact hrange.parse_format hsize (Nat.lt_succ_of_le (Nat.le_max_left _ _))
  exact (Props.copy_eq_iff _).mp (congrArg (·.properties) (Outcome.ok.inj hback))

/-- A root directory with one text, the bytes `61 00 62 00`. -/
def hiddenBlock : Block where
  dwords i := [0x55584401, 4, 0x78000000, 0, 0x74000001, 6, 0x61006200].getD i 0
  len := 7

/-- The parser accepts the block, and the copy of what it returns is formatted without the `62`. -/
theorem copyDir_hidden : ∃ d, (hiddenBlock.parseDir 1).outcome = .ok d ∧
    (d.format 7 ⟨fun _ ↦ 0, 0⟩).mem.dwords 6 = 0x61006200 ∧
    (d.copyDir.format 7 ⟨fun _ ↦ 0, 0⟩).mem.dwords 6 = 0x61000000 :=
  ⟨_, rfl, by decide +kernel, by decide +kernel⟩

end ThunderboltStack.PropertyBlock
