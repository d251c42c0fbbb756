import ThunderboltStack.Xdomain.Responder
import Mathlib.Data.Fin.VecNotation

/-!
# The block that is advertised

Every change of the local properties comes with the next generation, and `update_property_block`
builds a new block if the generation of the one it has is smaller.  The generation starts at a
random number and wraps, and then the generation of the old block is the larger one.
-/

namespace ThunderboltStack.Xdomain

open PropertyBlock (CString Dir)

def ResponderOp.advances (dir : Dir) : ResponderOp → Bool
  | .register key sub mem =>
    !findDir key.chars dir.properties && mem && (dir.addDir key sub).isSome
  | .unregister key same => findDir key.chars dir.properties && same
  | .reannounce => true
  | .update _ _ => false

/-- An update of the block succeeds, and the name of the host is the same for all of them. -/
def ResponderOp.Succeeds (nodename : CString) : ResponderOp → Prop
  | .update name mem => name = nodename ∧ mem = {}
  | _ => True

/-- The operation is one on the properties, not an update of the block. -/
def ResponderOp.isAnnounce : ResponderOp → Bool
  | .update _ _ => false
  | _ => true

namespace Responder

variable (maxHopId : UInt32) (nodename : CString)

def Current (r : Responder) : Prop :=
  r.block = buildBlock r.dir nodename maxHopId {}

def Wraps (r : Responder) (op : ResponderOp) : Prop :=
  op.advances r.dir = true ∧ r.gen = 0xffffffff

/-- None of the operations makes the generation wrap. -/
def NoWrap (r : Responder) : List ResponderOp → Prop
  | [] => True
  | op :: ops => ¬ r.Wraps op ∧ NoWrap (r.step maxHopId op) ops

/-- The block is not newer than the properties, and current if it is of their generation. -/
def Fresh (r : Responder) : Prop :=
  r.block.isSome = true →
    r.blockGen ≤ r.gen ∧ (r.blockGen = r.gen → r.Current maxHopId nodename)

variable {maxHopId nodename} {r : Responder} {op : ResponderOp}

/-- An operation on the properties leaves the block and takes the next generation, or does
nothing. -/
theorem step_announce (hop : op.isAnnounce = true) :
    (op.advances r.dir = true ∧ (r.step maxHopId op).gen = r.gen + 1 ∧
      (r.step maxHopId op).block = r.block ∧ (r.step maxHopId op).blockGen = r.blockGen) ∨
    op.advances r.dir = false ∧ r.step maxHopId op = r := by
  cases op with
  | register key sub mem =>
    simp only [ResponderOp.advances, step]
    cases hfound : findDir key.chars r.dir.properties with
    | true => simp
    | false =>
      cases mem with
      | false => simp
      | true => cases hadd : r.dir.addDir key sub <;> simp
  | unregister key same =>
    simp only [ResponderOp.advances, step]
    cases findDir key.chars r.dir.properties <;> cases same <;> simp
  | reannounce => exact .inl ⟨rfl, rfl, rfl, rfl⟩
  | update name mem => cases hop

theorem update_dir (name : CString) (mem : UpdateMem) :
    (r.update maxHopId name mem).dir = r.dir ∧ (r.update maxHopId name mem).gen = r.gen := by
  unfold update
  split
  · split <;> exact ⟨rfl, rfl⟩
  · exact ⟨rfl, rfl⟩

/-- An update that can format the properties makes the block current. -/
theorem update_current (hfresh : r.Fresh maxHopId nodename)
    (hformat : (buildBlock r.dir nodename maxHopId {}).isSome = true) :
    (r.update maxHopId nodename {}).Current maxHopId nodename ∧
      (r.update maxHopId nodename {}).blockGen = r.gen := by
  obtain ⟨block, hblock⟩ := Option.isSome_iff_exists.1 hformat
  unfold update
  split
  · rw [hblock]
    exact ⟨hblock.symm, rfl⟩
  · next hkept =>
    have hsome : r.block.isSome = true := by
      rw [Option.isSome_iff_ne_none]
      exact fun hnone ↦ hkept (.inl (by simp [hnone]))
    obtain ⟨hle, hcurrent⟩ := hfresh hsome
    have heq : r.blockGen = r.gen :=
      UInt32.le_antisymm hle (UInt32.not_lt.1 fun hlt ↦ hkept (.inr hlt))
    exact ⟨hcurrent heq, heq⟩

/-- An operation that does not make the generation wrap keeps the block fresh. -/
theorem fresh_step (hop : op.Succeeds nodename) (hwrap : ¬ r.Wraps op)
    (hfresh : r.Fresh maxHopId nodename) : (r.step maxHopId op).Fresh maxHopId nodename := by
  cases hannounce : op.isAnnounce with
  | true =>
    rcases step_announce hannounce with ⟨hadvances, hgen, hblock, hblockGen⟩ | ⟨-, hsame⟩
    · intro hsome
      rw [hblock] at hsome
      have hle := UInt32.le_iff_toNat_le.1 (hfresh hsome).1
      have hmax : r.gen.toNat ≠ 0xffffffff :=
        fun heq ↦ hwrap ⟨hadvances, UInt32.toNat_inj.1 heq⟩
      have hlt := r.gen.toNat_lt
      have hnext : (r.gen + 1).toNat = r.gen.toNat + 1 := by
        rw [UInt32.toNat_add, UInt32.toNat_one]
        omega
      rw [hgen, hblockGen]
      refine ⟨UInt32.le_iff_toNat_le.2 (by omega), fun heq ↦ ?_⟩
      rw [heq, hnext] at hle
      omega
    · rw [hsame]
      exact hfresh
  | false =>
    cases op with
    | update name mem =>
      obtain ⟨rfl, rfl⟩ := hop
      simp only [step, update]
      split
      · cases hbuild : buildBlock r.dir name maxHopId {} with
        | none => exact hfresh
        | some block => exact fun _ ↦ ⟨UInt32.le_refl _, fun _ ↦ hbuild.symm⟩
      · exact hfresh
    | _ => cases hannounce

theorem fresh_run {ops : List ResponderOp} (hops : ∀ op ∈ ops, op.Succeeds nodename)
    (hwrap : r.NoWrap maxHopId ops) (hfresh : r.Fresh maxHopId nodename) :
    (r.run maxHopId ops).Fresh maxHopId nodename := by
  induction ops generalizing r with
  | nil => exact hfresh
  | cons op ops ih =>
    apply ih (fun o ho ↦ hops o (List.mem_cons_of_mem _ ho)) hwrap.2
    exact fresh_step (hops op List.mem_cons_self) hwrap.1 hfresh

/-- After the update that follows an operation on current properties, the block is current unless
the generation wrapped and the block is now another one. -/
theorem update_step_current_iff (hop : op.isAnnounce = true) (hgen : r.blockGen = r.gen)
    (hcurrent : r.Current maxHopId nodename) (hsome : r.block.isSome = true)
    (hformat : (buildBlock (r.step maxHopId op).dir nodename maxHopId {}).isSome = true) :
    ((r.step maxHopId op).update maxHopId nodename {}).Current maxHopId nodename ↔
      (r.Wraps op → buildBlock (r.step maxHopId op).dir nodename maxHopId {} =
        buildBlock r.dir nodename maxHopId {}) := by
  have hfresh : r.Fresh maxHopId nodename := fun _ ↦ ⟨hgen ▸ UInt32.le_refl _, fun _ ↦ hcurrent⟩
  have hsucceeds : op.Succeeds nodename := by
    cases op with
    | update name mem => cases hop
    | _ => trivial
  by_cases hwrap : r.Wraps op
  · rcases step_announce hop with ⟨-, hnext, hblock, hblockGen⟩ | ⟨hadvances, -⟩
    · -- the old block is kept, since the generation has become zero
      have hkept : (r.step maxHopId op).update maxHopId nodename {} = r.step maxHopId op := by
        unfold update
        apply if_neg
        rw [hblock, hblockGen, hnext, hgen, hwrap.2, Option.isNone_iff_eq_none]
        rintro (hnone | hlt)
        · simp [hnone] at hsome
        · exact absurd hlt (by decide)
      rw [hkept, Current, hblock, hcurrent]
      simp only [hwrap, true_imp_iff, eq_comm]
    · rw [hwrap.1] at hadvances
      cases hadvances
  · simp only [hwrap, false_imp_iff, iff_true]
    exact (update_current (fresh_step hsucceeds hwrap hfresh) hformat).1

end Responder

/-- After operations and updates that do not make the generation wrap, an update makes the block
current.  After one more operation it does so exactly if the generation does not wrap, or the block
stays the same.  A block that was served before with other contents had another generation. -/
theorem advertised_block_current_iff (maxHopId : UInt32) (nodename : CString) (r₀ r : Responder)
    (ops : List ResponderOp) (op : ResponderOp) (hnew : r₀.block = none)
    (hops : ∀ o ∈ ops, o.Succeeds nodename) (hop : op.isAnnounce = true)
    (hwrap : r₀.NoWrap maxHopId ops)
    (hr : r = r₀.run maxHopId (ops ++ [.update nodename {}]))
    (hformat : (buildBlock r.dir nodename maxHopId {}).isSome = true)
    (hformat' : (buildBlock (r.step maxHopId op).dir nodename maxHopId {}).isSome = true) :
    r.Current maxHopId nodename ∧
    (((r.step maxHopId op).update maxHopId nodename {}).Current maxHopId nodename ↔
      (r.Wraps op → buildBlock (r.step maxHopId op).dir nodename maxHopId {} =
        buildBlock r.dir nodename maxHopId {})) ∧
    ∀ before all, before <+: all → (r₀.run maxHopId before).block.isSome = true →
      (r₀.run maxHopId before).block ≠ (r₀.run maxHopId all).block →
      (r₀.run maxHopId before).blockGen ≠ (r₀.run maxHopId all).blockGen := by
  have hrun : r = (r₀.run maxHopId ops).update maxHopId nodename {} := by
    rw [hr, Responder.run, List.foldl_append, List.foldl_cons, List.foldl_nil, Responder.step,
      Responder.run]
  have hfresh : (r₀.run maxHopId ops).Fresh maxHopId nodename :=
    Responder.fresh_run hops hwrap fun hsome ↦ by simp [hnew] at hsome
  have hdir : r.dir = (r₀.run maxHopId ops).dir ∧ r.gen = (r₀.run maxHopId ops).gen := by
    rw [hrun]
    exact Responder.update_dir _ _
  obtain ⟨hcurrent, hgen⟩ := Responder.update_current hfresh (hdir.1 ▸ hformat)
  rw [← hrun] at hcurrent hgen
  refine ⟨hcurrent, ?_, ?_⟩
  · apply Responder.update_step_current_iff hop (hgen.trans hdir.2.symm) hcurrent _ hformat'
    rw [hcurrent]
    exact hformat
  · intro before all hstart hsome hne hsame
    exact hne (Responder.block_of_blockGen maxHopId hstart hsome hsame.symm).symm

def quietHost (gen : UInt32) : Responder where
  dir := ⟨none, .nil⟩
  gen := gen
  block := none
  blockGen := 0

def hostName : CString := ⟨[0x77], by decide⟩

def registerService : ResponderOp :=
  .register ⟨[0x79], by decide⟩ ⟨some ![1, 2, 3, 4], .nil⟩ true

theorem advertised_block_current_registered :
    (((quietHost 7).run 11 ([] ++ [.update hostName {}])).step 11 registerService |>.update 11
      hostName {}).Current 11 hostName := by
  have h := advertised_block_current_iff 11 hostName (quietHost 7) _ [] registerService rfl
    (by simp) rfl trivial rfl (by decide +kernel) (by decide +kernel)
  exact h.2.1.2 fun hwraps ↦ absurd hwraps.2 (by decide +kernel)

/-- At the last generation the registration is not advertised. -/
theorem advertised_block_outdated :
    ((quietHost 0xffffffff).run 11 [.update hostName {}]).Current 11 hostName ∧
      ¬ ((quietHost 0xffffffff).run 11
        [.update hostName {}, registerService, .update hostName {}]).Current 11 hostName ∧
      ((quietHost 0xffffffff).run 11
        [.update hostName {}, registerService, .update hostName {}]).block =
      ((quietHost 0xffffffff).run 11 [.update hostName {}]).block := by
  unfold Responder.Current
  decide +kernel

end ThunderboltStack.Xdomain
