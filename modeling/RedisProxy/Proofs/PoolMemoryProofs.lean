import RedisProxy.PoolMemory
import RedisProxy.Proofs.MemPoolProofs

/-!
# Proofs: the blocks of the pool have their memory

A block that is out, or in the free list of a size class, has memory of its capacity. `GetData` and `Release`
keep this, so they never fail an assertion.
-/

namespace RedisProxy

open Lib List Function

/-! ## The size classes -/

namespace MemPool

theorem aSize_pos (i : Nat) : 0 < aSize i := by
  unfold aSize
  rw [Nat.shiftLeft_eq]
  positivity

/-- The class of a size holds it. -/
theorem le_newSize (sSize : Nat) : sSize ≤ newSize sSize := by
  unfold newSize
  split_ifs with h
  · unfold classOf at h ⊢
    cases hf : (range poolDataTotalType).find? fun i => decide (sSize ≤ aSize i) with
    | none =>
      rw [hf] at h
      exact absurd h (Nat.lt_irrefl _)
    | some i =>
      have hle : decide (sSize ≤ aSize i) = true := find?_some (p := fun i => decide (sSize ≤ aSize i)) hf
      exact of_decide_eq_true hle
  · exact le_rfl

theorem newSize_pos (sSize : Nat) : 0 < newSize sSize := by
  by_cases hpos : 0 < sSize
  · exact Nat.lt_of_lt_of_le hpos (le_newSize sSize)
  · rw [Nat.eq_zero_of_not_pos hpos]
    exact aSize_pos 0

theorem newSize_lt {sSize n : Nat} (h : sSize < n) (hn : 2 ^ 20 < n) : newSize sSize < n := by
  unfold newSize
  split_ifs with hclass
  · have hle : aSize (classOf sSize) ≤ 2 ^ 20 := by
      unfold aSize
      rw [Nat.shiftLeft_eq]
      calc 0x200 * 2 ^ classOf sSize ≤ 0x200 * 2 ^ 11 :=
            Nat.mul_le_mul_left _ (Nat.pow_le_pow_right (by decide) (Nat.le_of_lt_succ hclass))
        _ = 2 ^ 20 := by norm_num
    omega
  · exact h

theorem classOf_le (sSize : Nat) : classOf sSize ≤ poolDataTotalType := by
  unfold classOf
  cases hf : (range poolDataTotalType).find? fun i => decide (sSize ≤ aSize i) with
  | none => exact le_rfl
  | some i => exact (mem_range.mp (mem_of_find?_eq_some hf)).le

section

variable {mem mem' : MemPool} {sSize d : Nat}

/-- `GetData` returns the first block of the free list. -/
theorem getData_free {rest : List Nat} (hclass : classOf sSize < poolDataTotalType)
    (hfree : mem.freePoolList (classOf sSize) = d :: rest) (hdata : (mem.blocks d).hasData = true)
    (hsize : (mem.blocks d).sCapacity = aSize (classOf sSize)) :
    mem.getData sSize = some (d, countGet
      { mem with freePoolList := Function.update mem.freePoolList (classOf sSize) rest } d) := by
  unfold getData
  dsimp only
  rw [if_pos hclass, if_pos hclass, hfree]
  exact if_pos ⟨hdata, hsize⟩

/-- `GetData` returns a block with new memory. -/
theorem getData_new (hfree : ¬mem.hasFree sSize) (hmeta : mem.takeMeta = (d, mem')) :
    mem.getData sSize = some (d, countGet
      { mem' with
        blocks := Function.update mem'.blocks d
          { mem'.blocks d with hasData := true, uiIndex := classOf sSize, sCapacity := newSize sSize } } d) := by
  have hnil : (if classOf sSize < poolDataTotalType then mem.freePoolList (classOf sSize) else []) = [] := by
    split_ifs with hclass
    · by_contra hne
      exact hfree ⟨hclass, hne⟩
    · rfl
  unfold getData
  dsimp only
  rw [hnil]
  rw [hmeta]
  rfl

/-- What `takeMeta` leaves. -/
theorem takeMeta_frame (hmeta : mem.takeMeta = (d, mem')) :
    mem'.freePoolList = mem.freePoolList ∧ (∀ e ∈ mem'.freeMetaData, e ∈ mem.freeMetaData) ∧
      mem'.freeMetaData.length ≤ mem.freeMetaData.length ∧ (∀ e, e ≠ d → mem'.blocks e = mem.blocks e) ∧
      ((mem'.blocks d).cStaticFlag = false ∨ d ∈ mem.freeMetaData ∧ mem'.blocks d = mem.blocks d) := by
  unfold takeMeta at hmeta
  split at hmeta
  · rename_i pData rest hl
    obtain ⟨rfl, rfl⟩ := Prod.mk.inj hmeta
    rw [hl]
    exact ⟨rfl, fun e he => mem_cons_of_mem _ he, by simp, fun _ _ => rfl, .inr ⟨mem_cons_self, rfl⟩⟩
  · obtain ⟨rfl, rfl⟩ := Prod.mk.inj hmeta
    refine ⟨rfl, fun e he => he, le_rfl, fun e he => update_of_ne he _ _, .inl ?_⟩
    dsimp only
    rw [update_self]

/-- `Release` returns the block to the free list of its class. -/
theorem release_free (hdynamic : (mem.blocks d).cStaticFlag = false)
    (hok : (mem.blocks d).hasData = true ∧ (mem.blocks d).sCapacity ≠ 0 ∧ (mem.blocks d).uiIndex ≤ poolDataTotalType)
    (hroom : (mem.blocks d).uiIndex < poolDataTotalType ∧
      (mem.freePoolList (mem.blocks d).uiIndex).length ≠ iMaxTotal (mem.blocks d).uiIndex) :
    mem.release d = some { mem.countRelease d with
      freePoolList := Function.update mem.freePoolList (mem.blocks d).uiIndex
        (d :: mem.freePoolList (mem.blocks d).uiIndex) } := by
  unfold release
  rw [if_neg (by rw [hdynamic]; decide), if_pos hok, if_pos (by exact hroom)]
  rfl

/-- The records without memory after a block has been freed. -/
def keepRecord (mem : MemPool) (d : Nat) : List Nat :=
  if mem.freeMetaData.length < maxFreeMetaData then d :: mem.freeMetaData else mem.freeMetaData

/-- `Release` frees the memory of the block. -/
theorem release_freed (hdynamic : (mem.blocks d).cStaticFlag = false)
    (hok : (mem.blocks d).hasData = true ∧ (mem.blocks d).sCapacity ≠ 0 ∧ (mem.blocks d).uiIndex ≤ poolDataTotalType)
    (hroom : ¬((mem.blocks d).uiIndex < poolDataTotalType ∧
      (mem.freePoolList (mem.blocks d).uiIndex).length ≠ iMaxTotal (mem.blocks d).uiIndex)) :
    mem.release d = some { mem.countRelease d with
      blocks := Function.update mem.blocks d
        { mem.blocks d with hasData := false, uiIndex := poolDataTotalType, sCapacity := 0 }
      freeMetaData := mem.keepRecord d } := by
  unfold release
  rw [if_neg (by rw [hdynamic]; decide), if_pos hok, if_neg (by exact hroom)]
  unfold keepRecord
  by_cases hmeta : mem.freeMetaData.length < maxFreeMetaData
  · rw [if_pos hmeta]
    exact if_pos hmeta
  · rw [if_neg hmeta]
    exact if_neg hmeta

end

end MemPool

namespace PoolMemory

variable {p p' : PoolMemory} {sSize uszNew d : Nat}

/-- The block has memory of its capacity, which is the size of its class. -/
structure Whole (p : PoolMemory) (d : Nat) : Prop where
  dynamic : (p.mem.blocks d).cStaticFlag = false
  data : (p.mem.blocks d).hasData = true
  pos : 0 < (p.mem.blocks d).sCapacity
  size : (p.mem.blocks d).uiIndex < poolDataTotalType → (p.mem.blocks d).sCapacity = MemPool.aSize (p.mem.blocks d).uiIndex
  index : (p.mem.blocks d).uiIndex ≤ poolDataTotalType
  start : p.uszData d ≠ 0
  stop : p.uszEnd d = p.uszData d + (p.mem.blocks d).sCapacity

theorem Whole.congr (h : p.Whole d) (hblock : p'.mem.blocks d = p.mem.blocks d) (hdata : p'.uszData d = p.uszData d)
    (hend : p'.uszEnd d = p.uszEnd d) : p'.Whole d := by
  obtain ⟨h₁, h₂, h₃, h₄, h₅, h₆, h₇⟩ := h
  constructor
  · rw [hblock, h₁]
  · rw [hblock, h₂]
  · rw [hblock]
    exact h₃
  · rw [hblock]
    exact h₄
  · rw [hblock]
    exact h₅
  · rw [hdata]
    exact h₆
  · rw [hend, hdata, hblock, h₇]

/-- What holds of the pool and the memory of its blocks in every state. -/
structure Inv (p : PoolMemory) : Prop where
  base : p.mem.Inv
  out : ∀ d, p.mem.Out d → p.Whole d
  free : ∀ i, ∀ d ∈ p.mem.freePoolList i, p.Whole d ∧ (p.mem.blocks d).uiIndex = i ∧ i < poolDataTotalType
  records : ∀ d ∈ p.mem.freeMetaData, (p.mem.blocks d).cStaticFlag = false
  room : ∀ i, (p.mem.freePoolList i).length ≤ MemPool.iMaxTotal i
  recordRoom : p.mem.freeMetaData.length ≤ maxFreeMetaData

theorem init_inv : init.Inv where
  base := MemPool.init_inv
  out := fun _ h => absurd h (Nat.lt_irrefl 0)
  free := fun _ _ h => absurd h not_mem_nil
  records := fun _ h => absurd h not_mem_nil
  room := fun _ => Nat.zero_le _
  recordRoom := Nat.zero_le _

/-- A block of a free list has the size of its class. -/
theorem Inv.capacity (h : p.Inv) {i : Nat} (hd : d ∈ p.mem.freePoolList i) :
    (p.mem.blocks d).sCapacity = MemPool.aSize i := by
  obtain ⟨hwhole, rfl, hlt⟩ := h.free i d hd
  exact hwhole.size hlt

/-! ## `GetData` -/

/-- `GetData` returns the block `d`, which was not out and which has room for the size. -/
structure Gets (p : PoolMemory) (sSize uszNew d : Nat) (p' : PoolMemory) : Prop where
  eq : p.getData sSize uszNew = some (d, p')
  inv : p'.Inv
  got : MemPool.Got p.mem d p'.mem
  whole : p'.Whole d
  size : sSize ≤ (p'.mem.blocks d).sCapacity

theorem Inv.getData_free (h : p.Inv) (hfree : p.mem.hasFree sSize) : ∃ d p', Gets p sSize uszNew d p' := by
  obtain ⟨hclass, hne⟩ := hfree
  obtain ⟨d, rest, hl⟩ := exists_cons_of_ne_nil hne
  have hmem : d ∈ p.mem.freePoolList (MemPool.classOf sSize) := by
    rw [hl]
    exact mem_cons_self
  obtain ⟨hwhole, -, -⟩ := h.free _ d hmem
  have hget := MemPool.getData_free hclass hl hwhole.data (h.capacity hmem)
  obtain ⟨mem', hmem'⟩ : ∃ mem', mem' = MemPool.countGet
    { p.mem with freePoolList := update p.mem.freePoolList (MemPool.classOf sSize) rest } d := ⟨_, rfl⟩
  rw [← hmem'] at hget
  have hgot := MemPool.getData_got h.base hget
  have hblocks : mem'.blocks = p.mem.blocks := by rw [hmem']; rfl
  have hlists : mem'.freePoolList = update p.mem.freePoolList (MemPool.classOf sSize) rest := by rw [hmem']; rfl
  have hmeta : mem'.freeMetaData = p.mem.freeMetaData := by rw [hmem']; rfl
  have hsame : ∀ e, p.Whole e → ({ p with mem := mem' } : PoolMemory).Whole e := fun e he =>
    he.congr (congrFun hblocks e) rfl rfl
  refine ⟨d, { p with mem := mem' }, ?_, ⟨hgot.inv, ?_, ?_, ?_, ?_, ?_⟩, hgot, hsame d hwhole, ?_⟩
  · unfold getData
    rw [hget]
    exact if_pos ⟨hclass, hne⟩
  · intro e he
    rcases (hgot.out e).mp he with he | rfl
    · exact hsame e (h.out e he)
    · exact hsame e hwhole
  · intro i e he
    have hin : e ∈ p.mem.freePoolList i := by
      dsimp only at he
      rw [hlists] at he
      exact Apart.mem_of_pop hl he
    rw [hblocks]
    exact ⟨hsame e (h.free i e hin).1, (h.free i e hin).2⟩
  · dsimp only
    rw [hblocks, hmeta]
    exact h.records
  · intro i
    rw [hlists, update_apply]
    split_ifs with hi
    · have hroom := h.room i
      rw [hi, hl, length_cons] at hroom
      rw [hi]
      omega
    · exact h.room i
  · dsimp only
    rw [hmeta]
    exact h.recordRoom
  · dsimp only
    rw [hblocks, h.capacity hmem]
    have hle := MemPool.le_newSize sSize
    rwa [MemPool.newSize, if_pos hclass] at hle

theorem Inv.getData_new (h : p.Inv) (hfree : ¬p.mem.hasFree sSize) (hnew : uszNew ≠ 0) :
    ∃ d p', Gets p sSize uszNew d p' := by
  obtain ⟨d, mem₁, hmeta⟩ : ∃ d mem₁, p.mem.takeMeta = (d, mem₁) := ⟨_, _, rfl⟩
  obtain ⟨-, hidle, hout₁, -⟩ := MemPool.takeMeta_idle h.base hmeta
  obtain ⟨hlists, hrecords, hlen, hblocks, hflag⟩ := MemPool.takeMeta_frame hmeta
  have hdynamic : (mem₁.blocks d).cStaticFlag = false := by
    rcases hflag with hflag | ⟨hin, heq⟩
    · exact hflag
    · rw [heq]
      exact h.records d hin
  have hget := MemPool.getData_new hfree hmeta
  obtain ⟨mem', hmem'⟩ : ∃ mem', mem' = MemPool.countGet
    { mem₁ with
      blocks := update mem₁.blocks d
        { mem₁.blocks d with
          hasData := true
          uiIndex := MemPool.classOf sSize
          sCapacity := MemPool.newSize sSize } } d := ⟨_, rfl⟩
  rw [← hmem'] at hget
  have hgot := MemPool.getData_got h.base hget
  have hblock : mem'.blocks d = { mem₁.blocks d with
      hasData := true, uiIndex := MemPool.classOf sSize, sCapacity := MemPool.newSize sSize } := by
    rw [hmem']
    exact update_self _ _ _
  have hother : ∀ e, e ≠ d → mem'.blocks e = p.mem.blocks e := by
    intro e he
    rw [hmem', ← hblocks e he]
    exact update_of_ne he _ _
  have hlists' : mem'.freePoolList = p.mem.freePoolList := by rw [hmem', ← hlists]; rfl
  have hmeta' : mem'.freeMetaData = mem₁.freeMetaData := by rw [hmem']; rfl
  obtain ⟨p', hp'⟩ : ∃ p', p' = (⟨mem', update p.uszData d uszNew,
    update p.uszEnd d (uszNew + MemPool.newSize sSize)⟩ : PoolMemory) := ⟨_, rfl⟩
  have hsame : ∀ e, e ≠ d → p.Whole e → p'.Whole e := by
    intro e he hwhole
    rw [hp']
    exact hwhole.congr (hother e he) (update_of_ne he _ _) (update_of_ne he _ _)
  have hwhole : p'.Whole d := by
    rw [hp']
    constructor
    · rw [hblock]
      exact hdynamic
    · rw [hblock]
    · rw [hblock]
      exact MemPool.newSize_pos sSize
    · rw [hblock]
      exact fun hclass => if_pos hclass
    · rw [hblock]
      exact MemPool.classOf_le sSize
    · dsimp only
      rw [update_self]
      exact hnew
    · dsimp only
      rw [update_self, update_self, hblock]
  have hmem : p'.mem = mem' := by rw [hp']
  refine ⟨d, p', ?_, ⟨?_, ?_, ?_, ?_, ?_, ?_⟩, ?_, hwhole, ?_⟩
  · unfold getData
    rw [hget, hp']
    exact if_neg hfree
  · rw [hmem]
    exact hgot.inv
  · intro e he
    rw [hmem] at he
    by_cases hne : e = d
    · rw [hne]
      exact hwhole
    · exact hsame e hne (h.out e (((hgot.out e).mp he).resolve_right hne))
  · intro i e he
    rw [hmem, hlists'] at he
    have hne : e ≠ d := by
      rintro rfl
      apply hidle.stack (some i)
      change e ∈ mem₁.freePoolList i
      rw [hlists]
      exact he
    obtain ⟨hwhole', hindex⟩ := h.free i e he
    rw [hmem, hother e hne]
    exact ⟨hsame e hne hwhole', hindex⟩
  · intro e he
    rw [hmem, hmeta'] at he
    have hne : e ≠ d := by
      rintro rfl
      exact hidle.stack none he
    rw [hmem, hother e hne]
    exact h.records e (hrecords e he)
  · intro i
    rw [hmem, hlists']
    exact h.room i
  · rw [hmem, hmeta']
    exact hlen.trans h.recordRoom
  · rw [hmem]
    exact hgot
  · rw [hmem, hblock]
    exact MemPool.le_newSize sSize

theorem Inv.getData (h : p.Inv) (sSize : Nat) (hnew : uszNew ≠ 0) : ∃ d p', Gets p sSize uszNew d p' := by
  by_cases hfree : p.mem.hasFree sSize
  · exact h.getData_free hfree
  · exact h.getData_new hfree hnew

/-! ## `Release` -/

theorem Inv.release_free (h : p.Inv) (hd : p.mem.Out d)
    (hroom : (p.mem.blocks d).uiIndex < poolDataTotalType ∧
      (p.mem.freePoolList (p.mem.blocks d).uiIndex).length ≠ MemPool.iMaxTotal (p.mem.blocks d).uiIndex) :
    ∃ mem', p.mem.release d = some mem' ∧ (mem'.blocks d).hasData = true ∧ ({ p with mem := mem' } : PoolMemory).Inv := by
  have hwhole := h.out d hd
  have hrel := MemPool.release_free hwhole.dynamic ⟨hwhole.data, hwhole.pos.ne', hwhole.index⟩ hroom
  have hret := MemPool.release_returned h.base (.inr hd) hrel
  refine ⟨_, hrel, hwhole.data, hret.inv, ?_, ?_, h.records, ?_, h.recordRoom⟩
  · intro e he
    by_cases hne : e = d
    · rw [hne]
      exact hwhole.congr rfl rfl rfl
    · exact (h.out e ((hret.out e (.inl hne)).mp he)).congr rfl rfl rfl
  · intro i e he
    dsimp only at he
    rw [update_apply] at he
    split_ifs at he with hi
    · rcases mem_cons.mp he with rfl | he
      · exact ⟨hwhole.congr rfl rfl rfl, hi.symm, hi ▸ hroom.1⟩
      · obtain ⟨hwhole', hindex⟩ := h.free _ e he
        exact ⟨hwhole'.congr rfl rfl rfl, hi ▸ hindex⟩
    · obtain ⟨hwhole', hindex⟩ := h.free i e he
      exact ⟨hwhole'.congr rfl rfl rfl, hindex⟩
  · intro i
    dsimp only
    rw [update_apply]
    split_ifs with hi
    · have hle := h.room (p.mem.blocks d).uiIndex
      rw [hi, length_cons]
      omega
    · exact h.room i

theorem Inv.release_freed (h : p.Inv) (hd : p.mem.Out d)
    (hroom : ¬((p.mem.blocks d).uiIndex < poolDataTotalType ∧
      (p.mem.freePoolList (p.mem.blocks d).uiIndex).length ≠ MemPool.iMaxTotal (p.mem.blocks d).uiIndex)) :
    ∃ mem', p.mem.release d = some mem' ∧ (mem'.blocks d).hasData = false ∧
      (⟨mem', Function.update p.uszData d 0, Function.update p.uszEnd d 0⟩ : PoolMemory).Inv := by
  have hwhole := h.out d hd
  have hrel := MemPool.release_freed hwhole.dynamic ⟨hwhole.data, hwhole.pos.ne', hwhole.index⟩ hroom
  have hret := MemPool.release_returned h.base (.inr hd) hrel
  obtain ⟨mem', hmem'⟩ : ∃ mem', mem' = ({ p.mem.countRelease d with
    blocks := update p.mem.blocks d
      { p.mem.blocks d with hasData := false, uiIndex := poolDataTotalType, sCapacity := 0 }
    freeMetaData := p.mem.keepRecord d } : MemPool) := ⟨_, rfl⟩
  rw [← hmem'] at hrel hret
  have hblock : mem'.blocks d =
      { p.mem.blocks d with hasData := false, uiIndex := poolDataTotalType, sCapacity := 0 } := by
    rw [hmem']
    exact update_self _ _ _
  have hother : ∀ e, e ≠ d → mem'.blocks e = p.mem.blocks e := by
    intro e he
    rw [hmem']
    exact update_of_ne he _ _
  have hlists : mem'.freePoolList = p.mem.freePoolList := by rw [hmem']; rfl
  have hmeta : mem'.freeMetaData = p.mem.keepRecord d := by rw [hmem']
  have hsame : ∀ e, e ≠ d → p.Whole e →
      (⟨mem', update p.uszData d 0, update p.uszEnd d 0⟩ : PoolMemory).Whole e := fun e he hw =>
    hw.congr (hother e he) (update_of_ne he _ _) (update_of_ne he _ _)
  -- the block is no longer out, and it was in no stack
  have hnot : ¬mem'.Out d := by
    rw [hmem']
    exact (h.base.countRelease hd).2.1.back
  have hstack : ∀ k, d ∉ p.mem.stack k := fun k hk => (h.base.back k d hk).1 hd
  refine ⟨mem', hrel, by rw [hblock], hret.inv, ?_, ?_, ?_, ?_, ?_⟩
  · intro e he
    have hne : e ≠ d := by
      rintro rfl
      exact hnot he
    exact hsame e hne (h.out e ((hret.out e (.inl hne)).mp he))
  · intro i e he
    rw [hlists] at he
    have hne : e ≠ d := by
      rintro rfl
      exact hstack (some i) he
    rw [hother e hne]
    exact ⟨hsame e hne (h.free i e he).1, (h.free i e he).2⟩
  · intro e he
    rw [hmeta, MemPool.keepRecord] at he
    by_cases hne : e = d
    · rw [hne, hblock]
      exact hwhole.dynamic
    · rw [hother e hne]
      split_ifs at he
      · exact h.records e ((mem_cons.mp he).resolve_left hne)
      · exact h.records e he
  · intro i
    rw [hlists]
    exact h.room i
  · dsimp only
    rw [hmeta, MemPool.keepRecord]
    split_ifs with hlt
    · exact hlt
    · exact h.recordRoom

/-- A block that is out can be released. -/
theorem Inv.release (h : p.Inv) (hd : p.mem.Out d) : ∃ p', p.release d = some p' ∧ p'.Inv := by
  have hwhole := h.out d hd
  have hstop : p.uszEnd d ≠ 0 := by
    rw [hwhole.stop]
    have hpos := hwhole.pos
    omega
  unfold PoolMemory.release
  rw [if_neg (by rw [hwhole.dynamic]; decide), if_neg hstop]
  by_cases hroom : (p.mem.blocks d).uiIndex < poolDataTotalType ∧
      (p.mem.freePoolList (p.mem.blocks d).uiIndex).length ≠ MemPool.iMaxTotal (p.mem.blocks d).uiIndex
  · obtain ⟨mem', hrel, hdata, hinv⟩ := h.release_free hd hroom
    rw [hrel]
    exact ⟨_, if_pos hdata, hinv⟩
  · obtain ⟨mem', hrel, hdata, hinv⟩ := h.release_freed hd hroom
    rw [hrel]
    exact ⟨_, if_neg (by rw [hdata]; decide), hinv⟩

/-! ## Runs -/

/-- An operation that is allowed succeeds. -/
theorem step_inv (h : p.Inv) {o : Op} (ho : p.Allowed o) : ∃ p', p.step o = some p' ∧ p'.Inv := by
  cases o with
  | getData sSize uszNew =>
    obtain ⟨d, p', hgets⟩ := h.getData sSize ho.2
    refine ⟨p', ?_, hgets.inv⟩
    rw [step, hgets.eq]
    rfl
  | release d => exact h.release ho

/-- The pool is correct in every run in which a block is released at most once for each time it is handed out. No
operation fails an assertion. `GetData` returns a block that nobody has, with memory of its capacity, which is
at least the size that was asked for. The free lists have distinct blocks, with the capacity of their class, and
no list is longer than its maximum. -/
theorem pool_correct (ops : List Op) (hops : Meets step Allowed init ops) :
    ∃ p, run step init ops = some p ∧
      (∀ sSize uszNew, sSize < 2 ^ 31 → uszNew ≠ 0 → ∃ d p', p.getData sSize uszNew = some (d, p') ∧
        sSize ≤ (p'.mem.blocks d).sCapacity ∧ p'.uszEnd d - p'.uszData d = (p'.mem.blocks d).sCapacity ∧
        ¬p.mem.releases d < p.mem.gets d) ∧
      (∀ d, p.mem.releases d < p.mem.gets d → p.uszEnd d - p.uszData d = (p.mem.blocks d).sCapacity ∧
        (p.release d).isSome) ∧
      (∀ i < poolDataTotalType, (p.mem.freePoolList i).Nodup ∧
        ∀ d ∈ p.mem.freePoolList i, (p.mem.blocks d).sCapacity = MemPool.aSize i) ∧
      (∀ i < poolDataTotalType, (p.mem.freePoolList i).length ≤ MemPool.iMaxTotal i) ∧
      p.mem.freeMetaData.Nodup ∧ p.mem.freeMetaData.length ≤ maxFreeMetaData := by
  obtain ⟨p, hrun, hinv⟩ := run_isSome (fun _ _ h ho => step_inv h ho) ops init init_inv hops
  refine ⟨p, hrun, ?_, ?_, ?_, fun i _ => hinv.room i, hinv.base.apart.nodup none, hinv.recordRoom⟩
  · intro sSize uszNew _ hnew
    obtain ⟨d, p', hgets⟩ := hinv.getData sSize hnew
    refine ⟨d, p', hgets.eq, hgets.size, ?_, hgets.got.old⟩
    rw [hgets.whole.stop, Nat.add_sub_cancel_left]
  · intro d hd
    obtain ⟨p', hrel, -⟩ := hinv.release hd
    rw [(hinv.out d hd).stop, Nat.add_sub_cancel_left, hrel]
    exact ⟨rfl, rfl⟩
  · intro i _
    exact ⟨hinv.base.apart.nodup (some i), fun d hd => hinv.capacity hd⟩

/-- A block that is handed out, released and handed out again; then another size is asked for. -/
theorem pool_correct_twice :
    Meets step Allowed init [.getData 100 8, .release 2, .getData 300 8] ∧
      ∃ p, run step init [.getData 100 8, .release 2, .getData 300 8] = some p ∧
        ∃ d p', p.getData 600 4096 = some (d, p') ∧ 600 ≤ (p'.mem.blocks d).sCapacity := by
  have hops : Meets step Allowed init [.getData 100 8, .release 2, .getData 300 8] := by decide
  obtain ⟨p, hrun, hget, -⟩ := pool_correct _ hops
  obtain ⟨d, p', heq, hsize, -⟩ := hget 600 4096 (by decide) (by decide)
  exact ⟨hops, p, hrun, d, p', heq, hsize⟩

end PoolMemory

end RedisProxy
