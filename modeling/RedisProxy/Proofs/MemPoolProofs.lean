import RedisProxy.MemPool
import RedisProxy.Lib.Ownership

/-!
# Proofs: the pool of memory blocks

A block is either out, which means that `GetData` has handed it out once more than `Release` has taken
it back, or it is in at most one stack of the pool. `GetData` hands out blocks that are not out.
-/

namespace RedisProxy.MemPool

open List Option Function

/-- The free list of a size class, and the records without memory. -/
def stack (mem : MemPool) (k : Option Nat) : List Nat := k.elim mem.freeMetaData mem.freePoolList

theorem stack_free (mem : MemPool) (i : Nat) (l : List Nat) :
    ({ mem with freePoolList := Function.update mem.freePoolList i l } : MemPool).stack =
      Function.update mem.stack (some i) l := by
  funext k
  rw [update_apply]
  cases k with
  | none => rfl
  | some j =>
    show update mem.freePoolList i l j = _
    rw [update_apply]
    simp only [some.injEq]
    rfl

theorem stack_meta (mem : MemPool) (l : List Nat) :
    ({ mem with freeMetaData := l } : MemPool).stack = Function.update mem.stack none l := by
  funext k
  cases k <;> rfl

/-- The block has been handed out and not given back. -/
def Out (mem : MemPool) (d : Nat) : Prop := mem.releases d < mem.gets d

/-- A static block, which is not the pool's. -/
def Static (mem : MemPool) (d : Nat) : Prop := (mem.blocks d).cStaticFlag = true

/-- What holds of the pool in every state. -/
structure Inv (mem : MemPool) : Prop where
  balance : ∀ d, mem.releases d ≤ mem.gets d ∧ mem.gets d ≤ mem.releases d + 1
  apart : Lib.Apart mem.stack
  back : ∀ k, ∀ d ∈ mem.stack k, ¬mem.Out d ∧ d < mem.nextData
  fresh : ∀ d, mem.nextData ≤ d → mem.gets d = 0 ∧ ¬mem.Static d

theorem init_inv : init.Inv := by
  have hnil : ∀ k, init.stack k = [] := by
    intro k
    cases k <;> rfl
  refine ⟨fun _ => ⟨le_rfl, Nat.zero_le _⟩, ⟨fun k => ?_, fun {k k' d} hd => ?_⟩, fun k d hd => ?_, fun d hd => ⟨rfl, ?_⟩⟩
  · rw [hnil]
    exact nodup_nil
  · rw [hnil] at hd
    exact absurd hd not_mem_nil
  · rw [hnil] at hd
    exact absurd hd not_mem_nil
  · exact fun h => absurd (of_decide_eq_true h) (Nat.not_lt.mpr hd)

section Steps

variable {mem mem' : MemPool} {d : Nat}
variable {k : Option Nat}

/-- A block that is in no stack, and that nobody has. -/
structure Idle (mem : MemPool) (d : Nat) : Prop where
  stack : ∀ k, d ∉ mem.stack k
  back : ¬mem.Out d
  lt : d < mem.nextData

/-- Changes to the memory of the blocks. -/
theorem Inv.setBlock (h : mem.Inv) (d : Nat) {x : MemPoolData} (hx : x.cStaticFlag = (mem.blocks d).cStaticFlag) :
    ({ mem with blocks := Function.update mem.blocks d x } : MemPool).Inv ∧
      ∀ e, Static { mem with blocks := Function.update mem.blocks d x } e ↔ mem.Static e := by
  have hs : ∀ e, Static { mem with blocks := update mem.blocks d x } e ↔ mem.Static e := by
    intro e
    unfold Static
    dsimp only
    rw [update_apply]
    split_ifs with he
    · rw [hx, he]
    · rfl
  refine ⟨⟨h.balance, h.apart, h.back, fun e he => ⟨(h.fresh e he).1, ?_⟩⟩, hs⟩
  rw [hs]
  exact (h.fresh e he).2

/-- A block leaves a stack. -/
theorem Inv.pop (h : mem.Inv) {l : List Nat} (hk : mem.stack k = d :: l)
    (hs : mem'.stack = Function.update mem.stack k l) (hb : mem'.blocks = mem.blocks) (hn : mem'.nextData = mem.nextData)
    (hg : mem'.gets = mem.gets) (hr : mem'.releases = mem.releases) : mem'.Inv ∧ mem'.Idle d := by
  have hd : d ∈ mem.stack k := by
    rw [hk]
    exact mem_cons_self
  obtain ⟨hout, hlt⟩ := h.back k d hd
  obtain ⟨hapart, hnot⟩ := h.apart.pop hk
  have hsame : ∀ e, mem'.Out e ↔ mem.Out e := by
    intro e
    unfold Out
    rw [hg, hr]
  refine ⟨⟨?_, ?_, fun k' e he => ?_, ?_⟩, ?_, ?_, ?_⟩
  · rw [hg, hr]
    exact h.balance
  · rw [hs]
    exact hapart
  · rw [hs] at he
    rw [hsame, hn]
    exact h.back k' e (Lib.Apart.mem_of_pop hk he)
  · unfold Static
    rw [hn, hg, hb]
    exact h.fresh
  · rw [hs]
    exact hnot
  · rw [hsame]
    exact hout
  · rw [hn]
    exact hlt

/-- A block enters a stack. -/
theorem Inv.push (h : mem.Inv) (hd : mem.Idle d) (hs : mem'.stack = Function.update mem.stack k (d :: mem.stack k))
    (hb : mem'.blocks = mem.blocks)
    (hn : mem'.nextData = mem.nextData) (hg : mem'.gets = mem.gets) (hr : mem'.releases = mem.releases) : mem'.Inv := by
  have hsame : ∀ e, mem'.Out e ↔ mem.Out e := by
    intro e
    unfold Out
    rw [hg, hr]
  refine ⟨?_, ?_, fun k' e he => ?_, ?_⟩
  · rw [hg, hr]
    exact h.balance
  · rw [hs]
    exact h.apart.push hd.stack k
  · rw [hsame, hn]
    rw [hs, update_apply] at he
    split_ifs at he with hk
    · rcases mem_cons.mp he with rfl | he
      · exact ⟨hd.back, hd.lt⟩
      · exact h.back k e he
    · exact h.back k' e he
  · unfold Static
    rw [hn, hg, hb]
    exact h.fresh

/-! ## `GetData` -/

/-- The block `d` has been handed out. -/
structure Got (mem : MemPool) (d : Nat) (mem' : MemPool) : Prop where
  inv : mem'.Inv
  old : ¬mem.Out d
  out : ∀ e, mem'.Out e ↔ mem.Out e ∨ e = d
  static : ∀ e, mem'.Static e ↔ mem.Static e

theorem Inv.countGet (h : mem.Inv) (hd : mem.Idle d) : Got mem d (mem.countGet d) := by
  have hout : ∀ e, (mem.countGet d).Out e ↔ mem.Out e ∨ e = d := by
    intro e
    unfold Out MemPool.countGet
    dsimp only
    rw [update_apply]
    split_ifs with he
    · have hbal := (h.balance d).1
      rw [he]
      omega
    · simp only [he, or_false]
  refine ⟨⟨fun e => ?_, h.apart, fun k e he => ?_, fun e he => ?_⟩, hd.back, hout, fun _ => Iff.rfl⟩
  · have hbal := h.balance e
    unfold MemPool.countGet
    dsimp only
    rw [update_apply]
    split_ifs with he
    · have hback := hd.back
      unfold Out at hback
      rw [he] at hbal ⊢
      omega
    · exact hbal
  · obtain ⟨hnot, hlt⟩ := h.back k e he
    refine ⟨fun ho => ?_, hlt⟩
    rcases (hout e).mp ho with ho | rfl
    · exact hnot ho
    · exact hd.stack k he
  · refine ⟨?_, (h.fresh e he).2⟩
    have hne : e ≠ d := (Nat.lt_of_lt_of_le hd.lt he).ne'
    show update mem.gets d _ e = 0
    rw [update_of_ne hne]
    exact (h.fresh e he).1

/-- The record for new memory. -/
theorem takeMeta_idle (h : mem.Inv) (hm : mem.takeMeta = (d, mem')) :
    mem'.Inv ∧ mem'.Idle d ∧ (∀ e, mem'.Out e ↔ mem.Out e) ∧ ∀ e, mem'.Static e ↔ mem.Static e := by
  unfold takeMeta at hm
  split at hm
  · rename_i pData rest hl
    obtain ⟨rfl, rfl⟩ := hm
    obtain ⟨hinv, hidle⟩ := h.pop (k := none) hl (stack_meta mem rest) rfl rfl rfl rfl
    exact ⟨hinv, hidle, fun _ => Iff.rfl, fun _ => Iff.rfl⟩
  · simp only [Prod.mk.injEq] at hm
    obtain ⟨rfl, rfl⟩ := hm
    obtain ⟨hgets, hstatic⟩ := h.fresh mem.nextData le_rfl
    have hflag : false = (mem.blocks mem.nextData).cStaticFlag := (Bool.eq_false_iff.mpr hstatic).symm
    obtain ⟨hinv, hs⟩ := h.setBlock mem.nextData (x := ⟨false, false, 0, 0⟩) hflag
    refine ⟨⟨hinv.balance, hinv.apart, fun k e he => ?_, fun e he => ?_⟩, ⟨fun k hk => ?_, ?_, ?_⟩, fun _ => Iff.rfl, hs⟩
    · obtain ⟨hout, hlt⟩ := h.back k e he
      exact ⟨hout, Nat.lt_succ_of_lt hlt⟩
    · exact hinv.fresh e (Nat.le_of_succ_le he)
    · exact absurd (h.back k _ hk).2 (Nat.lt_irrefl _)
    · intro hout
      have hlt : mem.releases mem.nextData < mem.gets mem.nextData := hout
      omega
    · exact Nat.lt_succ_self _

theorem getData_got (h : mem.Inv) {sSize : Nat} (hg : mem.getData sSize = some (d, mem')) : Got mem d mem' := by
  unfold getData at hg
  dsimp only at hg
  split at hg
  · rename_i ret rest hl
    by_cases hclass : classOf sSize < poolDataTotalType
    swap
    · rw [if_neg hclass] at hl
      cases hl
    rw [if_pos hclass] at hl hg
    have hk : mem.stack (some (classOf sSize)) = ret :: rest := hl
    split_ifs at hg
    cases hg
    obtain ⟨hinv, hidle⟩ := h.pop hk (stack_free mem _ rest) rfl rfl rfl rfl
    have hgot := hinv.countGet hidle
    exact ⟨hgot.inv, hgot.old, hgot.out, hgot.static⟩
  · cases hm : mem.takeMeta with
    | mk pData mem₁ =>
      rw [hm] at hg
      cases hg
      obtain ⟨hinv, hidle, hout, hstatic⟩ := takeMeta_idle h hm
      obtain ⟨hinv', hs⟩ := hinv.setBlock pData (x := { mem₁.blocks pData with
        hasData := true
        uiIndex := classOf sSize
        sCapacity := if classOf sSize < poolDataTotalType then aSize (classOf sSize) else sSize }) rfl
      have hgot := hinv'.countGet ⟨hidle.stack, hidle.back, hidle.lt⟩
      refine ⟨hgot.inv, ?_, fun e => ?_, fun e => ?_⟩
      · rw [← hout]
        exact hidle.back
      · rw [hgot.out, ← hout]
        rfl
      · rw [hgot.static, hs, hstatic]

/-! ## `Release` -/

/-- The block `d` has been given back. -/
structure Returned (mem : MemPool) (d : Nat) (mem' : MemPool) : Prop where
  inv : mem'.Inv
  out : ∀ e, e ≠ d ∨ mem.Static d → (mem'.Out e ↔ mem.Out e)
  static : ∀ e, mem'.Static e ↔ mem.Static e

theorem Inv.countRelease (h : mem.Inv) (hd : mem.Out d) :
    (mem.countRelease d).Inv ∧ (mem.countRelease d).Idle d ∧ ∀ e, e ≠ d → ((mem.countRelease d).Out e ↔ mem.Out e) := by
  have hother : ∀ e, e ≠ d → ((mem.countRelease d).Out e ↔ mem.Out e) := by
    intro e he
    unfold Out MemPool.countRelease
    dsimp only
    rw [update_of_ne he]
  have hnot : ¬(mem.countRelease d).Out d := by
    have hbal := (h.balance d).2
    unfold Out MemPool.countRelease
    dsimp only
    rw [update_self]
    omega
  have hlt : d < mem.nextData := by
    by_contra hge
    have hgets := (h.fresh d (Nat.not_lt.mp hge)).1
    unfold Out at hd
    omega
  refine ⟨⟨fun e => ?_, h.apart, fun k e he => ?_, h.fresh⟩, ⟨fun k hk => (h.back k d hk).1 hd, hnot, hlt⟩, hother⟩
  · have hbal := h.balance e
    unfold MemPool.countRelease
    dsimp only
    rw [update_apply]
    split_ifs with he
    · unfold Out at hd
      rw [he] at hbal ⊢
      omega
    · exact hbal
  · obtain ⟨hout, hlt'⟩ := h.back k e he
    refine ⟨?_, hlt'⟩
    have hne : e ≠ d := by
      rintro rfl
      exact hout hd
    rw [hother e hne]
    exact hout

theorem release_returned (h : mem.Inv) (hd : mem.Static d ∨ mem.Out d) (hr : mem.release d = some mem') :
    Returned mem d mem' := by
  unfold release at hr
  dsimp only at hr
  by_cases hs : (mem.blocks d).cStaticFlag = true
  · rw [if_pos hs, some.injEq] at hr
    rw [← hr]
    exact ⟨h, fun _ _ => Iff.rfl, fun _ => Iff.rfl⟩
  obtain ⟨hinv, hidle, hother⟩ := h.countRelease (hd.resolve_left hs)
  have hout : ∀ e, e ≠ d ∨ mem.Static d → ((mem.countRelease d).Out e ↔ mem.Out e) :=
    fun e he => hother e (he.resolve_right hs)
  split_ifs at hr with hok hroom hmeta
  · -- back to the free list of its class
    rw [← some.inj hr]
    exact ⟨hinv.push hidle (stack_free _ _ _) rfl rfl rfl rfl, hout, fun _ => Iff.rfl⟩
  · obtain ⟨hinv', hs'⟩ := hinv.setBlock d (x := { mem.blocks d with
      hasData := false, uiIndex := poolDataTotalType, sCapacity := 0 }) rfl
    rw [← some.inj hr]
    exact ⟨hinv'.push ⟨hidle.stack, hidle.back, hidle.lt⟩ (stack_meta _ _) rfl rfl rfl rfl, hout, hs'⟩
  · obtain ⟨hinv', hs'⟩ := hinv.setBlock d (x := { mem.blocks d with
      hasData := false, uiIndex := poolDataTotalType, sCapacity := 0 }) rfl
    rw [← some.inj hr]
    exact ⟨hinv', hout, hs'⟩

end Steps

end RedisProxy.MemPool
