import RedisProxy.Ledger
import RedisProxy.Proofs.MemPoolProofs

/-!
# Proofs: the rules of the ledger

`Owned` says that each block which is not static has at most one owner, and that the pool has handed it
out. A block in the hands of the code is `Loose`: it is out, and no slot owns it. The rules say how
blocks move between the pool, the hands of the code and the slots.
-/

namespace RedisProxy.Ledger

open Option Function

open MemPool

variable {l l' : Ledger} {hide : Option Cache} {s : Slot} {d : Nat}

theorem own_eq_some : l.own hide s = some d ↔
    hide.map Slot.cache ≠ some s ∧ l.holds s = some d ∧ ¬l.mem.Static d := by
  unfold own Static
  split_ifs with h
  · simp [h]
  · simp [h, filter_eq_some_iff]

/-- The invariant of the ledger. -/
structure Owned (hide : Option Cache) (l : Ledger) : Prop where
  inv : l.mem.Inv
  static : l.mem.Static flushdbCmd ∧ l.mem.Static askingCmd
  out : ∀ s d, l.own hide s = some d → l.mem.Out d
  excl : Lib.Exclusive (l.own hide)

/-- A block in the hands of the code. -/
def Loose (hide : Option Cache) (l : Ledger) (d : Nat) : Prop :=
  l.mem.Static d ∨ l.mem.Out d ∧ ∀ s, l.own hide s ≠ some d

/-! ## Slots -/

/-- Pointers may be forgotten. -/
theorem Owned.shrink (h : Owned hide l) (hm : l'.mem = l.mem)
    (hs : ∀ s d, l'.own hide s = some d → l.own hide s = some d) : Owned hide l' := by
  refine ⟨by rw [hm]; exact h.inv, by rw [hm]; exact h.static, fun s d hd => ?_, h.excl.shrink hs⟩
  rw [hm]
  exact h.out s d (hs s d hd)

@[simp] theorem put_holds_self (l : Ledger) (s : Slot) (x : Option Nat) : (l.put s x).holds s = x :=
  update_self ..

theorem put_holds_ne (l : Ledger) {s t : Slot} (h : t ≠ s) (x : Option Nat) : (l.put s x).holds t = l.holds t :=
  update_of_ne h ..

theorem own_put_ne {t : Slot} (ht : t ≠ s) (x : Option Nat) : (l.put s x).own hide t = l.own hide t := by
  unfold own put
  dsimp only
  rw [update_of_ne ht]

theorem own_put_none (t : Slot) (hd : (l.put s none).own hide t = some d) : l.own hide t = some d := by
  by_cases ht : t = s
  · rw [own_eq_some, ht, put_holds_self] at hd
    exact absurd hd.2.1 (by simp)
  · rw [own_put_ne ht] at hd
    exact hd

theorem Owned.put_none (h : Owned hide l) (s : Slot) : Owned hide (l.put s none) :=
  h.shrink rfl fun t _ ht => own_put_none t ht

theorem Loose.put_none (h : Loose hide l d) (s : Slot) : Loose hide (l.put s none) d :=
  h.imp id fun h => ⟨h.1, fun t ht => h.2 t (own_put_none t ht)⟩

/-- Writing the pointer that is there already. -/
theorem put_self (l : Ledger) (s : Slot) : l.put s (l.holds s) = l := by
  simp [put]

/-- The code puts the block into the slot `s`; if it was taken from `s`, nothing is hidden any more. -/
theorem Owned.place (h : Owned hide l) (hd : Loose hide l d) {hide' : Option Cache}
    (hh : hide' = hide ∨ hide'.map Slot.cache ≠ some s ∧ hide.map Slot.cache = some s ∧ hide' = none) :
    Owned hide' (l.put s (some d)) := by
  have hother : ∀ t, t ≠ s → (l.put s (some d)).own hide' t = l.own hide t := by
    intro t ht
    rw [own_put_ne ht]
    rcases hh with rfl | ⟨-, hs, rfl⟩
    · rfl
    · unfold own
      rw [if_neg (by simp), if_neg (by rw [hs]; simpa using ht.symm)]
  rcases hd with hd | ⟨hout, hfree⟩
  · -- a static block has no owner
    have hs : ∀ t e, (l.put s (some d)).own hide' t = some e → l.own hide t = some e := by
      intro t e ht
      by_cases hts : t = s
      · rw [own_eq_some, hts, put_holds_self, some.injEq] at ht
        obtain ⟨-, rfl, hn⟩ := ht
        exact absurd hd hn
      · rw [hother t hts] at ht
        exact ht
    exact ⟨h.inv, h.static, fun t e ht => h.out t e (hs t e ht), h.excl.shrink hs⟩
  · have hs : ∀ t e, (l.put s (some d)).own hide' t = some e → update (l.own hide) s (some d) t = some e := by
      intro t e ht
      rw [update_apply]
      split_ifs with hts
      · rw [own_eq_some, hts, put_holds_self] at ht
        exact ht.2.1
      · rw [hother t hts] at ht
        exact ht
    refine ⟨h.inv, h.static, fun t e ht => ?_, (h.excl.place hfree s).shrink hs⟩
    have hte := hs t e ht
    rw [update_apply] at hte
    split_ifs at hte with hts
    · cases hte
      exact hout
    · exact h.out t e hte

/-- The code takes the block of a read cache, which still points to it. -/
theorem Owned.lend (h : Owned none l) {k : Cache} (hd : l.holds (.cache k) = some d) :
    Owned (some k) l ∧ Loose (some k) l d := by
  have hs : ∀ s e, l.own (some k) s = some e → l.own none s = some e := by
    intro s e he
    rw [own_eq_some] at he ⊢
    exact ⟨by simp, he.2⟩
  refine ⟨⟨h.inv, h.static, fun s e he => h.out s e (hs s e he), h.excl.shrink hs⟩, ?_⟩
  by_cases hst : l.mem.Static d
  · exact .inl hst
  · have hk : l.own none (.cache k) = some d := own_eq_some.mpr ⟨by simp, hd, hst⟩
    refine .inr ⟨h.out _ _ hk, fun s hsd => ?_⟩
    obtain rfl := h.excl hk (hs s d hsd)
    exact (own_eq_some.mp hsd).1 rfl

/-! ## The pool -/

/-- The pool changes, and the slots stay. -/
theorem own_setMem {mem : MemPool} (hs : ∀ e, mem.Static e ↔ l.mem.Static e) (s : Slot) :
    (l.setMem mem).own hide s = l.own hide s := by
  apply ext
  intro e
  rw [own_eq_some, own_eq_some]
  show _ ∧ _ ∧ ¬mem.Static e ↔ _
  rw [hs]
  rfl

theorem Owned.getData (h : Owned hide l) {sSize : Nat} {mem : MemPool} (hg : l.mem.getData sSize = some (d, mem)) :
    Owned hide (l.setMem mem) ∧ Loose hide (l.setMem mem) d ∧
      ∀ e, Loose hide l e → Loose hide (l.setMem mem) e ∧ (l.mem.Static e ∨ e ≠ d) := by
  have hgot := getData_got h.inv hg
  have hown : ∀ s, (l.setMem mem).own hide s = l.own hide s := own_setMem hgot.static
  refine ⟨⟨hgot.inv, ?_, fun s e he => ?_, ?_⟩, .inr ⟨(hgot.out d).mpr (.inr rfl), fun s hs => ?_⟩, ?_⟩
  · exact ⟨(hgot.static _).mpr h.static.1, (hgot.static _).mpr h.static.2⟩
  · rw [hown] at he
    exact (hgot.out e).mpr (.inl (h.out s e he))
  · exact h.excl.shrink fun s e he => by rw [← hown]; exact he
  · rw [hown] at hs
    exact hgot.old (h.out s d hs)
  · rintro e (hst | ⟨hout, hfree⟩)
    · exact ⟨.inl ((hgot.static e).mpr hst), .inl hst⟩
    · refine ⟨.inr ⟨(hgot.out e).mpr (.inl hout), fun s hs => hfree s (by rw [← hown]; exact hs)⟩, .inr ?_⟩
      rintro rfl
      exact hgot.old hout

theorem Owned.release (h : Owned hide l) (hd : Loose hide l d) {mem : MemPool} (hr : l.mem.release d = some mem) :
    Owned hide (l.setMem mem) ∧ ∀ e, Loose hide l e → l.mem.Static d ∨ e ≠ d → Loose hide (l.setMem mem) e := by
  have hret := release_returned h.inv (hd.imp id And.left) hr
  have hown : ∀ s, (l.setMem mem).own hide s = l.own hide s := own_setMem hret.static
  have hout : ∀ e, l.mem.Out e → l.mem.Static d ∨ e ≠ d → mem.Out e :=
    fun e ho he => (hret.out e he.symm).mpr ho
  refine ⟨⟨hret.inv, ?_, fun s e he => ?_, ?_⟩, ?_⟩
  · exact ⟨(hret.static _).mpr h.static.1, (hret.static _).mpr h.static.2⟩
  · rw [hown] at he
    refine hout e (h.out s e he) ?_
    rcases hd with hst | ⟨-, hfree⟩
    · exact .inl hst
    · refine .inr ?_
      rintro rfl
      exact hfree s he
  · exact h.excl.shrink fun s e he => by rw [← hown]; exact he
  · rintro e (hst | ⟨ho, hfree⟩) he
    · exact .inl ((hret.static e).mpr hst)
    · exact .inr ⟨hout e ho he, fun s hs => hfree s (by rw [← hown]; exact hs)⟩

/-! ## Read caches and identities -/

/-- A read cache gets another block; its old one may have been handed over before, or is released. -/
theorem Owned.reset {k : Cache} {old sSize : Nat} {bRelease : Bool} {mem mem' : MemPool} (h : Owned none l)
    (hold : l.holds (.cache k) = some old) (hg : l.mem.getData sSize = some (d, mem))
    (hr : (if bRelease then mem.release old else some mem) = some mem') :
    Owned none ((l.setMem mem').put (.cache k) (some d)) := by
  obtain ⟨hlend, hloose⟩ := h.lend hold
  obtain ⟨h₁, hd, hkeep⟩ := hlend.getData hg
  have hback : ∀ {l' : Ledger}, Owned (some k) l' → Loose (some k) l' d → Owned none (l'.put (.cache k) (some d)) :=
    fun h' hd' => h'.place hd' (.inr ⟨by simp, rfl, rfl⟩)
  cases bRelease with
  | false =>
    cases hr
    exact hback h₁ hd
  | true =>
    obtain ⟨hold₁, hne⟩ := hkeep old hloose
    obtain ⟨h₂, hkeep₂⟩ := h₁.release hold₁ hr
    have hst : (l.setMem mem).mem.Static old ∨ d ≠ old := by
      refine hne.imp (fun hst => ?_) Ne.symm
      exact ((getData_got h.inv hg).static old).mpr hst
    exact hback h₂ (hkeep₂ d hd hst)

/-- The block of the cache has been handed over. -/
theorem Owned.replace {k : Cache} {sSize : Nat} {mem : MemPool} (h : Owned (some k) l)
    (hg : l.mem.getData sSize = some (d, mem)) : Owned none ((l.setMem mem).put (.cache k) (some d)) := by
  obtain ⟨h₁, hd, -⟩ := h.getData hg
  exact h₁.place hd (.inr ⟨by simp, rfl, rfl⟩)

/-- The block of a slot is released. -/
theorem Owned.free (h : Owned hide l) (hs : hide.map Slot.cache ≠ some s) (hd : l.holds s = some d) {mem : MemPool}
    (hr : l.mem.release d = some mem) :
    Owned hide ((l.setMem mem).put s none) ∧ ∀ e, Loose hide l e → Loose hide ((l.setMem mem).put s none) e := by
  have h₁ := h.put_none s
  by_cases hst : l.mem.Static d
  · obtain ⟨h₂, hkeep⟩ := h₁.release (.inl hst) hr
    exact ⟨h₂, fun e he => hkeep e (he.put_none s) (.inl hst)⟩
  · have hown : l.own hide s = some d := own_eq_some.mpr ⟨hs, hd, hst⟩
    have hloose : Loose hide (l.put s none) d := by
      refine .inr ⟨h.out s d hown, fun t ht => ?_⟩
      have hts := h.excl (own_put_none t ht) hown
      rw [hts, own_eq_some, put_holds_self] at ht
      exact absurd ht.2.1 (by simp)
    obtain ⟨h₂, hkeep⟩ := h₁.release hloose hr
    refine ⟨h₂, fun e he => hkeep e (he.put_none s) ?_⟩
    rcases he with he | ⟨-, hfree⟩
    · refine .inr ?_
      rintro rfl
      exact hst he
    · refine .inr ?_
      rintro rfl
      exact hfree s hown

end RedisProxy.Ledger
