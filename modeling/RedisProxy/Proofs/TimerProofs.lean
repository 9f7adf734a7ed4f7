import RedisProxy.Timer

/-!
# Proofs: the two lists of a timer

A meta of the pool is in the used list, in the free list, or in the hands of an operation. `AddTimer` takes a meta from the
free list and puts it in front of the used one, `DelTimer` goes the other way. `Loop` removes only the meta at which it is,
and the callbacks only put metas in front of the list, so the metas behind it stay.
-/

namespace RedisProxy

open Lib List Option

namespace TimerAction

variable {D : Type}

/-- What the action makes of a meta in the used list. -/
def effect (q : Nat) (m : TimerMeta D) : TimerAction D → TimerMeta D
  | .addTimer .. => m
  | .finish p => if q = p then { m with bReuse := false, bInUse := false } else m
  | .setTriggerMS p ulMS => if q = p then { m with ulNextMS := ulMS } else m
  | .addTriggerMS p ulMS => if q = p then { m with ulNextMS := uint64 (m.ulNextMS + ulMS) } else m

def isAdd : TimerAction D → Bool
  | .addTimer .. => true
  | _ => false

end TimerAction

namespace Timers

variable {D : Type} {poolSize : Nat} {t : Timers D} {held used free a b : List Nat} {p : Nat}
variable {t' : Timers D}

def next (t : Timers D) (p : Nat) : Option Nat := (t.metas p).pNextMeta

def prev (t : Timers D) (p : Nat) : Option Nat := (t.metas p).pPreMeta

theorem setMeta_metas (t : Timers D) (p : Nat) (f : TimerMeta D → TimerMeta D) (q : Nat) :
    (t.setMeta p f).metas q = if q = p then f (t.metas q) else t.metas q := by
  unfold setMeta
  dsimp only
  rw [Function.update_apply]
  split_ifs with h
  · rw [h]
  · rfl

theorem setMetaIf_metas (t : Timers D) (o : Option Nat) (f : TimerMeta D → TimerMeta D) (q : Nat) :
    (t.setMetaIf o f).metas q = if o = some q then f (t.metas q) else t.metas q := by
  cases o with
  | none => simp [setMetaIf]
  | some p => simp only [setMetaIf, setMeta_metas, some.injEq, eq_comm]

section

variable (t : Timers D) (o : Option Nat) (p : Nat) (f : TimerMeta D → TimerMeta D)

@[simp]
theorem setMeta_pFreeMeta : (t.setMeta p f).pFreeMeta = t.pFreeMeta := rfl

@[simp]
theorem setMeta_pUsingMeta : (t.setMeta p f).pUsingMeta = t.pUsingMeta := rfl

@[simp]
theorem setMeta_live : (t.setMeta p f).live = t.live := rfl

@[simp]
theorem setMeta_newMeta : (t.setMeta p f).newMeta = t.newMeta := rfl

@[simp]
theorem setMeta_nextSerial : (t.setMeta p f).nextSerial = t.nextSerial := rfl

@[simp]
theorem setMeta_log : (t.setMeta p f).log = t.log := rfl

@[simp]
theorem setMetaIf_pFreeMeta : (t.setMetaIf o f).pFreeMeta = t.pFreeMeta := by cases o <;> rfl

@[simp]
theorem setMetaIf_pUsingMeta : (t.setMetaIf o f).pUsingMeta = t.pUsingMeta := by cases o <;> rfl

@[simp]
theorem setMetaIf_live : (t.setMetaIf o f).live = t.live := by cases o <;> rfl

@[simp]
theorem setMetaIf_newMeta : (t.setMetaIf o f).newMeta = t.newMeta := by cases o <;> rfl

@[simp]
theorem setMetaIf_nextSerial : (t.setMetaIf o f).nextSerial = t.nextSerial := by cases o <;> rfl

@[simp]
theorem setMetaIf_log : (t.setMetaIf o f).log = t.log := by cases o <;> rfl

end

/-- A meta without its links. -/
def body (t : Timers D) (p : Nat) : TimerMeta D := { t.metas p with pPreMeta := none, pNextMeta := none }

/-- The two lists, and the metas that an operation holds outside of them. -/
structure Lists (poolSize : Nat) (t : Timers D) (held used free : List Nat) : Prop where
  usedList : Linked t.next t.prev none t.pUsingMeta used
  freeList : Linked t.next t.prev none t.pFreeMeta free
  apart : ∀ q ∈ used, q ∉ free
  outside : ∀ q ∈ held, q ∉ used ∧ q ∉ free
  pool : ∀ q < poolSize, q ∈ held ∨ q ∈ used ∨ q ∈ free
  freePool : ∀ q ∈ free, q < poolSize
  isPool : ∀ q, (t.body q).bPoolMeta = decide (q < poolSize)
  live : ∀ q, q < poolSize ∨ q ∈ held ∨ q ∈ used → t.live q = true ∧ q < t.newMeta
  inUse : ∀ q, (t.body q).bInUse = true → q ∈ held ∨ q ∈ used

/-- An operation that changes no link. -/
theorem Lists.frame (h : t.Lists poolSize held used free) (hnext : t'.next = t.next) (hprev : t'.prev = t.prev)
    (husing : t'.pUsingMeta = t.pUsingMeta) (hfree : t'.pFreeMeta = t.pFreeMeta) (hlive : t'.live = t.live)
    (hnew : t'.newMeta = t.newMeta) (hpool : ∀ q, (t'.body q).bPoolMeta = (t.body q).bPoolMeta)
    (hinUse : ∀ q, (t'.body q).bInUse = true → q ∈ held ∨ (t.body q).bInUse = true) : t'.Lists poolSize held used free where
  usedList := by rw [hnext, hprev, husing]; exact h.usedList
  freeList := by rw [hnext, hprev, hfree]; exact h.freeList
  apart := h.apart
  outside := h.outside
  pool := h.pool
  freePool := h.freePool
  isPool q := (hpool q).trans (h.isPool q)
  live q hq := by rw [hlive, hnew]; exact h.live q hq
  inUse q hq := (hinUse q hq).elim .inl (h.inUse q)

/-! ## `AddTimer` -/

/-- The meta that `AddTimer` uses. -/
def taken (t : Timers D) : Nat := t.pFreeMeta.getD t.newMeta

theorem takeMeta_fst (t : Timers D) : t.takeMeta.1 = t.taken := by
  unfold takeMeta taken
  cases t.pFreeMeta <;> rfl

theorem takeMeta_new (h : t.pFreeMeta = none) :
    t.takeMeta.2 = { t with
      metas := Function.update t.metas t.newMeta {}
      live := Function.update t.live t.newMeta true
      newMeta := t.newMeta + 1 } := by
  unfold takeMeta
  rw [h]

theorem takeMeta_free (h : t.pFreeMeta = some p) :
    t.takeMeta.2 = ({ t with pFreeMeta := t.next p } : Timers D).setMetaIf (t.next p) fun m => { m with pPreMeta := none } := by
  unfold takeMeta
  rw [h]
  rfl

theorem takeMeta_body (t : Timers D) (q : Nat) :
    t.takeMeta.2.body q = if t.pFreeMeta = none ∧ q = t.newMeta then {} else t.body q := by
  cases hhead : t.pFreeMeta with
  | none =>
    rw [takeMeta_new hhead]
    simp only [body, Function.update_apply, true_and]
    split_ifs <;> rfl
  | some p =>
    rw [takeMeta_free hhead]
    simp only [body, setMetaIf_metas]
    split_ifs <;> simp_all

/-- With no free meta, `AddTimer` takes a new one. -/
theorem Lists.takeNew (h : t.Lists poolSize [] used []) : t.takeMeta.2.Lists poolSize [t.taken] used [] := by
  have hhead : t.pFreeMeta = none := h.freeList
  have hnew : t.taken = t.newMeta := by rw [taken, hhead]; rfl
  have hold : ∀ q, q < poolSize ∨ q ∈ used → q ≠ t.newMeta := fun q hq => (h.live q (by simpa using hq)).2.ne
  have hbody := t.takeMeta_body
  rw [takeMeta_new hhead] at hbody ⊢
  obtain ⟨hused, -, -, -, hpool, -, hisPool, hlive, hinUse⟩ := h
  constructor
  case usedList => exact hused.congr fun q hq => by simp [next, prev, hold q (.inr hq)]
  case freeList => exact hhead
  all_goals grind

/-- `AddTimer` takes the first free meta. -/
theorem Lists.takeFree (h : t.Lists poolSize [] used (p :: free)) : t.takeMeta.2.Lists poolSize [t.taken] used free := by
  have hhead : t.pFreeMeta = some p := h.freeList.1
  have hp : t.taken = p := by rw [taken, hhead]; rfl
  have hpfree : p ∉ free := (nodup_cons.mp h.freeList.nodup).1
  have hnext : t.next p = free.head? := h.freeList.2.2.head_eq
  have hbody := t.takeMeta_body
  rw [takeMeta_free hhead] at hbody ⊢
  obtain ⟨hused, hfree, hapart, -, hpool, hfreePool, hisPool, hlive, hinUse⟩ := h
  constructor
  case usedList =>
    rw [setMetaIf_pUsingMeta]
    refine hused.congr fun q hq => ?_
    have hne : t.next p ≠ some q := by
      intro hq'
      rw [hnext] at hq'
      exact hapart q hq (mem_cons_of_mem _ (mem_of_mem_head? hq'))
    simp only [next, prev, setMetaIf_metas] at hne ⊢
    rw [if_neg hne]
    exact ⟨rfl, rfl⟩
  case freeList =>
    rw [setMetaIf_pFreeMeta]
    refine Linked.pop (hhead ▸ hfree) (fun q _ => ?_) (fun q _ => ?_)
    · simp only [next, setMetaIf_metas, apply_ite TimerMeta.pNextMeta, ite_self]
    · simp only [prev, next, setMetaIf_metas, apply_ite TimerMeta.pPreMeta]
      congr
  all_goals grind [setMetaIf_live, setMetaIf_newMeta]

theorem Lists.takeMeta (h : t.Lists poolSize [] used free) : t.takeMeta.2.Lists poolSize [t.taken] used free.tail := by
  cases free with
  | nil => exact h.takeNew
  | cons p free => exact h.takeFree

/-- An assignment that changes no link, and puts only a meta into use that the operation holds. -/
theorem Lists.setMeta (h : t.Lists poolSize held used free) (p : Nat) {f : TimerMeta D → TimerMeta D}
    (hf : ∀ m, (f m).pNextMeta = m.pNextMeta ∧ (f m).pPreMeta = m.pPreMeta ∧ (f m).bPoolMeta = m.bPoolMeta)
    (hinUse : p ∈ held ∨ ∀ m, (f m).bInUse = true → m.bInUse = true) : (t.setMeta p f).Lists poolSize held used free := by
  refine h.frame ?_ ?_ rfl rfl rfl rfl ?_ ?_
  · funext q
    simp only [next, setMeta_metas, apply_ite TimerMeta.pNextMeta, hf, ite_self]
  · funext q
    simp only [prev, setMeta_metas, apply_ite TimerMeta.pPreMeta, hf, ite_self]
  all_goals grind [body, setMeta_metas]

/-- The links after a meta became the first one of the used list. -/
theorem linkUsing_next (t : Timers D) (p q : Nat) : (t.linkUsing p).next q = if q = p then t.pUsingMeta else t.next q := by
  simp only [linkUsing, next, setMeta_metas, setMetaIf_metas, apply_ite TimerMeta.pNextMeta, ite_self]

theorem linkUsing_prev (hp : t.pUsingMeta ≠ some p) (q : Nat) :
    (t.linkUsing p).prev q = if q = p then none else if t.pUsingMeta = some q then some p else t.prev q := by
  simp only [linkUsing, prev, setMeta_metas, setMetaIf_metas, setMeta_pUsingMeta, apply_ite TimerMeta.pPreMeta]
  split_ifs with h h'
  · exact absurd (h' ▸ h) hp
  all_goals rfl

@[simp]
theorem linkUsing_body (t : Timers D) (p q : Nat) : (t.linkUsing p).body q = t.body q := by
  simp only [linkUsing, body, setMeta_metas, setMetaIf_metas]
  split_ifs <;> rfl

theorem linkUsing_rest (t : Timers D) (p : Nat) : (t.linkUsing p).pFreeMeta = t.pFreeMeta ∧ (t.linkUsing p).live = t.live ∧
    (t.linkUsing p).newMeta = t.newMeta ∧ (t.linkUsing p).nextSerial = t.nextSerial ∧ (t.linkUsing p).log = t.log := by
  simp [linkUsing]

/-- The meta comes in front of the used list. -/
theorem Lists.linkUsing (h : t.Lists poolSize [p] used free) : (t.linkUsing p).Lists poolSize [] (p :: used) free := by
  obtain ⟨hpused, hpfree⟩ := h.outside p (mem_singleton_self _)
  have hhead := h.usedList.head_eq
  have hfirst : t.pUsingMeta ≠ some p := fun hp => hpused (mem_of_mem_head? (hhead ▸ hp))
  have hne : ∀ q ∈ used, q ≠ p := fun q hq hqp => hpused (hqp ▸ hq)
  have hbody := t.linkUsing_body p
  obtain ⟨hpFree, hl, hnew, -, -⟩ := t.linkUsing_rest p
  obtain ⟨hused, hfree, hapart, -, hpool, hfreePool, hisPool, hlive, hinUse⟩ := h
  constructor
  case usedList =>
    refine hused.push ?_ ?_ (fun q hq => ?_) (fun q hq => ?_)
    · rw [linkUsing_next, if_pos rfl]
    · rw [linkUsing_prev hfirst, if_pos rfl]
    · rw [linkUsing_next, if_neg (hne q hq)]
    · rw [linkUsing_prev hfirst, if_neg (hne q hq)]
  case freeList =>
    rw [hpFree]
    refine hfree.congr fun q hq => ?_
    have hqp : q ≠ p := fun hqp => hpfree (hqp ▸ hq)
    have hq' : t.pUsingMeta ≠ some q := fun hq' => hapart q (mem_of_mem_head? (hhead ▸ hq')) hq
    rw [linkUsing_next, linkUsing_prev hfirst, if_neg hqp, if_neg hqp, if_neg hq']
    exact ⟨rfl, rfl⟩
  all_goals grind

/-- `AddTimer` puts the meta that it takes in front of the used list. -/
theorem Lists.addTimer (h : t.Lists poolSize [] used free) (pCB : D) (ulNow ulMS : Nat) (bReuse : Bool) :
    (t.addTimer pCB ulNow ulMS bReuse).2.Lists poolSize [] (t.taken :: used) free.tail := by
  unfold Timers.addTimer
  dsimp only
  rw [takeMeta_fst]
  have huse := h.takeMeta.setMeta t.taken (f := fun m => { m with
    pCB := some pCB, ulMS, ulNextMS := uint64 (ulNow + ulMS), bReuse, bInUse := true, serial := t.takeMeta.2.nextSerial,
    once := !bReuse }) (fun m => ⟨rfl, rfl, rfl⟩) (.inl (mem_singleton_self _))
  exact Lists.linkUsing (huse.frame rfl rfl rfl rfl rfl rfl (fun _ => rfl) fun _ => .inr)

/-- The meta that `AddTimer` takes is not in use. -/
theorem Lists.taken_notMem (h : t.Lists poolSize [] used free) : t.taken ∉ used :=
  (h.takeMeta.outside _ (mem_singleton_self _)).1

/-! ## `DelTimer` -/

section

variable (hp : t.prev p ≠ some p)
include hp

theorem unlink_next (q : Nat) : (t.unlink p).next q = if t.prev p = some q then t.next p else t.next q := by
  unfold next prev at *
  simp [unlink, apply_ite Timers.metas, setMeta_metas, setMetaIf_metas, apply_ite TimerMeta.pNextMeta, hp]

theorem unlink_prev (q : Nat) : (t.unlink p).prev q = if t.next p = some q then t.prev p else t.prev q := by
  unfold next prev at *
  simp [unlink, apply_ite Timers.metas, setMeta_metas, setMetaIf_metas, apply_ite TimerMeta.pPreMeta, hp]

end

theorem unlink_pUsingMeta (t : Timers D) (p : Nat) :
    (t.unlink p).pUsingMeta = if t.pUsingMeta = some p then t.next p else t.pUsingMeta := by
  simp [unlink, next, apply_ite Timers.pUsingMeta, setMeta_metas, setMetaIf_metas]

theorem unlink_body (t : Timers D) (p q : Nat) :
    (t.unlink p).body q = if q = p then { t.body q with bInUse := false } else t.body q := by
  simp only [unlink, body, apply_ite Timers.metas, ite_self, setMeta_metas, setMetaIf_metas]
  split_ifs <;> rfl

theorem unlink_rest (t : Timers D) (p : Nat) : (t.unlink p).pFreeMeta = t.pFreeMeta ∧ (t.unlink p).live = t.live ∧
    (t.unlink p).newMeta = t.newMeta ∧ (t.unlink p).nextSerial = t.nextSerial ∧ (t.unlink p).log = t.log := by
  simp [unlink, apply_ite Timers.pFreeMeta, apply_ite Timers.live, apply_ite Timers.newMeta, apply_ite Timers.nextSerial,
    apply_ite Timers.log]

/-- The meta leaves the used list. -/
theorem Lists.unlink (h : t.Lists poolSize [] (a ++ p :: b) free) :
    (t.unlink p).Lists poolSize [p] (a ++ b) free := by
  have hpab : p ∉ a ++ b := (nodup_cons.mp (nodup_middle.mp h.usedList.nodup)).1
  have hprev : ∀ q, t.prev p = some q → q ∈ a := by
    intro q hq
    rw [h.usedList.prev_eq, or_none] at hq
    exact mem_of_getLast? hq
  have hnext : ∀ q, t.next p = some q → q ∈ b := by
    intro q hq
    rw [h.usedList.next_eq] at hq
    exact mem_of_mem_head? hq
  have hp : t.prev p ≠ some p := fun hp => hpab (mem_append_left _ (hprev p hp))
  have hbody := t.unlink_body p
  obtain ⟨hpFree, hl, hnew, -, -⟩ := t.unlink_rest p
  obtain ⟨hused, hfree, hapart, -, hpool, hfreePool, hisPool, hlive, hinUse⟩ := h
  constructor
  case usedList =>
    rw [unlink_pUsingMeta]
    exact hused.remove (fun q _ => unlink_next hp q) (fun q _ => unlink_prev hp q)
  case freeList =>
    rw [hpFree]
    refine hfree.congr fun q hq => ?_
    have hq' : q ∉ a ∧ q ∉ b := by grind
    rw [unlink_next hp, unlink_prev hp, if_neg fun hqp => hq'.1 (hprev q hqp), if_neg fun hqp => hq'.2 (hnext q hqp)]
    exact ⟨rfl, rfl⟩
  all_goals grind

theorem recycle_next (hpool : (t.body p).bPoolMeta = true) (hfree : t.pFreeMeta ≠ none ∨ t.next p = none) (q : Nat) :
    (t.recycle p).next q = if q = p then t.pFreeMeta else t.next q := by
  have hpool : (t.metas p).bPoolMeta = true := hpool
  by_cases hnone : t.pFreeMeta = none
  · have hnext : (t.metas p).pNextMeta = none := hfree.resolve_left (fun h => h hnone)
    simp only [recycle, hpool, hnone, if_true, next, setMetaIf_metas, setMeta_metas, setMeta_pFreeMeta,
      apply_ite TimerMeta.pNextMeta, ite_self]
    split_ifs with hq
    · rw [hq, hnext]
    · rfl
  · simp only [recycle, hpool, if_true, next, setMeta_pFreeMeta, hnone, if_false, setMetaIf_metas, setMeta_metas,
      apply_ite TimerMeta.pNextMeta, ite_self]

theorem recycle_prev (hpool : (t.body p).bPoolMeta = true) (hp : t.pFreeMeta ≠ some p) (q : Nat) :
    (t.recycle p).prev q = if q = p then none else if t.pFreeMeta = some q then some p else t.prev q := by
  have hpool : (t.metas p).bPoolMeta = true := hpool
  by_cases hq : q = p
  · subst hq
    by_cases hnone : t.pFreeMeta = none <;>
      simp [recycle, hpool, prev, setMetaIf_metas, setMeta_metas, hnone, hp]
  · by_cases hnone : t.pFreeMeta = none <;>
      simp [recycle, hpool, prev, setMetaIf_metas, setMeta_metas, hnone, hq, apply_ite TimerMeta.pPreMeta]

@[simp]
theorem recycle_body (t : Timers D) (p q : Nat) : (t.recycle p).body q = t.body q := by
  unfold recycle
  by_cases hpool : (t.metas p).bPoolMeta = true
  · by_cases hnone : t.pFreeMeta = none
    · simp only [hpool, hnone, if_true, body, setMetaIf_metas, setMeta_metas, setMeta_pFreeMeta]
      split_ifs <;> rfl
    · simp only [hpool, hnone, if_true, if_false, body, setMetaIf_metas, setMeta_metas, setMeta_pFreeMeta]
      split_ifs <;> rfl
  · simp only [if_neg hpool, body]

theorem recycle_rest (t : Timers D) (p : Nat) : (t.recycle p).pUsingMeta = t.pUsingMeta ∧
    (t.recycle p).newMeta = t.newMeta ∧ (t.recycle p).nextSerial = t.nextSerial ∧ (t.recycle p).log = t.log := by
  unfold recycle
  by_cases hnone : t.pFreeMeta = none <;> split_ifs <;> simp [hnone]

/-- A meta of the pool becomes the first free one. Without a free meta it keeps its link, which has to be null then. -/
theorem Lists.recyclePool (h : t.Lists poolSize [p] used free) (hp : (t.body p).bInUse = false) (hpool : p < poolSize)
    (hroom : t.pFreeMeta ≠ none ∨ t.next p = none) : (t.recycle p).Lists poolSize [] used (p :: free) := by
  obtain ⟨hpused, hpfree⟩ := h.outside p (mem_singleton_self _)
  have hpMeta : (t.body p).bPoolMeta = true := (h.isPool p).trans (decide_eq_true hpool)
  have hhead := h.freeList.head_eq
  have hfirst : t.pFreeMeta ≠ some p := fun hp => hpfree (mem_of_mem_head? (hhead ▸ hp))
  have hne : ∀ q ∈ free, q ≠ p := fun q hq hqp => hpfree (hqp ▸ hq)
  have hpFree : (t.recycle p).pFreeMeta = some p ∧ (t.recycle p).live = t.live := by
    unfold Timers.recycle
    rw [if_pos (show (t.metas p).bPoolMeta = true from hpMeta)]
    by_cases hnone : t.pFreeMeta = none <;> simp [hnone]
  have hbody := t.recycle_body p
  obtain ⟨husing, hnew, -, -⟩ := t.recycle_rest p
  obtain ⟨hused, hfree, hapart, -, hall, hfreePool, hisPool, hlive, hinUse⟩ := h
  constructor
  case usedList =>
    rw [husing]
    refine hused.congr fun q hq => ?_
    have hq' : t.pFreeMeta ≠ some q := fun hq' => hapart q hq (mem_of_mem_head? (hhead ▸ hq'))
    have hqp : q ≠ p := fun hqp => hpused (hqp ▸ hq)
    rw [recycle_next hpMeta hroom, recycle_prev hpMeta hfirst, if_neg hqp, if_neg hqp, if_neg hq']
    exact ⟨rfl, rfl⟩
  case freeList =>
    rw [hpFree.1]
    refine hfree.push ?_ ?_ (fun q hq => ?_) (fun q hq => ?_)
    · rw [recycle_next hpMeta hroom, if_pos rfl]
    · rw [recycle_prev hpMeta hfirst, if_pos rfl]
    · rw [recycle_next hpMeta hroom, if_neg (hne q hq)]
    · rw [recycle_prev hpMeta hfirst, if_neg (hne q hq)]
  all_goals grind

/-- A meta outside of the pool is deleted. -/
theorem Lists.recycleNew (h : t.Lists poolSize [p] used free) (hp : (t.body p).bInUse = false) (hpool : ¬ p < poolSize) :
    (t.recycle p).Lists poolSize [] used free := by
  have hpMeta : ¬ (t.metas p).bPoolMeta = true := by
    have hisPool := h.isPool p
    rw [decide_eq_false hpool] at hisPool
    exact ne_true_of_eq_false hisPool
  unfold Timers.recycle
  rw [if_neg hpMeta]
  obtain ⟨hused, hfree, hapart, hout, hall, hfreePool, hisPool, hlive, hinUse⟩ := h
  exact ⟨hused, hfree, hapart, by simp, by grind, hfreePool, hisPool, by grind, by grind [body]⟩

/-- `DelTimer` leaves well-formed lists if a meta of the pool finds a free one before it or was the last one in use. -/
theorem Lists.delTimer (h : t.Lists poolSize [] (a ++ p :: b) free)
    (hroom : p < poolSize → t.pFreeMeta ≠ none ∨ t.next p = none) :
    ∃ free', (t.delTimer p).Lists poolSize [] (a ++ b) free' := by
  have hinUse : ((t.unlink p).body p).bInUse = false := by rw [unlink_body, if_pos rfl]
  have hprev : t.prev p ≠ some p := by
    intro hp
    rw [h.usedList.prev_eq, or_none] at hp
    have hnodup := nodup_middle.mp h.usedList.nodup
    exact (nodup_cons.mp hnodup).1 (mem_append_left _ (mem_of_getLast? hp))
  by_cases hp : p < poolSize
  · refine ⟨p :: free, h.unlink.recyclePool hinUse hp ?_⟩
    rw [(t.unlink_rest p).1, unlink_next hprev, if_neg hprev]
    exact hroom hp
  · exact ⟨free, h.unlink.recycleNew hinUse hp⟩

/-! ## Callbacks -/

theorem addTimer_body (t : Timers D) (pCB : D) (ulNow ulMS : Nat) (bReuse : Bool) {q : Nat} (hq : q ≠ t.taken) :
    (t.addTimer pCB ulNow ulMS bReuse).2.body q = t.body q := by
  have htake := t.takeMeta_body q
  rw [if_neg fun h => hq (by rw [taken, h.1, h.2]; rfl)] at htake
  rw [addTimer, linkUsing_body, ← htake]
  simp only [use, body, setMeta_metas, takeMeta_fst, if_neg hq]

/-- What an action does to the lists and to a meta in the used one. -/
theorem Lists.act (h : t.Lists poolSize [] used free) {action : TimerAction D} (ha : t.act action = some t') :
    (∃ new, new.length = [action].countP TimerAction.isAdd ∧ t'.Lists poolSize [] (new ++ used) (free.drop new.length)) ∧
      ∀ q ∈ used, t'.body q = action.effect q (t.body q) := by
  cases action with
  | addTimer pCB ulNow ulMS bReuse =>
    cases ha
    refine ⟨⟨[t.taken], rfl, ?_⟩, fun q hq => ?_⟩
    · rw [length_singleton, drop_one]
      exact h.addTimer ..
    · exact addTimer_body t _ _ _ _ fun hqt => h.taken_notMem (hqt ▸ hq)
  | finish p =>
    simp only [Timers.act, ite_none_right_eq_some, some.injEq] at ha
    obtain ⟨-, rfl⟩ := ha
    refine ⟨⟨[], rfl, ?_⟩, fun q _ => ?_⟩
    · have hset := h.setMeta p (f := fun m => { m with bReuse := false, bInUse := false }) (fun _ => ⟨rfl, rfl, rfl⟩)
        (.inr fun _ hm => nomatch hm)
      exact hset.frame rfl rfl rfl rfl rfl rfl (fun _ => rfl) fun _ => .inr
    · simp only [Timers.finish, body, setMeta_metas, TimerAction.effect]
      split_ifs <;> rfl
  | setTriggerMS p ulMS =>
    simp only [Timers.act, ite_none_right_eq_some, some.injEq] at ha
    obtain ⟨-, rfl⟩ := ha
    refine ⟨⟨[], rfl, h.setMeta p (fun _ => ⟨rfl, rfl, rfl⟩) (.inr fun _ => id)⟩, fun q _ => ?_⟩
    simp only [Timers.setTriggerMS, body, setMeta_metas, TimerAction.effect]
    split_ifs <;> rfl
  | addTriggerMS p ulMS =>
    simp only [Timers.act, ite_none_right_eq_some, some.injEq] at ha
    obtain ⟨-, rfl⟩ := ha
    refine ⟨⟨[], rfl, h.setMeta p (fun _ => ⟨rfl, rfl, rfl⟩) (.inr fun _ => id)⟩, fun q _ => ?_⟩
    simp only [Timers.addTriggerMS, body, setMeta_metas, TimerAction.effect]
    split_ifs <;> rfl

/-- What a callback does. -/
theorem Lists.acts {actions : List (TimerAction D)} (h : t.Lists poolSize [] used free)
    (ha : t.acts actions = some t') :
    (∃ new, new.length = actions.countP TimerAction.isAdd ∧ t'.Lists poolSize [] (new ++ used) (free.drop new.length)) ∧
      ∀ q ∈ used, t'.body q = actions.foldl (TimerAction.effect q) (t.body q) := by
  induction actions generalizing t used free with
  | nil =>
    cases ha
    exact ⟨⟨[], rfl, h⟩, fun _ _ => rfl⟩
  | cons action actions ih =>
    obtain ⟨t₁, h₁, ha⟩ := bind_eq_some_iff.mp ha
    obtain ⟨⟨new₁, hlen₁, hlists₁⟩, hbody₁⟩ := h.act h₁
    obtain ⟨⟨new₂, hlen₂, hlists₂⟩, hbody₂⟩ := ih hlists₁ ha
    refine ⟨⟨new₂ ++ new₁, ?_, ?_⟩, fun q hq => ?_⟩
    · rw [length_append, hlen₁, hlen₂, add_comm]
      exact countP_append.symm
    · rw [drop_drop] at hlists₂
      rw [append_assoc, length_append, add_comm]
      exact hlists₂
    · rw [hbody₂ q (mem_append_right _ hq), hbody₁ q hq, foldl_cons]

end Timers

end RedisProxy
