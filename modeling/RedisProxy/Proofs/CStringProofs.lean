import RedisProxy.CString
import RedisProxy.Proofs.PackageMsgProofs

/-!
# What the functions for texts find

`Holds mem p bs` says that the bytes `bs` stand at `p`. A text ends at its null byte, so what a function
finds depends on the bytes in front of it only.
-/

namespace RedisProxy

open List

open Resp

/-- The bytes `bs` stand at `p`. -/
def Holds (mem : Int → UInt8) (p : Int) (bs : List UInt8) : Prop := bytesAt mem p bs.length = bs

section Holds

variable {mem mem' : Int → UInt8} {p q : Int} {as bs : List UInt8}

@[simp] theorem holds_nil : Holds mem p [] := rfl

theorem holds_cons {b : UInt8} : Holds mem p (b :: bs) ↔ mem p = b ∧ Holds mem (p + 1) bs := by
  unfold Holds
  rw [length_cons, bytesAt, cons.injEq]

theorem holds_append : Holds mem p (as ++ bs) ↔ Holds mem p as ∧ Holds mem (p + as.length) bs := by
  constructor
  · intro h
    exact ⟨Layer.bytesAt_left h, Layer.bytesAt_right h⟩
  · rintro ⟨ha, hb⟩
    unfold Holds at ha hb ⊢
    rw [length_append, RedisMsg.bytesAt_add, ha, hb]

/-- Bytes elsewhere do not matter. -/
theorem Holds.congr (h : Holds mem p bs) (hm : ∀ a, p ≤ a → a < p + bs.length → mem' a = mem a) : Holds mem' p bs := by
  unfold Holds
  rw [bytesAt_congr hm]
  exact h

theorem Holds.update (h : Holds mem p bs) (hq : q < p ∨ p + bs.length ≤ q) (b : UInt8) :
    Holds (Function.update mem q b) p bs := by
  refine h.congr fun a ha hlt => ?_
  rw [Function.update_of_ne]
  rintro rfl
  omega

end Holds

section Search

variable {rd : Int → UInt8} {ch : UInt8} {us rs : List UInt8} {p : Int} {n : Nat}

/-- A byte that `strchr` finds. -/
theorem strchr_eq (hb : Holds rd p (us ++ ch :: rs)) (hch : ch ∉ us) (hnull : 0 ∉ us) (hn : us.length < n) :
    strchr rd ch n p = some (p + us.length) := by
  induction us generalizing p n with
  | nil =>
    cases n with
    | zero => exact absurd hn (Nat.lt_irrefl _)
    | succ n =>
      have hp : rd p = ch := (cons.inj hb).1
      simp [strchr, hp]
  | cons b us ih =>
    cases n with
    | zero => exact absurd hn (Nat.not_lt_zero _)
    | succ n =>
      obtain ⟨hp, hrest⟩ := cons.inj hb
      simp only [mem_cons, not_or] at hch hnull
      rw [strchr, hp, if_neg (Ne.symm hch.1), if_neg (Ne.symm hnull.1),
        ih hrest hch.2 hnull.2 (Nat.lt_of_succ_lt_succ hn), length_cons]
      congr 1
      omega

/-- A byte that the text does not have. -/
theorem strchr_none (hb : Holds rd p (us ++ [0])) (hch : ch ∉ us) (h0 : ch ≠ 0) : strchr rd ch n p = none := by
  induction us generalizing p n with
  | nil =>
    cases n with
    | zero => rfl
    | succ n =>
      have hp : rd p = 0 := (cons.inj hb).1
      rw [strchr, hp, if_neg (Ne.symm h0), if_pos rfl]
  | cons b us ih =>
    cases n with
    | zero => rfl
    | succ n =>
      obtain ⟨hp, hrest⟩ := cons.inj hb
      simp only [mem_cons, not_or] at hch
      rw [strchr, hp, if_neg (Ne.symm hch.1)]
      split_ifs with hb0
      · rfl
      · exact ih hrest hch.2

theorem strrchrFrom_none (hb : Holds rd p (us ++ [0])) (hch : ch ∉ us) (last : Option Int) :
    strrchrFrom rd ch n p last = last := by
  induction us generalizing p n with
  | nil =>
    cases n with
    | zero => rfl
    | succ n =>
      have hp : rd p = 0 := (cons.inj hb).1
      rw [strrchrFrom, if_pos hp]
  | cons b us ih =>
    cases n with
    | zero => rfl
    | succ n =>
      obtain ⟨hp, hrest⟩ := cons.inj hb
      simp only [mem_cons, not_or] at hch
      rw [strrchrFrom]
      split_ifs with hb0 hbc
      · rfl
      · exact absurd (hbc.symm.trans hp) hch.1
      · exact ih hrest hch.2

/-- The last byte of its kind. -/
theorem strrchrFrom_eq (hb : Holds rd p (us ++ ch :: rs ++ [0])) (hch : ch ∉ rs) (hnull : 0 ∉ us) (h0 : ch ≠ 0)
    (hn : us.length < n) (last : Option Int) : strrchrFrom rd ch n p last = some (p + us.length) := by
  induction us generalizing p n last with
  | nil =>
    cases n with
    | zero => exact absurd hn (Nat.lt_irrefl _)
    | succ n =>
      obtain ⟨hp, hrest⟩ := cons.inj hb
      rw [strrchrFrom, if_neg (by rw [hp]; exact h0), if_pos hp]
      rw [strrchrFrom_none hrest hch]
      simp
  | cons b us ih =>
    cases n with
    | zero => exact absurd hn (Nat.not_lt_zero _)
    | succ n =>
      obtain ⟨hp, hrest⟩ := cons.inj hb
      simp only [mem_cons, not_or] at hnull
      rw [strrchrFrom, if_neg (by rw [hp]; exact Ne.symm hnull.1), ih hrest hnull.2 (Nat.lt_of_succ_lt_succ hn),
        length_cons]
      congr 1
      omega

theorem strrchr_none (hb : Holds rd p (us ++ [0])) (hch : ch ∉ us) : strrchr rd ch n p = none := strrchrFrom_none hb hch none

theorem strrchr_eq (hb : Holds rd p (us ++ ch :: rs ++ [0])) (hch : ch ∉ rs) (hnull : 0 ∉ us) (h0 : ch ≠ 0)
    (hn : us.length < n) : strrchr rd ch n p = some (p + us.length) := strrchrFrom_eq hb hch hnull h0 hn none

/-- A text ends at its null byte. -/
theorem cString_eq (hb : Holds rd p (us ++ [0])) (hnull : 0 ∉ us) (hn : us.length < n) : cString rd n p = us := by
  induction us generalizing p n with
  | nil =>
    cases n with
    | zero => rfl
    | succ n =>
      have hp : rd p = 0 := (cons.inj hb).1
      rw [cString, if_pos hp]
  | cons b us ih =>
    cases n with
    | zero => exact absurd hn (Nat.not_lt_zero _)
    | succ n =>
      obtain ⟨hp, hrest⟩ := cons.inj hb
      simp only [mem_cons, not_or] at hnull
      rw [cString, hp, if_neg (Ne.symm hnull.1), ih hrest hnull.2 (Nat.lt_of_succ_lt_succ hn)]

theorem strtollDigits_eq (hb : Holds rd p (us ++ [0])) (hd : ∀ c ∈ us, Byte.isDigit c = true) (hn : us.length < n) (v : Nat) :
    strtollDigits rd n p v = us.foldl (fun n d => n * 10 + digitNat d) v := by
  induction us generalizing p n v with
  | nil =>
    cases n with
    | zero => rfl
    | succ n =>
      have hp : rd p = 0 := (cons.inj hb).1
      rw [strtollDigits, hp, if_neg (by decide)]
      rfl
  | cons b us ih =>
    cases n with
    | zero => exact absurd hn (Nat.not_lt_zero _)
    | succ n =>
      obtain ⟨hp, hrest⟩ := cons.inj hb
      rw [strtollDigits, hp, if_pos (hd b (mem_cons_self ..)),
        ih hrest (fun c hc => hd c (mem_cons_of_mem _ hc)) (Nat.lt_of_succ_lt_succ hn)]
      rfl

/-- A number in the range of an `int` is read as it is printed. -/
theorem atoi_decimalText {k : Nat} (hb : Holds rd p (decimalText k ++ [0])) (hk : k < 2 ^ 31) (hn : (decimalText k).length < n) :
    atoi rd n p = k := by
  obtain ⟨⟨⟨hne, hd⟩, -⟩, hv⟩ := decimalText_spec k
  have hval := strtollDigits_eq hb hd hn 0
  have hfirst : Byte.isDigit (rd p) = true := by
    cases htext : decimalText k with
    | nil => exact absurd htext hne
    | cons d ds =>
      rw [htext] at hb hd
      have hp : rd p = d := (cons.inj hb).1
      rw [hp]
      exact hd d (mem_cons_self ..)
  have hsub : rd p ≠ Byte.sub := fun h => by rw [h] at hfirst; exact absurd hfirst (by decide)
  have hplus : rd p ≠ Byte.plus := fun h => by rw [h] at hfirst; exact absurd hfirst (by decide)
  rw [atoi, strtoll, if_neg hsub, if_neg hplus, hval]
  change int32 (min (2 ^ 63 - 1) ((decimal (decimalText k) : Nat) : Int)) = k
  rw [hv, min_eq_right (by omega)]
  exact int32_eq (by omega) (by omega)

end Search

end RedisProxy
