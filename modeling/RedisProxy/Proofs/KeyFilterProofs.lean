import Mathlib.Data.List.Infix
import RedisProxy.KeyFilter

/-!
# Proofs: key filters

A filter list that holds a filter is never left: no element agrees with the key, and the loop runs on past the stored ones.
-/

namespace RedisProxy

namespace FilterList

/-- What `AddFilter` stores: filters that are not empty, by their own text. -/
def Stored (l : FilterList) : Prop :=
  ∀ src, some src ∈ l.vFilters → 0 < src.iLen ∧ ∃ j, src.szSrc = .filter j 0

theorem Stored.expand {l : FilterList} (h : l.Stored) : l.expand.Stored := by
  intro src hsrc
  obtain ⟨i, -, hi⟩ := List.mem_map.mp hsrc
  split_ifs at hi
  rw [List.getD_eq_getElem?_getD] at hi
  cases hget : l.vFilters[i]? with
  | none => simp [hget] at hi
  | some e =>
    rw [hget, Option.getD_some] at hi
    exact h src (List.mem_of_getElem? (hget.trans (congrArg some hi)))

theorem Stored.addFilter {l : FilterList} (h : l.Stored) (j : Nat) {iLen : Nat} (hlen : 0 < iLen) :
    (l.addFilter (.filter j 0) iLen).Stored := by
  intro src hsrc
  rcases List.mem_or_eq_of_mem_set hsrc with hmem | heq
  · by_cases hfull : l.iNum = l.iCapt
    · rw [if_pos hfull] at hmem
      exact h.expand src hmem
    · rw [if_neg hfull] at hmem
      exact h src hmem
  · cases heq
    exact ⟨hlen, j, rfl⟩

theorem matchLoop_empty {iNum : Nat} (h : ¬0 < iNum) {szSrc : FilterPtr} (vs : List (Option FilterSrc)) :
    matchLoop iNum szSrc vs = some false := by
  cases vs with
  | nil => exact if_neg h
  | cons _ _ => exact if_neg h

/-- The key is no part of a filter, so that the loop goes on to an element that has not been stored. -/
theorem matchLoop_none {iNum : Nat} (hnum : 0 < iNum) : ∀ {vs : List (Option FilterSrc)},
    (∀ src, some src ∈ vs → 0 < src.iLen ∧ ∃ j, src.szSrc = .filter j 0) → matchLoop iNum (.key 0) vs = none := by
  intro vs
  induction vs with
  | nil => exact fun _ => if_pos hnum
  | cons pSrc vs ih =>
    intro h
    rw [matchLoop, if_pos hnum]
    cases pSrc with
    | none => rfl
    | some src =>
      obtain ⟨hlen, j, hptr⟩ := h src List.mem_cons_self
      obtain ⟨n, hn⟩ := Nat.exists_eq_succ_of_ne_zero (Nat.ne_of_gt hlen)
      rw [Option.bind_some, hn, hptr]
      exact ih fun src hsrc => h src (List.mem_cons_of_mem _ hsrc)

end FilterList

namespace Filter

theorem maxLen_spec {fs : List (List UInt8)} (h : ∀ f ∈ fs, f.length ≤ 256) : ∀ m, ∃ n, maxLen m fs = some n ∧ m ≤ n ∧
    (∀ f ∈ fs, f.length ≤ n) ∧ (n = m ∨ ∃ f ∈ fs, f.length = n) := by
  induction fs with
  | nil => exact fun m => ⟨m, rfl, le_rfl, nofun, .inl rfl⟩
  | cons f fs ih =>
    intro m
    obtain ⟨hf, hfs⟩ := List.forall_mem_cons.mp h
    by_cases hlt : m < f.length
    · obtain ⟨n, hn, hle, hall, hsome⟩ := ih hfs f.length
      refine ⟨n, ?_, by omega, List.forall_mem_cons.mpr ⟨hle, hall⟩, .inr ?_⟩
      · rw [maxLen, if_pos hlt, if_neg (by omega), hn]
      · rcases hsome with rfl | ⟨g, hg, hlen⟩
        · exact ⟨f, List.mem_cons_self, rfl⟩
        · exact ⟨g, List.mem_cons_of_mem _ hg, hlen⟩
    · obtain ⟨n, hn, hle, hall, hsome⟩ := ih hfs m
      refine ⟨n, ?_, hle, List.forall_mem_cons.mpr ⟨by omega, hall⟩, hsome.imp_right ?_⟩
      · rw [maxLen, if_neg hlt, hn]
      · exact fun ⟨g, hg, hlen⟩ => ⟨g, List.mem_cons_of_mem _ hg, hlen⟩

theorem fill_spec (i : Nat) {fs : List (List UInt8)} (h : ∀ f ∈ fs, f ≠ []) : ∀ (j : Nat) (l : FilterList), l.Stored →
    (fill i j l fs).Stored ∧ (0 < (fill i j l fs).iNum ↔ 0 < l.iNum ∨ ∃ f ∈ fs, f.length ≤ i) := by
  induction fs with
  | nil => exact fun j l hl => ⟨hl, by simp [fill]⟩
  | cons f fs ih =>
    intro j l hl
    obtain ⟨hf, hfs⟩ := List.forall_mem_cons.mp h
    rw [fill]
    by_cases hlen : i < f.length
    · rw [if_pos hlen]
      obtain ⟨hst, hnum⟩ := ih hfs (j + 1) l hl
      refine ⟨hst, hnum.trans (or_congr_right ?_)⟩
      simp [Nat.not_le.mpr hlen]
    · rw [if_neg hlen]
      obtain ⟨hst, hnum⟩ := ih hfs (j + 1) _ (hl.addFilter j (List.length_pos_iff.mpr hf))
      refine ⟨hst, hnum.trans ?_⟩
      have hle : f.length ≤ i := Nat.not_lt.mp hlen
      simp [FilterList.addFilter, hle]

/-- `Match` gives the right answer exactly if there are no filters or all of them are longer than the key. Otherwise it
reads past the stored filters. -/
theorem isMatch_iff (filters : List (List UInt8)) (hf : ∀ f ∈ filters, f ≠ [] ∧ f.length ≤ 256) (key : List UInt8) :
    ((init filters).bind fun flt => flt.isMatch (.key 0) key.length) =
        some (decide (filters = [] ∨ ∃ f ∈ filters, f <+: key)) ↔
      filters = [] ∨ ∀ f ∈ filters, key.length < f.length := by
  by_cases hnil : filters = []
  · subst hnil
    simp [init, maxLen, isMatch]
  obtain ⟨n, hn, -, hall, hsome⟩ := maxLen_spec (fun f hmem => (hf f hmem).2) 0
  obtain ⟨g, hg⟩ := List.exists_mem_of_ne_nil _ hnil
  have hpos : 0 < n := (List.length_pos_iff.mpr (hf g hg).1).trans_le (hall g hg)
  obtain ⟨f, hmem, hlen⟩ := hsome.resolve_left (Nat.ne_of_gt hpos)
  have hright : (∀ f ∈ filters, key.length < f.length) → decide (filters = [] ∨ ∃ f ∈ filters, f <+: key) = false := by
    intro h
    refine decide_eq_false (not_or.mpr ⟨hnil, fun ⟨f, hmem, hpre⟩ => ?_⟩)
    exact Nat.not_le.mpr (h f hmem) hpre.length_le
  rw [init, hn]
  simp only [Option.bind_eq_bind, Option.bind_some, if_neg (Nat.ne_of_gt hpos), Option.pure_def, isMatch,
    if_neg (show ¬n + 1 ≤ 1 by omega), Nat.add_sub_cancel]
  set iLen := if n + 1 ≤ key.length then n else key.length with hi
  have hmin : iLen = min key.length n := by
    split_ifs at hi <;> omega
  by_cases hzero : iLen = 0
  · have hlong : ∀ f ∈ filters, key.length < f.length := fun f hmem => by
      have := List.length_pos_iff.mpr (hf f hmem).1
      omega
    rw [if_pos hzero, hright hlong]
    exact iff_of_true rfl (.inr hlong)
  rw [if_neg hzero, if_pos (by omega), Option.bind_some]
  obtain ⟨hst, hnum⟩ := fill_spec iLen (fun f hmem => (hf f hmem).1) 0 ⟨0, 16, List.replicate 16 none⟩ (by simp [FilterList.Stored])
  by_cases hbucket : ∃ f ∈ filters, f.length ≤ iLen
  · rw [FilterList.isMatch, FilterList.matchLoop_none (hnum.mpr (.inr hbucket)) hst]
    obtain ⟨f, hmem, hle⟩ := hbucket
    refine ⟨nofun, fun h => ?_⟩
    have := h.resolve_left hnil f hmem
    omega
  · have hlong : ∀ f ∈ filters, key.length < f.length := by
      push Not at hbucket
      intro f' hmem'
      have := hbucket f hmem
      have := hbucket f' hmem'
      omega
    have hempty : ¬0 < (fill iLen 0 ⟨0, 16, List.replicate 16 none⟩ filters).iNum := by
      rw [hnum]
      simpa using hbucket
    rw [FilterList.isMatch, FilterList.matchLoop_empty hempty, hright hlong]
    exact iff_of_true rfl (.inr hlong)

theorem isMatch_iff_short : ((init [[97, 98]]).bind fun flt => flt.isMatch (.key 0) 1) = some false :=
  (isMatch_iff [[97, 98]] (by simp) [97]).mpr (.inr (by simp))

/-- The filter `a` lets a key that starts with it run past the stored filters. -/
theorem isMatch_overrun : [97] <+: [97, 98] ∧ ((init [[97]]).bind fun flt => flt.isMatch (.key 0) 2) = none := by
  decide

end Filter

end RedisProxy
