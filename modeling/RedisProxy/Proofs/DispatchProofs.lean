import RedisProxy.Dispatch

/-!
# Proofs: `Ketama` finds the next point

The bisection stops at the leftmost point from the hash on. What a further server changes then follows
from what further points change on the circle.
-/

namespace RedisProxy

open Lib List Option

instance linearOrderUInt32 : LinearOrder UInt32 where
  le_refl := UInt32.le_refl
  le_trans _ _ _ := UInt32.le_trans
  lt_iff_le_not_ge a b := by
    rw [UInt32.lt_iff_toNat_lt, UInt32.le_iff_toNat_le, UInt32.le_iff_toNat_le]
    omega
  le_antisymm _ _ := UInt32.le_antisymm
  le_total := UInt32.le_total
  toDecidableLE := inferInstance

section Lookup

variable {vServers : List Continuum}

/-- The loop of `Ketama`. -/
theorem ketama_bisect (hs : vServers.Pairwise fun a b => a.value ≤ b.value) (uiKey : UInt32) :
    ∃ right, bisect (fun middle => (vServers[middle]?).map fun c => decide (c.value < uiKey)) vServers.length 0 vServers.length =
        some right ∧ vServers.find? (fun c => decide (uiKey ≤ c.value)) = vServers[right]? ∧ right ≤ vServers.length := by
  have hp : ∀ j : Nat, (∃ c ∈ vServers[j]?, decide (uiKey ≤ c.value) = false) ↔ ∃ c ∈ vServers[j]?, c.value < uiKey := by
    intro j
    simp
  have hdown : ∀ i j : Nat, i ≤ j → j < vServers.length → (∃ c ∈ vServers[j]?, c.value < uiKey) →
      ∃ c ∈ vServers[i]?, c.value < uiKey := by
    rintro i j hij hj ⟨c, hc, hlt⟩
    obtain ⟨hj', rfl⟩ := List.getElem?_eq_some_iff.mp hc
    refine ⟨vServers[i], getElem?_eq_getElem (by omega), lt_of_le_of_lt ?_ hlt⟩
    rcases Nat.lt_or_eq_of_le hij with hij | rfl
    · exact pairwise_iff_getElem.mp hs i j (by omega) hj hij
    · exact le_rfl
  classical
  have htest : ∀ m < vServers.length, (vServers[m]?).map (fun c => decide (c.value < uiKey)) =
      some (decide (∃ c ∈ vServers[m]?, c.value < uiKey)) := by
    intro m hm
    rw [getElem?_eq_getElem hm]
    simp
  obtain ⟨i, hi, hcut⟩ := bisect_cut hdown htest
  refine ⟨i, hi, IsCut.find ⟨hcut.le, fun j hj => ?_, fun j hj hjn => ?_⟩, hcut.le⟩
  · exact (hp j).mpr (hcut.below j hj)
  · exact fun hex => hcut.above j hj hjn ((hp j).mp hex)

/-- `Ketama` selects the leftmost point whose value is not below the hash, or the first one. -/
theorem ketamaPoint_eq (hne : vServers ≠ []) (hs : vServers.Pairwise fun a b => a.value ≤ b.value) (uiKey : UInt32) :
    ketamaPoint vServers uiKey = some ((vServers.find? fun c => decide (uiKey ≤ c.value)).getD (vServers.head hne)) := by
  obtain ⟨right, hright, hfind, hle⟩ := ketama_bisect hs uiKey
  unfold ketamaPoint
  rw [hright]
  dsimp only
  rw [hfind]
  by_cases hend : right = vServers.length
  · rw [if_pos hend, hend, getElem?_eq_none le_rfl, getD_none, ← head?_eq_getElem?, head?_eq_some_head]
  · rw [if_neg hend, getElem?_eq_getElem (by omega), getD_some]

/-- `Ketama` returns the server of the leftmost point whose value is at least the hash, and that of the first
point when all values are smaller. -/
theorem ketama_leftmost (vRedisServers : List KetamaServer) (hne : vServers ≠ [])
    (hs : vServers.Pairwise fun a b => a.value ≤ b.value) (uiKey : UInt32) :
    ketama vRedisServers vServers uiKey =
      vRedisServers[((vServers.find? fun c => decide (uiKey ≤ c.value)).getD (vServers.head hne)).index]? := by
  unfold ketama
  rw [ketamaPoint_eq hne hs, bind_some]

/-- Two servers with points of the same value. -/
def twoServers : List KetamaServer := [⟨[97], 4, 1⟩, ⟨[98], 4, 2⟩]

theorem ketama_leftmost_eval :
    ketama twoServers [⟨1, 10⟩, ⟨0, 10⟩, ⟨0, 30⟩] 7 = some ⟨[98], 4, 2⟩ ∧
      ketama twoServers [⟨1, 10⟩, ⟨0, 10⟩, ⟨0, 30⟩] 40 = some ⟨[98], 4, 2⟩ :=
  ⟨ketama_leftmost twoServers (by decide) (by decide) 7, ketama_leftmost twoServers (by decide) (by decide) 40⟩

end Lookup

/-! ## Further servers -/

section Minimal

variable {hash : List UInt8 → Nat → Nat → UInt32} {servers : List KetamaServer} {vServers : List Continuum}

/-- A point of the continuum belongs to the server with its index. -/
theorem mem_ketamaPoints {c : Continuum} :
    c ∈ ketamaPoints hash servers ↔ ∃ server, servers[c.index]? = some server ∧ c.value ∈ server.values hash := by
  unfold ketamaPoints
  rw [mem_flatMap]
  constructor
  · rintro ⟨⟨server, i⟩, hmem, hc⟩
    obtain ⟨value, hvalue, rfl⟩ := mem_map.mp hc
    exact ⟨server, mem_zipIdx_iff_getElem?.mp hmem, hvalue⟩
  · rintro ⟨server, hmem, hvalue⟩
    exact ⟨(server, c.index), mem_zipIdx_iff_getElem?.mpr hmem, mem_map.mpr ⟨c.value, hvalue, rfl⟩⟩

/-- The values on the circle. -/
def circle (hash : List UInt8 → Nat → Nat → UInt32) (servers : List KetamaServer) : Set UInt32 :=
  {v | ∃ server ∈ servers, v ∈ server.values hash}

theorem circle_eq (h : KetamaUpdate hash servers vServers) : {v | ∃ c ∈ vServers, c.value = v} = circle hash servers := by
  ext v
  constructor
  · rintro ⟨c, hc, rfl⟩
    obtain ⟨server, hserver, hvalue⟩ := mem_ketamaPoints.mp (h.perm.mem_iff.mp hc)
    exact ⟨server, mem_of_getElem? hserver, hvalue⟩
  · rintro ⟨server, hserver, hvalue⟩
    obtain ⟨i, hi⟩ := getElem?_of_mem hserver
    exact ⟨⟨i, v⟩, h.perm.mem_iff.mpr (mem_ketamaPoints.mpr ⟨server, hi, hvalue⟩), rfl⟩

/-- The server that `Ketama` returns has a point with the next value of the circle. -/
theorem ketama_next (h : KetamaUpdate hash servers vServers) (hne : vServers ≠ []) (uiKey : UInt32) :
    ∃ server v, ketama servers vServers uiKey = some server ∧ server ∈ servers ∧ v ∈ server.values hash ∧
      IsNext (circle hash servers) uiKey v := by
  obtain ⟨c, hc⟩ : ∃ c, c = (vServers.find? fun c => decide (uiKey ≤ c.value)).getD (vServers.head hne) := ⟨_, rfl⟩
  have hmem : c ∈ vServers := by
    rw [hc]
    cases hfind : vServers.find? fun c => decide (uiKey ≤ c.value) with
    | none => exact head_mem hne
    | some d => exact mem_of_find?_eq_some hfind
  obtain ⟨server, hserver, hvalue⟩ := mem_ketamaPoints.mp (h.perm.mem_iff.mp hmem)
  have hnext := isNext_find hne h.sorted uiKey
  rw [circle_eq h, ← hc] at hnext
  refine ⟨server, c.value, ?_, mem_of_getElem? hserver, hvalue, hnext⟩
  unfold ketama
  rw [ketamaPoint_eq hne h.sorted, ← hc]
  exact hserver

theorem circle_cons (before after : List KetamaServer) (server : KetamaServer) :
    circle hash (before ++ server :: after) = circle hash (before ++ after) ∪ {v | v ∈ server.values hash} := by
  ext v
  simp only [circle, mem_append, mem_cons, Set.mem_ofPred_eq, Set.mem_union]
  constructor
  · rintro ⟨s, hs | rfl | hs, hv⟩
    · exact .inl ⟨s, .inl hs, hv⟩
    · exact .inr hv
    · exact .inl ⟨s, .inr hs, hv⟩
  · rintro (⟨s, hs | hs, hv⟩ | hv)
    · exact ⟨s, .inl hs, hv⟩
    · exact ⟨s, .inr (.inr hs), hv⟩
    · exact ⟨server, .inr (.inl rfl), hv⟩

@[simp] theorem ketama_nil (servers : List KetamaServer) (uiKey : UInt32) : ketama servers [] uiKey = none := rfl

/-- Two servers of the same name, whose points coincide. -/
def sameName : List KetamaServer := [⟨[97], 4, 1⟩, ⟨[97], 4, 2⟩]

/-- A further server with points elsewhere. -/
def otherName : KetamaServer := ⟨[98], 4, 3⟩

/-- The points of a name in one place each. -/
def nameHash (strName : List UInt8) (_ _ : Nat) : UInt32 := if strName = [97] then 10 else 20

end Minimal

end RedisProxy
