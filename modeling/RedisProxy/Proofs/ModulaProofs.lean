import RedisProxy.Dispatch
import RedisProxy.Lib.Blocks

/-!
# Proofs: `Modula` follows the weights

The loops of `ModulaUpdate` write one block of points for each server, as long as its weight. The point at the place
`h mod W` then belongs to the server whose block covers that place.
-/

namespace RedisProxy

open Lib List Option

theorem uint32_of_nonneg {x : Int} (h : 0 ≤ x) (hlt : x < 2 ^ 32) : uint32 x = x.toNat := by
  unfold uint32
  rw [Int.emod_eq_of_lt h hlt]

theorem int32_of_nat {n : Nat} (h : n < 2 ^ 31) : int32 n = n := by
  unfold int32
  rw [Int.bmod_eq_of_le] <;> omega

/-- The allocation of `m` points of which the first ones hold `points`. -/
structure ContinuumUpdate.Holds (m : Nat) (points : List Continuum) (u : ContinuumUpdate) : Prop where
  vServers : u.vServers = points.map some ++ List.replicate (m - points.length) none
  continuumIndex : u.continuumIndex = points.length

namespace ContinuumUpdate.Holds

variable {m : Nat} {points : List Continuum} {u : ContinuumUpdate}

theorem written (h : u.Holds m points) (i : Nat) : (∃ point, u.vServers[i]? = some (some point)) ↔ i < points.length := by
  rw [h.vServers]
  constructor
  · rintro ⟨point, hpoint⟩
    by_contra hi
    rw [getElem?_append_right (by simpa using hi), getElem?_replicate] at hpoint
    split_ifs at hpoint
    cases hpoint
  · intro hi
    refine ⟨points[i], ?_⟩
    rw [getElem?_append_left (by simpa using hi), getElem?_map, getElem?_eq_getElem hi]
    rfl

theorem write (h : u.Holds m points) (hlt : points.length < m) (point : Continuum) :
    ∃ u' : ContinuumUpdate, u.write point = some u' ∧ u'.Holds m (points ++ [point]) ∧
      u'.pointerCounter = u.pointerCounter := by
  have hlen : u.vServers.length = m := by
    rw [h.vServers]
    simp
    omega
  have hin : u.continuumIndex < u.vServers.length := by rw [h.continuumIndex, hlen]; exact hlt
  refine ⟨{ u with vServers := u.vServers.set u.continuumIndex (some point), continuumIndex := u.continuumIndex + 1 },
    if_pos hin, ⟨?_, ?_⟩, rfl⟩
  · -- the write replaces the first point that was not written
    have hrest : m - points.length = m - (points ++ [point]).length + 1 := by
      rw [length_append, length_singleton]
      omega
    rw [h.vServers, h.continuumIndex, set_append_right _ _ (by simp), hrest, replicate_succ]
    simp
  · change u.continuumIndex + 1 = _
    rw [h.continuumIndex, length_append, length_singleton]

end ContinuumUpdate.Holds

theorem newContinuum_holds (m : Nat) :
    ∃ u : ContinuumUpdate, newContinuum m = some u ∧ u.Holds m [] ∧ u.pointerCounter = 0 :=
  ⟨_, rfl, ⟨rfl, rfl⟩, rfl⟩

/-- The points of one server. -/
theorem modulaServer_holds {m : Nat} {points : List Continuum} {u : ContinuumUpdate} (server : WeightedServer) (i : Nat)
    (h : u.Holds m points) (hcounter : u.pointerCounter = points.length)
    (hle : points.length + uint32 server.iWeight ≤ m) :
    ∃ u' : ContinuumUpdate, modulaServer u (server, i) = some u' ∧
      u'.Holds m (points ++ List.replicate (uint32 server.iWeight) ⟨i, 0⟩) ∧
      u'.pointerCounter = (points ++ List.replicate (uint32 server.iWeight) (⟨i, 0⟩ : Continuum)).length := by
  unfold modulaServer
  revert hle
  induction uint32 server.iWeight with
  | zero => exact fun _ => ⟨u, rfl, by simpa using h, by simpa using hcounter⟩
  | succ w ih =>
    intro hle
    obtain ⟨u₁, h₁, holds₁, counter₁⟩ := ih (by omega)
    obtain ⟨u₂, h₂, holds₂, counter₂⟩ := holds₁.write (by simp; omega) ⟨i, 0⟩
    refine ⟨{ u₂ with pointerCounter := u₂.pointerCounter + 1 }, ?_, ?_, ?_⟩
    · rw [range_succ, foldlM_append, h₁]
      simp [h₂]
    · rw [replicate_succ', ← append_assoc]
      exact ⟨holds₂.vServers, holds₂.continuumIndex⟩
    · change u₂.pointerCounter + 1 = _
      rw [counter₂, counter₁]
      simp
      omega

/-- The blocks of points that `ModulaUpdate` writes. -/
def modulaPoints (k : Nat) (vRedisServers : List WeightedServer) : List Continuum :=
  (blocksFrom k (vRedisServers.map fun server => uint32 server.iWeight)).map fun i => ⟨i, 0⟩

/-- The points of all servers. -/
theorem modulaServers_holds {m : Nat} (vRedisServers : List WeightedServer) :
    ∀ {points : List Continuum} {u : ContinuumUpdate} {k : Nat}, u.Holds m points → u.pointerCounter = points.length →
      points.length + (vRedisServers.map fun server => uint32 server.iWeight).sum ≤ m →
      ∃ u' : ContinuumUpdate, (vRedisServers.zipIdx k).foldlM modulaServer u = some u' ∧
        u'.Holds m (points ++ modulaPoints k vRedisServers) ∧
        u'.pointerCounter = points.length + (vRedisServers.map fun server => uint32 server.iWeight).sum := by
  induction vRedisServers with
  | nil =>
    intro points u k h hcounter _
    exact ⟨u, rfl, by simpa [modulaPoints] using h, by simpa using hcounter⟩
  | cons server vRedisServers ih =>
    intro points u k h hcounter hle
    rw [map_cons, sum_cons] at hle
    obtain ⟨u₁, h₁, holds₁, counter₁⟩ := modulaServer_holds server k h hcounter (by omega)
    have hlen : (points ++ replicate (uint32 server.iWeight) (⟨k, 0⟩ : Continuum)).length =
        points.length + uint32 server.iWeight := by simp
    obtain ⟨u₂, h₂, holds₂, counter₂⟩ := ih holds₁ counter₁ (by omega)
    refine ⟨u₂, ?_, ?_, ?_⟩
    · rw [zipIdx_cons, foldlM_cons, h₁]
      exact h₂
    · have hpoints : modulaPoints k (server :: vRedisServers) =
          replicate (uint32 server.iWeight) ⟨k, 0⟩ ++ modulaPoints (k + 1) vRedisServers := by
        simp [modulaPoints]
      rw [hpoints, ← append_assoc]
      exact holds₂
    · rw [counter₂, hlen, map_cons, sum_cons]
      omega

/-- The sum of the weights. -/
def weightSum (vRedisServers : List WeightedServer) : Int := (vRedisServers.map (·.iWeight)).sum

section Weights

variable {vRedisServers : List WeightedServer}

@[simp] theorem weightSum_cons (server : WeightedServer) (vRedisServers : List WeightedServer) :
    weightSum (server :: vRedisServers) = server.iWeight + weightSum vRedisServers := rfl

theorem weightSum_nonneg (hw : ∀ server ∈ vRedisServers, 0 ≤ server.iWeight) : 0 ≤ weightSum vRedisServers := by
  apply sum_nonneg
  simpa using hw

/-- Weights that are not negative and not too large are added without overflow. -/
theorem totalWeight_from (hw : ∀ server ∈ vRedisServers, 0 ≤ server.iWeight) :
    ∀ total : Nat, total + weightSum vRedisServers < 2 ^ 32 →
      ((vRedisServers.foldl (fun total server => uint32 (total + server.iWeight)) total : Nat) : Int) =
        total + weightSum vRedisServers := by
  induction vRedisServers with
  | nil =>
    intro total _
    simp [weightSum]
  | cons server vRedisServers ih =>
    intro total hlt
    have hserver := hw server (mem_cons_self ..)
    have hrest := weightSum_nonneg fun s hs => hw s (mem_cons_of_mem _ hs)
    rw [weightSum_cons] at hlt ⊢
    have hnat : (uint32 (total + server.iWeight) : Int) = total + server.iWeight := by
      rw [uint32_of_nonneg (by omega) (by omega)]
      omega
    rw [foldl_cons, ih (fun s hs => hw s (mem_cons_of_mem _ hs)) _ (by omega), hnat]
    omega

theorem totalWeight_eq (hw : ∀ server ∈ vRedisServers, 0 ≤ server.iWeight) (hlt : weightSum vRedisServers < 2 ^ 32) :
    (totalWeight vRedisServers : Int) = weightSum vRedisServers := by
  simpa [totalWeight] using totalWeight_from hw 0 (by simpa using hlt)

/-- The numbers of points of the servers add up to the sum of the weights. -/
theorem sum_uint32 (hw : ∀ server ∈ vRedisServers, 0 ≤ server.iWeight) (hlt : weightSum vRedisServers < 2 ^ 32) :
    ((vRedisServers.map fun server => uint32 server.iWeight).sum : Int) = weightSum vRedisServers := by
  induction vRedisServers with
  | nil => rfl
  | cons server vRedisServers ih =>
    have hserver := hw server (mem_cons_self ..)
    have hrest := weightSum_nonneg fun s hs => hw s (mem_cons_of_mem _ hs)
    rw [weightSum_cons] at hlt ⊢
    have hnat := uint32_of_nonneg hserver (by omega)
    rw [map_cons, sum_cons, Nat.cast_add, ih (fun s hs => hw s (mem_cons_of_mem _ hs)) (by omega), hnat]
    omega

theorem weightSum_take_le (hw : ∀ server ∈ vRedisServers, 0 ≤ server.iWeight) (j : Nat) :
    weightSum (vRedisServers.take j) ≤ weightSum vRedisServers := by
  have hdrop := weightSum_nonneg fun s hs => hw s (mem_of_mem_drop (i := j) hs)
  have hsum : weightSum (vRedisServers.take j) + weightSum (vRedisServers.drop j) = weightSum vRedisServers := by
    rw [weightSum, weightSum, ← sum_append, ← map_append, take_append_drop]
    rfl
  omega

end Weights

/-- The result of `ModulaUpdate` for weights whose sum fits. -/
theorem modulaUpdate_eq {vRedisServers : List WeightedServer} (hw : ∀ server ∈ vRedisServers, 0 ≤ server.iWeight)
    {W : Nat} (hW : weightSum vRedisServers = W) (hlt : W + 10 < 2 ^ 31) :
    modulaUpdate vRedisServers =
      some ((modulaPoints 0 vRedisServers).map some ++ List.replicate 10 none, (W : Int)) := by
  have htotal : totalWeight vRedisServers = W := by
    have := totalWeight_eq hw (by omega)
    omega
  have hsum : (vRedisServers.map fun server => uint32 server.iWeight).sum = W := by
    have := sum_uint32 hw (by omega)
    omega
  have hlen : (modulaPoints 0 vRedisServers).length = W := by
    rw [modulaPoints, length_map, length_blocksFrom, hsum]
  have halloc : int32 (uint32 ((totalWeight vRedisServers : Int) + 10)) = ((W + 10 : Nat) : Int) := by
    rw [htotal, uint32_of_nonneg (by omega) (by omega)]
    exact int32_of_nat hlt
  obtain ⟨u, hu, holds, hcounter⟩ := newContinuum_holds (W + 10)
  obtain ⟨u', hu', holds', hcounter'⟩ := modulaServers_holds vRedisServers holds hcounter (by
    rw [hsum]
    simp)
  have hcount : int32 u'.pointerCounter = (W : Int) := by
    rw [hcounter', hsum, length_nil, Nat.zero_add]
    exact int32_of_nat (by omega)
  have hrest : W + 10 - (modulaPoints 0 vRedisServers).length = 10 := by
    rw [hlen]
    omega
  unfold modulaUpdate
  rw [halloc, hu, bind_eq_bind, bind_some, hu', bind_some, hcount,
    holds'.vServers, nil_append, hrest]

/-- The block of a place, by the weights. -/
theorem modulaBlock_iff {vRedisServers : List WeightedServer} (hw : ∀ server ∈ vRedisServers, 0 ≤ server.iWeight)
    (hlt : weightSum vRedisServers < 2 ^ 32) (i j : Nat) :
    (blocks (vRedisServers.map fun server => uint32 server.iWeight))[i]? = some j ↔
      weightSum (vRedisServers.take j) ≤ i ∧ i < weightSum (vRedisServers.take (j + 1)) := by
  have htake : ∀ k, (((vRedisServers.map fun server => uint32 server.iWeight).take k).sum : Int) =
      weightSum (vRedisServers.take k) := by
    intro k
    have hle := weightSum_take_le hw k
    rw [← map_take]
    exact sum_uint32 (fun s hs => hw s (mem_of_mem_take hs)) (by omega)
  rw [blocks_getElem?, ← htake j, ← htake (j + 1)]
  omega

section Lookup

variable {vRedisServers : List WeightedServer} {W : Nat}

theorem length_modulaPoints (hw : ∀ server ∈ vRedisServers, 0 ≤ server.iWeight) (hW : weightSum vRedisServers = W)
    (hlt : W + 10 < 2 ^ 31) : (modulaPoints 0 vRedisServers).length = W := by
  have := sum_uint32 hw (by omega)
  rw [modulaPoints, length_map, length_blocksFrom]
  omega

/-- `Modula` returns the server of the block that covers the remainder. -/
theorem modula_block (hw : ∀ server ∈ vRedisServers, 0 ≤ server.iWeight) (hW : weightSum vRedisServers = W) (hpos : 0 < W)
    (hlt : W + 10 < 2 ^ 31) (uiKey : UInt32) :
    ∃ (j : Nat) (hj : j < vRedisServers.length),
      (blocks (vRedisServers.map fun server => uint32 server.iWeight))[uiKey.toNat % W]? = some j ∧
        modula vRedisServers ((modulaPoints 0 vRedisServers).map some ++ List.replicate 10 none) W uiKey =
          some vRedisServers[j] := by
  have hlen := length_modulaPoints hw hW hlt
  have hr : uiKey.toNat % W < W := Nat.mod_lt _ hpos
  obtain ⟨j, hj⟩ : ∃ j, (blocks (vRedisServers.map fun server => uint32 server.iWeight))[uiKey.toNat % W]? = some j := by
    rw [modulaPoints, length_map] at hlen
    exact ⟨_, getElem?_eq_getElem (hlen.symm ▸ hr)⟩
  have hjn : j < vRedisServers.length := by
    simpa using (mem_blocksFrom (mem_of_getElem? hj)).2
  refine ⟨j, hjn, hj, ?_⟩
  have hcell : ((modulaPoints 0 vRedisServers).map some ++ replicate 10 none)[uiKey.toNat % W]? =
      some (some ⟨j, 0⟩) := by
    rw [List.getElem?_append_left (by simpa [hlen] using hr), modulaPoints, List.map_map, List.getElem?_map]
    change Option.map _ ((blocks _)[uiKey.toNat % W]?) = _
    rw [hj]
    rfl
  rw [modula, uint32_of_nonneg (by omega) (by omega), Int.toNat_natCast, if_neg (by omega), serverAt, hcell]
  exact getElem?_eq_getElem hjn

/-- `ModulaUpdate` writes `W` points into an allocation of `W + 10`, and `Modula` returns the server whose weight
covers the remainder of the hash. -/
theorem modula_weighting (vRedisServers : List WeightedServer) (hw : ∀ server ∈ vRedisServers, 0 ≤ server.iWeight)
    (W : Nat) (hW : weightSum vRedisServers = W) (hpos : 0 < W) (hlt : W + 10 < 2 ^ 31) :
    ∃ vServers, modulaUpdate vRedisServers = some (vServers, (W : Int)) ∧
      vServers.length = W + 10 ∧ (∀ i, (∃ point, vServers[i]? = some (some point)) ↔ i < W) ∧
      ∀ uiKey : UInt32, ∃ j server, vRedisServers[j]? = some server ∧ modula vRedisServers vServers W uiKey = some server ∧
        ∀ j', weightSum (vRedisServers.take j') ≤ (uiKey.toNat % W : Nat) ∧
            (uiKey.toNat % W : Nat) < weightSum (vRedisServers.take (j' + 1)) ↔ j' = j := by
  have hlen := length_modulaPoints hw hW hlt
  have holds : ContinuumUpdate.Holds (W + 10) (modulaPoints 0 vRedisServers)
      ⟨(modulaPoints 0 vRedisServers).map some ++ replicate 10 none, W, W⟩ := by
    constructor
    · rw [hlen, Nat.add_sub_cancel_left]
    · exact hlen.symm
  refine ⟨_, modulaUpdate_eq hw hW hlt, by simp [hlen], fun i => ?_, fun uiKey => ?_⟩
  · rw [← hlen]
    exact holds.written i
  · obtain ⟨j, hjn, hj, hmodula⟩ := modula_block hw hW hpos hlt uiKey
    refine ⟨j, vRedisServers[j], getElem?_eq_getElem hjn, hmodula, fun j' => ?_⟩
    rw [← modulaBlock_iff hw (by omega), hj, some.injEq]
    exact eq_comm

end Lookup

/-- Three servers of the weights 2, 0 and 3. -/
def weighted : List WeightedServer := [⟨[], [97], 2, 1⟩, ⟨[], [98], 0, 2⟩, ⟨[], [99], 3, 3⟩]

theorem modula_weighting_five :
    ∃ vServers, modulaUpdate weighted = some (vServers, ((5 : Nat) : Int)) ∧
      vServers.length = 5 + 10 ∧ (∀ i, (∃ point, vServers[i]? = some (some point)) ↔ i < 5) ∧
      ∀ uiKey : UInt32, ∃ j server, weighted[j]? = some server ∧ modula weighted vServers (5 : Nat) uiKey = some server ∧
        ∀ j', weightSum (weighted.take j') ≤ (uiKey.toNat % 5 : Nat) ∧
            (uiKey.toNat % 5 : Nat) < weightSum (weighted.take (j' + 1)) ↔ j' = j :=
  modula_weighting weighted (by decide) 5 (by decide) (by decide) (by decide)

end RedisProxy
