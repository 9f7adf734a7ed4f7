import RedisProxy.Proofs.DispatchProofs
import RedisProxy.Proofs.KetamaLabelProofs

/-!
# Proofs: every key has a server

The points that `KetamaUpdate` writes fit into its allocation, because the fractions of the weights add up to one and the
roundings are small; the heaviest server has points. After the sort, `Ketama` looks at written points only. For `Modula`
it is the remainder that stays below the number of points.
-/

namespace RedisProxy

open Lib List Option

/-! ## The loops of `KetamaUpdate` -/

section Writes

variable {m : Nat} {points : List Continuum} {u : ContinuumUpdate}

/-- Writing one point after the other. -/
theorem ContinuumUpdate.Holds.writes {β : Type} (f : β → Continuum) (xs : List β) :
    ∀ {points : List Continuum} {u : ContinuumUpdate}, u.Holds m points → points.length + xs.length ≤ m →
      ∃ u' : ContinuumUpdate, xs.foldlM (fun u x => u.write (f x)) u = some u' ∧ u'.Holds m (points ++ xs.map f) ∧
        u'.pointerCounter = u.pointerCounter := by
  induction xs with
  | nil =>
    intro points u h _
    exact ⟨u, rfl, by simpa using h, rfl⟩
  | cons x xs ih =>
    intro points u h hle
    rw [length_cons] at hle
    obtain ⟨u₁, h₁, holds₁, counter₁⟩ := h.write (by omega) (f x)
    obtain ⟨u₂, h₂, holds₂, counter₂⟩ := ih holds₁ (by rw [length_append, length_singleton]; omega)
    refine ⟨u₂, ?_, ?_, counter₂.trans counter₁⟩
    · rw [foldlM_cons, h₁]
      exact h₂
    · rw [map_cons, append_cons]
      exact holds₂

/-- The points of one label. -/
def labelPoints (env : KetamaEnv) (server : WeightedServer × Nat) (k : Nat) : List Continuum :=
  (List.range 4).map fun x => ⟨server.2, env.hash (ketamaHost (env.stack server.2 k) server.1.strName k) x⟩

/-- The labels of one server. -/
theorem ketamaLabels_holds (env : KetamaEnv) (server : WeightedServer × Nat) (ks : List Nat) :
    ∀ {points : List Continuum} {u : ContinuumUpdate}, u.Holds m points → points.length + ks.length * 4 ≤ m →
      ∃ u' : ContinuumUpdate, ks.foldlM (ketamaLabel env server) u = some u' ∧
        u'.Holds m (points ++ ks.flatMap (labelPoints env server)) ∧ u'.pointerCounter = u.pointerCounter := by
  induction ks with
  | nil =>
    intro points u h _
    exact ⟨u, rfl, by simpa using h, rfl⟩
  | cons k ks ih =>
    intro points u h hle
    rw [length_cons] at hle
    obtain ⟨u₁, h₁, holds₁, counter₁⟩ := h.writes
      (fun x => ⟨server.2, env.hash (ketamaHost (env.stack server.2 k) server.1.strName k) x⟩) (range 4)
      (by rw [length_range]; omega)
    obtain ⟨u₂, h₂, holds₂, counter₂⟩ := ih holds₁ (by
      rw [length_append, length_map, length_range]
      omega)
    refine ⟨u₂, ?_, ?_, counter₂.trans counter₁⟩
    · rw [foldlM_cons, ketamaLabel, h₁]
      exact h₂
    · rw [flatMap_cons, ← append_assoc]
      exact holds₂

theorem length_labels (env : KetamaEnv) (server : WeightedServer × Nat) (ks : List Nat) :
    (ks.flatMap (labelPoints env server)).length = ks.length * 4 := by
  induction ks with
  | nil => rfl
  | cons k ks ih =>
    rw [flatMap_cons, length_append, ih, labelPoints, length_map, length_range, length_cons]
    omega

theorem index_labels {env : KetamaEnv} {server : WeightedServer × Nat} {ks : List Nat} {point : Continuum}
    (h : point ∈ ks.flatMap (labelPoints env server)) : point.index = server.2 := by
  obtain ⟨k, -, hk⟩ := mem_flatMap.mp h
  obtain ⟨x, -, rfl⟩ := mem_map.mp hk
  rfl

/-- The points of all servers, where `count` is four times the number of labels. -/
theorem ketamaServers_holds (env : KetamaEnv) {T n : Nat} (labels : WeightedServer → Nat) (vRedisServers : List WeightedServer)
    (hcount : ∀ server ∈ vRedisServers, pointerPerServer server.iWeight T n = some (labels server * 4)) :
    ∀ {points : List Continuum} {u : ContinuumUpdate} {k : Nat}, u.Holds m points → u.pointerCounter = points.length →
      points.length + (vRedisServers.map labels).sum * 4 ≤ m →
      ∃ (u' : ContinuumUpdate) (new : List Continuum),
        (vRedisServers.zipIdx k).foldlM (ketamaServer env T n) u = some u' ∧ u'.Holds m (points ++ new) ∧
          u'.pointerCounter = (points ++ new).length ∧ new.length = (vRedisServers.map labels).sum * 4 ∧
          ∀ point ∈ new, point.index < k + vRedisServers.length := by
  induction vRedisServers with
  | nil =>
    intro points u k h hcounter _
    exact ⟨u, [], rfl, by simpa using h, by simpa using hcounter, rfl, by simp⟩
  | cons server vRedisServers ih =>
    intro points u k h hcounter hle
    rw [map_cons, sum_cons] at hle
    have hlen := length_labels env (server, k) (range (labels server))
    rw [length_range] at hlen
    obtain ⟨u₁, h₁, holds₁, counter₁⟩ := ketamaLabels_holds env (server, k) (range (labels server)) h
      (by rw [length_range]; omega)
    obtain ⟨u₂, new, h₂, holds₂, counter₂, length₂, index₂⟩ :=
      ih (fun s hs => hcount s (mem_cons_of_mem _ hs))
        (u := { u₁ with pointerCounter := u₁.pointerCounter + labels server * 4 }) ⟨holds₁.vServers, holds₁.continuumIndex⟩
        (by rw [length_append, hlen]; change u₁.pointerCounter + _ = _; rw [counter₁, hcounter])
        (by rw [length_append, hlen]; omega)
    refine ⟨u₂, (range (labels server)).flatMap (labelPoints env (server, k)) ++ new, ?_, ?_, ?_, ?_, ?_⟩
    · have hstep : ketamaServer env T n u (server, k) =
          some { u₁ with pointerCounter := u₁.pointerCounter + labels server * 4 } := by
        unfold ketamaServer
        rw [hcount server (mem_cons_self ..), bind_eq_bind, bind_some,
          Nat.mul_div_cancel _ (by decide), h₁]
        rfl
      rw [zipIdx_cons, foldlM_cons, hstep]
      exact h₂
    · rw [← append_assoc]
      exact holds₂
    · rw [← append_assoc]
      exact counter₂
    · rw [length_append, hlen, length₂, map_cons, sum_cons]
      omega
    · intro point hpoint
      rw [length_cons]
      rcases mem_append.mp hpoint with hpoint | hpoint
      · rw [index_labels hpoint]
        omega
      · have := index₂ point hpoint
        omega

end Writes

/-! ## The number of points -/

/-- The number of labels of a server. -/
def labelCount (T n : Nat) (server : WeightedServer) : Nat := (pointerPerServer server.iWeight T n).getD 0 / 4

section Counts

variable {T n : Nat} {vRedisServers : List WeightedServer}

theorem labelCount_spec {server : WeightedServer} (hT : 0 < T) (hn : n < 1024) (h0 : 0 ≤ server.iWeight)
    (hle : server.iWeight ≤ T) :
    pointerPerServer server.iWeight T n = some (labelCount T n server * 4) ∧
      (labelCount T n server : ℚ) * (1 - 1 / 10 ^ 6) ≤ 40 * n * server.iWeight / T + 1 / 10 ^ 9 ∧
      (40 * n * server.iWeight / T : ℚ) * (1 - 1 / 10 ^ 6) < labelCount T n server + 1 := by
  obtain ⟨w, hw⟩ := Int.eq_ofNat_of_zero_le h0
  obtain ⟨K, hK, hupper, hlower⟩ := pointerPerServer_spec (w := w) (T := T) (n := n) hT (by omega) hn
  have hcount : labelCount T n server = K := by
    rw [labelCount, hw, hK, getD_some, Nat.mul_div_cancel _ (by decide)]
  rw [hcount, hw]
  exact ⟨hK, hupper, hlower⟩

theorem le_weightSum {server : WeightedServer} (hw : ∀ server ∈ vRedisServers, 0 ≤ server.iWeight)
    (hserver : server ∈ vRedisServers) : server.iWeight ≤ weightSum vRedisServers :=
  single_le_sum (by simpa using hw) _ (mem_map_of_mem hserver)

/-- The labels of some servers, by their part of the weights. -/
theorem sum_labelCount_le (hT : 0 < T) (hn : n < 1024) (hw : ∀ server ∈ vRedisServers, 0 ≤ server.iWeight ∧ server.iWeight ≤ T) :
    ((vRedisServers.map (labelCount T n)).sum : ℚ) * (1 - 1 / 10 ^ 6) ≤
      40 * n * weightSum vRedisServers / T + vRedisServers.length / 10 ^ 9 := by
  induction vRedisServers with
  | nil => simp [weightSum]
  | cons server vRedisServers ih =>
    have hrest := ih fun s hs => hw s (mem_cons_of_mem _ hs)
    obtain ⟨h0, hle⟩ := hw server (mem_cons_self ..)
    have hserver := (labelCount_spec hT hn h0 hle).2.1
    rw [map_cons, sum_cons, weightSum_cons, length_cons]
    push_cast at hrest ⊢
    have hsplit : 40 * (n : ℚ) * (server.iWeight + weightSum vRedisServers) / T + (vRedisServers.length + 1) / 10 ^ 9 =
        (40 * n * server.iWeight / T + 1 / 10 ^ 9) + (40 * n * weightSum vRedisServers / T + vRedisServers.length / 10 ^ 9) := by
      ring
    rw [hsplit, add_mul]
    exact add_le_add hserver hrest

/-- Some server has at least the average weight. -/
theorem exists_heavy (hne : vRedisServers ≠ []) :
    ∃ server ∈ vRedisServers, weightSum vRedisServers ≤ vRedisServers.length * server.iWeight := by
  apply exists_le_of_sum_le hne (fun _ => weightSum vRedisServers) (fun server => vRedisServers.length * server.iWeight)
  rw [map_const', sum_replicate, sum_map_mul_left, nsmul_eq_mul]
  rfl

/-- The points of all servers have room, and there are some. -/
theorem sum_labelCount (hpos : 0 < n) (hn : n < 1024) (hlen : vRedisServers.length = n) (hT : 0 < T)
    (hw : ∀ server ∈ vRedisServers, 0 ≤ server.iWeight) (hsum : weightSum vRedisServers = T) :
    0 < (vRedisServers.map (labelCount T n)).sum ∧ (vRedisServers.map (labelCount T n)).sum ≤ 40 * n := by
  have hT' : (0 : ℚ) < T := by exact_mod_cast hT
  have hbound : ∀ server ∈ vRedisServers, 0 ≤ server.iWeight ∧ server.iWeight ≤ T := fun server hs =>
    ⟨hw server hs, hsum ▸ le_weightSum hw hs⟩
  constructor
  · have hne : vRedisServers ≠ [] := by
      rintro rfl
      rw [length_nil] at hlen
      omega
    obtain ⟨server, hserver, hheavy⟩ := exists_heavy hne
    obtain ⟨h0, hle⟩ := hbound server hserver
    have hlower := (labelCount_spec hT hn h0 hle).2.2
    rw [hsum, hlen] at hheavy
    have hheavy' : (T : ℚ) ≤ n * server.iWeight := by exact_mod_cast hheavy
    have hfair : (40 : ℚ) ≤ 40 * n * server.iWeight / T := by
      rw [le_div_iff₀ hT']
      linarith
    have hcount : 0 < labelCount T n server := by
      have : (0 : ℚ) < labelCount T n server := by linarith
      exact_mod_cast this
    exact hcount.trans_le (single_le_sum (by simp) _ (mem_map_of_mem hserver))
  · have hle := sum_labelCount_le hT hn hbound
    have hfair : 40 * (n : ℚ) * weightSum vRedisServers / T = 40 * n := by
      rw [hsum, Int.cast_natCast, mul_div_assoc, div_self hT'.ne', mul_one]
    rw [hfair, hlen] at hle
    have hn' : (n : ℚ) < 1024 := by exact_mod_cast hn
    have hlt : ((vRedisServers.map (labelCount T n)).sum : ℚ) < 40 * n + 1 := by linarith
    have : (vRedisServers.map (labelCount T n)).sum < 40 * n + 1 := by exact_mod_cast hlt
    omega

end Counts

/-! ## The continuum of `Ketama` -/

section Ketama

variable {vRedisServers : List WeightedServer}

/-- The points before the sort: some for the servers at hand, and nothing behind them. -/
theorem ketamaWrite_eq (env : KetamaEnv) (hpos : 0 < vRedisServers.length) (hn : vRedisServers.length < maxRedisGroup)
    (hw : ∀ server ∈ vRedisServers, 0 ≤ server.iWeight) (hsum : 0 < weightSum vRedisServers)
    (hlt : weightSum vRedisServers < 2 ^ 32) :
    ∃ (u : ContinuumUpdate) (points : List Continuum), ketamaWrite env vRedisServers = some u ∧
      u.Holds ((vRedisServers.length + 10) * 160) points ∧ u.pointerCounter = points.length ∧ points ≠ [] ∧
      points.length < 2 ^ 31 ∧ ∀ point ∈ points, point.index < vRedisServers.length := by
  unfold maxRedisGroup at hn
  have htotal := totalWeight_eq hw hlt
  obtain ⟨hcount0, hcount⟩ := sum_labelCount hpos hn rfl (by omega) hw htotal.symm
  have hlabels : ∀ server ∈ vRedisServers, pointerPerServer server.iWeight (totalWeight vRedisServers) vRedisServers.length =
      some (labelCount (totalWeight vRedisServers) vRedisServers.length server * 4) := fun server hs =>
    (labelCount_spec (by omega) hn (hw server hs) (htotal ▸ le_weightSum hw hs)).1
  have halloc : int32 (uint32 (((vRedisServers.length : Int) + 10) * 160)) = ((vRedisServers.length + 10) * 160 : Nat) := by
    rw [uint32_of_nonneg (by omega) (by omega)]
    have : (((vRedisServers.length : Int) + 10) * 160).toNat = (vRedisServers.length + 10) * 160 := by omega
    rw [this]
    exact int32_of_nat (by omega)
  obtain ⟨u, hu, holds, hcounter⟩ := newContinuum_holds ((vRedisServers.length + 10) * 160)
  obtain ⟨u', points, hu', holds', hcounter', hlength, hindex⟩ := ketamaServers_holds env _ vRedisServers hlabels
    holds hcounter (by
      rw [length_nil]
      omega)
  refine ⟨u', points, ?_, holds', hcounter', ?_, ?_, ?_⟩
  · rw [ketamaWrite, halloc, hu, bind_eq_bind, bind_some]
    exact hu'
  · rintro rfl
    rw [length_nil] at hlength
    omega
  · omega
  · simpa using hindex

/-- `qsort` has a result. -/
theorem KetamaUpdated.exists_sorted {env : KetamaEnv} {u : ContinuumUpdate} {points : List Continuum} {m : Nat}
    (hu : ketamaWrite env vRedisServers = some u) (holds : u.Holds m points) (hcounter : u.pointerCounter = points.length) :
    ∃ vServers ncontinuum, KetamaUpdated env vRedisServers vServers ncontinuum := by
  refine ⟨_, _, u, hu, rfl, points.mergeSort fun a b => decide (a.value ≤ b.value), ?_, ?_, rfl⟩
  · rw [holds.vServers, hcounter, take_left' (length_map some)]
    exact (mergeSort_perm ..).map _
  · have htrans : ∀ a b c : Continuum, decide (a.value ≤ b.value) = true → decide (b.value ≤ c.value) = true →
        decide (a.value ≤ c.value) = true := by
      intro a b c h h'
      rw [decide_eq_true_eq] at h h' ⊢
      exact h.trans h'
    have htotal : ∀ a b : Continuum, (decide (a.value ≤ b.value) || decide (b.value ≤ a.value)) = true := by
      intro a b
      rw [Bool.or_eq_true, decide_eq_true_eq, decide_eq_true_eq]
      exact le_total ..
    exact (pairwise_mergeSort htrans htotal points).imp fun h => by simpa using h

/-- `Ketama` over sorted points is the search for the next point. -/
theorem ketamaAt_eq (vRedisServers : List WeightedServer) (points : List Continuum) (k : Nat) (hne : points ≠ [])
    (hs : points.Pairwise fun a b => a.value ≤ b.value) (uiKey : UInt32) :
    ∃ point ∈ points, ketamaAt vRedisServers (points.map some ++ List.replicate k none) points.length uiKey =
      vRedisServers[point.index]? := by
  have htest : (fun middle : Nat =>
        ((points.map some ++ replicate k none)[middle]?).join.map fun c : Continuum => decide (c.value < uiKey)) =
      fun middle => (points[middle]?).map fun c => decide (c.value < uiKey) := by
    funext middle
    by_cases hm : middle < points.length
    · rw [getElem?_append_left (by simpa using hm), getElem?_map, getElem?_eq_getElem hm]
      rfl
    · rw [getElem?_append_right (by simpa using hm), getElem?_replicate, getElem?_eq_none (by omega)]
      split_ifs <;> rfl
  have hpoint := ketamaPoint_eq hne hs uiKey
  unfold ketamaPoint at hpoint
  obtain ⟨right, hright, -, hle⟩ := ketama_bisect hs uiKey
  rw [hright] at hpoint
  dsimp only at hpoint
  refine ⟨_, mem_of_getElem? hpoint, ?_⟩
  unfold ketamaAt
  rw [Int.toNat_natCast, htest, hright, bind_eq_bind, bind_some, serverAt,
    getElem?_append_left, getElem?_map, hpoint]
  · rfl
  · rw [length_map]
    exact (List.getElem?_eq_some_iff.mp hpoint).1

end Ketama

/-! ## Every key -/

/-- The continuum of a configuration is built, and `Route` returns one of its servers for every key: no remainder by zero,
and no read of a point that was not written. -/
def DispatchTotal (p : TwemParsed) : Prop :=
  ∀ env : KetamaEnv,
    (∃ vContinuum ncontinuum, TwemRoute.Updated env ⟨p, vContinuum, ncontinuum⟩) ∧
      ∀ vContinuum ncontinuum, TwemRoute.Updated env ⟨p, vContinuum, ncontinuum⟩ →
        ∀ (hash : FuncHash → List UInt8 → UInt32) (draw : Nat) (key : List UInt8),
          ∃ server ∈ p.vServers, TwemRoute.route ⟨p, vContinuum, ncontinuum⟩ hash draw key = some server

section Total

variable {p : TwemParsed}

theorem dispatchTotal_ketama (hdist : p.dispatch = .ketama) (hpos : 0 < p.vServers.length)
    (hn : p.vServers.length < maxRedisGroup) (hw : ∀ server ∈ p.vServers, 0 ≤ server.iWeight)
    (hsum : 0 < weightSum p.vServers) (hlt : weightSum p.vServers < 2 ^ 32) : DispatchTotal p := by
  intro env
  obtain ⟨u, points, hu, holds, hcounter, hne, hsmall, hindex⟩ := ketamaWrite_eq env hpos hn hw hsum hlt
  have hupdated : ∀ vContinuum ncontinuum, TwemRoute.Updated env ⟨p, vContinuum, ncontinuum⟩ ↔
      KetamaUpdated env p.vServers vContinuum ncontinuum := by
    intro vContinuum ncontinuum
    simp only [TwemRoute.Updated, hdist]
  constructor
  · obtain ⟨vContinuum, ncontinuum, h⟩ := KetamaUpdated.exists_sorted hu holds hcounter
    exact ⟨vContinuum, ncontinuum, (hupdated _ _).mpr h⟩
  · intro vContinuum ncontinuum h hash draw key
    obtain ⟨u', hu', hncontinuum, sorted, hperm, hpairs, hvContinuum⟩ := (hupdated _ _).mp h
    obtain rfl : u' = u := some.inj (hu'.symm.trans hu)
    have htake : u'.vServers.take u'.pointerCounter = points.map some := by
      rw [holds.vServers, hcounter, take_left' (length_map some)]
    have hdrop : u'.vServers.drop u'.pointerCounter = replicate ((p.vServers.length + 10) * 160 - points.length) none := by
      rw [holds.vServers, hcounter, drop_left' (length_map some)]
    rw [htake] at hperm
    have hperm' : sorted.Perm points := (map_perm_map_iff (some_injective _)).mp hperm
    have hlen : u'.pointerCounter = sorted.length := by rw [hcounter, hperm'.length_eq]
    obtain ⟨point, hpoint, hroute⟩ := ketamaAt_eq p.vServers sorted
      ((p.vServers.length + 10) * 160 - points.length) (fun h => hne (by rw [h] at hperm'; exact hperm'.symm.eq_nil)) hpairs
      (hash p.hash (hashPart p.tags key))
    have hi := hindex point (hperm'.mem_iff.mp hpoint)
    refine ⟨p.vServers[point.index], getElem_mem hi, ?_⟩
    rw [getElem?_eq_getElem hi] at hroute
    simp only [TwemRoute.route, hdist]
    rw [hncontinuum, hvContinuum, hdrop, hlen, int32_of_nat (by rw [hperm'.length_eq]; exact hsmall), hroute]

theorem dispatchTotal_modula (hdist : p.dispatch = .modula) (hw : ∀ server ∈ p.vServers, 0 ≤ server.iWeight)
    (hsum : 0 < weightSum p.vServers) (hlt : weightSum p.vServers + 10 < 2 ^ 31) : DispatchTotal p := by
  obtain ⟨W, hW⟩ := Int.eq_ofNat_of_zero_le hsum.le
  have hupdated : ∀ env vContinuum ncontinuum, TwemRoute.Updated env ⟨p, vContinuum, ncontinuum⟩ ↔
      modulaUpdate p.vServers = some (vContinuum, ncontinuum) := by
    intro env vContinuum ncontinuum
    simp only [TwemRoute.Updated, hdist]
  have hupdate := modulaUpdate_eq hw hW (by omega)
  intro env
  constructor
  · exact ⟨_, _, (hupdated ..).mpr hupdate⟩
  · intro vContinuum ncontinuum h hash draw key
    have heq := (hupdated ..).mp h
    rw [hupdate, some.injEq, Prod.mk.injEq] at heq
    obtain ⟨rfl, rfl⟩ := heq
    obtain ⟨j, hj, -, hmodula⟩ := modula_block hw hW (by omega) (by omega) (hash p.hash (hashPart p.tags key))
    refine ⟨p.vServers[j], getElem_mem hj, ?_⟩
    simp only [TwemRoute.route, hdist]
    exact hmodula

/-- Every key has a server if the distribution is not `random` and the weights are not negative and have a sum that is
positive and fits. -/
theorem dispatch_total (node : TwemConfig) (hparse : configParse node = some p) (hdist : p.dispatch ≠ .random)
    (hw : ∀ server ∈ p.vServers, 0 ≤ server.iWeight) (hsum : 0 < weightSum p.vServers)
    (hketama : p.dispatch = .ketama → weightSum p.vServers < 2 ^ 32)
    (hmodula : p.dispatch = .modula → weightSum p.vServers + 10 < 2 ^ 31) : DispatchTotal p := by
  obtain ⟨hpos, hn⟩ := configParse_servers hparse
  cases hd : p.dispatch with
  | ketama => exact dispatchTotal_ketama hd hpos hn hw hsum (hketama hd)
  | modula => exact dispatchTotal_modula hd hw hsum (hmodula hd)
  | random => exact absurd hd hdist

end Total

/-- A configuration without a name of a hash, a tag or an address to listen at. -/
def plainConfig (distribution : String) (servers : List String) : TwemConfig :=
  ⟨none, none, none, some (ascii distribution), false, some (servers.map ascii), none⟩

/-- The servers `a:1` and `b:2` with two weights. -/
def twoWeights (w w' : Int) : List WeightedServer := [⟨ascii "a:1", [], w, 0⟩, ⟨ascii "b:2", [], w', 1⟩]

theorem dispatch_total_two : DispatchTotal ⟨twoWeights 3 0, .fnv1a64, none, .ketama⟩ :=
  dispatch_total (plainConfig "ketama" ["a:1:3", "b:2:0"]) (by decide) (by decide) (by decide)
    (by decide) (by decide) (by decide)

/-- Three accepted configurations: `random` has no continuum; with the weights 0, `Modula` divides by zero and the
number of points of `Ketama` is not a number. -/
theorem dispatch_partial :
    configParse (plainConfig "random" ["a:1:1", "b:2:1"]) = some ⟨twoWeights 1 1, .fnv1a64, none, .random⟩ ∧
      configParse (plainConfig "modula" ["a:1:0", "b:2:0"]) = some ⟨twoWeights 0 0, .fnv1a64, none, .modula⟩ ∧
      configParse (plainConfig "ketama" ["a:1:0", "b:2:0"]) = some ⟨twoWeights 0 0, .fnv1a64, none, .ketama⟩ ∧
      ¬ DispatchTotal ⟨twoWeights 1 1, .fnv1a64, none, .random⟩ ∧
      ¬ DispatchTotal ⟨twoWeights 0 0, .fnv1a64, none, .modula⟩ ∧
      ¬ DispatchTotal ⟨twoWeights 0 0, .fnv1a64, none, .ketama⟩ := by
  let env : KetamaEnv := ⟨fun _ _ => 0, fun _ _ _ => 0⟩
  refine ⟨by decide, by decide, by decide, fun h => ?_, fun h => ?_, fun h => ?_⟩
  · obtain ⟨server, -, hroute⟩ := (h env).2 [] 1 rfl (fun _ _ => 0) 0 []
    cases hroute
  · obtain ⟨server, -, hroute⟩ := (h env).2 (replicate 10 none) 0 (by decide : modulaUpdate _ = _)
      (fun _ _ => 0) 0 []
    cases hroute
  · obtain ⟨vContinuum, ncontinuum, u, hu, -⟩ := (h env).1
    have : ketamaWrite env (twoWeights 0 0) = none := by rfl
    rw [this] at hu
    cases hu

end RedisProxy
