import RedisProxy.TwemRoute
import RedisProxy.Proofs.KetamaPointsProofs
import RedisProxy.Proofs.ModulaProofs
import RedisProxy.Proofs.PackageMsgProofs

/-!
# Proofs: the labels of the points

A label is the name of a server and a number. With equal weights the numbers have one or two digits. A label that fits into
the buffer gives back the name and the number; a longer one is cut within its number.
-/

namespace RedisProxy

open Lib List Option Byte

/-! ## Texts -/

theorem length_decimalText_le {k : Nat} (h : k < 100) : (decimalText k).length ≤ 2 := by
  by_cases h10 : k < 10
  · rw [length_decimalText_lt h10]
    decide
  · rw [length_decimalText_ge (by omega), length_decimalText_lt (by omega)]

theorem length_hostText (strName : List UInt8) (k : Nat) :
    (hostText strName k).length = strName.length + 1 + (decimalText k).length := by
  rw [hostText, length_append, length_cons]
  omega

/-- The number behind the last hyphen. -/
theorem hostText_inj {strName strName' : List UInt8} {k l : Nat} (h : hostText strName k = hostText strName' l) :
    strName = strName' ∧ k = l := by
  have hsub : ∀ n, sub ∉ decimalText n := fun n => decimalText_notMem n rfl
  rcases append_eq_append_iff.mp h with ⟨cs, hname, hnum⟩ | ⟨cs, hname, hnum⟩
  · cases cs with
    | nil =>
      rw [append_nil] at hname
      exact ⟨hname.symm, decimalText_inj (cons.inj hnum).2⟩
    | cons c cs =>
      have hmem : sub ∈ decimalText k := by
        rw [(cons.inj hnum).2]
        simp
      exact absurd hmem (hsub k)
  · cases cs with
    | nil =>
      rw [append_nil] at hname
      exact ⟨hname, (decimalText_inj (cons.inj hnum).2).symm⟩
    | cons c cs =>
      have hmem : sub ∈ decimalText l := by
        rw [(cons.inj hnum).2]
        simp
      exact absurd hmem (hsub l)

/-- A label that fits is hashed as it is. -/
theorem ketamaHost_fits (stack : Nat → UInt8) {strName : List UInt8} {k : Nat} (h : (hostText strName k).length ≤ 85) :
    ketamaHost stack strName k = hostText strName k := by
  unfold ketamaHost
  dsimp only
  rw [take_of_length_le h, take_append_of_le_length (by simp), take_append_of_le_length le_rfl,
    take_length]

/-- Two labels of the same length that agree in the first 85 bytes are hashed alike. -/
theorem ketamaHost_congr (stack : Nat → UInt8) {strName : List UInt8} {k l : Nat}
    (hlen : (hostText strName k).length = (hostText strName l).length)
    (hcut : (hostText strName k).take 85 = (hostText strName l).take 85) :
    ketamaHost stack strName k = ketamaHost stack strName l := by
  unfold ketamaHost
  dsimp only
  rw [hlen, hcut]

/-- The labels 10 and 11 of a long name are cut before the digit in which they differ. -/
theorem ketamaHost_cut (stack : Nat → UInt8) {strName : List UInt8} (h : 83 ≤ strName.length) :
    ketamaHost stack strName 10 = ketamaHost stack strName 11 := by
  have htext : ∀ c, (strName ++ [sub, 49, c]).take 85 = (strName ++ [sub, 49]).take 85 := by
    intro c
    rw [show [sub, 49, c] = [sub, 49] ++ [c] from rfl, ← append_assoc,
      take_append_of_le_length (by simp; omega)]
  have h10 : hostText strName 10 = strName ++ [sub, 49, 48] := by rw [hostText]; congr 1; decide +kernel
  have h11 : hostText strName 11 = strName ++ [sub, 49, 49] := by rw [hostText]; congr 1; decide +kernel
  apply ketamaHost_congr
  · rw [h10, h11, length_append, length_append]
    rfl
  · rw [h10, h11, htext, htext]

/-! ## Accepted configurations -/

/-- The servers of an accepted configuration whose keys are dispatched by `Ketama`. -/
inductive KetamaConfigured : List WeightedServer → Prop
  | twem {node : TwemConfig} {r : TwemParsed} : configParse node = some r → r.dispatch = .ketama → KetamaConfigured r.vServers
  | tiny {servers : List (List UInt8)} {vServers : List WeightedServer} :
      tinyServers servers = some vServers → KetamaConfigured vServers

/-- A server is added while there is room. -/
def AddsOne (add : List WeightedServer → List UInt8 → Option (List WeightedServer)) : Prop :=
  ∀ vServers info vServers', add vServers info = some vServers' →
    vServers.length + 1 ≠ maxRedisGroup ∧ ∃ server, vServers' = vServers ++ [server]

theorem addYamlRedis_addsOne : AddsOne addYamlRedis := by
  intro vServers info vServers' h
  unfold addYamlRedis at h
  split_ifs at h with hroom
  split at h
  · cases h
  · split at h
    · obtain ⟨port, -, h⟩ := bind_eq_some_iff.mp h
      obtain ⟨iWeight, -, h⟩ := bind_eq_some_iff.mp h
      cases h
      exact ⟨hroom, _, rfl⟩
    · cases h

theorem addSentinelRedis_addsOne : AddsOne addSentinelRedis := by
  intro vServers info vServers' h
  unfold addSentinelRedis at h
  split_ifs at h with hroom hlen
  split at h
  · obtain ⟨iWeight, -, h⟩ := bind_eq_some_iff.mp h
    cases h
    exact ⟨hroom, _, rfl⟩
  · cases h

theorem tinyAddRedis_addsOne : AddsOne tinyAddRedis := by
  intro vServers info vServers' h
  unfold tinyAddRedis at h
  split_ifs at h with hroom
  split at h
  · split at h
    · obtain ⟨port, -, h⟩ := bind_eq_some_iff.mp h
      cases h
      exact ⟨hroom, _, rfl⟩
    · cases h
  · cases h

/-- As many servers as entries, and never 1024. -/
theorem AddsOne.foldlM {add : List WeightedServer → List UInt8 → Option (List WeightedServer)} (hadd : AddsOne add)
    (infos : List (List UInt8)) : ∀ {vServers vServers' : List WeightedServer}, vServers.length < maxRedisGroup →
      infos.foldlM add vServers = some vServers' →
      vServers'.length < maxRedisGroup ∧ vServers'.length = vServers.length + infos.length := by
  induction infos with
  | nil =>
    intro vServers vServers' hlt h
    cases h
    exact ⟨hlt, rfl⟩
  | cons info infos ih =>
    intro vServers vServers' hlt h
    obtain ⟨vServers₁, h₁, h₂⟩ := bind_eq_some_iff.mp h
    obtain ⟨hroom, server, rfl⟩ := hadd _ _ _ h₁
    have hlen : (vServers ++ [server]).length = vServers.length + 1 := by simp
    obtain ⟨hlt', hlen'⟩ := ih (by omega) h₂
    exact ⟨hlt', by rw [hlen', hlen, length_cons]; omega⟩

/-- An accepted configuration has servers, and not too many. -/
theorem configParse_servers {node : TwemConfig} {r : TwemParsed} (h : configParse node = some r) :
    0 < r.vServers.length ∧ r.vServers.length < maxRedisGroup := by
  obtain ⟨servers, -, h⟩ := bind_eq_some_iff.mp h
  obtain ⟨hash, -, h⟩ := bind_eq_some_iff.mp h
  obtain ⟨tags, -, h⟩ := bind_eq_some_iff.mp h
  obtain ⟨port, -, h⟩ := bind_eq_some_iff.mp h
  obtain ⟨vServers, hservers, h⟩ := bind_eq_some_iff.mp h
  obtain ⟨dispatch, -, h⟩ := bind_eq_some_iff.mp h
  cases h
  have hempty : ([] : List WeightedServer).length < maxRedisGroup := by decide
  unfold TwemConfig.parseServers at hservers
  split_ifs at hservers with hsentinel
  · obtain ⟨info, -, hservers⟩ := bind_eq_some_iff.mp hservers
    unfold parseYamlSentinelInfo at hservers
    split_ifs at hservers with hsen hser
    obtain ⟨ports, -, hservers⟩ := bind_eq_some_iff.mp hservers
    obtain ⟨hlt, hlen⟩ := addSentinelRedis_addsOne.foldlM _ hempty hservers
    have := length_pos_of_ne_nil hser
    exact ⟨by rw [hlen]; omega, hlt⟩
  · unfold parseYamlRedisInfo at hservers
    split_ifs at hservers with hser
    obtain ⟨hlt, hlen⟩ := addYamlRedis_addsOne.foldlM _ hempty hservers
    have := length_pos_of_ne_nil hser
    exact ⟨by rw [hlen]; omega, hlt⟩

theorem KetamaConfigured.servers {vServers : List WeightedServer} (h : KetamaConfigured vServers) :
    0 < vServers.length ∧ vServers.length < maxRedisGroup := by
  cases h with
  | twem h _ => exact configParse_servers h
  | tiny h =>
    unfold tinyServers at h
    split_ifs at h with hser
    obtain ⟨hlt, hlen⟩ := tinyAddRedis_addsOne.foldlM _ (by decide) h
    have := length_pos_of_ne_nil fun h => hser (.inl h)
    exact ⟨by rw [hlen]; omega, hlt⟩

/-! ## Distinct labels -/

/-- `KetamaUpdate` hashes a label with the number `k` for the server `i`. -/
def HasLabel (vServers : List WeightedServer) (i k : Nat) (server : WeightedServer) : Prop :=
  vServers[i]? = some server ∧ ∃ points,
    pointerPerServer server.iWeight (totalWeight vServers) vServers.length = some points ∧ k < points / 4

/-- Every server has labels, and no two labels are the same, whatever lies behind the buffer. -/
structure LabelsDistinct (vServers : List WeightedServer) : Prop where
  every : ∀ i server, vServers[i]? = some server → HasLabel vServers i 0 server
  distinct : ∀ (stack : Nat → Nat → Nat → UInt8) (i k j l : Nat) (server server' : WeightedServer),
    HasLabel vServers i k server → HasLabel vServers j l server' → (i, k) ≠ (j, l) →
      ketamaHost (stack i k) server.strName k ≠ ketamaHost (stack j l) server'.strName l

section EqualWeights

variable {vServers : List WeightedServer} {w : Int}

theorem weightSum_equal (heq : ∀ server ∈ vServers, server.iWeight = w) : weightSum vServers = vServers.length * w := by
  have hmap : vServers.map (·.iWeight) = replicate vServers.length w := by
    rw [eq_replicate_iff]
    refine ⟨by simp, fun x hx => ?_⟩
    obtain ⟨server, hserver, rfl⟩ := mem_map.mp hx
    exact heq server hserver
  rw [weightSum, hmap, sum_replicate, nsmul_eq_mul]

/-- Servers of the same weight have 39 or 40 labels each. -/
theorem equal_labels (vServers : List WeightedServer) (hn : 0 < vServers.length) (hlt : vServers.length < maxRedisGroup) (hw : 0 < w)
    (heq : ∀ server ∈ vServers, server.iWeight = w) (hsum : weightSum vServers < 2 ^ 32) :
    ∃ K, 39 ≤ K ∧ K ≤ 40 ∧ ∀ i k server, HasLabel vServers i k server ↔ vServers[i]? = some server ∧ k < K := by
  obtain ⟨v, rfl⟩ := Int.eq_ofNat_of_zero_le hw.le
  have hv : 0 < v := by omega
  have htotal : totalWeight vServers = vServers.length * v := by
    have := totalWeight_eq (fun s hs => by rw [heq s hs]; omega) hsum
    rw [weightSum_equal heq] at this
    exact_mod_cast this
  have hT : 0 < vServers.length * v := Nat.mul_pos hn hv
  obtain ⟨K, hK, hupper, hlower⟩ := pointerPerServer_spec (n := vServers.length) hT
    (Nat.le_mul_of_pos_left v hn) hlt
  have hfair : fairPoints v (vServers.length * v) vServers.length = 40 := by
    have hn' : (vServers.length : ℚ) ≠ 0 := by exact_mod_cast hn.ne'
    have hv' : (v : ℚ) ≠ 0 := by exact_mod_cast hv.ne'
    rw [fairPoints]
    push_cast
    field_simp
  have hK39 : 39 ≤ K := by
    have : (38 : ℚ) < K := by linarith
    have : 38 < K := by exact_mod_cast this
    omega
  have hK40 : K ≤ 40 := by
    have : (K : ℚ) < 41 := by linarith
    have : K < 41 := by exact_mod_cast this
    omega
  refine ⟨K, hK39, hK40, fun i k server => ?_⟩
  constructor
  · rintro ⟨hserver, points, hpoints, hk⟩
    rw [heq server (mem_of_getElem? hserver), htotal, hK, some.injEq] at hpoints
    exact ⟨hserver, by omega⟩
  · rintro ⟨hserver, hk⟩
    refine ⟨hserver, K * 4, ?_, by omega⟩
    rw [heq server (mem_of_getElem? hserver), htotal, hK]

end EqualWeights

/-- Two servers with the names `a` and `b`. -/
def namedServers : List WeightedServer :=
  [⟨ascii "10.0.0.1:6379", ascii "a", 1, 0⟩, ⟨ascii "10.0.0.2:6379", ascii "b", 1, 1⟩]

theorem namedServers_configured :
    configParse ⟨none, none, none, none, false, some [ascii "10.0.0.1:6379:1 a", ascii "10.0.0.2:6379:1 b"], none⟩ =
      some ⟨namedServers, .fnv1a64, none, .ketama⟩ := by decide

/-- Two servers without names. -/
def unnamedServers : List WeightedServer :=
  [⟨ascii "10.0.0.1:6379", [], 1, 0⟩, ⟨ascii "10.0.0.2:6379", [], 1, 1⟩]

end RedisProxy
