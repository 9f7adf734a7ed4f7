import RedisProxy.Lib.Search
import RedisProxy.Lib.Rounding
import RedisProxy.PackageMsg

/-!
# `GR_Dispatch`

`KetamaUpdate` gives each server a number of points on a circle of 32-bit values, and `Ketama` sends a
key to the server of the next point. `ModulaUpdate` gives each server as many points as its weight, and `Modula`
takes the hash of a key modulo the number of points. `Random` takes any point.
-/

namespace RedisProxy

open Lib

/-- `continuum`: a point of the server `index`. -/
structure Continuum where
  index : Nat
  value : UInt32
deriving DecidableEq, Repr

/-- `GR_RedisServer`, as far as `GR_Dispatch` looks at it. `pointerPerServer` is the number of its points,
which `KetamaUpdate` computes from the weights of the servers; it is a multiple of 4. -/
structure KetamaServer where
  strName : List UInt8
  pointerPerServer : Nat
  pEvent : Nat
deriving DecidableEq, Repr

/-- The values of the points of a server. `hash` is `ketama_hash` for the name of a server, the number that
is printed behind it and the alignment. -/
def KetamaServer.values (hash : List UInt8 → Nat → Nat → UInt32) (server : KetamaServer) : List UInt32 :=
  (List.range (server.pointerPerServer / 4)).flatMap fun pointerIndex =>
    (List.range 4).map fun x => hash server.strName pointerIndex x

/-- The points of all servers in the order in which the loops of `KetamaUpdate` write them. -/
def ketamaPoints (hash : List UInt8 → Nat → Nat → UInt32) (vRedisServers : List KetamaServer) : List Continuum :=
  vRedisServers.zipIdx.flatMap fun server => (server.1.values hash).map fun value => ⟨server.2, value⟩

/-- The result of `KetamaUpdate`: `qsort` by `ketama_item_cmp`. The order of points of the same value is left
open by `qsort`. -/
structure KetamaUpdate (hash : List UInt8 → Nat → Nat → UInt32) (vRedisServers : List KetamaServer)
    (vServers : List Continuum) : Prop where
  perm : vServers.Perm (ketamaPoints hash vRedisServers)
  sorted : vServers.Pairwise fun a b => a.value ≤ b.value

/-- The point that `Ketama` selects. A read outside the continuum has no result. -/
def ketamaPoint (vServers : List Continuum) (uiKey : UInt32) : Option Continuum :=
  match bisect (fun middle => (vServers[middle]?).map fun c => decide (c.value < uiKey)) vServers.length 0 vServers.length with
  | none => none
  | some right => vServers[if right = vServers.length then 0 else right]?

/-- `Ketama`: the server whose `pEvent` is returned. -/
def ketama (vRedisServers : List KetamaServer) (vServers : List Continuum) (uiKey : UInt32) : Option KetamaServer :=
  (ketamaPoint vServers uiKey).bind fun right => vRedisServers[right.index]?

/-- `GR_RedisServer`, as a configuration fills it in. -/
structure WeightedServer where
  strAddr : List UInt8
  strName : List UInt8
  iWeight : Int
  pEvent : Nat
deriving DecidableEq, Repr

/-- A conversion to `uint32`. -/
def uint32 (x : Int) : Nat := (x % 2 ^ 32).toNat

/-- `total_weight`. -/
def totalWeight (vRedisServers : List WeightedServer) : Nat :=
  vRedisServers.foldl (fun total server => uint32 (total + server.iWeight)) 0

/-- The points that an update function has allocated, and its counters. A point that was not written is `none`. The
counters are of the type `uint32`; since the number of points is an `int`, they leave the allocation before they can
overflow. -/
structure ContinuumUpdate where
  vServers : List (Option Continuum)
  continuumIndex : Nat
  pointerCounter : Nat
deriving DecidableEq, Repr

/-- `new continuum[ncontinuum]`, which throws for a negative number. -/
def newContinuum (ncontinuum : Int) : Option ContinuumUpdate :=
  if ncontinuum < 0 then none else some ⟨List.replicate ncontinuum.toNat none, 0, 0⟩

/-- `vServers[continuum_index++]` gets a value. A write behind the allocation has no result. -/
def ContinuumUpdate.write (u : ContinuumUpdate) (point : Continuum) : Option ContinuumUpdate :=
  if u.continuumIndex < u.vServers.length then
    some { u with vServers := u.vServers.set u.continuumIndex (some point), continuumIndex := u.continuumIndex + 1 }
  else none

/-- The server of the point at `place`. A read outside the allocation, or of a point that was not written, has no
result. -/
def serverAt (vRedisServers : List WeightedServer) (vServers : List (Option Continuum)) (place : Nat) :
    Option WeightedServer :=
  match vServers[place]? with
  | some (some point) => vRedisServers[point.index]?
  | _ => none

/-- The loop over `weight_index` for the server `serverIndex`. The comparison with the weight is one of `uint32`. -/
def modulaServer (u : ContinuumUpdate) (server : WeightedServer × Nat) : Option ContinuumUpdate :=
  (List.range (uint32 server.1.iWeight)).foldlM (fun u _ => do
    let u ← u.write ⟨server.2, 0⟩
    some { u with pointerCounter := u.pointerCounter + 1 }) u

/-- `ModulaUpdate`: the allocated points and `ncontinuum`. -/
def modulaUpdate (vRedisServers : List WeightedServer) : Option (List (Option Continuum) × Int) := do
  let u ← newContinuum (int32 (uint32 (totalWeight vRedisServers + 10)))
  let u ← vRedisServers.zipIdx.foldlM modulaServer u
  some (u.vServers, int32 u.pointerCounter)

/-! ## The points of `KetamaUpdate`

`pct` and the number of points are computed in `float`, with one sum in `double`. Neither format is left at its small
end: a fraction of the weights that is not 0 is at least `2 ^ -32`. -/

/-- A value of the type `float`. -/
def float (q : ℚ) : ℚ := roundTo 24 q

/-- A value of the type `double`. -/
def double (q : ℚ) : ℚ := roundTo 53 q

/-- `pointer_per_server`. There is no result if `pct` is not a number or infinite, or if the conversion to `uint32` has no
defined value. -/
def pointerPerServer (iWeight : Int) (totalWeight nliveServer : Nat) : Option Nat :=
  if totalWeight = 0 then none
  else
    let pct := float (float iWeight / float totalWeight)
    let points := float (double (float (float (float (pct * 160) / 4) * float nliveServer) + double (1 / 10 ^ 10)))
    let pointerPerServer := float (⌊points⌋ * 4)
    if 0 ≤ pointerPerServer ∧ pointerPerServer < 2 ^ 32 then some ⌊pointerPerServer⌋.toNat else none

/-- What `"%.*s-%u"` prints for the name of a server and a number. The name has no null byte. -/
def hostText (strName : List UInt8) (pointerIndex : Nat) : List UInt8 :=
  strName ++ Byte.sub :: decimalText pointerIndex

/-- The bytes that `ketama_hash` gets. `snprintf` writes 85 bytes at most and a null byte behind them, and `hostlen` is the
length of the whole text. `stack` is what lies behind the 86 bytes of `host`. -/
def ketamaHost (stack : Nat → UInt8) (strName : List UInt8) (pointerIndex : Nat) : List UInt8 :=
  let text := hostText strName pointerIndex
  let host := text.take 85 ++ List.replicate (86 - (text.take 85).length) 0
  (host ++ (List.range (text.length - 86)).map stack).take text.length

/-- What `KetamaUpdate` computes its points with: `ketama_hash`, and the bytes behind `host` at a server and an index. -/
structure KetamaEnv where
  hash : List UInt8 → Nat → UInt32
  stack : Nat → Nat → Nat → UInt8

/-- The four points of one label. -/
def ketamaLabel (env : KetamaEnv) (server : WeightedServer × Nat) (u : ContinuumUpdate) (pointerIndex : Nat) :
    Option ContinuumUpdate :=
  let host := ketamaHost (env.stack server.2 pointerIndex) server.1.strName pointerIndex
  (List.range 4).foldlM (fun u x => u.write ⟨server.2, env.hash host x⟩) u

/-- The loop over `pointer_index` for one server. -/
def ketamaServer (env : KetamaEnv) (totalWeight nliveServer : Nat) (u : ContinuumUpdate)
    (server : WeightedServer × Nat) : Option ContinuumUpdate := do
  let points ← pointerPerServer server.1.iWeight totalWeight nliveServer
  let u ← (List.range (points / 4)).foldlM (ketamaLabel env server) u
  some { u with pointerCounter := u.pointerCounter + points }

/-- The points that `KetamaUpdate` writes before it sorts them. -/
def ketamaWrite (env : KetamaEnv) (vRedisServers : List WeightedServer) : Option ContinuumUpdate := do
  let u ← newContinuum (int32 (uint32 ((vRedisServers.length + 10) * 160)))
  vRedisServers.zipIdx.foldlM (ketamaServer env (totalWeight vRedisServers) vRedisServers.length) u

/-- `KetamaUpdate`: the allocated points and `ncontinuum`. `qsort` sorts the first `pointer_counter` points by their
values and leaves the order of points of the same value open. -/
def KetamaUpdated (env : KetamaEnv) (vRedisServers : List WeightedServer) (vServers : List (Option Continuum))
    (ncontinuum : Int) : Prop :=
  ∃ u, ketamaWrite env vRedisServers = some u ∧ ncontinuum = int32 u.pointerCounter ∧
    ∃ points : List Continuum, (points.map some).Perm (u.vServers.take u.pointerCounter) ∧
      (points.Pairwise fun a b => a.value ≤ b.value) ∧ vServers = points.map some ++ u.vServers.drop u.pointerCounter

/-- `Ketama` over the allocated points. -/
def ketamaAt (vRedisServers : List WeightedServer) (vServers : List (Option Continuum)) (iLen : Int) (uiKey : UInt32) :
    Option WeightedServer := do
  let right ← bisect (fun middle => (vServers[middle]?).join.map fun c => decide (c.value < uiKey)) iLen.toNat 0 iLen.toNat
  serverAt vRedisServers vServers (if right = iLen.toNat then 0 else right)

/-- `Modula`: the server whose `pEvent` is returned. The remainder is one of `uint32`; a division by zero has no
result. -/
def modula (vRedisServers : List WeightedServer) (vServers : List (Option Continuum)) (iLen : Int) (uiKey : UInt32) :
    Option WeightedServer :=
  if uint32 iLen = 0 then none else serverAt vRedisServers vServers (uiKey.toNat % uint32 iLen)

/-- `Random`: the engine returns `draw`, an `unsigned long`. -/
def random (vRedisServers : List WeightedServer) (vServers : List (Option Continuum)) (iLen : Int) (draw : Nat) :
    Option WeightedServer :=
  if iLen = 0 then none else serverAt vRedisServers vServers (draw % (iLen % 2 ^ 64).toNat)

end RedisProxy
