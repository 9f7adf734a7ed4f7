import RedisProxy.Dispatch
import RedisProxy.CString

/-!
# `GR_TwemRoute` and the servers of `GR_TinyRoute`

How a configuration becomes a list of servers with a dispatch function, and how a key finds its server. What `YAML` and
the functions of the C++ library throw ends the start of the proxy; there is no result then.
-/

namespace RedisProxy

/-- `split`: `strtok` with the characters of `delim`. -/
def split (str : List UInt8) (delim : UInt8) : List (List UInt8) :=
  ((str.takeWhile (· ≠ 0)).splitOnP (· == delim)).filter (· ≠ [])

/-- `isspace`. -/
def isSpace (ch : UInt8) : Bool := ch == 32 || (9 ≤ ch && ch ≤ 13)

/-- The digits of `stoi` at the start of a text. -/
def stoiDigits (text : List UInt8) : Option Nat :=
  match text.takeWhile Byte.isDigit with
  | [] => none
  | digits => some (digits.foldl (fun v ch => v * 10 + Resp.digitNat ch) 0)

/-- `stoi(text, 0, 10)`, which throws for a text without a number and for a number that is not an `int`. -/
def stoi (text : List UInt8) : Option Int := do
  let v : Int ← match text.dropWhile isSpace with
    | 45 :: rest => (stoiDigits rest).map fun v => -(v : Int)
    | 43 :: rest => (stoiDigits rest).map fun v => (v : Int)
    | rest => (stoiDigits rest).map fun v => (v : Int)
  if -2 ^ 31 ≤ v ∧ v < 2 ^ 31 then some v else none

/-- `AddYamlRedis`: `hostname:port:weight`, and a name behind a blank. -/
def addYamlRedis (vServers : List WeightedServer) (strRedisInfo : List UInt8) : Option (List WeightedServer) :=
  if vServers.length + 1 = maxRedisGroup then none
  else
    match split strRedisInfo 32 with
    | [] => none
    | strPName :: results =>
      match split strPName Byte.colon with
      | [host, port, weight] => do
        let _ ← stoi port
        let iWeight ← stoi weight
        some (vServers ++ [⟨host ++ Byte.colon :: port, results.headD [], iWeight, vServers.length⟩])
      | _ => none

/-- `ParseYamlRedisInfo`. -/
def parseYamlRedisInfo (node : List (List UInt8)) : Option (List WeightedServer) :=
  if node = [] then none else node.foldlM addYamlRedis []

/-- `AddSentinel`, whose result is used by the connection to the sentinels only. -/
def addSentinel (strSentinelInfo : List UInt8) : Option Int :=
  match split strSentinelInfo Byte.colon with
  | [_, port] => stoi port
  | _ => none

/-- `AddSentinelRedis`: `name:weight`, where the name is the one in the sentinel. -/
def addSentinelRedis (vServers : List WeightedServer) (strRedis : List UInt8) : Option (List WeightedServer) :=
  if vServers.length + 1 = maxRedisGroup then none
  else if 130 < strRedis.length then none
  else
    match split strRedis Byte.colon with
    | [_, weight] => do
      let iWeight ← stoi weight
      some (vServers ++ [⟨[], [], iWeight, vServers.length⟩])
    | _ => none

/-- `ParseYamlSentinelInfo`. -/
def parseYamlSentinelInfo (sentinels servers : List (List UInt8)) : Option (List WeightedServer) :=
  if sentinels = [] then none
  else if servers = [] then none
  else do
    let _ ← sentinels.mapM addSentinel
    servers.foldlM addSentinelRedis []

/-- The functions for `m_FuncHash`. -/
inductive FuncHash
  | md5
  | crc16
  | crc32
  | crc32a
  | fnv164
  | fnv1a64
  | fnv132
  | fnv1a32
  | hsieh
  | murmur
  | jenkins
deriving DecidableEq, Repr

/-- The names of the hash functions. -/
def funcHash (strHash : List UInt8) : Option FuncHash :=
  if strHash = ascii "md5" then some .md5
  else if strHash = ascii "crc16" then some .crc16
  else if strHash = ascii "crc32" then some .crc32
  else if strHash = ascii "crc32a" then some .crc32a
  else if strHash = ascii "fnv1_64" then some .fnv164
  else if strHash = ascii "fnv1a_64" then some .fnv1a64
  else if strHash = ascii "fnv1_32" then some .fnv132
  else if strHash = ascii "fnv1a_32" then some .fnv1a32
  else if strHash = ascii "hsieh" then some .hsieh
  else if strHash = ascii "murmur" then some .murmur
  else if strHash = ascii "jenkins" then some .jenkins
  else none

/-- The functions for `m_FuncDispatch`. -/
inductive FuncDispatch
  | ketama
  | modula
  | random
deriving DecidableEq, Repr

/-- The names of the distributions. -/
def funcDispatch (strDist : List UInt8) : Option FuncDispatch :=
  if strDist = ascii "ketama" then some .ketama
  else if strDist = ascii "modula" then some .modula
  else if strDist = ascii "random" then some .random
  else none

/-- The node of a group in the configuration. The other entries are not used. -/
structure TwemConfig where
  listen : Option (List UInt8)
  hash : Option (List UInt8)
  hashTag : Option (List UInt8)
  distribution : Option (List UInt8)
  useSentinel : Bool
  servers : Option (List (List UInt8))
  /-- The lists `sentinels` and `servers` of `sentinel_info`. -/
  sentinelInfo : Option (List (List UInt8) × List (List UInt8))

/-- What a configuration says about the route of a key. -/
structure TwemParsed where
  vServers : List WeightedServer
  hash : FuncHash
  /-- `m_cLeftTag` and `m_cRightTag`. -/
  tags : Option (UInt8 × UInt8)
  dispatch : FuncDispatch
deriving DecidableEq, Repr

/-- `ParseListen`. -/
def parseListen (strListen : List UInt8) : Option Int :=
  match split strListen Byte.colon with
  | [_, port] => stoi port
  | _ => none

/-- The two characters of a `hash_tag`. -/
def parseHashTag : Option (List UInt8) → Option (Option (UInt8 × UInt8))
  | none => some none
  | some [left, right] => some (some (Resp.lowerCase left, Resp.lowerCase right))
  | some _ => none

/-- The servers of a group, from the list of the sentinels' names or from the list of addresses. -/
def TwemConfig.parseServers (node : TwemConfig) (servers : List (List UInt8)) : Option (List WeightedServer) :=
  if node.useSentinel then node.sentinelInfo.bind fun info => parseYamlSentinelInfo info.1 info.2
  else parseYamlRedisInfo servers

/-- `ConfigParse` up to the update of the continuum. -/
def configParse (node : TwemConfig) : Option TwemParsed := do
  let servers ← node.servers
  let hash ← funcHash ((node.hash.getD (ascii "fnv1a_64")).map Resp.lowerCase)
  let tags ← parseHashTag node.hashTag
  let _ ← parseListen (node.listen.getD (ascii "0.0.0.0:6379"))
  let vServers ← node.parseServers servers
  let dispatch ← funcDispatch ((node.distribution.getD (ascii "ketama")).map Resp.lowerCase)
  some ⟨vServers, hash, tags, dispatch⟩

/-- A route with its continuum. -/
structure TwemRoute extends TwemParsed where
  vContinuum : List (Option Continuum)
  ncontinuum : Int

/-- The update of the continuum at the end of `ConfigParse`. For `random` there is none: `m_vContinuum` points nowhere and
`ncontinuum` has any value. -/
def TwemRoute.Updated (env : KetamaEnv) (r : TwemRoute) : Prop :=
  match r.dispatch with
  | .ketama => KetamaUpdated env r.vServers r.vContinuum r.ncontinuum
  | .modula => modulaUpdate r.vServers = some (r.vContinuum, r.ncontinuum)
  | .random => r.vContinuum = []

/-- The part of the key between the tags, or the key. -/
def hashPart (tags : Option (UInt8 × UInt8)) (key : List UInt8) : List UInt8 :=
  match tags with
  | none => key
  | some (left, right) =>
    match key.dropWhile (· ≠ left) with
    | [] => key
    | _ :: rest =>
      if right ∈ rest ∧ 0 < (rest.takeWhile (· ≠ right)).length then rest.takeWhile (· ≠ right) else key

/-- `Route`: the server whose event is returned. `hash` says what the hash functions compute, and `draw` is the number
that the random engine returns. -/
def TwemRoute.route (r : TwemRoute) (hash : FuncHash → List UInt8 → UInt32) (draw : Nat) (key : List UInt8) :
    Option WeightedServer :=
  let uiKey := hash r.hash (hashPart r.tags key)
  match r.dispatch with
  | .ketama => ketamaAt r.vServers r.vContinuum r.ncontinuum uiKey
  | .modula => modula r.vServers r.vContinuum r.ncontinuum uiKey
  | .random => random r.vServers r.vContinuum r.ncontinuum draw

/-- `GR_TinyRoute::AddRedis`: `ip:port@dbid`. A `GR_TinyRedisServer` has the weight 1, and no name is set. -/
def tinyAddRedis (vServers : List WeightedServer) (redisInfo : List UInt8) : Option (List WeightedServer) :=
  if vServers.length + 1 = maxRedisGroup then none
  else
    match split redisInfo 64 with
    | [addr, _] =>
      match split addr Byte.colon with
      | [_, port] => do
        let _ ← stoi port
        some (vServers ++ [⟨addr, [], 1, vServers.length⟩])
      | _ => none
    | _ => none

/-- The servers of `GR_TinyRoute::Init`. -/
def tinyServers (servers : List (List UInt8)) : Option (List WeightedServer) :=
  if servers = [] ∨ maxRedisGroup < servers.length then none else servers.foldlM tinyAddRedis []

end RedisProxy
