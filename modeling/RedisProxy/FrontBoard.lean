import RedisProxy.Lib.Programs

/-!
# The front board

The web server that hands out Redis instances. The addresses that are free are in the list `redis_pools`; an instance has
a record `redis_info:<id>` with its address, and the ids of the instances are in the sorted set `redis_list`. The handlers
`createInstance` and `delInstance` send one command after another to the Redis server that holds all this, and any number
of them run at the same time.
-/

namespace RedisProxy.FrontBoard

open Lib Prog

/-- `DB_RedisInfo`; `RedisInstance` has the same fields. -/
structure DBRedisInfo where
  id : Nat
  name : String
  addr : String
  memUsed : Nat
  dbSize : Nat
  cTime : Int
deriving DecidableEq, Repr, Inhabited

/-! ## The store -/

/-- The keys of the server: `redis_id_index`, `redis_pools`, `redis_list` with the scores, and the keys that start with
`redis_info:`. -/
structure Db where
  redisIdIndex : Nat
  redisPools : List String
  redisList : List (Nat × Int)
  redisInfo : List (Nat × DBRedisInfo)
deriving DecidableEq, Repr

inductive Cmd
  | llen
  | lpop
  | lpush (addr : String)
  | incr
  | hmset (id : Nat) (info : DBRedisInfo)
  | hmget (id : Nat)
  | existsKey (id : Nat)
  | del (id : Nat)
  | zadd (score : Int) (id : Nat)
  | zrem (id : Nat)
deriving DecidableEq, Repr

/-- What the server replies. `LPOP` has no value for an empty list, and `HMGET` has none for a key that does not exist. -/
abbrev Cmd.Reply : Cmd → Type
  | lpop => Option String
  | hmget _ => Option DBRedisInfo
  | hmset .. => Unit
  | _ => Nat

/-- A list of keys with `k` set to `v`. -/
def setKey {α : Type} (k : Nat) (v : α) (xs : List (Nat × α)) : List (Nat × α) := (k, v) :: xs.filter fun x => x.1 != k

/-- A list of keys without `k`. -/
def delKey {α : Type} (k : Nat) (xs : List (Nat × α)) : List (Nat × α) := xs.filter fun x => x.1 != k

/-- The number of times that the key exists. -/
def hasKey {α : Type} (k : Nat) (xs : List (Nat × α)) : Nat := if (xs.lookup k).isSome then 1 else 0

/-- A command is executed. -/
def Db.exec (db : Db) : (c : Cmd) → Db × c.Reply
  | .llen => (db, db.redisPools.length)
  | .lpop => ({ db with redisPools := db.redisPools.tail }, db.redisPools.head?)
  | .lpush addr => ({ db with redisPools := addr :: db.redisPools }, db.redisPools.length + 1)
  | .incr => ({ db with redisIdIndex := db.redisIdIndex + 1 }, db.redisIdIndex + 1)
  | .hmset id info => ({ db with redisInfo := setKey id info db.redisInfo }, ())
  | .hmget id => (db, db.redisInfo.lookup id)
  | .existsKey id => (db, hasKey id db.redisInfo)
  | .del id => ({ db with redisInfo := delKey id db.redisInfo }, hasKey id db.redisInfo)
  | .zadd score id => ({ db with redisList := setKey id score db.redisList }, 1 - hasKey id db.redisList)
  | .zrem id => ({ db with redisList := delKey id db.redisList }, hasKey id db.redisList)

/-- The commands that a request sends; it sends each of them at most once. -/
inductive CmdName
  | llen
  | lpop
  | lpush
  | incr
  | hmset
  | hmget
  | existsKey
  | del
  | zadd
  | zrem
deriving DecidableEq, Repr

def Cmd.name : Cmd → CmdName
  | llen => .llen
  | lpop => .lpop
  | lpush _ => .lpush
  | incr => .incr
  | hmset .. => .hmset
  | hmget _ => .hmget
  | existsKey _ => .existsKey
  | del _ => .del
  | zadd .. => .zadd
  | zrem _ => .zrem

/-- The command that fails for a request. `SetObject` does not wait for the reply to its `HMSET`, so that the failure of
it need not be noticed. -/
structure Fault where
  cmd : CmdName
  noticed : Bool
deriving DecidableEq, Repr

/-- The result of a command that fails. -/
def failed (noticed : Bool) : (c : Cmd) → Option c.Reply
  | .hmset .. => if noticed then none else some ()
  | _ => none

/-- A command of a request: a command that fails has no effect, and an error instead of a reply. -/
def act (fault : Option Fault) (c : Cmd) (db : Db) : Db × Option c.Reply :=
  match fault with
  | none => ((db.exec c).1, some (db.exec c).2)
  | some f => if f.cmd = c.name then (db, failed f.noticed c) else ((db.exec c).1, some (db.exec c).2)

/-! ## The handlers -/

/-- A program of the front board. -/
abbrev Handler (α : Type) : Type := Prog Cmd (fun c => Option c.Reply) α

/-- `Conn.Do`. -/
def connDo (c : Cmd) : Handler (Option c.Reply) := send c

/-- The `ERR_` constants. -/
inductive Err
  | ok
  | db
  | redisPoolsEmpty
  | urlParse
  | invalidRedis
deriving DecidableEq, Repr, Inhabited

/-- `errInfoList`. -/
def Err.desc : Err → String
  | ok => "okay"
  | db => "db error"
  | redisPoolsEmpty => "can not create more redis"
  | urlParse => "parse quest failed"
  | invalidRedis => "redis not exists"

structure ErrInfo where
  ret : Err
  retInfo : String
deriving DecidableEq, Repr

/-- `GetErrInfo`. -/
def getErrInfo (ret : Err) : ErrInfo := ⟨ret, ret.desc⟩

/-- `InvalidRedis`: whether the instance exists. -/
def invalidRedis (id : Nat) : Handler Bool := do
  match ← connDo (.existsKey id) with
  | none => return false
  | some exist => return 0 < (exist : Nat)

/-- `GetRedisInfo`. Fields that have no value in the reply keep their zero value. -/
def getRedisInfo (id : Nat) : Handler (Err × Option DBRedisInfo) := do
  match ← connDo (.hmget id) with
  | none => return (.db, none)
  | some v => return (.ok, some (Option.getD v ⟨0, "", "", 0, 0, 0⟩))

/-- `CreateRedisCheck`. -/
def createRedisCheck : Handler Bool := do
  match ← connDo .llen with
  | none => return false
  | some num => return 0 < (num : Nat)

/-- `CreateRedis`, where `now` is the time. -/
def createRedis (name : String) (now : Int) : Handler (Err × Option DBRedisInfo) := do
  match ← connDo .lpop with
  | none | some none => return (.db, none)
  | some (some addr) =>
    if addr = "" then return (.redisPoolsEmpty, none)
    match ← connDo .incr with
    | none => return (.db, none)
    | some id =>
      let info : DBRedisInfo := { id, name, addr, memUsed := 0, dbSize := 0, cTime := now }
      match ← connDo (.hmset id info) with
      | none => return (.db, none)
      | some _ =>
        match ← connDo (.zadd info.cTime id) with
        | none => return (.db, none)
        | some _ => return (.ok, some info)

/-- `RecycleRedis`. The result of `DEL` is only logged. -/
def recycleRedis (info : DBRedisInfo) : Handler Bool := do
  match ← connDo (.zrem info.id) with
  | none => return false
  | some _ =>
    match ← connDo (.lpush info.addr) with
    | none => return false
    | some _ =>
      let _ ← connDo (.del info.id)
      return true

/-- The response to a request: the instance, if one has been created, and the error. -/
structure Response where
  redisInstance : Option DBRedisInfo
  ret : ErrInfo
deriving DecidableEq, Repr

/-- `createInstance`; there is no name if the payload cannot be parsed. -/
def createInstance (t : Option String) (now : Int) : Handler Response := do
  match t with
  | none => return ⟨none, getErrInfo .urlParse⟩
  | some name =>
    if ← createRedisCheck then
      match ← createRedis name now with
      | (.ok, redisInfo) => return ⟨redisInfo, getErrInfo .ok⟩
      | (errCode, _) => return ⟨none, getErrInfo errCode⟩
    else return ⟨none, getErrInfo .redisPoolsEmpty⟩

/-- `delInstance`. The response to a deletion that succeeds has no text. -/
def delInstance (t : Option Nat) : Handler Response := do
  match t with
  | none => return ⟨none, getErrInfo .urlParse⟩
  | some id =>
    if ← invalidRedis id then
      match ← getRedisInfo id with
      | (.ok, some redisInfo) =>
        if ← recycleRedis redisInfo then return ⟨none, ⟨.ok, ""⟩⟩ else return ⟨none, getErrInfo .db⟩
      | _ => return ⟨none, getErrInfo .invalidRedis⟩
    else return ⟨none, getErrInfo .invalidRedis⟩

/-- The requests. -/
inductive Request
  | createInstance (t : Option String) (now : Int)
  | delInstance (t : Option Nat)
deriving DecidableEq, Repr

def handler : Request → Handler Response
  | .createInstance t now => createInstance t now
  | .delInstance t => delInstance t

/-! ## The server -/

/-- The web server with the handlers that it has started. -/
abbrev Server : Type := Threads Db Request Cmd (fun c => Option c.Reply) Response

/-- A handler is started, or the next command of a handler is executed. No command fails. -/
def Server.step : Server → Turn Request → Option Server := Threads.step (act none) handler

/-- A request is handled while no other one is, and the command of `fault` fails. -/
def serve (db : Db) : Request × Option Fault → Option Db
  | (req, fault) => some ((handler req).exec (act fault) db).1

/-! ## Addresses -/

namespace Db

/-- The addresses of the instances. -/
def instanceAddrs (db : Db) : List String := db.redisInfo.map fun x => x.2.addr

/-- The addresses of the pool and of the instances. -/
def addrs (db : Db) : List String := db.redisPools ++ db.instanceAddrs

/-- The records are those that `CreateRedis` writes: there is one for an id, it has this id, and no id is larger than the
index. -/
structure Ok (db : Db) : Prop where
  keys : (db.redisInfo.map Prod.fst).Nodup
  own : ∀ x ∈ db.redisInfo, x.2.id = x.1
  index : ∀ x ∈ db.redisInfo, x.1 ≤ db.redisIdIndex

instance (db : Db) : Decidable db.Ok :=
  decidable_of_iff ((db.redisInfo.map Prod.fst).Nodup ∧ (∀ x ∈ db.redisInfo, x.2.id = x.1) ∧
    ∀ x ∈ db.redisInfo, x.1 ≤ db.redisIdIndex) ⟨fun h => ⟨h.1, h.2.1, h.2.2⟩, fun h => ⟨h.1, h.2, h.3⟩⟩

end Db

namespace Server

/-- A handler that deletes the instance is running. -/
def deletes (s : Server) (id : Nat) : Bool := s.threads.any fun x => x.1 == .delInstance (some id) && !x.2.isRet

/-- The addresses of the instances that are not being deleted. -/
def liveAddrs (s : Server) : List String := (s.store.redisInfo.filter fun x => !s.deletes x.1).map fun x => x.2.addr

/-- No instance is deleted twice at the same time. -/
def OneDelete (s : Server) : Turn Request → Prop
  | .start (.delInstance (some id)) => s.deletes id = false
  | _ => True

instance (s : Server) (l : Turn Request) : Decidable (s.OneDelete l) := by
  unfold OneDelete
  split <;> infer_instance

end Server

/-- The command that fails is not `INCR`, `HMSET` or `ZADD`, which a creation sends while it has the address, and not
`DEL`, which a deletion sends when it has given the address back. -/
def Harmless (fault : Option Fault) : Prop := ∀ f ∈ fault, f.cmd ≠ .incr ∧ f.cmd ≠ .hmset ∧ f.cmd ≠ .zadd ∧ f.cmd ≠ .del

instance (fault : Option Fault) : Decidable (Harmless fault) := inferInstanceAs (Decidable (∀ f ∈ fault, _))

end RedisProxy.FrontBoard
