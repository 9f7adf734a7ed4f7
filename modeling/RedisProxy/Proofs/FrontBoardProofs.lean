import RedisProxy.FrontBoard

/-!
# Where the addresses are

Between two commands an address can be in a handler: a creation has taken it from the pool and not yet written the
record, or a deletion has given it back and not yet deleted the record. The ghost value of a handler says which; with it
each address has as many places after a command as before.
-/

namespace RedisProxy.FrontBoard

variable {α : Type} {k : Nat}

open Lib Prog List Option

/-! ## Keys -/

theorem lookup_eq_some {xs : List (Nat × α)} (h : (xs.map Prod.fst).Nodup) {v : α} :
    xs.lookup k = some v ↔ (k, v) ∈ xs := by
  induction xs with
  | nil => simp
  | cons x xs ih =>
    obtain ⟨hx, hxs⟩ := nodup_cons.mp h
    obtain ⟨k', v'⟩ := x
    by_cases hk : k = k'
    · subst hk
      have hnot : (k, v) ∉ xs := fun hm => hx (mem_map.mpr ⟨(k, v), hm, rfl⟩)
      simp [hnot, eq_comm]
    · simp [lookup_cons, beq_eq_false_iff_ne.mpr hk, hk, ih hxs]

theorem hasKey_pos {xs : List (Nat × α)} (h : (xs.map Prod.fst).Nodup) : 0 < hasKey k xs ↔ k ∈ xs.map Prod.fst := by
  have hsome : (xs.lookup k).isSome = true ↔ k ∈ xs.map Prod.fst := by
    rw [Option.isSome_iff_exists, List.mem_map]
    constructor
    · rintro ⟨v, hv⟩
      exact ⟨(k, v), (lookup_eq_some h).mp hv, rfl⟩
    · rintro ⟨⟨_, v⟩, hm, rfl⟩
      exact ⟨v, (lookup_eq_some h).mpr hm⟩
  rw [← hsome, hasKey]
  split <;> simp_all

theorem setKey_of_not_mem {xs : List (Nat × α)} (h : k ∉ xs.map Prod.fst) (v : α) : setKey k v xs = (k, v) :: xs := by
  rw [setKey, filter_eq_self.mpr]
  intro x hx
  have hne : x.1 ≠ k := fun hk => h (hk ▸ mem_map_of_mem hx)
  simpa using hne

theorem mem_delKey {xs : List (Nat × α)} {x : Nat × α} : x ∈ delKey k xs ↔ x ∈ xs ∧ x.1 ≠ k := by
  simp [delKey]

theorem decide_not_mem_cons (x k : Nat) (ks : Multiset Nat) : decide (x ∉ k ::ₘ ks) = (decide (x ∉ ks) && x != k) := by
  by_cases h : x = k
  · simp [h]
  · simp [h]

/-- One record is left out of those that are counted. -/
theorem count_without {xs : List (Nat × DBRedisInfo)} (h : (xs.map Prod.fst).Nodup) {info : DBRedisInfo}
    (hx : (k, info) ∈ xs) (P : Nat → Bool) (hk : P k = true) (a : String) :
    ((xs.filter fun x => P x.1).map fun x => x.2.addr).count a =
      ((xs.filter fun x => P x.1 && x.1 != k).map fun x => x.2.addr).count a + if info.addr = a then 1 else 0 := by
  induction xs with
  | nil => cases hx
  | cons x xs ih =>
    obtain ⟨hout, hxs⟩ := nodup_cons.mp h
    rcases mem_cons.mp hx with rfl | hx
    · have hrest : xs.filter (fun x => P x.1 && x.1 != k) = xs.filter fun x => P x.1 := by
        refine filter_congr fun y hy => ?_
        have hne : y.1 ≠ k := fun hyk => hout (mem_map.mpr ⟨y, hy, hyk⟩)
        simp [hne]
      simp [hk, hrest, count_cons]
    · have hne : x.1 ≠ k := fun hxk => hout (mem_map.mpr ⟨_, hx, hxk.symm⟩)
      by_cases hP : P x.1 = true
      · simp only [filter_cons, hP, hne, bne_iff_ne, ne_eq, not_false_eq_true, Bool.true_and, if_true, map_cons,
          count_cons, ih hxs hx]
        omega
      · simp only [filter_cons, hP, Bool.false_and, Bool.false_eq_true, if_false, ih hxs hx]

namespace Db

variable {db : Db}

/-- The record of a new id. -/
theorem Ok.insert (h : db.Ok) {id : Nat} (hid : id ≤ db.redisIdIndex) (hnew : id ∉ db.redisInfo.map Prod.fst)
    {info : DBRedisInfo} (hinfo : info.id = id) : Ok { db with redisInfo := (id, info) :: db.redisInfo } where
  keys := nodup_cons.mpr ⟨hnew, h.keys⟩
  own := by
    intro x hx
    rcases mem_cons.mp hx with rfl | hx
    · exact hinfo
    · exact h.own x hx
  index := by
    intro x hx
    rcases mem_cons.mp hx with rfl | hx
    · exact hid
    · exact h.index x hx

theorem Ok.delete (h : db.Ok) (id : Nat) : Ok { db with redisInfo := delKey id db.redisInfo } where
  keys := h.keys.sublist (filter_sublist.map Prod.fst)
  own := fun x hx => h.own x (mem_delKey.mp hx).1
  index := fun x hx => h.index x (mem_delKey.mp hx).1

end Db

/-! ## Stages -/

/-- How far a handler is with its address or its instance. -/
inductive Stage
  | idle
  /-- The address has been taken from the pool. -/
  | popped (addr : String)
  /-- The new instance has got an id. -/
  | numbered (addr : String) (id : Nat)
  /-- The instance is going to be deleted, if it exists. -/
  | deleting (id : Nat)
  | found (id : Nat)
  | holding (info : DBRedisInfo)
  /-- The address has been given back. -/
  | pushed (info : DBRedisInfo)

namespace Stage

variable {db : Db} {t : Request} {g : Stage} {id : Nat}

/-- The address that is in no other place. -/
def held : Stage → Option String
  | popped addr => some addr
  | numbered addr _ => some addr
  | _ => none

/-- The id of the instance that is created. -/
def number : Stage → Option Nat
  | numbered _ id => some id
  | _ => none

/-- The id of the instance that is deleted. -/
def target : Stage → Option Nat
  | deleting id => some id
  | found id => some id
  | holding info => some info.id
  | pushed info => some info.id
  | _ => none

/-- The id of the record whose address is in the pool again. -/
def spent : Stage → Option Nat
  | pushed info => some info.id
  | _ => none

/-- The record that the handler has seen is still there. -/
def Found (db : Db) : Stage → Prop
  | found id => id ∈ db.redisInfo.map Prod.fst
  | holding info => (info.id, info) ∈ db.redisInfo
  | pushed info => (info.id, info) ∈ db.redisInfo
  | _ => True

/-- The stage of a handler is one of its request, and what the handler knows of the store is true: the id of a new
instance is not in use, and the record of an old one is there. -/
structure Fits (db : Db) (t : Request) (g : Stage) : Prop where
  fresh : ∀ id ∈ g.number, id ≤ db.redisIdIndex ∧ id ∉ db.redisInfo.map Prod.fst
  own : ∀ id ∈ g.target, t = .delInstance (some id)
  found : g.Found db

/-- What a handler knows stays true while the store keeps its records and gets no record with its id. -/
theorem Fits.mono {db' : Db} (h : g.Fits db t) (hindex : db.redisIdIndex ≤ db'.redisIdIndex)
    (hnew : ∀ id ∈ g.number, id ∈ db'.redisInfo.map Prod.fst → id ∈ db.redisInfo.map Prod.fst)
    (hold : ∀ x ∈ db.redisInfo, g.target = some x.1 → x ∈ db'.redisInfo) : g.Fits db' t where
  fresh := fun id hid => ⟨(h.fresh id hid).1.trans hindex, fun hm => (h.fresh id hid).2 (hnew id hid hm)⟩
  own := h.own
  found := by
    have hf := h.found
    cases g with
    | found id =>
      obtain ⟨x, hx, rfl⟩ := mem_map.mp hf
      exact mem_map_of_mem (hold x hx rfl)
    | holding info => exact hold _ hf rfl
    | pushed info => exact hold _ hf rfl
    | _ => trivial

theorem target_of_spent (h : g.spent = some id) : g.target = some id := by
  cases g with
  | pushed info => exact h
  | _ => cases h

theorem Fits.spent_mem (h : g.Fits db t) (hid : g.spent = some id) : id ∈ db.redisInfo.map Prod.fst := by
  cases g with
  | pushed info =>
    cases hid
    exact mem_map_of_mem h.found
  | _ => cases hid

theorem fits_idle (db : Db) (t : Request) : idle.Fits db t := ⟨nofun, nofun, trivial⟩

theorem fits_popped (db : Db) (t : Request) (addr : String) : (popped addr).Fits db t := ⟨nofun, nofun, trivial⟩

end Stage

/-- What the stages of the handlers have. -/
def gather {β : Type} (f : Stage → Option β) (gs : Multiset (Request × Stage)) : Multiset β := gs.filterMap fun x => f x.2

section

variable {β : Type} {f : Stage → Option β} {t : Request} {g : Stage} (gs : Multiset (Request × Stage))

theorem gather_cons : gather f ((t, g) ::ₘ gs) = match f g with
    | none => gather f gs
    | some b => b ::ₘ gather f gs := by
  cases h : f g with
  | none => exact Multiset.filterMap_cons_none _ _ h
  | some b => exact Multiset.filterMap_cons_some _ _ _ h

theorem gather_head {g' : Stage} (h : f g' = f g) : gather f ((t, g') ::ₘ gs) = gather f ((t, g) ::ₘ gs) := by
  rw [gather_cons, gather_cons, h]

theorem mem_gather {b : β} : b ∈ gather f gs ↔ ∃ x ∈ gs, f x.2 = some b := Multiset.mem_filterMap _ _

theorem gather_nodup (h : (gather f ((t, g) ::ₘ gs)).Nodup) : (gather f gs).Nodup :=
  Multiset.nodup_of_le (Multiset.filterMap_le_filterMap _ (Multiset.le_cons_self gs _)) h

end

/-- The addresses of the records that are not in the pool again. -/
def Db.unspent (db : Db) (gs : Multiset (Request × Stage)) : List String :=
  (db.redisInfo.filter fun x => x.1 ∉ gather Stage.spent gs).map fun x => x.2.addr

/-- Each address has `N` places: in the pool, in a record or in a handler. -/
structure Inv (N : String → Nat) (db : Db) (gs : Multiset (Request × Stage)) : Prop where
  ok : db.Ok
  fits : ∀ x ∈ gs, x.2.Fits db x.1
  numbers : (gather Stage.number gs).Nodup
  targets : (gather Stage.target gs).Nodup
  places : ∀ a, a ≠ "" → db.redisPools.count a + (db.unspent gs).count a + (gather Stage.held gs).count a = N a

namespace Inv

variable {N : String → Nat} {db : Db} {gs : Multiset (Request × Stage)} {t : Request} {g g' : Stage}
variable {addr : String} {rest : List String} {info : DBRedisInfo}

theorem head (h : Inv N db ((t, g) ::ₘ gs)) : g.Fits db t := h.fits (t, g) (Multiset.mem_cons_self _ _)

theorem others (h : Inv N db ((t, g) ::ₘ gs)) : ∀ x ∈ gs, x.2.Fits db x.1 :=
  fun x hx => h.fits x (Multiset.mem_cons_of_mem hx)

/-- The sorted set plays no part. -/
theorem setList (h : Inv N db gs) (xs : List (Nat × Int)) : Inv N { db with redisList := xs } gs where
  ok := ⟨h.ok.keys, h.ok.own, h.ok.index⟩
  fits := fun x hx => (h.fits x hx).mono le_rfl (fun _ _ hm => hm) fun _ hm _ => hm
  numbers := h.numbers
  targets := h.targets
  places := h.places

/-- The handler goes on without a change of the store. -/
theorem stage (h : Inv N db ((t, g) ::ₘ gs)) (hheld : g'.held = g.held) (hspent : g'.spent = g.spent)
    (hnum : g'.number = g.number) (htar : g'.target = none ∨ g'.target = g.target) (hf : g'.Fits db t) :
    Inv N db ((t, g') ::ₘ gs) where
  ok := h.ok
  fits := Multiset.forall_mem_cons.mpr ⟨hf, h.others⟩
  numbers := by
    rw [gather_head gs hnum]
    exact h.numbers
  targets := by
    rcases htar with hn | he
    · rw [gather_cons, hn]
      exact gather_nodup gs h.targets
    · rw [gather_head gs he]
      exact h.targets
  places := by
    intro a ha
    rw [Db.unspent, gather_head gs hspent, gather_head gs hheld]
    exact h.places a ha

/-- `LPOP`: the address leaves the pool. -/
theorem lpop (h : Inv N db ((t, .idle) ::ₘ gs)) (hp : db.redisPools = addr :: rest) :
    Inv N { db with redisPools := rest } ((t, .popped addr) ::ₘ gs) where
  ok := ⟨h.ok.keys, h.ok.own, h.ok.index⟩
  fits := Multiset.forall_mem_cons.mpr ⟨Stage.fits_popped _ _ _,
    fun x hx => (h.others x hx).mono le_rfl (fun _ _ hm => hm) fun _ hm _ => hm⟩
  numbers := by simpa only [gather_cons, Stage.number] using h.numbers
  targets := by simpa only [gather_cons, Stage.target] using h.targets
  places := by
    intro a ha
    have hplaces := h.places a ha
    simp only [Db.unspent, gather_cons, Stage.spent, Stage.held, hp, count_cons, beq_iff_eq] at hplaces
    simp only [Db.unspent, gather_cons, Stage.spent, Stage.held, Multiset.count_cons, ← hplaces, eq_comm]
    omega

/-- `LPOP` of an empty address: it is lost, but it is none. -/
theorem lpop_empty (h : Inv N db ((t, .idle) ::ₘ gs)) (hp : db.redisPools = "" :: rest) :
    Inv N { db with redisPools := rest } ((t, .idle) ::ₘ gs) where
  ok := ⟨h.ok.keys, h.ok.own, h.ok.index⟩
  fits := fun x hx => (h.fits x hx).mono le_rfl (fun _ _ hm => hm) fun _ hm _ => hm
  numbers := h.numbers
  targets := h.targets
  places := by
    intro a ha
    have hplaces := h.places a ha
    rw [hp, count_cons_of_ne (Ne.symm ha)] at hplaces
    exact hplaces

/-- `INCR`: the new instance gets an id. -/
theorem incr (h : Inv N db ((t, .popped addr) ::ₘ gs)) :
    Inv N { db with redisIdIndex := db.redisIdIndex + 1 } ((t, .numbered addr (db.redisIdIndex + 1)) ::ₘ gs) where
  ok := ⟨h.ok.keys, h.ok.own, fun x hx => (h.ok.index x hx).trans (Nat.le_succ _)⟩
  fits := by
    refine Multiset.forall_mem_cons.mpr ⟨⟨?_, nofun, trivial⟩,
      fun x hx => (h.others x hx).mono (Nat.le_succ _) (fun _ _ hm => hm) fun _ hm _ => hm⟩
    rintro _ ⟨⟩
    refine ⟨le_rfl, fun hm => ?_⟩
    obtain ⟨x, hx, hid⟩ := mem_map.mp hm
    have := h.ok.index x hx
    omega
  numbers := by
    simp only [gather_cons, Stage.number, Multiset.nodup_cons]
    refine ⟨fun hm => ?_, gather_nodup gs h.numbers⟩
    -- the ids of the others are not larger than the old index
    obtain ⟨x, hx, hid⟩ := (mem_gather gs).mp hm
    have := ((h.others x hx).fresh _ hid).1
    omega
  targets := by simpa only [gather_cons, Stage.target] using h.targets
  places := by
    intro a ha
    have hplaces := h.places a ha
    simpa only [Db.unspent, gather_cons, Stage.spent, Stage.held] using hplaces

/-- `HMSET`: the record of the new instance is written. -/
theorem hmset {id : Nat} (h : Inv N db ((t, .numbered addr id) ::ₘ gs)) (hid : info.id = id)
    (haddr : info.addr = addr) : Inv N { db with redisInfo := setKey id info db.redisInfo } ((t, .idle) ::ₘ gs) := by
  obtain ⟨hle, hnew⟩ := h.head.fresh id rfl
  rw [setKey_of_not_mem hnew]
  have hnum := h.numbers
  simp only [gather_cons, Stage.number, Multiset.nodup_cons] at hnum
  exact {
    ok := h.ok.insert hle hnew hid
    fits := by
      refine Multiset.forall_mem_cons.mpr ⟨Stage.fits_idle _ _, fun x hx => (h.others x hx).mono le_rfl ?_ ?_⟩
      · intro id' hid' hm
        rcases mem_cons.mp hm with rfl | hm
        · exact absurd ((mem_gather gs).mpr ⟨x, hx, hid'⟩) hnum.1
        · exact hm
      · intro y hy _
        exact mem_cons_of_mem _ hy
    numbers := by simpa only [gather_cons, Stage.number] using hnum.2
    targets := by simpa only [gather_cons, Stage.target] using h.targets
    places := by
      intro a ha
      have hplaces := h.places a ha
      have hout : id ∉ gather Stage.spent gs := by
        -- the record of a spent id is there, and that of `id` is not
        intro hm
        obtain ⟨x, hx, hxid⟩ := (mem_gather gs).mp hm
        exact hnew ((h.others x hx).spent_mem hxid)
      simp only [Db.unspent, gather_cons, Stage.spent, Stage.held, Multiset.count_cons] at hplaces
      simp only [Db.unspent, gather_cons, Stage.spent, Stage.held, filter_cons, hout, not_false_eq_true,
        decide_true, if_true, map_cons, count_cons, haddr, beq_iff_eq, ← hplaces, eq_comm (a := a)]
      omega }

/-- `LPUSH`: the address is in the pool again. -/
theorem lpush (h : Inv N db ((t, .holding info) ::ₘ gs)) :
    Inv N { db with redisPools := info.addr :: db.redisPools } ((t, .pushed info) ::ₘ gs) where
  ok := ⟨h.ok.keys, h.ok.own, h.ok.index⟩
  fits := Multiset.forall_mem_cons.mpr ⟨⟨nofun, h.head.own, h.head.found⟩,
    fun x hx => (h.others x hx).mono le_rfl (fun _ _ hm => hm) fun _ hm _ => hm⟩
  numbers := by simpa only [gather_cons, Stage.number] using h.numbers
  targets := by simpa only [gather_cons, Stage.target] using h.targets
  places := by
    intro a ha
    have hplaces := h.places a ha
    have hrec : (info.id, info) ∈ db.redisInfo := h.head.found
    have hout : info.id ∉ gather Stage.spent gs := by
      -- no other handler deletes the instance
      have htar := h.targets
      simp only [gather_cons, Stage.target, Multiset.nodup_cons] at htar
      intro hm
      obtain ⟨x, hx, hid⟩ := (mem_gather gs).mp hm
      exact htar.1 ((mem_gather gs).mpr ⟨x, hx, Stage.target_of_spent hid⟩)
    simp only [Db.unspent, gather_cons, Stage.spent, Stage.held] at hplaces
    rw [count_without h.ok.keys hrec (fun k => k ∉ gather Stage.spent gs) (by simpa using hout)] at hplaces
    simp only [Db.unspent, gather_cons, Stage.spent, Stage.held, count_cons, beq_iff_eq, ← hplaces,
      decide_not_mem_cons]
    omega

/-- `DEL`: the record is deleted. -/
theorem del (h : Inv N db ((t, .pushed info) ::ₘ gs)) :
    Inv N { db with redisInfo := delKey info.id db.redisInfo } ((t, .idle) ::ₘ gs) where
  ok := h.ok.delete info.id
  fits := by
    have htar := h.targets
    simp only [gather_cons, Stage.target, Multiset.nodup_cons] at htar
    refine Multiset.forall_mem_cons.mpr ⟨Stage.fits_idle _ _, fun x hx => (h.others x hx).mono le_rfl ?_ ?_⟩
    · intro id _ hm
      obtain ⟨y, hy, rfl⟩ := mem_map.mp hm
      exact mem_map_of_mem (mem_delKey.mp hy).1
    · intro y hy hxy
      refine mem_delKey.mpr ⟨hy, fun hid => htar.1 ((mem_gather gs).mpr ⟨x, hx, ?_⟩)⟩
      rw [hxy, hid]
  numbers := by simpa only [gather_cons, Stage.number] using h.numbers
  targets := by
    have htar := gather_nodup gs h.targets
    simpa only [gather_cons, Stage.target] using htar
  places := by
    intro a ha
    have hplaces := h.places a ha
    simp only [Db.unspent, gather_cons, Stage.spent, Stage.held, ← hplaces, delKey, List.filter_filter,
      decide_not_mem_cons]

end Inv

/-! ## The handlers -/

section

variable {N : String → Nat} {fault : Option Fault} {t : Request}

theorem act_cases (fault : Option Fault) (c : Cmd) (db : Db) :
    act fault c db = ((db.exec c).1, some (db.exec c).2) ∨
      ∃ f ∈ fault, f.cmd = c.name ∧ act fault c db = (db, failed f.noticed c) := by
  cases fault with
  | none => exact .inl rfl
  | some f =>
    by_cases h : f.cmd = c.name
    · exact .inr ⟨f, rfl, h, if_pos h⟩
    · exact .inl (if_neg h)

theorem act_of_ne {c : Cmd} (h : ∀ f ∈ fault, f.cmd ≠ c.name) (db : Db) :
    act fault c db = ((db.exec c).1, some (db.exec c).2) := by
  rcases act_cases fault c db with h' | ⟨f, hf, hc, _⟩
  · exact h'
  · exact absurd hc (h f hf)

/-- `CreateRedisCheck` changes nothing. -/
theorem createRedisCheck_safe : createRedisCheck.Safe (act fault) (Inv N) t (fun _ g => g = .idle) .idle := by
  intro db gs hi
  refine ⟨.idle, ?_⟩
  rcases act_cases fault .llen db with h | ⟨f, _, _, h⟩
  · rw [h]
    exact ⟨hi, rfl⟩
  · rw [h]
    exact ⟨hi, rfl⟩

/-- `CreateRedis` keeps the places of the addresses, if no command fails while it has one. -/
theorem createRedis_safe (hf : Harmless fault)
    (name : String) (now : Int) : (createRedis name now).Safe (act fault) (Inv N) t (fun _ g => g = .idle) .idle := by
  intro db gs hi
  rcases act_cases fault .lpop db with h | ⟨f, _, _, h⟩
  · rw [h]
    cases hp : db.redisPools with
    | nil =>
      have hdb : (db.exec .lpop).1 = db := by
        rw [Db.exec, hp, tail_nil, ← hp]
      have hnone : (db.exec .lpop).2 = none := by simp [Db.exec, hp]
      rw [hdb, hnone]
      exact ⟨.idle, hi, rfl⟩
    | cons addr rest =>
      have hdb : (db.exec .lpop).1 = { db with redisPools := rest } := by simp [Db.exec, hp]
      have hsome : (db.exec .lpop).2 = some addr := by simp [Db.exec, hp]
      rw [hdb, hsome]
      by_cases haddr : addr = ""
      · subst haddr
        exact ⟨.idle, hi.lpop_empty hp, rfl⟩
      · refine ⟨.popped addr, hi.lpop hp, ?_⟩
        simp only [andThen, haddr, if_false]
        intro db gs hi
        rw [act_of_ne (c := .incr) fun f hm => (hf f hm).1]
        refine ⟨.numbered addr (db.redisIdIndex + 1), hi.incr, ?_⟩
        intro db' gs hi
        rw [act_of_ne (c := .hmset _ _) fun f hm => (hf f hm).2.1]
        refine ⟨.idle, hi.hmset rfl rfl, ?_⟩
        intro db' gs hi
        rw [act_of_ne (c := .zadd _ _) fun f hm => (hf f hm).2.2.1]
        exact ⟨.idle, hi.setList _, rfl⟩
  · rw [h]
    exact ⟨.idle, hi, rfl⟩

/-- `InvalidRedis` finds the record, or there is nothing to delete. -/
theorem invalidRedis_safe (id : Nat) : (invalidRedis id).Safe (act fault) (Inv N) t
    (fun exist g => g = if exist then .found id else .idle) (.deleting id) := by
  intro db gs hi
  have hidle : Inv N db ((t, .idle) ::ₘ gs) := hi.stage rfl rfl rfl (.inl rfl) (Stage.fits_idle _ _)
  rcases act_cases fault (.existsKey id) db with h | ⟨f, _, _, h⟩
  · rw [h]
    by_cases hk : 0 < hasKey id db.redisInfo
    · have hfits : (Stage.found id).Fits db t := ⟨nofun, hi.head.own, (hasKey_pos hi.ok.keys).mp hk⟩
      exact ⟨.found id, hi.stage rfl rfl rfl (.inr rfl) hfits, (if_pos (decide_eq_true hk)).symm⟩
    · exact ⟨.idle, hidle, (if_neg (mt of_decide_eq_true hk)).symm⟩
  · rw [h]
    exact ⟨.idle, hidle, rfl⟩

/-- `GetRedisInfo` gets the record that has been found. -/
theorem getRedisInfo_safe (id : Nat) : (getRedisInfo id).Safe (act fault) (Inv N) t
    (fun r g => (r.1 ≠ .ok ∧ g = .idle) ∨ ∃ info, r = (.ok, some info) ∧ g = .holding info) (.found id) := by
  intro db gs hi
  rcases act_cases fault (.hmget id) db with h | ⟨f, _, _, h⟩
  · rw [h]
    obtain ⟨x, hx, rfl⟩ := mem_map.mp hi.head.found
    have hlookup : db.redisInfo.lookup x.1 = some x.2 := (lookup_eq_some hi.ok.keys).mpr hx
    have hid : x.2.id = x.1 := hi.ok.own x hx
    have hfits : (Stage.holding x.2).Fits db t := by
      refine ⟨nofun, ?_, ?_⟩
      · intro id hid'
        obtain rfl := some.inj hid'
        exact hi.head.own _ (congrArg some hid.symm)
      · show (x.2.id, x.2) ∈ db.redisInfo
        rw [hid]
        exact hx
    refine ⟨.holding x.2, hi.stage rfl rfl rfl (.inr (congrArg some hid)) hfits, .inr ⟨x.2, ?_, rfl⟩⟩
    exact congrArg (fun v => (Err.ok, some (Option.getD v _))) hlookup
  · rw [h]
    exact ⟨.idle, hi.stage rfl rfl rfl (.inl rfl) (Stage.fits_idle _ _), .inl ⟨nofun, rfl⟩⟩

/-- `RecycleRedis` keeps the places of the addresses, if `DEL` does not fail. -/
theorem recycleRedis_safe (hf : Harmless fault)
    (info : DBRedisInfo) : (recycleRedis info).Safe (act fault) (Inv N) t (fun _ g => g = .idle) (.holding info) := by
  intro db gs hi
  rcases act_cases fault (.zrem info.id) db with h | ⟨f, _, _, h⟩
  · rw [h]
    refine ⟨.holding info, hi.setList _, ?_⟩
    intro db gs hi
    rcases act_cases fault (.lpush info.addr) db with h | ⟨f, _, _, h⟩
    · rw [h]
      refine ⟨.pushed info, hi.lpush, ?_⟩
      intro db gs hi
      rw [act_of_ne (c := .del _) fun f hm => (hf f hm).2.2.2]
      exact ⟨.idle, hi.del, rfl⟩
    · rw [h]
      exact ⟨.idle, hi.stage rfl rfl rfl (.inl rfl) (Stage.fits_idle _ _), rfl⟩
  · rw [h]
    exact ⟨.idle, hi.stage rfl rfl rfl (.inl rfl) (Stage.fits_idle _ _), rfl⟩

/-- The stage in which a handler starts. -/
def Request.stage : Request → Stage
  | .delInstance (some id) => .deleting id
  | _ => .idle

/-- Every handler keeps the places of the addresses. -/
theorem handler_safe (hf : Harmless fault)
    (req : Request) : (handler req).Safe (act fault) (Inv N) t (fun _ g => g = .idle) req.stage := by
  cases req with
  | createInstance name now =>
    cases name with
    | none => rfl
    | some name =>
      refine createRedisCheck_safe.bind ?_
      rintro free g rfl
      cases free with
      | true =>
        refine (createRedis_safe hf name now).bind ?_
        rintro ⟨errCode, redisInfo⟩ g rfl
        cases errCode <;> rfl
      | false => rfl
  | delInstance id =>
    cases id with
    | none => rfl
    | some id =>
      refine (invalidRedis_safe id).bind ?_
      intro exist g hg
      cases exist with
      | true =>
        obtain rfl : g = .found id := hg
        refine (getRedisInfo_safe id).bind ?_
        rintro ⟨errCode, redisInfo⟩ g (⟨herr, rfl⟩ | ⟨info, ⟨⟩, rfl⟩)
        · cases errCode <;> first | rfl | exact absurd rfl herr
        · refine (recycleRedis_safe hf info).bind ?_
          rintro done g rfl
          cases done <;> rfl
      | false => exact hg

end

/-! ## Concurrent handlers -/

section

variable {N : String → Nat} {db : Db} {gs : Multiset (Request × Stage)} {t : Request}
variable {s : Server}

/-- A handler starts. -/
theorem Inv.start (h : Inv N db gs) {req : Request} (hfree : ∀ id ∈ req.stage.target, id ∉ gather Stage.target gs) :
    Inv N db ((req, req.stage) ::ₘ gs) := by
  by_cases hreq : ∃ id, req = .delInstance (some id)
  · obtain ⟨id, rfl⟩ := hreq
    refine ⟨h.ok, Multiset.forall_mem_cons.mpr ⟨⟨nofun, ?_, trivial⟩, h.fits⟩, ?_, ?_, ?_⟩
    · rintro _ ⟨⟩
      rfl
    · simpa only [gather_cons, Request.stage, Stage.number] using h.numbers
    · simp only [gather_cons, Request.stage, Stage.target, Multiset.nodup_cons]
      exact ⟨hfree id rfl, h.targets⟩
    · simpa only [Db.unspent, gather_cons, Request.stage, Stage.spent, Stage.held] using h.places
  · have hidle : req.stage = .idle := by
      cases req with
      | createInstance name now => rfl
      | delInstance id =>
        cases id with
        | none => rfl
        | some id => exact absurd ⟨id, rfl⟩ hreq
    rw [hidle]
    refine ⟨h.ok, Multiset.forall_mem_cons.mpr ⟨Stage.fits_idle _ _, h.fits⟩, ?_, ?_, ?_⟩
    · simpa only [gather_cons, Stage.number] using h.numbers
    · simpa only [gather_cons, Stage.target] using h.targets
    · simpa only [Db.unspent, gather_cons, Stage.spent, Stage.held] using h.places

/-- A handler has ended. -/
theorem Inv.ended (h : Inv N db ((t, .idle) ::ₘ gs)) : Inv N db gs where
  ok := h.ok
  fits := h.others
  numbers := gather_nodup gs h.numbers
  targets := gather_nodup gs h.targets
  places := by simpa only [Db.unspent, gather_cons, Stage.spent, Stage.held] using h.places

/-- No handler is running. -/
theorem inv_zero (db : Db) (h : db.Ok) : Inv (fun a => db.addrs.count a) db 0 := by
  refine ⟨h, nofun, Multiset.nodup_zero, Multiset.nodup_zero, ?_⟩
  intro a _
  simp [gather, Db.unspent, Db.addrs, Db.instanceAddrs]

/-- In every state of a run, each address has the places that it had at first. -/
theorem Server.coupled {ls : List (Turn Request)} (hok : db.Ok) (hm : Meets Server.step Server.OneDelete ⟨db, []⟩ ls)
    (hr : run Server.step ⟨db, []⟩ ls = some s) :
    ∃ gs, Threads.Coupled (act none) (Inv fun a => db.addrs.count a) .idle s.threads gs ∧
      Inv (fun a => db.addrs.count a) s.store gs := by
  refine Threads.coupled_run ?_ rfl (inv_zero db hok) hm hr
  intro s gs req hc hi hone
  refine ⟨req.stage, hi.start ?_, handler_safe (fun _ h => by cases h) req⟩
  intro id hid hm
  obtain ⟨x, hx, htar⟩ := (mem_gather _).mp hm
  have htag : x.1 = .delInstance (some id) := (hi.fits x hx).own id htar
  have hreq : req = .delInstance (some id) := by
    cases req with
    | createInstance name now => cases hid
    | delInstance id' =>
      cases id' with
      | none => cases hid
      | some id' =>
        obtain rfl := some.inj hid
        rfl
  subst hreq
  -- a handler that deletes the same instance has ended
  have hidle : x.2 = .idle := by
    refine hc.ended hx fun y hy hyx => ?_
    have hany := any_eq_false.mp hone y hy
    simpa [hyx, htag] using hany
  rw [hidle] at htar
  cases htar

/-- A record whose address is in the pool again is being deleted. -/
theorem Server.deletes_of_spent {gs : List (Request × Stage)}
    (hc : Threads.Coupled (act none) (Inv N) .idle s.threads gs) (hi : Inv N s.store gs) {id : Nat}
    (hid : id ∈ gather Stage.spent gs) : s.deletes id = true := by
  obtain ⟨x, hx, hspent⟩ := (mem_gather _).mp hid
  have htag : x.1 = .delInstance (some id) := (hi.fits x hx).own id (Stage.target_of_spent hspent)
  by_contra hnot
  have hidle : x.2 = .idle := by
    refine hc.ended hx fun y hy hyx => ?_
    have hany := any_eq_false.mp (Bool.eq_false_iff.mpr hnot) y hy
    simpa [hyx, htag] using hany
  rw [hidle] at hspent
  cases hspent

/-- When no handler is running, the handlers have nothing. -/
theorem gather_quiet {gs : List (Request × Stage)} (hc : Threads.Coupled (act none) (Inv N) .idle s.threads gs)
    (hq : s.Quiet) {β : Type} {f : Stage → Option β} (hf : f .idle = none) : gather f gs = 0 := by
  refine Multiset.eq_zero_of_forall_notMem fun b hb => ?_
  obtain ⟨x, hx, hfx⟩ := (mem_gather _).mp hb
  rw [hc.ended hx fun y hy _ => hq y hy, hf] at hfx
  cases hfx

/-- While no instance is deleted twice at the same time, an address is at most once in the pool or in the record of an
instance that is not being deleted, and when no handler is running each address is in exactly one place. -/
theorem address_in_one_place (hok : db.Ok) (hn : db.addrs.Nodup) {ls : List (Turn Request)} {s : Server}
    (hm : Meets Server.step Server.OneDelete ⟨db, []⟩ ls) (hr : run Server.step ⟨db, []⟩ ls = some s) :
    (∀ a, a ≠ "" → (s.store.redisPools ++ s.liveAddrs).count a ≤ 1) ∧
      (s.Quiet → ∀ a, a ≠ "" → s.store.addrs.count a = if a ∈ db.addrs then 1 else 0) := by
  obtain ⟨gs, hc, hi⟩ := Server.coupled hok hm hr
  constructor
  · intro a ha
    have hplaces := hi.places a ha
    have hlive : s.liveAddrs.count a ≤ (s.store.unspent gs).count a := by
      refine List.Sublist.count_le a (List.Sublist.map _ (monotone_filter_right _ fun x hx => ?_))
      have hnot : s.deletes x.1 = false := by simpa using hx
      have hout : x.1 ∉ gather Stage.spent gs := fun hid => by
        rw [Server.deletes_of_spent hc hi hid] at hnot
        cases hnot
      simpa using hout
    have hone := nodup_iff_count_le_one.mp hn a
    rw [count_append]
    omega
  · intro hq a ha
    have hplaces := hi.places a ha
    have hall : s.store.unspent gs = s.store.instanceAddrs := by
      simp [Db.unspent, Db.instanceAddrs, gather_quiet hc hq (f := Stage.spent) rfl]
    rw [hall, gather_quiet hc hq rfl] at hplaces
    rw [Db.addrs, count_append, ← hn.count]
    simpa using hplaces

end

/-- One instance, with the address `a`. -/
def oneInstance : Db :=
  { redisIdIndex := 1, redisPools := [], redisList := [(1, 0)], redisInfo := [(1, ⟨1, "r", "a", 0, 0, 0⟩)] }

/-- An instance is deleted and another one is created while the record of the first is still there. -/
def deleteAndCreate : List (Turn Request) :=
  [.start (.delInstance (some 1)), .start (.createInstance (some "s") 5), .next 0, .next 0, .next 0, .next 0, .next 1,
    .next 1, .next 1, .next 1, .next 0, .next 1]

theorem address_in_one_place_eval : ∃ s, run Server.step ⟨oneInstance, []⟩ deleteAndCreate = some s ∧
    s.store.redisInfo = [(2, ⟨2, "s", "a", 0, 0, 5⟩)] ∧ s.store.addrs.count "a" = 1 := by
  refine ⟨_, rfl, by decide, ?_⟩
  have hm : Meets Server.step Server.OneDelete ⟨oneInstance, []⟩ deleteAndCreate := by decide
  exact (address_in_one_place (by decide) (by decide) hm rfl).2 (by decide) "a"
    (by decide)

/-- Two handlers delete the same instance: both give its address back. -/
theorem address_twice_in_pool : oneInstance.Ok ∧ oneInstance.addrs.Nodup ∧ ∃ s, run Server.step ⟨oneInstance, []⟩
    [.start (.delInstance (some 1)), .start (.delInstance (some 1)), .next 0, .next 1, .next 0, .next 1, .next 0, .next 1,
      .next 0, .next 1, .next 0, .next 1] = some s ∧ s.Quiet ∧ s.store.redisPools = ["a", "a"] :=
  ⟨by decide, by decide, _, rfl, by decide, by decide⟩

/-! ## Failing commands -/

section

variable {fault : Option Fault}
variable {db : Db}

/-- The record of an address is in the list of the instances. -/
def Db.Listed (db : Db) (a : String) : Prop := ∃ x ∈ db.redisInfo, x.2.addr = a ∧ x.1 ∈ db.redisList.map Prod.fst

/-- `CreateRedis` changes nothing, or drops an empty address, or creates an instance that is listed. -/
theorem createRedis_exec (hf : Harmless fault)
    (name : String) (now : Int) (db : Db) :
    ((createRedis name now).exec (act fault) db).1 = db ∨
      ∃ addr rest, db.redisPools = addr :: rest ∧ ((createRedis name now).exec (act fault) db).1.redisPools = rest ∧
        (addr ≠ "" → ((createRedis name now).exec (act fault) db).1.Listed addr) := by
  rcases act_cases fault .lpop db with h | ⟨f, _, _, h⟩
  · cases hp : db.redisPools with
    | nil =>
      refine .inl ?_
      simp only [createRedis, connDo, send_bind, exec, h, Db.exec, hp, head?_nil, tail_nil, pure_eq]
      rw [← hp]
    | cons addr rest =>
      refine .inr ⟨addr, rest, rfl, ?_⟩
      have hincr : ∀ db, act fault .incr db = _ := act_of_ne fun f hm => (hf f hm).1
      have hhmset : ∀ id info db, act fault (.hmset id info) db = _ := fun _ _ => act_of_ne fun f hm => (hf f hm).2.1
      have hzadd : ∀ score id db, act fault (.zadd score id) db = _ := fun _ _ => act_of_ne fun f hm => (hf f hm).2.2.1
      by_cases haddr : addr = ""
      · simp [createRedis, connDo, exec, h, Db.exec, hp, haddr]
      · simp [createRedis, connDo, exec, h, Db.exec, hp, haddr, hincr, hhmset, hzadd, Db.Listed, setKey]
  · refine .inl ?_
    simp only [createRedis, connDo, send_bind, exec, h, failed, pure_eq]

/-- A creation: an address of the pool stays there, or is that of an instance that is listed. -/
theorem createInstance_exec (hf : Harmless fault)
    (name : Option String) (now : Int) (db : Db) {a : String} (ha : a ∈ db.redisPools) (hne : a ≠ "") :
    a ∈ ((createInstance name now).exec (act fault) db).1.redisPools ∨
      ((createInstance name now).exec (act fault) db).1.Listed a := by
  cases name with
  | none => exact .inl ha
  | some name =>
    have hcheck : (createRedisCheck.exec (act fault) db).1 = db := by
      rcases act_cases fault .llen db with h | ⟨f, _, _, h⟩
      · simp [createRedisCheck, connDo, exec, h, Db.exec]
      · simp [createRedisCheck, connDo, exec, h, failed]
    simp only [createInstance, exec_bind, hcheck]
    cases (createRedisCheck.exec (act fault) db).2 with
    | false => exact .inl ha
    | true =>
      simp only [if_true, exec_bind]
      have hcreate := createRedis_exec hf name now db
      rcases hexec : (createRedis name now).exec (act fault) db with ⟨db', errCode, redisInfo⟩
      rw [hexec] at hcreate
      have hplace : a ∈ db'.redisPools ∨ db'.Listed a := by
        rcases hcreate with hsame | ⟨addr, rest, hp, hrest, hlisted⟩
        · exact .inl ((show db' = db from hsame) ▸ ha)
        · rw [hp] at ha
          rcases mem_cons.mp ha with rfl | ha
          · exact .inr (hlisted hne)
          · exact .inl (hrest ▸ ha)
      cases errCode <;> exact hplace

/-- `RecycleRedis` leaves the record and the pool as they are, or deletes the record and puts its address into the
pool. -/
theorem recycleRedis_exec (hf : Harmless fault)
    (info : DBRedisInfo) (db : Db) :
    let db' := ((recycleRedis info).exec (act fault) db).1
    (db'.redisInfo = db.redisInfo ∧ db'.redisPools = db.redisPools) ∨
      (db'.redisInfo = delKey info.id db.redisInfo ∧ db'.redisPools = info.addr :: db.redisPools) := by
  have hdel : ∀ db, act fault (.del info.id) db = _ := act_of_ne fun f hm => (hf f hm).2.2.2
  rcases act_cases fault (.zrem info.id) db with h | ⟨f, _, _, h⟩
  · rcases act_cases fault (.lpush info.addr) ((db.exec (.zrem info.id)).1) with h' | ⟨f, _, _, h'⟩
    · refine .inr ?_
      simp only [recycleRedis, connDo, send_bind, exec, h, h', hdel]
      exact ⟨rfl, rfl⟩
    · refine .inl ?_
      simp only [recycleRedis, connDo, send_bind, exec, h, h', failed]
      exact ⟨rfl, rfl⟩
  · refine .inl ?_
    simp [recycleRedis, connDo, exec, h, failed]

/-- A deletion: the record stays and the pool too, or the record is deleted and its address is put into the pool once. -/
theorem delInstance_exec (hf : Harmless fault) (hok : db.Ok) {id : Nat} {info : DBRedisInfo}
    (hx : (id, info) ∈ db.redisInfo) : let db' := ((delInstance (some id)).exec (act fault) db).1
    (db'.redisInfo = db.redisInfo ∧ db'.redisPools = db.redisPools) ∨
      (id ∉ db'.redisInfo.map Prod.fst ∧ db'.redisPools = info.addr :: db.redisPools) := by
  have hlookup : db.redisInfo.lookup id = some info := (lookup_eq_some hok.keys).mpr hx
  have hhas : 0 < hasKey id db.redisInfo := (hasKey_pos hok.keys).mpr (mem_map_of_mem hx)
  rcases act_cases fault (.existsKey id) db with h | ⟨f, _, _, h⟩
  · have hexist : (invalidRedis id).exec (act fault) db = (db, true) := by
      simp [invalidRedis, connDo, exec, h, Db.exec, hhas]
    rcases act_cases fault (.hmget id) db with h' | ⟨f, _, _, h'⟩
    · have hget : (getRedisInfo id).exec (act fault) db = (db, .ok, some info) := by
        simp [getRedisInfo, connDo, exec, h', Db.exec, hlookup]
      have hret : ∀ (done : Bool) (db : Db), (exec (act fault) (if done = true then
          pure ⟨none, ⟨.ok, ""⟩⟩ else (pure ⟨none, getErrInfo .db⟩ : Handler Response)) db).1 = db := by
        intro done db
        cases done <;> rfl
      simp only [delInstance, exec_bind, hexist, if_true, hget, hret]
      rcases recycleRedis_exec hf info db with hsame | ⟨hinfo, hpools⟩
      · exact .inl hsame
      · refine .inr ⟨?_, hpools⟩
        rw [hinfo, hok.own _ hx]
        intro hm
        obtain ⟨x, hx, hxid⟩ := mem_map.mp hm
        exact (mem_delKey.mp hx).2 hxid
    · have hget : (getRedisInfo id).exec (act fault) db = (db, .db, none) := by
        simp [getRedisInfo, connDo, exec, h', failed]
      refine .inl ?_
      simp only [delInstance, exec_bind, hexist, if_true, hget]
      exact ⟨rfl, rfl⟩
  · have hexist : (invalidRedis id).exec (act fault) db = (db, false) := by
      simp [invalidRedis, connDo, exec, h, failed]
    refine .inl ?_
    simp only [delInstance, exec_bind, hexist]
    exact ⟨rfl, rfl⟩

/-- A request that is handled alone keeps the places of the addresses. -/
theorem serve_inv {N : String → Nat} {db' : Db} {x : Request × Option Fault} (h : Inv N db 0) (hx : Harmless x.2)
    (hs : serve db x = some db') : Inv N db' 0 := by
  obtain ⟨req, fault⟩ := x
  cases hs
  have hstart : Inv N db ((req, req.stage) ::ₘ 0) := h.start fun id _ hm => by simp [gather] at hm
  obtain ⟨_, rfl, hend⟩ := (handler_safe hx req).exec hstart
  exact hend.ended

/-- While no command fails between the taking of an address and the writing of its record, and no `DEL` does, the
addresses of the pool and of the instances stay the same; an address that a creation takes is that of an instance that is
listed, and a deletion puts the address into the pool once, or leaves the record and the pool as they are. -/
theorem addresses_conserved {db db' : Db} (hok : db.Ok) {ls : List (Request × Option Fault)}
    (hm : Meets serve (fun _ x => Harmless x.2) db ls) (hr : run serve db ls = some db') :
    (∀ a, a ≠ "" → db'.addrs.count a = db.addrs.count a) ∧
      ∀ req fault db'', Harmless fault → serve db' (req, fault) = some db'' →
        (∀ name now, req = .createInstance name now → ∀ a ∈ db'.redisPools, a ≠ "" →
          a ∈ db''.redisPools ∨ db''.Listed a) ∧
        ∀ id info, req = .delInstance (some id) → (id, info) ∈ db'.redisInfo →
          (db''.redisInfo = db'.redisInfo ∧ db''.redisPools = db'.redisPools) ∨
            (id ∉ db''.redisInfo.map Prod.fst ∧ db''.redisPools = info.addr :: db'.redisPools) := by
  have hinv : Inv (fun a => db.addrs.count a) db' 0 :=
    run_inv (fun _ _ _ hi hx hs => serve_inv hi hx hs) ls db db' (inv_zero db hok) hm hr
  constructor
  · intro a ha
    rw [← hinv.places a ha]
    simp [gather, Db.unspent, Db.addrs, Db.instanceAddrs]
  · intro req fault db'' hx hs
    cases hs
    constructor
    · rintro name now rfl a ha hne
      exact createInstance_exec hx name now db' ha hne
    · rintro id info rfl hmem
      exact delInstance_exec hx hinv.ok hmem

end

/-- A deletion that fails at `LPUSH` is tried again, and another instance is created. -/
def retriedDelete : List (Request × Option Fault) :=
  [(.delInstance (some 1), some ⟨.lpush, true⟩), (.delInstance (some 1), none), (.createInstance (some "s") 5, none)]

theorem addresses_conserved_eval : ∃ db', run serve oneInstance retriedDelete = some db' ∧
    db'.redisInfo = [(2, ⟨2, "s", "a", 0, 0, 5⟩)] ∧ db'.addrs.count "a" = oneInstance.addrs.count "a" := by
  refine ⟨_, rfl, by decide, ?_⟩
  have hm : Meets serve (fun _ x => Harmless x.2) oneInstance retriedDelete := by decide
  exact (addresses_conserved (by decide) hm rfl).1 "a" (by decide)

/-- `DEL` fails, and the instance is deleted again: its address is twice in the pool. `INCR` fails: the address of the
pool is lost. -/
theorem addresses_not_conserved : oneInstance.Ok ∧
    (∃ db', run serve oneInstance [(.delInstance (some 1), some ⟨.del, true⟩), (.delInstance (some 1), none)] = some db' ∧
      db'.redisPools = ["a", "a"] ∧ db'.redisInfo = []) ∧
    ∃ db', run serve oneInstance [(.delInstance (some 1), none), (.createInstance (some "s") 5, some ⟨.incr, true⟩)] =
      some db' ∧ db'.addrs = [] :=
  ⟨by decide, ⟨_, rfl, by decide, by decide⟩, _, rfl, by decide⟩

end RedisProxy.FrontBoard
