import RedisProxy.ClientRead
import RedisProxy.Proofs.ReaderProofs

/-!
# How the requests of a client are read

`ProcessMsg` takes requests from the front of the cache, one in each round of its loop (`Round`), and stops when the wait
ring is full, the parser fails or the next request is not complete (`Stops`). What holds after each round holds for the
loop. In a run whose steps are orderly the parser stays in the cache, the requests that have been taken and the bytes of the
cache are what has been received, and there is room for `read`.
-/

namespace RedisProxy

open Lib List Option

namespace ClientRead

variable {cfg : ReadConfig} {s s₀ s' : ClientRead} {ts : List Taken} {hints : List Int} {n : Nat} {iRet : ProcessRet}
variable {c : Scan} {x : Nat} {bs : List UInt8} {k : Int} {l : Label}

/-! ## The loop of `ProcessMsg` -/

/-- A round of the loop after which it goes on. -/
inductive Round (cfg : ReadConfig) (s : ClientRead) : ClientRead → Prop
  | null {m : RedisMsg} (hring : s.ring ≠ maxWaitRingLen) (hparse : s.readMsg.parseRsp s.mem = some (.startNull, m)) :
      Round cfg s { s with readMsg := m }
  | taken {m : RedisMsg} {hint : Int} {reader : Reader} (hring : s.ring ≠ maxWaitRingLen)
      (hparse : s.readMsg.parseRsp s.mem = some (.ok, m)) (hend : m.this.nowState = .msgEnd)
      (hnext : { s.toReader with readMsg := m }.startNext hint = some reader) :
      Round cfg s { take cfg { s with readMsg := m } with toReader := reader }

/-- The last round. -/
inductive Stops (s : ClientRead) : ProcessRet → ClientRead → Prop
  | full (hring : s.ring = maxWaitRingLen) : Stops s .full s
  | failed {m : RedisMsg} (hring : s.ring ≠ maxWaitRingLen) (hparse : s.readMsg.parseRsp s.mem = some (.error, m)) :
      Stops s .abort { s with readMsg := m }
  | more {m : RedisMsg} (hring : s.ring ≠ maxWaitRingLen) (hparse : s.readMsg.parseRsp s.mem = some (.ok, m))
      (hend : m.this.nowState ≠ .msgEnd) : Stops s .ok { s with readMsg := m }

theorem processMsg_rounds (h : processMsg cfg n hints s = some (iRet, s')) :
    ∃ s₁, Relation.ReflTransGen (Round cfg) s s₁ ∧ Stops s₁ iRet s' := by
  induction n generalizing s hints with
  | zero => cases h
  | succ n ih =>
    unfold processMsg at h
    by_cases hring : s.ring = maxWaitRingLen
    · rw [if_pos hring] at h
      cases h
      exact ⟨_, .refl, .full hring⟩
    rw [if_neg hring] at h
    rcases hparse : s.readMsg.parseRsp s.mem with _ | ⟨_ | _ | _, m⟩
    · rw [hparse] at h
      cases h
    · rw [hparse] at h
      dsimp only at h
      by_cases hend : m.this.nowState = .msgEnd
      · rw [if_pos hend] at h
        obtain ⟨reader, hnext, hrest⟩ := bind_eq_some_iff.mp h
        obtain ⟨s₁, hsteps, hstop⟩ := ih hrest
        exact ⟨s₁, .head (.taken hring hparse hend hnext) hsteps, hstop⟩
      · rw [if_neg hend] at h
        cases h
        exact ⟨_, .refl, .more hring hparse hend⟩
    · rw [hparse] at h
      cases h
      exact ⟨_, .refl, .failed hring hparse⟩
    · rw [hparse] at h
      obtain ⟨s₁, hsteps, hstop⟩ := ih h
      exact ⟨s₁, .head (.null hring hparse) hsteps, hstop⟩

/-- The wait ring does not get more entries than it has places. -/
theorem processMsg_ring (h : processMsg cfg n hints s = some (iRet, s')) (hle : s.ring ≤ maxWaitRingLen) :
    s'.ring ≤ maxWaitRingLen := by
  obtain ⟨s₁, hrounds, hstop⟩ := processMsg_rounds h
  have hle₁ : s₁.ring ≤ maxWaitRingLen := by
    clear hstop
    induction hrounds with
    | refl => exact hle
    | tail _ hround ih =>
      cases hround with
      | null => exact ih
      | taken hring => exact Nat.lt_of_le_of_ne ih hring
  cases hstop with
  | full => exact hle₁
  | failed => exact hle₁
  | more => exact hle₁

/-- The requests `ts` have been taken since `s₀`. -/
structure Took (s₀ s : ClientRead) (ts : List Taken) : Prop where
  taken : s.taken = s₀.taken ++ ts
  whole : ∀ t ∈ ts, t.szStart = t.szMsgStart ∧ t.szMsgStart = t.uszData
  consumed : Reader.Consumed s₀.toReader s.toReader (ts.map (·.bytes))
  ring : s.ring = s₀.ring + ts.length
  status : s.status = s₀.status
  phase : s.phase = s₀.phase
  received : s.received = s₀.received

theorem took_refl (s : ClientRead) : Took s s [] :=
  ⟨(append_nil _).symm, nofun, Reader.consumed_refl s.toReader, rfl, rfl, rfl, rfl⟩

/-- The parser does not change what has been taken. -/
theorem Took.parsed (h : Took s₀ s ts) (m : RedisMsg) : Took s₀ { s with readMsg := m } ts :=
  ⟨h.taken, h.whole, ⟨h.consumed.messages, h.consumed.content, h.consumed.room, h.consumed.kept, h.consumed.grown⟩, h.ring, h.status, h.phase,
    h.received⟩

/-- The request that is taken. -/
theorem take_taken (cfg : ReadConfig) (s : ClientRead) : ∃ t : Taken, (take cfg s).taken = s.taken ++ [t] ∧
    t.szStart = s.readMsg.this.szStart ∧ t.szMsgStart = s.readCache.szMsgStart ∧ t.uszData = s.readCache.pData.uszData ∧
    t.bytes = bytesAt s.mem s.readCache.pData.uszData s.readMsg.this.iLen.toNat :=
  ⟨_, rfl, rfl, rfl, rfl, rfl⟩

/-- A round takes one request. -/
theorem Took.round (h : Took s₀ s ts) (hread : s.Reading c x) (hs : Scan.Clear s₀.content)
    (hr : Round cfg s s') : s'.Reading Scan.init 0 ∧ s'.content.length < s.unread.length ∧ ∃ t, Took s₀ s' (ts ++ [t]) := by
  have hclear : Scan.Clear s.content := h.consumed.throughout hs
  cases hr with
  | null hring hparse =>
    cases hread.parsed hclear.ranged hparse with
    | null hnull => exact absurd (Along.mono (fun _ _ hb => hb.2) hclear) hnull
  | @taken m hint reader hring hparse hend hnext =>
    cases hread.parsed hclear.ranged hparse with
    | more hmore => exact absurd hend hmore.tracks.ready.sane.notEnd
    | @message _ n hlt hdone hmsg =>
      obtain ⟨hread', hcont, hconsumed⟩ := h.consumed.next hread.front (Nat.zero_lt_of_lt hlt) hdone hmsg hnext
      obtain ⟨t, htaken, hstart, hmid, hdata, hbytes⟩ := take_taken cfg { s with readMsg := m }
      refine ⟨hread', ?_, t, ?_, ?_, ?_, ?_, h.status, h.phase, h.received⟩
      · have hle : n ≤ s.content.length := hdone.length_le
        rw [hcont, hread.unread_eq, length_drop, length_drop]
        omega
      · refine htaken.trans ?_
        rw [h.taken, append_assoc]
      · intro t' ht'
        rcases mem_append.mp ht' with ht' | ht'
        · exact h.whole t' ht'
        · rw [mem_singleton.mp ht', hstart, hmid, hdata]
          exact ⟨hdone.start, hread.front⟩
      · rw [map_append, map_singleton, hbytes]
        exact hconsumed
      · show s.ring + 1 = _
        rw [h.ring, length_append]
        rfl

theorem Took.rounds (h : Took s₀ s ts) (hread : ∃ c x, s.Reading c x) (hs : Scan.Clear s₀.content)
    (hr : Relation.ReflTransGen (Round cfg) s s') : (∃ c x, s'.Reading c x) ∧ ∃ ts', Took s₀ s' ts' := by
  induction hr with
  | refl => exact ⟨hread, ts, h⟩
  | tail _ hround ih =>
    obtain ⟨⟨c, x, hread'⟩, ts', h'⟩ := ih
    obtain ⟨hread'', -, t, h''⟩ := h'.round hread' hs hround
    exact ⟨⟨Scan.init, 0, hread''⟩, _, h''⟩

/-- What `ProcessMsg` leaves. -/
structure Processed (s₀ : ClientRead) (iRet : ProcessRet) (s : ClientRead) (ts : List Taken) : Prop extends Took s₀ s ts where
  stop : s.readMsg.this.szEnd = s.readCache.szMsgEnd
  within : s.readCache.Within
  full : iRet = .full ↔ s.ring = maxWaitRingLen
  reading : iRet ≠ .abort → ∃ c x, s.Reading c x
  all : iRet = .ok → s.unread = [] ∨ ¬ Scan.Throughout (fun b c => ¬ Scan.Skips b c) s.content Scan.init
  failed : iRet = .abort → ∃ us d, us <+: s.content ∧ feeds Scan.step us Scan.init = (some .error, d, [])

theorem Took.stops (h : Took s₀ s ts) (hread : s.Reading c x) (hs : Scan.Clear s₀.content)
    (hstop : Stops s iRet s') : Processed s₀ iRet s' ts := by
  have hclear : Scan.Clear s.content := h.consumed.throughout hs
  cases hstop with
  | full hring => exact ⟨h, hread.stop, hread.within, iff_of_true rfl hring, fun _ => ⟨c, x, hread⟩, nofun, nofun⟩
  | failed hring hparse =>
    cases hread.parsed hclear.ranged hparse with
    | failed hend hpre hfail =>
      exact ⟨h.parsed _, hend, hread.within, iff_of_false nofun hring, fun hne => absurd rfl hne, nofun,
        fun _ => ⟨_, _, hpre, hfail⟩⟩
  | more hring hparse hne =>
    cases hread.parsed hclear.ranged hparse with
    | more hmore hall =>
      exact ⟨h.parsed _, hmore.stop, hread.within, iff_of_false nofun hring, fun _ => ⟨_, _, hmore⟩, fun _ => hall, nofun⟩
    | message _ hdone => exact absurd hdone.state hne

/-- The loop ends. -/
theorem processMsg_total (cfg : ReadConfig) (hints : List Int) (hread : s.Reading c x) (hs : Scan.Clear s.content) (hn : s.unread.length < n) :
    ∃ r, processMsg cfg n hints s = some r := by
  induction n generalizing s c x hints with
  | zero => exact absurd hn (Nat.not_lt_zero _)
  | succ n ih =>
    unfold processMsg
    by_cases hring : s.ring = maxWaitRingLen
    · exact ⟨_, if_pos hring⟩
    rw [if_neg hring]
    obtain ⟨iRet, m, hparse, hp⟩ := hread.parseRsp hs.ranged
    rw [hparse]
    cases hp with
    | failed => exact ⟨_, rfl⟩
    | null hnull => exact absurd (Along.mono (fun _ _ hb => hb.2) hs) hnull
    | more hmore => exact ⟨_, if_neg hmore.tracks.ready.sane.notEnd⟩
    | @message _ k hlt hdone hmsg =>
      have hstate : m.this.nowState = .msgEnd := hdone.state
      obtain ⟨reader, hnext, -⟩ := hdone.startNext (Nat.zero_lt_of_lt hlt) (hints.headD 0)
      have hround : Round cfg s { take cfg { s with readMsg := m } with toReader := reader } := .taken hring hparse hstate hnext
      obtain ⟨hread', hless, t, htook⟩ := (took_refl s).round hread hs hround
      dsimp only
      rw [if_pos hstate]
      refine (ih hints.tail hread' (htook.consumed.throughout hs) ?_).imp fun r hr =>
        bind_eq_some_iff.mpr ⟨reader, hnext, hr⟩
      rw [hread'.unread_eq]
      exact lt_of_lt_of_le hless (Nat.le_of_lt_succ hn)

theorem processMsg_spec (cfg : ReadConfig) (hints : List Int) (hread : s.Reading c x) (hs : Scan.Clear s.content) (hn : s.unread.length < n) :
    ∃ iRet s' ts, processMsg cfg n hints s = some (iRet, s') ∧ Processed s iRet s' ts := by
  obtain ⟨⟨iRet, s'⟩, hr⟩ := processMsg_total cfg hints hread hs hn
  obtain ⟨s₁, hrounds, hstop⟩ := processMsg_rounds hr
  obtain ⟨⟨c₁, x₁, hread₁⟩, ts, htook⟩ := (took_refl s).rounds ⟨c, x, hread⟩ hs hrounds
  exact ⟨iRet, s', ts, hr, htook.stops hread₁ hs hstop⟩

/-! ## Runs -/

/-- The parser is in the cache, what has been received is what has been taken and what the cache holds, and a call of `read`
has room. -/
structure Inv (s : ClientRead) : Prop where
  stop : s.readMsg.this.szEnd = s.readCache.szMsgEnd
  within : s.readCache.Within
  whole : ∀ t ∈ s.taken, t.Whole
  received : s.received = (s.taken.map (·.bytes)).flatten ++ s.content
  reading : s.status ≠ .aborted → ∃ c x, s.Reading c x
  busy : s.phase ≠ .idle → s.status = .opened ∧ s.ring ≠ maxWaitRingLen
  room : s.status ≠ .aborted → (∀ k, s.phase ≠ .moving k) → 0 < s.iLeft

theorem inv_init (mem : Int → UInt8) (uszData : Int) : Inv (init mem uszData) := by
  have hread : (init mem uszData).Reading Scan.init 0 := (Reader.aligned_init mem uszData).reading_init rfl
  refine ⟨rfl, hread.within, nofun, (Reader.content_empty ..).symm, fun _ => ⟨_, _, hread⟩, fun hne => absurd rfl hne,
    fun _ _ => ?_⟩
  show (0 : Int) < uszData + redisMsgInitBuffer - uszData
  simp [redisMsgInitBuffer]

/-- There is room for a call of `read`. -/
theorem Inv.opened (h : Inv s) (hphase : s.phase = .reading k) : (s.status = .opened ∧ s.ring ≠ maxWaitRingLen) ∧
    s.status ≠ .aborted ∧ (∀ k', s.phase ≠ .moving k') ∧ 0 < s.iLeft := by
  have hbusy := h.busy (by rw [hphase]; exact nofun)
  have hopen : s.status ≠ .aborted := by
    rw [hbusy.1]
    exact nofun
  have hnot : ∀ k', s.phase ≠ .moving k' := fun k' => by
    rw [hphase]
    exact nofun
  exact ⟨hbusy, hopen, hnot, h.room hopen hnot⟩

/-- `Read` returns, or is not called. -/
theorem Inv.rest (h : Inv s) (hphase : ∀ k, s.phase ≠ .moving k) (ring : Nat) (status : ReadStatus)
    (hst : status ≠ .aborted → s.status ≠ .aborted) : Inv { s with ring, status, phase := .idle } :=
  ⟨h.stop, h.within, h.whole, h.received, fun hne => h.reading (hst hne), fun hne => absurd rfl hne,
    fun hne _ => h.room (hst hne) hphase⟩

theorem Inv.enter (h : Inv s) (hst : s.status = .opened) (hphase : s.phase = .idle) (hring : s.ring ≠ maxWaitRingLen) :
    Inv { s with phase := .reading 1000 } := by
  refine ⟨h.stop, h.within, h.whole, h.received, h.reading, fun _ => ⟨hst, hring⟩, fun hne _ => h.room hne fun k => ?_⟩
  rw [hphase]
  exact nofun

theorem Inv.others (h : Inv s) (hphase : s.phase = .idle) (mem : Int → UInt8) :
    Inv { s with mem := fun a => if s.readCache.pData.has a then s.mem a else mem a } := by
  refine ⟨h.stop, h.within, h.whole, ?_, fun hne => ?_, fun hne => absurd hphase hne, h.room⟩
  · exact h.received.trans (congrArg _ (Reader.content_congr h.within fun _ ha => if_pos ha).symm)
  · obtain ⟨c, x, hread⟩ := h.reading hne
    exact ⟨c, x, hread.others fun _ ha => if_pos ha⟩

/-- The bytes that have been read go on with the stream. -/
theorem Inv.receive (h : Inv s) (hread : s.Reading c x) (hbs : (bs.length : Int) ≤ s.iLeft)
    (hclear : Scan.Clear (s.received ++ bs)) : (s.receive bs).Reading c x ∧ Scan.Clear (s.receive bs).content ∧
      (s.receive bs).received = ((s.receive bs).taken.map (·.bytes)).flatten ++ (s.receive bs).content := by
  obtain ⟨hread', hcont⟩ := hread.receive hbs
  have hrec : (s.receive bs).received = ((s.receive bs).taken.map (·.bytes)).flatten ++ (s.receive bs).content := by
    show s.received ++ bs = (s.taken.map (·.bytes)).flatten ++ (s.toReader.receive bs).content
    rw [hcont, h.received, append_assoc]
  refine ⟨hread', ?_, hrec⟩
  have hall : Scan.Clear (s.receive bs).received := hclear
  rw [hrec] at hall
  refine Scan.Throughout.drop ?_ hall
  intro v hv
  obtain ⟨t, ht, rfl⟩ := mem_map.mp hv
  exact (h.whole t ht).message

/-- `ProcessMsg` after bytes have been read. -/
theorem Inv.processMsg (h : Inv s) (hst : s.status ≠ .aborted) (hbs : (bs.length : Int) ≤ s.iLeft)
    (hclear : Scan.Clear (s.received ++ bs)) (cfg : ReadConfig) (hints : List Int) : ∃ iRet s' ts,
      processMsg cfg (s.receive bs).readMsg.calls hints (s.receive bs) = some (iRet, s') ∧
      Processed (s.receive bs) iRet s' ts ∧ s'.received = (s'.taken.map (·.bytes)).flatten ++ s'.content ∧
      ∀ t ∈ s'.taken, t.Whole := by
  obtain ⟨c, x, hread⟩ := h.reading hst
  obtain ⟨hread', hclear', hrec⟩ := h.receive hread hbs hclear
  obtain ⟨iRet, s', ts, hp, hspec⟩ := processMsg_spec cfg hints hread' hclear' hread'.unread_lt_calls
  refine ⟨iRet, s', ts, hp, hspec, ?_, ?_⟩
  · rw [hspec.received, hrec, hspec.consumed.content, hspec.taken, map_append, flatten_append, append_assoc]
  · intro t ht
    rw [hspec.taken] at ht
    rcases mem_append.mp ht with ht | ht
    · exact h.whole t ht
    · obtain ⟨hstart, hfront⟩ := hspec.whole t ht
      exact ⟨hstart, hfront, hspec.consumed.messages _ (mem_map_of_mem ht)⟩

/-- A state between two rounds of `ProcessMsg`, in a call of it from the state `s`. -/
def During (cfg : ReadConfig) (s s₁ : ClientRead) : Prop :=
  ∃ k bs hints, s.phase = .reading k ∧ s.Orderly (.recv (.data bs) hints) ∧
    Relation.ReflTransGen (Round cfg) (s.receive (bs.take s.iLeft.toNat)) s₁

theorem Inv.during {s₁ : ClientRead} (h : Inv s) (hd : During cfg s s₁) :
    (∃ c x, s₁.Reading c x) ∧ s₁.received = (s₁.taken.map (·.bytes)).flatten ++ s₁.content := by
  obtain ⟨k, bs, hints, hphase, hclear, hrounds⟩ := hd
  obtain ⟨-, hopen, -, hroom⟩ := h.opened hphase
  obtain ⟨c, x, hread⟩ := h.reading hopen
  have hlen := length_take_le s.iLeft.toNat bs
  obtain ⟨hread', hclear', hrec⟩ := h.receive hread (by omega) hclear
  obtain ⟨hread₁, ts, htook⟩ := (took_refl _).rounds ⟨c, x, hread'⟩ hclear' hrounds
  refine ⟨hread₁, ?_⟩
  rw [htook.received, hrec, htook.consumed.content, htook.taken, map_append, flatten_append, append_assoc]

/-- A call of `read` that returns bytes. -/
theorem Inv.data (h : Inv s) (hphase : s.phase = .reading k)
    (hclear : Scan.Clear (s.received ++ bs.take s.iLeft.toNat)) (cfg : ReadConfig) (hints : List Int) :
    ∃ s', s.recv cfg k hints (.data bs) = some s' ∧ Inv s' := by
  obtain ⟨⟨hst, hring⟩, hopen, hmove, hroom⟩ := h.opened hphase
  unfold recv
  dsimp only
  generalize hbs : bs.take s.iLeft.toNat = bs' at hclear
  have hlen : (bs'.length : Int) ≤ s.iLeft := by
    have hmin := length_take_le s.iLeft.toNat bs
    rw [hbs] at hmin
    omega
  by_cases hnil : bs' = []
  · rw [if_pos hnil]
    exact ⟨_, rfl, h.rest hmove s.ring .closed fun _ => hopen⟩
  rw [if_neg hnil]
  obtain ⟨iRet, s', ts, hp, hspec, hrec, hwhole⟩ := h.processMsg hopen hlen hclear cfg hints
  have hst' : s'.status = .opened := hspec.status.trans hst
  have hring' : s'.ring = s.ring + ts.length := hspec.ring
  have hleft : (s.receive bs').iLeft = s.iLeft - bs'.length := by
    show s.readCache.pData.uszEnd - (s.readCache.szMsgEnd + bs'.length) = _
    unfold Reader.iLeft
    omega
  rw [hp]
  cases iRet with
  | abort => exact ⟨_, rfl, hspec.stop, hspec.within, hwhole, hrec, fun hne => absurd rfl hne, fun hne => absurd rfl hne,
      fun hne => absurd rfl hne⟩
  | full =>
    have hfull := hspec.full.mp rfl
    have hmore : ts ≠ [] := by
      rintro rfl
      exact hring (hring'.symm.trans hfull)
    obtain ⟨c, x, hread⟩ := hspec.reading nofun
    exact ⟨_, rfl, hspec.stop, hspec.within, hwhole, hrec, fun _ => ⟨c, x, hread⟩, fun hne => absurd rfl hne,
      fun _ _ => hspec.consumed.room_of hread fun hts => absurd (map_eq_nil_iff.mp hts) hmore⟩
  | ok =>
    have hnot : s'.ring ≠ maxWaitRingLen := fun hfull => nomatch hspec.full.mpr hfull
    obtain ⟨c, x, hread⟩ := hspec.reading nofun
    by_cases hshort : (bs'.length : Int) < s.iLeft
    · refine ⟨_, if_pos hshort, hspec.stop, hspec.within, hwhole, hrec, fun _ => ⟨c, x, hread⟩,
        fun hne => absurd rfl hne, fun _ _ => hspec.consumed.room_of hread fun _ => ?_⟩
      omega
    · exact ⟨_, if_neg hshort, hspec.stop, hspec.within, hwhole, hrec, fun _ => ⟨c, x, hread⟩,
        fun _ => ⟨hst', hnot⟩, fun _ hmoving => absurd rfl (hmoving _)⟩

/-- The bytes are moved, and there is room. -/
theorem move_spec (hread : s.Reading c x) (hexp : s.expands → s.readCache.pData.sCapacity < 2 ^ 29)
    (k hint : Int) : ∃ r : MsgBufferMgr × (Int → UInt8), s.move k hint =
        some { s with toReader := s.toReader.moved r, phase := if 0 < k then .reading k else .idle } ∧
      (s.toReader.moved r).Reading c x ∧ (s.toReader.moved r).content = s.content ∧ 0 < (s.toReader.moved r).iLeft := by
  obtain ⟨h0, hmax⟩ := hread.atLeast
  have hleft := hread.leftCapcity_eq
  unfold move
  by_cases hlarge : int32 (s.readMsg.this.iMaxLen + 256) < 0 ∨
      (s.readCache.pData.sCapacity : Int) < int32 (s.readMsg.this.iMaxLen + 256)
  · obtain ⟨r, hr, hspec⟩ := hread.expand (hexp (.inl hlarge)) hint h0 hmax
    refine ⟨r, ?_, hspec⟩
    rw [if_pos hlarge, hr]
    rfl
  by_cases hhalf : s.readCache.leftCapcity < 0 ∨ ((s.readCache.pData.sCapacity / 2 : Nat) : Int) < s.readCache.leftCapcity
  · obtain ⟨hread', hcont, hsame⟩ := hread.resetBuffer
    refine ⟨_, ?_, hread', hcont, ?_⟩
    · rw [if_neg hlarge, if_pos hhalf]
      rfl
    · have hlen := hread.length_le.2
      rw [hsame]
      rw [hleft, hread.iLeft_eq] at hhalf
      rw [hread.iLeft_eq]
      omega
  · obtain ⟨r, hr, hspec⟩ := hread.expand (hexp (.inr hhalf)) hint le_rfl (by norm_num : (0 : Int) < 2 ^ 31)
    refine ⟨r, ?_, hspec⟩
    rw [if_neg hlarge, if_neg hhalf, hr]
    rfl

theorem Inv.move (h : Inv s) (hphase : s.phase = .moving k) (hexp : s.expands → s.readCache.pData.sCapacity < 2 ^ 29)
    (hint : Int) : ∃ s', s.move k hint = some s' ∧ Inv s' := by
  obtain ⟨hst, hring⟩ := h.busy (by rw [hphase]; exact nofun)
  obtain ⟨c, x, hread⟩ := h.reading (by rw [hst]; exact nofun)
  obtain ⟨r, hmove, hread', hcont, hroom⟩ := move_spec hread hexp k hint
  exact ⟨_, hmove, hread'.stop, hread'.within, h.whole, h.received.trans (congrArg _ hcont.symm), fun _ => ⟨c, x, hread'⟩,
    fun _ => ⟨hst, hring⟩, fun _ _ => hroom⟩

/-- An orderly step does not fail and keeps the invariant. -/
theorem Inv.step (h : Inv s) (hl : s.Orderly l) (cfg : ReadConfig) : ∃ s', step cfg s l = some s' ∧ Inv s' := by
  cases l with
  | enter =>
    by_cases hstart : s.status = .opened ∧ s.phase = .idle
    · have hphase : ∀ k, s.phase ≠ .moving k := fun k => by
        rw [hstart.2]
        exact nofun
      by_cases hring : s.ring = maxWaitRingLen
      · have hclosed := h.rest hphase s.ring .closed fun _ => by
          rw [hstart.1]
          exact nofun
        rw [← hstart.2] at hclosed
        exact ⟨_, (if_pos hstart).trans (if_pos hring), hclosed⟩
      · exact ⟨_, (if_pos hstart).trans (if_neg hring), h.enter hstart.1 hstart.2 hring⟩
    · exact ⟨s, if_neg hstart, h⟩
  | recv ret hints =>
    unfold ClientRead.step
    rcases hphase : s.phase with _ | k | k
    · exact ⟨s, rfl, h⟩
    · obtain ⟨-, hopen, hnot, -⟩ := h.opened hphase
      cases ret with
      | eintr => exact ⟨s, rfl, h⟩
      | eagain => exact ⟨_, rfl, h.rest hnot s.ring s.status id⟩
      | failed => exact ⟨_, rfl, h.rest hnot s.ring .closed fun _ => hopen⟩
      | data bs => exact h.data hphase hl cfg hints
    · exact ⟨s, rfl, h⟩
  | move hint =>
    unfold ClientRead.step
    rcases hphase : s.phase with _ | k | k
    · exact ⟨s, rfl, h⟩
    · exact ⟨s, rfl, h⟩
    · exact h.move hphase hl hint
  | others mem =>
    by_cases hphase : s.phase = .idle
    · exact ⟨_, if_pos hphase, h.others hphase mem⟩
    · exact ⟨s, if_neg hphase, h⟩
  | replied k =>
    by_cases hphase : s.phase = .idle
    · have hrest := h.rest (fun k' => by rw [hphase]; exact nofun) (s.ring - k) s.status id
      rw [← hphase] at hrest
      exact ⟨_, if_pos hphase, hrest⟩
    · exact ⟨s, if_neg hphase, h⟩

/-! ## What a step does -/

/-- A call of `read` that returns bytes: there are none, and the client has gone, or `ProcessMsg` is called. -/
theorem recv_data (h : s.recv cfg k hints (.data bs) = some s') :
    bs.take s.iLeft.toNat = [] ∧ s' = { s with phase := .idle, status := .closed } ∨ ∃ iRet s₁ phase,
      processMsg cfg (s.receive (bs.take s.iLeft.toNat)).readMsg.calls hints (s.receive (bs.take s.iLeft.toNat)) =
        some (iRet, s₁) ∧ s' = { s₁ with phase, status := if iRet = .abort then .aborted else s₁.status } ∧
      ((bs.take s.iLeft.toNat).length < s.iLeft → phase = .idle) := by
  unfold recv at h
  dsimp only at h
  by_cases hnil : bs.take s.iLeft.toNat = []
  · rw [if_pos hnil] at h
    exact .inl ⟨hnil, (some.inj h).symm⟩
  rw [if_neg hnil] at h
  obtain ⟨⟨iRet, s₁⟩, hp, hret⟩ := bind_eq_some_iff.mp h
  refine .inr ⟨iRet, s₁, s'.phase, hp, ?_⟩
  cases iRet with
  | abort =>
    cases hret
    exact ⟨rfl, fun _ => rfl⟩
  | full =>
    cases hret
    exact ⟨rfl, fun _ => rfl⟩
  | ok =>
    split_ifs at hret with hshort
    · cases hret
      exact ⟨rfl, fun _ => rfl⟩
    · cases hret
      exact ⟨rfl, fun hlt => absurd hlt hshort⟩

/-- An orderly step leaves the reader alone, moves the bytes of the cache, or calls `ProcessMsg`. -/
inductive Served (cfg : ReadConfig) (s : ClientRead) : Label → ClientRead → Prop
  | still {l : Label} {s' : ClientRead} (hmsg : s'.readMsg = s.readMsg) (hcache : s'.readCache = s.readCache)
      (hcontent : s'.content = s.content) (htaken : s'.taken = s.taken) (hreceived : s'.received = s.received)
      (hstatus : s'.status = .aborted → s.status = .aborted) : Served cfg s l s'
  | moved {hint k : Int} {s' : ClientRead} (hphase : s.phase = .moving k) (hmove : s.move k hint = some s')
      (hcontent : s'.content = s.content) (htaken : s'.taken = s.taken) (hreceived : s'.received = s.received)
      (hstatus : s'.status = s.status) : Served cfg s (.move hint) s'
  | processed {bs : List UInt8} {hints : List Int} {k : Int} {iRet : ProcessRet} {s₁ : ClientRead} {ts : List Taken}
      {phase : ReadPhase} (hphase : s.phase = .reading k)
      (hp : processMsg cfg (s.receive (bs.take s.iLeft.toNat)).readMsg.calls hints (s.receive (bs.take s.iLeft.toNat)) =
        some (iRet, s₁))
      (hspec : Processed (s.receive (bs.take s.iLeft.toNat)) iRet s₁ ts)
      (hcontent : (s.receive (bs.take s.iLeft.toNat)).content = s.content ++ bs.take s.iLeft.toNat) :
      Served cfg s (.recv (.data bs) hints) { s₁ with phase, status := if iRet = .abort then .aborted else s₁.status }

theorem Inv.served_data (h : Inv s) (hphase : s.phase = .reading k)
    (hclear : Scan.Clear (s.received ++ bs.take s.iLeft.toNat)) (hs : s.recv cfg k hints (.data bs) = some s') :
    Served cfg s (.recv (.data bs) hints) s' := by
  obtain ⟨-, hopen, -, hroom⟩ := h.opened hphase
  rcases recv_data hs with ⟨-, rfl⟩ | ⟨iRet, s₁, phase, hp, rfl, -⟩
  · exact .still rfl rfl rfl rfl rfl nofun
  · have hlen := length_take_le s.iLeft.toNat bs
    obtain ⟨iRet', s₁', ts, hp', hspec, -⟩ := h.processMsg hopen (by omega) hclear cfg hints
    rw [hp] at hp'
    cases hp'
    exact .processed hphase hp hspec (Reader.content_receive h.within.le _)

theorem Inv.served (h : Inv s) (hl : s.Orderly l) (hs : ClientRead.step cfg s l = some s') : Served cfg s l s' := by
  cases l with
  | enter =>
    unfold ClientRead.step at hs
    dsimp only at hs
    split_ifs at hs
    · cases hs
      exact .still rfl rfl rfl rfl rfl nofun
    · cases hs
      exact .still rfl rfl rfl rfl rfl id
    · cases hs
      exact .still rfl rfl rfl rfl rfl id
  | recv ret hints =>
    unfold ClientRead.step at hs
    rcases hphase : s.phase with _ | k | k
    · rw [hphase] at hs
      cases hs
      exact .still rfl rfl rfl rfl rfl id
    · rw [hphase] at hs
      cases ret with
      | eintr =>
        cases hs
        exact .still rfl rfl rfl rfl rfl id
      | eagain =>
        cases hs
        exact .still rfl rfl rfl rfl rfl id
      | failed =>
        cases hs
        exact .still rfl rfl rfl rfl rfl nofun
      | data bs => exact h.served_data hphase hl hs
    · rw [hphase] at hs
      cases hs
      exact .still rfl rfl rfl rfl rfl id
  | move hint =>
    unfold ClientRead.step at hs
    rcases hphase : s.phase with _ | k | k
    · rw [hphase] at hs
      cases hs
      exact .still rfl rfl rfl rfl rfl id
    · rw [hphase] at hs
      cases hs
      exact .still rfl rfl rfl rfl rfl id
    · rw [hphase] at hs
      obtain ⟨hst, -⟩ := h.busy (by rw [hphase]; exact nofun)
      obtain ⟨c, x, hread⟩ := h.reading (by rw [hst]; exact nofun)
      obtain ⟨r, hmove, -, hcont, -⟩ := move_spec hread hl k hint
      have heq := some.inj (hs.symm.trans hmove)
      subst heq
      exact .moved hphase hs hcont rfl rfl rfl
  | others mem =>
    unfold ClientRead.step at hs
    dsimp only at hs
    split_ifs at hs
    · cases hs
      exact .still rfl rfl (Reader.content_congr h.within fun a ha => if_pos ha) rfl rfl id
    · cases hs
      exact .still rfl rfl rfl rfl rfl id
  | replied k =>
    unfold ClientRead.step at hs
    dsimp only at hs
    split_ifs at hs
    · cases hs
      exact .still rfl rfl rfl rfl rfl id
    · cases hs
      exact .still rfl rfl rfl rfl rfl id

theorem run_inv (cfg : ReadConfig) (mem : Int → UInt8) (uszData : Int) {ls : List Label}
    (hls : Meets (step cfg) Orderly (init mem uszData) ls) :
    ∃ s, run (step cfg) (init mem uszData) ls = some s ∧ Inv s :=
  run_isSome (fun _ _ h hl => h.step hl cfg) ls _ (inv_init mem uszData) hls

/-- The parser and the cache agree in every state of an orderly run, also between two requests of one call of `ProcessMsg`.
What has been taken are the requests of the stream, one after another. -/
theorem parser_in_cache (cfg : ReadConfig) (mem : Int → UInt8) (uszData : Int) (ls : List Label)
    (hls : Meets (step cfg) Orderly (init mem uszData) ls) : ∃ s, run (step cfg) (init mem uszData) ls = some s ∧
      s.readMsg.this.szEnd = s.readCache.szMsgEnd ∧ (∀ t ∈ s.taken, t.Whole) ∧
      s.received = (s.taken.map (·.bytes)).flatten ++ s.content ∧
      ∀ s₁, During cfg s s₁ → s₁.readMsg.this.szEnd = s₁.readCache.szMsgEnd := by
  obtain ⟨s, hrun, h⟩ := run_inv cfg mem uszData hls
  refine ⟨s, hrun, h.stop, h.whole, h.received, ?_⟩
  intro s₁ hd
  obtain ⟨⟨c, x, hread⟩, -⟩ := h.during hd
  exact hread.stop

/-- A request in two parts. -/
theorem parser_in_cache_parts : ∃ s, run (step ⟨false, 1048576⟩) (init (fun _ => 0) 0)
      [.enter, .recv (.data [42, 49, 13, 10, 36, 52, 13]) [], .enter,
        .recv (.data [10, 80, 73, 78, 71, 13, 10, 42]) [4096]] = some s ∧
      s.readMsg.this.szEnd = s.readCache.szMsgEnd ∧ (∀ t ∈ s.taken, t.Whole) ∧
      s.received = (s.taken.map (·.bytes)).flatten ++ s.content := by
  obtain ⟨s, hrun, hstop, hwhole, hrec, -⟩ := parser_in_cache ⟨false, 1048576⟩ (fun _ => 0) 0
    [.enter, .recv (.data [42, 49, 13, 10, 36, 52, 13]) [], .enter,
      .recv (.data [10, 80, 73, 78, 71, 13, 10, 42]) [4096]] (by decide +kernel)
  exact ⟨s, hrun, hstop, hwhole, hrec⟩

/-- After a null byte the request is not where the cache starts, and another text is forwarded. -/
theorem null_byte_shifts_request : (run (step ⟨false, 1048576⟩) (init (fun _ => 0) 0)
      [.enter, .recv (.data [0, 42, 49, 13, 10, 36, 52, 13, 10, 80, 73, 78, 71, 13, 10]) []]).map
        (fun s => s.taken.map fun t => (t.szStart, t.szMsgStart, t.bytes)) =
      some [(1, 0, [0, 42, 49, 13, 10, 36, 52, 13, 10, 80, 73, 78, 71, 13])] := by
  decide

end ClientRead

end RedisProxy
