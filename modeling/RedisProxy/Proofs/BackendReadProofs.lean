import RedisProxy.BackendRead
import RedisProxy.Proofs.ReaderProofs

/-!
# How the replies of a server are read

As for the requests of a client: `ProcessMsg` takes replies from the front of the cache (`Round`) until the next one is not
complete, or the process ends (`Stops`). In an orderly run the replies that have been taken and the bytes of the cache are
what has been received since the connection was made, and there is room for `read`.
-/

namespace RedisProxy

open Lib List Option

namespace BackendRead

variable {s s₀ s' : BackendRead} {vs : List (List UInt8)} {hints : List Int} {added : List Nat} {n : Nat}
variable {c : Scan} {x : Nat} {bs : List UInt8} {k : Int} {l : Label}

/-! ## The loop of `ProcessMsg` -/

/-- A round of the loop after which it goes on. -/
inductive Round (s : BackendRead) : BackendRead → Prop
  | taken {m : RedisMsg} {hint : Int} {reader : Reader} {iAdded : Nat} (hring : s.ring ≠ 0)
      (hparse : s.readMsg.parseRsp s.mem = some (.ok, m)) (hend : m.this.nowState = .msgEnd)
      (hnext : { s.toReader with readMsg := m }.startNext hint = some reader) :
      Round s { take { s with readMsg := m } iAdded with toReader := reader }

/-- The last round. -/
inductive Stops (s : BackendRead) : BackendRead → Prop
  | more {m : RedisMsg} (hparse : s.readMsg.parseRsp s.mem = some (.ok, m)) (hend : m.this.nowState ≠ .msgEnd) :
      Stops s { s with readMsg := m }
  | noRequest {m : RedisMsg} (hring : s.ring = 0) (hparse : s.readMsg.parseRsp s.mem = some (.ok, m))
      (hend : m.this.nowState = .msgEnd) : Stops s { s with readMsg := m, status := .aborted }
  | failed {iRet : ParseRet} {m : RedisMsg} (hret : iRet ≠ .ok) (hparse : s.readMsg.parseRsp s.mem = some (iRet, m)) :
      Stops s { s with readMsg := m, status := .aborted }

theorem processMsg_rounds (h : processMsg n hints added s = some s') :
    ∃ s₁, Relation.ReflTransGen Round s s₁ ∧ Stops s₁ s' := by
  induction n generalizing s hints added with
  | zero => cases h
  | succ n ih =>
    unfold processMsg at h
    rcases hparse : s.readMsg.parseRsp s.mem with _ | ⟨_ | _ | _, m⟩
    · rw [hparse] at h
      cases h
    · rw [hparse] at h
      dsimp only at h
      by_cases hend : m.this.nowState = .msgEnd
      · rw [if_pos hend] at h
        by_cases hring : s.ring = 0
        · rw [if_pos hring] at h
          cases h
          exact ⟨_, .refl, .noRequest hring hparse hend⟩
        · rw [if_neg hring] at h
          obtain ⟨reader, hnext, hrest⟩ := bind_eq_some_iff.mp h
          obtain ⟨s₁, hsteps, hstop⟩ := ih hrest
          exact ⟨s₁, .head (.taken hring hparse hend hnext) hsteps, hstop⟩
      · rw [if_neg hend] at h
        cases h
        exact ⟨_, .refl, .more hparse hend⟩
    · rw [hparse] at h
      cases h
      exact ⟨_, .refl, .failed (by exact nofun) hparse⟩
    · rw [hparse] at h
      cases h
      exact ⟨_, .refl, .failed (by exact nofun) hparse⟩

/-- The replies `vs` have been taken since `s₀`. -/
structure Took (s₀ s : BackendRead) (vs : List (List UInt8)) : Prop where
  replies : s.replies = s₀.replies ++ vs
  consumed : Reader.Consumed s₀.toReader s.toReader vs
  ring : s₀.ring ≤ s.ring + vs.length
  phase : s.phase = s₀.phase
  received : s.received = s₀.received

theorem took_refl (s : BackendRead) : Took s s [] :=
  ⟨(append_nil _).symm, Reader.consumed_refl s.toReader, le_rfl, rfl, rfl⟩

/-- The parser does not change what has been taken. -/
theorem Took.parsed (h : Took s₀ s vs) (m : RedisMsg) (status : ReadStatus) : Took s₀ { s with readMsg := m, status } vs :=
  ⟨h.replies, ⟨h.consumed.messages, h.consumed.content, h.consumed.room, h.consumed.kept, h.consumed.grown⟩, h.ring, h.phase, h.received⟩

/-- A round takes one reply. -/
theorem Took.round (h : Took s₀ s vs) (hread : s.Reading c x) (hs : Scan.Ranged s₀.content)
    (hr : Round s s') : s'.Reading Scan.init 0 ∧ s'.content.length < s.unread.length ∧ s'.status = s.status ∧
      ∃ v, Took s₀ s' (vs ++ [v]) := by
  have hranged : Scan.Ranged s.content := h.consumed.throughout hs
  cases hr with
  | @taken m hint reader iAdded hring hparse hend hnext =>
    cases hread.parsed hranged hparse with
    | more hmore => exact absurd hend hmore.tracks.ready.sane.notEnd
    | @message _ n hlt hdone hmsg =>
      obtain ⟨hread', hcont, hconsumed⟩ := h.consumed.next hread.front (Nat.zero_lt_of_lt hlt) hdone hmsg hnext
      refine ⟨hread', ?_, rfl, _, ?_, hconsumed, ?_, h.phase, h.received⟩
      · have hle : n ≤ s.content.length := hdone.length_le
        rw [hcont, hread.unread_eq, length_drop, length_drop]
        omega
      · show s.replies ++ _ = _
        rw [h.replies, append_assoc]
      · have hle := h.ring
        show s₀.ring ≤ s.ring - 1 + iAdded + _
        rw [length_append, length_singleton]
        omega

theorem Took.rounds (h : Took s₀ s vs) (hread : ∃ c x, s.Reading c x) (hs : Scan.Ranged s₀.content)
    (hr : Relation.ReflTransGen Round s s') : (∃ c x, s'.Reading c x) ∧ s'.status = s.status ∧ ∃ vs', Took s₀ s' vs' := by
  induction hr with
  | refl => exact ⟨hread, rfl, vs, h⟩
  | tail _ hround ih =>
    obtain ⟨⟨c, x, hread'⟩, hst, vs', h'⟩ := ih
    obtain ⟨hread'', -, hst', v, h''⟩ := h'.round hread' hs hround
    exact ⟨⟨Scan.init, 0, hread''⟩, hst'.trans hst, _, h''⟩

/-- What `ProcessMsg` leaves. -/
structure Processed (s₀ s : BackendRead) (vs : List (List UInt8)) : Prop extends Took s₀ s vs where
  within : s.readCache.Within
  reading : s.status ≠ .aborted → s.status = s₀.status ∧ ∃ c x, s.Reading c x
  aborted : s.status = .aborted → s₀.status = .aborted ∨
    (∃ us d, us <+: s.content ∧ feeds Scan.step us Scan.init = (some .error, d, [])) ∨
    ¬ Scan.Throughout Scan.NotNull s.content Scan.init ∨
    ((∃ n, Scan.IsMessage (s.content.take n)) ∧ s₀.ring ≤ vs.length)

theorem Took.stops (h : Took s₀ s vs) (hread : s.Reading c x) (hst : s.status = s₀.status)
    (hs : Scan.Ranged s₀.content) (hstop : Stops s s') : Processed s₀ s' vs := by
  have hranged : Scan.Ranged s.content := h.consumed.throughout hs
  cases hstop with
  | more hparse hne =>
    cases hread.parsed hranged hparse with
    | more hmore => exact ⟨h.parsed _ _, hread.within, fun _ => ⟨hst, _, _, hmore⟩, fun ha => .inl (hst.symm.trans ha)⟩
    | message _ hdone => exact absurd hdone.state hne
  | noRequest hring hparse hend =>
    cases hread.parsed hranged hparse with
    | more hmore => exact absurd hend hmore.tracks.ready.sane.notEnd
    | message _ hdone hmsg =>
      have hle := h.ring
      exact ⟨h.parsed _ _, hread.within, fun hne => absurd rfl hne, fun _ => .inr (.inr (.inr ⟨⟨_, hmsg⟩, by omega⟩))⟩
  | failed hret hparse =>
    cases hread.parsed hranged hparse with
    | more => exact absurd rfl hret
    | message => exact absurd rfl hret
    | null hnull => exact ⟨h.parsed _ _, hread.within, fun hne => absurd rfl hne, fun _ => .inr (.inr (.inl hnull))⟩
    | failed _ hpre hfail =>
      exact ⟨h.parsed _ _, hread.within, fun hne => absurd rfl hne, fun _ => .inr (.inl ⟨_, _, hpre, hfail⟩)⟩

/-- The loop ends. -/
theorem processMsg_total (hints : List Int) (added : List Nat) (hread : s.Reading c x) (hs : Scan.Ranged s.content)
    (hn : s.unread.length < n) : ∃ r, processMsg n hints added s = some r := by
  induction n generalizing s c x hints added with
  | zero => exact absurd hn (Nat.not_lt_zero _)
  | succ n ih =>
    unfold processMsg
    obtain ⟨iRet, m, hparse, hp⟩ := hread.parseRsp hs
    rw [hparse]
    cases hp with
    | failed => exact ⟨_, rfl⟩
    | null => exact ⟨_, rfl⟩
    | more hmore => exact ⟨_, if_neg hmore.tracks.ready.sane.notEnd⟩
    | @message _ k hlt hdone hmsg =>
      have hstate : m.this.nowState = .msgEnd := hdone.state
      dsimp only
      rw [if_pos hstate]
      by_cases hring : s.ring = 0
      · exact ⟨_, if_pos hring⟩
      rw [if_neg hring]
      obtain ⟨reader, hnext, -⟩ := hdone.startNext (Nat.zero_lt_of_lt hlt) (hints.headD 0)
      have hround : Round s { take { s with readMsg := m } (added.headD 0) with toReader := reader } :=
        .taken hring hparse hstate hnext
      obtain ⟨hread', hless, -, v, htook⟩ := (took_refl s).round hread hs hround
      refine (ih hints.tail added.tail hread' (htook.consumed.throughout hs) ?_).imp fun r hr =>
        bind_eq_some_iff.mpr ⟨reader, hnext, hr⟩
      rw [hread'.unread_eq]
      exact lt_of_lt_of_le hless (Nat.le_of_lt_succ hn)

theorem processMsg_spec (hints : List Int) (added : List Nat) (hread : s.Reading c x) (hs : Scan.Ranged s.content)
    (hn : s.unread.length < n) : ∃ s' vs, processMsg n hints added s = some s' ∧ Processed s s' vs := by
  obtain ⟨s', hr⟩ := processMsg_total hints added hread hs hn
  obtain ⟨s₁, hrounds, hstop⟩ := processMsg_rounds hr
  obtain ⟨⟨c₁, x₁, hread₁⟩, hst, vs, htook⟩ := (took_refl s).rounds ⟨c, x, hread⟩ hs hrounds
  exact ⟨s', vs, hr, htook.stops hread₁ hst hs hstop⟩

/-! ## Runs -/

/-- What has been received is what has been taken and what the cache holds, and a call of `read` has room. -/
structure Inv (s : BackendRead) : Prop where
  within : s.readCache.Within
  messages : ∀ v ∈ s.replies, Scan.IsMessage v
  received : s.received = s.replies.flatten ++ s.content
  reading : s.status ≠ .aborted → ∃ c x, s.Reading c x
  busy : s.phase ≠ .idle → s.status = .opened
  room : s.status ≠ .aborted → (∀ k, s.phase ≠ .moving k) → 0 < s.iLeft

theorem inv_init (mem : Int → UInt8) (uszData : Int) : Inv (init mem uszData) := by
  have hread : (init mem uszData).Reading Scan.init 0 := (Reader.aligned_init mem uszData).reading_init rfl
  refine ⟨hread.within, nofun, (Reader.content_empty ..).symm, fun _ => ⟨_, _, hread⟩, fun hne => absurd rfl hne, fun _ _ => ?_⟩
  show (0 : Int) < uszData + redisMsgInitBuffer - uszData
  simp [redisMsgInitBuffer]

/-- There is room for a call of `read`. -/
theorem Inv.opened (h : Inv s) (hphase : s.phase = .reading k) :
    s.status = .opened ∧ s.status ≠ .aborted ∧ (∀ k', s.phase ≠ .moving k') ∧ 0 < s.iLeft := by
  have hst := h.busy (by rw [hphase]; exact nofun)
  have hopen : s.status ≠ .aborted := by
    rw [hst]
    exact nofun
  have hnot : ∀ k', s.phase ≠ .moving k' := fun k' => by
    rw [hphase]
    exact nofun
  exact ⟨hst, hopen, hnot, h.room hopen hnot⟩

/-- `Read` returns, or is not called. -/
theorem Inv.rest (h : Inv s) (hphase : ∀ k, s.phase ≠ .moving k) (ring : Nat) (status : ReadStatus)
    (hst : status ≠ .aborted → s.status ≠ .aborted) : Inv { s with ring, status, phase := .idle } :=
  ⟨h.within, h.messages, h.received, fun hne => h.reading (hst hne), fun hne => absurd rfl hne,
    fun hne _ => h.room (hst hne) hphase⟩

theorem Inv.others (h : Inv s) (hphase : s.phase = .idle) (mem : Int → UInt8) :
    Inv { s with mem := fun a => if s.readCache.pData.has a then s.mem a else mem a } := by
  refine ⟨h.within, h.messages, ?_, fun hne => ?_, fun hne => absurd hphase hne, h.room⟩
  · exact h.received.trans (congrArg _ (Reader.content_congr h.within fun _ ha => if_pos ha).symm)
  · obtain ⟨c, x, hread⟩ := h.reading hne
    exact ⟨c, x, hread.others fun _ ha => if_pos ha⟩

theorem Inv.reInit (h : Inv s) (hst : s.status ≠ .aborted) : Inv s.reInit := by
  obtain ⟨c, x, hread⟩ := h.reading hst
  have hread' : s.reInit.Reading Scan.init 0 := (Reader.aligned_empty s.mem hread.cap).reading_init rfl
  refine ⟨hread'.within, nofun, (Reader.content_empty ..).symm, fun _ => ⟨_, _, hread'⟩, fun hne => absurd rfl hne, fun _ _ => ?_⟩
  have hcap := hread.cap.1
  show (0 : Int) < s.readCache.pData.uszData + s.readCache.pData.sCapacity - s.readCache.pData.uszData
  omega

/-- The bytes that have been read go on with the stream. -/
theorem Inv.receive (h : Inv s) (hread : s.Reading c x) (hbs : (bs.length : Int) ≤ s.iLeft)
    (hranged : Scan.Ranged (s.received ++ bs)) : (s.receive bs).Reading c x ∧ Scan.Ranged (s.receive bs).content ∧
      (s.receive bs).received = (s.receive bs).replies.flatten ++ (s.receive bs).content := by
  obtain ⟨hread', hcont⟩ := hread.receive hbs
  have hrec : (s.receive bs).received = (s.receive bs).replies.flatten ++ (s.receive bs).content := by
    show s.received ++ bs = s.replies.flatten ++ (s.toReader.receive bs).content
    rw [hcont, h.received, append_assoc]
  refine ⟨hread', ?_, hrec⟩
  have hall : Scan.Ranged (s.receive bs).received := hranged
  rw [hrec] at hall
  exact Scan.Throughout.drop h.messages hall

/-- `ProcessMsg` after bytes have been read. -/
theorem Inv.processMsg (h : Inv s) (hst : s.status ≠ .aborted) (hbs : (bs.length : Int) ≤ s.iLeft)
    (hranged : Scan.Ranged (s.received ++ bs)) (hints : List Int) (added : List Nat) : ∃ s' vs,
      processMsg (s.receive bs).readMsg.calls hints added (s.receive bs) = some s' ∧ Processed (s.receive bs) s' vs ∧
      s'.received = s'.replies.flatten ++ s'.content ∧ ∀ v ∈ s'.replies, Scan.IsMessage v := by
  obtain ⟨c, x, hread⟩ := h.reading hst
  obtain ⟨hread', hranged', hrec⟩ := h.receive hread hbs hranged
  obtain ⟨s', vs, hp, hspec⟩ := processMsg_spec hints added hread' hranged' hread'.unread_lt_calls
  refine ⟨s', vs, hp, hspec, ?_, ?_⟩
  · rw [hspec.received, hrec, hspec.consumed.content, hspec.replies, flatten_append, append_assoc]
  · intro v hv
    rw [hspec.replies] at hv
    exact (mem_append.mp hv).elim (h.messages v) (hspec.consumed.messages v)

/-- A state between two rounds of `ProcessMsg`, in a call of it from the state `s`. -/
def During (s s₁ : BackendRead) : Prop :=
  ∃ k bs hints added, s.phase = .reading k ∧ s.Orderly (.recv (.data bs) hints added) ∧
    Relation.ReflTransGen Round (s.receive (bs.take s.iLeft.toNat)) s₁

theorem Inv.during {s₁ : BackendRead} (h : Inv s) (hd : During s s₁) :
    (∃ c x, s₁.Reading c x) ∧ s₁.received = s₁.replies.flatten ++ s₁.content := by
  obtain ⟨k, bs, hints, added, hphase, hranged, hrounds⟩ := hd
  obtain ⟨-, hopen, -, hroom⟩ := h.opened hphase
  obtain ⟨c, x, hread⟩ := h.reading hopen
  have hlen := length_take_le s.iLeft.toNat bs
  obtain ⟨hread', hranged', hrec⟩ := h.receive hread (by omega) hranged
  obtain ⟨hread₁, -, vs, htook⟩ := (took_refl _).rounds ⟨c, x, hread'⟩ hranged' hrounds
  refine ⟨hread₁, ?_⟩
  rw [htook.received, hrec, htook.consumed.content, htook.replies, flatten_append, append_assoc]

/-- A call of `read` that returns bytes. -/
theorem Inv.data (h : Inv s) (hphase : s.phase = .reading k)
    (hranged : Scan.Ranged (s.received ++ bs.take s.iLeft.toNat)) (hints : List Int) (added : List Nat) :
    ∃ s', s.recv k hints added (.data bs) = some s' ∧ Inv s' := by
  obtain ⟨hst, hopen, hnot, hroom⟩ := h.opened hphase
  unfold recv
  dsimp only
  generalize hbs : bs.take s.iLeft.toNat = bs' at hranged
  have hlen : (bs'.length : Int) ≤ s.iLeft := by
    have hmin := length_take_le s.iLeft.toNat bs
    rw [hbs] at hmin
    omega
  by_cases hnil : bs' = []
  · rw [if_pos hnil]
    exact ⟨_, rfl, h.rest hnot 0 .closed fun _ => hopen⟩
  rw [if_neg hnil]
  obtain ⟨s', vs, hp, hspec, hrec, hmsgs⟩ := h.processMsg hopen hlen hranged hints added
  have hleft : (s.receive bs').iLeft = s.iLeft - bs'.length := by
    show s.readCache.pData.uszEnd - (s.readCache.szMsgEnd + bs'.length) = _
    unfold Reader.iLeft
    omega
  rw [hp]
  by_cases hend : s'.status = .aborted ∨ (bs'.length : Int) < s.iLeft
  · refine ⟨_, if_pos hend, hspec.within, hmsgs, hrec, fun hne => (hspec.reading hne).2, fun hne => absurd rfl hne,
      fun hne _ => ?_⟩
    obtain ⟨-, c, x, hread⟩ := hspec.reading hne
    refine hspec.consumed.room_of hread fun _ => ?_
    have hshort := hend.resolve_left hne
    omega
  · have hne : s'.status ≠ .aborted := fun h => hend (.inl h)
    exact ⟨_, if_neg hend, hspec.within, hmsgs, hrec, fun hne => (hspec.reading hne).2,
      fun _ => (hspec.reading hne).1.trans hst, fun _ hmoving => absurd rfl (hmoving _)⟩

/-- The bytes are moved, and there is room. -/
theorem move_spec (hread : s.Reading c x) (hexp : s.expands → s.readCache.pData.sCapacity < 2 ^ 29)
    (k hint : Int) : ∃ r : MsgBufferMgr × (Int → UInt8), s.move k hint =
        some { s with toReader := s.toReader.moved r, phase := if 0 < k then .reading k else .idle } ∧
      (s.toReader.moved r).Reading c x ∧ (s.toReader.moved r).content = s.content ∧ 0 < (s.toReader.moved r).iLeft := by
  obtain ⟨h0, hmax⟩ := hread.atLeast
  have hleft := hread.leftCapcity_eq
  unfold move
  by_cases hlarge : int32 (s.readMsg.this.iMaxLen + 256) < 0 ∨
      (s.readCache.pData.sCapacity : Int) < int32 (s.readMsg.this.iMaxLen + 256)
  · obtain ⟨r, hr, hspec⟩ := hread.expand (hexp (.inl hlarge)) hint h0 hmax
    refine ⟨r, ?_, hspec⟩
    rw [if_pos hlarge, hr]
    rfl
  by_cases hhalf : 0 ≤ s.readCache.leftCapcity ∧ s.readCache.leftCapcity < ((s.readCache.pData.sCapacity / 2 : Nat) : Int)
  · obtain ⟨r, hr, hspec⟩ := hread.expand (hexp (.inr hhalf)) hint le_rfl (by norm_num : (0 : Int) < 2 ^ 31)
    refine ⟨r, ?_, hspec⟩
    rw [if_neg hlarge, if_pos hhalf, hr]
    rfl
  · obtain ⟨hread', hcont, hsame⟩ := hread.resetBuffer
    refine ⟨_, ?_, hread', hcont, ?_⟩
    · rw [if_neg hlarge, if_neg hhalf]
      rfl
    · have hlen := hread.length_le.2
      have hcap := hread.cap.1
      rw [hsame]
      rw [hleft, hread.iLeft_eq] at hhalf
      rw [hread.iLeft_eq]
      omega

theorem Inv.move (h : Inv s) (hphase : s.phase = .moving k) (hexp : s.expands → s.readCache.pData.sCapacity < 2 ^ 29)
    (hint : Int) : ∃ s', s.move k hint = some s' ∧ Inv s' := by
  have hst := h.busy (by rw [hphase]; exact nofun)
  obtain ⟨c, x, hread⟩ := h.reading (by rw [hst]; exact nofun)
  obtain ⟨r, hmove, hread', hcont, hroom⟩ := move_spec hread hexp k hint
  exact ⟨_, hmove, hread'.within, h.messages, h.received.trans (congrArg _ hcont.symm), fun _ => ⟨c, x, hread'⟩,
    fun _ => hst, fun _ _ => hroom⟩

/-- An orderly step does not fail and keeps the invariant. -/
theorem Inv.step (h : Inv s) (hl : s.Orderly l) : ∃ s', step s l = some s' ∧ Inv s' := by
  cases l with
  | enter =>
    by_cases hstart : s.status = .opened ∧ s.phase = .idle
    · refine ⟨_, if_pos hstart, h.within, h.messages, h.received, h.reading, fun _ => hstart.1, fun hne _ => h.room hne ?_⟩
      rw [hstart.2]
      exact fun _ => nofun
    · exact ⟨s, if_neg hstart, h⟩
  | recv ret hints added =>
    unfold BackendRead.step
    rcases hphase : s.phase with _ | k | k
    · exact ⟨s, rfl, h⟩
    · obtain ⟨-, hopen, hnot, -⟩ := h.opened hphase
      cases ret with
      | eintr => exact ⟨s, rfl, h⟩
      | eagain => exact ⟨_, rfl, h.rest hnot s.ring s.status id⟩
      | failed => exact ⟨_, rfl, h.rest hnot 0 .closed fun _ => hopen⟩
      | data bs => exact h.data hphase hl hints added
    · exact ⟨s, rfl, h⟩
  | move hint =>
    unfold BackendRead.step
    rcases hphase : s.phase with _ | k | k
    · exact ⟨s, rfl, h⟩
    · exact ⟨s, rfl, h⟩
    · exact h.move hphase hl hint
  | others mem =>
    by_cases hphase : s.phase = .idle
    · exact ⟨_, if_pos hphase, h.others hphase mem⟩
    · exact ⟨s, if_neg hphase, h⟩
  | sent k =>
    by_cases hidle : s.status = .opened ∧ s.phase = .idle
    · have hrest := h.rest (fun k' => by rw [hidle.2]; exact nofun) (s.ring + k) s.status id
      rw [← hidle.2] at hrest
      exact ⟨_, if_pos hidle, hrest⟩
    · exact ⟨s, if_neg hidle, h⟩
  | reInit =>
    by_cases hst : s.status = .closed
    · exact ⟨_, if_pos hst, h.reInit (by rw [hst]; exact nofun)⟩
    · exact ⟨s, if_neg hst, h⟩

/-- A call of `read` that returns bytes: there are none, and the server has gone, or `ProcessMsg` is called. -/
theorem recv_data (h : s.recv k hints added (.data bs) = some s') :
    s' = s.close ∨ ∃ s₁ phase, processMsg (s.receive (bs.take s.iLeft.toNat)).readMsg.calls hints added
      (s.receive (bs.take s.iLeft.toNat)) = some s₁ ∧ s' = { s₁ with phase } := by
  unfold recv at h
  dsimp only at h
  by_cases hnil : bs.take s.iLeft.toNat = []
  · rw [if_pos hnil] at h
    exact .inl (some.inj h).symm
  rw [if_neg hnil] at h
  obtain ⟨s₁, hp, hret⟩ := bind_eq_some_iff.mp h
  refine .inr ⟨s₁, s'.phase, hp, ?_⟩
  split_ifs at hret
  · cases hret
    rfl
  · cases hret
    rfl

/-- Only `ProcessMsg` ends the process. -/
theorem Inv.aborts (h : Inv s) (hl : s.Orderly l) (hs : BackendRead.step s l = some s') (hst : s.status ≠ .aborted)
    (hst' : s'.status = .aborted) : ∃ bs hints added s₁ vs phase, l = .recv (.data bs) hints added ∧
      s' = { s₁ with phase } ∧ Processed (s.receive (bs.take s.iLeft.toNat)) s₁ vs ∧
      (s.receive (bs.take s.iLeft.toNat)).content = s.content ++ bs.take s.iLeft.toNat := by
  cases l with
  | recv ret hints added =>
    unfold BackendRead.step at hs
    rcases hphase : s.phase with _ | k | k
    · rw [hphase] at hs
      cases hs
      exact absurd hst' hst
    · rw [hphase] at hs
      cases ret with
      | eintr =>
        cases hs
        exact absurd hst' hst
      | eagain =>
        cases hs
        exact absurd hst' hst
      | failed =>
        cases hs
        cases hst'
      | data bs =>
        rcases recv_data hs with rfl | ⟨s₁, phase, hp, rfl⟩
        · cases hst'
        · have hroom : 0 < s.iLeft := h.room hst fun k' => by
            rw [hphase]
            exact nofun
          have hlen := length_take_le s.iLeft.toNat bs
          obtain ⟨s₁', vs, hp', hspec, -⟩ := h.processMsg hst (by omega) hl hints added
          rw [hp] at hp'
          cases hp'
          exact ⟨bs, hints, added, s₁, vs, phase, rfl, rfl, hspec, Reader.content_receive h.within.le _⟩
    · rw [hphase] at hs
      cases hs
      exact absurd hst' hst
  | move hint =>
    unfold BackendRead.step at hs
    rcases hphase : s.phase with _ | k | k
    · rw [hphase] at hs
      cases hs
      exact absurd hst' hst
    · rw [hphase] at hs
      cases hs
      exact absurd hst' hst
    · rw [hphase] at hs
      obtain ⟨c, x, hread⟩ := h.reading hst
      obtain ⟨r, hmove, -⟩ := move_spec hread hl k hint
      obtain rfl := some.inj (hmove.symm.trans hs)
      exact absurd hst' hst
  | enter =>
    unfold BackendRead.step at hs
    split_ifs at hs <;> cases hs <;> exact absurd hst' hst
  | others mem =>
    unfold BackendRead.step at hs
    split_ifs at hs <;> cases hs <;> exact absurd hst' hst
  | sent k =>
    unfold BackendRead.step at hs
    split_ifs at hs <;> cases hs <;> exact absurd hst' hst
  | reInit =>
    unfold BackendRead.step at hs
    dsimp only at hs
    split_ifs at hs
    · cases hs
      cases hst'
    · cases hs
      exact absurd hst' hst

theorem run_inv (mem : Int → UInt8) (uszData : Int) {ls : List Label} (hls : Meets step Orderly (init mem uszData) ls) :
    ∃ s, run step (init mem uszData) ls = some s ∧ Inv s :=
  run_isSome (fun _ _ h hl => h.step hl) ls _ (inv_init mem uszData) hls

end BackendRead

end RedisProxy
