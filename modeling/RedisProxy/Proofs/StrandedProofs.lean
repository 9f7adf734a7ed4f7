import RedisProxy.Proofs.ClientReadProofs

/-!
# Requests that stay in the cache

`ProcessMsg` stops when the wait ring is full, and is called again when more bytes have been read, not when the ring has
room again. As long as the ring has room for every request that has been read, no complete request stays in the cache. With
one request too many it stays there until the client sends something else.
-/

namespace RedisProxy

open Lib Resp List Option

namespace ClientRead

variable {cfg : ReadConfig} {s s' : ClientRead} {vs : List (List UInt8)}
variable {v : List UInt8} {s₀ : ClientRead} {iRet : ProcessRet} {ts : List Taken} {n k : Nat}

/-- The client has sent a part of the requests `vs`, and none of them stands complete in the cache. -/
structure Tidy (vs : List (List UInt8)) (s : ClientRead) : Prop where
  running : s.status ≠ .aborted
  stream : s.received <+: vs.flatten
  none : ∀ v, v <+: s.content → ¬ Scan.IsMessage v

/-- The cache holds a part of the next requests. -/
theorem Inv.next (h : Inv s) (hvs : ∀ v ∈ vs, Scan.IsMessage v) (hpre : s.received <+: vs.flatten) :
    ∃ rest, vs = s.taken.map (·.bytes) ++ rest ∧ s.content <+: rest.flatten := by
  rw [h.received] at hpre
  refine Scan.messages_split (fun v hv => ?_) hvs hpre
  obtain ⟨t, ht, rfl⟩ := mem_map.mp hv
  exact (h.whole t ht).message

/-- A parser that has read everything has not found a complete request. -/
theorem none_of_unread {c : Scan} {x : Nat} (hread : s.Reading c x) (hall : s.unread = [])
    (hv : v <+: s.content) : ¬ Scan.IsMessage v := by
  have hscan := hread.scan
  rw [hread.unread_eq, drop_eq_nil_iff] at hall
  rw [take_of_length_le hall] at hscan
  exact Scan.none_of_partial hscan hv

/-- With room in the wait ring `ProcessMsg` leaves no complete request. -/
theorem Processed.none_left (h : Processed s₀ iRet s ts)
    (hskip : Scan.Throughout (fun b c => ¬ Scan.Skips b c) s.content Scan.init) (hret : iRet ≠ .abort)
    (hroom : s₀.ring + Scan.messages s₀.content Scan.init ≤ maxWaitRingLen) (hv : v <+: s.content) :
    ¬ Scan.IsMessage v := by
  obtain ⟨c, x, hread⟩ := h.reading hret
  cases iRet with
  | abort => exact absurd rfl hret
  | ok =>
    rcases h.all rfl with hall | hall
    · exact none_of_unread hread hall hv
    · exact absurd hskip hall
  | full =>
    -- every request that the cache held has a place in the ring
    have hfull := h.full.mp rfl
    have hring := h.ring
    have hcount := Scan.messages_flatten h.consumed.messages s.content
    rw [← h.consumed.content, length_map] at hcount
    rintro ⟨d, hd⟩
    obtain ⟨rest, hrest⟩ := hv
    have hone := Scan.messages_message hd rest
    rw [hrest] at hone
    omega

theorem Tidy.step (h : Tidy vs s) (hinv : Inv s) (hinv' : Inv s') (hvs : ∀ v ∈ vs, Scan.IsMessage v)
    (hskip : Scan.Throughout (fun b c => ¬ Scan.Skips b c) vs.flatten Scan.init) {l : Label} (hord : s.Orderly l)
    (hstr : s.Streams vs.flatten l) (hpl : s.Places l) (hs : ClientRead.step cfg s l = some s') : Tidy vs s' := by
  cases hinv.served hord hs with
  | still hmsg hcache hcontent htaken hreceived hstatus =>
    refine ⟨fun ha => h.running (hstatus ha), ?_, fun v hv => h.none v ?_⟩
    · rw [hreceived]
      exact h.stream
    · rw [← hcontent]
      exact hv
  | moved hphase hmove hcontent htaken hreceived hstatus =>
    refine ⟨?_, ?_, fun v hv => h.none v ?_⟩
    · rw [hstatus]
      exact h.running
    · rw [hreceived]
      exact h.stream
    · rw [← hcontent]
      exact hv
  | @processed bs hints k iRet s₁ ts phase hphase hp hspec hcontent =>
    have hstream : s₁.received <+: vs.flatten := by
      rw [hspec.received]
      exact hstr
    obtain ⟨rest, hrest, hpart⟩ := hinv'.next hvs hstream
    have hret : iRet ≠ .abort := by
      intro ha
      obtain ⟨us, d, hus, hfail⟩ := hspec.failed ha
      refine Scan.messages_fine (fun v hv => hvs v ?_) (hus.trans hpart) hfail
      rw [hrest]
      exact mem_append_right _ hv
    have hopen : s₁.status = .opened := hspec.status.trans (hinv.busy (by rw [hphase]; exact nofun)).1
    refine ⟨?_, hstream, fun v hv => ?_⟩
    · rw [if_neg hret, hopen]
      exact nofun
    · refine hspec.none_left ?_ hret ?_ hv
      · rw [hrest, flatten_append] at hskip
        obtain ⟨more, hmore⟩ := hpart
        rw [← hmore] at hskip
        refine Along.left (Scan.Throughout.drop (fun v hv => hvs v ?_) hskip)
        rw [hrest]
        exact mem_append_left _ hv
      · rw [hcontent]
        exact hpl

/-- If the wait ring has room for the requests that are read, the cache never holds a complete request between two steps. -/
theorem no_request_stranded (cfg : ReadConfig) (mem : Int → UInt8) (uszData : Int) (vs : List (List UInt8))
    (hvs : ∀ v ∈ vs, (∃ as, Request Canonical as v) ∧ v.length < 2 ^ 31) (ls : List Label)
    (hls : Meets (step cfg) (fun s l => s.Streams vs.flatten l ∧ s.Orderly l ∧ s.Places l) (init mem uszData) ls) :
    ∃ s, run (step cfg) (init mem uszData) ls = some s ∧ s.status ≠ .aborted ∧
      ∀ as v, Request Canonical as v → ¬ v <+: s.content := by
  have hmsgs : ∀ v ∈ vs, Scan.IsMessage v := fun v hv => by
    obtain ⟨⟨as, hv'⟩, hlt⟩ := hvs v hv
    exact isMessage_of_request hv' hlt
  have hskip : Scan.Throughout (fun b c => ¬ Scan.Skips b c) vs.flatten Scan.init := by
    refine Along.mono (fun _ _ hb => hb.2) (Scan.throughout_values fun v hv => ?_)
    obtain ⟨⟨as, hv'⟩, hlt⟩ := hvs v hv
    exact ⟨value_of_request hv', hlt⟩
  have hstart : Tidy vs (init mem uszData) := by
    have hnil : (init mem uszData).content = [] := by
      have hrec := (inv_init mem uszData).received
      exact hrec.symm
    refine ⟨nofun, nil_prefix, fun v hv => ?_⟩
    rw [hnil, prefix_nil] at hv
    rw [hv]
    exact Scan.not_isMessage_nil
  obtain ⟨s, hrun, hinv, htidy⟩ := run_isSome (I := fun s => Inv s ∧ Tidy vs s) (fun s l hI hl => by
    obtain ⟨s', hs, hinv'⟩ := hI.1.step hl.2.1 cfg
    exact ⟨s', hs, hinv', hI.2.step hI.1 hinv' hmsgs hskip hl.2.1 hl.1 hl.2.2 hs⟩) ls _ ⟨inv_init mem uszData, hstart⟩ hls
  refine ⟨s, hrun, htidy.running, fun as v hv hpre => htidy.none v hpre (isMessage_of_request hv ?_)⟩
  obtain ⟨c, x, hread⟩ := hinv.reading htidy.running
  exact lt_of_le_of_lt (hpre.length_le.trans hread.length_le.2) hread.cap.2

/-! ## One request too many -/

/-- The request `PING`. -/
def ping : List UInt8 := [42, 49, 13, 10, 36, 52, 13, 10, 80, 73, 78, 71, 13, 10]

theorem ping_request : Request Canonical [[80, 73, 78, 71]] ping :=
  ⟨[49], [[36, 52, 13, 10, 80, 73, 78, 71, 13, 10]], canonical_digit rfl, rfl,
    .cons ⟨[52], canonical_digit rfl, rfl, rfl⟩ .nil, rfl⟩

/-- A request that is read in two parts. -/
theorem no_request_stranded_ping : (∀ v ∈ [ping], (∃ as, Request Canonical as v) ∧ v.length < 2 ^ 31) ∧
    ∃ s, run (step ⟨false, 1048576⟩) (init (fun _ => 0) 0)
        [.enter, .recv (.data (ping.take 7)) [], .enter, .recv (.data (ping.drop 7)) [4096]] = some s ∧
      s.status ≠ .aborted ∧ ∀ as v, Request Canonical as v → ¬ v <+: s.content := by
  have hvs : ∀ v ∈ [ping], (∃ as, Request Canonical as v) ∧ v.length < 2 ^ 31 := fun v hv => by
    rw [mem_singleton.mp hv]
    exact ⟨⟨_, ping_request⟩, by decide⟩
  exact ⟨hvs, no_request_stranded ⟨false, 1048576⟩ (fun _ => 0) 0 [ping] hvs _ (by decide +kernel)⟩

theorem isMessage_ping : Scan.IsMessage ping := isMessage_of_request ping_request (by decide)

theorem mem_pings (hv : v ∈ List.replicate n ping) : Scan.IsMessage v := by
  rw [eq_of_mem_replicate hv]
  exact isMessage_ping

theorem throughout_pings {P : UInt8 → Scan → Prop} (h : Along P Scan.step ping Scan.init) (n : Nat) :
    Scan.Throughout P (List.replicate n ping).flatten Scan.init := by
  refine Scan.Throughout.flatten fun v hv => ⟨mem_pings hv, ?_⟩
  rw [eq_of_mem_replicate hv]
  exact h

/-- The client has sent `PING` again and again: `n` of these requests are in the wait ring, and `k` in the cache. -/
structure Pings (n k : Nat) (s : ClientRead) : Prop where
  inv : Inv s
  status : s.status = .opened
  phase : s.phase = .idle
  ring : s.ring = n
  content : s.content = (List.replicate k ping).flatten
  received : s.received = (List.replicate (n + k) ping).flatten
  room : redisMsgInitBuffer ≤ s.readCache.pData.sCapacity

theorem pings_init (mem : Int → UInt8) (uszData : Int) : Pings 0 0 (init mem uszData) :=
  ⟨inv_init mem uszData, rfl, rfl, rfl, (inv_init mem uszData).received.symm, rfl, le_rfl⟩

/-- `ProcessMsg` takes as many of the requests as the wait ring has room for. -/
theorem Processed.pings (h : Processed s₀ iRet s ts) (hcontent : s₀.content = (List.replicate k ping).flatten)
    (hle : s.ring ≤ maxWaitRingLen) : iRet ≠ .abort ∧ s.ring = min (s₀.ring + k) maxWaitRingLen ∧
      s.content = (List.replicate (s₀.ring + k - maxWaitRingLen) ping).flatten := by
  have hall := h.consumed.content
  rw [hcontent] at hall
  obtain ⟨rest, hrest, -⟩ := Scan.messages_split h.consumed.messages (fun v => mem_pings) ⟨[], (append_nil _).trans hall.symm⟩
  obtain ⟨hlen, -, hpings⟩ := replicate_eq_append_iff.mp hrest
  have hleft : s.content = rest.flatten := by
    rw [hrest, flatten_append] at hall
    exact (append_cancel_left hall).symm
  rw [length_map] at hlen
  rw [hpings] at hleft
  have hring := h.ring
  have hret : iRet ≠ .abort := by
    intro ha
    obtain ⟨us, d, hus, hfail⟩ := h.failed ha
    rw [hleft] at hus
    exact Scan.messages_fine (fun v => mem_pings) hus hfail
  have hcount : rest.length = s₀.ring + k - maxWaitRingLen ∧ s.ring = min (s₀.ring + k) maxWaitRingLen := by
    cases iRet with
    | abort => exact absurd rfl hret
    | full =>
      have hfull := h.full.mp rfl
      omega
    | ok =>
      obtain ⟨c, x, hread⟩ := h.reading hret
      have hskip : Scan.Throughout (fun b c => ¬ Scan.Skips b c) s.content Scan.init := by
        rw [hleft]
        exact throughout_pings (by decide) _
      have hnone : rest.length = 0 := by
        by_contra hpos
        obtain ⟨j, hj⟩ := Nat.exists_eq_succ_of_ne_zero hpos
        rcases h.all rfl with hunread | hno
        · refine none_of_unread hread hunread ?_ isMessage_ping
          rw [hleft, hj, replicate_succ, flatten_cons]
          exact prefix_append _ _
        · exact hno hskip
      omega
  refine ⟨hret, hcount.2, ?_⟩
  rw [hleft, hcount.1]

/-- `k` requests are read at once. -/
theorem Pings.read (h : Pings n 0 s) (hn : n < maxWaitRingLen) (hpos : 0 < k)
    (hk : (List.replicate k ping).flatten.length < redisMsgInitBuffer) (cfg : ReadConfig) :
    ∃ s', run (step cfg) s [.enter, .recv (.data (List.replicate k ping).flatten) []] = some s' ∧
      Pings (min (n + k) maxWaitRingLen) (n + k - maxWaitRingLen) s' := by
  have henter : step cfg s .enter = some { s with phase := .reading 1000 } := by
    have hne : s.ring ≠ maxWaitRingLen := by
      rw [h.ring]
      exact hn.ne
    unfold ClientRead.step
    dsimp only
    rw [if_pos ⟨h.status, h.phase⟩, if_neg hne]
  obtain ⟨s₁, hs₁, hinv₁⟩ := h.inv.step (l := .enter) trivial cfg
  obtain rfl := some.inj (henter.symm.trans hs₁)
  obtain ⟨c, x, hread⟩ := h.inv.reading (by rw [h.status]; exact nofun)
  have hleft : s.iLeft = s.readCache.pData.sCapacity := by
    rw [hread.iLeft_eq, h.content]
    simp
  have hroom := h.room
  have htake : (replicate k ping).flatten.take s.iLeft.toNat = (replicate k ping).flatten :=
    take_of_length_le (by omega)
  have hrec : s.received ++ (replicate k ping).flatten = (replicate (n + k) ping).flatten := by
    rw [h.received, Nat.add_zero, ← flatten_append, replicate_append_replicate]
  have hord : Orderly { s with phase := .reading 1000 } (.recv (.data (replicate k ping).flatten) []) := by
    show Scan.Clear (s.received ++ (replicate k ping).flatten.take s.iLeft.toNat)
    rw [htake, hrec]
    exact throughout_pings (by decide) _
  obtain ⟨s₂, hs₂, hinv₂⟩ := hinv₁.step hord cfg
  refine ⟨s₂, ?_, ?_⟩
  · rw [run_cons, henter, bind_some, run_cons, hs₂]
    rfl
  have hs : ClientRead.recv cfg { s with phase := .reading 1000 } 1000 [] (.data (replicate k ping).flatten) = some s₂ := hs₂
  rcases recv_data hs with ⟨hnil, -⟩ | ⟨iRet, s₃, phase, hp, rfl, hidle⟩
  · have hnone := congrArg List.length (htake.symm.trans hnil)
    simp [ping] at hnone
    omega
  have hlen : (((replicate k ping).flatten.take s.iLeft.toNat).length : Int) < s.iLeft := by
    rw [htake]
    omega
  obtain ⟨iRet', s₃', ts, hp', hspec, -⟩ := hinv₁.processMsg (by show s.status ≠ _; rw [h.status]; exact nofun) hlen.le hord
    cfg []
  rw [hp] at hp'
  cases hp'
  have hcontent : (ClientRead.receive { s with phase := .reading 1000 } ((replicate k ping).flatten.take s.iLeft.toNat)).content =
      (replicate k ping).flatten := by
    rw [htake]
    refine (Reader.content_receive h.inv.within.le _).trans ?_
    rw [h.content]
    rfl
  obtain ⟨hret, hring, hrest⟩ := hspec.pings hcontent (processMsg_ring hp (h.ring.le.trans hn.le))
  have hn' : (ClientRead.receive { s with phase := .reading 1000 } ((replicate k ping).flatten.take s.iLeft.toNat)).ring = n := h.ring
  rw [hn'] at hring hrest
  refine ⟨hinv₂, ?_, ?_, hring, hrest, ?_, ?_⟩
  · show (if iRet = .abort then _ else s₃.status) = _
    rw [if_neg hret, hspec.status]
    exact h.status
  · exact hidle hlen
  · show s₃.received = _
    rw [hspec.received]
    have hsum : n + k = min (n + k) maxWaitRingLen + (n + k - maxWaitRingLen) := by omega
    rw [← hsum]
    exact (congrArg (s.received ++ ·) htake).trans hrec
  · exact hroom.trans hspec.consumed.grown

/-- One request after another is read, as long as the wait ring has room. -/
theorem Pings.reads (h : Pings 0 0 s) (hn : n ≤ maxWaitRingLen) (cfg : ReadConfig) :
    ∃ s', run (step cfg) s (List.replicate n [Label.enter, .recv (.data ping) []]).flatten = some s' ∧ Pings n 0 s' := by
  induction n with
  | zero => exact ⟨s, rfl, h⟩
  | succ n ih =>
    obtain ⟨s₁, hrun, h₁⟩ := ih (Nat.le_of_succ_le hn)
    obtain ⟨s₂, hrun', h₂⟩ := h₁.read hn Nat.one_pos (by decide) cfg
    rw [Nat.min_eq_left hn, Nat.sub_eq_zero_of_le hn] at h₂
    refine ⟨s₂, ?_, h₂⟩
    rw [replicate_succ', flatten_append, run_append, hrun]
    exact hrun'

/-- Two requests are read when the wait ring has one place left. When all requests have been answered, the second one is
still in the cache. -/
theorem second_request_stranded : ∃ s, run (step ⟨false, 1048576⟩) (init (fun _ => 0) 0)
      ((List.replicate 4094 [Label.enter, .recv (.data ping) []]).flatten ++
        [.enter, .recv (.data (ping ++ ping)) [], .replied 4095]) = some s ∧
      s.status = .opened ∧ s.phase = .idle ∧ s.ring = 0 ∧ s.received = (List.replicate 4096 ping).flatten ∧ s.content = ping := by
  obtain ⟨s₁, hrun₁, h₁⟩ := (pings_init (fun _ => 0) 0).reads (n := 4094) (by decide) ⟨false, 1048576⟩
  obtain ⟨s₂, hrun₂, h₂⟩ := h₁.read (by decide) Nat.two_pos (by decide) ⟨false, 1048576⟩
  have hreplied : step ⟨false, 1048576⟩ s₂ (.replied 4095) = some { s₂ with ring := s₂.ring - 4095 } := if_pos h₂.phase
  refine ⟨{ s₂ with ring := s₂.ring - 4095 }, ?_, h₂.status, h₂.phase, ?_, h₂.received, ?_⟩
  · have hsplit : [Label.enter, .recv (.data (ping ++ ping)) [], .replied 4095] =
      [.enter, .recv (.data (replicate 2 ping).flatten) []] ++ [.replied 4095] := rfl
    rw [run_append, hrun₁, bind_some, hsplit, run_append, hrun₂, bind_some, run_cons, hreplied]
    rfl
  · show s₂.ring - 4095 = 0
    rw [h₂.ring]
    rfl
  · exact h₂.content

end ClientRead

end RedisProxy
