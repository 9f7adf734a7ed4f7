import RedisProxy.Proofs.AofReadProofs
import RedisProxy.Proofs.BackendReadProofs
import RedisProxy.Proofs.ClientReadProofs

/-!
# The read caches

What the readers of clients, servers and files have in common: in orderly runs each call of `read` has room, and the
bytes of a cache stay in its block, in order. Without the conditions, `Expand` can get a block that is too small, and the
loader of a file does so for each request.
-/

namespace RedisProxy

open Lib List Option

/-! ## Room for `read` -/

/-- In orderly runs each call of `read` by a client's or a server's event has room. -/
theorem read_has_room (cfg : ReadConfig) (mem mem' : Int → UInt8) (uszData uszData' : Int) (ls : List ClientRead.Label)
    (ls' : List BackendRead.Label) (hls : Meets (ClientRead.step cfg) ClientRead.Orderly (.init mem uszData) ls)
    (hls' : Meets BackendRead.step BackendRead.Orderly (.init mem' uszData') ls') :
    (∃ s, run (ClientRead.step cfg) (.init mem uszData) ls = some s ∧ ∀ k, s.phase = .reading k → 0 < s.iLeft) ∧
      ∃ s, run BackendRead.step (.init mem' uszData') ls' = some s ∧ ∀ k, s.phase = .reading k → 0 < s.iLeft := by
  constructor
  · obtain ⟨s, hrun, h⟩ := ClientRead.run_inv cfg mem uszData hls
    refine ⟨s, hrun, fun k hphase => h.room ?_ ?_⟩
    · rw [(h.busy (by rw [hphase]; exact nofun)).1]
      exact nofun
    · rw [hphase]
      exact fun _ => nofun
  · obtain ⟨s, hrun, h⟩ := BackendRead.run_inv mem' uszData' hls'
    refine ⟨s, hrun, fun k hphase => h.room ?_ ?_⟩
    · rw [h.busy (by rw [hphase]; exact nofun)]
      exact nofun
    · rw [hphase]
      exact fun _ => nofun

/-- A part of a request and a part of a reply. -/
theorem read_has_room_parts :
    (∃ s, run (ClientRead.step ⟨false, 1048576⟩) (.init (fun _ => 0) 0)
        [.enter, .recv (.data [42, 49, 13, 10, 36]) [], .enter] = some s ∧ ∀ k, s.phase = .reading k → 0 < s.iLeft) ∧
      ∃ s, run BackendRead.step (.init (fun _ => 0) 0) [.sent 1, .enter, .recv (.data [43, 79, 75]) [] [], .enter] = some s ∧
        ∀ k, s.phase = .reading k → 0 < s.iLeft :=
  read_has_room ⟨false, 1048576⟩ (fun _ => 0) (fun _ => 0) 0 0 [.enter, .recv (.data [42, 49, 13, 10, 36]) [], .enter]
    [.sent 1, .enter, .recv (.data [43, 79, 75]) [] [], .enter] (by decide) (by decide)

namespace Scan

variable {us : List UInt8} {c : Scan}

/-- In a bulk string there are no numbers. -/
theorem along_bulk (hc : c.state = .usdStr) (hn : us.length ≤ c.arg) (hl : c.len + us.length < 2 ^ 31) :
    Along (fun b c => InRange b c ∧ NotNull b c) step us c := by
  induction us generalizing c with
  | nil => exact trivial
  | cons ch us ih =>
    simp only [length_cons] at hn hl
    have hs : step ch c = (none, { c with len := c.len + 1, arg := c.arg - 1 }) := by
      simp only [step, read, hc]
      rw [if_neg (by omega)]
    refine ⟨⟨⟨⟨by omega, ?_, ?_⟩, ?_⟩, ?_⟩, ?_⟩
    · rw [hc]
      simp
    · rw [hc]
      simp
    · rw [hc]
      simp
    · intro hstart
      rw [hc] at hstart
      cases hstart
    · rw [hs]
      exact ih hc (by simp only; omega) (by simp only; omega)

theorem maxLen_bulk {x : Nat} (hc : c.state = .usdStr) (hn : us.length ≤ c.arg) : maxLen us c x = x := by
  induction us generalizing c with
  | nil => rfl
  | cons ch us ih =>
    simp only [length_cons] at hn
    have hs : step ch c = (none, { c with len := c.len + 1, arg := c.arg - 1 }) := by
      simp only [step, read, hc]
      rw [if_neg (by omega)]
    have hmax : nextMax ch c x = x := if_neg (by rw [hc]; simp)
    simp only [maxLen, hs, hmax]
    exact ih hc (by simp only; omega)

/-- The start of a request with a key of 300 bytes and a value of 2 ^ 30 bytes. -/
def largeHead : List UInt8 :=
  [42, 50, 13, 10, 36, 51, 48, 48, 13, 10] ++ List.replicate 300 97 ++
    [13, 10, 36, 49, 48, 55, 51, 55, 52, 49, 56, 50, 52, 13, 10]

/-- The reader at the start of the value. -/
def largeValue : Scan := ⟨.usdStr, 1, 1073741824, [], .numDigits, 325⟩

theorem largeHead_read : feeds step largeHead init = (none, largeValue, []) ∧ largeHead.length = 325 ∧
    maxLen largeHead init 0 = 1073741824 ∧ Along Good step largeHead init ∧
    Along (fun b c => InRange b c ∧ NotNull b c) step largeHead init := by
  unfold Good
  decide +kernel

/-- A part of the request, up to the byte `n` of its value. -/
def largePart (n : Nat) : List UInt8 := largeHead ++ List.replicate n 120

theorem largePart_add (n k : Nat) : largePart n ++ List.replicate k 120 = largePart (n + k) := by
  unfold largePart
  rw [append_assoc, replicate_append_replicate]

theorem length_largePart (n : Nat) : (largePart n).length = 325 + n := by
  unfold largePart
  rw [length_append, length_replicate, largeHead_read.2.1]

variable {n : Nat}

theorem reads_largePart (hn : n ≤ 1073741824) : ∃ d, Reads (largePart n) init (none, d) := by
  obtain ⟨hfeeds, -, -, hhead, -⟩ := largeHead_read
  have hbulk : Reads (replicate n 120) largeValue _ := reads_bulk rfl (by rw [length_replicate]; exact hn)
    (by rw [length_replicate]; show 325 + n < 2 ^ 31; omega)
  exact ⟨_, Reads.append ⟨hfeeds, hhead⟩ hbulk⟩

theorem clear_largePart (hn : n ≤ 1073741824) : Clear (largePart n) := by
  obtain ⟨d, hd⟩ := reads_largePart hn
  obtain ⟨hfeeds, -, -, -, hhead⟩ := largeHead_read
  have hbulk : Along (fun b c => InRange b c ∧ NotNull b c) step (replicate n 120) largeValue :=
    along_bulk rfl (by rw [length_replicate]; exact hn) (by rw [length_replicate]; show 325 + n < 2 ^ 31; omega)
  exact Throughout.of_along nofun (hhead.append hfeeds hbulk) hd.1 nofun

theorem noSkip_largePart (hn : n ≤ 1073741824) : Throughout (fun b c => ¬ Skips b c) (largePart n) init := by
  obtain ⟨d, hd⟩ := reads_largePart hn
  exact Throughout.of_along nofun (hd.2.mono fun _ _ hg => hg.2) hd.1 nofun

theorem maxLen_largePart (hn : n ≤ 1073741824) : maxLen (largePart n) init 0 = 1073741824 := by
  obtain ⟨hfeeds, -, hmax, -⟩ := largeHead_read
  unfold largePart
  rw [maxLen_append hfeeds, hmax]
  exact maxLen_bulk rfl (by rw [length_replicate]; exact hn)

end Scan

namespace ClientRead

variable {s : ClientRead}
variable {k : Int} {n : Nat}

/-- A part of a request fills the block. -/
theorem Inv.fills (h : Inv s) (hphase : s.phase = .reading k) (bs : List UInt8) {d : Scan}
    (hlen : (bs.length : Int) = s.iLeft) (hclear : Scan.Clear (s.received ++ bs))
    (hpart : feeds Scan.step (s.content ++ bs) Scan.init = (none, d, []))
    (hskip : Scan.Throughout (fun b c => ¬ Scan.Skips b c) (s.content ++ bs) Scan.init) (cfg : ReadConfig) :
    ∃ s', ClientRead.step cfg s (.recv (.data bs) []) = some s' ∧ Inv s' ∧ s'.phase = .moving k ∧
      s'.readCache.pData = s.readCache.pData ∧ s'.content = s.content ++ bs ∧ s'.received = s.received ++ bs ∧
      s'.readMsg.this.iMaxLen = Scan.maxLen (s.content ++ bs) Scan.init 0 := by
  obtain ⟨hst, hring⟩ := h.busy (by rw [hphase]; exact nofun)
  have hopen : s.status ≠ .aborted := by
    rw [hst]
    exact nofun
  have hroom : 0 < s.iLeft := h.room hopen fun k' => by
    rw [hphase]
    exact nofun
  have htake : bs.take s.iLeft.toNat = bs := take_of_length_le (by omega)
  have hne : bs ≠ [] := by
    rintro rfl
    rw [length_nil] at hlen
    omega
  have hcont : (s.receive bs).content = s.content ++ bs := Reader.content_receive h.within.le bs
  obtain ⟨iRet, s', ts, hp, hspec, -, -⟩ := h.processMsg hopen hlen.le hclear cfg []
  have hvs := hspec.consumed.eq_nil (by rw [hcont]; exact hpart)
  have hts : ts = [] := map_eq_nil_iff.mp hvs
  have hcache := hspec.consumed.kept hvs
  have hcont' : s'.content = s.content ++ bs := by
    have hsame := hspec.consumed.content
    rw [hvs, hcont] at hsame
    exact hsame.symm
  -- neither the ring nor the parser stops `ProcessMsg`
  have hret : iRet = .ok := by
    cases iRet with
    | ok => rfl
    | full =>
      have hfull := hspec.full.mp rfl
      rw [hspec.ring, hts] at hfull
      exact absurd hfull hring
    | abort =>
      obtain ⟨us, d', hpre, hfail⟩ := hspec.failed rfl
      rw [hcont'] at hpre
      exact absurd ⟨d', hfail⟩ (Scan.none_of_partial hpart hpre)
  subst hret
  obtain ⟨c, x, hread⟩ := hspec.reading nofun
  have hall : s'.unread = [] := (hspec.all rfl).resolve_right fun hno => hno (by rw [hcont']; exact hskip)
  have hmax : s'.readMsg.this.iMaxLen = Scan.maxLen (s.content ++ bs) Scan.init 0 := by
    rw [hread.unread_eq, drop_eq_nil_iff] at hall
    rw [hread.tracks.maxLen, ← hread.longest, take_of_length_le hall, hcont']
  have hrecv : ClientRead.step cfg s (.recv (.data bs) []) =
      some { s' with phase := .moving (k - (s'.taken.length - s.taken.length)) } := by
    unfold ClientRead.step
    simp only [hphase]
    unfold recv
    dsimp only
    rw [htake, if_neg hne, hp]
    exact if_neg (by omega)
  have htaken : s'.taken.length = s.taken.length := by
    rw [hspec.taken, hts, append_nil]
    rfl
  obtain ⟨s'', hstep, hinv⟩ := h.step (l := .recv (.data bs) []) (by
    show Scan.Clear (s.received ++ bs.take s.iLeft.toNat)
    rw [htake]
    exact hclear) cfg
  rw [hrecv] at hstep
  cases hstep
  refine ⟨_, hrecv, hinv, ?_, congrArg (·.pData) hcache, hcont', hspec.received, hmax⟩
  rw [htaken, sub_self, sub_zero]

/-- `Expand` for the longest bulk string. -/
theorem move_large (hlarge : (s.readCache.pData.sCapacity : Int) < n)
    (hmax : int32 (s.readMsg.this.iMaxLen + 256) = n) (hsize : int32 (if (n : Int) < 0 ∨
      (s.readCache.pData.sCapacity : Int) * 4 < n then (n : Int) else (s.readCache.pData.sCapacity : Int) * 4) = n)
     (hk : 0 < k) (hint : Int) : s.move k hint = some { s with
      toReader := s.toReader.moved (s.readCache.reset s.mem (s.readCache.pData.getData hint n)), phase := .reading k } := by
  unfold move
  rw [hmax, if_pos (.inr hlarge), s.toReader.expand_eq hint hsize, if_pos hk]
  rfl

/-- `Expand` without a length. -/
theorem move_double (hsmall : ¬ (int32 (s.readMsg.this.iMaxLen + 256) < 0 ∨ (s.readCache.pData.sCapacity : Int)
    < int32 (s.readMsg.this.iMaxLen + 256))) (hfull : s.readCache.leftCapcity = 0)
    (hsize : int32 ((s.readCache.pData.sCapacity : Int) * 4) = n) (hk : 0 < k) (hint : Int) :
    s.move k hint = some { s with
      toReader := s.toReader.moved (s.readCache.reset s.mem (s.readCache.pData.getData hint n)), phase := .reading k } := by
  have hsize' : int32 (if (0 : Int) < 0 ∨ (s.readCache.pData.sCapacity : Int) * 4 < 0 then (0 : Int)
      else (s.readCache.pData.sCapacity : Int) * 4) = n := by
    rw [if_neg (by omega)]
    exact hsize
  unfold move
  rw [if_neg hsmall, hfull, if_neg (by omega), s.toReader.expand_eq hint hsize', if_pos hk]
  rfl

/-- The first part of the large request leads to a block with room for the value and 256 bytes. -/
theorem large_request_expands (hint : Int) (h : Inv s) (hphase : s.phase = .moving 1000) (hcap : s.readCache.pData.sCapacity = 1024)
    (hmax : s.readMsg.this.iMaxLen = 1073741824) : ∃ s', s.move 1000 hint = some s' ∧ Inv s' ∧ s'.phase = .reading 1000 ∧
      s'.readCache.pData.sCapacity = 1073742080 ∧ s'.content = s.content ∧ s'.received = s.received := by
  have hmax' : int32 (s.readMsg.this.iMaxLen + 256) = (1073742080 : Nat) := by
    rw [hmax]
    rfl
  have hmove := move_large (by rw [hcap]; norm_num) hmax' (by rw [hcap]; rfl) (by norm_num : (0 : Int) < 1000) hint
  obtain ⟨s', hmove', hinv⟩ := h.move hphase (fun _ => by rw [hcap]; norm_num) hint
  rw [hmove] at hmove'
  cases hmove'
  obtain ⟨mem, hreset, hcopy⟩ := s.toReader.moved_reset (s.readCache.pData.getData hint 1073742080)
  refine ⟨_, hmove, hinv, rfl, (Block.getData_spec s.readCache.pData hint 1073742080).1.trans rfl, ?_, rfl⟩
  rw [hreset]
  exact Reader.content_movedTo hcopy

/-- When this block is full, `Expand` gets one of 1024 bytes. -/
theorem large_request_overflows (hint : Int) (h : Inv s) (hphase : s.phase = .moving 1000)
    (hcap : s.readCache.pData.sCapacity = 1073742080) (hmax : s.readMsg.this.iMaxLen = 1073741824)
    (hlen : s.content.length = 1073742080) :
    ∃ s', s.move 1000 hint = some s' ∧ s'.phase = .reading 1000 ∧ s'.iLeft < 0 ∧ s'.received = s.received := by
  obtain ⟨c, x, hread⟩ := h.reading (by rw [(h.busy (by rw [hphase]; exact nofun)).1]; exact nofun)
  have hfull : s.readCache.leftCapcity = 0 := by
    rw [hread.leftCapcity_eq, hread.iLeft_eq, hcap, hlen]
    rfl
  have hmax' : int32 (s.readMsg.this.iMaxLen + 256) = 1073742080 := by
    rw [hmax]
    rfl
  have hmove := move_double (by rw [hmax', hcap]; norm_num) hfull (by rw [hcap]; rfl)
    (by norm_num : (0 : Int) < 1000) hint
  refine ⟨_, hmove, rfl, ?_, rfl⟩
  have hsize : (s.readCache.pData.getData hint 1024).sCapacity = 1024 :=
    (Block.getData_spec s.readCache.pData hint 1024).1.trans rfl
  rw [Reader.content_length] at hlen
  show (s.readCache.pData.getData hint 1024).uszData + (s.readCache.pData.getData hint 1024).sCapacity -
    ((s.readCache.pData.getData hint 1024).uszData + (s.readCache.szMsgEnd - s.readCache.szMsgStart)) < 0
  omega

/-- After the block of a request with a value of 2 ^ 30 bytes has been filled, four times its size is 1024 as an `int`. The
next call of `read` gets a negative length. -/
theorem large_request_no_room : ∃ (ls : List Label) (s : ClientRead),
    run (step ⟨false, 1048576⟩) (init (fun _ => 0) 0) ls = some s ∧ Scan.Clear s.received ∧ s.phase = .reading 1000 ∧
      s.iLeft < 0 := by
  -- the first 1024 bytes
  have hinv₁ : Inv { init (fun _ => 0) 0 with phase := .reading 1000 } := (inv_init _ 0).enter rfl rfl nofun
  obtain ⟨d₂, hpart₂⟩ := Scan.reads_largePart (n := 699) (by norm_num)
  obtain ⟨s₂, hstep₂, hinv₂, hphase₂, hdata₂, hcont₂, hrec₂, hmax₂⟩ := hinv₁.fills rfl (Scan.largePart 699)
    (by rw [Scan.length_largePart]; rfl) (Scan.clear_largePart (by norm_num)) hpart₂.1
    (Scan.noSkip_largePart (by norm_num)) ⟨false, 1048576⟩
  replace hcont₂ : s₂.content = Scan.largePart 699 := hcont₂
  replace hrec₂ : s₂.received = Scan.largePart 699 := hrec₂
  obtain ⟨s₃, hmove₃, hinv₃, hphase₃, hcap₃, hcont₃, hrec₃⟩ := large_request_expands 4096 hinv₂ hphase₂
    (by rw [hdata₂]; rfl) (hmax₂.trans (by exact congrArg _ (Scan.maxLen_largePart (by norm_num))))
  -- the bytes up to the end of the new block
  have hall : Scan.largePart 699 ++ replicate 1073741056 120 = Scan.largePart 1073741755 := Scan.largePart_add _ _
  obtain ⟨c₃, x₃, hread₃⟩ := hinv₃.reading (by rw [(hinv₃.busy (by rw [hphase₃]; exact nofun)).1]; exact nofun)
  obtain ⟨d₄, hpart₄⟩ := Scan.reads_largePart (n := 1073741755) (by norm_num)
  obtain ⟨s₄, hstep₄, hinv₄, hphase₄, hdata₄, hcont₄, hrec₄, hmax₄⟩ := hinv₃.fills hphase₃ (replicate 1073741056 120)
    (by rw [hread₃.iLeft_eq, hcap₃, hcont₃, hcont₂, Scan.length_largePart, length_replicate]; rfl)
    (by rw [hrec₃, hrec₂, hall]; exact Scan.clear_largePart (by norm_num))
    (by rw [hcont₃, hcont₂, hall]; exact hpart₄.1)
    (by rw [hcont₃, hcont₂, hall]; exact Scan.noSkip_largePart (by norm_num)) ⟨false, 1048576⟩
  rw [hcont₃, hcont₂, hall] at hcont₄ hmax₄
  rw [hrec₃, hrec₂, hall] at hrec₄
  obtain ⟨s₅, hmove₅, hphase₅, hleft₅, hrec₅⟩ := large_request_overflows 0 hinv₄ hphase₄ (by rw [hdata₄, hcap₃])
    (hmax₄.trans (by exact congrArg _ (Scan.maxLen_largePart (by norm_num)))) (by rw [hcont₄, Scan.length_largePart])
  refine ⟨[.enter, .recv (.data (Scan.largePart 699)) [], .move 4096, .recv (.data (replicate 1073741056 120)) [], .move 0],
    s₅, ?_, ?_, hphase₅, hleft₅⟩
  · have henter : step ⟨false, 1048576⟩ (init (fun _ => 0) 0) .enter = some { init (fun _ => 0) 0 with phase := .reading 1000 } := rfl
    have hstep₃ : step ⟨false, 1048576⟩ s₂ (.move 4096) = some s₃ := by
      unfold step
      simp only [hphase₂]
      exact hmove₃
    have hstep₅ : step ⟨false, 1048576⟩ s₄ (.move 0) = some s₅ := by
      unfold step
      simp only [hphase₄]
      exact hmove₅
    rw [run_cons, henter, bind_some, run_cons, hstep₂, bind_some, run_cons, hstep₃, bind_some, run_cons, hstep₄,
      bind_some, run_cons, hstep₅, bind_some, run_nil]
  · rw [hrec₅, hrec₄]
    exact Scan.clear_largePart (by norm_num)

end ClientRead

/-! ## The bytes of the cache -/

/-- In orderly runs the bytes of each cache stay in its block, and with what has been consumed they are what has been read,
also between two rounds of one call of `ProcessMsg`. -/
theorem cache_keeps_bytes (cfg : ReadConfig) (lUnixTime : Int) (mem mem' mem'' : Int → UInt8) (uszData uszData' uszData'' : Int)
    (ls : List ClientRead.Label) (ls' : List BackendRead.Label) (ls'' : List AofRead.Label)
    (hls : Meets (ClientRead.step cfg) ClientRead.Orderly (.init mem uszData) ls)
    (hls' : Meets BackendRead.step BackendRead.Orderly (.init mem' uszData') ls')
    (hls'' : Meets (AofRead.step lUnixTime) AofRead.Orderly (.init mem'' uszData'') ls'') :
    (∃ s, run (ClientRead.step cfg) (.init mem uszData) ls = some s ∧ ∀ s₁, s₁ = s ∨ ClientRead.During cfg s s₁ →
        s₁.readCache.Within ∧ s₁.received = (s₁.taken.map (·.bytes)).flatten ++ s₁.content) ∧
      (∃ s, run BackendRead.step (.init mem' uszData') ls' = some s ∧ ∀ s₁, s₁ = s ∨ BackendRead.During s s₁ →
        s₁.readCache.Within ∧ s₁.received = s₁.replies.flatten ++ s₁.content) ∧
      ∃ s, run (AofRead.step lUnixTime) (.init mem'' uszData'') ls'' = some s ∧ s.readCache.Within ∧
        s.received = s.consumed ++ s.content := by
  refine ⟨?_, ?_, ?_⟩
  · obtain ⟨s, hrun, h⟩ := ClientRead.run_inv cfg mem uszData hls
    refine ⟨s, hrun, ?_⟩
    rintro s₁ (rfl | hd)
    · exact ⟨h.within, h.received⟩
    · obtain ⟨⟨c, x, hread⟩, hrec⟩ := h.during hd
      exact ⟨hread.within, hrec⟩
  · obtain ⟨s, hrun, h⟩ := BackendRead.run_inv mem' uszData' hls'
    refine ⟨s, hrun, ?_⟩
    rintro s₁ (rfl | hd)
    · exact ⟨h.within, h.received⟩
    · obtain ⟨⟨c, x, hread⟩, hrec⟩ := h.during hd
      exact ⟨hread.within, hrec⟩
  · obtain ⟨s, hrun, h⟩ := AofRead.run_inv lUnixTime mem'' uszData'' hls''
    exact ⟨s, hrun, h.within, h.received⟩

/-- A request, a reply and the same request from a file, each with some bytes of the next one. -/
theorem cache_keeps_bytes_eval :
    (∃ s, run (ClientRead.step ⟨false, 1048576⟩) (.init (fun _ => 0) 0)
        [.enter, .recv (.data [42, 49, 13, 10, 36, 52, 13, 10, 80, 73, 78, 71, 13, 10, 42]) [4096]] = some s ∧
        ∀ s₁, s₁ = s ∨ ClientRead.During ⟨false, 1048576⟩ s s₁ →
          s₁.readCache.Within ∧ s₁.received = (s₁.taken.map (·.bytes)).flatten ++ s₁.content) ∧
      (∃ s, run BackendRead.step (.init (fun _ => 0) 0) [.sent 1, .enter, .recv (.data [43, 79, 75, 13, 10, 43]) [4096] []] = some s ∧
        ∀ s₁, s₁ = s ∨ BackendRead.During s s₁ →
          s₁.readCache.Within ∧ s₁.received = s₁.replies.flatten ++ s₁.content) ∧
      ∃ s, run (AofRead.step 0) (.init (fun _ => 0) 0)
          [.enter, .fread [42, 49, 13, 10, 36, 52, 13, 10, 80, 73, 78, 71, 13, 10, 42] true, .round 4096, .round 8192] = some s ∧
        s.readCache.Within ∧ s.received = s.consumed ++ s.content :=
  cache_keeps_bytes ⟨false, 1048576⟩ 0 (fun _ => 0) (fun _ => 0) (fun _ => 0) 0 0 0
    [.enter, .recv (.data [42, 49, 13, 10, 36, 52, 13, 10, 80, 73, 78, 71, 13, 10, 42]) [4096]]
    [.sent 1, .enter, .recv (.data [43, 79, 75, 13, 10, 43]) [4096] []]
    [.enter, .fread [42, 49, 13, 10, 36, 52, 13, 10, 80, 73, 78, 71, 13, 10, 42] true, .round 4096, .round 8192]
    (by decide) (by decide) (by decide)

/-- The loader of a file has read a request and 600 bytes of the next one. `StartNext` gets a block of 512 bytes for them. -/
theorem loaded_bytes_overflow : (run (AofRead.step 0) (.init (fun _ => 0) 0)
      [.enter, .fread ([42, 50, 13, 10, 36, 51, 13, 10, 71, 69, 84, 13, 10, 36, 49, 13, 10, 65, 13, 10] ++
        ([42, 50, 13, 10, 36, 51, 13, 10, 71, 69, 84, 13, 10, 36, 57, 57, 57, 13, 10] ++ List.replicate 581 65)) false, .round 4096]).map
        (fun s => (s.readCache.szMsgStart, s.readCache.szMsgEnd, s.readCache.pData.uszEnd)) = some (4096, 4696, 4608) := by
  decide +kernel

end RedisProxy
