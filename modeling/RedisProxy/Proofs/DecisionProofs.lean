import RedisProxy.Proofs.ClientReadProofs

/-!
# What is done with a request

`Reset` moves the key of a suspended parser with the bytes, but not its command. If the bytes go to another block after the
command has been found, it is looked up in the old block, where other bytes may stand by then. Otherwise the parser at the
end of a request is that of `parsed`, at the place of the request, and what is done with the request only depends on its
bytes.
-/

namespace RedisProxy

open Lib Resp List Option

/-! ## A decision depends on the request -/

theorem strIcmp_congr {rd rd' : Int → UInt8} {p q : Int} {cs : List UInt8}
    (h : bytesAt rd p cs.length = bytesAt rd' q cs.length) : strIcmp rd p cs = strIcmp rd' q cs := by
  induction cs generalizing p q with
  | nil => rfl
  | cons c cs ih =>
    simp only [length_cons, bytesAt, cons.injEq] at h
    unfold strIcmp
    rw [h.1, ih h.2]

namespace MsgInfo

/-- Two parsers with the same lengths, whose commands and keys compare the same way. -/
structure Alike (info : MsgInfo) (rd : Int → UInt8) (info' : MsgInfo) (rd' : Int → UInt8) : Prop where
  len : info.iLen = info'.iLen
  cmdLen : info.iCmdLen = info'.iCmdLen
  keyLen : info.iKeyLen = info'.iKeyLen
  cmd : ∀ text : List UInt8, text.length ≤ info.iCmdLen → info.cmdIcmp rd text = info'.cmdIcmp rd' text
  key : ∀ text : List UInt8, text.length ≤ info.iKeyLen → info.keyIcmp rd text = info'.keyIcmp rd' text

variable {info info' : MsgInfo} {rd rd' : Int → UInt8}
variable {n : Int} {text : List UInt8}

theorem Alike.cmdIs (h : Alike info rd info' rd') (hn : text.length ≤ n) : (info.iCmdLen == n && info.cmdIcmp rd text)
    = (info'.iCmdLen == n && info'.cmdIcmp rd' text) := by
  rw [← h.cmdLen]
  by_cases hlen : info.iCmdLen = n
  · rw [h.cmd text (by rw [hlen]; exact hn)]
  · rw [beq_false_of_ne hlen, Bool.false_and, Bool.false_and]

theorem Alike.keyIs (h : Alike info rd info' rd') (hn : text.length ≤ n) : (info.iKeyLen == n && info.keyIcmp rd text)
    = (info'.iKeyLen == n && info'.keyIcmp rd' text) := by
  rw [← h.keyLen]
  by_cases hlen : info.iKeyLen = n
  · rw [h.key text (by rw [hlen]; exact hn)]
  · rw [beq_false_of_ne hlen, Bool.false_and, Bool.false_and]

theorem Alike.notSupportCmd (h : Alike info rd info' rd') : info.notSupportCmd rd = info'.notSupportCmd rd' := by
  unfold MsgInfo.notSupportCmd
  rw [h.cmdIs (by decide), ← h.cmdLen]
  by_cases hlen : 5 < info.iCmdLen
  · rw [h.cmd _ (by simp only [length_cons, length_nil]; omega)]
  · rw [decide_eq_false hlen, Bool.false_and, Bool.false_and]

theorem Alike.route (h : Alike info rd info' rd') (cfg : ReadConfig) : info.route cfg rd = info'.route cfg rd' := by
  have hcluster : info.isClusterCmd rd = info'.isClusterCmd rd' := h.cmdIs (by decide)
  have hslots : info.isClusterSlots rd = info'.isClusterSlots rd' := h.keyIs (by decide)
  have hreset : info.isReset rd = info'.isReset rd' := h.cmdIs (by decide)
  have hsupport : info.clusterSupportCmd rd = info'.clusterSupportCmd rd' := by
    unfold MsgInfo.clusterSupportCmd
    rw [hslots, h.keyIs (by decide), h.keyIs (by decide), h.keyIs (by decide)]
  unfold MsgInfo.route
  rw [hcluster, hslots, hreset, hsupport]

theorem Alike.decision (h : Alike info rd info' rd') (cfg : ReadConfig) :
    info.decision cfg rd = info'.decision cfg rd' := by
  have hping : info.isPing rd = info'.isPing rd' := h.cmdIs (by decide)
  have hreset : info.isReset rd = info'.isReset rd' := h.cmdIs (by decide)
  unfold MsgInfo.decision
  rw [h.notSupportCmd, h.route cfg, hping, hreset, h.len, h.keyLen]

end MsgInfo

namespace RedisMsg

variable {as : List (List UInt8)} {v : List UInt8} {rd : Int → UInt8} {p q : Int} {m : RedisMsg}
variable {c : Int}

theorem parsed_marks (hv : Request Canonical as v) (hlt : v.length < 2 ^ 31) : Layer.Marks 0 (parsed v) := by
  obtain ⟨xs, m', h1, h2, -, -⟩ := Layer.feeds_request (m := Layer.init 0) hv hlt
    (Layer.room_none _) ⟨rfl, rfl, rfl⟩ (bytesAt_memoryWith v)
  have hm : parsed v = m' := by
    unfold parsed
    rw [h1]
  rw [hm]
  exact h2.marks

/-- A text of the request, where it stands. -/
theorem bytesAt_shifted (hmem : bytesAt rd p v.length = v) {k : Int} (h0 : 0 ≤ c) (hk : c + k ≤ v.length) :
    bytesAt (memoryWith v) c k.toNat = bytesAt rd (c + p) k.toNat := by
  have hsame : bytesAt (memoryWith v) 0 v.length = bytesAt rd p v.length := (bytesAt_memoryWith v).trans hmem.symm
  have hsub := Layer.bytesAt_sub hsame h0 (k := k) (by omega)
  rw [sub_zero] at hsub
  exact hsub

theorem strIcmp_shifted (hmem : bytesAt rd p v.length = v) {text : List UInt8} (h0 : 0 ≤ c)
    (hk : c + text.length ≤ v.length) : strIcmp rd (c + p) text = strIcmp (memoryWith v) c text := by
  have hbytes := bytesAt_shifted hmem h0 hk
  exact (strIcmp_congr hbytes).symm

/-- The parser at the end of a request takes the same decision wherever the request stands. -/
theorem alike_shift {m₀ : Layer} (hm : Layer.Marks 0 m₀) (hpos : m₀.szNowPos = v.length) (hmem : bytesAt rd p v.length = v)
    (e : Int) (l : MsgMeta) : MsgInfo.Alike (m₀.shift p e l).toMsgInfo rd m₀.toMsgInfo (memoryWith v) where
  len := rfl
  cmdLen := rfl
  keyLen := rfl
  cmd text ht := by
    replace ht : (text.length : Int) ≤ m₀.iCmdLen := ht
    show (m₀.szCmd.map (· + p)).any (fun c => strIcmp rd c text) = m₀.szCmd.any fun c => strIcmp (memoryWith v) c text
    cases hc : m₀.szCmd with
    | none => rfl
    | some c =>
      obtain ⟨h1, h2⟩ := hm.cmd c hc
      exact strIcmp_shifted hmem h1 (by omega)
  key text ht := by
    replace ht : (text.length : Int) ≤ m₀.iKeyLen := ht
    show (m₀.szKeyStart.map (· + p)).any (fun c => strIcmp rd c text) =
      m₀.szKeyStart.any fun c => strIcmp (memoryWith v) c text
    cases hc : m₀.szKeyStart with
    | none => rfl
    | some c =>
      obtain ⟨h1, -, h2⟩ := hm.key c hc
      exact strIcmp_shifted hmem h1 (by omega)

/-! ## The parser goes with the bytes -/

/-- `Reset` to where the parser is. -/
theorem reset_self (m : RedisMsg) : m.reset m.this.szStart = m := by
  have hid : rebase m.this.szStart m.this.szStart = id := by
    funext l
    obtain ⟨⟨iLen, szKeyStart, iKeyLen, bKeyLine, szCmd, iCmdLen, iArgLen, iNowLine, iKeyInLines, iNeedArgNum, nowState,
      iErrFlag, iMaxLen⟩, szStart, szEnd, szNowPos, line, b⟩ := l
    cases szKeyStart <;> simp [rebase]
  unfold RedisMsg.reset
  rw [hid, List.map_id]
  rfl

/-- `Reset` before the command has been found. -/
theorem InRequest.reset {us : List UInt8} (h : InRequest v us p m) (hp : m.this.szStart = p) (hc : m.this.szCmd = none)
    (q : Int) : InRequest v us q (m.reset q) := by
  obtain ⟨⟨m0, l, h1, h2, h3, h4⟩, ⟨c, x, h5, h6⟩, h7⟩ := h
  have hmoves := Layer.moves_rebase m.this.szStart q
  refine ⟨⟨m0, l, h1, h2, h3, ?_⟩, ⟨c, x, h5, hmoves.tracks h6⟩, ?_⟩
  · have hcmd : m0.szCmd = none := by
      rw [h4] at hc
      simpa [Layer.shift] using hc
    have hstart : m0.szStart + p = p := by
      rw [h4] at hp
      exact hp
    unfold RedisMsg.reset rebase
    rw [hp, h4]
    obtain ⟨⟨iLen, szKeyStart, iKeyLen, bKeyLine, szCmd, iCmdLen, iArgLen, iNowLine, iKeyInLines, iNeedArgNum, nowState,
      iErrFlag, iMaxLen⟩, szStart, szEnd, szNowPos, line, b⟩ := m0
    dsimp only at hcmd hstart
    subst hcmd
    simp only [Layer.shift, map_none, Layer.mk.injEq, MsgInfo.mk.injEq, true_and, and_true]
    refine ⟨?_, by omega, by omega⟩
    cases szKeyStart with
    | none => rfl
    | some k =>
      simp only [map_some, some.injEq]
      omega
  · show (rebase m.this.szStart q m.this).cursor (m.next.map (rebase m.this.szStart q)) = q + us.length
    rw [hmoves.cursor, h7, hp]
    omega

end RedisMsg

namespace ClientRead

variable {cfg : ReadConfig} {s s' : ClientRead} {vs : List (List UInt8)} {as : List (List UInt8)} {v : List UInt8} {c : Scan}
  {x : Nat} {m : RedisMsg}
variable {hint k : Int} {iRet : ProcessRet}

/-! ## The requests that have been taken -/

/-- What is done with the request is what its bytes ask for. -/
structure Decided (cfg : ReadConfig) (t : Taken) : Prop where
  decision : t.decision = (RedisMsg.parsed t.bytes).toMsgInfo.decision cfg (memoryWith t.bytes)
  cmd : t.cmd = ((RedisMsg.parsed t.bytes).szCmd.map fun c =>
    bytesAt (memoryWith t.bytes) c (RedisMsg.parsed t.bytes).iCmdLen.toNat).getD []
  located : t.Located

/-- The cache holds a part of the next requests. The parser is in the first one, and has read it as if it had been there from
the start. -/
structure Exact (cfg : ReadConfig) (vs : List (List UInt8)) (s : ClientRead) : Prop where
  next : ∃ rest, vs = s.taken.map (·.bytes) ++ rest ∧ s.content <+: rest.flatten ∧
    ∀ v ∈ rest.head?, ∃ us, RedisMsg.InRequest v us s.readCache.szMsgStart s.readMsg ∧ us <+: s.content
  decided : ∀ t ∈ s.taken, Decided cfg t

/-- The request that is taken when the parser is at the end of `v`. -/
theorem take_decided (cfg : ReadConfig) {p e : Int} {l : MsgMeta} (hv : Request Canonical as v) (hlt : v.length < 2 ^ 31)
    (hthis : s.readMsg.this = (RedisMsg.parsed v).shift p e l) (hpos : s.readMsg.this.szNowPos = p + v.length)
    (hmem : bytesAt s.mem p v.length = v) (hp : s.readCache.pData.uszData = p) :
    ∃ t, (take cfg s).taken = s.taken ++ [t] ∧ t.bytes = v ∧ Decided cfg t := by
  have hmarks := RedisMsg.parsed_marks hv hlt
  have hnow : (RedisMsg.parsed v).szNowPos = v.length := by
    rw [hthis] at hpos
    have : (RedisMsg.parsed v).szNowPos + p = p + v.length := hpos
    omega
  have hbytes : bytesAt s.mem s.readCache.pData.uszData s.readMsg.this.iLen.toNat = v := by
    have hlen : s.readMsg.this.iLen = v.length := by
      rw [hthis]
      exact (RedisMsg.parsed_spec hv hlt).1
    rw [hlen, Int.toNat_natCast, hp, hmem]
  refine ⟨_, rfl, hbytes, ?_, ?_, ?_⟩
  · dsimp only
    rw [hbytes, hthis]
    exact (RedisMsg.alike_shift hmarks hnow hmem e l).decision cfg
  · dsimp only
    rw [hbytes, hthis]
    show (((RedisMsg.parsed v).szCmd.map (· + p)).map fun q => bytesAt s.mem q (RedisMsg.parsed v).iCmdLen.toNat).getD [] = _
    rcases hc : (RedisMsg.parsed v).szCmd with _ | q
    · rfl
    · obtain ⟨h1, h2⟩ := hmarks.cmd q hc
      exact (RedisMsg.bytesAt_shifted hmem h1 (h2.trans hnow.le)).symm
  · intro a ha
    dsimp only at ha ⊢
    rw [ha, hbytes, hp]
    rw [hthis] at ha ⊢
    obtain ⟨q, hq, rfl⟩ := map_eq_some_iff.mp ha
    obtain ⟨h1, h2⟩ := hmarks.cmd q hq
    have hcmd : ((RedisMsg.parsed v).shift p e l).iCmdLen = (RedisMsg.parsed v).iCmdLen := rfl
    rw [hcmd]
    refine ⟨by omega, by omega, ?_⟩
    obtain ⟨i, rfl⟩ := Int.eq_ofNat_of_zero_le h1
    have htake : (RedisMsg.parsed v).iCmdLen.toNat ≤ v.length - i := by omega
    rw [add_sub_cancel_right, Int.toNat_natCast, add_comm, map_some, getD_some, ← bytesAt_take s.mem _ htake,
      ← bytesAt_drop, hmem]

/-! ## `ProcessMsg` -/

/-- A call of `ParseRsp` in a request. -/
theorem parse_request {rest : List (List UInt8)} (hv : Request Canonical as v) (hlt : v.length < 2 ^ 31)
    (hcontent : s.content <+: (v :: rest).flatten)
    (hin : ∃ us, RedisMsg.InRequest v us s.readCache.szMsgStart s.readMsg ∧ us <+: s.content) (hread : s.Reading c x)
    {iRet : ParseRet} (hparse : s.readMsg.parseRsp s.mem = some (iRet, m)) :
    m.this.nowState ≠ .msgEnd ∧ RedisMsg.InRequest v s.content s.readCache.szMsgStart m ∨
      m.this.nowState = .msgEnd ∧ ∃ r l, s.content = v ++ r ∧
        m.this = (RedisMsg.parsed v).shift s.readCache.szMsgStart s.readMsg.this.szEnd l ∧
        m.this.szNowPos = s.readCache.szMsgStart + v.length := by
  obtain ⟨us, hus, hpre⟩ := hin
  have hcur := hread.cursor
  have hlen : us.length = c.len := by
    have := hus.cursor
    omega
  have hall : us ++ s.unread = s.content := by
    rw [hread.unread_eq, ← hlen]
    conv_lhs => rw [prefix_iff_eq_take.mp hpre, length_take]
    rw [Nat.min_eq_left hpre.length_le]
    exact take_append_drop us.length s.content
  have hmem : bytesAt s.mem s.readCache.szMsgStart us.length = us := by
    have hshort := hpre.length_le
    rw [Reader.content_length] at hshort
    exact (bytesAt_take s.mem _ hshort).symm.trans (prefix_iff_eq_take.mp hpre).symm
  have hcap := hread.length_le.2
  have hbound := hread.cap.2
  have hle := hread.le
  have hstop := hread.stop
  rw [← hall, flatten_cons] at hcontent
  obtain ⟨m', h1, h2, h3⟩ := hus.parseRsp hv hlt hmem rfl hcontent (by omega) (by
    rw [Reader.content_length] at hcap
    omega)
  rw [hparse] at h1
  cases h1
  have hall' : us ++ Layer.window s.mem s.readMsg.this s.readMsg.next = s.content := hall
  rw [hall'] at h3
  rcases h3 with ⟨-, hmore⟩ | ⟨r, l, heq, hthis, -, hpos⟩
  · obtain ⟨d, y, -, htracks⟩ := hmore.tracks
    exact .inl ⟨htracks.ready.sane.notEnd, hmore⟩
  · refine .inr ⟨?_, r, l, heq, hthis, hpos⟩
    rw [hthis]
    exact (RedisMsg.parsed_spec hv hlt).2

/-- `StartNext` puts the parser before the next request. -/
theorem atStart_next {s s' : Reader} (h : s.startNext hint = some s') :
    RedisMsg.AtStart s'.readCache.szMsgStart s'.readMsg := by
  unfold Reader.startNext at h
  obtain ⟨r, hr, rfl⟩ := map_eq_some_iff.mp h
  unfold MsgBufferMgr.resetMemPool at hr
  split_ifs at hr
  cases hr
  exact (RedisMsg.atStart_startNext rfl).reset _

/-- The requests of a stream. -/
def Requests (vs : List (List UInt8)) : Prop := ∀ v ∈ vs, (∃ as, Request Canonical as v) ∧ v.length < 2 ^ 31

theorem Exact.round (h : Exact cfg vs s) (hvs : Requests vs) (hread : s.Reading c x) (hclear : Scan.Clear s.content)
    (hr : Round cfg s s') : Exact cfg vs s' := by
  obtain ⟨rest, hsplit, hcontent, hin⟩ := h.next
  cases hr with
  | null hring hparse =>
    cases hread.parsed hclear.ranged hparse with
    | null hnull => exact absurd (Along.mono (fun _ _ hb => hb.2) hclear) hnull
  | @taken m hint reader hring hparse hend hnext =>
    cases hread.parsed hclear.ranged hparse with
    | more hmore => exact absurd hend hmore.tracks.ready.sane.notEnd
    | @message _ n hlt hdone hmsg =>
      obtain ⟨reader', hnext', -, hcont, hfront, -⟩ := hdone.startNext (Nat.zero_lt_of_lt hlt) hint
      obtain rfl := some.inj (hnext.symm.trans hnext')
      obtain ⟨v, rest, rfl⟩ : ∃ v rest', rest = v :: rest' := by
        cases rest with
        | nil =>
          rw [flatten_nil, prefix_nil] at hcontent
          rw [hcontent, take_nil] at hmsg
          exact absurd hmsg Scan.not_isMessage_nil
        | cons v rest => exact ⟨v, rest, rfl⟩
      obtain ⟨⟨as, hv⟩, hvlt⟩ := hvs v (by rw [hsplit]; simp)
      rcases parse_request hv hvlt hcontent (hin v rfl) hread hparse with ⟨hne, -⟩ | ⟨-, r, l, heq, hthis, hpos⟩
      · exact absurd hend hne
      have hmem : bytesAt s.mem s.readCache.szMsgStart v.length = v := by
        have hshort := congrArg List.length heq
        rw [Reader.content_length, length_append] at hshort
        refine (bytesAt_take s.mem _ (by omega)).symm.trans ((congrArg (List.take v.length) heq).trans ?_)
        exact take_left
      obtain ⟨t, htaken, hbytes, hdecided⟩ := take_decided cfg (s := { s with readMsg := m }) hv hvlt hthis hpos hmem
        hread.front.symm
      have hn : n = v.length := by
        have hlen := hdone.len
        rw [show m.this.iLen = v.length by rw [hthis]; exact (RedisMsg.parsed_spec hv hvlt).1] at hlen
        exact (Int.ofNat.inj hlen).symm
      have hrest : reader.content = r := by
        rw [hcont, hn]
        show s.content.drop v.length = r
        rw [heq, drop_left]
      refine ⟨⟨rest, ?_, ?_, fun v' _ => ⟨[], (atStart_next hnext).inRequest v', nil_prefix⟩⟩, ?_⟩
      · show vs = (take cfg { s with readMsg := m }).taken.map _ ++ rest
        rw [htaken, hsplit, map_append, map_singleton, hbytes, append_assoc]
        rfl
      · show reader.content <+: _
        rw [heq, flatten_cons, prefix_append_right_inj] at hcontent
        rw [hrest]
        exact hcontent
      · intro t' ht'
        have ht : t' ∈ s.taken ++ [t] := by
          rw [← htaken]
          exact ht'
        rcases mem_append.mp ht with ht | ht
        · exact h.decided t' ht
        · rw [mem_singleton.mp ht]
          exact hdecided

theorem Exact.stops (h : Exact cfg vs s) (hvs : Requests vs) (hread : s.Reading c x) (hclear : Scan.Clear s.content)
    (hstop : Stops s iRet s') : iRet ≠ .abort ∧ Exact cfg vs s' := by
  obtain ⟨rest, hsplit, hcontent, hin⟩ := h.next
  cases hstop with
  | full => exact ⟨nofun, h⟩
  | failed hring hparse =>
    cases hread.parsed hclear.ranged hparse with
    | failed hend hpre hfail =>
      refine absurd hfail (Scan.messages_fine (fun v hv => ?_) (hpre.trans hcontent))
      obtain ⟨⟨as, hreq⟩, hlt⟩ := hvs v (by rw [hsplit]; exact mem_append_right _ hv)
      exact isMessage_of_request hreq hlt
  | more hring hparse hend =>
    refine ⟨nofun, ⟨rest, hsplit, hcontent, ?_⟩, h.decided⟩
    intro v hv
    obtain ⟨rest', rfl⟩ : ∃ rest', rest = v :: rest' := by
      cases rest with
      | nil => cases hv
      | cons w rest =>
        cases hv
        exact ⟨rest, rfl⟩
    obtain ⟨⟨as, hreq⟩, hlt⟩ := hvs v (by rw [hsplit]; simp)
    rcases parse_request hreq hlt hcontent (hin v rfl) hread hparse with ⟨-, hmore⟩ | ⟨hmsg, -⟩
    · exact ⟨s.content, hmore, prefix_refl _⟩
    · exact absurd hmsg hend

/-- What holds before `ProcessMsg` holds after it, and it does not fail. -/
theorem Exact.processMsg {n : Nat} {hints : List Int} (h : Exact cfg vs s) (hvs : Requests vs)
    (hread : s.Reading c x) (hclear : Scan.Clear s.content) (hp : processMsg cfg n hints s = some (iRet, s')) :
    iRet ≠ .abort ∧ Exact cfg vs s' := by
  obtain ⟨s₁, hrounds, hstop⟩ := processMsg_rounds hp
  have hinv : (∃ c x, s₁.Reading c x) ∧ (∃ ts, Took s s₁ ts) ∧ Exact cfg vs s₁ := by
    clear hstop
    induction hrounds with
    | refl => exact ⟨⟨c, x, hread⟩, ⟨[], took_refl s⟩, h⟩
    | tail _ hround ih =>
      obtain ⟨⟨c', x', hread'⟩, ⟨ts, htook⟩, h'⟩ := ih
      obtain ⟨hread'', -, t, htook'⟩ := htook.round hread' hclear hround
      exact ⟨⟨_, _, hread''⟩, ⟨_, htook'⟩, h'.round hvs hread' (htook.consumed.throughout hclear) hround⟩
  obtain ⟨⟨c', x', hread'⟩, ⟨ts, htook⟩, h'⟩ := hinv
  exact h'.stops hvs hread' (htook.consumed.throughout hclear) hstop

/-! ## Runs -/

/-- The bytes are moved in their block, or `Expand` moves them to another one. -/
theorem move_cases (h : s.move k hint = some s') : ∃ r : MsgBufferMgr × (Int → UInt8),
    s'.toReader = s.toReader.moved r ∧ r.1.szMsgStart = r.1.pData.uszData ∧ (s.expands ∨ r.1.pData = s.readCache.pData) := by
  have hexpand : ∀ {iAtLeast : Int} {r : MsgBufferMgr × (Int → UInt8)}, s.readCache.expand s.mem hint iAtLeast = some r →
      r.1.szMsgStart = r.1.pData.uszData := by
    intro iAtLeast r hr
    unfold MsgBufferMgr.expand MsgBufferMgr.resetMemPool at hr
    split_ifs at hr <;> cases hr <;> rfl
  unfold move at h
  by_cases hlarge : int32 (s.readMsg.this.iMaxLen + 256) < 0 ∨
      (s.readCache.pData.sCapacity : Int) < int32 (s.readMsg.this.iMaxLen + 256)
  · rw [if_pos hlarge] at h
    obtain ⟨r, hr, hs⟩ := bind_eq_some_iff.mp h
    cases hs
    exact ⟨r, rfl, hexpand hr, .inl (.inl hlarge)⟩
  rw [if_neg hlarge] at h
  by_cases hhalf : s.readCache.leftCapcity < 0 ∨ ((s.readCache.pData.sCapacity / 2 : Nat) : Int) < s.readCache.leftCapcity
  · rw [if_pos hhalf] at h
    cases h
    exact ⟨_, rfl, rfl, .inr rfl⟩
  · rw [if_neg hhalf] at h
    obtain ⟨r, hr, hs⟩ := bind_eq_some_iff.mp h
    cases hs
    exact ⟨r, rfl, hexpand hr, .inl (.inr hhalf)⟩

/-- The parser goes with the bytes, if they stay in their block or it has not found a command. -/
theorem inRequest_moved {us : List UInt8} (h : RedisMsg.InRequest v us s.readCache.szMsgStart s.readMsg)
    (hread : s.Reading c x) (hkeep : s.expands → s.readMsg.this.szCmd = none) (hm : s.move k hint = some s') :
    RedisMsg.InRequest v us s'.readCache.szMsgStart s'.readMsg := by
  obtain ⟨r, hr, hfront, hcase⟩ := move_cases hm
  rw [hr]
  show RedisMsg.InRequest v us r.1.szMsgStart (s.readMsg.reset r.1.pData.uszData)
  rw [hfront]
  rcases hcase with hexp | hsame
  · exact h.reset hread.start (hkeep hexp) _
  · have hstart : r.1.pData.uszData = s.readMsg.this.szStart := by rw [hsame, hread.start, hread.front]
    rw [hstart, RedisMsg.reset_self, hread.start]
    exact h

theorem Exact.of_eq (h : Exact cfg vs s) (hmsg : s'.readMsg = s.readMsg) (hcache : s'.readCache = s.readCache)
    (hcontent : s'.content = s.content) (htaken : s'.taken = s.taken) : Exact cfg vs s' := by
  obtain ⟨rest, hsplit, hpre, hin⟩ := h.next
  refine ⟨⟨rest, ?_⟩, ?_⟩
  · rw [htaken, hcontent, hmsg, hcache]
    exact ⟨hsplit, hpre, hin⟩
  · rw [htaken]
    exact h.decided

/-- The bytes that have been read go on with the request. -/
theorem Exact.receive {bs : List UInt8} (h : Exact cfg vs s) (hinv : Inv s) (hstr : s.received ++ bs <+: vs.flatten)
    (hcontent : (s.receive bs).content = s.content ++ bs) : Exact cfg vs (s.receive bs) := by
  obtain ⟨rest, hsplit, hpre, hin⟩ := h.next
  refine ⟨⟨rest, hsplit, ?_, ?_⟩, h.decided⟩
  · rw [hcontent]
    rw [hinv.received, hsplit, flatten_append, append_assoc, prefix_append_right_inj] at hstr
    exact hstr
  · intro v hv
    obtain ⟨us, hus, huspre⟩ := hin v hv
    refine ⟨us, hus.expand bs.length, ?_⟩
    rw [hcontent]
    exact huspre.trans (prefix_append _ _)

theorem Exact.step (h : Exact cfg vs s) (hvs : Requests vs) (hinv : Inv s) (hopen : s.status ≠ .aborted) {l : Label}
    (hstr : s.Streams vs.flatten l) (hord : s.Orderly l) (hkeep : s.Keeps l) (hs : ClientRead.step cfg s l = some s') :
    s'.status ≠ .aborted ∧ Exact cfg vs s' := by
  cases hinv.served hord hs with
  | still hmsg hcache hcontent htaken hreceived hstatus =>
    exact ⟨fun ha => hopen (hstatus ha), h.of_eq hmsg hcache hcontent htaken⟩
  | moved hphase hmove hcontent htaken hreceived hstatus =>
    obtain ⟨c, x, hread⟩ := hinv.reading hopen
    obtain ⟨rest, hsplit, hpre, hin⟩ := h.next
    refine ⟨by rw [hstatus]; exact hopen, ⟨rest, ?_⟩, ?_⟩
    · rw [htaken, hcontent]
      refine ⟨hsplit, hpre, fun v hv => ?_⟩
      obtain ⟨us, hus, huspre⟩ := hin v hv
      exact ⟨us, inRequest_moved hus hread hkeep hmove, huspre⟩
    · rw [htaken]
      exact h.decided
  | @processed bs hints k iRet s₁ ts phase hphase hp hspec hcontent =>
    obtain ⟨c, x, hread⟩ := hinv.reading hopen
    have hroom : 0 < s.iLeft := hinv.room hopen fun k' => by
      rw [hphase]
      exact nofun
    have hlen := length_take_le s.iLeft.toNat bs
    obtain ⟨hread', hclear', -⟩ := hinv.receive hread (by omega) hord
    obtain ⟨hret, h'⟩ := (h.receive hinv hstr hcontent).processMsg hvs hread' hclear' hp
    refine ⟨?_, h'.of_eq rfl rfl rfl rfl⟩
    rw [if_neg hret, hspec.status]
    exact hopen

/-- What a client asks for is decided by the requests that it sends, and not by the pieces in which they arrive. The command
that is looked up is the one of the request. -/
theorem decision_of_request (cfg : ReadConfig) (vs : List (List UInt8)) (hvs : Requests vs) (mem₁ mem₂ : Int → UInt8)
    (uszData₁ uszData₂ : Int) (ls₁ ls₂ : List Label)
    (h₁ : Meets (step cfg) (fun s l => s.Streams vs.flatten l ∧ s.Orderly l ∧ s.Keeps l) (init mem₁ uszData₁) ls₁)
    (h₂ : Meets (step cfg) (fun s l => s.Streams vs.flatten l ∧ s.Orderly l ∧ s.Keeps l) (init mem₂ uszData₂) ls₂) :
    ∃ s₁ s₂, run (step cfg) (init mem₁ uszData₁) ls₁ = some s₁ ∧ run (step cfg) (init mem₂ uszData₂) ls₂ = some s₂ ∧
      (∀ t ∈ s₁.taken, t.Located) ∧ (∀ t ∈ s₂.taken, t.Located) ∧
      ∀ (i : Nat) (t₁ t₂ : Taken), s₁.taken[i]? = some t₁ → s₂.taken[i]? = some t₂ →
        vs[i]? = some t₁.bytes ∧ t₂.bytes = t₁.bytes ∧ t₂.decision = t₁.decision ∧ t₂.cmd = t₁.cmd := by
  have hruns : ∀ (mem : Int → UInt8) (uszData : Int) (ls : List Label),
      Meets (step cfg) (fun s l => s.Streams vs.flatten l ∧ s.Orderly l ∧ s.Keeps l) (init mem uszData) ls →
      ∃ s, run (step cfg) (init mem uszData) ls = some s ∧ Exact cfg vs s := by
    intro mem uszData ls hls
    have hstart : Exact cfg vs (init mem uszData) := by
      have hnil : (init mem uszData).content = [] := (inv_init mem uszData).received.symm
      refine ⟨⟨vs, rfl, ?_, fun v _ => ⟨[], ?_, nil_prefix⟩⟩, nofun⟩
      · rw [hnil]
        exact nil_prefix
      · exact RedisMsg.AtStart.inRequest ⟨uszData, ⟨0, 0⟩, rfl⟩ v
    obtain ⟨s, hrun, -, -, h⟩ := run_isSome (I := fun s => Inv s ∧ s.status ≠ .aborted ∧ Exact cfg vs s) (fun s l hI hl => by
      obtain ⟨s', hs, hinv'⟩ := hI.1.step hl.2.1 cfg
      exact ⟨s', hs, hinv', hI.2.2.step hvs hI.1 hI.2.1 hl.1 hl.2.1 hl.2.2 hs⟩) ls _
      ⟨inv_init mem uszData, nofun, hstart⟩ hls
    exact ⟨s, hrun, h⟩
  obtain ⟨s₁, hrun₁, he₁⟩ := hruns mem₁ uszData₁ ls₁ h₁
  obtain ⟨s₂, hrun₂, he₂⟩ := hruns mem₂ uszData₂ ls₂ h₂
  refine ⟨s₁, s₂, hrun₁, hrun₂, fun t ht => (he₁.decided t ht).located, fun t ht => (he₂.decided t ht).located, ?_⟩
  intro i t₁ t₂ ht₁ ht₂
  have hplace : ∀ {s : ClientRead} {t : Taken}, Exact cfg vs s → s.taken[i]? = some t → vs[i]? = some t.bytes := by
    intro s t h ht
    obtain ⟨rest, hsplit, -⟩ := h.next
    have hi : (s.taken.map (·.bytes))[i]? = some t.bytes := by rw [getElem?_map, ht, map_some]
    rw [hsplit, List.getElem?_append_left (List.getElem?_eq_some_iff.mp hi).1, hi]
  have hbytes : t₂.bytes = t₁.bytes := some.inj ((hplace he₂ ht₂).symm.trans (hplace he₁ ht₁))
  have hd₁ := he₁.decided t₁ (mem_of_getElem? ht₁)
  have hd₂ := he₂.decided t₂ (mem_of_getElem? ht₂)
  refine ⟨hplace he₁ ht₁, hbytes, ?_, ?_⟩
  · rw [hd₁.decision, hd₂.decision, hbytes]
  · rw [hd₁.cmd, hd₂.cmd, hbytes]

/-- The request `SELECT 1`. -/
def select : List UInt8 := [42, 50, 13, 10, 36, 54, 13, 10, 83, 69, 76, 69, 67, 84, 13, 10, 36, 49, 13, 10, 49, 13, 10]

theorem select_request : Request Canonical [[83, 69, 76, 69, 67, 84], [49]] select :=
  ⟨[50], [[36, 54, 13, 10, 83, 69, 76, 69, 67, 84, 13, 10], [36, 49, 13, 10, 49, 13, 10]], canonical_digit rfl, rfl,
    .cons ⟨[54], canonical_digit rfl, rfl, rfl⟩ (.cons ⟨[49], canonical_digit rfl, rfl, rfl⟩ .nil), rfl⟩

/-- `SELECT 1` in one piece, and in two pieces with other code in between. -/
theorem decision_of_request_select : Requests [select] ∧ ∃ s₁ s₂,
    run (step ⟨false, 1048576⟩) (init (fun _ => 0) 0) [.enter, .recv (.data select) [4096]] = some s₁ ∧
    run (step ⟨false, 1048576⟩) (init (fun _ => 1) 512) [.enter, .recv (.data (select.take 10)) [], .others fun _ => 2, .enter,
      .recv (.data (select.drop 10)) [4096]] = some s₂ ∧
    (∀ t ∈ s₁.taken, t.Located) ∧ (∀ t ∈ s₂.taken, t.Located) ∧
    ∀ (i : Nat) (t₁ t₂ : Taken), s₁.taken[i]? = some t₁ → s₂.taken[i]? = some t₂ →
      [select][i]? = some t₁.bytes ∧ t₂.bytes = t₁.bytes ∧ t₂.decision = t₁.decision ∧ t₂.cmd = t₁.cmd := by
  have hvs : Requests [select] := fun v hv => by
    rw [mem_singleton.mp hv]
    exact ⟨⟨_, select_request⟩, by decide⟩
  exact ⟨hvs, decision_of_request ⟨false, 1048576⟩ [select] hvs _ _ 0 512 _ _ (by decide +kernel) (by decide +kernel)⟩

/-- The request `GETSET k v..v`, which is longer than the first block. -/
def getset : List UInt8 :=
  [42, 51, 13, 10, 36, 54, 13, 10, 71, 69, 84, 83, 69, 84, 13, 10, 36, 49, 13, 10, 107, 13, 10, 36, 49, 48, 48, 48, 13, 10] ++
    List.replicate 1000 118 ++ [13, 10]

theorem getset_request : Request Canonical [[71, 69, 84, 83, 69, 84], [107], List.replicate 1000 118] getset :=
  ⟨[51], [[36, 54, 13, 10, 71, 69, 84, 83, 69, 84, 13, 10], [36, 49, 13, 10, 107, 13, 10],
      [36, 49, 48, 48, 48, 13, 10] ++ replicate 1000 118 ++ [13, 10]], canonical_digit rfl, rfl,
    .cons ⟨[54], canonical_digit rfl, rfl, rfl⟩ (.cons ⟨[49], canonical_digit rfl, rfl, rfl⟩
      (.cons ⟨[49, 48, 48, 48], ⟨⟨by simp, by decide +kernel⟩, by decide⟩, by decide +kernel, by decide +kernel⟩ .nil)),
    by decide +kernel⟩

/-- The command has been found when the block is full. In one run its old block is overwritten before the rest of the request
arrives, in the other it is not. -/
theorem command_left_behind : Requests [getset] ∧
    (run (step ⟨false, 1048576⟩) (init (fun _ => 0) 0) [.enter, .recv (.data (getset.take 1024)) [], .move 8192, .recv .eagain [],
        .enter, .recv (.data (getset.drop 1024)) []]).map (fun s => s.taken.map (·.decision)) = some [.forward] ∧
    (run (step ⟨false, 1048576⟩) (init (fun _ => 0) 0) [.enter, .recv (.data (getset.take 1024)) [], .move 8192, .recv .eagain [],
        .others (memoryWith select), .enter, .recv (.data (getset.drop 1024)) []]).map (fun s => s.taken.map (·.decision)) =
      some [.unsupported] := by
  refine ⟨fun v hv => ?_, by decide +kernel, by decide +kernel⟩
  rw [mem_singleton.mp hv]
  exact ⟨⟨_, getset_request⟩, by decide +kernel⟩

end ClientRead

end RedisProxy
