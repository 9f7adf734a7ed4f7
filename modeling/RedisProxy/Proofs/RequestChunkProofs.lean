import RedisProxy.Proofs.RequestShiftProofs

/-!
# Requests in chunks

However a stream of requests is cut into chunks, the parser at the end of a request is the one that a single chunk would
give, at another address (`InRequest.parseRsp`, `parsed`). So it has the command and the key of the request.
-/

namespace RedisProxy

open Lib Resp List Option Byte

/-- A memory with the bytes `v` at 0. -/
def memoryWith (v : List UInt8) : Int → UInt8 := fun p => v.getD p.toNat 0

theorem bytesAt_memoryWith (v : List UInt8) : bytesAt (memoryWith v) 0 v.length = v :=
  Layer.bytesAt_of_getD fun i _ => by simp [memoryWith]

namespace Resp

variable {as : List (List UInt8)} {v : List UInt8}

theorem value_of_bulk {a s : List UInt8} (h : Bulk Canonical a s) : Value Canonical s := by
  obtain ⟨ds, h1, h2, rfl⟩ := h
  exact .bulk h1 h2

theorem canonical_digit {d : UInt8} (hd : Byte.isDigit d = true) : Canonical [d] := by
  refine ⟨⟨by simp, by simpa using hd⟩, fun h => ?_⟩
  simp only [head?_cons, some.injEq] at h
  rw [h]

theorem value_of_request (h : Request Canonical as v) : Value Canonical v := by
  obtain ⟨ds, ss, h1, h2, h3, rfl⟩ := h
  refine .array h1 (h2.trans h3.length_eq) fun s hs => ?_
  clear h2
  induction h3 with
  | nil => cases hs
  | cons hb _ ih =>
    rcases mem_cons.mp hs with rfl | hs
    · exact value_of_bulk hb
    · exact ih hs

/-- The parser reads a request as one message. -/
theorem isMessage_of_request (h : Request Canonical as v) (hlt : v.length < 2 ^ 31) : Scan.IsMessage v := by
  obtain ⟨d, hd, -, -⟩ := Scan.reads_value (value_of_request h) hlt
  exact ⟨d, hd.1⟩

end Resp

/-- The lines of a whole request. -/
theorem Layer.Lines.extracted {rd : Int → UInt8} {p : Int} {as : List (List UInt8)} {xs : List (Int × List UInt8)} {m : Layer}
    (h : Lines rd p as xs [] m) (hk : RedisMsg.KeySet as) : RedisMsg.Extracted rd as m := by
  have hxs : xs.map Prod.snd = as := by simpa using h.args
  have hnamed := h.named hk
  refine ⟨fun a ha => ?_, fun a ha => ?_⟩
  · rw [← hxs, head?_map] at ha
    obtain ⟨x, hx, rfl⟩ := map_eq_some_iff.mp ha
    obtain ⟨h1, h2⟩ := hnamed.cmd x hx
    exact ⟨x.1, h1, h2, h.bytes x (mem_of_head? hx)⟩
  · have hget : ∀ i : Nat, as[i]? = xs[i]?.map Prod.snd := by
      intro i
      rw [← hxs, getElem?_map]
    have hne : xs ≠ [] := by
      rintro rfl
      cases hxs
      cases ha
    have hkey := h.keyInLine hne hk
    have hlt : keyArg as - 1 < as.length := (List.getElem?_eq_some_iff.mp ha).1
    have hlen : xs.length = as.length := by rw [← hxs, length_map]
    rw [hget] at ha
    obtain ⟨y, hy, rfl⟩ := map_eq_some_iff.mp ha
    obtain ⟨x, h1, h2, h3⟩ := hnamed.after hne (by rw [hkey, hnamed.line]; omega)
    rw [hkey, Int.toNat_natCast, hy] at h1
    cases h1
    exact ⟨y.1, h2, h3, h.bytes y (mem_of_getElem? hy)⟩

namespace RedisMsg

/-- The parser after the request `v`, as it is if the request stands at 0 and comes in one piece. -/
def parsed (v : List UInt8) : Layer := (feeds (Layer.flatByte (memoryWith v)) v (none, Layer.init 0)).2.1.2

/-- The parser `m` has read the bytes `us` of the request `v` at `p`. -/
structure InRequest (v us : List UInt8) (p : Int) (m : RedisMsg) : Prop where
  ideal : ∃ m0 l, feeds (Layer.flatByte (memoryWith v)) us (none, Layer.init 0) = (none, (none, m0), []) ∧
    Layer.CmdRead 0 m0 ∧ m0.szNowPos = us.length ∧ m.this = m0.shift p m.this.szEnd l
  tracks : ∃ c x, feeds Scan.step us Scan.init = (none, c, []) ∧ Layer.Tracks m.this m.next c x
  cursor : m.this.cursor m.next = p + us.length

section

variable {rd : Int → UInt8} {as : List (List UInt8)} {v us ws more : List UInt8} {p : Int} {m : RedisMsg}
variable {rs : List (List (List UInt8) × List UInt8)} {r : List (List UInt8) × List UInt8}

theorem feeds_parsed (hv : Request Canonical as v) (hlt : v.length < 2 ^ 31) :
    feeds (Layer.flatByte (memoryWith v)) v (none, Layer.init 0) = (some .ok, (none, parsed v), []) := by
  obtain ⟨xs, m', h1, -, -, -⟩ := Layer.feeds_request (m := Layer.init 0) hv hlt
    (Layer.room_none _) ⟨rfl, rfl, rfl⟩ (bytesAt_memoryWith v)
  unfold parsed
  rw [h1]
  rfl

theorem parsed_spec (hv : Request Canonical as v) (hlt : v.length < 2 ^ 31) :
    (parsed v).iLen = v.length ∧ (parsed v).nowState = .msgEnd := by
  obtain ⟨xs, m', h1, -, h3, h4⟩ := Layer.feeds_request (m := Layer.init 0) hv hlt
    (Layer.room_none _) ⟨rfl, rfl, rfl⟩ (bytesAt_memoryWith v)
  have hm : parsed v = m' := by
    unfold parsed
    rw [h1]
  rw [hm]
  exact ⟨h3, h4⟩

/-- Wherever the request stands, the parser has found its command and its key. -/
theorem extracted_parsed (hv : Request Canonical as v) (hlt : v.length < 2 ^ 31) (hmem : bytesAt rd p v.length = v)
    (hk : KeySet as) (e : Int) (l : MsgMeta) : Extracted rd as ((parsed v).shift p e l) := by
  obtain ⟨xs, m', h1, h2, -, -⟩ := Layer.feeds_request (m := Layer.init p) hv hlt
    (Layer.room_none _) ⟨rfl, rfl, rfl⟩ hmem
  have h3 := Layer.feeds_of_flat [] h1 (by simp)
  obtain ⟨d, ⟨-, hgood⟩, -, -⟩ := Scan.reads_value (value_of_request hv) hlt
  have hinit : Layer.init p = (Layer.init 0).shift p p ⟨0, 0⟩ := by simp [Layer.shift, Layer.init, MsgInfo.zero]
  have ht := Layer.tracks_init p
  rw [hinit] at ht h3
  obtain ⟨l', h4, -⟩ := Layer.feeds_shift (p := 0) (n := v.length) (feeds_parsed hv hlt) (by simp)
    (Layer.cmdRead_init 0) ht (hgood.mono fun _ _ h => h.1) (by simp [Layer.init])
    (by rw [bytesAt_memoryWith, zero_add, hmem])
  rw [h4] at h3
  simp only [Prod.mk.injEq, Parse.mk.injEq, true_and, and_true] at h3
  obtain ⟨h5, h6⟩ := h2.extracted hk
  rw [← h3.2] at h5 h6
  exact ⟨h5, h6⟩

theorem feeds_flat_results {m0 m1 : Layer} {pr : Option MsgResults} {o : Option ParseRet} {r : List UInt8}
    (h : feeds (Layer.flatByte rd) us (none, m0) = (o, (pr, m1), r)) : pr = none := by
  induction us generalizing m0 with
  | nil =>
    cases h
    rfl
  | cons ch us ih =>
    rcases hb : Layer.flatByte rd ch (none, m0) with ⟨_ | e, pr1, m2⟩
    · rw [feeds_cons_none hb] at h
      obtain rfl := Layer.flatByte_results hb
      exact ih h
    · rw [feeds_cons_some hb] at h
      cases h
      exact Layer.flatByte_results hb

/-- The bytes that the parser has read are the beginning of the request. -/
theorem InRequest.split (hv : Request Canonical as v) (hlt : v.length < 2 ^ 31) (h : InRequest v us p m)
    (hw : us <+: v ++ more) : ∃ rest, v = us ++ rest ∧ rest ≠ [] := by
  obtain ⟨c, x, hc, -⟩ := h.tracks
  obtain ⟨d, hd, -, -⟩ := Scan.reads_value (value_of_request hv) hlt
  rcases feeds_cut hd.1 hw with ⟨s', -, hl⟩ | ⟨r, -, h2⟩
  · obtain ⟨rest, hrest⟩ := prefix_of_prefix_length_le hw (prefix_append v more) (le_of_lt hl)
    refine ⟨rest, hrest.symm, ?_⟩
    rintro rfl
    rw [← hrest, append_nil] at hl
    exact lt_irrefl _ hl
  · rw [hc] at h2
    cases h2

/-- A call of `ParseRsp` reads what there is of the request. -/
theorem InRequest.parseRsp (hv : Request Canonical as v) (hlt : v.length < 2 ^ 31) (h : InRequest v us p m)
    (hmem : bytesAt rd p us.length = us) (hws : Layer.window rd m.this m.next = ws) (hw : us ++ ws <+: v ++ more)
    (hle : m.this.cursor m.next ≤ m.this.szEnd) (hsz : m.this.szEnd - m.this.cursor m.next < 2 ^ 31) :
    ∃ m', m.parseRsp rd = some (.ok, m') ∧ m'.this.szEnd = m.this.szEnd ∧
      ((us ++ ws).length < v.length ∧ InRequest v (us ++ ws) p m' ∨
        ∃ r l, us ++ ws = v ++ r ∧ m'.this = (parsed v).shift p m.this.szEnd l ∧ m'.this.szStart = p ∧
          m'.this.szNowPos = p + v.length) := by
  obtain ⟨rest, hrest, hne⟩ := h.split hv hlt ((prefix_append us ws).trans hw)
  obtain ⟨⟨m0, l, hm0, hread, hlen, hthis⟩, ⟨c, x, hc, ht⟩, hcur⟩ := h
  obtain ⟨d, ⟨hd, hgood⟩, -, -⟩ := Scan.reads_value (value_of_request hv) hlt
  have hparsed : feeds (Layer.flatByte (memoryWith v)) rest (none, m0) = (some .ok, (none, parsed v), []) :=
    (feeds_append hm0).symm.trans (by rw [← hrest]; exact feeds_parsed hv hlt)
  have hv0 := bytesAt_memoryWith v
  rw [hrest] at hd hgood hw
  rw [feeds_append hc] at hd
  replace hgood := Along.right hgood hc
  rw [append_assoc, prefix_append_right_inj] at hw
  have hgoodw : Along Scan.Good Scan.step ws c := hgood.cut hd hw
  -- what the bytes that are read do to the parser
  have hexact : ∀ us' o m1, feeds (Layer.flatByte (memoryWith v)) us' (none, m0) = (o, (none, m1), []) → o ≠ some .error →
      us' <+: rest → us' <+: ws → ∃ l', feeds (Parse.step rd) us' ⟨none, m.this, m.next⟩ =
        (o, ⟨none, m1.shift p m.this.szEnd l', m.next⟩, []) ∧ (o = none → Layer.CmdRead 0 m1 ∧ m1.szNowPos = m0.szNowPos + us'.length) := by
    intro us' o m1 hf ho hr hw'
    have hs0 : bytesAt (memoryWith v) 0 (us ++ us').length = us ++ us' := by
      obtain ⟨t, rfl⟩ := hr
      rw [hrest, ← append_assoc] at hv0 ⊢
      exact Layer.bytesAt_left hv0
    have hs1 : bytesAt rd p (us ++ us').length = us ++ us' := by
      have h1 : bytesAt rd p (us ++ ws).length = us ++ ws := by
        have hl : ws.length = m.this.left m.next := by rw [← hws, Layer.window, bytesAt_length]
        rw [length_append, bytesAt_add, hmem, ← hcur, hl]
        exact congrArg _ hws
      obtain ⟨t, rfl⟩ := hw'
      rw [← append_assoc] at h1
      exact Layer.bytesAt_left h1
    have hfit : Along Scan.Fit Scan.step us' c := by
      obtain ⟨t, rfl⟩ := hw'
      exact (hgoodw.mono fun _ _ h => h.1).left
    rw [hthis] at ht ⊢
    exact Layer.feeds_shift hf ho hread ht hfit (by rw [hlen]; simp) (hs0.trans (by rw [zero_add, hs1]))
  have hfitw : Along Scan.Fit Scan.step (Layer.window rd m.this m.next) c := by
    rw [hws]
    exact hgoodw.mono fun _ _ h => h.1
  obtain ⟨us', rs, o, d', m', h1, h2, h3, ⟨pr, h4⟩, h5, h6⟩ := parseRsp_steps ht hle hsz hfitw
  rw [hws] at h1
  have hnoskip : Along (fun b c => ¬ Scan.Skips b c) Scan.step us' c := by
    rw [h1] at hgoodw
    exact hgoodw.left.mono fun _ _ h => h.2
  have hend := h5.szEnd
  rcases o with _ | e
  · -- the request goes on
    have hrs : rs = [] := by
      rcases h6 rfl with h6 | h6
      · exact h6
      · exact absurd hnoskip h6
    rw [hrs, append_nil] at h1
    subst h1
    obtain ⟨hwr, hl⟩ : ws <+: rest ∧ ws.length < rest.length := by
      rcases feeds_cut hd hw with ⟨s', -, hl⟩ | ⟨r, -, h7⟩
      · exact ⟨prefix_of_prefix_length_le hw (prefix_append rest more) (le_of_lt hl), hl⟩
      · rw [h2] at h7
        cases h7
    obtain ⟨⟨pr1, m1⟩, hm1, -⟩ | ⟨r, h7, -⟩ := feeds_cut hparsed (hwr.trans (prefix_append rest []))
    · obtain rfl := feeds_flat_results hm1
      obtain ⟨l', h8, h9⟩ := hexact ws none m1 hm1 (by simp) hwr (prefix_refl _)
      obtain ⟨h10, h11⟩ := h9 rfl
      obtain ⟨ht', hcur'⟩ := h5.again rfl
      rw [h8] at h4
      simp only [Prod.mk.injEq, Parse.mk.injEq, true_and, and_true] at h4
      refine ⟨m', h3, hend, .inl ⟨?_, ⟨m1, l', ?_, h10, ?_, ?_⟩, ⟨d', _, ?_, ht'⟩, ?_⟩⟩
      · rw [hrest, length_append, length_append]
        omega
      · rw [feeds_append hm0, hm1]
      · rw [h11, hlen, length_append]
        rfl
      · rw [hend, ← h4.2.1]
      · rw [feeds_append hc, h2]
      · rw [hcur', hcur, length_append]
        omega
    · have := congrArg List.length h7
      rw [length_append] at this
      omega
  · -- it ends
    have hstop : feeds Scan.step (us' ++ rs) c = (some e, d', rs) := feeds_stop h2
    rw [← h1] at hstop
    rcases feeds_cut hd hw with ⟨s', h7, -⟩ | ⟨r, h7, h8⟩
    · rw [hstop] at h7
      cases h7
    · rw [hstop] at h8
      cases h8
      obtain rfl : us' = rest := append_cancel_right (h1.symm.trans h7)
      obtain ⟨l', h9, -⟩ := hexact us' (some .ok) (parsed v) hparsed (by simp) (prefix_refl _) ⟨rs, h7.symm⟩
      rw [h9] at h4
      simp only [Prod.mk.injEq, Parse.mk.injEq, true_and, and_true] at h4
      obtain ⟨hended, hpos⟩ := h5.ended rfl
      have hpos' : m'.this.szNowPos = p + v.length := by
        rw [hpos, hcur, hrest, length_append]
        push_cast
        omega
      have hloc := hended.located
      have hlen' : m'.this.iLen = v.length := by
        rw [← h4.2.1]
        exact (parsed_spec hv hlt).1
      exact ⟨m', h3, hend, .inr ⟨rs, l', by rw [h7, hrest, append_assoc], h4.2.1.symm, by omega, hpos'⟩⟩

/-- A parser before a request at `p`. -/
def AtStart (p : Int) (m : RedisMsg) : Prop := ∃ e l, m.this = { Layer.init p with szEnd := e, line := l }

theorem AtStart.inRequest (h : AtStart p m) (v : List UInt8) : InRequest v [] p m := by
  obtain ⟨e, l, h⟩ := h
  refine ⟨⟨Layer.init 0, l, rfl, Layer.cmdRead_init 0, rfl, ?_⟩, ⟨Scan.init, 0, rfl, ?_⟩, ?_⟩
  · rw [h]
    simp [Layer.shift, Layer.init, MsgInfo.zero]
  · rw [h]
    exact Layer.tracks_start rfl rfl rfl (le_refl _) (by simp [Layer.init, MsgInfo.zero]) (le_refl _) rfl rfl
      Scan.init_fine rfl
  · unfold Layer.cursor
    rw [Layer.active_of_ne (by rw [h]; rintro ⟨⟩), h]
    simp [Layer.init]

theorem atStart_startNext (h : m.this.szStart + m.this.iLen = p) : AtStart p m.startNext := by
  subst h
  exact ⟨m.this.szEnd, m.this.line, rfl⟩

theorem InRequest.szNowPos (h : InRequest v us p m) : m.this.szNowPos = p + us.length := by
  obtain ⟨m0, l, -, -, h3, h4⟩ := h.ideal
  rw [h4]
  simp only [Layer.shift, h3]
  omega

theorem InRequest.expand (h : InRequest v us p m) (len : Nat) : InRequest v us p (m.expand len) := by
  obtain ⟨⟨m0, l, h1, h2, h3, h4⟩, ⟨c, x, h5, h6⟩, h7⟩ := h
  refine ⟨⟨m0, l, h1, h2, h3, ?_⟩, ⟨c, x, h5, h6.grow len⟩, ?_⟩
  · simp only [RedisMsg.expand]
    rw [h4]
    rfl
  · rw [← h7]
    exact Layer.cursor_grow _ _ _

/-! ### Chunks -/

/-- The bytes hold `k` of the messages and a part of the next one. -/
theorem endsBy_length {vs : List (List UInt8)} (q : Int) {n k j : Nat} (hn : n = (vs.take k).flatten.length + j)
    (hk : k ≤ vs.length) (hj : ∀ v, vs[k]? = some v → j < v.length) : (endsBy q n vs).length = k := by
  induction k generalizing vs n q with
  | zero =>
    rw [endsBy_of_lt fun v hv => by simpa [hn] using hj v (by simpa [head?_eq_getElem?] using hv)]
    rfl
  | succ k ih =>
    cases vs with
    | nil => simp at hk
    | cons w vs =>
      simp only [take_succ_cons, flatten_cons, length_append] at hn
      unfold endsBy
      rw [if_pos (by omega), length_cons, ih (q + w.length) (by omega) (by simpa using hk)
        fun v hv => hj v (by simpa using hv)]

/-- The parser at the call has found what the request says. -/
def Finds (rd : Int → UInt8) (call : Call) (r : List (List UInt8) × List UInt8) : Prop :=
  ∃ p e l, bytesAt rd p r.2.length = r.2 ∧ call.msg.this = (parsed r.2).shift p e l

/-- The calls of `ParseRsp` for requests of which the bytes `us ++ ws` have arrived. -/
theorem parseAll_requests (n : Nat) (hrs : ∀ x ∈ r :: rs, Request Canonical x.1 x.2 ∧ x.2.length < 2 ^ 31)
    (h : InRequest r.2 us p m)
    (hmem : bytesAt rd p (us ++ ws).length = us ++ ws) (hws : Layer.window rd m.this m.next = ws)
    (hw : us ++ ws <+: ((r :: rs).map Prod.snd).flatten)
    (hlt : (us ++ ws).length < ((r :: rs).map Prod.snd).flatten.length)
    (hle : m.this.cursor m.next ≤ m.this.szEnd) (hsz : m.this.szEnd - m.this.cursor m.next < 2 ^ 31)
    (hn : ws.length + 1 ≤ n) :
    ∃ calls m' k r' us' p', parseAll rd n m = some (calls ++ [⟨.ok, m'⟩]) ∧ (∀ call ∈ calls, call.iRet = .ok) ∧
      List.Forall₂ (Finds rd) (calls.filter Call.isEnd) ((r :: rs).take k) ∧ m'.this.nowState ≠ .msgEnd ∧
      ((r :: rs)[k]? = some r') ∧ InRequest r'.2 us' p' m' ∧ us'.length < r'.2.length ∧
      us ++ ws = (((r :: rs).take k).map Prod.snd).flatten ++ us' ∧
      p' = p + (((r :: rs).take k).map Prod.snd).flatten.length ∧ m'.this.szEnd = m.this.szEnd := by
  induction n generalizing r rs us ws p m with
  | zero => omega
  | succ n ih =>
    obtain ⟨hreq, hrlt⟩ := hrs r (by simp)
    have hwsl : ws.length = (m.this.szEnd - m.this.cursor m.next).toNat := by rw [← hws, Layer.window, bytesAt_length]; rfl
    rw [map_cons, flatten_cons] at hw hlt
    obtain ⟨m', h1, h2, h3⟩ := h.parseRsp hreq hrlt (Layer.bytesAt_left hmem) hws hw hle hsz
    unfold parseAll
    rw [h1]
    dsimp only
    rcases h3 with ⟨hl, hin⟩ | ⟨rr, l, heq, hthis, hst, hpos⟩
    · -- the request goes on
      obtain ⟨c, x, -, ht⟩ := hin.tracks
      have hne := ht.ready.sane.notEnd
      refine ⟨[], m', 0, r, us ++ ws, p, ?_, by simp, .nil, hne, rfl, hin, hl, by simp, by simp, h2⟩
      rw [if_neg hne]
      rfl
    · -- it ends, and another one follows
      have hcur := h.cursor
      obtain ⟨rest, hrest, hne⟩ := h.split hreq hrlt ((prefix_append us ws).trans hw)
      have hlen := congrArg List.length heq
      have hrestl := congrArg List.length hrest
      have hpos0 := length_pos_of_ne_nil hne
      simp only [length_append] at hlen hrestl hlt
      obtain ⟨r2, rs, rfl⟩ : ∃ r2 rs', rs = r2 :: rs' := by
        cases rs with
        | nil => simp at hlt; omega
        | cons r2 rs' => exact ⟨r2, rs', rfl⟩
      obtain ⟨hplen, hpstate⟩ := parsed_spec hreq hrlt
      have hiLen : m'.this.iLen = r.2.length := by rw [hthis]; exact hplen
      have hstate : m'.this.nowState = .msgEnd := by rw [hthis]; exact hpstate
      have hstart : AtStart (p + r.2.length) m'.startNext := atStart_startNext (by rw [hst, hiLen])
      have hin := hstart.inRequest r2.2
      have hcur' := hin.cursor
      have hend' : m'.startNext.this.szEnd = m.this.szEnd := h2
      have hrr : bytesAt rd (p + r.2.length) rr.length = rr := by
        rw [heq] at hmem
        exact Layer.bytesAt_right hmem
      rw [heq, prefix_append_right_inj] at hw
      simp only [length_nil, Nat.cast_zero, add_zero] at hcur'
      obtain ⟨calls, m2, k, r', us', p', g1, g2, g3, g4, g5, g6, g7, g8, g9, g10⟩ := ih
        (fun x hx => hrs x (by simp [mem_cons.mp hx])) hin hrr (by
          unfold Layer.window Layer.left
          rw [hcur', hend']
          have : (m.this.szEnd - (p + r.2.length)).toNat = rr.length := by omega
          rw [this, hrr])
        hw (by rw [nil_append]; omega) (by rw [hcur', hend']; omega) (by rw [hcur', hend']; omega) (by omega)
      refine ⟨⟨.ok, m'⟩ :: calls, m2, k + 1, r', us', p', ?_, ?_, ?_, g4, ?_, g6, g7, ?_, ?_, g10.trans hend'⟩
      · rw [if_pos hstate, g1]
        rfl
      · intro call hm
        rcases mem_cons.mp hm with rfl | hm
        · rfl
        · exact g2 call hm
      · rw [filter_cons_of_pos (by exact beq_iff_eq.mpr hstate), take_succ_cons]
        refine .cons ⟨p, m.this.szEnd, l, ?_, hthis⟩ g3
        rw [heq] at hmem
        exact Layer.bytesAt_left hmem
      · simpa using g5
      · rw [nil_append] at g8
        rw [heq, take_succ_cons, map_cons, flatten_cons, append_assoc, ← g8]
      · rw [g9, take_succ_cons, map_cons, flatten_cons, length_append]
        omega

/-- The calls of `ParseRsp` for requests that arrive in chunks. -/
theorem feedAll_requests (lens : List Nat) (hrs : ∀ x ∈ r :: rs, Request Canonical x.1 x.2 ∧ x.2.length < 2 ^ 31)
    (hlens : ∀ len ∈ lens, len < 2 ^ 31) (h : InRequest r.2 us p m) (hend : m.this.szEnd = p + us.length)
    (hw : bytesAt rd p (us.length + lens.sum) <+: ((r :: rs).map Prod.snd).flatten) (hus : bytesAt rd p us.length = us)
    (hlt : us.length + lens.sum < ((r :: rs).map Prod.snd).flatten.length) :
    ∃ (calls : List Call) (k : Nat) (r' : List (List UInt8) × List UInt8) (j : Nat), feedAll rd m lens = some calls ∧ (∀ call ∈ calls, call.iRet = .ok) ∧
      List.Forall₂ (Finds rd) (calls.filter Call.isEnd) ((r :: rs).take k) ∧ (r :: rs)[k]? = some r' ∧
      j < r'.2.length ∧ us.length + lens.sum = (((r :: rs).take k).map Prod.snd).flatten.length + j := by
  induction lens generalizing r rs us p m with
  | nil =>
    obtain ⟨hreq, hrlt⟩ := hrs r (by simp)
    rw [sum_nil, Nat.add_zero, hus, map_cons, flatten_cons] at hw
    obtain ⟨rest, hrest, hne⟩ := h.split hreq hrlt hw
    refine ⟨[], 0, r, us.length, rfl, by simp, .nil, rfl, ?_, by simp⟩
    rw [hrest, length_append]
    have := length_pos_of_ne_nil hne
    omega
  | cons len lens ih =>
    simp only [mem_cons, forall_eq_or_imp] at hlens
    have hin := h.expand len
    have hcur : (m.expand len).this.cursor (m.expand len).next = p + us.length := hin.cursor
    have hend' : (m.expand len).this.szEnd = p + us.length + len := by rw [← hend]; rfl
    have hsplit : bytesAt rd p (us.length + len) = us ++ bytesAt rd (p + us.length) len := by rw [bytesAt_add, hus]
    have hws : Layer.window rd (m.expand len).this (m.expand len).next = bytesAt rd (p + us.length) len := by
      unfold Layer.window Layer.left
      rw [hcur, hend', add_sub_cancel_left, Int.toNat_natCast]
    have hpre : us ++ bytesAt rd (p + us.length) len <+: ((r :: rs).map Prod.snd).flatten := by
      rw [sum_cons, ← Nat.add_assoc, bytesAt_add, hsplit] at hw
      exact (prefix_append _ _).trans hw
    have hmem : bytesAt rd p (us ++ bytesAt rd (p + us.length) len).length = us ++ bytesAt rd (p + us.length) len := by
      rw [length_append, bytesAt_length, hsplit]
    obtain ⟨calls, m', k, r', us', p', g1, g2, g3, g4, g5, g6, g7, g8, g9, g10⟩ :=
      parseAll_requests (m.expand len).calls hrs hin hmem hws hpre (by
        rw [length_append, bytesAt_length]
        rw [sum_cons] at hlt
        omega) (by rw [hcur, hend']; omega) (by rw [hcur, hend']; omega) (by
        rw [bytesAt_length]
        unfold RedisMsg.calls
        rw [hin.szNowPos, hend']
        omega)
    unfold feedAll
    rw [g1]
    dsimp only
    rw [getLast?_concat]
    dsimp only
    obtain ⟨hklt, hkget⟩ := List.getElem?_eq_some_iff.mp g5
    have hdrop : (r :: rs).drop k = r' :: (r :: rs).drop (k + 1) := by rw [drop_eq_getElem_cons hklt, hkget]
    have hflat : ((r :: rs).map Prod.snd).flatten = (((r :: rs).take k).map Prod.snd).flatten ++
        ((r' :: (r :: rs).drop (k + 1)).map Prod.snd).flatten := by
      rw [← hdrop, ← flatten_append, ← map_append, take_append_drop]
    have hg8 := congrArg List.length g8
    simp only [length_append, bytesAt_length] at hg8
    rw [g8] at hmem
    have hus' : bytesAt rd p' us'.length = us' := by
      rw [g9]
      exact Layer.bytesAt_right hmem
    rw [sum_cons] at hw hlt
    rw [hflat, length_append] at hlt
    obtain ⟨calls', k', r2, j, f1, f2, f3, f4, f5, f6⟩ := ih (fun x hx => hrs x (by rw [← hdrop] at hx; exact mem_of_mem_drop hx)) hlens.2 g6
      (by rw [g10, hend', g9]; omega) (by
        rw [hflat, ← Nat.add_assoc, hg8, Nat.add_assoc, bytesAt_add, ← g9] at hw
        have h1 : bytesAt rd p (((r :: rs).take k).map Prod.snd).flatten.length = (((r :: rs).take k).map Prod.snd).flatten :=
          Layer.bytesAt_left hmem
        rw [h1, prefix_append_right_inj] at hw
        exact hw) hus' (by omega)
    refine ⟨calls ++ [⟨.ok, m'⟩] ++ calls', k + k', r2, j, by rw [f1]; rfl, ?_, ?_, ?_, f5, ?_⟩
    · intro call hm
      simp only [mem_append, mem_singleton] at hm
      rcases hm with (hm | rfl) | hm
      · exact g2 call hm
      · rfl
      · exact f2 call hm
    · have hlast : Call.isEnd ⟨.ok, m'⟩ = false := beq_eq_false_iff_ne.mpr g4
      rw [filter_append, filter_append, filter_cons_of_neg (by rw [hlast]; simp), filter_nil,
        append_nil, take_add, hdrop]
      exact rel_append g3 f3
    · rw [← hdrop, getElem?_drop] at f4
      exact f4
    · rw [sum_cons, take_add, hdrop, map_append, flatten_append, length_append]
      omega

end

end RedisMsg

end RedisProxy
