import RedisProxy.Proofs.TracksProofs

/-!
# A stream of messages in chunks

However a stream is cut into chunks, the calls of `ParseRsp` read it in order: each one goes on where the
one before has stopped, and `StartNext` starts the reader anew (`Trace`). If no byte is skipped, nothing
of what has been delivered is left unread (`feedAll_trace`).
-/

namespace RedisProxy

open Lib List Option

theorem Scan.init_fine : Scan.init.Fine := ⟨nofun, by simp [Scan.init], nofun, fun _ => rfl⟩

namespace Layer

section

variable {m : Layer} {next : List Layer} {c : Scan} {x : Nat}

/-- The function moves the pointers of a parser and leaves the rest: `szStart` and `szNowPos` by `δ` and `szEnd` by `ε`. -/
structure Moves (δ ε : Int) (f : Layer → Layer) : Prop where
  szStart : ∀ l, (f l).szStart = l.szStart + δ
  szNowPos : ∀ l, (f l).szNowPos = l.szNowPos + δ
  szEnd : ∀ l, (f l).szEnd = l.szEnd + ε
  nowState : ∀ l, (f l).nowState = l.nowState
  bReadingLine : ∀ l, (f l).bReadingLine = l.bReadingLine
  iNeedArgNum : ∀ l, (f l).iNeedArgNum = l.iNeedArgNum
  iArgLen : ∀ l, (f l).iArgLen = l.iArgLen
  iLen : ∀ l, (f l).iLen = l.iLen
  iMaxLen : ∀ l, (f l).iMaxLen = l.iMaxLen

section Moves

variable {δ ε : Int} {f : Layer → Layer} (hf : Moves δ ε f)

include hf

theorem Moves.active (m : Layer) (next : List Layer) : (f m).active (next.map f) = f (m.active next) := by
  induction next generalizing m with
  | nil => rfl
  | cons l next ih =>
    simp only [map_cons, Layer.active, hf.nowState]
    split_ifs
    · exact ih l
    · rfl

theorem Moves.size (m : Layer) (next : List Layer) : (f m).size (next.map f) = m.size next := by
  induction next generalizing m with
  | nil => exact hf.iLen m
  | cons l next ih => simp only [map_cons, Layer.size, hf.nowState, hf.iLen, ih l]

theorem Moves.needs (m : Layer) (next : List Layer) : (f m).needs (next.map f) = m.needs next := by
  induction next generalizing m with
  | nil => rfl
  | cons l next ih => simp only [map_cons, Layer.needs, hf.nowState, hf.iNeedArgNum, ih l]

theorem Moves.cursor (m : Layer) (next : List Layer) : (f m).cursor (next.map f) = m.cursor next + δ := by
  unfold Layer.cursor
  rw [hf.active, hf.szNowPos]

theorem Moves.sane (h : m.Sane) : (f m).Sane where
  reading := by rw [hf.bReadingLine, hf.nowState]; exact h.reading
  notEnd := by rw [hf.nowState]; exact h.notEnd
  argLen := by rw [hf.iArgLen]; exact h.argLen
  argMax := by rw [hf.iArgLen]; exact h.argMax
  len := by rw [hf.iLen]; exact h.len

theorem Moves.ready (h : m.Ready next) : (f m).Ready (next.map f) := by
  induction next generalizing m with
  | nil => exact ⟨hf.sane h.1, by rw [hf.nowState]; exact h.2⟩
  | cons l next ih =>
    refine ⟨hf.sane h.1, fun hn => ?_⟩
    rw [hf.nowState] at hn
    obtain ⟨hnest, hr⟩ := h.2 hn
    refine ⟨⟨?_, ?_, ?_, ?_⟩, ih hr⟩
    · rw [hf.szStart, hf.szNowPos, hnest.start]
    · rw [hf.szEnd, hf.szEnd, hnest.szEnd]
    · rw [hf.active, hf.szNowPos, hf.szStart, hf.size, hnest.nowPos, add_right_comm]
    · rw [hf.nowState]
      exact hnest.begun

/-- The parser is still where it was in the message. -/
theorem Moves.tracks (h : Tracks m next c x) : Tracks (f m) (next.map f) c x := by
  obtain ⟨fine, state, need, arg, outer, len⟩ := h.follows
  refine ⟨hf.ready h.ready, ⟨fine, ?_, ?_, ?_, ?_, ?_⟩, ?_, ?_, ?_⟩
  · rw [hf.active, hf.nowState]; exact state
  · rw [hf.active, hf.iNeedArgNum]; exact need
  · rw [hf.active, hf.iArgLen]; exact arg
  · rw [hf.needs]; exact outer
  · rw [hf.size]; exact len
  · intro hc
    rw [hf.szStart, hf.size, hf.cursor, ← h.located hc, add_right_comm]
  · intro hc
    rw [hf.szStart, hf.szNowPos]
    exact Int.add_le_add_right (h.atStart hc) δ
  · rw [hf.iMaxLen]
    exact h.maxLen

end Moves

/-- `Expand` for one parser. -/
def grow (k : Int) (l : Layer) : Layer := { l with szEnd := l.szEnd + k }

theorem moves_grow (k : Int) : Moves 0 k (grow k) :=
  ⟨fun l => (add_zero l.szStart).symm, fun l => (add_zero l.szNowPos).symm, fun _ => rfl, fun _ => rfl, fun _ => rfl,
    fun _ => rfl, fun _ => rfl, fun _ => rfl, fun _ => rfl⟩

theorem cursor_grow (k : Int) (m : Layer) (next : List Layer) :
    (m.grow k).cursor (next.map (grow k)) = m.cursor next := by
  rw [(moves_grow k).cursor, add_zero]

/-- `Expand` leaves the parser where it is. -/
theorem Tracks.grow (k : Int) (h : Tracks m next c x) : Tracks (m.grow k) (next.map (Layer.grow k)) c x :=
  (moves_grow k).tracks h

theorem Ready.active_sane (h : m.Ready next) : (m.active next).Sane := by
  induction next generalizing m with
  | nil => exact h.1
  | cons l next ih =>
    unfold active
    split_ifs with hn
    · exact ih (h.2 hn).2
    · exact h.1

theorem Tracks.ne_msgEnd (h : Tracks m next c x) : c.state ≠ .msgEnd := by
  rw [← h.follows.state]
  exact h.ready.active_sane.notEnd

/-- `StartNext` after a message. -/
theorem tracks_startNext (m : Layer) (next : List Layer) : Tracks m.startNext next Scan.init 0 :=
  tracks_start rfl rfl rfl (le_refl _) (by simp [Layer.startNext, MsgInfo.zero]) (le_refl _) rfl rfl Scan.init_fine rfl

theorem tracks_init (p : Int) : Tracks (Layer.init p) [] Scan.init 0 :=
  tracks_start rfl rfl rfl (le_refl _) (by simp [Layer.init, MsgInfo.zero]) (le_refl _) rfl rfl Scan.init_fine rfl

end

end Layer

namespace Scan

section

variable {ch : UInt8} {us bs : List UInt8} {c d : Scan} {o : Option ParseRet} {P : UInt8 → Scan → Prop}

theorem endLine_ne {n : Nat} {outer : List Nat} (h : (c.endLine n outer).1 = none) :
    (c.endLine n outer).2.state ≠ .msgEnd := by
  unfold endLine at h ⊢
  split
  · rename_i hc
    rw [hc] at h
    cases h
  · simp

/-- A message that goes on is not at its end. -/
theorem step_ne (h : step ch c = (none, d)) (hc : c.state ≠ .msgEnd) : d.state ≠ .msgEnd := by
  generalize ho : (none : Option ParseRet) = o at h
  cases step_takes h with
  | noBody =>
    unfold endArray at ho ⊢
    split
    · rename_i hc
      replace hc : c.outer = [] := hc
      simp [hc] at ho
    · rename_i n outer hc
      replace hc : c.outer = n :: outer := hc
      simp only [hc] at ho ⊢
      exact endLine_ne ho.symm
  | lineEnd => exact endLine_ne ho.symm
  | count | strChar | arg | skip | bulkChar => exact hc
  | null | fail => cases ho
  | _ => simp

theorem endLine_ok {n : Nat} {outer : List Nat} (h : (c.endLine n outer).1 = some .ok) :
    (c.endLine n outer).2.state = .msgEnd := by
  unfold endLine at h ⊢
  split
  · rfl
  · rename_i hc
    rw [hc] at h
    cases h

theorem step_ok (h : step ch c = (some .ok, d)) : d.state = .msgEnd := by
  generalize ho : (some ParseRet.ok) = o at h
  cases step_takes h with
  | noBody =>
    unfold endArray at ho ⊢
    split
    · rfl
    · rename_i hc
      replace hc : c.outer = _ := hc
      simp only [hc] at ho ⊢
      exact endLine_ok ho.symm
  | lineEnd => exact endLine_ok ho.symm
  | _ => cases ho

theorem feeds_ok (h : feeds step us c = (some .ok, d, [])) : d.state = .msgEnd := by
  induction us generalizing c with
  | nil => cases h
  | cons ch us ih =>
    rcases hs : step ch c with ⟨_ | e, c1⟩
    · rw [feeds_cons_none hs] at h
      exact ih h
    · rw [feeds_cons_some hs] at h
      cases h
      exact step_ok hs

theorem restart_of_ne (h : c.state ≠ .msgEnd) : c.restart = c := if_neg h

theorem restart_restart (c : Scan) : c.restart.restart = c.restart := by
  unfold restart
  split_ifs with h h1
  · rfl
  · rfl
  · rfl

theorem stream_restart (ch : UInt8) (c : Scan) : stream ch c.restart = stream ch c := by
  unfold stream
  rw [restart_restart]

theorem stream_of_step (hc : c.state ≠ .msgEnd) (h : step ch c = (o, d)) (ho : o ≠ some .error) :
    stream ch c = (none, d) := by
  unfold stream
  rw [restart_of_ne hc, h]
  rcases o with _ | _ | _ | _
  · rfl
  · rfl
  · exact absurd rfl ho
  · rfl

/-- A message in a stream. -/
theorem feeds_stream (hc : c.state ≠ .msgEnd) (h : feeds step us c = (o, d, [])) (ho : o ≠ some .error) :
    feeds stream us c = (none, d, []) := by
  induction us generalizing c with
  | nil => cases h; rfl
  | cons ch us ih =>
    rcases hs : step ch c with ⟨_ | e, c1⟩
    · rw [feeds_cons_none hs] at h
      rw [feeds_cons_none (stream_of_step hc hs nofun)]
      exact ih (step_ne hs hc) h
    · rw [feeds_cons_some hs] at h
      cases h
      rw [feeds_cons_none (stream_of_step hc hs ho)]
      rfl

theorem Throughout.along (hc : c.state ≠ .msgEnd) (h : Throughout P bs c) : Along P step bs c := by
  induction bs generalizing c with
  | nil => exact trivial
  | cons ch bs ih =>
    have h1 : P ch c.restart := h.1
    rw [restart_of_ne hc] at h1
    refine ⟨h1, ?_⟩
    rcases hs : step ch c with ⟨_ | e, c1⟩
    · exact ih (step_ne hs hc) (Along.cons_none h (stream_of_step hc hs nofun))
    · exact trivial

theorem Throughout.restart (h : Throughout P bs c) : Throughout P bs c.restart := by
  cases bs with
  | nil => exact trivial
  | cons ch bs =>
    refine ⟨?_, ?_⟩
    · show P ch c.restart.restart
      rw [restart_restart]
      exact h.1
    · rw [stream_restart]
      exact h.2

theorem Throughout.after {rs : List UInt8} (h : Throughout P (us ++ rs) c) (hc : c.state ≠ .msgEnd)
    (hf : feeds step us c = (o, d, [])) (ho : o ≠ some .error) : Throughout P rs d.restart :=
  Throughout.restart (Along.right h (feeds_stream hc hf ho))

theorem Throughout.left {rs : List UInt8} (h : Throughout P (us ++ rs) c) : Throughout P us c := Along.left h

end

end Scan

namespace RedisMsg

/-- What a call of `ParseRsp` leaves, up to the place `q`. Before it, `szNowPos` was `prev`. -/
structure CallSpec (prev q : Int) (o : Option ParseRet) (x : Nat) (d : Scan) (call : Call) : Prop where
  ret : call.iRet = o.getD .ok
  again : o = none ∨ o = some .startNull →
    Layer.Tracks call.msg.this call.msg.next d x ∧ call.msg.this.cursor call.msg.next = q
  ended : o = some .ok → Layer.Ended call.msg.this d x ∧ call.msg.this.szNowPos = q
  error : o = some .error → 0 ≤ call.msg.this.iMaxLen ∧ call.msg.this.iMaxLen ≤ x ∧ 0 ≤ call.msg.this.iArgLen ∧
    call.msg.this.iArgLen < 2 ^ 31
  le : call.msg.this.szNowPos ≤ call.msg.this.szEnd
  start_le : call.msg.this.szStart ≤ call.msg.this.szNowPos
  mono : prev ≤ call.msg.this.szNowPos

/-- Where the parser is between two calls: its `szNowPos`, the place up to which it has read, the state of the
reader and the largest length. -/
structure Mark where
  prev : Int
  q : Int
  c : Scan
  x : Nat

/-- After a call that has read the bytes `us`. -/
def Mark.next (a : Mark) (us : List UInt8) (d : Scan) (call : Call) : Mark where
  prev := call.msg.this.szNowPos
  q := a.q + us.length
  c := d.restart
  x := if d.state = .msgEnd then 0 else Scan.maxLen us a.c a.x

/-- The calls of `ParseRsp` from `a` on for the bytes `bs`. They lead to `a'` and leave the bytes `rest`. -/
inductive Trace : Mark → List UInt8 → List Call → Mark → List UInt8 → Prop
  | nil {a : Mark} {bs : List UInt8} : Trace a bs [] a bs
  | fail {a : Mark} {d : Scan} {us rs : List UInt8} {call : Call}
      (hf : feeds Scan.step us a.c = (some .error, d, []))
      (hc : CallSpec a.prev (a.q + us.length) (some .error) (Scan.maxLen us a.c a.x) d call) :
      Trace a (us ++ rs) [call] (a.next us d call) rs
  | cons {a a' : Mark} {d : Scan} {us rs rest : List UInt8} {o : Option ParseRet} {call : Call} {calls : List Call}
      (hf : feeds Scan.step us a.c = (o, d, [])) (ho : o ≠ some .error)
      (hc : CallSpec a.prev (a.q + us.length) o (Scan.maxLen us a.c a.x) d call)
      (ht : Trace (a.next us d call) rs calls a' rest) : Trace a (us ++ rs) (call :: calls) a' rest

/-- The parser is at the mark. -/
structure AtMark (m : RedisMsg) (a : Mark) : Prop where
  tracks : Layer.Tracks m.this m.next a.c a.x
  goes : a.c.state ≠ .msgEnd
  prev : m.this.szNowPos = a.prev
  cursor : m.this.cursor m.next = a.q
  le : a.q ≤ m.this.szEnd

section

variable {rd : Int → UInt8} {m : RedisMsg} {a a' : Mark} {us rs bs : List UInt8} {d : Scan} {o : Option ParseRet}

/-- A call of `ParseRsp` from a mark. -/
theorem AtMark.parseRsp (h : AtMark m a) (hlt : m.this.szEnd - a.q < 2 ^ 31)
    (hr : Scan.Throughout Scan.Fit (Layer.window rd m.this m.next) a.c) :
    ∃ us rs o d m', Layer.window rd m.this m.next = us ++ rs ∧ feeds Scan.step us a.c = (o, d, []) ∧
      m.parseRsp rd = some (o.getD .ok, m') ∧ m'.this.szEnd = m.this.szEnd ∧
      CallSpec a.prev (a.q + us.length) o (Scan.maxLen us a.c a.x) d ⟨o.getD .ok, m'⟩ ∧
      (o = none → rs = [] ∨ ¬ Scan.Throughout (fun b c => ¬ Scan.Skips b c) us a.c) := by
  obtain ⟨htr, hgo, hprev, hcur, hle⟩ := h
  obtain ⟨us, rs, o, d, m', h1, h2, h3, -, h4, h5⟩ := parseRsp_steps htr (by rw [hcur]; exact hle)
    (by rw [hcur]; exact hlt) (hr.along hgo)
  have hlen : a.q + us.length ≤ m.this.szEnd := by
    have : us.length + rs.length = m.this.left m.next := by
      rw [← length_append, ← h1, Layer.window, bytesAt_length]
    unfold Layer.left at this
    omega
  have hend := h4.szEnd
  have hmono := h4.mono
  rw [hprev] at hmono
  rw [← hcur] at hlen ⊢
  refine ⟨us, rs, o, d, m', h1, h2, h3, hend, ?_, fun ho => ?_⟩
  · rcases o with _ | _ | _ | _
    · obtain ⟨ht, hq⟩ := h4.again rfl
      exact ⟨rfl, fun _ => ⟨ht, hq⟩, (by simp), (by simp), by have := ht.ready.szNowPos_le; dsimp only; omega, ht.szStart_le, hmono⟩
    · obtain ⟨ht, hq⟩ := h4.ended rfl
      have h6 := ht.located
      have h7 := ht.len
      exact ⟨rfl, (by simp), fun _ => ⟨ht, hq⟩, (by simp), by dsimp only; omega, by dsimp only; omega, hmono⟩
    · obtain ⟨h6, h7, h8⟩ := h4.error rfl
      exact ⟨rfl, (by simp), (by simp), fun _ => h8, by dsimp only; omega, h7, hmono⟩
    · obtain ⟨ht, hq⟩ := h4.null rfl
      exact ⟨rfl, fun _ => ⟨ht, hq⟩, (by simp), (by simp), by have := ht.ready.szNowPos_le; dsimp only; omega, ht.szStart_le, hmono⟩
  · rcases h5 ho with h5 | h5
    · exact .inl h5
    · exact .inr fun hs => h5 (hs.along hgo)

theorem AtMark.of_tracks {call : Call} (ht : Layer.Tracks call.msg.this call.msg.next d (Scan.maxLen us a.c a.x))
    (hq : call.msg.this.cursor call.msg.next = a.q + us.length) (hle : a.q + us.length ≤ call.msg.this.szEnd) :
    call.isEnd = false ∧ AtMark call.msg (a.next us d call) := by
  have hd := ht.ne_msgEnd
  refine ⟨beq_eq_false_iff_ne.mpr ht.ready.sane.notEnd, ?_, ?_, rfl, hq, hle⟩
  · simp only [Mark.next, Scan.restart_of_ne hd, if_neg hd]
    exact ht
  · simp only [Mark.next, Scan.restart_of_ne hd]
    exact hd

theorem AtMark.of_ended {call : Call} (ht : Layer.Ended call.msg.this d (Scan.maxLen us a.c a.x))
    (hq : call.msg.this.szNowPos = a.q + us.length) (hle : a.q + us.length ≤ call.msg.this.szEnd) :
    call.isEnd = true ∧ AtMark call.msg.startNext (a.next us d call) := by
  have hloc := ht.located
  have hc : d.restart = Scan.init := if_pos ht.scan
  have hpos : call.msg.startNext.this.szNowPos = call.msg.this.szNowPos := hloc
  refine ⟨beq_iff_eq.mpr ht.atEnd.state, ?_, ?_, hpos, ?_, hle⟩
  · simp only [Mark.next, hc, if_pos ht.scan]
    exact Layer.tracks_startNext _ _
  · simp only [Mark.next, hc]
    simp [Scan.init]
  · unfold Layer.cursor
    rw [Layer.active_of_ne (by simp [startNext, Layer.startNext, MsgInfo.zero]), hpos, hq]
    rfl

theorem restart_ne (c : Scan) : c.restart.state ≠ .msgEnd := by
  unfold Scan.restart
  split_ifs with h
  · simp [Scan.init]
  · exact h

/-- The bytes that are left after a call. -/
theorem window_after (m' : RedisMsg) (hw : Layer.window rd m.this m.next = us ++ rs)
    (hcur : m'.this.cursor m'.next = m.this.cursor m.next + us.length) (hend : m'.this.szEnd = m.this.szEnd) :
    Layer.window rd m'.this m'.next = rs ∧ m'.this.left m'.next = m.this.left m.next - us.length := by
  have hlen : us.length + rs.length = m.this.left m.next := by
    rw [← length_append, ← hw, Layer.window, bytesAt_length]
  have hleft : m'.this.left m'.next = m.this.left m.next - us.length := by
    unfold Layer.left at hlen ⊢
    omega
  exact ⟨by rw [bytesAt_rest hw, Layer.window, hcur, hleft], hleft⟩

theorem feeds_some_length {c : Scan} {e : ParseRet} (h : feeds Scan.step us c = (some e, d, [])) : 0 < us.length := by
  cases us with
  | nil => cases h
  | cons => simp

/-- The calls `calls` are those for the bytes that are left. -/
def Calls (rd : Int → UInt8) (m : RedisMsg) (a : Mark) (calls : List Call) : Prop :=
  ∃ a' rest, Trace a (Layer.window rd m.this m.next) calls a' rest ∧
    ((∃ log m', calls = log ++ [⟨.error, m'⟩]) ∨
      ∃ log m', calls = log ++ [⟨.ok, m'⟩] ∧ AtMark m' a' ∧ m'.this.szEnd = m.this.szEnd ∧
        Layer.window rd m'.this m'.next = rest ∧
        (rest = [] ∨ ¬ Scan.Throughout (fun b c => ¬ Scan.Skips b c) (Layer.window rd m.this m.next) a.c))

/-- One call more, after which the parser is `m1`. -/
theorem Calls.cons {m1 : RedisMsg} {call : Call} {calls : List Call} (hgo : a.c.state ≠ .msgEnd)
    (hw : Layer.window rd m.this m.next = us ++ rs) (hf : feeds Scan.step us a.c = (o, d, []))
    (ho : o ≠ some .error) (hc : CallSpec a.prev (a.q + us.length) o (Scan.maxLen us a.c a.x) d call)
    (hw1 : Layer.window rd m1.this m1.next = rs) (he : m1.this.szEnd = m.this.szEnd)
    (h : Calls rd m1 (a.next us d call) calls) : Calls rd m a (call :: calls) := by
  obtain ⟨a', rest, h1, h2⟩ := h
  rw [hw1] at h1 h2
  refine ⟨a', rest, by rw [hw]; exact .cons hf ho hc h1, ?_⟩
  rcases h2 with ⟨log, m', rfl⟩ | ⟨log, m', rfl, h3, h4, h5, h6⟩
  · exact .inl ⟨call :: log, m', rfl⟩
  · refine .inr ⟨call :: log, m', rfl, h3, h4.trans he, h5, ?_⟩
    rcases h6 with h6 | h6
    · exact .inl h6
    · rw [hw]
      exact .inr fun hs => h6 (hs.after hgo hf ho)

/-- The calls for the bytes that are left. -/
theorem parseAll_calls (n : Nat) (h : AtMark m a) (hlt : m.this.szEnd - a.q < 2 ^ 31)
    (hr : Scan.Throughout Scan.Fit (Layer.window rd m.this m.next) a.c) (hn : m.this.left m.next + 1 ≤ n) :
    ∃ calls, parseAll rd n m = some calls ∧ Calls rd m a calls := by
  induction n generalizing m a with
  | zero => omega
  | succ n ih =>
    obtain ⟨us, rs, o, d, m', h1, h2, h3, h4, h5, h6⟩ := h.parseRsp hlt hr
    have hlen : us.length + rs.length = m.this.left m.next := by
      rw [← length_append, ← h1, Layer.window, bytesAt_length]
    have hcur := h.cursor
    have hle : a.q + us.length ≤ m'.this.szEnd := by
      have hle0 := h.le
      unfold Layer.left at hlen
      omega
    -- the calls after this one, which has stopped at a byte
    have hrec : ∀ (m1 : RedisMsg) (call : Call), o ≠ some .error → 0 < us.length →
        CallSpec a.prev (a.q + us.length) o (Scan.maxLen us a.c a.x) d call → AtMark m1 (a.next us d call) →
        m1.this.szEnd = m'.this.szEnd → ∃ calls, parseAll rd n m1 = some calls ∧ Calls rd m a (call :: calls) := by
      intro m1 call ho hus hc hat he
      have hq := hat.cursor
      simp only [Mark.next] at hq
      obtain ⟨hw1, hl1⟩ := window_after m1 h1 (by rw [hcur, hq]) (he.trans h4)
      rw [h1] at hr
      obtain ⟨calls, h7, h8⟩ := ih hat (by simp only [Mark.next]; omega)
        (by rw [hw1]; exact hr.after h.goes h2 ho) (by omega)
      exact ⟨calls, h7, .cons h.goes h1 h2 ho hc hw1 (he.trans h4) h8⟩
    unfold parseAll
    rw [h3]
    rcases o with _ | _ | _ | _
    · obtain ⟨ht, hq⟩ := h5.again (.inl rfl)
      obtain ⟨hend, hat⟩ := AtMark.of_tracks ht hq hle
      refine ⟨[⟨.ok, m'⟩], if_neg (beq_eq_false_iff_ne.mp hend), _, rs, by rw [h1]; exact .cons h2 (by simp) h5 .nil,
        .inr ⟨[], m', rfl, hat, h4, (window_after m' h1 (by rw [hcur]; exact hq) h4).1, ?_⟩⟩
      rcases h6 rfl with h6 | h6
      · exact .inl h6
      · rw [h1]
        exact .inr fun hs => h6 hs.left
    · obtain ⟨ht, hq⟩ := h5.ended rfl
      obtain ⟨hend, hat⟩ := AtMark.of_ended ht hq hle
      obtain ⟨calls, h7, h8⟩ := hrec m'.startNext _ (by simp) (feeds_some_length h2) h5 hat rfl
      refine ⟨_, ?_, h8⟩
      dsimp only [getD_some]
      rw [if_pos (beq_iff_eq.mp hend), h7]
      rfl
    · exact ⟨[⟨.error, m'⟩], rfl, _, rs, by rw [h1]; exact .fail h2 h5, .inl ⟨[], m', rfl⟩⟩
    · obtain ⟨ht, hq⟩ := h5.again (.inr rfl)
      obtain ⟨-, hat⟩ := AtMark.of_tracks ht hq hle
      obtain ⟨calls, h7, h8⟩ := hrec m' _ (by simp) (feeds_some_length h2) h5 hat rfl
      refine ⟨_, ?_, h8⟩
      dsimp only [getD_some]
      rw [h7]
      rfl

/-! ### Chunks -/

variable {calls calls' : List Call} {rest fs : List UInt8} {P : UInt8 → Scan → Prop}

/-- The last call has not failed. -/
def Lives (calls : List Call) : Prop := ∀ call ∈ calls.getLast?, call.iRet ≠ .error

theorem Lives.tail {call : Call} (h : Lives (call :: calls)) : Lives calls := by
  intro c hc
  refine h c ?_
  cases calls with
  | nil => cases hc
  | cons => exact hc

/-- More bytes that are not read. -/
theorem Trace.extend (h : Trace a bs calls a' rest) (fs : List UInt8) : Trace a (bs ++ fs) calls a' (rest ++ fs) := by
  induction h with
  | nil => exact .nil
  | fail hf hc => rw [append_assoc]; exact .fail hf hc
  | cons hf ho hc _ ih => rw [append_assoc]; exact .cons hf ho hc ih

theorem Trace.append {a'' : Mark} {rest' : List UInt8} (h : Trace a bs calls a' rest) (hl : Lives calls)
    (h' : Trace a' (rest ++ fs) calls' a'' rest') : Trace a (bs ++ fs) (calls ++ calls') a'' rest' := by
  induction h with
  | nil => exact h'
  | fail hf hc => exact absurd hc.ret (hl _ (by simp))
  | cons hf ho hc _ ih => rw [append_assoc]; exact .cons hf ho hc (ih hl.tail h')

theorem Trace.throughout (h : Trace a bs calls a' rest) (hl : Lives calls) (ha : a.c.state ≠ .msgEnd)
    (hp : Scan.Throughout P (bs ++ fs) a.c) : Scan.Throughout P (rest ++ fs) a'.c := by
  induction h with
  | nil => exact hp
  | fail hf hc => exact absurd hc.ret (hl _ (by simp))
  | cons hf ho hc _ ih =>
    rw [append_assoc] at hp
    exact ih hl.tail (restart_ne _) (hp.after ha hf ho)

theorem Trace.q_le (h : Trace a bs calls a' rest) : a.q ≤ a'.q := by
  induction h with
  | nil => exact le_refl _
  | fail => simp [Mark.next]
  | cons _ _ _ _ ih =>
    simp only [Mark.next] at ih
    omega

theorem bytesAt_add (rd : Int → UInt8) (p : Int) (n k : Nat) :
    bytesAt rd p (n + k) = bytesAt rd p n ++ bytesAt rd (p + n) k := by
  induction n generalizing p with
  | zero => simp [bytesAt]
  | succ n ih =>
    rw [Nat.add_right_comm]
    simp only [bytesAt, ih, cons_append]
    push_cast
    rw [add_assoc, add_comm 1 (n : Int)]

/-- `Expand` leaves the parser at its mark. -/
theorem AtMark.expand (h : AtMark m a) (len : Nat) : AtMark (m.expand len) a ∧
    (m.expand len).this.left (m.expand len).next = m.this.left m.next + len ∧
    (m.expand len).this.szEnd = m.this.szEnd + len := by
  have hcur : (m.expand len).this.cursor (m.expand len).next = m.this.cursor m.next := Layer.cursor_grow _ _ _
  have hend : (m.expand len).this.szEnd = m.this.szEnd + len := rfl
  have hq := h.cursor
  have hle := h.le
  refine ⟨⟨h.tracks.grow len, h.goes, h.prev, hcur.trans hq, by omega⟩, ?_, hend⟩
  unfold Layer.left
  omega

/-- The calls for a stream of which `lens` are the chunks. -/
theorem feedAll_trace (lens : List Nat) (h : AtMark m a) (hlens : ∀ len ∈ lens, len < 2 ^ 31)
    (hr : Scan.Throughout Scan.Fit (bytesAt rd a.q (m.this.left m.next + lens.sum)) a.c)
    (hw : m.this.left m.next = 0 ∧ Scan.Throughout (fun b c => ¬ Scan.Skips b c)
      (bytesAt rd a.q (m.this.left m.next + lens.sum)) a.c ∨ m.this.left m.next + lens.sum < 2 ^ 31) :
    ∃ calls a' rest, feedAll rd m lens = some calls ∧
      Trace a (bytesAt rd a.q (m.this.left m.next + lens.sum)) calls a' rest ∧
      (Lives calls → Scan.Throughout (fun b c => ¬ Scan.Skips b c)
        (bytesAt rd a.q (m.this.left m.next + lens.sum)) a.c → m.this.left m.next = 0 → rest = []) := by
  induction lens generalizing m a with
  | nil =>
    refine ⟨[], a, _, rfl, .nil, fun _ _ h0 => ?_⟩
    rw [h0]
    rfl
  | cons len lens ih =>
    obtain ⟨hat, hleft, hend⟩ := h.expand len
    have hwin : Layer.window rd (m.expand len).this (m.expand len).next = bytesAt rd a.q (m.this.left m.next + len) := by
      unfold Layer.window
      rw [hat.cursor, hleft]
    rw [sum_cons, ← add_assoc, bytesAt_add, ← hwin] at hr hw ⊢
    have hlen := hlens len (by simp)
    have hq := h.cursor
    have hle := h.le
    have hmono := h.tracks.ready.szNowPos_le
    have hlt : (m.expand len).this.szEnd - a.q < 2 ^ 31 := by
      unfold Layer.left at hw
      rcases hw with ⟨h0, -⟩ | hw <;> omega
    obtain ⟨calls, h1, a', rest, h2, h3⟩ := parseAll_calls (m.expand len).calls hat hlt hr.left (by
      unfold RedisMsg.calls Layer.left
      have : (m.expand len).this.szNowPos = m.this.szNowPos := rfl
      have := hat.cursor
      omega)
    unfold feedAll
    rw [h1]
    rcases h3 with ⟨log, m', rfl⟩ | ⟨log, m', rfl, hat', hend', hwin', hskip⟩
    · refine ⟨log ++ [⟨.error, m'⟩], a', _, by simp, h2.extend _, fun hl => ?_⟩
      exact absurd rfl (hl ⟨.error, m'⟩ (by simp))
    · have hl : Lives (log ++ [⟨.ok, m'⟩]) := by
        intro call hc
        simp only [getLast?_append, getLast?_singleton, some_or, mem_some_iff] at hc
        rw [← hc]
        simp
      have hq' := hat'.cursor
      have hle' := hat'.le
      have hqle := h2.q_le
      have hleft' : m'.this.left m'.next = (m'.this.szEnd - a'.q).toNat := by unfold Layer.left; rw [hq']
      have hl0 : m.this.left m.next = (m.this.szEnd - a.q).toNat := by unfold Layer.left; rw [hq]
      -- what is left and the chunks that follow
      have hrest : bytesAt rd a'.q (m'.this.left m'.next + lens.sum) =
          rest ++ bytesAt rd (a.q + ↑(m.this.left m.next + len)) lens.sum := by
        rw [bytesAt_add, ← hwin', Layer.window, hq']
        congr 2
        omega
      obtain ⟨calls, a'', rest', h4, h5, h6⟩ := ih hat' (fun l hm => hlens l (by simp [hm]))
        (by rw [hrest]; exact h2.throughout hl hat.goes hr) (by
          rw [hrest]
          rcases hw with ⟨-, hw⟩ | hw
          · have h0 : rest = [] := by
              rcases hskip with h0 | h0
              · exact h0
              · exact absurd hw.left h0
            refine .inl ⟨?_, h2.throughout hl hat.goes hw⟩
            rw [← hwin', Layer.window] at h0
            have := congrArg List.length h0
            rwa [bytesAt_length] at this
          · exact .inr (by omega))
      rw [hrest] at h5 h6
      refine ⟨log ++ [⟨.ok, m'⟩] ++ calls, a'', rest', by simp [h4], h2.append hl h5, fun hl' hs h0 => ?_⟩
      have hr0 : rest = [] := by
        rcases hskip with h0 | h0
        · exact h0
        · exact absurd hs.left h0
      have hlc : Lives calls := by
        intro call hc
        refine hl' call ?_
        rw [getLast?_append, mem_def.mp hc]
        rfl
      refine h6 hlc (h2.throughout hl hat.goes hs) ?_
      rw [← hwin', Layer.window] at hr0
      have := congrArg List.length hr0
      rwa [bytesAt_length] at this

/-- The calls for a stream from its first byte on. -/
theorem feedAll_init (rd : Int → UInt8) (base : Int) (lens : List Nat) (hlens : ∀ len ∈ lens, len < 2 ^ 31)
    (hr : Scan.Throughout Scan.Fit (bytesAt rd base lens.sum) Scan.init)
    (hw : Scan.Throughout (fun b c => ¬ Scan.Skips b c) (bytesAt rd base lens.sum) Scan.init ∨ lens.sum < 2 ^ 31) :
    ∃ calls a' rest, feedAll rd (init base) lens = some calls ∧
      Trace ⟨base, base, Scan.init, 0⟩ (bytesAt rd base lens.sum) calls a' rest ∧
      (Lives calls → Scan.Throughout (fun b c => ¬ Scan.Skips b c) (bytesAt rd base lens.sum) Scan.init → rest = []) := by
  have hat : AtMark (init base) ⟨base, base, Scan.init, 0⟩ :=
    ⟨Layer.tracks_init base, by simp [Scan.init], rfl, rfl, le_refl _⟩
  have h0 : (init base).this.left (init base).next = 0 := by simp [Layer.left, Layer.cursor, Layer.active, init, Layer.init]
  have h := @feedAll_trace rd _ _ lens hat hlens
  rw [h0, Nat.zero_add] at h
  obtain ⟨calls, a', rest, h1, h2, h3⟩ := h hr (hw.imp (fun h => ⟨rfl, h⟩) id)
  exact ⟨calls, a', rest, h1, h2, fun hl hs => h3 hl hs rfl⟩

end

end RedisMsg

end RedisProxy
