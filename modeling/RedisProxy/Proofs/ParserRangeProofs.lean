import RedisProxy.Proofs.ParserDriverProofs

/-!
# The parser stays inside of its buffer

As long as every count and length that the bytes declare fits into an `int`, the parser never goes back or
past the end of what has been delivered, and its counters are the declared numbers. A length that does not
fit wraps around and moves the parser back.
-/

namespace RedisProxy

open Lib List

namespace Scan

section

variable {ch : UInt8} {us bs : List UInt8} {c d : Scan} {o : Option ParseRet} {x : Nat}

theorem streamMax_message (hc : c.state ≠ .msgEnd) (h : feeds step us c = (o, d, [])) (ho : o ≠ some .error) :
    streamMax us c x = maxLen us c x := by
  induction us generalizing c x with
  | nil => rfl
  | cons ch us ih =>
    rcases hs : step ch c with ⟨_ | e, c1⟩
    · rw [feeds_cons_none hs] at h
      simp only [streamMax, maxLen, stream_of_step hc hs (by simp), hs, restart_of_ne hc, if_neg hc]
      exact ih (step_ne hs hc) h
    · rw [feeds_cons_some hs] at h
      cases h
      simp only [streamMax, maxLen, restart_of_ne hc, if_neg hc]

theorem streamMax_append {t : Scan} (h : feeds stream us c = (none, t, [])) :
    streamMax (us ++ bs) c x = streamMax bs t (streamMax us c x) := by
  induction us generalizing c x with
  | nil => cases h; rfl
  | cons ch us ih =>
    rcases hs : stream ch c with ⟨_ | e, c1⟩
    · rw [feeds_cons_none hs] at h
      simp only [cons_append, streamMax, hs]
      exact ih h
    · rw [feeds_cons_some hs] at h
      cases h

theorem feeds_stream_restart (hus : us ≠ []) (c : Scan) : feeds stream us c.restart = feeds stream us c := by
  cases us with
  | nil => exact absurd rfl hus
  | cons ch us => simp only [feeds, stream_restart]

theorem streamMax_restart (hus : us ≠ []) (c : Scan) (x : Nat) :
    streamMax us c x = streamMax us c.restart (if c.state = .msgEnd then 0 else x) := by
  cases us with
  | nil => exact absurd rfl hus
  | cons ch us => 
    simp only [streamMax, stream_restart, restart_restart]
    by_cases hc : c.state = .msgEnd
    · simp [hc, restart, init]
    · simp [hc, restart]

theorem feeds_null (h : feeds step us c = (some .startNull, d, [])) : d.state = .start := by
  induction us generalizing c with
  | nil => cases h
  | cons ch us ih =>
    rcases hs : step ch c with ⟨_ | e, c1⟩
    · rw [feeds_cons_none hs] at h
      exact ih h
    · rw [feeds_cons_some hs] at h
      cases h
      obtain ⟨hc, rfl⟩ := Layer.step_null hs
      exact hc

/-- A length leaves room for 256 bytes. -/
structure Margin (c : Scan) (x : Nat) : Prop where
  arg : c.state = .usdNum → c.arg + 256 < 2 ^ 31
  max : x + 256 < 2 ^ 31

theorem endLine_ne_usdNum (c : Scan) (n : Nat) (outer : List Nat) : (c.endLine n outer).2.state ≠ .usdNum := by
  unfold endLine
  split <;> simp

theorem endArray_ne_usdNum (c : Scan) : c.endArray.2.state ≠ .usdNum := by
  unfold endArray
  split
  · simp
  · exact endLine_ne_usdNum c _ _

theorem Margin.max' (h : Margin c x) : nextMax ch c x + 256 < 2 ^ 31 := by
  have h1 := h.max
  unfold nextMax
  split_ifs with hc
  · have h2 := h.arg hc.1
    rw [max_def]
    split_ifs <;> omega
  · exact h1

theorem Margin.step (h : Margin c x) (hr : InRange ch c) (hs : step ch c = (none, d)) :
    Margin d (nextMax ch c x) := by
  refine ⟨?_, h.max'⟩
  generalize ho : (none : Option ParseRet) = o at hs
  cases step_takes hs with
  | bulk | lineBulk => exact fun _ => by simp
  | arg hst hc => exact fun _ => hr.2 hst hc
  | noBody => exact fun hd => absurd hd (endArray_ne_usdNum _)
  | lineEnd => exact fun hd => absurd hd (endLine_ne_usdNum _ _ _)
  | count hst | strChar hst | skip hst | bulkChar hst => 
    intro hd
    rw [show c.state = _ from hd] at hst
    cases hst
  | null | fail => cases ho
  | _ => exact nofun

theorem Margin.feeds (h : Margin c x) (hr : Along InRange Scan.step us c) (hf : feeds Scan.step us c = (o, d, [])) :
    maxLen us c x + 256 < 2 ^ 31 ∧ (o = none → Margin d (maxLen us c x)) := by
  induction us generalizing c x with
  | nil =>
    cases hf
    exact ⟨h.max, fun _ => h⟩
  | cons ch us ih =>
    rcases hs : Scan.step ch c with ⟨_ | e, c1⟩
    · rw [feeds_cons_none hs] at hf
      simp only [maxLen, hs]
      exact ih (h.step hr.1 hs) (hr.cons_none hs) hf
    · rw [feeds_cons_some hs] at hf
      cases hf
      exact ⟨h.max', (by simp)⟩

end

end Scan

namespace RedisMsg

section

variable {m : Layer} {next : List Layer} {c d : Scan} {x : Nat} {a a' : Mark} {bs rest : List UInt8} {calls : List Call}
variable {pre us : List UInt8} {c0 : Scan} {o : Option ParseRet} {call : Call}

theorem holds_of_tracks (h : Layer.Tracks m next c x) : Holds m c x := by
  have hne := h.ne_msgEnd
  have hneed : c.state ≠ .start → m.iNeedArgNum = (c.outer.getLast?.getD c.need : Nat) ∧
      c.outer.getLast?.getD c.need < 2 ^ 31 := by
    intro hst
    have hn := h.follows.need hst
    have ho := h.follows.outer
    by_cases hin : m.nowState = .inNextLayer
    · cases next with
      | nil => exact absurd hin h.ready.2
      | cons l next =>
        rw [Layer.needs, if_pos hin] at ho
        rcases eq_nil_or_concat c.outer with he | ⟨out, n, he⟩
        · rw [he] at ho
          simp at ho
        · rw [concat_eq_append] at he
          rw [he, map_append] at ho
          have h2 := (append_inj' ho rfl).2
          have hmax := (h.follows.fine.outer n (by rw [he]; simp)).2
          rw [he]
          simp only [map_cons, map_nil, cons.injEq, and_true] at h2
          simpa using ⟨h2, hmax⟩
    · rw [Layer.active_of_ne hin] at hn
      rw [Layer.needs_of_ne hin] at ho
      have he : c.outer = [] := by simpa using ho.symm
      rw [he]
      exact ⟨hn, h.follows.fine.max⟩
  refine ⟨fun hst => ?_, fun hst => ?_, fun hb ho => ?_, h.maxLen⟩
  · rw [if_neg hne]
    exact (hneed hst).1
  · have := hneed hst
    omega
  · have hin : m.nowState ≠ .inNextLayer := by
      intro hin
      have hout := h.follows.outer
      cases next with
      | nil => exact h.ready.2 hin
      | cons l next =>
        rw [Layer.needs, if_pos hin, ho] at hout
        simp at hout
    have ha := h.follows.arg hb
    rwa [Layer.active_of_ne hin] at ha

theorem holds_of_ended (h : Layer.Ended m d x) : Holds m d x := by
  refine ⟨fun _ => ?_, fun _ => ?_, fun hb => ?_, h.maxLen⟩
  · rw [if_pos h.scan]
    exact h.atEnd.need
  · rw [h.atEnd.need]
    simp
  · rw [h.scan] at hb
    cases hb

/-- The bytes `pre` of the stream have been read at the mark. -/
structure Behind (pre : List UInt8) (a : Mark) (c0 : Scan) : Prop where
  run : Lib.feeds Scan.stream pre Scan.init = (none, c0, [])
  scan : a.c = c0.restart
  max : a.x = if c0.state = .msgEnd then 0 else Scan.streamMax pre Scan.init 0

theorem Behind.goes (h : Behind pre a c0) : a.c.state ≠ .msgEnd := by
  rw [h.scan]
  exact restart_ne c0

/-- The bytes `us` that a call reads. -/
theorem Behind.read (h : Behind pre a c0) (hus : us ≠ []) (hf : feeds Scan.step us a.c = (o, d, []))
    (ho : o ≠ some .error) : feeds Scan.stream (pre ++ us) Scan.init = (none, d, []) ∧
      Scan.streamMax (pre ++ us) Scan.init 0 = Scan.maxLen us a.c a.x := by
  have hs := Scan.feeds_stream h.goes hf ho
  rw [h.scan, Scan.feeds_stream_restart hus] at hs
  refine ⟨by rw [feeds_append h.run, hs], ?_⟩
  rw [Scan.streamMax_append h.run, Scan.streamMax_restart hus, ← h.scan, ← h.max]
  exact Scan.streamMax_message h.goes hf ho

/-- A call from a mark is safe. The bytes `pre` have been read before. -/
theorem CallSpec.safe (rs : List UInt8) (hc : CallSpec a.prev (a.q + us.length) o (Scan.maxLen us a.c a.x) d call)
    (hf : feeds Scan.step us a.c = (o, d, [])) (hmax : Scan.maxLen us a.c a.x + 256 < 2 ^ 31)
    (hb : Behind pre a c0) : SafeCall (pre ++ us ++ rs) a.prev call := by
  -- the calls that leave the parser inside of a message or before one
  have hgo : o = none ∨ o = some .startNull → SafeCall (pre ++ us ++ rs) a.prev call := by
    intro ho
    obtain ⟨ht, -⟩ := hc.again ho
    have hx := ht.maxLen
    refine ⟨hc.start_le, hc.le, hc.mono, ⟨ht.ready.sane.argLen, ht.ready.sane.argMax⟩, by omega, fun _ => ?_⟩
    by_cases hus : us = []
    · subst hus
      cases hf
      by_cases hm : c0.state = .msgEnd
      · have hinit : a.c = Scan.init := by rw [hb.scan, Scan.restart, if_pos hm]
        have hx0 : a.x = 0 := by rw [hb.max, if_pos hm]
        refine .inl ⟨ht.start_iff.mp (by rw [hinit]; rfl), ?_⟩
        simp only [Scan.maxLen] at hx
        omega
      · refine .inr ⟨pre, c0, by simp, hb.run, ?_⟩
        have h1 := holds_of_tracks ht
        rw [hb.scan, Scan.restart_of_ne hm] at h1
        simp only [Scan.maxLen, hb.max, if_neg hm] at h1
        exact h1
    · obtain ⟨h1, h2⟩ := hb.read hus hf (by rcases ho with rfl | rfl <;> simp)
      exact .inr ⟨pre ++ us, d, prefix_append _ _, h1, by rw [h2]; exact holds_of_tracks ht⟩
  rcases o with _ | _ | _ | _
  · exact hgo (.inl rfl)
  · obtain ⟨ht, -⟩ := hc.ended rfl
    have hx := ht.maxLen
    have hus : us ≠ [] := by rintro rfl; cases hf
    obtain ⟨h1, h2⟩ := hb.read hus hf (by simp)
    exact ⟨hc.start_le, hc.le, hc.mono, ⟨ht.atEnd.argLen, ht.atEnd.argMax⟩, by omega,
      fun _ => .inr ⟨pre ++ us, d, prefix_append _ _, h1, by rw [h2]; exact holds_of_ended ht⟩⟩
  · obtain ⟨h1, h2, h3⟩ := hc.error rfl
    exact ⟨hc.start_le, hc.le, hc.mono, h3, by omega, fun h => absurd hc.ret h⟩
  · exact hgo (.inr rfl)

theorem Behind.step (h : Behind pre a c0) (hf : feeds Scan.step us a.c = (o, d, [])) (ho : o ≠ some .error) :
    ∃ c1, Behind (pre ++ us) (a.next us d call) c1 := by
  by_cases hus : us = []
  · subst hus
    cases hf
    have hr : a.c.restart = a.c := Scan.restart_of_ne h.goes
    refine ⟨c0, by simpa using h.run, ?_, ?_⟩
    · simp only [Mark.next, hr]
      exact h.scan
    · simp only [Mark.next, if_neg h.goes, Scan.maxLen, append_nil]
      exact h.max
  · obtain ⟨h1, h2⟩ := h.read hus hf ho
    exact ⟨d, h1, rfl, by rw [h2]; rfl⟩

theorem margin_next (hc : CallSpec a.prev (a.q + us.length) o (Scan.maxLen us a.c a.x) d call)
    (hf : feeds Scan.step us a.c = (o, d, [])) (hmax : Scan.maxLen us a.c a.x + 256 < 2 ^ 31) (hm : o = none → Scan.Margin d (Scan.maxLen us a.c a.x))
    (ho : o ≠ some .error) : Scan.Margin (a.next us d call).c (a.next us d call).x := by
  unfold Mark.next
  rcases o with _ | _ | _ | _
  · have hd := (hc.again (.inl rfl)).1.ne_msgEnd
    simp only [Scan.restart_of_ne hd, if_neg hd]
    exact hm rfl
  · have hd := (hc.ended rfl).1.scan
    simp only [Scan.restart, if_pos hd]
    exact ⟨nofun, by simp⟩
  · exact absurd rfl ho
  · have hd := (hc.again (.inr rfl)).1.ne_msgEnd
    simp only [Scan.restart_of_ne hd, if_neg hd]
    refine ⟨fun hu => ?_, hmax⟩
    rw [Scan.feeds_null hf] at hu
    cases hu

/-- All calls are safe. -/
theorem Trace.safe (h : Trace a bs calls a' rest) (hb : Behind pre a c0) (hm : Scan.Margin a.c a.x)
    (hr : Scan.Throughout Scan.InRange bs a.c) : SafeCalls (pre ++ bs) a.prev calls := by
  induction h generalizing pre c0 with
  | nil => exact trivial
  | fail hf hc =>
    obtain ⟨hmax, -⟩ := hm.feeds (hr.left.along hb.goes) hf
    rw [← append_assoc]
    exact ⟨hc.safe _ hf hmax hb, trivial⟩
  | cons hf ho hc _ ih =>
    obtain ⟨hmax, hm'⟩ := hm.feeds (hr.left.along hb.goes) hf
    obtain ⟨c1, hb'⟩ := hb.step hf ho
    rw [← append_assoc]
    refine ⟨hc.safe _ hf hmax hb, ih hb' ?_ (hr.after hb.goes hf ho)⟩
    exact margin_next hc hf hmax hm' ho

end

end RedisMsg

end RedisProxy
