import RedisProxy.Proofs.ParserDriverProofs

/-!
# Only RESP values are accepted

The bytes that the reader has taken are the beginning of a message: the arrays that are open (`Ctx`) and a
part of a line (`Part`). A byte that RESP does not allow makes it fail, except where the parser is lax
(`Scan.Lax`). Each line that is complete closes the arrays that need no more lines.
-/

namespace RedisProxy

open Lib Resp List Byte

namespace Resp

/-- The bytes before a line, in the arrays that are open there: the lines that each of them still needs, innermost
first. -/
inductive Ctx : List Nat → List UInt8 → Prop
  | start : Ctx [] []
  | array {st : List Nat} {pre ds : List UInt8} {vs : List (List UInt8)} {need : Nat} (h : Ctx st pre) (hd : Digits ds)
      (hlen : decimal ds = vs.length + need) (hpos : 0 < need) (hvs : ∀ v ∈ vs, Value Digits v) :
      Ctx (need :: st) (pre ++ (Byte.star :: ds ++ crlf ++ vs.flatten))

section

variable {st : List Nat} {pre v : List UInt8} {n : Nat}

/-- A line of an array that needs more lines. -/
theorem Ctx.more (h : Ctx (n :: st) pre) (hv : Value Digits v) (hn : n ≠ 1) : Ctx ((n - 1) :: st) (pre ++ v) := by
  cases h with
  | @array _ pre ds vs _ h hd hlen hpos hvs =>
    have h1 : Ctx ((n - 1) :: st) (pre ++ (star :: ds ++ crlf ++ (vs ++ [v]).flatten)) := by
      refine .array h hd (by simp only [length_append, length_singleton]; omega) (by omega) fun w hw => ?_
      rcases mem_append.mp hw with hw | hw
      · exact hvs w hw
      · rw [mem_singleton.mp hw]
        exact hv
    simpa using h1

/-- The last line of an array completes a value. -/
theorem Ctx.last (h : Ctx (1 :: st) pre) (hv : Value Digits v) : ∃ pre' w, Ctx st pre' ∧ Value Digits w ∧
    pre' ++ w = pre ++ v := by
  cases h with
  | @array _ pre ds vs _ h hd hlen hpos hvs =>
    refine ⟨pre, star :: ds ++ crlf ++ (vs ++ [v]).flatten, h, .array hd ?_ fun w hw => ?_, by simp⟩
    · simpa using hlen
    · rcases mem_append.mp hw with hw | hw
      · exact hvs w hw
      · rw [mem_singleton.mp hw]
        exact hv

/-- Whatever arrays are open, a line can be followed by others that close them. -/
theorem Ctx.complete (h : Ctx st pre) (hv : Value Digits v) : ∃ rest, Value Digits (pre ++ v ++ rest) := by
  induction h generalizing v with
  | start => exact ⟨[], by simpa using hv⟩
  | @array st pre ds vs need h hd hlen hpos hvs ih =>
    -- nil strings for the lines that are missing
    have h1 : Value Digits (star :: ds ++ crlf ++
        (vs ++ v :: replicate (need - 1) (usd :: sub :: one :: crlf)).flatten) := by
      refine .array hd (by simp only [length_append, length_cons, length_replicate]; omega) fun w hw => ?_
      rcases mem_append.mp hw with hw | hw
      · exact hvs w hw
      · rcases mem_cons.mp hw with rfl | hw
        · exact hv
        · rw [eq_of_mem_replicate hw]
          exact .nilBulk
    obtain ⟨rest, hr⟩ := ih h1
    exact ⟨_, by simpa using hr⟩

end

end Resp

namespace Scan

/-- The arrays around a line, as the reader keeps them. A line that is a message has no array around it. -/
def Around (st : List Nat) (need : Nat) (outer : List Nat) : Prop :=
  st = need :: outer ∨ st = [] ∧ need = 1 ∧ outer = []

/-- The text of a line that is not complete. -/
def PartText (st : List Nat) : LineKind → List UInt8 → Prop
  | .inline, cur => st = [] ∧ ∃ t, cur = Byte.pingB :: t ∧ Byte.cr ∉ t
  | .text, cur => ∃ b t, cur = b :: t ∧ (b = Byte.plus ∨ b = Byte.sub) ∧ Text t
  | .numStart, cur => cur = [Byte.colon]
  | .numSign, cur => ∃ sign, cur = [Byte.colon, sign] ∧ (sign = Byte.plus ∨ sign = Byte.sub)
  | .numDigits, cur => ∃ t, cur = Byte.colon :: t ∧ Integer t

/-- The part `cur` of a line has been read, in the arrays `st`. -/
def Part (c : Scan) (st : List Nat) (cur : List UInt8) : Prop :=
  match c.state with
  | .start => st = [] ∧ c.outer = [] ∧ cur = []
  | .readingLine => st = c.need :: c.outer ∧ cur = []
  | .str => Around st c.need c.outer ∧ PartText st c.kind cur
  | .strCrlf => Around st c.need c.outer ∧ ∃ s, cur = s ++ [Byte.cr] ∧
      (Value Digits (s ++ crlf) ∨ st = [] ∧ Inline (s ++ crlf))
  | .usdNum => Around st c.need c.outer ∧ ∃ ds, cur = Byte.usd :: ds ∧ (∀ d ∈ ds, Byte.isDigit d = true) ∧
      decimal ds = c.arg ∧ (c.kind = .numDigits ↔ ds ≠ [])
  | .usdNumCrlf => Around st c.need c.outer ∧ ∃ ds, cur = Byte.usd :: ds ++ [Byte.cr] ∧ Digits ds ∧ decimal ds = c.arg
  | .usdStr => Around st c.need c.outer ∧ ∃ ds s, cur = Byte.usd :: ds ++ crlf ++ s ∧ Digits ds ∧
      decimal ds = s.length + c.arg
  | .usdEmpty => Around st c.need c.outer ∧ cur = [Byte.usd, Byte.sub]
  | .usdEmptyOne => Around st c.need c.outer ∧ cur = [Byte.usd, Byte.sub, Byte.one]
  | .narg => st = c.outer ∧ ∃ ds, cur = Byte.star :: ds ∧ (∀ d ∈ ds, Byte.isDigit d = true) ∧ decimal ds = c.need ∧
      (c.need = 0 ↔ ds = [])
  | .nargNagOne => st = c.outer ∧ c.need = 0 ∧ cur = [Byte.star, Byte.sub]
  | .nargZero => st = c.outer ∧ c.need = 0 ∧ Value Digits (cur ++ crlf)
  | .nargCrlf => st = c.outer ∧ ∃ s, cur = s ++ [Byte.cr] ∧ (c.need = 0 → Value Digits (s ++ crlf)) ∧
      (c.need ≠ 0 → ∃ ds, s = Byte.star :: ds ∧ Digits ds ∧ decimal ds = c.need)
  | .usdZero | .inNextLayer | .msgEnd => False

/-- The reader has taken the bytes `us` of a message. -/
structure Inside (c : Scan) (us : List UInt8) : Prop where
  parts : ∃ st pre cur, us = pre ++ cur ∧ Ctx st pre ∧ Part c st cur
  len : c.len = us.length

/-- What the byte `ch` after the bytes `us` leads to. -/
def Outcome (us : List UInt8) (ch : UInt8) : Option ParseRet × Scan → Prop
  | (none, d) => Inside d (us ++ [ch])
  | (some .ok, d) => Message Digits (us ++ [ch]) ∧ d.state = .msgEnd ∧ d.len = (us ++ [ch]).length
  | (some .startNull, d) => us = [] ∧ ch = 0 ∧ Inside d []
  | (some .error, _) => True

section

variable {c d : Scan} {ch : UInt8} {st outer : List Nat} {pre cur us v : List UInt8} {need : Nat} {o : Option ParseRet}
variable {ds : List UInt8}

/-- A line closes the arrays of which it is the last one. -/
theorem ctx_closeLine (h : Ctx (need :: outer) pre) (hv : Value Digits v) :
    (closeLine need outer = none ∧ Value Digits (pre ++ v)) ∨
      ∃ need' outer', closeLine need outer = some (need', outer') ∧ Ctx (need' :: outer') (pre ++ v) := by
  induction outer generalizing need pre v with
  | nil =>
    by_cases hn : need = 1
    · subst hn
      obtain ⟨pre', w, hc, hw, he⟩ := h.last hv
      cases hc
      rw [← he]
      exact .inl ⟨rfl, hw⟩
    · exact .inr ⟨need - 1, [], if_neg hn, h.more hv hn⟩
  | cons m outer ih =>
    by_cases hn : need = 1
    · subst hn
      obtain ⟨pre', w, hc, hw, he⟩ := h.last hv
      rw [← he]
      exact ih hc hw
    · exact .inr ⟨need - 1, m :: outer, if_neg hn, h.more hv hn⟩

/-- A line is complete. -/
theorem endLine_outcome (hctx : Ctx st pre) (ha : Around st need outer)
    (hv : Value Digits (cur ++ [ch]) ∨ st = [] ∧ Inline (cur ++ [ch])) (hl : c.len = (pre ++ cur ++ [ch]).length) :
    Outcome (pre ++ cur) ch (c.endLine need outer) := by
  rcases ha with rfl | ⟨rfl, rfl, rfl⟩
  · have hv' : Value Digits (cur ++ [ch]) := by
      rcases hv with hv | ⟨hn, -⟩
      · exact hv
      · cases hn
    unfold endLine
    rcases ctx_closeLine hctx hv' with ⟨h1, h2⟩ | ⟨need', outer', h1, h2⟩
    · rw [h1]
      rw [← append_assoc] at h2
      exact ⟨.inl h2, rfl, hl⟩
    · rw [h1]
      refine ⟨⟨_, _, [], ?_, h2, rfl, rfl⟩, hl⟩
      simp
  · cases hctx
    rcases hv with hv | ⟨-, hv⟩
    · exact ⟨.inl hv, rfl, hl⟩
    · exact ⟨.inr hv, rfl, hl⟩

theorem outcome_of_part (hctx : Ctx st pre) (hl : d.len = (pre ++ cur ++ [ch]).length) (h : Part d st (cur ++ [ch])) :
    Outcome (pre ++ cur) ch (none, d) :=
  ⟨⟨st, pre, cur ++ [ch], append_assoc _ _ _, hctx, h⟩, hl⟩

theorem decimal_append (ds : List UInt8) (d : UInt8) : decimal (ds ++ [d]) = decimal ds * 10 + digitNat d := by
  simp [decimal]

theorem digits_append (h : Digits ds) (hc : Byte.isDigit ch = true) : Digits (ds ++ [ch]) := by
  refine ⟨by simp, ?_⟩
  have := h.2
  simpa [hc, or_imp, forall_and] using this

/-- One more byte of a line. -/
theorem PartText.next (h : PartText st c.kind cur) (hs : c.state = .str) (hc : ch ≠ Byte.cr) (hlax : ¬ Lax ch c) :
    PartText st (nextKind ch c.kind) (cur ++ [ch]) := by
  cases hk : c.kind with
  | inline =>
    rw [hk] at h
    obtain ⟨hst, t, rfl, ht⟩ := h
    exact ⟨hst, t ++ [ch], rfl, by simpa [ht] using hc.symm⟩
  | text =>
    rw [hk] at h
    simp only [Lax, hs, hk] at hlax
    obtain ⟨b, t, rfl, hb, ht⟩ := h
    refine ⟨b, t ++ [ch], rfl, hb, fun x hx => ?_⟩
    rcases mem_append.mp hx with hx | hx
    · exact ht x hx
    · rw [mem_singleton.mp hx]
      exact ⟨hc, hlax⟩
  | numStart =>
    rw [hk] at h
    simp only [Lax, hs, hk, not_not] at hlax
    replace h : cur = [Byte.colon] := h
    subst h
    by_cases hd : isDigit ch = true
    · simp only [nextKind, hd, if_true]
      exact ⟨[ch], rfl, .inl ⟨by simp, by simpa using hd⟩⟩
    · simp only [nextKind, if_neg hd]
      exact ⟨ch, rfl, hlax.resolve_left hd⟩
  | numSign =>
    rw [hk] at h
    simp only [Lax, hs, hk, not_not] at hlax
    obtain ⟨sign, rfl, hsign⟩ := h
    exact ⟨[sign, ch], rfl, .inr ⟨sign, [ch], rfl, hsign, by simp, by simpa using hlax⟩⟩
  | numDigits =>
    rw [hk] at h
    simp only [Lax, hs, hk, not_not] at hlax
    obtain ⟨t, rfl, ht⟩ := h
    have hd := hlax.resolve_right hc
    refine ⟨t ++ [ch], rfl, ?_⟩
    rcases ht with ht | ⟨sign, ds, rfl, hsign, hds⟩
    · exact .inl (digits_append ht hd)
    · exact .inr ⟨sign, ds ++ [ch], rfl, hsign, digits_append hds hd⟩

/-- The carriage return of a line. -/
theorem PartText.done (h : PartText st c.kind cur) (hs : c.state = .str) (hlax : ¬ Lax Byte.cr c) :
    Value Digits (cur ++ crlf) ∨ st = [] ∧ Inline (cur ++ crlf) := by
  cases hk : c.kind with
  | inline =>
    rw [hk] at h
    obtain ⟨hst, t, rfl, ht⟩ := h
    exact .inr ⟨hst, t, rfl, ht⟩
  | text =>
    rw [hk] at h
    obtain ⟨b, t, rfl, hb, ht⟩ := h
    rcases hb with rfl | rfl
    · exact .inl (.simple ht)
    · exact .inl (.error ht)
  | numStart =>
    simp only [Lax, hs, hk] at hlax
    exact absurd (by decide) hlax
  | numSign =>
    simp only [Lax, hs, hk] at hlax
    exact absurd (by decide) hlax
  | numDigits =>
    rw [hk] at h
    obtain ⟨t, rfl, ht⟩ := h
    exact .inl (.integer ht)

/-- A transition that the parser is not lax about. -/
theorem Takes.outcome (h : Takes ch c o d) (hctx : Ctx st pre) (hpart : Part c st cur) (hlax : ¬ Lax ch c)
    (hl : c.len = (pre ++ cur ++ [ch]).length) : Outcome (pre ++ cur) ch (o, d) := by
  cases h with
  | text hs hc =>
    simp only [Part, hs] at hpart
    obtain ⟨rfl, ho, rfl⟩ := hpart
    exact outcome_of_part hctx hl ⟨.inr ⟨rfl, rfl, ho⟩, ch, [], rfl, hc, nofun⟩
  | int hs hc =>
    simp only [Part, hs] at hpart
    obtain ⟨rfl, ho, rfl⟩ := hpart
    subst hc
    exact outcome_of_part hctx hl ⟨.inr ⟨rfl, rfl, ho⟩, rfl⟩
  | ping hs hc =>
    simp only [Part, hs] at hpart
    obtain ⟨rfl, ho, rfl⟩ := hpart
    subst hc
    exact outcome_of_part hctx hl ⟨.inr ⟨rfl, rfl, ho⟩, rfl, [], rfl, nofun⟩
  | bulk hs hc =>
    simp only [Part, hs] at hpart
    obtain ⟨rfl, ho, rfl⟩ := hpart
    subst hc
    exact outcome_of_part hctx hl ⟨.inr ⟨rfl, rfl, ho⟩, [], rfl, nofun, rfl, by simp⟩
  | array hs hc =>
    simp only [Part, hs] at hpart
    obtain ⟨rfl, ho, rfl⟩ := hpart
    subst hc
    exact outcome_of_part hctx hl ⟨ho.symm, [], rfl, nofun, rfl, by simp⟩
  | null hs hc =>
    simp only [Part, hs] at hpart
    obtain ⟨rfl, ho, rfl⟩ := hpart
    cases hctx
    refine ⟨rfl, hc, ⟨[], [], [], rfl, .start, ?_⟩, rfl⟩
    simp only [Part, hs]
    exact ⟨trivial, ho, trivial⟩
  | count hs hc hz =>
    simp only [Part, hs] at hpart
    obtain ⟨rfl, ds, rfl, hd, hn, h0⟩ := hpart
    refine outcome_of_part hctx hl ?_
    simp only [Part, hs]
    refine ⟨trivial, ds ++ [ch], rfl, ?_, by rw [decimal_append, hn], by simpa using hz⟩
    simpa [hc, or_imp, forall_and] using hd
  | countZero hs hc hz =>
    simp only [Part, hs] at hpart
    obtain ⟨rfl, ds, rfl, hd, hn, h0⟩ := hpart
    have hds : ds = [] := h0.mp (by omega)
    subst hds
    have hdec : decimal [ch] = 0 := (decimal_append [] ch).trans (by rw [hn]; exact hz)
    have hv : Value Digits (star :: [ch] ++ crlf ++ [].flatten) :=
      .array ⟨by simp, by simpa using hc⟩ hdec nofun
    exact outcome_of_part hctx hl ⟨rfl, rfl, by simpa using hv⟩
  | countCr hs hc =>
    simp only [Part, hs] at hpart
    obtain ⟨rfl, ds, rfl, hd, hn, h0⟩ := hpart
    subst hc
    have hne : c.need ≠ 0 := fun h => hlax (by simp only [Lax, hs]; exact .inl ⟨trivial, h⟩)
    refine outcome_of_part hctx hl ⟨rfl, _, rfl, fun h => absurd h hne, fun _ => ⟨ds, rfl, ⟨?_, hd⟩, hn⟩⟩
    exact fun h => hne (h0.mpr h)
  | countSub hs hc =>
    simp only [Part, hs] at hpart
    obtain ⟨rfl, ds, rfl, hd, hn, h0⟩ := hpart
    subst hc
    have hz : c.need = 0 := by
      by_contra h
      exact hlax (by simp only [Lax, hs]; exact .inr ⟨trivial, h⟩)
    have hds : ds = [] := h0.mp hz
    subst hds
    exact outcome_of_part hctx hl ⟨rfl, hz, rfl⟩
  | zeroCr hs hc =>
    simp only [Part, hs] at hpart
    obtain ⟨rfl, hz, hv⟩ := hpart
    subst hc
    exact outcome_of_part hctx hl ⟨rfl, cur, rfl, fun _ => hv, fun h => absurd hz h⟩
  | nagOne hs hc =>
    simp only [Part, hs] at hpart
    obtain ⟨rfl, hz, rfl⟩ := hpart
    subst hc
    exact outcome_of_part hctx hl ⟨rfl, hz, .nilArray⟩
  | noBody hs hc hn =>
    simp only [Part, hs] at hpart
    obtain ⟨rfl, s, rfl, hv, -⟩ := hpart
    subst hc
    have hv' : Value Digits (s ++ [cr] ++ [lf]) := by
      rw [append_assoc]
      exact hv hn
    -- the array is a line of the array around it
    unfold endArray
    split
    · rename_i ho
      rw [ho] at hctx
      have := endLine_outcome hctx (.inr ⟨rfl, rfl, rfl⟩) (.inl hv') hl
      exact this
    · rename_i n outer ho
      rw [ho] at hctx
      exact endLine_outcome hctx (.inl rfl) (.inl hv') hl
  | body hs hc hn =>
    simp only [Part, hs] at hpart
    obtain ⟨rfl, s, rfl, -, hv⟩ := hpart
    subst hc
    obtain ⟨ds, rfl, hd, hdec⟩ := hv hn
    have hctx' : Ctx (c.need :: c.outer) (pre ++ (star :: ds ++ crlf ++ [].flatten)) :=
      .array hctx hd (by rw [hdec]; simp) (Nat.pos_of_ne_zero hn) nofun
    exact ⟨⟨_, _, [], by simp [crlf], hctx', rfl, rfl⟩, hl⟩
  | lineText hs hc =>
    simp only [Part, hs] at hpart
    obtain ⟨rfl, rfl⟩ := hpart
    exact outcome_of_part hctx hl ⟨.inl rfl, ch, [], rfl, hc, nofun⟩
  | lineInt hs hc =>
    simp only [Part, hs] at hpart
    obtain ⟨rfl, rfl⟩ := hpart
    subst hc
    exact outcome_of_part hctx hl ⟨.inl rfl, rfl⟩
  | lineBulk hs hc =>
    simp only [Part, hs] at hpart
    obtain ⟨rfl, rfl⟩ := hpart
    subst hc
    exact outcome_of_part hctx hl ⟨.inl rfl, [], rfl, nofun, rfl, by simp⟩
  | lineArray hs hc =>
    simp only [Part, hs] at hpart
    obtain ⟨rfl, rfl⟩ := hpart
    subst hc
    exact outcome_of_part hctx hl ⟨rfl, [], rfl, nofun, rfl, by simp⟩
  | strChar hs hc =>
    simp only [Part, hs] at hpart
    refine outcome_of_part hctx hl ?_
    simp only [Part, hs]
    exact ⟨hpart.1, hpart.2.next hs hc hlax⟩
  | strCr hs hc =>
    simp only [Part, hs] at hpart
    subst hc
    exact outcome_of_part hctx hl ⟨hpart.1, cur, rfl, hpart.2.done hs hlax⟩
  | lineEnd hs hc =>
    simp only [Part, hs] at hpart
    obtain ⟨ha, s, rfl, hv⟩ := hpart
    subst hc
    refine endLine_outcome hctx ha ?_ hl
    rw [append_assoc]
    exact hv
  | arg hs hc =>
    simp only [Part, hs] at hpart
    obtain ⟨ha, ds, rfl, hd, hn, -⟩ := hpart
    refine outcome_of_part hctx hl ?_
    simp only [Part, hs]
    refine ⟨ha, ds ++ [ch], rfl, ?_, by rw [decimal_append, hn], by simp⟩
    simpa [hc, or_imp, forall_and] using hd
  | argCr hs hc =>
    simp only [Part, hs] at hpart
    obtain ⟨ha, ds, rfl, hd, hn, hk⟩ := hpart
    subst hc
    have hkind : c.kind = .numDigits := by
      by_contra h
      exact hlax (by simp only [Lax, hs]; exact .inl ⟨trivial, h⟩)
    exact outcome_of_part hctx hl ⟨ha, ds, rfl, ⟨hk.mp hkind, hd⟩, hn⟩
  | argSub hs hc hz =>
    simp only [Part, hs] at hpart
    obtain ⟨ha, ds, rfl, hd, hn, hk⟩ := hpart
    subst hc
    have hds : ds = [] := by
      by_contra h
      exact hlax (by simp only [Lax, hs]; exact .inr ⟨trivial, hk.mpr h⟩)
    subst hds
    exact outcome_of_part hctx hl ⟨ha, rfl⟩
  | argLf hs hc =>
    simp only [Part, hs] at hpart
    obtain ⟨ha, ds, rfl, hd, hn⟩ := hpart
    subst hc
    exact outcome_of_part hctx hl ⟨ha, ds, [], by simp [crlf], hd, by simpa using hn⟩
  | skip hs hc => exact absurd hc (by simpa only [Lax, hs] using hlax)
  | bulkCr hs hz hc =>
    simp only [Part, hs] at hpart
    obtain ⟨ha, ds, s, rfl, hd, hn⟩ := hpart
    subst hc
    exact outcome_of_part hctx hl ⟨ha, _, rfl, .inl (.bulk hd (by rw [hn, hz]; rfl))⟩
  | bulkChar hs hz =>
    simp only [Part, hs] at hpart
    obtain ⟨ha, ds, s, rfl, hd, hn⟩ := hpart
    refine outcome_of_part hctx hl ?_
    simp only [Part, hs]
    refine ⟨ha, ds, s ++ [ch], by simp, hd, ?_⟩
    rw [hn, length_append, length_singleton]
    omega
  | emptyOne hs hc =>
    simp only [Part, hs] at hpart
    obtain ⟨ha, rfl⟩ := hpart
    subst hc
    exact outcome_of_part hctx hl ⟨ha, rfl⟩
  | emptyCr hs hc =>
    simp only [Part, hs] at hpart
    obtain ⟨ha, rfl⟩ := hpart
    subst hc
    exact outcome_of_part hctx hl ⟨ha, _, rfl, .inl .nilBulk⟩
  | argZeroCr hs hc =>
    simp only [Part, hs] at hpart
  | fail => exact trivial

/-- One byte that the parser is not lax about. -/
theorem Inside.step (h : Inside c us) (hlax : ¬ Lax ch c) : Outcome us ch (step ch c) := by
  obtain ⟨⟨st, pre, cur, rfl, hctx, hpart⟩, hlen⟩ := h
  have hr := read_takes ch { c with len := c.len + 1 }
  exact hr.outcome hctx hpart hlax (by simp only [hlen, length_append, length_singleton])

theorem value_of_digits {s : List UInt8} (hd : Digits ds) (n : Nat) (hn : decimal ds = s.length + n) :
    Value Digits (Byte.usd :: ds ++ crlf ++ s ++ (List.replicate n 0 ++ crlf)) := by
  have h : Value Digits (usd :: ds ++ crlf ++ (s ++ replicate n 0) ++ crlf) :=
    .bulk hd (by rw [hn, length_append, length_replicate])
  simpa using h

theorem value_of_count (hd : Digits ds) : Value Digits (Byte.star :: ds ++ crlf ++
    (List.replicate (decimal ds) (Byte.usd :: Byte.sub :: Byte.one :: crlf)).flatten) := by
  refine .array hd (by rw [length_replicate]) fun v hv => ?_
  rw [eq_of_mem_replicate hv]
  exact .nilBulk

/-- A part of the text of a line is the beginning of a line. -/
theorem PartText.complete {k : LineKind} (h : PartText st k cur) :
    (∃ r, Value Digits (cur ++ r)) ∨ st = [] ∧ ∃ r, Inline (cur ++ r) := by
  cases k with
  | inline =>
    obtain ⟨hst, t, rfl, ht⟩ := h
    exact .inr ⟨hst, crlf, t, rfl, ht⟩
  | text =>
    obtain ⟨b, t, rfl, hb, ht⟩ := h
    rcases hb with rfl | rfl
    · exact .inl ⟨crlf, .simple ht⟩
    · exact .inl ⟨crlf, .error ht⟩
  | numStart =>
    replace h : cur = [Byte.colon] := h
    subst h
    exact .inl ⟨[48] ++ crlf, .integer (.inl ⟨by simp, by decide +kernel⟩)⟩
  | numSign =>
    obtain ⟨sign, rfl, hsign⟩ := h
    exact .inl ⟨[48] ++ crlf, .integer (.inr ⟨sign, [48], rfl, hsign, by simp, by decide +kernel⟩)⟩
  | numDigits =>
    obtain ⟨t, rfl, ht⟩ := h
    exact .inl ⟨crlf, .integer ht⟩

/-- A part of a line is the beginning of a line. -/
theorem Part.complete (h : Part c st cur) : (∃ r, Value Digits (cur ++ r)) ∨ st = [] ∧ ∃ r, Inline (cur ++ r) := by
  unfold Part at h
  split at h
  · obtain ⟨-, -, rfl⟩ := h
    exact .inl ⟨_, .nilBulk⟩
  · obtain ⟨-, rfl⟩ := h
    exact .inl ⟨_, .nilBulk⟩
  · exact h.2.complete
  · obtain ⟨-, s, rfl, hv | ⟨hst, hv⟩⟩ := h
    · exact .inl ⟨[lf], by simpa [crlf] using hv⟩
    · exact .inr ⟨hst, [lf], by simpa [crlf] using hv⟩
  · obtain ⟨-, ds, rfl, hd, -, -⟩ := h
    by_cases hds : ds = []
    · subst hds
      exact .inl ⟨_, .nilBulk⟩
    · have hv := value_of_digits (s := []) ⟨hds, hd⟩ (decimal ds) (by simp)
      exact .inl ⟨_, by simpa using hv⟩
  · obtain ⟨-, ds, rfl, hd, -⟩ := h
    have hv := value_of_digits (s := []) hd (decimal ds) (by simp)
    exact .inl ⟨lf :: _, by simpa [crlf] using hv⟩
  · obtain ⟨-, ds, s, rfl, hd, hn⟩ := h
    exact .inl ⟨_, value_of_digits hd c.arg hn⟩
  · obtain ⟨-, rfl⟩ := h
    exact .inl ⟨one :: crlf, .nilBulk⟩
  · obtain ⟨-, rfl⟩ := h
    exact .inl ⟨crlf, .nilBulk⟩
  · obtain ⟨-, ds, rfl, hd, -, -⟩ := h
    by_cases hds : ds = []
    · subst hds
      exact .inl ⟨_, .nilArray⟩
    · have hv := value_of_count ⟨hds, hd⟩
      exact .inl ⟨_, by simpa using hv⟩
  · obtain ⟨-, -, rfl⟩ := h
    exact .inl ⟨one :: crlf, .nilArray⟩
  · exact .inl ⟨crlf, h.2.2⟩
  · obtain ⟨-, s, rfl, h0, hn⟩ := h
    by_cases hz : c.need = 0
    · exact .inl ⟨[lf], by simpa [crlf] using h0 hz⟩
    · obtain ⟨ds, rfl, hd, -⟩ := hn hz
      have hv := value_of_count hd
      exact .inl ⟨lf :: _, by simpa [crlf] using hv⟩
  all_goals exact h.elim

/-- What has been read is the beginning of a message. -/
theorem Inside.complete (h : Inside c us) : ∃ rest, Message Digits (us ++ rest) := by
  obtain ⟨⟨st, pre, cur, rfl, hctx, hpart⟩, -⟩ := h
  rcases hpart.complete with ⟨r, hv⟩ | ⟨rfl, r, hv⟩
  · obtain ⟨rest, hr⟩ := hctx.complete hv
    exact ⟨r ++ rest, .inl (by simpa using hr)⟩
  · cases hctx
    exact ⟨r, .inr hv⟩

theorem inside_init : Inside init [] := ⟨⟨[], [], [], rfl, .start, rfl, rfl, rfl⟩, rfl⟩

/-- The bytes up to the end of a message or a null byte. -/
theorem Inside.feeds {vs : List UInt8} (h : Inside c us) (ha : Along (fun b c => ¬ Lax b c) Scan.step vs c)
    (hf : Lib.feeds Scan.step vs c = (o, d, [])) :
    (o = none → Inside d (us ++ vs)) ∧
      (o = some .ok → Message Digits (us ++ vs) ∧ d.state = .msgEnd ∧ d.len = (us ++ vs).length) ∧
      (o = some .startNull → us = [] ∧ vs = [0] ∧ Inside d []) := by
  induction vs generalizing c us with
  | nil =>
    cases hf
    exact ⟨fun _ => by rw [append_nil]; exact h, nofun, nofun⟩
  | cons ch vs ih =>
    have hout := h.step ha.1
    rcases hs : Scan.step ch c with ⟨_ | e, c1⟩
    · rw [hs] at hout
      rw [feeds_cons_none hs] at hf
      obtain ⟨h1, h2, h3⟩ := ih hout (ha.cons_none hs) hf
      rw [append_assoc] at h1 h2
      refine ⟨h1, h2, fun ho => ?_⟩
      have := (h3 ho).1
      simp at this
    · rw [hs] at hout
      rw [feeds_cons_some hs] at hf
      cases hf
      refine ⟨nofun, fun ho => ?_, fun ho => ?_⟩
      · cases ho
        exact hout
      · cases ho
        obtain ⟨h1, rfl, h2⟩ := hout
        exact ⟨h1, rfl, h2⟩

end

end Scan

namespace RedisMsg

section

variable {a a' : Mark} {bs rest : List UInt8} {calls : List Call}

/-- The calls from a mark on, where `k` null bytes and the bytes `us` of a message have been read from `p` on. -/
theorem Trace.sound (h : Trace a bs calls a' rest) (p : Int) (k : Nat) (us : List UInt8) (hus : Scan.Inside a.c us)
    (hgo : a.c.state ≠ .msgEnd) (hq : a.q = p + k + us.length) (hlax : Scan.Throughout (fun b c => ¬ Scan.Lax b c) bs a.c) :
    ∃ ps : List (Nat × List UInt8), (∀ x ∈ ps, Message Digits x.2) ∧
      (calls.filter Call.isMsg).map (fun call => (call.msg.this.szNowPos, call.msg.this.iLen)) = pieceEnds p ps ∧
      pieces ps <+: List.replicate k 0 ++ us ++ bs ∧
      ((∀ call ∈ calls, call.iRet ≠ .error) → ∃ k' part, List.replicate k 0 ++ us ++ bs =
        pieces ps ++ (List.replicate k' 0 ++ part) ++ rest ∧ ∃ r, Message Digits (part ++ r)) := by
  induction h generalizing p k us with
  | nil => exact ⟨[], nofun, rfl, nil_prefix, fun _ => ⟨k, us, rfl, hus.complete⟩⟩
  | @fail a d vs rs call hf hc =>
    have hend : call.isMsg = false := by
      unfold Call.isMsg
      rw [hc.ret]
      rfl
    refine ⟨[], nofun, ?_, nil_prefix, fun hok => absurd hc.ret (hok call (by simp))⟩
    rw [filter_cons_of_neg (by simp [hend])]
    rfl
  | @cons a a' d vs rs rest o call calls hf ho hc ht ih =>
    have hlax1 := hlax.left
    have hlax2 := hlax.after hgo hf ho
    obtain ⟨h1, h2, h3⟩ := hus.feeds (hlax1.along hgo) hf
    rcases o with _ | _ | _ | _
    · -- the message goes on
      have ht' := (hc.again (.inl rfl)).1
      have hend : call.isMsg = false := by
        unfold Call.isMsg Call.isEnd
        rw [beq_eq_false_iff_ne.mpr ht'.ready.sane.notEnd, Bool.and_false]
      have hnext : (a.next vs d call).c = d := Scan.restart_of_ne ht'.ne_msgEnd
      obtain ⟨ps, h4, h5, h6, h7⟩ := ih p k (us ++ vs) (by rw [hnext]; exact h1 rfl) (restart_ne d)
        (by simp only [Mark.next, hq, length_append]; push_cast; omega) hlax2
      refine ⟨ps, h4, ?_, by simpa using h6, fun hok => ?_⟩
      · rw [filter_cons_of_neg (by simp [hend])]
        exact h5
      · obtain ⟨k', part, h8, h9⟩ := h7 fun c hm => hok c (by simp [hm])
        exact ⟨k', part, by rw [← h8]; simp, h9⟩
    · -- it ends here
      obtain ⟨he, hpos⟩ := hc.ended rfl
      obtain ⟨hm, hd, hlen⟩ := h2 rfl
      have hend : call.isMsg = true := by
        unfold Call.isMsg Call.isEnd
        rw [hc.ret, he.atEnd.state]
        rfl
      have hnext : (a.next vs d call).c = Scan.init := if_pos hd
      obtain ⟨ps, h4, h5, h6, h7⟩ := ih (p + k + (us ++ vs).length) 0 [] (by rw [hnext]; exact Scan.inside_init)
        (restart_ne d) (by simp only [Mark.next, hq, length_append, length_nil]; push_cast; omega) hlax2
      refine ⟨(k, us ++ vs) :: ps, ?_, ?_, ?_, fun hok => ?_⟩
      · intro x hx
        rcases mem_cons.mp hx with rfl | hx
        · exact hm
        · exact h4 x hx
      · rw [filter_cons_of_pos hend, map_cons, h5, pieceEnds, hpos, hq, he.len, hlen]
        simp only [length_append]
        push_cast
        rw [add_assoc (p + (k : Int))]
      · rw [pieces, flatMap_cons, ← pieces]
        simpa using h6
      · obtain ⟨k', part, h8, h9⟩ := h7 fun c hm => hok c (by simp [hm])
        refine ⟨k', part, ?_, h9⟩
        rw [pieces, flatMap_cons, ← pieces]
        simp only [replicate_zero, nil_append] at h8
        rw [h8]
        simp
    · exact absurd rfl ho
    · -- a null byte before a message
      have ht' := (hc.again (.inr rfl)).1
      obtain ⟨rfl, rfl, h4⟩ := h3 rfl
      have hend : call.isMsg = false := by
        unfold Call.isMsg Call.isEnd
        rw [beq_eq_false_iff_ne.mpr ht'.ready.sane.notEnd, Bool.and_false]
      have hnext : (a.next [0] d call).c = d := Scan.restart_of_ne ht'.ne_msgEnd
      obtain ⟨ps, h5, h6, h7, h8⟩ := ih p (k + 1) [] (by rw [hnext]; exact h4) (restart_ne d)
        (by simp only [Mark.next, hq, length_nil, length_singleton]; push_cast; omega) hlax2
      have he : replicate (k + 1) 0 ++ [] ++ rs = replicate k 0 ++ [] ++ ([0] ++ rs) := by
        simp [replicate_succ']
      rw [he] at h7 h8
      refine ⟨ps, h5, ?_, h7, fun hok => h8 fun c hm => hok c (by simp [hm])⟩
      rw [filter_cons_of_neg (by simp [hend])]
      exact h6

end

/-- Whatever arrives: a message that the parser accepts is a RESP value or a line that starts with `P`, and the bytes
after the last message are the beginning of one, unless a call has failed. -/
theorem parsed_sound (rd : Int → UInt8) (base : Int) (lens : List Nat) (hlens : ∀ len ∈ lens, len < 2 ^ 31)
    (hfit : Scan.Throughout Scan.Fit (bytesAt rd base lens.sum) Scan.init)
    (hlax : Scan.Throughout (fun b c => ¬ Scan.Lax b c) (bytesAt rd base lens.sum) Scan.init) :
    ∃ calls, feedAll rd (init base) lens = some calls ∧ ∃ ps : List (Nat × List UInt8),
      (∀ x ∈ ps, Message Digits x.2) ∧
      (calls.filter Call.isMsg).map (fun call => (call.msg.this.szNowPos, call.msg.this.iLen)) = pieceEnds base ps ∧
      pieces ps <+: bytesAt rd base lens.sum ∧
      ((∀ call ∈ calls, call.iRet ≠ .error) → ∃ k part, bytesAt rd base lens.sum =
        pieces ps ++ (List.replicate k 0 ++ part) ∧ ∃ rest, Message Digits (part ++ rest)) := by
  have hskip : Scan.Throughout (fun b c => ¬ Scan.Skips b c) (bytesAt rd base lens.sum) Scan.init := by
    refine Along.mono (fun b c h hs => h ?_) hlax
    simp only [Scan.Lax, hs.1]
    exact hs.2
  obtain ⟨calls, a', rest, h1, h2, h3⟩ := feedAll_init rd base lens hlens hfit (.inl hskip)
  obtain ⟨ps, h4, h5, h6, h7⟩ := h2.sound base 0 [] Scan.inside_init nofun (by simp) hlax
  refine ⟨calls, h1, ps, h4, h5, by simpa using h6, fun hok => ?_⟩
  obtain ⟨k, part, h8, h9⟩ := h7 hok
  rw [h3 (fun call hm => hok call (mem_of_getLast? hm)) hskip, append_nil] at h8
  exact ⟨k, part, by simpa using h8, h9⟩

theorem parsed_sound_two_messages : ∃ calls,
    feedAll (memoryOf "\x00PING\r\n$2\r\nhi\r\n+O") (init 0) [3, 8, 6] = some calls ∧ ∃ ps : List (Nat × List UInt8),
      (∀ x ∈ ps, Message Digits x.2) ∧
      (calls.filter Call.isMsg).map (fun call => (call.msg.this.szNowPos, call.msg.this.iLen)) = pieceEnds 0 ps ∧
      pieces ps <+: bytesAt (memoryOf "\x00PING\r\n$2\r\nhi\r\n+O") 0 17 ∧
      ((∀ call ∈ calls, call.iRet ≠ .error) → ∃ k part, bytesAt (memoryOf "\x00PING\r\n$2\r\nhi\r\n+O") 0 17 =
        pieces ps ++ (List.replicate k 0 ++ part) ∧ ∃ rest, Message Digits (part ++ rest)) :=
  parsed_sound _ 0 [3, 8, 6] (by decide) (by decide) (by decide)

theorem not_message_of_skipped : ¬ Message Digits [36, 49, 13, 88, 10, 65, 13, 10] := by
  rintro (h | ⟨t, h, -⟩)
  · generalize hs : ([36, 49, 13, 88, 10, 65, 13, 10] : List UInt8) = v at h
    cases h with
    | @bulk ds s hd _ =>
      rcases ds with _ | ⟨d, _ | ⟨e, ds⟩⟩
      · exact hd.1 rfl
      · simp [crlf, lf] at hs
      · have he := hd.2 e (by simp)
        simp only [cons_append, cons.injEq] at hs
        rw [← hs.2.2.1] at he
        exact absurd he (by decide)
    | _ => simp [Byte.plus, Byte.sub, Byte.colon, Byte.star, Byte.usd, crlf] at hs
  · simp [pingB] at h

/-- The byte after the carriage return of a length is skipped, whatever it is: a message of eight bytes is accepted
that is no RESP value. -/
theorem skipped_byte_accepted : (feedAll (memoryOf "$1\rX\nA\r\n") (init 0) [4, 4]).map (fun calls => calls.map fun call =>
      (call.iRet, call.isEnd, call.msg.this.szNowPos, call.msg.this.iLen)) =
        some [(.ok, false, 4, 4), (.ok, true, 8, 8), (.ok, false, 8, 0)] ∧
      ¬ Message Digits (bytesAt (memoryOf "$1\rX\nA\r\n") 0 8) := by
  refine ⟨by decide, ?_⟩
  exact not_message_of_skipped

end RedisMsg

end RedisProxy
