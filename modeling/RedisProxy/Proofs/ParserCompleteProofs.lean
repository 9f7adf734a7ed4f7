import RedisProxy.Proofs.ParserDriverProofs

/-!
# Every RESP value is parsed

The reader takes each value of RESP as one message (`reads_value`, by induction on the value), with all
numbers in range and no byte skipped. So the calls of `ParseRsp` end exactly at the last byte of each
value (`Trace.ends`), however the stream is cut into chunks.
-/

namespace RedisProxy

open Lib Resp List Byte

namespace Scan

/-- The numbers are in range, and the byte is not skipped. -/
def Good (ch : UInt8) (c : Scan) : Prop := Fit ch c ∧ ¬ Skips ch c

/-- The reader takes the bytes `us` from the state `c` to the result `r`, which the last of them gives. -/
def Reads (us : List UInt8) (c : Scan) (r : Option ParseRet × Scan) : Prop :=
  feeds step us c = (r.1, r.2, []) ∧ Along Good step us c

section

variable {ch : UInt8} {us vs : List UInt8} {c d : Scan} {r : Option ParseRet × Scan}
variable {n : Nat} {outer : List Nat} {ds s v : List UInt8} {ws : List (List UInt8)}

theorem Reads.append (h : Reads us c (none, d)) (h' : Reads vs d r) : Reads (us ++ vs) c r :=
  ⟨by rw [feeds_append h.1]; exact h'.1, h.2.append h.1 h'.2⟩

theorem reads_nil (c : Scan) : Reads [] c (none, c) := ⟨rfl, trivial⟩

theorem reads_single (h : step ch c = r) (hg : Good ch c) : Reads [ch] c r := by
  refine ⟨?_, hg, ?_⟩
  · rcases r with ⟨_ | e, d⟩
    · exact feeds_cons_none h
    · exact feeds_cons_some h
  · rw [h]
    rcases r with ⟨_ | e, d⟩ <;> exact trivial

theorem Reads.cons (h : step ch c = (none, d)) (hg : Good ch c) (h' : Reads us d r) : Reads (ch :: us) c r :=
  (reads_single h hg).append h'

/-- A byte that continues no number. -/
theorem good_of_ne (hl : c.len + 1 < 2 ^ 31) (h1 : c.state ≠ .usdNum) (h2 : c.state ≠ .narg)
    (h3 : c.state ≠ .usdNumCrlf) : Good ch c :=
  ⟨⟨hl, fun h => absurd h h1, fun h => absurd h h2⟩, fun h => h3 h.1⟩

/-- A byte that is no digit. -/
theorem good_of_not_digit (hl : c.len + 1 < 2 ^ 31) (hd : Byte.isDigit ch = false) (h3 : c.state ≠ .usdNumCrlf) :
    Good ch c :=
  ⟨⟨hl, fun _ h => absurd (hd.symm.trans h) nofun, fun _ h => absurd (hd.symm.trans h) nofun⟩, fun h => h3 h.1⟩

/-- The bytes `us` end a line, of which `need` are needed. -/
def Closes (us : List UInt8) (c : Scan) (need : Nat) (outer : List Nat) : Prop :=
  ∃ c' : Scan, c'.len = c.len + us.length ∧ Reads us c (c'.endLine need outer)

theorem Closes.after (h : Reads us c (none, d)) (hl : d.len = c.len + us.length) (h' : Closes vs d n outer) :
    Closes (us ++ vs) c n outer := by
  obtain ⟨c', h1, h2⟩ := h'
  exact ⟨c', by rw [h1, hl, length_append, Nat.add_assoc], h.append h2⟩

theorem Closes.cons (h : step ch c = (none, d)) (hg : Good ch c) (h' : Closes us d n outer) :
    Closes (ch :: us) c n outer :=
  Closes.after (reads_single h hg) (by rw [step_len h (by simp)]; rfl) h'

theorem closes_lf (hc : c.state = .strCrlf) (hl : c.len + 1 < 2 ^ 31) : Closes [Byte.lf] c c.need c.outer := by
  refine ⟨{ c with len := c.len + 1 }, rfl, reads_single ?_ (good_of_ne hl (by simp [hc]) (by simp [hc]) (by simp [hc]))⟩
  simp only [step, read, hc, if_true]

/-- The text of a line. -/
theorem closes_text (hc : c.state = .str) (hs : Byte.cr ∉ us) (hl : c.len + us.length + 2 < 2 ^ 31) :
    Closes (us ++ crlf) c c.need c.outer := by
  induction us generalizing c with
  | nil =>
    have h1 : step cr c = (none, { c with len := c.len + 1, state := .strCrlf }) := by
      simp only [step, read, hc, if_true]
    exact .cons h1 (good_of_ne (by omega) (by simp [hc]) (by simp [hc]) (by simp [hc])) (closes_lf rfl (by simp only; omega))
  | cons ch us ih =>
    simp only [mem_cons, not_or, length_cons] at hs hl
    have h1 : step ch c = (none, { c with len := c.len + 1, kind := nextKind ch c.kind }) := by
      simp only [step, read, hc]
      rw [if_neg (fun h => hs.1 h.symm)]
    exact .cons h1 (good_of_ne (by omega) (by simp [hc]) (by simp [hc]) (by simp [hc]))
      (ih hc hs.2 (by simp only; omega))

/-- The number that `n` and the digits `ds` after it stand for. -/
theorem le_foldl_digits (n : Nat) (ds : List UInt8) : n ≤ ds.foldl (fun n d => n * 10 + digitNat d) n := by
  induction ds generalizing n with
  | nil => exact le_refl _
  | cons d ds ih =>
    exact le_trans (by omega) (ih (n * 10 + digitNat d))

/-- The digits of a length. -/
theorem reads_length (hc : c.state = .usdNum) (hd : ∀ d ∈ us, Byte.isDigit d = true)
    (hn : us.foldl (fun n d => n * 10 + digitNat d) c.arg < 2 ^ 31) (hl : c.len + us.length < 2 ^ 31) :
    ∃ k, Reads us c (none, { c with
      arg := us.foldl (fun n d => n * 10 + digitNat d) c.arg, kind := k, len := c.len + us.length }) := by
  induction us generalizing c with
  | nil => exact ⟨c.kind, reads_nil c⟩
  | cons ch us ih =>
    simp only [mem_cons, forall_eq_or_imp, length_cons, foldl_cons] at hd hl hn ⊢
    have h1 : step ch c = (none, { c with len := c.len + 1, arg := c.arg * 10 + digitNat ch, kind := .numDigits }) := by
      simp only [step, read, hc, hd.1, if_true]
    have hlt := lt_of_le_of_lt (le_foldl_digits (c.arg * 10 + digitNat ch) us) hn
    obtain ⟨k, hk⟩ := ih (c := { c with len := c.len + 1, arg := c.arg * 10 + digitNat ch, kind := .numDigits }) hc hd.2
      hn (by simp only; omega)
    refine ⟨k, .cons h1 ⟨⟨by omega, fun _ _ => hlt, fun h => by simp [hc] at h⟩, fun h => by simp [Skips, hc] at h⟩ ?_⟩
    rw [show c.len + (us.length + 1) = c.len + 1 + us.length by omega]
    exact hk

/-- The bytes of a bulk string. -/
theorem reads_bulk (hc : c.state = .usdStr) (hn : us.length ≤ c.arg) (hl : c.len + us.length < 2 ^ 31) :
    Reads us c (none, { c with arg := c.arg - us.length, len := c.len + us.length }) := by
  induction us generalizing c with
  | nil => exact reads_nil c
  | cons ch us ih =>
    simp only [length_cons] at hn hl ⊢
    have h1 : step ch c = (none, { c with len := c.len + 1, arg := c.arg - 1 }) := by
      simp only [step, read, hc]
      rw [if_neg (by omega)]
    have h2 := ih (c := { c with len := c.len + 1, arg := c.arg - 1 }) hc (by simp only; omega) (by simp only; omega)
    rw [show c.len + (us.length + 1) = c.len + 1 + us.length by omega,
      show c.arg - (us.length + 1) = c.arg - 1 - us.length by omega]
    exact .cons h1 (good_of_ne (by omega) (by simp [hc]) (by simp [hc]) (by simp [hc])) h2

/-- A bulk string after its dollar sign. -/
theorem closes_bulk (hc : c.state = .usdNum) (ha : c.arg = 0) (hd : ∀ d ∈ ds, Byte.isDigit d = true)
    (hn : decimal ds = s.length) (hl : c.len + ds.length + s.length + 4 < 2 ^ 31) :
    Closes (ds ++ crlf ++ s ++ crlf) c c.need c.outer := by
  have hfold : ds.foldl (fun n d => n * 10 + digitNat d) c.arg = s.length := by rw [ha]; exact hn
  obtain ⟨k, h1⟩ := reads_length hc hd (by rw [hfold]; omega) (by omega)
  rw [hfold] at h1
  have h2 : Closes (s ++ crlf) ⟨.usdStr, c.need, s.length, c.outer, k, c.len + ds.length + 2⟩ c.need c.outer := by
    refine .after (reads_bulk rfl (le_refl _) (by simp only; omega)) rfl
      (.cons (d := ⟨.strCrlf, c.need, 0, c.outer, k, c.len + ds.length + 2 + s.length + 1⟩) ?_ ?_ (closes_lf rfl ?_))
    · simp only [step, read, Nat.sub_self]
      rfl
    · exact good_of_ne (by simp only; omega) (by simp) (by simp) (by simp)
    · simp only; omega
  rw [append_assoc, append_assoc]
  refine .after h1 rfl (.cons (d := ⟨.usdNumCrlf, c.need, s.length, c.outer, k, c.len + ds.length + 1⟩) ?_ ?_
    (.cons rfl ?_ h2))
  · simp only [step, read, hc]
    rfl
  · exact good_of_not_digit (by simp only; omega) rfl (by simp [hc])
  · exact ⟨⟨by simp only; omega, (by simp), (by simp)⟩, fun h => h.2 rfl⟩

/-- The nil string after its dollar sign. -/
theorem closes_nilBulk (hc : c.state = .usdNum) (ha : c.arg = 0) (hl : c.len + 4 < 2 ^ 31) :
    Closes (Byte.sub :: Byte.one :: crlf) c c.need c.outer := by
  refine .cons (d := ⟨.usdEmpty, c.need, 0, c.outer, c.kind, c.len + 1⟩) ?_ ?_
    (.cons rfl ?_
    (.cons rfl ?_ (closes_lf rfl ?_)))
  · simp only [step, read, hc, ha]
    rfl
  · exact good_of_not_digit (by omega) rfl (by simp [hc])
  · exact good_of_ne (by simp only; omega) (by simp) (by simp) (by simp)
  · exact good_of_ne (by simp only; omega) (by simp) (by simp) (by simp)
  · simp only; omega

/-- More digits of a count. -/
theorem reads_count (hc : c.state = .narg) (hpos : 0 < c.need) (hd : ∀ d ∈ us, Byte.isDigit d = true)
    (hn : us.foldl (fun n d => n * 10 + digitNat d) c.need < 2 ^ 31) (hl : c.len + us.length < 2 ^ 31) :
    Reads us c (none, { c with
      need := us.foldl (fun n d => n * 10 + digitNat d) c.need, len := c.len + us.length }) := by
  induction us generalizing c with
  | nil => exact reads_nil c
  | cons ch us ih =>
    simp only [mem_cons, forall_eq_or_imp, length_cons, foldl_cons] at hd hl hn ⊢
    have h1 : step ch c = (none, { c with len := c.len + 1, need := c.need * 10 + digitNat ch }) := by
      simp only [step, read, hc, hd.1, if_true]
      rw [if_neg (by omega)]
    have hlt := lt_of_le_of_lt (le_foldl_digits (c.need * 10 + digitNat ch) us) hn
    have h2 := ih (c := { c with len := c.len + 1, need := c.need * 10 + digitNat ch }) hc (by simp only; omega) hd.2
      hn (by simp only; omega)
    rw [show c.len + (us.length + 1) = c.len + 1 + us.length by omega]
    exact .cons h1 ⟨⟨by omega, fun h => by simp [hc] at h, fun _ _ => hlt⟩, fun h => by simp [Skips, hc] at h⟩ h2

/-- The carriage return after a count. -/
theorem reads_count_cr (hc : c.state = .narg ∨ c.state = .nargZero) (hl : c.len + 1 < 2 ^ 31) :
    Reads [Byte.cr] c (none, { c with state := .nargCrlf, len := c.len + 1 }) := by
  rcases hc with hc | hc
  · refine reads_single ?_ (good_of_not_digit hl rfl (by simp [hc]))
    simp only [step, read, hc]
    rfl
  · refine reads_single ?_ (good_of_not_digit hl rfl (by simp [hc]))
    simp only [step, read, hc]
    rfl

/-- The count of an array. A count that starts with a zero is only the zero. -/
theorem reads_head (hc : c.state = .narg) (hz : c.need = 0) (hd : Canonical ds) (hn : decimal ds < 2 ^ 31)
    (hl : c.len + ds.length + 1 < 2 ^ 31) : Reads (ds ++ [Byte.cr]) c (none, { c with
      state := .nargCrlf, need := decimal ds, len := c.len + ds.length + 1 }) := by
  obtain ⟨⟨hne, hdig⟩, hzero⟩ := hd
  cases ds with
  | nil => exact absurd rfl hne
  | cons d ds =>
    simp only [mem_cons, forall_eq_or_imp, length_cons, head?_cons, Option.some.injEq, cons.injEq]
      at hdig hzero hl
    have hfold : decimal (d :: ds) = ds.foldl (fun n d => n * 10 + digitNat d) (digitNat d) := by
      simp [decimal]
    have hlt := lt_of_le_of_lt (le_foldl_digits (digitNat d) ds) (hfold ▸ hn)
    have hgood : Good d c :=
      ⟨⟨by omega, fun h => by simp [hc] at h, fun _ _ => by rw [hz]; omega⟩, fun h => by simp [Skips, hc] at h⟩
    by_cases h0 : d = 48
    · obtain ⟨-, rfl⟩ := hzero h0
      have h1 : step d c = (none, { c with len := c.len + 1, need := 0, state := .nargZero }) := by
        subst h0
        simp only [step, read, hc, hz]
        rfl
      have h2 : decimal [d] = 0 := by subst h0; rfl
      rw [h2]
      exact .cons h1 hgood (reads_count_cr (.inr rfl) (by simp only; omega))
    · have hpos : 0 < digitNat d := by
        have hd48 : d.toNat ≠ 48 := fun h => h0 (UInt8.toNat_inj.mp h)
        have := hdig.1
        simp only [isDigit, Bool.and_eq_true, decide_eq_true_eq, UInt8.le_iff_toNat_le] at this
        unfold digitNat
        have h48 : (48 : UInt8).toNat = 48 := rfl
        omega
      have h1 : step d c = (none, { c with len := c.len + 1, need := digitNat d }) := by
        simp only [step, read, hc, hz, hdig.1, if_true, Nat.zero_mul, Nat.zero_add]
        rw [if_neg (by omega)]
      have h2 := reads_count (c := { c with len := c.len + 1, need := digitNat d }) hc hpos hdig.2 (hfold ▸ hn)
        (by simp only; omega)
      rw [← hfold] at h2
      have h3 := (Reads.cons h1 hgood h2).append (reads_count_cr (.inl hc) (by simp only; omega))
      rw [show c.len + (d :: ds).length + 1 = c.len + 1 + ds.length + 1 by rw [length_cons]; omega]
      exact h3

theorem endArray_eq (c : Scan) : c.endArray = c.endLine 1 c.outer := by
  obtain ⟨state, need, arg, outer, kind, len⟩ := c
  cases outer <;> rfl

theorem endLine_of_ne (c : Scan) (outer : List Nat) (h : n ≠ 1) :
    c.endLine n outer = (none, { c with state := .readingLine, need := n - 1, outer }) := by
  have h1 : closeLine n outer = some (n - 1, outer) := by
    cases outer <;> exact if_neg h
  unfold endLine
  rw [h1]

/-- The bytes `v` are a line of an array. -/
def IsLine (v : List UInt8) : Prop :=
  ∀ c : Scan, c.state = .readingLine → c.len + v.length < 2 ^ 31 → Closes v c c.need c.outer

/-- The lines of an array. -/
theorem closes_lines (hws : ∀ w ∈ ws, IsLine w) (hne : ws ≠ []) (hc : c.state = .readingLine)
    (hn : c.need = ws.length) (hl : c.len + ws.flatten.length < 2 ^ 31) : Closes ws.flatten c 1 c.outer := by
  induction ws generalizing c with
  | nil => exact absurd rfl hne
  | cons w ws ih =>
    simp only [flatten_cons, length_append, length_cons] at hl hn ⊢
    obtain ⟨c', h1, h2⟩ := hws w (by simp) c hc (by omega)
    cases ws with
    | nil =>
      rw [hn] at h2
      exact ⟨c', by simp [h1], by simpa using h2⟩
    | cons w' ws =>
      rw [endLine_of_ne c' c.outer (by simp only [hn, length_cons]; omega), hn] at h2
      refine .after h2 h1 (ih (fun u hu => hws u (by simp [hu])) (by simp) rfl rfl ?_)
      simp only
      omega

/-- An array after its star. -/
theorem closes_array (hc : c.state = .narg) (hz : c.need = 0) (hd : Canonical ds) (hn : decimal ds = ws.length)
    (hws : ∀ w ∈ ws, IsLine w) (hlt : ws.length < 2 ^ 31) (hl : c.len + ds.length + 2 + ws.flatten.length < 2 ^ 31) :
    Closes (ds ++ crlf ++ ws.flatten) c 1 c.outer := by
  have h1 := reads_head hc hz hd (by rw [hn]; exact hlt) (by omega)
  have e : ds ++ crlf ++ ws.flatten = ds ++ [cr] ++ ([lf] ++ ws.flatten) := by simp [crlf]
  rw [e]
  refine .after h1 (by simp [Nat.add_assoc]) ?_
  rw [hn]
  cases ws with
  | nil =>
    refine ⟨{ c with state := .nargCrlf, need := 0, len := c.len + ds.length + 1 + 1 }, rfl, reads_single ?_ ?_⟩
    · rw [← endArray_eq]
      rfl
    · exact good_of_not_digit (by simp only; omega) rfl nofun
  | cons w ws =>
    refine .cons
      rfl (good_of_not_digit (by simp only; omega) rfl nofun) (closes_lines hws (by simp) rfl rfl ?_)
    omega

/-- The nil array after its star. -/
theorem closes_nilArray (hc : c.state = .narg) (hz : c.need = 0) (hl : c.len + 4 < 2 ^ 31) :
    Closes (Byte.sub :: Byte.one :: crlf) c 1 c.outer := by
  refine .cons (d := ⟨.nargNagOne, 0, c.arg, c.outer, c.kind, c.len + 1⟩) ?_ ?_
    (.cons rfl ?_
    (.cons rfl ?_
    ⟨⟨.nargCrlf, 0, c.arg, c.outer, c.kind, c.len + 4⟩, rfl, reads_single ?_ ?_⟩))
  · simp only [step, read, hc, hz]
    rfl
  · exact good_of_not_digit (by omega) rfl (by simp [hc])
  · exact good_of_ne (by simp only; omega) (by simp) (by simp) (by simp)
  · exact good_of_ne (by simp only; omega) (by simp) (by simp) (by simp)
  · exact endArray_eq _
  · exact good_of_ne (by simp only; omega) (by simp) (by simp) (by simp)

theorem value_ne_nil {D : List UInt8 → Prop} (h : Value D v) : v ≠ [] := by
  cases h <;> simp

theorem length_le_flatten (h : ∀ w ∈ ws, w ≠ []) : ws.length ≤ ws.flatten.length := by
  induction ws with
  | nil => simp
  | cons w ws ih =>
    have h1 := length_pos_of_ne_nil (h w (by simp))
    have h2 := ih fun u hu => h u (by simp [hu])
    simp only [length_cons, flatten_cons, length_append]
    omega

theorem cr_notMem_of_text (h : Text s) : Byte.cr ∉ s := fun hm => (h _ hm).1 rfl

theorem cr_notMem_of_integer (h : Integer s) : Byte.cr ∉ s := by
  have hdig : ∀ ds, Digits ds → cr ∉ ds := fun ds hd hm => absurd (hd.2 _ hm) (by decide)
  rcases h with h | ⟨sign, ds, rfl, hs, h⟩
  · exact hdig s h
  · simp only [mem_cons, not_or]
    refine ⟨?_, hdig ds h⟩
    rcases hs with rfl | rfl <;> decide

/-- The state after the byte that starts a value. -/
structure Opens (b : UInt8) (d : Scan) : Prop where
  state : d.state = if b = Byte.usd then .usdNum else if b = Byte.star then .narg else .str
  arg : b = Byte.usd → d.arg = 0
  need : b = Byte.star → d.need = 0

/-- The bytes `v` are a value, inside of an array or not. -/
def IsValue (v : List UInt8) : Prop :=
  ∃ b us, v = b :: us ∧ b ∈ [Byte.plus, Byte.sub, Byte.colon, Byte.usd, Byte.star] ∧
    ∀ d : Scan, Opens b d → d.len + us.length < 2 ^ 31 → Closes us d (if b = Byte.star then 1 else d.need) d.outer

/-- A value that is a line of an array. -/
theorem isLine_of_isValue (h : IsValue v) : IsLine v := by
  obtain ⟨b, us, rfl, hb, hus⟩ := h
  intro c hc hl
  rw [length_cons] at hl
  have hg : Good b c := good_of_ne (by omega) (by simp [hc]) (by simp [hc]) (by simp [hc])
  simp only [mem_cons, not_mem_nil, or_false] at hb
  rcases hb with rfl | rfl | rfl | rfl | rfl
  · refine .cons (d := { c with state := .str, kind := .text, len := c.len + 1 }) ?_ hg
      (hus _ ⟨rfl, (by rintro ⟨⟩), (by rintro ⟨⟩)⟩ (by simp only; omega))
    simp only [step, read, hc]
    rfl
  · refine .cons (d := { c with state := .str, kind := .text, len := c.len + 1 }) ?_ hg
      (hus _ ⟨rfl, (by rintro ⟨⟩), (by rintro ⟨⟩)⟩ (by simp only; omega))
    simp only [step, read, hc]
    rfl
  · refine .cons (d := { c with state := .str, kind := .numStart, len := c.len + 1 }) ?_ hg
      (hus _ ⟨rfl, (by rintro ⟨⟩), (by rintro ⟨⟩)⟩ (by simp only; omega))
    simp only [step, read, hc]
    rfl
  · refine .cons (d := { c with state := .usdNum, arg := 0, kind := .numStart, len := c.len + 1 }) ?_ hg
      (hus _ ⟨rfl, fun _ => rfl, (by rintro ⟨⟩)⟩ (by simp only; omega))
    simp only [step, read, hc]
    rfl
  · refine .cons (d := { c with state := .narg, need := 0, arg := 0, outer := c.need :: c.outer, len := c.len + 1 }) ?_
      hg (hus _ ⟨rfl, (by simp), fun _ => rfl⟩ (by simp only; omega))
    simp only [step, read, hc]
    rfl

/-- A value that is a message. -/
theorem IsValue.closes (h : IsValue v) (hl : v.length < 2 ^ 31) : Closes v init 1 [] := by
  obtain ⟨b, us, rfl, hb, hus⟩ := h
  rw [length_cons] at hl
  have hg : Good b init := good_of_ne (by simp [init]) (by rintro ⟨⟩) (by rintro ⟨⟩) (by rintro ⟨⟩)
  simp only [mem_cons, not_mem_nil, or_false] at hb
  rcases hb with rfl | rfl | rfl | rfl | rfl
  · exact .cons (d := ⟨.str, 1, 0, [], .text, 1⟩) rfl hg (hus _ ⟨rfl, (by rintro ⟨⟩), (by rintro ⟨⟩)⟩ (by simp only; omega))
  · exact .cons (d := ⟨.str, 1, 0, [], .text, 1⟩) rfl hg (hus _ ⟨rfl, (by rintro ⟨⟩), (by rintro ⟨⟩)⟩ (by simp only; omega))
  · exact .cons (d := ⟨.str, 1, 0, [], .numStart, 1⟩) rfl hg (hus _ ⟨rfl, (by rintro ⟨⟩), (by rintro ⟨⟩)⟩ (by simp only; omega))
  · exact .cons (d := ⟨.usdNum, 1, 0, [], .numStart, 1⟩) rfl hg (hus _ ⟨rfl, fun _ => rfl, (by rintro ⟨⟩)⟩ (by simp only; omega))
  · exact .cons (d := ⟨.narg, 0, 0, [], .text, 1⟩) rfl hg (hus _ ⟨rfl, (by simp), fun _ => rfl⟩ (by simp only; omega))

/-- A line of text. -/
theorem isValue_text {b : UInt8} (hb : b ∈ [Byte.plus, Byte.sub, Byte.colon]) (hs : Byte.cr ∉ s) :
    IsValue (b :: s ++ crlf) := by
  simp only [mem_cons, not_mem_nil, or_false] at hb
  refine ⟨b, s ++ crlf, rfl, by simp only [mem_cons]; tauto, fun d hd hl => ?_⟩
  have hlen : d.len + s.length + 2 < 2 ^ 31 := by
    rw [length_append] at hl
    exact hl
  have hstate := hd.state
  rcases hb with rfl | rfl | rfl <;> exact closes_text hstate hs hlen

/-- The parser reads every value of RESP. -/
theorem isValue_of_value (h : Value Canonical v) : IsValue v := by
  induction h with
  | simple h => exact isValue_text (by simp) (cr_notMem_of_text h)
  | error h => exact isValue_text (by simp) (cr_notMem_of_text h)
  | integer h => exact isValue_text (by simp) (cr_notMem_of_integer h)
  | bulk h hlen =>
    refine ⟨usd, _, rfl, by simp, fun d hd hl => closes_bulk hd.state (hd.arg rfl) h.1.2 hlen ?_⟩
    simp only [length_append, crlf, length_cons, length_nil, append_eq] at hl
    omega
  | nilBulk => exact ⟨usd, _, rfl, by simp, fun d hd hl => closes_nilBulk hd.state (hd.arg rfl) hl⟩
  | array h hlen hvs ih =>
    have hle := length_le_flatten fun v hv => value_ne_nil (hvs v hv)
    refine ⟨star, _, rfl, by simp, fun d hd hl => ?_⟩
    simp only [length_append, crlf, length_cons, length_nil, append_eq] at hl
    exact closes_array hd.state (hd.need rfl) h hlen (fun v hv => isLine_of_isValue (ih v hv)) (by omega) (by omega)
  | nilArray => exact ⟨star, _, rfl, by simp, fun d hd hl => closes_nilArray hd.state (hd.need rfl) hl⟩

/-- A value is a message of its length. -/
theorem reads_value (h : Value Canonical v) (hl : v.length < 2 ^ 31) :
    ∃ d : Scan, Reads v init (some .ok, d) ∧ d.state = .msgEnd ∧ d.len = v.length := by
  obtain ⟨c, h1, h2⟩ := (isValue_of_value h).closes hl
  exact ⟨{ c with state := .msgEnd }, h2, rfl, by simpa [init] using h1⟩

/-! ### A stream of values -/

variable {P : UInt8 → Scan → Prop} {o : Option ParseRet}

theorem Throughout.of_along (hc : c.state ≠ .msgEnd) (h : Along P step us c) (hf : feeds step us c = (o, d, []))
    (ho : o ≠ some .error) : Throughout P us c := by
  induction us generalizing c with
  | nil => exact trivial
  | cons ch us ih =>
    refine ⟨?_, ?_⟩
    · show P ch c.restart
      rw [restart_of_ne hc]
      exact h.1
    · rcases hs : step ch c with ⟨_ | e, c1⟩
      · rw [stream_of_step hc hs nofun]
        rw [feeds_cons_none hs] at hf
        exact ih (step_ne hs hc) (h.cons_none hs) hf
      · rw [feeds_cons_some hs] at hf
        cases hf
        rw [stream_of_step hc hs ho]
        exact trivial

theorem Throughout.of_restart (h : Throughout P us c.restart) : Throughout P us c := by
  cases us with
  | nil => exact trivial
  | cons ch us =>
    refine ⟨?_, ?_⟩
    · show P ch c.restart
      rw [← restart_restart]
      exact h.1
    · rw [← stream_restart]
      exact h.2

/-- What holds along each message holds along a stream of them. -/
theorem Throughout.flatten (h : ∀ w ∈ ws, IsMessage w ∧ Along P step w init) : Throughout P ws.flatten init := by
  induction ws with
  | nil => exact trivial
  | cons w ws ih =>
    obtain ⟨⟨d, hd⟩, hw⟩ := h w mem_cons_self
    have hgo : init.state ≠ .msgEnd := nofun
    refine Along.append (Throughout.of_along hgo hw hd nofun) (feeds_stream hgo hd nofun) (Throughout.of_restart ?_)
    rw [Scan.restart, if_pos (feeds_ok hd)]
    exact ih fun u hu => h u (mem_cons_of_mem w hu)

/-- In a stream of values all numbers are in range, and no byte is skipped. -/
theorem throughout_values (h : ∀ w ∈ ws, Value Canonical w ∧ w.length < 2 ^ 31) :
    Throughout Good ws.flatten init := by
  refine Throughout.flatten fun w hw => ?_
  obtain ⟨d, hr, -, -⟩ := reads_value (h w hw).1 (h w hw).2
  exact ⟨⟨d, hr.1⟩, hr.2⟩

/-- The reader takes `v` as one message. -/
def Accepts (v : List UInt8) : Prop :=
  ∃ d : Scan, feeds step v init = (some .ok, d, []) ∧ d.state = .msgEnd ∧ d.len = v.length

theorem accepts_values (h : ∀ w ∈ ws, Value Canonical w ∧ w.length < 2 ^ 31) : ∀ w ∈ ws, Accepts w := by
  intro w hw
  obtain ⟨d, hr, hd⟩ := reads_value (h w hw).1 (h w hw).2
  exact ⟨d, hr.1, hd⟩

/-- The beginning of a stream of messages: a part of the first one, or the first one. -/
theorem accepts_cut (hws : ∀ w ∈ ws, Accepts w) (hf : feeds step us init = (o, d, [])) (hp : us <+: ws.flatten) :
    (o = none ∧ ∀ w ∈ ws.head?, us.length < w.length) ∨
      ∃ ws', ws = us :: ws' ∧ o = some .ok ∧ d.state = .msgEnd ∧ d.len = us.length := by
  cases ws with
  | nil =>
    simp only [flatten_nil, prefix_nil] at hp
    rw [hp] at hf
    cases hf
    exact .inl ⟨rfl, nofun⟩
  | cons w ws =>
    obtain ⟨dw, h1, h2, h3⟩ := hws w (by simp)
    rcases feeds_cut h1 hp with ⟨s', h4, h5⟩ | ⟨r, h4, h5⟩
    · rw [hf] at h4
      cases h4
      exact .inl ⟨rfl, by simpa using h5⟩
    · rw [hf] at h5
      cases h5
      rw [append_nil] at h4
      rw [h4]
      exact .inr ⟨ws, rfl, rfl, h2, h3⟩

end

end Scan

namespace RedisMsg

section

variable {a a' : Mark} {bs rest : List UInt8} {calls : List Call} {ws : List (List UInt8)}

theorem endsBy_of_lt {p : Int} {k : Nat} (h : ∀ w ∈ ws.head?, k < w.length) : endsBy p k ws = [] := by
  cases ws with
  | nil => rfl
  | cons w ws => exact if_neg (by have := h w rfl; omega)

/-- The calls for a part of a stream of messages, of which `us` has been read before and `ws` are the messages. -/
theorem Trace.ends (h : Trace a bs calls a' rest) (us : List UInt8) (p : Int)
    (hws : ∀ w ∈ ws, Scan.Accepts w) (hus : feeds Scan.step us Scan.init = (none, a.c, []))
    (hq : a.q = p + us.length) (hp : us ++ bs <+: ws.flatten) :
    (∀ call ∈ calls, call.iRet = .ok) ∧
      (rest = [] → (calls.filter Call.isEnd).map (fun call => (call.msg.this.szNowPos, call.msg.this.iLen)) =
        endsBy p (us.length + bs.length) ws) := by
  induction h generalizing us p ws with
  | nil =>
    refine ⟨by simp, fun hrest => ?_⟩
    rw [hrest, append_nil] at hp
    rcases Scan.accepts_cut hws hus hp with ⟨-, h1⟩ | ⟨-, -, h1, -⟩
    · rw [hrest, length_nil, Nat.add_zero, endsBy_of_lt h1]
      rfl
    · cases h1
  | @fail a d vs rs call hf hc =>
    rw [← append_assoc] at hp
    rcases Scan.accepts_cut hws ((feeds_append hus).trans hf) ((prefix_append _ rs).trans hp) with
      ⟨h1, -⟩ | ⟨-, -, h1, -⟩
    · cases h1
    · cases h1
  | @cons a a' d vs rs rest o call calls hf ho hc ht ih =>
    rw [← append_assoc] at hp
    have hf' := (feeds_append hus).trans hf
    rcases Scan.accepts_cut hws hf' ((prefix_append _ rs).trans hp) with ⟨rfl, -⟩ | ⟨ws', rfl, rfl, h1, h2⟩
    · -- the message goes on
      have ht' := (hc.again (.inl rfl)).1
      have hend : call.isEnd = false := beq_eq_false_iff_ne.mpr ht'.ready.sane.notEnd
      have hnext : (a.next vs d call).c = d := Scan.restart_of_ne ht'.ne_msgEnd
      obtain ⟨h3, h4⟩ := ih (us ++ vs) p hws (by rw [hnext]; exact hf')
        (by simp only [Mark.next, hq, length_append]; push_cast; omega) hp
      refine ⟨?_, ?_⟩
      · intro c hm
        rcases mem_cons.mp hm with rfl | hm
        · exact hc.ret
        · exact h3 c hm
      · intro hrest
        rw [filter_cons_of_neg (by rw [hend]; simp), h4 hrest]
        simp only [length_append, Nat.add_assoc]
    · -- it ends here
      obtain ⟨he, hpos⟩ := hc.ended rfl
      have hend : call.isEnd = true := beq_iff_eq.mpr he.atEnd.state
      have hnext : (a.next vs d call).c = Scan.init := if_pos h1
      rw [flatten_cons, prefix_append_right_inj] at hp
      obtain ⟨h3, h4⟩ := ih [] (p + (us ++ vs).length) (fun w hw => hws w (by simp [hw]))
        (by rw [hnext]; rfl) (by simp only [Mark.next, hq, length_append, length_nil]; push_cast; omega) hp
      refine ⟨?_, ?_⟩
      · intro c hm
        rcases mem_cons.mp hm with rfl | hm
        · exact hc.ret
        · exact h3 c hm
      · intro hrest
        rw [filter_cons_of_pos hend, map_cons, h4 hrest]
        have hk : us.length + (vs ++ rs).length - (us ++ vs).length = rs.length := by
          simp only [length_append]
          omega
        rw [endsBy, if_pos (by simp only [length_append]; omega), hk, hpos, hq, he.len, h2, length_nil,
          Nat.zero_add, add_assoc, ← Nat.cast_add, ← length_append]

end

/-- A stream of messages that the reader accepts is parsed, in whatever chunks it arrives. -/
theorem feedAll_accepted (rd : Int → UInt8) (base : Int) (vs : List (List UInt8)) (lens : List Nat)
    (hall : Scan.Throughout Scan.Good vs.flatten Scan.init) (hacc : ∀ v ∈ vs, Scan.Accepts v)
    (hlens : ∀ len ∈ lens, 0 < len ∧ len < 2 ^ 31)
    (hbytes : bytesAt rd base vs.flatten.length = vs.flatten) (hsum : lens.sum ≤ vs.flatten.length) :
    ∃ calls, feedAll rd (init base) lens = some calls ∧ (∀ call ∈ calls, call.iRet = .ok) ∧
      (calls.filter Call.isEnd).map (fun call => (call.msg.this.szNowPos, call.msg.this.iLen)) =
        endsBy base lens.sum vs := by
  obtain ⟨k, hk⟩ := Nat.exists_eq_add_of_le hsum
  have hpre : bytesAt rd base lens.sum <+: vs.flatten := by
    rw [← hbytes, hk, bytesAt_add]
    exact prefix_append _ _
  have hgood : Scan.Throughout Scan.Good (bytesAt rd base lens.sum) Scan.init := by
    obtain ⟨t, ht⟩ := hpre
    rw [← ht] at hall
    exact hall.left
  have hskip : Scan.Throughout (fun b c => ¬ Scan.Skips b c) (bytesAt rd base lens.sum) Scan.init :=
    Along.mono (fun _ _ h => h.2) hgood
  obtain ⟨calls, a', rest, h1, h2, h3⟩ := feedAll_init rd base lens (fun len hm => (hlens len hm).2)
    (Along.mono (fun _ _ h => h.1) hgood) (.inl hskip)
  obtain ⟨hok, hends⟩ := h2.ends [] base hacc rfl (by simp) hpre
  have hlives : Lives calls := by
    intro call hm
    rw [hok call (mem_of_getLast? hm)]
    exact nofun
  refine ⟨calls, h1, hok, ?_⟩
  rw [hends (h3 hlives hskip), bytesAt_length, length_nil, Nat.zero_add]

/-- Every stream of RESP values is parsed, in whatever chunks it arrives: no call fails, and the parser is at the end
of a message exactly at the last byte of each value, with the length of the value. -/
theorem values_parsed (rd : Int → UInt8) (base : Int) (vs : List (List UInt8)) (lens : List Nat)
    (hvs : ∀ v ∈ vs, Value Canonical v ∧ v.length < 2 ^ 31) (hlens : ∀ len ∈ lens, 0 < len ∧ len < 2 ^ 31)
    (hbytes : bytesAt rd base vs.flatten.length = vs.flatten) (hsum : lens.sum ≤ vs.flatten.length) :
    ∃ calls, feedAll rd (init base) lens = some calls ∧ (∀ call ∈ calls, call.iRet = .ok) ∧
      (calls.filter Call.isEnd).map (fun call => (call.msg.this.szNowPos, call.msg.this.iLen)) =
        endsBy base lens.sum vs :=
  feedAll_accepted rd base vs lens (Scan.throughout_values hvs) (Scan.accepts_values hvs) hlens hbytes hsum

theorem values_parsed_nested : ∃ calls,
    feedAll (memoryOf "+OK\r\n*2\r\n$0\r\n\r\n*-1\r\n") (init 0) [3, 13, 4] = some calls ∧
      (∀ call ∈ calls, call.iRet = .ok) ∧
      (calls.filter Call.isEnd).map (fun call => (call.msg.this.szNowPos, call.msg.this.iLen)) = [(5, 5), (20, 15)] := by
  have h1 : Value Canonical (plus :: [79, 75] ++ crlf) := .simple (by unfold Text; decide +kernel)
  have h2 : Value Canonical (usd :: [48] ++ crlf ++ [] ++ crlf) := .bulk ⟨⟨by simp, by decide +kernel⟩, by decide +kernel⟩ rfl
  have h3 : Value Canonical (star :: [50] ++ crlf ++
      [Byte.usd :: [48] ++ crlf ++ [] ++ crlf, Byte.star :: Byte.sub :: Byte.one :: crlf].flatten) := by
    refine .array ⟨⟨by simp, by decide +kernel⟩, by decide +kernel⟩ rfl fun v hv => ?_
    simp only [mem_cons, not_mem_nil, or_false] at hv
    rcases hv with rfl | rfl
    · exact h2
    · exact .nilArray
  refine values_parsed (memoryOf "+OK\r\n*2\r\n$0\r\n\r\n*-1\r\n") 0 [plus :: [79, 75] ++ crlf, star :: [50] ++ crlf ++
      [Byte.usd :: [48] ++ crlf ++ [] ++ crlf, Byte.star :: Byte.sub :: Byte.one :: crlf].flatten] [3, 13, 4]
    (fun v hv => ?_) (by decide) (by decide) (by decide)
  simp only [mem_cons, not_mem_nil, or_false] at hv
  rcases hv with rfl | rfl
  · exact ⟨h1, by decide⟩
  · exact ⟨h3, by decide⟩

end RedisMsg

end RedisProxy
