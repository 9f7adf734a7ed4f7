import RedisProxy.ClusterSlots
import RedisProxy.Proofs.PackageMsgProofs

/-!
# Proofs: the answer to `CLUSTER SLOTS`

The text is one value, for the parser of the proxy and for a reader that returns its contents. Its ranges
are the three that are printed, the last of which is empty.
-/

namespace RedisProxy

open List Byte

open Resp

/-! ## Reading a reply -/

section Reads

variable {n : Nat} {s ds bs : List UInt8}
variable {vs : List (List UInt8)} {ts : List Tree}

theorem splitCrlf_eq (hs : Byte.cr ∉ s) : splitCrlf (s ++ crlf ++ bs) = some (s, bs) := by
  induction s with
  | nil => rfl
  | cons a s ih =>
    rw [mem_cons, not_or] at hs
    have ih := ih hs.2
    cases hrest : s ++ crlf ++ bs with
    | nil => simp [crlf] at hrest
    | cons b rest =>
      rw [hrest] at ih
      rw [cons_append, cons_append, hrest, splitCrlf, if_neg fun h => hs.1 h.1.symm, ih]
      rfl

theorem reads_line {b : UInt8} (hb : b ∈ [Byte.plus, Byte.sub, Byte.colon]) (hs : Byte.cr ∉ s) :
    Reads (n + 1) (b :: s ++ crlf) (.line b s) := by
  intro bs
  have hb' : b ≠ usd ∧ b ≠ star := by
    simp only [mem_cons, not_mem_nil, or_false] at hb
    rcases hb with rfl | rfl | rfl <;> decide
  rw [cons_append, cons_append, readValue, splitCrlf_eq hs]
  dsimp only
  rw [if_neg hb'.1, if_neg hb'.2]

theorem reads_bulk (hds : Byte.cr ∉ ds) (hlen : decimal ds = s.length) :
    Reads (n + 1) (Byte.usd :: ds ++ crlf ++ s ++ crlf) (.bulk s) := by
  intro bs
  have htext : usd :: ds ++ crlf ++ s ++ crlf ++ bs = usd :: (ds ++ crlf ++ (s ++ crlf ++ bs)) := by simp
  have htake : (s ++ crlf ++ bs).take (s.length + 2) = s ++ crlf := take_left' (by simp [crlf])
  have hdrop : (s ++ crlf ++ bs).drop (s.length + 2) = bs := drop_left' (by simp [crlf])
  have hs : (s ++ crlf ++ bs).take s.length = s := by rw [append_assoc, take_left]
  rw [htext, readValue, splitCrlf_eq hds]
  dsimp only
  rw [if_pos rfl, hlen, htake, hs, if_pos rfl, hdrop]

theorem readMany_eq (h : List.Forall₂ (Reads n) vs ts) (bs : List UInt8) :
    readMany (readValue n) vs.length (vs.flatten ++ bs) = some (ts, bs) := by
  induction h with
  | nil => rfl
  | @cons v t vs ts hv _ ih =>
    rw [length_cons, readMany, flatten_cons, append_assoc, hv]
    dsimp only
    rw [ih]
    rfl

theorem reads_array (hds : Byte.cr ∉ ds) (hlen : decimal ds = vs.length) (h : List.Forall₂ (Reads n) vs ts) :
    Reads (n + 1) (Byte.star :: ds ++ crlf ++ vs.flatten) (.array ts) := by
  intro bs
  have htext : star :: ds ++ crlf ++ vs.flatten ++ bs = star :: (ds ++ crlf ++ (vs.flatten ++ bs)) := by simp
  rw [htext, readValue, splitCrlf_eq hds]
  dsimp only
  rw [if_neg (by decide), if_pos rfl, hlen, readMany_eq h]
  rfl

end Reads

/-! ## The text -/

namespace ClusterSlots

variable {szIp : List UInt8} {usPort : UInt16} {id : List UInt8} {first last : Nat}

theorem intText_spec (k n : Nat) : Value Canonical (intText k) ∧ Reads (n + 1) (intText k) (.line Byte.colon (decimalText k)) :=
  ⟨.integer (.inl (decimalText_spec k).1.1), reads_line (by decide) (decimalText_notMem k rfl)⟩

theorem bulkText_spec (s : List UInt8) (n : Nat) : Value Canonical (bulkText s) ∧ Reads (n + 1) (bulkText s) (.bulk s) :=
  ⟨.bulk (decimalText_spec _).1 (decimalText_spec _).2, reads_bulk (decimalText_notMem _ rfl) (decimalText_spec _).2⟩

/-- A count of one digit. -/
theorem canonical_three : Canonical [51] := ⟨⟨by decide, by decide +kernel⟩, by decide⟩

theorem idText_spec (h : id.length = 40) (n : Nat) : Value Canonical (idText id) ∧ Reads (n + 1) (idText id) (.bulk id) := by
  have hd : decimal [52, 48] = id.length := h.symm
  exact ⟨.bulk ⟨⟨by decide, by decide +kernel⟩, by decide +kernel⟩ hd, reads_bulk (by decide) hd⟩

/-- An array of three values. -/
theorem array_three {v₁ v₂ v₃ : List UInt8} {t₁ t₂ t₃ : Tree} {n : Nat} (h₁ : Value Canonical v₁ ∧ Reads n v₁ t₁)
    (h₂ : Value Canonical v₂ ∧ Reads n v₂ t₂) (h₃ : Value Canonical v₃ ∧ Reads n v₃ t₃) :
    Value Canonical (star3 ++ [v₁, v₂, v₃].flatten) ∧ Reads (n + 1) (star3 ++ [v₁, v₂, v₃].flatten) (.array [t₁, t₂, t₃]) := by
  constructor
  · refine .array canonical_three rfl fun v hv => ?_
    simp only [mem_cons, not_mem_nil, or_false] at hv
    rcases hv with rfl | rfl | rfl
    · exact h₁.1
    · exact h₂.1
    · exact h₃.1
  · exact reads_array (by decide) rfl (.cons h₁.2 (.cons h₂.2 (.cons h₃.2 .nil)))

/-- What a client reads for a node. -/
def nodeTree (first last : Nat) (szIp : List UInt8) (usPort : UInt16) (id : List UInt8) : Tree :=
  .array [.line Byte.colon (decimalText first), .line Byte.colon (decimalText last),
    .array [.bulk szIp, .line Byte.colon (decimalText usPort.toNat), .bulk id]]

theorem nodeText_spec (h : id.length = 40) : Value Canonical (nodeText first last szIp usPort id) ∧
    Reads 3 (nodeText first last szIp usPort id) (nodeTree first last szIp usPort id) := by
  have hnode := array_three (bulkText_spec szIp 0) (intText_spec usPort.toNat 0) (idText_spec h 0)
  have hentry := array_three (intText_spec first 1) (intText_spec last 1) hnode
  have htext : nodeText first last szIp usPort id = star3 ++ [intText first, intText last,
      star3 ++ [bulkText szIp, intText usPort.toNat, idText id].flatten].flatten := by
    simp [nodeText]
  rw [htext]
  exact hentry

/-- The whole text. -/
def text (szIp : List UInt8) (p : UInt16 × UInt16 × UInt16) : List UInt8 :=
  star3 ++ [nodeText 0 5460 szIp p.1 szNodeId, nodeText 5461 10922 szIp p.2.1 szNodeId1,
    nodeText 10923 10383 szIp p.2.2 szNodeId2].flatten

/-- What a client reads. -/
def tree (szIp : List UInt8) (p : UInt16 × UInt16 × UInt16) : Tree :=
  .array [nodeTree 0 5460 szIp p.1 szNodeId, nodeTree 5461 10922 szIp p.2.1 szNodeId1, nodeTree 10923 10383 szIp p.2.2 szNodeId2]

theorem text_spec (szIp : List UInt8) (p : UInt16 × UInt16 × UInt16) :
    Value Canonical (text szIp p) ∧ Reads 4 (text szIp p) (tree szIp p) :=
  array_three (nodeText_spec rfl) (nodeText_spec rfl) (nodeText_spec rfl)

theorem slotRanges_tree (szIp : List UInt8) (p : UInt16 × UInt16 × UInt16) :
    slotRanges (tree szIp p) = [(0, 5460), (5461, 10922), (10923, 10383)] := by
  simp [tree, nodeTree, slotRanges, (decimalText_spec _).2]

/-- The third range is empty. -/
theorem ranges_count (x : Nat) :
    (([(0, 5460), (5461, 10922), (10923, 10383)] : List (Nat × Nat)).filter fun r => decide (r.1 ≤ x ∧ x ≤ r.2)).length = 1 ↔
      x ≤ 10922 := by
  have h₃ : decide (10923 ≤ x ∧ x ≤ 10383) = false := decide_eq_false (by omega)
  simp only [filter_cons, filter_nil, h₃]
  by_cases h₁ : x ≤ 5460
  · have h₂ : decide (5461 ≤ x ∧ x ≤ 10922) = false := decide_eq_false (by omega)
    simp [h₁, h₂]
    omega
  · simp only [h₁, and_false, decide_false]
    by_cases h₂ : x ≤ 10922
    · simp [h₂, show 5461 ≤ x by omega]
    · simp [h₂]

/-- The text fits into the block. -/
def Fits (szIp : List UInt8) (p : UInt16 × UInt16 × UInt16) : Prop :=
  3 * (szIp.length + (decimalText szIp.length).length) + (decimalText p.1.toNat).length + (decimalText p.2.1.toNat).length +
    (decimalText p.2.2.toNat).length + 235 < 2048

theorem length_nodeText (h : id.length = 40) : (nodeText first last szIp usPort id).length =
    (decimalText first).length + (decimalText last).length + (szIp.length + (decimalText szIp.length).length) +
      (decimalText usPort.toNat).length + 69 := by
  simp only [nodeText, star3, intText, bulkText, idText, crlf, length_append, length_cons, length_nil, h]
  omega

theorem length_text (szIp : List UInt8) (p : UInt16 × UInt16 × UInt16) :
    (text szIp p).length = 3 * (szIp.length + (decimalText szIp.length).length) + (decimalText p.1.toNat).length +
      (decimalText p.2.1.toNat).length + (decimalText p.2.2.toNat).length + 235 := by
  have hdigits : (decimalText 0).length = 1 ∧ (decimalText 5460).length = 4 ∧ (decimalText 5461).length = 4 ∧
      (decimalText 10922).length = 5 ∧ (decimalText 10923).length = 5 ∧ (decimalText 10383).length = 5 := by
    simp [decimalText]
  obtain ⟨h₁, h₂, h₃, h₄, h₅, h₆⟩ := hdigits
  simp only [text, star3, crlf, length_append, length_cons, length_nil, flatten_cons, flatten_nil]
  rw [length_nodeText (by decide), length_nodeText (by decide), length_nodeText (by decide),
    h₁, h₂, h₃, h₄, h₅, h₆]
  omega

/-- `ClusterSlots` writes the text if there is room for it. -/
theorem clusterSlots_eq (mem : Int → UInt8) (cmd : Int) (szIp : List UInt8) (usPort : UInt16) (b : Bool) :
    (Fits szIp (ports usPort b) → ∃ mem', MsgProcess.clusterSlots mem cmd szIp usPort b =
        some (mem', ((text szIp (ports usPort b)).length : Int)) ∧
      bytesAt mem' cmd (text szIp (ports usPort b)).length = text szIp (ports usPort b)) ∧
    (¬Fits szIp (ports usPort b) → MsgProcess.clusterSlots mem cmd szIp usPort b = none) := by
  obtain ⟨p₁, p₂, p₃, hp⟩ : ∃ p₁ p₂ p₃, ports usPort b = (p₁, p₂, p₃) := ⟨_, _, _, rfl⟩
  have htext : text szIp (p₁, p₂, p₃) = star3 ++ nodeText 0 5460 szIp p₁ szNodeId ++ nodeText 5461 10922 szIp p₂ szNodeId1 ++
      nodeText 10923 10383 szIp p₃ szNodeId2 := by
    simp [text]
  have hlen := length_text szIp (p₁, p₂, p₃)
  unfold MsgProcess.clusterSlots
  rw [hp]
  dsimp only
  rw [← htext]
  constructor
  · intro hf
    have hlt : (text szIp (p₁, p₂, p₃)).length < 2048 := by
      rw [hlen]
      exact hf
    have hparts := hlt
    rw [htext] at hparts
    simp only [length_append] at hparts
    have h₀ : Written mem cmd [] ⟨mem, 0⟩ := ⟨rfl, rfl, fun _ _ => rfl⟩
    have h₁ := h₀.write (star3 ++ nodeText 0 5460 szIp p₁ szNodeId) [0] le_rfl
      (by simp only [nil_append, length_append]; omega)
    have h₂ := h₁.write (nodeText 5461 10922 szIp p₂ szNodeId1) [0] le_rfl
      (by simp only [nil_append, length_append]; omega)
    have h₃ := h₂.write (nodeText 10923 10383 szIp p₃ szNodeId2) [0] le_rfl
      (by simp only [nil_append, length_append]; omega)
    rw [nil_append, ← htext] at h₃
    rw [if_pos hlt]
    generalize hs : (((PackageMsg.Cmd.mk mem 0).sprintf cmd _).sprintf cmd _).sprintf cmd _ = s
    have hw : Written mem cmd (text szIp (p₁, p₂, p₃)) s := by
      rw [← hs]
      exact h₃
    refine ⟨writeAt s.mem (cmd + s.pos) [0], by rw [hw.pos], ?_⟩
    rw [bytesAt_congr fun a _ ha => writeAt_of_not (.inl (by rw [hw.pos]; exact ha))]
    exact hw.bytes
  · intro hf
    rw [if_neg]
    rw [hlen]
    exact hf

end ClusterSlots

open ClusterSlots

/-- If the reply holds the slot of a key, it fits into its block and the slot is in one of the first two ranges. -/
theorem SlotCovered.range (h : SlotCovered mem cmd szIp usPort b key) :
    Fits szIp (ports usPort b) ∧ (keyHashSlot key).toNat ≤ 10922 := by
  obtain ⟨hfits, hlong⟩ := clusterSlots_eq mem cmd szIp usPort b
  obtain ⟨-, hreads⟩ := text_spec szIp (ports usPort b)
  obtain ⟨mem', used, calls, t, hslots, -, -, -, hread, hone⟩ := h
  by_cases hf : Fits szIp (ports usPort b)
  · refine ⟨hf, ?_⟩
    obtain ⟨mem₁, hslots₁, hbytes⟩ := hfits hf
    obtain ⟨rfl, hused⟩ := Prod.mk.inj (Option.some.inj (hslots.symm.trans hslots₁))
    have hused : used = (text szIp (ports usPort b)).length := Int.ofNat.inj hused
    have htree := hreads []
    rw [append_nil, ← hbytes, ← hused, hread] at htree
    obtain rfl : t = tree szIp (ports usPort b) := (Prod.mk.inj (Option.some.inj htree)).1
    rw [slotRanges_tree] at hone
    exact (ranges_count _).mp hone
  · rw [hlong hf] at hslots
    cases hslots

/-- The slot of a key is in exactly one range of the reply to `CLUSTER SLOTS` if and only if it is in one of the
first two ranges, and the reply fits into its block. -/
theorem slotCovered_iff (mem : Int → UInt8) (cmd : Int) (szIp : List UInt8) (usPort : UInt16) (b : Bool) (key : List UInt8) :
    SlotCovered mem cmd szIp usPort b key ↔ Fits szIp (ports usPort b) ∧ (keyHashSlot key).toNat ≤ 10922 := by
  obtain ⟨hfits, -⟩ := clusterSlots_eq mem cmd szIp usPort b
  obtain ⟨hvalue, hreads⟩ := text_spec szIp (ports usPort b)
  constructor
  · exact SlotCovered.range
  · rintro ⟨hf, hle⟩
    obtain ⟨mem', hslots, hbytes⟩ := hfits hf
    obtain ⟨n, hn⟩ : ∃ n, n = (text szIp (ports usPort b)).length := ⟨_, rfl⟩
    have hlt : n < 2048 := by
      rw [hn, length_text]
      exact hf
    have hpos : 0 < n := by
      rw [hn, length_text]
      omega
    rw [← hn] at hslots hbytes
    have hv : ∀ w ∈ [text szIp (ports usPort b)], Value Canonical w ∧ w.length < 2 ^ 31 := by
      simpa using ⟨hvalue, by omega⟩
    obtain ⟨calls, hfeed, hok, hends⟩ := RedisMsg.feedAll_accepted mem' cmd _ [n] (Scan.throughout_values hv)
      (Scan.accepts_values hv) (by simpa using ⟨hpos, by omega⟩) (by simpa [← hn] using hbytes) (by simp [← hn])
    refine ⟨mem', n, calls, tree szIp (ports usPort b), hslots, hfeed, hok, ?_, ?_, ?_⟩
    · rw [hends]
      simp [RedisMsg.endsBy, ← hn]
    · rw [hbytes, ← append_nil (text _ _)]
      exact hreads []
    · rw [slotRanges_tree]
      exact (ranges_count _).mpr hle

/-- The key `foo` has slot 12182: no range of the reply holds it. -/
theorem foo_not_covered : ¬SlotCovered (fun _ => 0) 0 (ascii "127.0.0.1") 6379 false (ascii "foo") := by
  intro h
  have hslot : keyHashSlot (ascii "foo") = 12182 := by decide
  have hle := h.range.2
  exact absurd hle (by decide)

end RedisProxy
