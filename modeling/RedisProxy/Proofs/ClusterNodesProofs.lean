import RedisProxy.ClusterNodes
import RedisProxy.Proofs.CStringProofs
import RedisProxy.Proofs.ClusterRouteProofs

/-!
# The nodes in the table

A line is read once with its fields as they were printed. The last line is read a second time, because
`GR_SplitLine` returns it twice; by then its address has been cut at the colon, so the second reading
fails. Each line is changed within its own bytes only.
-/

namespace RedisProxy

open List Option Function Byte

open Resp

/-! ## Pieces -/

section Split

variable {rd : Int → UInt8} {dot : UInt8} {szSrc : Int} {n : Nat}
variable {i k l : Nat} {a : Int} {s : List UInt8} {ss : List (List UInt8)}

/-- The places of the pieces `ss`, the first of which starts at `p`; a separator follows each of them. -/
def places (p : Int) : List (List UInt8) → List GRString
  | [] => []
  | s :: ss => ⟨p, s.length⟩ :: places (p + s.length + 1) ss

theorem places_length (p : Int) (ss : List (List UInt8)) : (places p ss).length = ss.length := by
  induction ss generalizing p with
  | nil => rfl
  | cons s ss ih => rw [places, length_cons, ih, length_cons]

/-- A piece without separator. -/
theorem splitLoop_word {w : List UInt8} (hw : Holds rd (szSrc + i) w) (hdot : dot ∉ w) :
    splitLoop rd dot szSrc n (w.length + k) i ⟨a, l⟩ = splitLoop rd dot szSrc n k (i + w.length) ⟨a, l + w.length⟩ := by
  induction w generalizing i l with
  | nil => simp
  | cons c w ih =>
    obtain ⟨hc, hrest⟩ := holds_cons.mp hw
    simp only [mem_cons, not_or] at hdot
    have hrest' : Holds rd (szSrc + ((i + 1 : Nat) : Int)) w := by
      rw [Nat.cast_succ, ← add_assoc]
      exact hrest
    rw [length_cons, Nat.add_right_comm, splitLoop, hc, if_neg (Ne.symm hdot.1), ih hrest' hdot.2]
    simp only [Nat.add_comm, Nat.add_left_comm]

/-- The pieces without an empty one at the end. -/
def dropEmptyEnd (ss : List (List UInt8)) : List (List UInt8) := if ss.getLast? = some [] then ss.dropLast else ss

theorem dropEmptyEnd_cons (hss : ss ≠ []) : dropEmptyEnd (s :: ss) = s :: dropEmptyEnd ss := by
  unfold dropEmptyEnd
  rw [getLast?_cons_of_ne_nil hss, dropLast_cons_of_ne_nil hss]
  split_ifs <;> rfl

/-- What `GR_SplitLine` returns for the pieces `ss`: their places, and the last of them once more if a separator ends the
text. -/
def splitPlaces (a : Int) (ss : List (List UInt8)) : List GRString :=
  places a (dropEmptyEnd ss) ++
    if ss.getLast? = some [] ∧ (dropEmptyEnd ss).getLast? ≠ some [] then (places a (dropEmptyEnd ss)).getLast?.toList else []

theorem splitPlaces_cons (hss : ss ≠ []) (hne : ss ≠ [[]]) (a : Int) :
    splitPlaces a (s :: ss) = ⟨a, s.length⟩ :: splitPlaces (a + s.length + 1) ss := by
  obtain ⟨t, ts, hcons⟩ : ∃ t ts, dropEmptyEnd ss = t :: ts := by
    refine exists_cons_of_ne_nil fun hnil => ?_
    obtain ⟨t, ts, rfl⟩ := exists_cons_of_ne_nil hss
    cases ts with
    | nil => simp_all [dropEmptyEnd]
    | cons t' ts => simp [dropEmptyEnd_cons] at hnil
  unfold splitPlaces
  rw [dropEmptyEnd_cons hss, getLast?_cons_of_ne_nil hss, hcons]
  rfl

/-- The rest of the loop, when the piece `s` has been read: each of the pieces `ss` follows a separator. -/
theorem splitLoop_pieces (hdot : ∀ s ∈ ss, dot ∉ s) (hb : Holds rd (szSrc + i) (ss.flatMap (dot :: ·)))
    (hlen : i + (ss.flatMap (dot :: ·)).length = n) (ha : a + s.length = szSrc + i) :
    splitLoop rd dot szSrc n (ss.flatMap (dot :: ·)).length i ⟨a, s.length⟩ = splitPlaces a (s :: ss) := by
  induction ss generalizing i s a with
  | nil =>
    cases s with
    | nil => rfl
    | cons c s => simp [splitLoop, splitPlaces, dropEmptyEnd, places]
  | cons t ss ih =>
    rw [flatMap_cons, cons_append, holds_cons, holds_append] at hb
    obtain ⟨hdot0, ht, hrest⟩ := hb
    obtain ⟨htdot, hdot⟩ := forall_mem_cons.mp hdot
    rw [flatMap_cons, cons_append, length_cons, length_append] at hlen ⊢
    rw [splitLoop, if_pos hdot0]
    by_cases hend : t :: ss = [[]]
    · cases hend
      have hn : i + 1 = n := hlen
      rw [if_neg (not_not.mpr hn)]
      cases s with
      | nil => rfl
      | cons c s => simp [splitLoop, splitPlaces, dropEmptyEnd, places]
    · have hlast : i + 1 ≠ n := by
        intro hn
        have h0 : t.length + (ss.flatMap (dot :: ·)).length = 0 := by omega
        cases ss with
        | nil => exact hend (by rw [length_eq_zero_iff.mp (Nat.eq_zero_of_add_eq_zero_right h0)])
        | cons t' ss => simp at h0
      have ht' : Holds rd (szSrc + ((i + 1 : Nat) : Int)) t := by
        rw [Nat.cast_succ, ← add_assoc]
        exact ht
      have hrest' : Holds rd (szSrc + ((i + 1 + t.length : Nat) : Int)) (ss.flatMap (dot :: ·)) := by
        rw [Nat.cast_add, Nat.cast_succ, ← add_assoc, ← add_assoc]
        exact hrest
      rw [if_pos hlast, splitLoop_word ht' htdot, Nat.zero_add, splitPlaces_cons (cons_ne_nil _ _) hend,
        ih hdot hrest' (by omega) (by push_cast; omega), ← ha]

/-- `GR_SplitLine` of a text with the pieces `s :: ss`. -/
theorem splitLine_eq (hdot : ∀ t ∈ s :: ss, dot ∉ t) (hb : Holds rd szSrc (s ++ ss.flatMap (dot :: ·))) :
    splitLine rd szSrc (s ++ ss.flatMap (dot :: ·)).length dot = splitPlaces szSrc (s :: ss) := by
  obtain ⟨hsdot, hdot⟩ := forall_mem_cons.mp hdot
  obtain ⟨hs, hrest⟩ := holds_append.mp hb
  have hloop := splitLoop_pieces (i := s.length) (s := s) hdot hrest
    (length_append ..).symm rfl
  rw [← hloop, splitLine]
  split_ifs with hnil
  · rw [length_eq_zero_iff, append_eq_nil_iff] at hnil
    rw [hnil.1, hnil.2]
    rfl
  · have hs' : Holds rd (szSrc + ((0 : Nat) : Int)) s := by simpa using hs
    nth_rewrite 2 [length_append]
    rw [splitLoop_word hs' hsdot, Nat.zero_add]

/-- A text of pieces, and one that ends with a separator. -/
theorem splitLine_pieces (hne : ∀ t ∈ s :: ss, t ≠ []) (hdot : ∀ t ∈ s :: ss, dot ∉ t)
    (hb : Holds rd szSrc (s ++ ss.flatMap (dot :: ·))) :
    splitLine rd szSrc (s ++ ss.flatMap (dot :: ·)).length dot = places szSrc (s :: ss) := by
  have hlast : (s :: ss).getLast? ≠ some [] := fun h => hne [] (mem_of_getLast? h) rfl
  rw [splitLine_eq hdot hb, splitPlaces, dropEmptyEnd, if_neg hlast, if_neg fun h => hlast h.1, append_nil]

theorem splitLine_lines (hne : ∀ t ∈ s :: ss, t ≠ []) (hdot : ∀ t ∈ s :: ss, dot ∉ t)
    (hb : Holds rd szSrc (s ++ ss.flatMap (dot :: ·) ++ [dot])) :
    splitLine rd szSrc (s ++ ss.flatMap (dot :: ·) ++ [dot]).length dot =
      places szSrc (s :: ss) ++ (places szSrc (s :: ss)).getLast?.toList := by
  have htext : s ++ ss.flatMap (dot :: ·) ++ [dot] = s ++ (ss ++ [[]]).flatMap (dot :: ·) := by simp
  have hdot' : ∀ t ∈ s :: (ss ++ [[]]), dot ∉ t := by
    rw [← cons_append, forall_mem_append]
    exact ⟨hdot, by simp⟩
  have hlast : (s :: (ss ++ [[]])).getLast? = some [] := by rw [← cons_append, getLast?_concat]
  have hdrop : dropEmptyEnd (s :: (ss ++ [[]])) = s :: ss := by
    rw [dropEmptyEnd, if_pos hlast, ← cons_append, dropLast_concat]
  rw [htext] at hb ⊢
  rw [splitLine_eq hdot' hb, splitPlaces, hdrop, if_pos]
  exact ⟨hlast, fun h => hne [] (mem_of_getLast? h) rfl⟩

end Split

/-! ## Changes in place -/

section Within

variable {mem mem' mem'' : Int → UInt8} {p q : Int} {n m : Nat}
variable {ss : List (List UInt8)}

/-- The memory is changed in the `n` bytes at `p` only. -/
def Within (p : Int) (n : Nat) (mem mem' : Int → UInt8) : Prop := ∀ a, a < p ∨ p + n ≤ a → mem' a = mem a

theorem Within.rfl : Within p n mem mem := fun _ _ => Eq.refl _

theorem Within.trans (h : Within p n mem mem') (h' : Within p n mem' mem'') : Within p n mem mem'' :=
  fun a ha => (h' a ha).trans (h a ha)

theorem Within.mono (h : Within q m mem mem') (hp : p ≤ q) (hn : q + m ≤ p + n) : Within p n mem mem' :=
  fun a ha => h a (by omega)

theorem Within.update (h : Within p n mem mem') (hp : p ≤ q) (hn : q < p + n) (b : UInt8) :
    Within p n mem (Function.update mem' q b) := by
  intro a ha
  rw [update_of_ne (by omega)]
  exact h a ha

theorem Holds.within {bs : List UInt8} (h : Holds mem p bs) (hw : Within q n mem mem') (hd : p + bs.length ≤ q ∨ q + n ≤ p) :
    Holds mem' p bs :=
  h.congr fun a ha hlt => hw a (by omega)

/-- The pieces `ss` stand at their places. -/
def Pieces (mem : Int → UInt8) (p : Int) : List (List UInt8) → Prop
  | [] => True
  | s :: ss => Holds mem p s ∧ Pieces mem (p + s.length + 1) ss

/-- The bytes of the pieces and of what follows each of them. -/
def span (ss : List (List UInt8)) : Nat := (ss.map fun s => s.length + 1).sum

theorem span_cons (s : List UInt8) (ss : List (List UInt8)) : span (s :: ss) = s.length + 1 + span ss := by
  simp [span]

theorem span_append (ss ts : List (List UInt8)) : span (ss ++ ts) = span ss + span ts := by
  simp [span]

theorem Pieces.within (h : Pieces mem p ss) (hw : Within q n mem mem') (hd : q + n ≤ p) : Pieces mem' p ss := by
  induction ss generalizing p with
  | nil => trivial
  | cons s ss ih => exact ⟨h.1.within hw (.inr hd), ih h.2 (by omega)⟩

theorem pieces_of_holds {dot : UInt8} {s : List UInt8} (h : Holds mem p (s ++ ss.flatMap (dot :: ·))) :
    Pieces mem p (s :: ss) := by
  induction ss generalizing p s with
  | nil => exact ⟨(holds_append.mp h).1, trivial⟩
  | cons t ss ih =>
    obtain ⟨hs, hrest⟩ := holds_append.mp h
    rw [flatMap_cons, cons_append, holds_cons] at hrest
    exact ⟨hs, ih hrest.2⟩

theorem places_append (ss ts : List (List UInt8)) : places p (ss ++ ts) = places p ss ++ places (p + span ss) ts := by
  induction ss generalizing p with
  | nil => simp [places, span]
  | cons s ss ih =>
    rw [cons_append, places, ih, places, span_cons]
    push_cast
    rw [cons_append, ← add_assoc, ← add_assoc]

theorem pieces_append {ts : List (List UInt8)} : Pieces mem p (ss ++ ts) ↔ Pieces mem p ss ∧ Pieces mem (p + span ss) ts := by
  induction ss generalizing p with
  | nil => simp [Pieces, span]
  | cons s ss ih =>
    rw [cons_append, Pieces, ih, Pieces, span_cons, and_assoc]
    push_cast
    rw [← add_assoc, ← add_assoc]

/-- Every text has its pieces. -/
theorem exists_pieces (dot : UInt8) (src : List UInt8) :
    ∃ s ss, src.splitOn dot = s :: ss ∧ src = s ++ ss.flatMap (dot :: ·) ∧ ∀ t ∈ s :: ss, dot ∉ t := by
  induction src with
  | nil => exact ⟨[], [], rfl, rfl, by simp⟩
  | cons c src ih =>
    obtain ⟨s, ss, hsplit, hsrc, hdot⟩ := ih
    rw [splitOn_cons_eq_if_modifyHead, hsplit]
    by_cases hc : c = dot
    · refine ⟨[], s :: ss, if_pos (by simpa using hc), ?_, by simpa using hdot⟩
      rw [hc, nil_append, flatMap_cons, cons_append, ← hsrc]
    · refine ⟨c :: s, ss, if_neg (by simpa using hc), ?_, ?_⟩
      · rw [cons_append, ← hsrc]
      · simpa [Ne.symm hc] using hdot

/-- The last piece is empty if the text is, or ends with a separator. -/
theorem join_end (hdot : ∀ t ∈ s :: ss, dot ∉ t) :
    (s :: ss).getLast? = some [] ↔ s ++ ss.flatMap (dot :: ·) = [] ∨ (s ++ ss.flatMap (dot :: ·)).getLast? = some dot := by
  rcases eq_nil_or_concat ss with rfl | ⟨ts, t, rfl⟩
  · have hs : s.getLast? ≠ some dot := fun h => hdot s (by simp) (mem_of_getLast? h)
    simp [hs]
  · have ht : t.getLast? ≠ some dot := fun h => hdot t (by simp) (mem_of_getLast? h)
    rw [concat_eq_append, ← cons_append, getLast?_concat, flatMap_append, flatMap_singleton,
      ← append_assoc, getLast?_append_cons, some.injEq]
    cases t with
    | nil => simp
    | cons c t => simpa [getLast?_cons_cons] using ht

/-- The segments of a text, put together with the separator. -/
theorem intercalate_cons (dot : UInt8) (s : List UInt8) (ss : List (List UInt8)) :
    [dot].intercalate (s :: ss) = s ++ ss.flatMap (dot :: ·) := by
  induction ss generalizing s with
  | nil => simp [intercalate]
  | cons t ss ih => simpa [intercalate] using ih t

/-- The pieces of a text and its last one, if there are two at least. -/
theorem dropEmptyEnd_concat (ts : List (List UInt8)) : dropEmptyEnd (ts ++ [[]]) = ts := by
  rw [dropEmptyEnd, if_pos (getLast?_concat ..), dropLast_concat]

theorem places_texts (h : Pieces mem p ss) : (places p ss).map (fun s => bytesAt mem s.szChar s.iLen) = ss := by
  induction ss generalizing p with
  | nil => rfl
  | cons s ss ih => rw [places, map_cons, ih h.2, show bytesAt mem p s.length = s from h.1]

/-- `GR_SplitLine` returns the segments of a text exactly if the text does not end with a separator behind a segment that is
not empty. Put together with the separator, the segments are the text, up to a separator at the end. -/
theorem splitLine_segments (rd : Int → UInt8) (szSrc : Int) (n : Nat) (dot : UInt8) :
    ((splitLine rd szSrc n dot).map (fun s => bytesAt rd s.szChar s.iLen) = dropEmptyEnd ((bytesAt rd szSrc n).splitOn dot) ↔
        ((bytesAt rd szSrc n).getLast? = some dot →
          (bytesAt rd szSrc n).dropLast = [] ∨ (bytesAt rd szSrc n).dropLast.getLast? = some dot)) ∧
      ([dot].intercalate (dropEmptyEnd ((bytesAt rd szSrc n).splitOn dot)) = bytesAt rd szSrc n ∨
        [dot].intercalate (dropEmptyEnd ((bytesAt rd szSrc n).splitOn dot)) ++ [dot] = bytesAt rd szSrc n) := by
  set src := bytesAt rd szSrc n with hbytes
  obtain ⟨s, ss, hsplit, hsrc, hdot⟩ := exists_pieces dot src
  have hlen : n = (s ++ ss.flatMap (dot :: ·)).length := by rw [← hsrc, hbytes, bytesAt_length]
  have hb : Holds rd szSrc (s ++ ss.flatMap (dot :: ·)) := by rw [Holds, ← hlen, ← hsrc]
  have hpieces := pieces_of_holds hb
  rw [hsplit]
  nth_rewrite 1 [hlen]
  rw [splitLine_eq hdot hb, splitPlaces, map_append]
  by_cases hlast : (s :: ss).getLast? = some []
  · rcases eq_nil_or_concat ss with rfl | ⟨ts, t, rfl⟩
    · -- the empty text
      cases some.inj hlast
      rw [show src = [] from hsrc]
      simp [dropEmptyEnd, places]
    · rw [concat_eq_append, ← cons_append, getLast?_concat, some.injEq] at hlast
      subst hlast
      rw [concat_eq_append, ← cons_append] at hpieces hdot ⊢
      have hsrc' : src = (s ++ ts.flatMap (dot :: ·)) ++ [dot] := by rw [hsrc]; simp
      have hend := join_end (forall_mem_append.mp hdot).1
      rw [dropEmptyEnd_concat, places_texts (pieces_append.mp hpieces).1, hsrc', dropLast_concat, ← hend, intercalate_cons]
      refine ⟨?_, .inr rfl⟩
      by_cases hrep : (s :: ts).getLast? = some []
      · simp [hrep]
      · obtain ⟨g, hg⟩ : ∃ g, (places szSrc (s :: ts)).getLast? = some g :=
          ⟨_, getLast?_eq_some_getLast (cons_ne_nil _ _)⟩
        rw [if_pos ⟨getLast?_concat .., hrep⟩, hg]
        simp [hrep]
  · have hne : src.getLast? ≠ some dot := fun h => hlast ((join_end hdot).mpr (.inr (hsrc ▸ h)))
    have hdrop : dropEmptyEnd (s :: ss) = s :: ss := if_neg hlast
    rw [hdrop, if_neg fun h => hlast h.1, places_texts hpieces, intercalate_cons, ← hsrc]
    simp [hne]

/-- A segment before a separator at the end is returned twice. -/
theorem splitLine_twice :
    let rd := fun a : Int => if a = 0 then 97 else comma
    (splitLine rd 0 2 comma).map (fun s => bytesAt rd s.szChar s.iLen) = [[97], [97]] ∧
      dropEmptyEnd ((bytesAt rd 0 2).splitOn comma) = [[97]] := by
  decide

end Within

/-! ## Flags -/

section Flags

variable {mem : Int → UInt8}
variable {f : NodeFlag}

theorem NodeFlag.text_plain (f : NodeFlag) : Byte.comma ∉ f.text ∧ 0 ∉ f.text ∧ f.text.map lowerCase = f.text := by
  cases f <;> decide

theorem NodeFlag.find_text (f : NodeFlag) : NodeFlag.all.find? (fun g => f.text == g.text) = some f := by
  cases f <;> decide

/-- The text of a flag is recognised. -/
theorem find_flag {s : Int} {len : Nat} (h : Holds mem s (f.text ++ [0])) (hlen : f.text.length < len) :
    (NodeFlag.all.find? fun g => strcasecmpEq mem len s g.text) = some f := by
  obtain ⟨-, hnull, hlower⟩ := f.text_plain
  have hword : cString mem len s = f.text := cString_eq h hnull hlen
  simp only [strcasecmpEq, hword, hlower]
  exact f.find_text

theorem flagsText_cons (f g : NodeFlag) (fs : List NodeFlag) :
    ClusterNode.flagsText (f :: g :: fs) = f.text ++ Byte.comma :: ClusterNode.flagsText (g :: fs) := rfl

/-- What the loop over the flags finds. -/
def flagsRet (fs : List NodeFlag) (iFlags : Nat) (bOK : Bool) : FlagsRet :=
  if fs.any NodeFlag.returns then .returned else .read (fs.foldl (fun m g => m ||| g.mask) iFlags) bOK

theorem flagsRet_cons (hret : f.returns = false) (fs : List NodeFlag) (iFlags : Nat) (bOK : Bool) :
    flagsRet (f :: fs) iFlags bOK = flagsRet fs (iFlags ||| f.mask) bOK := by
  rw [flagsRet, flagsRet, any_cons, hret]
  rfl

theorem readFlags_eq (len : Nat) (fs : List NodeFlag) :
    ∀ (f : NodeFlag) (n : Nat) (mem : Int → UInt8) (s : Int) (iFlags : Nat) (bOK : Bool), fs.length < n →
      Holds mem s (ClusterNode.flagsText (f :: fs) ++ [0]) → (ClusterNode.flagsText (f :: fs)).length < len →
      ∃ mem', readFlags len n mem s iFlags bOK = (flagsRet (f :: fs) iFlags bOK, mem') ∧
        Within s (ClusterNode.flagsText (f :: fs)).length mem mem' := by
  induction fs with
  | nil =>
    intro f n mem s iFlags bOK hn hb hlen
    have htext : ClusterNode.flagsText [f] = f.text := by simp [ClusterNode.flagsText]
    rw [htext] at hb hlen ⊢
    cases n with
    | zero => exact absurd hn (Nat.not_lt_zero _)
    | succ n =>
      rw [readFlags, strchr_none hb f.text_plain.1 (by decide)]
      dsimp only [cutAt]
      rw [find_flag hb hlen]
      refine ⟨mem, ?_, Within.rfl⟩
      dsimp only [flagsRet]
      cases hret : f.returns <;> simp [hret]
  | cons g fs ih =>
    intro f n mem s iFlags bOK hn hb hlen
    rw [flagsText_cons, append_assoc, cons_append] at hb
    rw [flagsText_cons, length_append, length_cons] at hlen
    obtain ⟨hcomma, hnull, -⟩ := f.text_plain
    cases n with
    | zero => exact absurd hn (Nat.not_lt_zero _)
    | succ n =>
      rw [readFlags, strchr_eq hb hcomma hnull (by omega)]
      dsimp only [cutAt]
      obtain ⟨hf, hrest⟩ := holds_append.mp hb
      have hword : Holds (update mem (s + f.text.length) 0) s (f.text ++ [0]) := by
        refine holds_append.mpr ⟨hf.update (.inr le_rfl) 0, holds_cons.mpr ⟨update_self .., holds_nil⟩⟩
      have hnext : Holds (update mem (s + f.text.length) 0) (s + f.text.length + 1)
          (ClusterNode.flagsText (g :: fs) ++ [0]) := (holds_cons.mp hrest).2.update (.inl (by omega)) 0
      rw [find_flag hword (by omega)]
      dsimp only
      obtain ⟨mem', hmem', hwithin⟩ := ih g n _ _ (iFlags ||| f.mask) bOK (Nat.lt_of_succ_lt_succ hn) hnext (by omega)
      have hfirst : Within s (ClusterNode.flagsText (f :: g :: fs)).length mem (update mem (s + f.text.length) 0) := by
        rw [flagsText_cons, length_append, length_cons]
        exact Within.rfl.update (by omega) (by omega) 0
      by_cases hret : f.returns = true
      · refine ⟨_, ?_, hfirst⟩
        rw [if_pos hret, flagsRet, any_cons, hret]
        rfl
      · rw [if_neg hret, hmem']
        refine ⟨mem', ?_, hfirst.trans (hwithin.mono (by omega) ?_)⟩
        · rw [flagsRet_cons (Bool.eq_false_iff.mpr hret)]
        · rw [flagsText_cons, length_append, length_cons]
          omega

end Flags

/-! ## Slots -/

section Slots

variable {mem : Int → UInt8} {p : Int}
variable {f : SlotField}

/-- A number with a null byte behind it. -/
theorem atoi_cut {k : Nat} (h : Holds mem p (decimalText k)) (hk : k < 2 ^ 31) :
    atoi (Function.update mem (p + (decimalText k).length) 0) ((decimalText k).length + 1) p = k := by
  refine atoi_decimalText (holds_append.mpr ⟨h.update (.inr le_rfl) 0, ?_⟩) hk (Nat.lt_succ_self _)
  exact holds_cons.mpr ⟨update_self .., holds_nil⟩

/-- A field that is not about a migrating slot. -/
theorem readSlots_eq {s : Nat × Nat} (hf : f.slots = some s) (hwf : f.WF) (h : Holds mem p f.text) :
    ∃ mem', readSlots mem ⟨p, f.text.length⟩ = some (((s.1 : Int), (s.2 : Int)), mem') ∧
      Within p (f.text.length + 1) mem mem' := by
  have hsub : isDigit sub = false := by decide
  have hslots : clusterSlots < 2 ^ 31 := by decide
  cases f with
  | one k =>
    cases hf
    have hk : k < clusterSlots := hwf
    have h' : Holds (update mem (p + (decimalText k).length) 0) p (decimalText k ++ ([] : List (List UInt8)).flatMap (sub :: ·)) := by
      rw [flatMap_nil, append_nil]
      exact Holds.update h (.inr le_rfl) 0
    have hsplit := splitLine_pieces (by simpa using decimalText_ne k) (by simpa using decimalText_notMem k hsub) h'
    rw [flatMap_nil, append_nil] at hsplit
    unfold readSlots SlotField.text
    dsimp only
    rw [hsplit]
    dsimp only [places]
    rw [update_idem, atoi_cut h (by omega)]
    exact ⟨_, rfl, Within.rfl.update (by omega) (by push_cast; omega) 0⟩
  | range a b =>
    cases hf
    obtain ⟨hab, hb⟩ : a ≤ b ∧ b < clusterSlots := hwf
    have htext : SlotField.text (.range a b) = decimalText a ++ [decimalText b].flatMap (sub :: ·) := by
      simp [SlotField.text]
    have hlen : (SlotField.text (.range a b)).length = (decimalText a).length + 1 + (decimalText b).length := by
      simp [SlotField.text]
      omega
    rw [htext] at h
    have h' := Holds.update h (.inr le_rfl) 0
    have hsplit := splitLine_pieces (by simpa using ⟨decimalText_ne a, decimalText_ne b⟩)
      (by simpa using ⟨decimalText_notMem a hsub, decimalText_notMem b hsub⟩) h'
    obtain ⟨ha, hrest, -⟩ := pieces_of_holds h'
    unfold readSlots
    dsimp only
    rw [← htext] at hsplit ha hrest
    rw [hsplit]
    dsimp only [places]
    have hrest' := hrest.update (q := p + (decimalText a).length) (.inl (by omega)) 0
    rw [atoi_cut ha (by omega), atoi_cut hrest' (by omega)]
    refine ⟨_, rfl, ?_⟩
    exact ((Within.rfl.update (by omega) (by push_cast; omega) 0).update (by omega) (by push_cast; omega) 0).update
      (by omega) (by push_cast; omega) 0
  | migrating t => cases hf

/-- The slots of a list of fields. -/
def ranges (fs : List SlotField) : List (Int × Int) :=
  (fs.filterMap SlotField.slots).map fun s => ((s.1 : Int), (s.2 : Int))

theorem text_first (h : Holds mem p f.text) : mem p = Byte.bracket ↔ f.slots = none := by
  have hdigit : ∀ k, Holds mem p (decimalText k) → mem p ≠ bracket := by
    intro k hk hp
    cases htext : decimalText k with
    | nil => exact decimalText_ne k htext
    | cons d ds =>
      rw [htext, holds_cons, hp] at hk
      have hd := decimalText_digit (show d ∈ decimalText k by rw [htext]; exact mem_cons_self ..)
      rw [← hk.1] at hd
      exact absurd hd (by decide)
  cases f with
  | one k => exact iff_of_false (hdigit k h) nofun
  | range a b => exact iff_of_false (hdigit a (holds_append.mp h).1) nofun
  | migrating t => exact iff_of_true (holds_cons.mp h).1 rfl

/-- The fields about slots. -/
theorem readSlotFields_eq (fs : List SlotField) : ∀ (mem : Int → UInt8) (p : Int), (∀ f ∈ fs, f.WF) →
    Pieces mem p (fs.map SlotField.text) → ∃ mem', readSlotFields (places p (fs.map SlotField.text)) mem =
      some (ranges fs, mem') ∧ Within p (span (fs.map SlotField.text)) mem mem' := by
  induction fs with
  | nil => exact fun mem p _ _ => ⟨mem, rfl, Within.rfl⟩
  | cons f fs ih =>
    intro mem p hwf h
    obtain ⟨hf, hrest⟩ := h
    have hwf' : ∀ g ∈ fs, g.WF := fun g hg => hwf g (mem_cons_of_mem _ hg)
    rw [map_cons, places, readSlotFields, span_cons]
    cases hs : f.slots with
    | none =>
      obtain ⟨mem', hmem', hw⟩ := ih mem _ hwf' hrest
      rw [if_pos ((text_first hf).mpr hs), hmem']
      refine ⟨mem', ?_, hw.mono (by omega) (by push_cast; omega)⟩
      rw [ranges, ranges, filterMap_cons_none hs]
    | some s =>
      obtain ⟨mem₁, hmem₁, hw₁⟩ := readSlots_eq hs (hwf f (mem_cons_self ..)) hf
      obtain ⟨mem', hmem', hw⟩ := ih mem₁ _ hwf' (hrest.within hw₁ (by push_cast; omega))
      rw [if_neg (by rw [text_first hf, hs]; exact nofun), hmem₁]
      dsimp only
      rw [hmem']
      refine ⟨mem', ?_, (hw₁.mono le_rfl (by push_cast; omega)).trans (hw.mono (by omega) (by push_cast; omega))⟩
      rw [ranges, ranges, filterMap_cons_some hs]
      rfl

end Slots

/-! ## A line -/

section Line

variable {inetAton : List UInt8 → Option UInt32} {nd : ClusterNode} {mem : Int → UInt8} {q : Int}
variable {p : Int} {bs : List UInt8} {f : SlotField}

/-- The port and what follows it. -/
def portText (nd : ClusterNode) : List UInt8 :=
  decimalText nd.addr.usPort.toNat ++ match nd.bus with
    | none => []
    | some t => Byte.atSign :: t

theorem addrText_eq (nd : ClusterNode) : nd.addrText = nd.ip ++ Byte.colon :: portText nd := rfl

theorem ClusterNode.WF.port_colon (h : nd.WF inetAton) : Byte.colon ∉ portText nd := by
  have hd : Byte.colon ∉ decimalText nd.addr.usPort.toNat := decimalText_notMem _ (by decide)
  unfold portText
  cases hbus : nd.bus with
  | none => simpa using hd
  | some t =>
    have ht := (h.bus t hbus).2
    have hat : Byte.colon ≠ Byte.atSign := by decide
    simp [hd, ht, hat]

/-- The port is read, whether or not that of the bus follows it. -/
theorem readPort {n : Nat} (hb : Holds mem p (portText nd ++ [0])) (hn : (portText nd).length < n) :
    ∃ mem', cutAt mem (strchr mem Byte.atSign n p) = mem' ∧
      (atoi mem' n p % 2 ^ 16).toNat = nd.addr.usPort.toNat ∧ Within p (portText nd).length mem mem' := by
  have hport : nd.addr.usPort.toNat < 2 ^ 16 := nd.addr.usPort.toNat_lt
  have hdig : atSign ∉ decimalText nd.addr.usPort.toNat := decimalText_notMem _ (by decide)
  have hnull : 0 ∉ decimalText nd.addr.usPort.toNat := decimalText_notMem _ (by decide)
  unfold portText at hb hn ⊢
  cases hbus : nd.bus with
  | none =>
    rw [hbus] at hb hn
    simp only [append_nil] at hb hn ⊢
    refine ⟨mem, ?_, ?_, Within.rfl⟩
    · rw [strchr_none hb hdig (by decide), cutAt]
    · rw [atoi_decimalText hb (by omega) hn]
      omega
  | some t =>
    rw [hbus] at hb hn
    simp only [length_append, length_cons] at hn ⊢
    rw [append_assoc, cons_append] at hb
    obtain ⟨hd, -⟩ := holds_append.mp hb
    refine ⟨_, by rw [strchr_eq hb hdig hnull (by omega), cutAt], ?_, Within.rfl.update (by omega) (by push_cast; omega) 0⟩
    rw [atoi_decimalText (k := nd.addr.usPort.toNat)]
    · omega
    · exact holds_append.mpr ⟨hd.update (.inr le_rfl) 0, holds_cons.mpr ⟨update_self .., holds_nil⟩⟩
    · omega
    · omega

theorem length_le_flagsText (f : NodeFlag) (fs : List NodeFlag) : fs.length ≤ (ClusterNode.flagsText (f :: fs)).length := by
  rw [ClusterNode.flagsText, length_append, length_flatMap]
  have hsum : fs.length ≤ (fs.map fun g => (comma :: g.text).length).sum := by
    induction fs with
    | nil => exact Nat.zero_le _
    | cons g fs ih =>
      rw [map_cons, sum_cons, length_cons, length_cons]
      omega
  omega

/-- The address in the text. -/
def addrPlace (nd : ClusterNode) (q : Int) : Int := q + nd.id.length + 1

/-- The line has been read: its address is cut at the colon. -/
def Spent (mem : Int → UInt8) (q : Int) (nd : ClusterNode) : Prop :=
  Holds mem q (nd.id ++ Byte.space :: (nd.ip ++ [0]))

theorem ip_null (h : nd.WF inetAton) : 0 ∉ nd.ip := fun hm => (h.ip 0 hm).1 rfl

theorem span_line (nd : ClusterNode) : span (nd.id :: nd.rest) = nd.line.length + 1 := by
  unfold ClusterNode.line
  simp [span, Nat.add_comm, Nat.add_left_comm]
  omega

/-- The fields in front of those about slots. -/
def headFields (nd : ClusterNode) : List (List UInt8) :=
  nd.id :: nd.addrText :: ClusterNode.flagsText nd.flags :: nd.others

theorem fields_eq (nd : ClusterNode) : nd.id :: nd.rest = headFields nd ++ nd.fields.map SlotField.text := rfl

/-- The address is cut behind its end, at its colon and in front of the port of the bus. -/
theorem readAddr (h : nd.WF inetAton) (haddr : Holds mem p nd.addrText) :
    ∃ mem', strrchr (Function.update mem (p + nd.addrText.length) 0) Byte.colon (nd.addrText.length + 1) p =
        some (p + nd.ip.length) ∧
      cutAt (Function.update (Function.update mem (p + nd.addrText.length) 0) (p + nd.ip.length) 0)
        (strchr (Function.update (Function.update mem (p + nd.addrText.length) 0) (p + nd.ip.length) 0) Byte.atSign
          (nd.addrText.length + 1) (p + nd.ip.length + 1)) = mem' ∧
      (atoi mem' (nd.addrText.length + 1) (p + nd.ip.length + 1) % 2 ^ 16).toNat = nd.addr.usPort.toNat ∧
      mem' (p + nd.ip.length) = 0 ∧ Within (p + nd.ip.length) ((portText nd).length + 2) mem mem' := by
  have hlen : nd.addrText.length = nd.ip.length + (portText nd).length + 1 := by
    rw [addrText_eq, length_append, length_cons]
    omega
  have haddr₁ : Holds (Function.update mem (p + nd.addrText.length) 0) p (nd.ip ++ Byte.colon :: portText nd ++ [0]) := by
    refine holds_append.mpr ⟨Holds.update haddr (.inr le_rfl) 0, ?_⟩
    exact holds_cons.mpr ⟨update_self .., holds_nil⟩
  have hport : Holds (update mem (p + nd.addrText.length) 0) (p + nd.ip.length + 1) (portText nd ++ [0]) := by
    rw [append_assoc, holds_append, cons_append, holds_cons] at haddr₁
    exact haddr₁.2.2
  obtain ⟨mem', hmem', hval, hw⟩ := readPort (hport.update (q := p + nd.ip.length) (.inl (by omega)) 0)
    (n := nd.addrText.length + 1) (by omega)
  refine ⟨mem', strrchr_eq haddr₁ h.port_colon (ip_null h) (by decide) (by omega), hmem', hval, ?_, ?_⟩
  · rw [hw _ (.inl (by omega)), update_self]
  · refine Within.trans ?_ (hw.mono (by omega) (by push_cast; omega))
    exact (Within.rfl.update (by omega) (by push_cast; omega) 0).update (by omega) (by push_cast; omega) 0

/-- `GetClusterInfo` for the fields of a line. -/
theorem getClusterInfo_eq (h : nd.WF inetAton) (hb : Holds mem q nd.line) :
    ∃ iFlags mem', getClusterInfo (places q (nd.id :: nd.rest)) mem =
        some ((true, ⟨addrPlace nd q, nd.addr.usPort.toNat, iFlags,
          if nd.flags.any NodeFlag.returns then [] else ranges nd.fields⟩), mem') ∧
      Spent mem' q nd ∧ Within q (nd.line.length + 1) mem mem' := by
  obtain ⟨f, fs, hflags⟩ := exists_cons_of_ne_nil h.flags
  have hspace : mem (q + nd.id.length) = space := (holds_cons.mp (holds_append.mp hb).2).1
  have hpieces := pieces_of_holds hb
  rw [fields_eq, pieces_append] at hpieces
  obtain ⟨⟨hid, haddr, hflag, -⟩, hslots⟩ := hpieces
  have hlen := span_line nd
  rw [fields_eq, span_append] at hlen
  have hhead : q + span (headFields nd) = addrPlace nd q + nd.addrText.length + 1 +
      (ClusterNode.flagsText nd.flags).length + 1 + span nd.others := by
    simp only [headFields, span_cons, addrPlace]
    push_cast
    ring
  have hdrop : (places q (nd.id :: nd.rest)).drop 8 = places (q + span (headFields nd)) (nd.fields.map SlotField.text) := by
    rw [fields_eq, places_append, drop_left']
    rw [places_length, headFields, length_cons, length_cons, length_cons, h.others]
  have hplaces : places q (nd.id :: nd.rest) = ⟨q, nd.id.length⟩ :: ⟨addrPlace nd q, nd.addrText.length⟩ ::
      ⟨addrPlace nd q + nd.addrText.length + 1, (ClusterNode.flagsText nd.flags).length⟩ ::
        (places q (nd.id :: nd.rest)).drop 3 := rfl
  have haddrlen : nd.addrText.length = nd.ip.length + (portText nd).length + 1 := by
    rw [addrText_eq, length_append, length_cons]
    omega
  obtain ⟨mem₁, hcolon, hbus, hport, hcut, hw₁⟩ := readAddr h (p := addrPlace nd q) haddr
  have hplace : addrPlace nd q = q + nd.id.length + 1 := rfl
  -- the flags end with a null byte
  have hflag₁ := hflag.within hw₁ (.inr (by rw [haddrlen]; push_cast; omega))
  obtain ⟨mem₂, hmem₂⟩ : ∃ mem₂, mem₂ = update mem₁
    (addrPlace nd q + nd.addrText.length + 1 + (ClusterNode.flagsText nd.flags).length) 0 := ⟨_, rfl⟩
  have hflag₂ : Holds mem₂ (addrPlace nd q + nd.addrText.length + 1) (ClusterNode.flagsText nd.flags ++ [0]) := by
    rw [hmem₂]
    exact holds_append.mpr ⟨Holds.update hflag₁ (.inr le_rfl) 0, holds_cons.mpr ⟨update_self .., holds_nil⟩⟩
  rw [hflags] at hflag₂
  have hfs := length_le_flagsText f fs
  rw [← hflags] at hfs
  obtain ⟨mem₃, hread, hw₃⟩ := readFlags_eq ((ClusterNode.flagsText nd.flags).length + 1) fs f
    ((ClusterNode.flagsText nd.flags).length + 1) mem₂ _ 0 true (by omega) hflag₂ (by rw [hflags]; exact Nat.lt_succ_self _)
  rw [← hflags] at hread hw₃
  -- all that is written behind the colon of the address lies in the rest of the line
  obtain ⟨m, hm⟩ : ∃ m : Nat, q + (nd.line.length + 1) = addrPlace nd q + nd.ip.length + 1 + m :=
    ⟨nd.line.length - nd.id.length - nd.ip.length - 1, by omega⟩
  have hw₁₃ : Within (addrPlace nd q + nd.addrText.length + 1) ((ClusterNode.flagsText nd.flags).length + 1) mem₁ mem₃ := by
    refine Within.trans ?_ (hw₃.mono (by omega) (by omega))
    rw [hmem₂]
    exact Within.rfl.update (by omega) (by omega) 0
  have hdone : ∀ mem', Within (addrPlace nd q + nd.ip.length + 1) m mem₁ mem' →
      Spent mem' q nd ∧ Within q (nd.line.length + 1) mem mem' := by
    intro mem' hw'
    constructor
    · suffices hspent : Spent mem₁ q nd from hspent.within hw' (.inl (by simp; omega))
      refine holds_append.mpr ⟨hid.within hw₁ (.inl (by omega)), ?_⟩
      refine holds_cons.mpr ⟨?_, holds_append.mpr ⟨?_, holds_cons.mpr ⟨hcut, holds_nil⟩⟩⟩
      · rw [hw₁ _ (.inl (by omega)), hspace]
      · exact (holds_append.mp haddr).1.within hw₁ (.inl le_rfl)
    · exact (hw₁.mono (by omega) (by omega)).trans (hw'.mono (by omega) (by omega))
  have hslots₃ : Pieces mem₃ (q + span (headFields nd)) (nd.fields.map SlotField.text) :=
    (hslots.within hw₁ (by omega)).within hw₁₃ (by omega)
  obtain ⟨mem₄, hread₄, hw₄⟩ := readSlotFields_eq nd.fields mem₃ _ h.fields hslots₃
  unfold getClusterInfo
  rw [hplaces]
  dsimp only
  rw [hcolon]
  dsimp only
  rw [hbus, ← hmem₂, hread, hport]
  dsimp only [flagsRet]
  by_cases hret : nd.flags.any NodeFlag.returns = true
  · rw [if_pos hret]
    exact ⟨0, mem₃, by rw [if_pos hret], hdone mem₃ (hw₁₃.mono (by omega) (by omega))⟩
  · rw [if_neg hret]
    dsimp only
    rw [← hplaces, hdrop, hread₄]
    refine ⟨_, mem₄, by rw [if_neg hret], hdone mem₄ ?_⟩
    exact (hw₁₃.mono (by omega) (by omega)).trans (hw₄.mono (by omega) (by omega))

/-- What a line does to the route. -/
def nodeStep (nd : ClusterNode) (conn : Proxy.Connect) (r : ClusterRoute) : Option ClusterRoute :=
  if nd.flags.any NodeFlag.returns ∨ nd.info.listSlots = [] then some r else (r.addRedisServer nd.info conn).map (·.2)

theorem printable_append {as : List UInt8} : Printable (as ++ bs) ↔ Printable as ∧ Printable bs := forall_mem_append

theorem printable_cons {c : UInt8} :
    Printable (c :: bs) ↔ (c ≠ 0 ∧ c ≠ Byte.lf ∧ c ≠ Byte.space) ∧ Printable bs := forall_mem_cons

theorem NodeFlag.text_printable (f : NodeFlag) : f.text ≠ [] ∧ Printable f.text := by
  unfold Printable
  cases f <;> decide +kernel

theorem decimalText_printable (k : Nat) : Printable (decimalText k) := by
  intro c hc
  have hd := decimalText_digit hc
  refine ⟨?_, ?_, ?_⟩ <;>
  · rintro rfl
    exact absurd hd (by decide)

theorem flagsText_printable (f : NodeFlag) (fs : List NodeFlag) :
    ClusterNode.flagsText (f :: fs) ≠ [] ∧ Printable (ClusterNode.flagsText (f :: fs)) := by
  obtain ⟨hne, hprint⟩ := f.text_printable
  constructor
  · exact append_ne_nil_of_left_ne_nil hne _
  · refine printable_append.mpr ⟨hprint, ?_⟩
    intro c hc
    obtain ⟨g, -, hc⟩ := mem_flatMap.mp hc
    exact printable_cons.mpr ⟨by decide, g.text_printable.2⟩ c hc

theorem SlotField.WF.printable (h : f.WF) : f.text ≠ [] ∧ Printable f.text := by
  cases f with
  | one k => exact ⟨decimalText_ne k, decimalText_printable k⟩
  | range a b =>
    refine ⟨append_ne_nil_of_left_ne_nil (decimalText_ne a) _, printable_append.mpr ⟨decimalText_printable a, ?_⟩⟩
    exact printable_cons.mpr ⟨by decide, decimalText_printable b⟩
  | migrating t => exact ⟨cons_ne_nil _ _, printable_cons.mpr ⟨by decide, h⟩⟩

theorem portText_printable (h : nd.WF inetAton) : Printable (portText nd) := by
  refine printable_append.mpr ⟨decimalText_printable _, ?_⟩
  cases hbus : nd.bus with
  | none => exact nofun
  | some t => exact printable_cons.mpr ⟨by decide, (h.bus t hbus).1⟩

/-- The fields of a line can be told apart. -/
theorem ClusterNode.WF.rest (h : nd.WF inetAton) : ∀ s ∈ nd.rest, s ≠ [] ∧ Printable s := by
  obtain ⟨f, fs, hflags⟩ := exists_cons_of_ne_nil h.flags
  unfold ClusterNode.rest
  rw [hflags]
  refine forall_mem_cons.mpr ⟨?_, forall_mem_cons.mpr ⟨flagsText_printable f fs, ?_⟩⟩
  · rw [addrText_eq]
    refine ⟨by simp, printable_append.mpr ⟨h.ip, ?_⟩⟩
    exact printable_cons.mpr ⟨by decide, portText_printable h⟩
  · refine forall_mem_append.mpr ⟨h.others_text, ?_⟩
    intro s hs
    obtain ⟨g, hg, rfl⟩ := mem_map.mp hs
    exact (h.fields g hg).printable

theorem slotRange_eq {a b : Nat} (h : a ≤ b) : slotRange ((a : Int), (b : Int)) = some (a, b) := by
  unfold slotRange
  rw [if_neg (by omega), if_neg (by omega)]
  rfl

theorem SlotField.WF.le (h : f.WF) {s : Nat × Nat} (hs : f.slots = some s) : s.1 ≤ s.2 ∧ s.2 < clusterSlots := by
  cases f with
  | one k =>
    cases hs
    exact ⟨le_rfl, h⟩
  | range a b =>
    cases hs
    exact h
  | migrating t => cases hs

theorem mapM_ranges {fs : List SlotField} (h : ∀ f ∈ fs, f.WF) :
    (ranges fs).mapM slotRange = some (fs.filterMap SlotField.slots) := by
  induction fs with
  | nil => rfl
  | cons f fs ih =>
    have ih := ih fun g hg => h g (mem_cons_of_mem _ hg)
    cases hs : f.slots with
    | none =>
      rw [ranges, filterMap_cons_none hs]
      exact ih
    | some s =>
      rw [ranges, filterMap_cons_some hs, map_cons, mapM_cons,
        slotRange_eq ((h f (mem_cons_self ..)).le hs).1]
      change ((ranges fs).mapM slotRange).bind _ = _
      rw [ih]
      rfl

/-- The fields of a line. -/
theorem splitLine_line (h : nd.WF inetAton) (hb : Holds mem q nd.line) :
    splitLine mem q nd.line.length Byte.space = places q (nd.id :: nd.rest) := by
  refine splitLine_pieces ?_ ?_ hb
  · exact forall_mem_cons.mpr ⟨h.id_ne, fun s hs => (h.rest s hs).1⟩
  · exact forall_mem_cons.mpr ⟨fun hm => (h.id _ hm).2.2 rfl, fun s hs hm => ((h.rest s hs).2 _ hm).2.2 rfl⟩

theorem line_length (nd : ClusterNode) : nd.id.length + 1 + nd.ip.length + 1 ≤ nd.line.length := by
  have hlen := span_line nd
  rw [fields_eq, headFields, cons_append, span_cons, cons_append, span_cons, addrText_eq] at hlen
  simp only [length_append, length_cons] at hlen
  omega

/-- The address and the slots of a line that has been read. -/
theorem resolve_eq (h : nd.WF inetAton) (hs : Spent mem q nd) (iFlags : Nat) :
    NodeInfo.resolve inetAton (nd.line.length + 1) mem ⟨addrPlace nd q, nd.addr.usPort.toNat, iFlags, ranges nd.fields⟩ =
      some nd.info := by
  have hlen := line_length nd
  have hip : cString mem (nd.line.length + 1) (addrPlace nd q) = nd.ip :=
    cString_eq (holds_cons.mp (holds_append.mp hs).2).2 (ip_null h) (by omega)
  unfold NodeInfo.resolve
  rw [hip, h.addr, mapM_ranges h.fields]
  dsimp only
  rw [dif_pos (by rw [UInt16.ofNat_toNat]; exact nd.addr.valid)]
  simp only [UInt16.ofNat_toNat]
  rfl

/-- A line that is read for the first time. -/
theorem parseNode_eq (h : nd.WF inetAton) (hb : Holds mem q nd.line) :
    ∃ mem', (∀ conn r, parseNode inetAton ⟨q, nd.line.length⟩ conn (mem, r) = (nodeStep nd conn r).map (mem', ·)) ∧
      Spent mem' q nd ∧ Within q (nd.line.length + 1) mem mem' := by
  obtain ⟨iFlags, mem', hinfo, hspent, hw⟩ := getClusterInfo_eq h hb
  refine ⟨mem', fun conn r => ?_, hspent, hw⟩
  have hnum : ¬(places q (nd.id :: nd.rest)).length < 8 := by
    rw [places_length, fields_eq, length_append, headFields]
    simp only [length_cons, h.others]
    omega
  have hempty : ranges nd.fields = [] ↔ nd.info.listSlots = [] := map_eq_nil_iff
  unfold parseNode nodeStep
  rw [splitLine_line h hb, if_neg hnum, hinfo]
  dsimp only
  rw [if_neg (by simp)]
  by_cases hret : nd.flags.any NodeFlag.returns = true
  · rw [if_pos (by rw [if_pos hret]), if_pos (.inl hret)]
    rfl
  · rw [if_neg hret]
    by_cases hslots : nd.info.listSlots = []
    · rw [if_pos (hempty.mpr hslots), if_pos (.inr hslots)]
      rfl
    · rw [if_neg (mt hempty.mp hslots), if_neg (by simp [hret, hslots])]
      rw [resolve_eq h hspent]
      dsimp only
      cases r.addRedisServer nd.info conn <;> rfl

/-- The piece that has been begun comes first. -/
theorem splitLoop_first (rd : Int → UInt8) (dot : UInt8) (q : Int) (n k : Nat) : ∀ (i : Nat) (t : GRString), t.iLen ≠ 0 →
    ∃ l ≥ t.iLen, ∃ ss, splitLoop rd dot q n k i t = ⟨t.szChar, l⟩ :: ss := by
  induction k with
  | zero => exact fun i t ht => ⟨t.iLen, le_rfl, [], if_pos ht⟩
  | succ k ih =>
    intro i t ht
    rw [splitLoop]
    split_ifs
    · exact ⟨t.iLen, le_rfl, _, rfl⟩
    · exact ⟨t.iLen, le_rfl, _, rfl⟩
    · obtain ⟨l, hl, ss, heq⟩ := ih (i + 1) { t with iLen := t.iLen + 1 } (Nat.succ_ne_zero _)
      exact ⟨l, Nat.le_of_succ_le hl, ss, heq⟩

/-- The first two fields of a line that has been read: the address ends behind its colon, which is a null byte. -/
theorem splitLine_spent (h : nd.WF inetAton) (hs : Spent mem q nd) :
    ∃ l ≥ nd.ip.length + 1, ∃ ss, splitLine mem q nd.line.length Byte.space = ⟨q, nd.id.length⟩ :: ⟨addrPlace nd q, l⟩ :: ss := by
  have hlen := line_length nd
  obtain ⟨hid, hrest⟩ := holds_append.mp hs
  obtain ⟨hspace, haddr⟩ := holds_cons.mp hrest
  obtain ⟨k, hk⟩ : ∃ k, nd.line.length = nd.id.length + ((nd.ip ++ [0]).length + k + 1) :=
    ⟨nd.line.length - (nd.id.length + nd.ip.length + 2), by simp; omega⟩
  have hid' : Holds mem (q + ((0 : Nat) : Int)) nd.id := by simpa using hid
  have haddr' : Holds mem (q + ((nd.id.length + 1 : Nat) : Int)) (nd.ip ++ [0]) := by
    rw [Nat.cast_succ, ← add_assoc]
    exact haddr
  have hnospace : space ∉ nd.ip ++ [0] := by
    rw [mem_append, not_or]
    exact ⟨fun hm => (h.ip _ hm).2.2 rfl, by decide⟩
  obtain ⟨l, hl, ss, heq⟩ := splitLoop_first mem space q nd.line.length k
    (nd.id.length + 1 + (nd.ip ++ [0]).length) ⟨q + nd.id.length + 1, 0 + (nd.ip ++ [0]).length⟩ (by simp)
  refine ⟨l, by simpa using hl, ss, ?_⟩
  rw [splitLine, if_neg (by omega)]
  nth_rewrite 2 [hk]
  rw [splitLoop_word hid' (fun hm => (h.id _ hm).2.2 rfl), Nat.zero_add, splitLoop, if_pos hspace, if_pos (by omega),
    splitLoop_word haddr' hnospace, heq]
  rfl

/-- A line that has been read is not read again. -/
theorem parseNode_spent (h : nd.WF inetAton) (hs : Spent mem q nd) :
    ∃ mem', ∀ conn r, parseNode inetAton ⟨q, nd.line.length⟩ conn (mem, r) = some (mem', r) := by
  obtain ⟨l, hl, ss, hsplit⟩ := splitLine_spent h hs
  unfold parseNode
  dsimp only
  rw [hsplit]
  by_cases hnum : (GRString.mk q nd.id.length :: ⟨addrPlace nd q, l⟩ :: ss).length < 8
  · exact ⟨mem, fun _ _ => by rw [if_pos hnum]⟩
  · obtain ⟨t, ts, rfl⟩ : ∃ t ts, ss = t :: ts := by
      cases ss with
      | nil => exact absurd (by simp) hnum
      | cons t ts => exact ⟨t, ts, rfl⟩
    have haddr : Holds (update mem (addrPlace nd q + l) 0) (addrPlace nd q) (nd.ip ++ [0]) := by
      refine Holds.update (p := addrPlace nd q) (holds_cons.mp (holds_append.mp hs).2).2 (.inr ?_) 0
      rw [length_append, length_singleton]
      omega
    unfold getClusterInfo
    dsimp only
    rw [strrchr_none haddr h.ip_colon]
    exact ⟨_, fun _ _ => by rw [if_neg hnum]; rfl⟩

end Line

/-! ## The text -/

section Text

variable {inetAton : List UInt8 → Option UInt32} {mem : Int → UInt8} {q : Int}
variable {nodes : List ClusterNode}

/-- What the lines do to the route. -/
def nodeSteps (conn : Nat → Proxy.Connect) : Nat → List ClusterNode → ClusterRoute → Option ClusterRoute
  | _, [], r => some r
  | k, nd :: nodes, r => (nodeStep nd (conn k) r).bind (nodeSteps conn (k + 1) nodes)

theorem parseNodes_append (conn : Nat → Proxy.Connect) (as bs : List GRString) (k : Nat) (s : (Int → UInt8) × ClusterRoute) :
    parseNodes inetAton conn k (as ++ bs) s =
      (parseNodes inetAton conn k as s).bind (parseNodes inetAton conn (k + as.length) bs) := by
  induction as generalizing k s with
  | nil => rfl
  | cons a as ih =>
    rw [cons_append, parseNodes, parseNodes]
    cases parseNode inetAton a (conn k) s with
    | none => rfl
    | some s' =>
      dsimp only
      rw [ih, length_cons, Nat.add_right_comm, Nat.add_assoc]

/-- The lines are read one after the other; each of them is changed within its own bytes. -/
theorem parseNodes_eq (conn : Nat → Proxy.Connect) (hwf : ∀ nd ∈ nodes, nd.WF inetAton)
    (hb : Pieces mem q (nodes.map ClusterNode.line)) :
    ∃ mem', (∀ k r, parseNodes inetAton conn k (places q (nodes.map ClusterNode.line)) (mem, r) =
        (nodeSteps conn k nodes r).map (mem', ·)) ∧
      (∀ ns nd, nodes = ns ++ [nd] → Spent mem' (q + span (ns.map ClusterNode.line)) nd) ∧
      Within q (span (nodes.map ClusterNode.line)) mem mem' := by
  induction nodes generalizing mem q with
  | nil => exact ⟨mem, fun _ _ => rfl, fun ns nd h => absurd h (by simp), Within.rfl⟩
  | cons n nodes ih =>
    obtain ⟨hn, hrest⟩ := hb
    obtain ⟨mem₁, hparse, hspent, hw⟩ := parseNode_eq (hwf n (mem_cons_self ..)) hn
    obtain ⟨mem', hmem', hlast, hw'⟩ := ih (fun nd hnd => hwf nd (mem_cons_of_mem _ hnd))
      (hrest.within hw (by push_cast; omega))
    refine ⟨mem', fun k r => ?_, fun ns nd heq => ?_, ?_⟩
    · rw [map_cons, places, parseNodes, hparse, nodeSteps]
      cases nodeStep n (conn k) r with
      | none => rfl
      | some r' => exact hmem' (k + 1) r'
    · cases ns with
      | nil =>
        obtain ⟨rfl, rfl⟩ := cons.inj heq
        simp only [map_nil, span, sum_nil, Nat.cast_zero, add_zero] at hw' ⊢
        have hlen := line_length n
        exact hspent.within hw' (.inl (by simp; omega))
      | cons m ns =>
        obtain ⟨rfl, htail⟩ : n = m ∧ nodes = ns ++ [nd] := cons.inj heq
        rw [map_cons, span_cons]
        push_cast
        rw [← add_assoc, ← add_assoc]
        exact hlast ns nd htail
    · rw [map_cons, span_cons]
      exact (hw.mono le_rfl (by push_cast; omega)).trans (hw'.mono (by omega) (by push_cast; omega))

theorem clusterText_eq (nd : ClusterNode) (nodes : List ClusterNode) :
    ClusterNode.clusterText (nd :: nodes) =
      nd.line ++ (nodes.map ClusterNode.line).flatMap (Byte.lf :: ·) ++ [Byte.lf] := by
  induction nodes generalizing nd with
  | nil => simp [ClusterNode.clusterText]
  | cons n nodes ih =>
    rw [ClusterNode.clusterText, flatMap_cons, ← ClusterNode.clusterText, ih]
    simp

theorem line_plain {nd : ClusterNode} (h : nd.WF inetAton) : nd.line ≠ [] ∧ Byte.lf ∉ nd.line := by
  unfold ClusterNode.line
  constructor
  · exact append_ne_nil_of_left_ne_nil h.id_ne _
  · rw [mem_append, not_or]
    refine ⟨fun hm => (h.id _ hm).2.1 rfl, fun hm => ?_⟩
    obtain ⟨s, hs, hm⟩ := mem_flatMap.mp hm
    rcases mem_cons.mp hm with heq | hm
    · exact absurd heq (by decide)
    · exact ((h.rest s hs).2 _ hm).2.1 rfl

/-- `ParseClusterNodes` adds the nodes in the order of the lines. -/
theorem parseClusterNodes_eq (conn : Nat → Proxy.Connect) (hwf : ∀ nd ∈ nodes, nd.WF inetAton)
    (hb : Holds mem q (ClusterNode.clusterText nodes)) (r : ClusterRoute) :
    ∃ mem', parseClusterNodes inetAton conn q (ClusterNode.clusterText nodes).length (mem, r) =
      (nodeSteps conn 0 nodes r).map (mem', ·) := by
  cases nodes with
  | nil => exact ⟨mem, rfl⟩
  | cons n nodes =>
    obtain ⟨hn, hnodes⟩ := forall_mem_cons.mp hwf
    rw [clusterText_eq] at hb ⊢
    have hplain : ∀ s ∈ n.line :: nodes.map ClusterNode.line, s ≠ [] ∧ lf ∉ s :=
      forall_mem_cons.mpr ⟨line_plain hn, forall_mem_map.mpr fun nd hnd => line_plain (hnodes nd hnd)⟩
    have hlines := splitLine_lines (fun s hs => (hplain s hs).1) (fun s hs => (hplain s hs).2) hb
    obtain ⟨mem₁, hparse, hlast, -⟩ := parseNodes_eq conn hwf (pieces_of_holds (holds_append.mp hb).1)
    rw [parseClusterNodes, hlines, parseNodes_append, ← map_cons, hparse]
    -- the last line comes once more
    obtain ⟨ns, nd, hns⟩ := (n :: nodes).eq_nil_or_concat.resolve_left (cons_ne_nil _ _)
    rw [concat_eq_append] at hns
    have hlines : n.line :: nodes.map ClusterNode.line = ns.map ClusterNode.line ++ [nd.line] := by
      rw [← map_cons, hns, map_append, map_singleton]
    obtain ⟨mem', hmem'⟩ := parseNode_spent (hwf nd (by rw [hns]; simp)) (hlast ns nd hns)
    refine ⟨mem', ?_⟩
    rw [map_cons, hlines, places_append, places, places, getLast?_concat]
    cases nodeSteps conn 0 (n :: nodes) r with
    | none => rfl
    | some r' =>
      change parseNodes inetAton conn _ [_] (mem₁, r') = _
      rw [parseNodes, hmem']
      rfl

end Text

end RedisProxy
