import RedisProxy.Proofs.ClientProofs

/-!
# Proofs: write interest of a client connection

`DoReply` asks for a write event if the predecessor of the request has been answered or sent. For the
front of the ring there is no predecessor, and `GetPre` reads the cell of some other identity: with
index 0 the subtraction wraps around and yields cell 15, and in a full ring the cell before the front
is that of the newest request. If that identity has no reply, the front waits without a write event.
Apart from this, a deliverable reply always has one.
-/

namespace RedisProxy.AccessEvent

open List Option

open RedisProxy.Lib

variable {x x' : Ctx} {replies : List (Option (List UInt8))} {base : Nat}

/-- The identity that `GetPre` yields for the front of the ring. -/
theorem Inv.getPre_front (h : Inv x replies base) (hne : x.ev.waitRing.toList ≠ []) :
    x.ev.waitRing.getPre base =
      if base = 0 then x.ev.waitRing.toList[15]? else x.ev.waitRing.toList[maxWaitRingLen - 1]? := by
  have hlt : base < uint64Size := by
    have := h.total
    have := length_pos_iff.mpr hne
    omega
  unfold WaitRing.getPre RingBuffer.getPre
  rw [x.ev.waitRing.len_eq]
  split_ifs with h0
  · subst h0
    rw [← WaitRing.cell _ (by decide), h.start]
    rfl
  · rw [← WaitRing.cell _ (by decide), h.start]
    have hpre : (base + (uint64Size - 1)) % uint64Size = base - 1 := by
      rw [show base + (uint64Size - 1) = base - 1 + uint64Size by omega, Nat.add_mod_right,
        Nat.mod_eq_of_lt (by omega)]
    have hcell : (base % maxWaitRingLen + (maxWaitRingLen - 1)) % maxWaitRingLen = (base - 1) % maxWaitRingLen := by
      have hpos := maxWaitRingLen_pos
      rw [Nat.mod_add_mod, show base + (maxWaitRingLen - 1) = base - 1 + maxWaitRingLen by omega,
        Nat.add_mod_right]
    rw [hpre, hcell]

/-- A write event finds nothing to do if the front of the ring has no reply. -/
theorem write_idle {self : Nat} {ret : Ret}
    (hfront : ∀ p, x.ev.waitRing.toList[0]? = some p → (x.st.ids p).iWaitDone = false)
    (hw : write self x = some (ret, x')) :
    x'.ev.waitRing.toList = x.ev.waitRing.toList ∧
      ∀ q, (x'.st.ids q).iWaitDone = (x.st.ids q).iWaitDone := by
  unfold write at hw
  split_ifs at hw with hfd
  · cases hw
    exact ⟨rfl, fun _ => rfl⟩
  · rw [WaitRing.getFront_eq, WaitRing.getNum_eq] at hw
    cases hl : x.ev.waitRing.toList with
    | nil =>
      simp only [hl, head?_nil, some.injEq, Prod.mk.injEq] at hw
      obtain ⟨rfl, rfl⟩ := hw
      exact ⟨hl, fun _ => rfl⟩
    | cons p l =>
      have hdone := hfront p (by rw [hl]; rfl)
      rw [hl, head?_cons, length_cons] at hw
      simp only [writeLoop, hdone, if_true] at hw
      by_cases howner : (x.st.ids p).pAccessEvent = some (.client self)
      · simp only [if_pos howner, Nat.lt_irrefl, if_false, some.injEq, Prod.mk.injEq] at hw
        obtain ⟨rfl, rfl⟩ := hw
        refine ⟨hl, fun q => ?_⟩
        have := setPreGood_done x.st p q
        simpa only [hdone] using this
      · simp only [if_neg howner] at hw
        cases hw

end RedisProxy.AccessEvent

namespace RedisProxy.Client

open RedisProxy.Lib

/-- The identity whose state decides whether a reply to the front `p` of the ring asks for a write
event. -/
def misread (c : Client) (p : Nat) : Option Nat :=
  if (c.x.st.ids p).ulIndex = 0 then c.ring[15]? else c.ring[maxWaitRingLen - 1]?

/-- The identity has no reply and no write event has reached it. -/
def Waiting (i : MsgIdenty) : Prop := i.iWaitRsp = true ∧ i.iWaitDone = false ∧ i.iPreGood = false

instance (i : MsgIdenty) : Decidable (Waiting i) := inferInstanceAs (Decidable (_ ∧ _))

/-- If the reply completes the front request `p` and there is no write interest, then `GetPre` does
not find an identity that waits. -/
def SeesFront (c : Client) (p : Nat) : Prop :=
  c.ring[0]? = some p → c.x.ev.mask.writable = false → ¬AccessEvent.Partial (c.x.st.ids p) →
    ∀ q ∈ c.misread p, ¬Waiting (c.x.st.ids q)

instance (c : Client) (p : Nat) : Decidable (SeesFront c p) := inferInstanceAs (Decidable (_ → _ → _ → _))

/-- The steps that keep the wake-up: every reply to the front of the ring sees that it is the front. -/
def Seen (c : Client) : Label → Prop
  | .reply pIdenty _ _ => SeesFront c pIdenty
  | .replyErr pIdenty _ => SeesFront c pIdenty
  | _ => True

instance decidableSeen (c : Client) : ∀ l, Decidable (Seen c l)
  | .reply .. => inferInstanceAs (Decidable (SeesFront ..))
  | .replyErr .. => inferInstanceAs (Decidable (SeesFront ..))
  | .request => isTrue trivial
  | .write _ => isTrue trivial
  | .close => isTrue trivial
  | .other _ => isTrue trivial

/-- A deliverable reply has a write event. -/
def Awake (c : Client) : Prop :=
  ∀ p, c.ring[0]? = some p → (c.x.st.ids p).iWaitDone = true → c.x.ev.mask.writable = true

variable {self : Nat} {c c' : Client}
variable {p : Nat}

/-- The reply to the front of the ring asks for a write event unless there is one. -/
theorem wakes_front {base : Nat} (hinv : AccessEvent.Inv c.x c.replies base) (hp : c.ring[0]? = some p)
    (hw : c.x.ev.mask.writable = false)
    (hpart : ¬AccessEvent.Partial (c.x.st.ids p)) (hseen : SeesFront c p) {i : MsgIdenty} :
    AccessEvent.wakes (c.x.st.setId p i) c.x.ev (c.x.st.ids p).ulIndex = true := by
  have hidx := hinv.idx 0 p hp
  rw [Nat.add_zero] at hidx
  have hne : c.x.ev.waitRing.toList ≠ [] := List.ne_nil_of_mem (List.mem_of_getElem? hp)
  have hpre := hinv.getPre_front hne
  have hmis : c.misread p = c.x.ev.waitRing.getPre base := by
    rw [misread, hidx]
    exact hpre.symm
  unfold AccessEvent.wakes
  rw [hidx, ← hmis]
  cases hq : c.misread p with
  | none => rfl
  | some q =>
    have hnot := hseen hp hw hpart q hq
    -- the identity that `GetPre` finds is not the front itself
    have hqp : q ≠ p := by
      rintro rfl
      rw [misread] at hq
      split_ifs at hq
      · exact absurd (hinv.index_inj hp hq) (by decide)
      · exact absurd (hinv.index_inj hp hq) (by decide)
    dsimp only
    rw [Store.setId_ids_ne _ hqp]
    unfold Waiting at hnot
    cases h1 : (c.x.st.ids q).iWaitRsp <;> cases h2 : (c.x.st.ids q).iWaitDone <;>
      cases h3 : (c.x.st.ids q).iPreGood <;> simp_all

theorem replied_awake (ho : Ordered c) (hfd : 0 < c.x.ev.iFD) (h : Awake c) (hseen : SeesFront c p)
    (pData : Msg) (d : Option Nat) : 0 < (c.replied p pData
      (AccessEvent.doReply (c.x.st.setId p { c.x.st.ids p with pData := d }) c.x.ev pData p)).x.ev.iFD ∧
    Awake (c.replied p pData
      (AccessEvent.doReply (c.x.st.setId p { c.x.st.ids p with pData := d }) c.x.ev pData p)) := by
  obtain ⟨base, hinv⟩ := ho
  set st := c.x.st.setId p { c.x.st.ids p with pData := d } with hst
  have hids : st.ids p = { c.x.st.ids p with pData := d } := Store.setId_ids_self ..
  have hother : ∀ q, q ≠ p → st.ids q = c.x.st.ids q := fun q hq => Store.setId_ids_ne _ hq _
  by_cases hpart : AccessEvent.Partial (st.ids p)
  · rw [AccessEvent.doReply_partial pData hpart]
    refine ⟨hfd, fun q hq hd => h q hq ?_⟩
    by_cases hqp : q = p
    · subst hqp
      simpa [replied, AccessEvent.counted, hids] using hd
    · simpa [replied, Store.setId_ids_ne _ hqp, hother q hqp] using hd
  · obtain ⟨m, hrep, hm⟩ := AccessEvent.doReply_complete pData hpart
    rw [hrep]
    refine ⟨hfd, fun q hq hd => ?_⟩
    have hq' : c.ring[0]? = some q := hq
    by_cases hw : c.x.ev.mask.writable = true
    · rw [hm]
      split_ifs
      · exact Mask.addWrite_mono _ hw
      · exact hw
    · have hw' : c.x.ev.mask.writable = false := by simpa using hw
      by_cases hqp : q = p
      · subst hqp
        rw [hids] at hpart
        have hst₂ : ∀ i, st.setId q i = c.x.st.setId q i := by
          intro i
          simp [hst, Store.setId]
        rw [hst₂, hids] at hm
        rw [hm, if_pos (wakes_front hinv hq' hw' hpart hseen)]
        exact Mask.addWrite_writable _ hfd
      · refine absurd (h q hq' ?_) hw
        simpa [replied, Store.setId_ids_ne _ hqp, hother q hqp] using hd

/-- The invariant of the wake-up: the order of the ring, an open descriptor, and `Awake` while the
connection is open. -/
def WakeInv (c : Client) : Prop := Ordered c ∧ 0 < c.x.ev.iFD ∧ (c.isClosed = false → Awake c)

theorem step_wake {l : Label} (h : WakeInv c) (hl : Intended c l ∧ Seen c l) (hs : step self c l = some c') :
    WakeInv c' := by
  obtain ⟨ho, hfd, hawake⟩ := h
  refine ⟨step_ordered ho hl.1 hs, ?_⟩
  cases step_some hs with
  | closed => exact ⟨hfd, hawake⟩
  | full => exact ⟨hfd, hawake⟩
  | @request p st ev hopen ha =>
    obtain ⟨base, hinv⟩ := ho
    have hadd := AccessEvent.addIdenty_some hinv.pool ha
    refine ⟨?_, fun _ q hq hd => ?_⟩
    · show 0 < ev.iFD
      rw [hadd.fd]
      exact hfd
    · show ev.mask.writable = true
      change ev.waitRing.toList[0]? = some q at hq
      rw [hadd.mask]
      rw [hadd.ring] at hq
      cases hring : c.x.ev.waitRing.toList with
      | nil =>
        rw [hring] at hq
        obtain rfl : p = q := by simpa using hq
        exact absurd (hadd.done.symm.trans hd) (by decide)
      | cons r rest =>
        rw [hring] at hq
        obtain rfl : r = q := by simpa using hq
        have hmem : r ∈ c.x.ev.waitRing.toList := by simp [hring]
        rw [hadd.keep r hmem] at hd
        exact hawake hopen r (by simp [ring, hring]) hd
  | reply p block pData hopen =>
    obtain ⟨hfd', ha⟩ := replied_awake ho hfd (hawake hopen) hl.2 pData (some block)
    exact ⟨hfd', fun _ => ha⟩
  | replyErr p iErr hopen =>
    obtain ⟨hfd', ha⟩ := replied_awake ho hfd (hawake hopen) hl.2 (getErrMsg iErr) none
    exact ⟨hfd', fun _ => ha⟩
  | @write script iRet x hopen hw =>
    obtain ⟨base, hinv⟩ := ho
    obtain ⟨base', hwritten⟩ := AccessEvent.write_inv (AccessEvent.stable_inv c.replies) (hinv.script script) hw
    refine ⟨?_, fun _ q hq hd => ?_⟩
    · show 0 < x.ev.iFD
      rw [hwritten.frame.fd]
      exact hfd
    · change x.ev.waitRing.toList[0]? = some q at hq
      rcases hwritten.mask with hmask | hundone
      · rw [hmask]
        by_contra hnw
        -- without write interest the front had no reply, and the event changed nothing
        have hfront : ∀ p, c.x.ev.waitRing.toList[0]? = some p → (c.x.st.ids p).iWaitDone = false := by
          intro p hp
          by_contra hpd
          exact hnw (hawake hopen p hp (by simpa using hpd))
        obtain ⟨hring, hdone⟩ := AccessEvent.write_idle (x := { c.x with sock := { c.x.sock with script := script } }) hfront hw
        rw [hring] at hq
        rw [hdone q] at hd
        exact absurd ((hfront q hq).symm.trans hd) (by decide)
      · exact absurd ((hundone q hq).symm.trans hd) (by decide)
  | close => exact ⟨hfd, fun hopen => nomatch hopen⟩
  | other st hopen =>
    refine ⟨hfd, fun _ q hq hd => hawake hopen q hq ?_⟩
    rw [← (hl.1.1 q (List.mem_of_getElem? hq)).2]
    exact hd

/-- In every run in which each reply to the front of the ring sees that it is the front, an open
connection whose front identity has its reply is registered for writing. -/
theorem front_reply_keeps_write_interest (self : Nat) {st : Store} {ev : AccessEvent} (h : Start st ev)
    (ls : List Label) (hls : Meets (step self) (fun c l => Intended c l ∧ Seen c l) (start st ev) ls)
    (hrun : run (step self) (start st ev) ls = some c) (hopen : c.isClosed = false) :
    ∀ p, c.ring.head? = some p → (c.x.st.ids p).iWaitDone = true → c.x.ev.mask.writable = true := by
  have hstart : WakeInv (start st ev) := by
    refine ⟨start_ordered h, h.fd, fun _ p hp => ?_⟩
    simp [ring, start, h.ring] at hp
  obtain ⟨-, -, hawake⟩ := run_inv (fun _ _ _ hI hC hs => step_wake hI hC hs) ls _ c hstart hls hrun
  intro p hp hd
  rw [List.head?_eq_getElem?] at hp
  exact hawake hopen p hp hd

/-- The first of two requests is answered. -/
theorem front_reply_keeps_write_interest_two :
    let ls : List Label := [.request, .request, .replyErr 1 .pong]
    ∃ c, run (step 0) (start .init (.init 7 0)) ls = some c ∧ c.isClosed = false ∧
      ∀ p, c.ring.head? = some p → (c.x.st.ids p).iWaitDone = true → c.x.ev.mask.writable = true := by
  intro ls
  obtain ⟨c, hc⟩ : ∃ c, run (step 0) (start .init (.init 7 0)) ls = some c := Option.isSome_iff_exists.mp rfl
  have hopen : (run (step 0) (start .init (.init 7 0)) ls).map Client.isClosed = some false := rfl
  rw [hc, Option.map_some, Option.some.injEq] at hopen
  exact ⟨c, hc, hopen,
    front_reply_keeps_write_interest 0 (start_init Store.init_poolOK (by decide) 0) ls (by decide) hc hopen⟩

/-- A client sends sixteen requests, and the first is answered before the sixteenth. `GetPre` of index
0 finds the sixteenth, and the reply is left without a write event. -/
theorem first_reply_without_write_interest :
    let ls : List Label := List.replicate 16 .request ++ [.replyErr 1 .pong]
    Meets (step 0) Intended (start .init (.init 7 0)) ls ∧
      ∃ c, run (step 0) (start .init (.init 7 0)) ls = some c ∧ c.isClosed = false ∧
        c.ring.head? = some 1 ∧ (c.x.st.ids 1).iWaitDone = true ∧ c.x.ev.mask.writable = false := by
  intro ls
  refine ⟨by decide, ?_⟩
  obtain ⟨c, hc⟩ : ∃ c, run (step 0) (start .init (.init 7 0)) ls = some c := Option.isSome_iff_exists.mp rfl
  have hview : (run (step 0) (start .init (.init 7 0)) ls).map
      (fun c => (c.isClosed, c.ring.head?, (c.x.st.ids 1).iWaitDone, c.x.ev.mask.writable)) =
        some (false, some 1, true, false) := rfl
  rw [hc] at hview
  simp only [Option.map_some, Option.some.injEq, Prod.mk.injEq] at hview
  exact ⟨c, hc, hview⟩

end RedisProxy.Client
