import RedisProxy.Proofs.LostRequestProofs

/-!
# Proofs: the answers to a broadcast

A request counts its answers: the replies of the backends that have taken it, and one for each server
that `Broadcast` has skipped. The answers and the places that the request still has in rings make up the
number that it waits for, so it is complete when the last place is gone. What the client gets is the
answer that completes the request, whatever the others were.
-/

namespace RedisProxy

/-! ## Counting answers -/

/-- The places of a request that is complete are gone, and those of a broadcast that is not are at most
the answers that are missing. One answer completes a request. -/
structure Token.Tally (t : Token) (inFlight held : Nat) (isLoop : Prop) : Prop where
  done : t.iWaitDone = true → inFlight + held = 0
  one : t.iWaitDone = false → t.iBroadcast = false → inFlight + held ≤ 1
  all : t.iWaitDone = false → t.iBroadcast = true → inFlight + held + t.iGotNum ≤ t.iNeedWaitNum
  loop : isLoop → t.iWaitDone = false ∧ t.iBroadcast = true
  once : t.replies.countP (·.2) = t.iWaitDone.toNat

/-- The requests of clients are tallied. -/
def Token.Tallied (t : Token) (inFlight held : Nat) (isLoop : Prop) : Prop :=
  t.OfClient → t.Tally inFlight held isLoop

namespace Token

variable {t : Token} {f k : Nat} {i : Prop}

theorem need_le_of_complete (h : ¬t.Partial) : t.iNeedWaitNum ≤ 1 ∨ t.iNeedWaitNum ≤ t.iGotNum + 1 := by
  by_contra hcon
  exact h ⟨by omega, by omega⟩

/-- The tally only depends on the counts, and places may go. -/
theorem Tally.congr {u : Token} {f' k' : Nat} (h : t.Tally f k i) (hd : u.iWaitDone = t.iWaitDone)
    (hb : u.iBroadcast = t.iBroadcast) (hn : u.iNeedWaitNum = t.iNeedWaitNum) (hl : u.replies = t.replies)
    (hle : f' + k' ≤ f + k) (hsum : f' + k' + u.iGotNum ≤ f + k + t.iGotNum) : u.Tally f' k' i := by
  obtain ⟨hdone, hone, hall, hloop, honce⟩ := h
  constructor <;> simp only [hd, hb, hn, hl]
  · intro hdn
    have := hdone hdn
    omega
  · intro hdn hbc
    have := hone hdn hbc
    omega
  · intro hdn hbc
    have := hall hdn hbc
    omega
  · exact hloop
  · exact honce

/-- A request in hands is not complete. -/
theorem Tally.waits (h : t.Tally f 1 i) : t.iWaitDone = false := by
  by_contra hne
  have := h.done (by simpa using hne)
  omega

/-- No place is left after an answer that completes the request. -/
theorem Tally.last_place (h : t.Tally f 1 i) (hpart : ¬t.Partial) : f = 0 := by
  by_cases hbc : t.iBroadcast = true
  · have hall := h.all h.waits hbc
    rcases need_le_of_complete hpart with hn | hn <;> omega
  · have hone := h.one h.waits (Bool.eq_false_iff.mpr hbc)
    omega

/-- An answer that completes the request. -/
theorem Tally.complete (hc : t.OfClient) (hwait : t.iWaitDone = false) (honce : t.replies.countP (·.2) = t.iWaitDone.toNat)
    (hpart : ¬t.Partial) (m : List UInt8) : (t.reply m).Tally 0 0 False := by
  rw [hwait] at honce
  rw [reply_of_client t m hc]
  constructor <;> simp only [hwait, hpart, decide_false, Bool.not_false, Bool.or_true]
  · exact fun _ => trivial
  · exact fun hd => nomatch hd
  · exact fun hd => nomatch hd
  · exact fun hi => hi.elim
  · rw [List.countP_append, honce]
    rfl

theorem Tally.reply (hc : t.OfClient) (h : t.Tally f 1 False) (m : List UInt8) : (t.reply m).Tally f 0 False := by
  have hwait := h.waits
  by_cases hpart : t.Partial
  · have honce := h.once
    rw [hwait] at honce
    rw [reply_of_client t m hc]
    constructor <;> simp only [hwait, hpart, decide_true, Bool.not_true, Bool.or_self]
    · exact fun hd => nomatch hd
    · intro _ hbc
      have := h.one hwait hbc
      omega
    · intro _ hbc
      have := h.all hwait hbc
      omega
    · exact fun hi => hi.elim
    · rw [List.countP_append, honce]
      rfl
  · rw [h.last_place hpart]
    exact .complete hc hwait h.once hpart m

/-- `Broadcast` has skipped all servers: the error completes the request. -/
theorem Tally.nobody (hc : t.OfClient) (h : t.Tally f 0 True) (hgot : t.iGotNum = t.iNeedWaitNum) (m : List UInt8) :
    (t.reply m).Tally f 0 False := by
  obtain ⟨hwait, hbc⟩ := h.loop trivial
  have hall := h.all hwait hbc
  have hzero : f = 0 := by omega
  rw [hzero]
  exact .complete hc hwait h.once (fun hpart => by have := hpart.2; omega) m

/-- A new request has one place and no answers. -/
theorem Tally.ask {c j : Nat} (h : Flow.Blank t) :
    Tally { t with pAccessEvent := some (.client c), ulIndex := j } 0 1 False where
  done hd := absurd hd (by simp [h.done])
  one _ _ := le_rfl
  all _ hbc := absurd hbc (by simp [h.broadcast])
  loop hi := hi.elim
  once := by simp [h.done, h.replies]

theorem Tally.broadcast (h : t.Tally f 1 False) (hbc : t.iBroadcast = false) (hgot : t.iGotNum = 0) (n : Nat) :
    Tally { t with iBroadcast := true, iNeedWaitNum := n, hasReq := true } f n True where
  done hd := absurd hd (by simp [h.waits])
  one _ hb := nomatch hb
  all _ _ := by
    have hone := h.one h.waits hbc
    dsimp only
    omega
  loop _ := ⟨h.waits, rfl⟩
  once := h.once

theorem tallied_rule {keep last : Prop} : Rule True keep last Tallied where
  other hc := fun hc' => absurd hc' hc
  ask hblank hf := by
    rw [hf trivial]
    exact fun _ => .ask hblank
  setReq h := fun hc => (h hc).congr rfl rfl rfl rfl le_rfl le_rfl
  push hc _ h := fun _ => (h hc).congr rfl rfl rfl rfl (by omega) (by dsimp only; omega)
  pop h := fun hc => (h hc).congr rfl rfl rfl rfl (by omega) (by omega)
  reply hc _ h := fun _ => (h hc).reply hc _
  letGo h := fun hc => (h hc).congr rfl rfl rfl rfl le_rfl le_rfl
  broadcast hc hbc hgot _ h := fun _ => (h hc).broadcast hbc hgot _
  skip hc _ h := fun _ => (h hc).congr rfl rfl rfl rfl (by omega) (by dsimp only; omega)
  nobody hc hgot _ h := fun _ => (h hc).nobody hc hgot _
  sent _ h := fun hc => ⟨(h hc).done, (h hc).one, (h hc).all, fun hi => hi.elim, (h hc).once⟩
  wipe hle _ h := fun hc => (h hc).congr rfl rfl rfl rfl (by omega) (by omega)

/-! ## The answers to `_RESET_` -/

/-- The answers to a `_RESET_`. While servers are skipped none of them has taken it. Later all answers
that have been counted are replies without an error, or one that is missing will not come. If the
client's answer is no error, all servers have answered without one. -/
structure Truth (t : Token) (inFlight held : Nat) (isLoop : Prop) : Prop where
  log : t.replies.length ≤ t.iGotNum
  skipped : isLoop → t.pRedisEvent = none → t.iGotNum + held = t.iNeedWaitNum
  taken : isLoop → t.pRedisEvent ≠ none → t.iGotNum = 0
  empty : isLoop → t.replies = []
  waits : ¬isLoop → t.iBroadcast = true → t.iWaitDone = false →
    (t.replies.length = t.iGotNum ∧ ∀ r ∈ t.replies, ¬IsErr r.1 ∧ r.2 = false) ∨
      inFlight + held + t.iGotNum < t.iNeedWaitNum
  done : t.iBroadcast = true → t.iWaitDone = true → ∀ m, (m, true) ∈ t.replies → ¬IsErr m →
    t.replies.length = t.iNeedWaitNum ∧ ∀ r ∈ t.replies, ¬IsErr r.1

/-- A tallied request, and what its answers say. -/
def Truthful (t : Token) (inFlight held : Nat) (isLoop : Prop) : Prop :=
  t.OfClient → t.Tally inFlight held isLoop ∧ t.Truth inFlight held isLoop

/-- Outside of the loop only the counts matter, and places may go. -/
theorem Truth.congr {u : Token} {f' k' : Nat} (h : t.Truth f k False) (hd : u.iWaitDone = t.iWaitDone)
    (hb : u.iBroadcast = t.iBroadcast) (hn : u.iNeedWaitNum = t.iNeedWaitNum) (hl : u.replies = t.replies)
    (hg : u.iGotNum = t.iGotNum) (hle : f' + k' ≤ f + k) : u.Truth f' k' False := by
  constructor <;> simp only [hd, hb, hn, hl, hg]
  · exact h.log
  · exact fun hi => hi.elim
  · exact fun hi => hi.elim
  · exact fun hi => hi.elim
  · intro hi hbc hdn
    exact (h.waits hi hbc hdn).imp id fun hlt => by omega
  · exact h.done

/-- An answer that does not complete the request. -/
theorem Truth.reply_early (hc : t.OfClient) (htal : t.Tally f 1 False) (h : t.Truth f 1 False) (hpart : t.Partial)
    {m : List UInt8} (hm : t.IsReset → IsErr m → f = 0) : (t.reply m).Truth f 0 False := by
  have hwait := htal.waits
  have hlog := h.log
  rw [reply_of_client t m hc]
  constructor <;> simp only [hwait, hpart, decide_true, Bool.not_true, Bool.or_self, List.length_append, List.length_singleton]
  · omega
  · exact fun hi => hi.elim
  · exact fun hi => hi.elim
  · exact fun hi => hi.elim
  · intro hi hbc _
    rcases h.waits hi hbc hwait with ⟨hlen, hall⟩ | hlt
    · by_cases herr : IsErr m
      · -- it is the last answer, but not the last one that the request waits for
        have hf := hm ⟨hc, hbc⟩ herr
        obtain ⟨-, hlt⟩ := hpart
        omega
      · left
        refine ⟨by omega, fun r hr => ?_⟩
        rcases List.mem_append.mp hr with hr | hr
        · exact hall r hr
        · obtain rfl := List.mem_singleton.mp hr
          exact ⟨herr, rfl⟩
    · right
      omega
  · exact fun _ hd => nomatch hd

/-- The answer that completes the request. -/
theorem Truth.reply_last (hc : t.OfClient) (htal : t.Tally f 1 False) (h : t.Truth f 1 False) (hpart : ¬t.Partial)
    (m : List UInt8) : (t.reply m).Truth f 0 False := by
  have hwait := htal.waits
  have hlog := h.log
  rw [reply_of_client t m hc]
  constructor <;> simp only [hwait, hpart, decide_false, Bool.not_false, Bool.or_true, List.length_append, List.length_singleton]
  · omega
  · exact fun hi => hi.elim
  · exact fun hi => hi.elim
  · exact fun hi => hi.elim
  · exact fun _ _ hd => nomatch hd
  · intro hbc _ m' hm' herr
    have hle := htal.all hwait hbc
    have hneed := need_le_of_complete hpart
    rcases h.waits id hbc hwait with ⟨hlen, hall⟩ | hlt
    · -- the answers before it did not complete the request
      have hmm : m' = m := by
        rcases List.mem_append.mp hm' with hmem | hmem
        · exact absurd (hall _ hmem).2 (by simp)
        · exact (Prod.mk.inj (List.mem_singleton.mp hmem)).1
      refine ⟨by omega, fun r hr => ?_⟩
      rcases List.mem_append.mp hr with hr | hr
      · exact (hall r hr).1
      · obtain rfl := List.mem_singleton.mp hr
        exact hmm ▸ herr
    · omega

theorem Truth.nobody (hc : t.OfClient) (htal : t.Tally f 0 True) (h : t.Truth f 0 True)
    (hgot : t.iGotNum = t.iNeedWaitNum) {m : List UInt8} (hm : IsErr m) : (t.reply m).Truth f 0 False := by
  obtain ⟨hwait, -⟩ := htal.loop trivial
  have hempty := h.empty trivial
  have hpart : ¬t.Partial := by
    rintro ⟨-, hlt⟩
    omega
  rw [reply_of_client t m hc]
  constructor <;> simp only [hwait, hpart, hempty, decide_false, Bool.not_false, Bool.or_true, List.nil_append, List.length_singleton]
  · omega
  · exact fun hi => hi.elim
  · exact fun hi => hi.elim
  · exact fun hi => hi.elim
  · exact fun _ _ hd => nomatch hd
  · intro _ _ m' hm' herr
    obtain ⟨rfl, -⟩ := Prod.mk.inj (List.mem_singleton.mp hm')
    exact absurd hm herr

theorem Truth.broadcast (h : t.Truth f 1 False) (hgot : t.iGotNum = 0) (hwait : t.iWaitDone = false) (n : Nat) :
    Truth { t with iBroadcast := true, iNeedWaitNum := n, hasReq := true } f n True where
  log := h.log
  skipped _ _ := by
    dsimp only
    omega
  taken _ _ := hgot
  empty _ := by
    have hlog := h.log
    rw [hgot] at hlog
    exact List.length_eq_zero_iff.mp (Nat.le_zero.mp hlog)
  waits hi := absurd trivial hi
  done _ hd := absurd hd (by simp [hwait])

theorem Truth.skip (h : t.Truth f (k + 1) True) (hwait : t.iWaitDone = false) (hr : t.pRedisEvent = none) :
    Truth { t with iGotNum := t.iGotNum + 1 } f k True where
  log := Nat.le_succ_of_le h.log
  skipped _ _ := by
    have := h.skipped trivial hr
    dsimp only
    omega
  taken _ hne := absurd hr hne
  empty := h.empty
  waits hi := absurd trivial hi
  done _ hd := absurd hd (by simp [hwait])

/-- A request is queued. A `_RESET_` is queued in the loop only, and no server has been skipped. -/
theorem Truth.push {b : Nat} (htal : t.Tally f (k + 1) i) (h : t.Truth f (k + 1) i) (hc : t.OfClient)
    (hl : t.IsReset → i ∧ t.iGotNum = 0) : Truth { t with pRedisEvent := some b } (f + 1) k i where
  log := h.log
  skipped _ hr := nomatch hr
  taken hi _ := (hl ⟨hc, (htal.loop hi).2⟩).2
  empty := h.empty
  waits hi hbc := absurd (hl ⟨hc, hbc⟩).1 hi
  done := h.done

/-- The loop is over and some server has taken the request. -/
theorem Truth.sent (htal : t.Tally f 0 True) (h : t.Truth f 0 True) (hgot : t.iGotNum ≠ t.iNeedWaitNum) :
    t.Truth f 0 False where
  log := h.log
  skipped hi := hi.elim
  taken hi := hi.elim
  empty hi := hi.elim
  waits _ _ _ := by
    left
    have hempty := h.empty trivial
    have hzero : t.iGotNum = 0 := by
      by_cases hr : t.pRedisEvent = none
      · exact absurd (h.skipped trivial hr) hgot
      · exact h.taken trivial hr
    rw [hempty, hzero]
    exact ⟨rfl, fun r hr => nomatch hr⟩
  done _ hd := absurd hd (by simp [(htal.loop trivial).1])

theorem Truth.setReq (h : t.Truth f k i) : Truth { t with hasReq := true } f k i :=
  ⟨h.log, h.skipped, h.taken, h.empty, h.waits, h.done⟩

theorem Truth.ask {c j : Nat} (h : Flow.Blank t) :
    Truth { t with pAccessEvent := some (.client c), ulIndex := j } f k False where
  log := by simp [h.replies]
  skipped hi := hi.elim
  taken hi := hi.elim
  empty hi := hi.elim
  waits _ hbc := absurd hbc (by simp [h.broadcast])
  done hbc := absurd hbc (by simp [h.broadcast])

theorem truthful_rule {keep : Prop} : Rule True keep True Truthful := by
  have htal : Rule True keep True Tallied := tallied_rule
  constructor
  · exact fun hc hc' => absurd hc' hc
  · exact fun hblank hf hc => ⟨htal.ask hblank hf hc, .ask hblank⟩
  · exact fun h hc => ⟨htal.setReq (fun hc => (h hc).1) hc, (h hc).2.setReq⟩
  · exact fun hc hl h hc' => ⟨htal.push hc hl (fun hc => (h hc).1) hc', (h hc).2.push (h hc).1 hc (hl trivial)⟩
  · exact fun h hc => ⟨htal.pop (fun hc => (h hc).1) hc, (h hc).2.congr rfl rfl rfl rfl rfl (by omega)⟩
  · intro t f m hc hm h hc'
    refine ⟨htal.reply hc hm (fun hc => (h hc).1) hc', ?_⟩
    by_cases hpart : t.Partial
    · exact (h hc).2.reply_early hc (h hc).1 hpart (hm trivial)
    · exact (h hc).2.reply_last hc (h hc).1 hpart m
  · exact fun h hc => ⟨htal.letGo (fun hc => (h hc).1) hc, (h hc).2.congr rfl rfl rfl rfl rfl le_rfl⟩
  · exact fun hc hbc hgot hd h hc' =>
      ⟨htal.broadcast hc hbc hgot hd (fun hc => (h hc).1) hc', (h hc).2.broadcast hgot hd _⟩
  · exact fun hc hl h hc' =>
      ⟨htal.skip hc hl (fun hc => (h hc).1) hc', (h hc).2.skip ((h hc).1.loop trivial).1 (hl trivial)⟩
  · exact fun hc hgot hm h hc' => ⟨htal.nobody hc hgot hm (fun hc => (h hc).1) hc', (h hc).2.nobody hc (h hc).1 hgot hm⟩
  · exact fun hgot h hc => ⟨htal.sent hgot (fun hc => (h hc).1) hc, (h hc).2.sent (h hc).1 hgot⟩
  · exact fun hle hk h hc => ⟨htal.wipe hle hk (fun hc => (h hc).1) hc, (h hc).2.congr rfl rfl rfl rfl rfl (by omega)⟩

end Token

/-- Identities that are not reused while they are in a ring start without places. -/
theorem FlowSteps.each_noReuse {P : Token → Nat → Nat → Prop → Prop} {keep last : Prop} {s s' : FlowState}
    (rule : Token.Rule True keep last P) (hs : FlowSteps True keep last s s') (hw : s.v.Wf) (hno : NoReuse s)
    (h : s.Each P) : s'.Each P := by
  refine FlowSteps.each rule hs hw (fun _ s₁ hrun q hq => ?_) h
  have := (FlowSteps.noReuse hrun hw hno).clean q hq
  omega

/-! ## The proxy -/

namespace Proxy

open Lib List Option

/-- The clients leave no broadcast behind in several rings, and no ring that is in use is wiped. -/
def AnsweredOK (w : Proxy) (l : Label) : Prop := w.CloseOK l ∧ w.ReInitOK l

/-- The invariant of such runs. -/
structure Answered (w : Proxy) : Prop where
  clean : w.Clean
  noLoss : NoLoss ⟨w.flow, 0, 0, false⟩
  tally : FlowState.Each Token.Tallied ⟨w.flow, 0, 0, false⟩

theorem init_answered : init.Answered :=
  have hrule : Token.Rule True True True Token.Tallied := Token.tallied_rule
  ⟨⟨init_good, init_noReuse⟩, init_noLoss, init_each hrule⟩

theorem step_answered (cfg : Config) (w : Proxy) (l : Label) (w' : Proxy) (h : w.exited = false → w.Answered)
    (hok : w.AnsweredOK l) (hs : w.step cfg l = some w') (hexit : w'.exited = false) : w'.Answered := by
  obtain ⟨⟨hgood, hno⟩, hloss, htally⟩ := h (step_exited hs hexit)
  obtain ⟨q, hfol⟩ : ∃ q, Follows True True False ⟨w.flow, 0, 0, false⟩ w' q 0 false :=
    step_follows hgood (fun _ => hok.1) (fun _ => hok.2) (fun hf => hf.elim) hs hexit 0
  have htally' := FlowSteps.each_noReuse Token.tallied_rule hfol.steps hgood.wf hno htally
  refine ⟨⟨hfol.good hgood.wf, NoReuse.forget (FlowSteps.noReuse hfol.steps hgood.wf hno) 0⟩, ?_, htally'.forget 0⟩
  exact FlowState.Each.forget (FlowSteps.noLoss hfol.steps hgood.wf hloss) 0

/-- In every state that the proxy reaches, a request in the ring of a client is complete exactly if no
backend's ring holds it any more, and one answer has completed it. -/
theorem done_iff_all_answered (cfg : Config) (ls : List Label) {w : Proxy} (hok : Meets (step cfg) AnsweredOK init ls)
    (hrun : run (step cfg) init ls = some w) (hexit : w.exited = false) (c p : Nat)
    (hp : p ∈ (w.clients c).ev.waitRing.toList) :
    ((w.st.ids p).iWaitDone = true ↔ ∀ b, p ∉ (w.backends b).ev.waitRing.toList) ∧
      (w.st.ids p).replies.countP (·.2) = (w.st.ids p).iWaitDone.toNat := by
  have hans : w.exited = false → w.Answered :=
    run_inv (fun w l w' => step_answered cfg w l w') ls init w (fun _ => init_answered) hok hrun
  obtain ⟨⟨hgood, hno⟩, hloss, htally⟩ := hans hexit
  have howner : (w.flow.ids p).OfClient := ⟨c, (hgood.wf.client c p).mpr hp⟩
  have htal := htally.rest p howner
  refine ⟨⟨fun hdone b hmem => ?_, fun hnone => ?_⟩, htal.once⟩
  · have hzero := htal.done hdone
    have hle := w.flow.count_le_inFlight (hgood.wf.ring_lt hmem) p
    have hpos : 0 < (w.flow.redisRing b).count p := count_pos_iff.mpr hmem
    omega
  · by_contra hne
    obtain ⟨-, -, hplace⟩ := FlowState.Each.rest hloss p howner (Bool.eq_false_iff.mpr hne)
    obtain ⟨b, -, hmem⟩ := w.flow.exists_of_inFlight (hplace id)
    exact hnone b hmem

instance decidableAnsweredOK (w : Proxy) (l : Label) : Decidable (w.AnsweredOK l) := inferInstanceAs (Decidable (_ ∧ _))

theorem done_iff_all_answered_two :
    let ls : List Label := [.addServer (.inProgress 0), .addServer (.inProgress 1), .accept 0,
      .request 0 crlfMsg .reset, .reply 1 okMsg .plain .socketError, .backendClose 0 .socketError]
    ∃ w, run (step plainConfig) init ls = some w ∧ 1 ∈ (w.clients 0).ev.waitRing.toList ∧
      ((w.st.ids 1).iWaitDone = true ↔ ∀ b, 1 ∉ (w.backends b).ev.waitRing.toList) ∧
        (w.st.ids 1).replies.countP (·.2) = (w.st.ids 1).iWaitDone.toNat := by
  intro ls
  obtain ⟨w, hw, hview⟩ : ∃ w, run (step plainConfig) init ls = some w ∧
      (w.exited, (w.clients 0).ev.waitRing.toList) = (false, [1]) := map_eq_some_iff.mp rfl
  obtain ⟨hexit, hring⟩ := Prod.mk.inj hview
  have hmem : 1 ∈ (w.clients 0).ev.waitRing.toList := by rw [hring]; simp
  exact ⟨w, hw, hmem, done_iff_all_answered plainConfig ls (by decide) hw hexit 0 1 hmem⟩

/-- The first client leaves after a `_RESET_` to two backends, and the reply of one of them recycles its
identity, which the `_RESET_` of the next client gets. The reply of the other backend to the first one
then counts for the second one, which is complete before that backend has answered it. -/
theorem done_before_answered :
    let ls : List Label := [.addServer (.inProgress 0), .addServer (.inProgress 1), .accept 0,
      .request 0 crlfMsg .reset, .clientClose 0, .reply 0 okMsg .plain .socketError, .accept 1,
      .request 1 crlfMsg .reset, .reply 1 okMsg .plain .socketError, .reply 0 okMsg .plain .socketError]
    ∃ w, run (step plainConfig) init ls = some w ∧ w.exited = false ∧ 1 ∈ (w.clients 1).ev.waitRing.toList ∧
      (w.st.ids 1).iWaitDone = true ∧ 1 ∈ (w.backends 1).ev.waitRing.toList := by
  intro ls
  obtain ⟨w, hw, hview⟩ : ∃ w, run (step plainConfig) init ls = some w ∧
      (w.exited, (w.clients 1).ev.waitRing.toList, (w.st.ids 1).iWaitDone, (w.backends 1).ev.waitRing.toList) =
        (false, [1], true, [1]) := map_eq_some_iff.mp (by decide +kernel)
  simp only [Prod.mk.injEq] at hview
  obtain ⟨hexit, hclient, hdone, hring⟩ := hview
  exact ⟨w, hw, hexit, by rw [hclient]; simp, hdone, by rw [hring]; simp⟩

/-! ### The answers to `_RESET_` -/

/-- The clients leave no broadcast behind in several rings, and a server fails a `_RESET_` only as the
last of those that have taken it, or if none of them takes it. -/
def TruthfulOK (cfg : Config) (w : Proxy) (l : Label) : Prop := w.CloseOK l ∧ w.ResetOK cfg l

/-- The invariant of such runs. -/
structure Frank (w : Proxy) : Prop where
  clean : w.Clean
  truthful : FlowState.Each Token.Truthful ⟨w.flow, 0, 0, false⟩

theorem init_frank : init.Frank :=
  have hrule : Token.Rule True True True Token.Truthful := Token.truthful_rule
  ⟨⟨init_good, init_noReuse⟩, init_each hrule⟩

theorem step_frank (cfg : Config) (w : Proxy) (l : Label) (w' : Proxy) (h : w.exited = false → w.Frank)
    (hok : w.TruthfulOK cfg l) (hs : w.step cfg l = some w') (hexit : w'.exited = false) : w'.Frank := by
  obtain ⟨⟨hgood, hno⟩, htruth⟩ := h (step_exited hs hexit)
  obtain ⟨q, hfol⟩ : ∃ q, Follows True False True ⟨w.flow, 0, 0, false⟩ w' q 0 false :=
    step_follows hgood (fun _ => hok.1) (fun hf => hf.elim) (fun _ => hok.2) hs hexit 0
  have htruth' := FlowSteps.each_noReuse Token.truthful_rule hfol.steps hgood.wf hno htruth
  exact ⟨⟨hfol.good hgood.wf, NoReuse.forget (FlowSteps.noReuse hfol.steps hgood.wf hno) 0⟩, htruth'.forget 0⟩

instance decidableOfClient (t : Token) : Decidable t.OfClient :=
  match h : t.pAccessEvent with
  | some (.client c) => isTrue ⟨c, h⟩
  | some (.redis _) | none => isFalse (by rintro ⟨c, hc⟩; rw [h] at hc; exact absurd hc (by simp))

instance decidableIsReset (t : Token) : Decidable t.IsReset := inferInstanceAs (Decidable (_ ∧ _))

instance decidableAlone (v : Flow) (b : Nat) : Decidable (Alone v b) :=
  inferInstanceAs (Decidable (∀ p ∈ v.redisRing b, (v.ids p).IsReset → v.inFlight p = 1))

instance decidableConnectOK (w : Proxy) : ∀ pServer, Decidable (w.ConnectOK pServer)
  | none => isFalse id
  | some _ => inferInstanceAs (Decidable (_ ∨ _))

instance decidableAgree (w : Proxy) : Decidable (Agree w) :=
  inferInstanceAs (Decidable ((∀ s ∈ w.vServers, w.ConnectOK s) ∨ ∀ s ∈ w.vServers, ¬w.ConnectOK s))

instance decidableRequestIsReset : ∀ req : Request, Decidable req.IsReset
  | .reset => isTrue trivial
  | .answer _ | .clusterSlots _ | .forward _ => isFalse id

instance decidableAnswerOK (cfg : Config) (w : Proxy) (b : Nat) (m : Msg) (rsp : Reply) : Decidable (AnswerOK cfg w b m rsp) :=
  inferInstanceAs (Decidable (∀ p ∈ (w.flow.redisRing b).head?, (w.flow.ids p).IsReset →
    (cfg.mode = .cluster → rsp = .plain) ∧ (IsErr m.bytes → w.flow.inFlight p = 1)))

instance decidableWorks (bConnected : Bool) (script : List WritevRet) : Decidable (Works bConnected script) :=
  inferInstanceAs (Decidable (_ ∧ _ ∉ _ ∧ _ ∉ _))

instance decidableResetOK (cfg : Config) (w : Proxy) : ∀ l, Decidable (w.ResetOK cfg l)
  | .request _ _ req => inferInstanceAs (Decidable (req.IsReset → Agree w))
  | .reply b m rsp _ => decidableAnswerOK cfg w b m rsp
  | .backendWrite b bConnected script _ => inferInstanceAs (Decidable (Works bConnected script ∨ Alone w.flow b))
  | .backendClose b _ => decidableAlone w.flow b
  | .statusTimer b bConnected _ => inferInstanceAs (Decidable (bConnected = true ∨ Alone w.flow b))
  | .addServer _ | .reroute _ | .accept _ | .growClient .. | .clientWrite .. | .clientClose _ | .growBackend ..
  | .reconnectTimer .. | .tick _ => isTrue trivial

instance decidableTruthfulOK (cfg : Config) (w : Proxy) (l : Label) : Decidable (w.TruthfulOK cfg l) :=
  inferInstanceAs (Decidable (_ ∧ _))

end Proxy

end RedisProxy
