import RedisProxy.Epoll

/-! # The interest list follows the masks -/

namespace RedisProxy

theorem Mask.ne_none_join {a b : Mask} (h : b ≠ .none) : a.join b ≠ .none := by
  rw [Ne, Mask.none, Mask.mk.injEq] at *
  grind [Mask.join]

@[simp] theorem Mask.without_both (a : Mask) : a.without ⟨true, true⟩ = .none := by simp [without, none]

namespace Epoll

/-- What the interest list holds for the descriptor of event `c` with mask `m`. -/
def Shows (c : Nat) (m : Mask) : Option EpollData → Prop
  | none => m = .none
  | some d => m ≠ .none ∧ d.ptr = c ∧ d.epollout = m.writable ∧ (m.readable → d.epollin)

structure Inv (s : Epoll) : Prop where
  idle : ∀ c, (s.events c).iFD = 0 → (s.events c).iMask = .none
  inj : ∀ c c', (s.events c).iFD ≠ 0 → (s.events c).iFD = (s.events c').iFD → c = c'
  shows : ∀ c, (s.events c).iFD ≠ 0 → Shows c (s.events c).iMask (s.interest (s.events c).iFD)
  owned : ∀ fd d, s.interest fd = some d → fd ≠ 0 ∧ (s.events d.ptr).iFD = fd

/-- Sets the event `c` and the entry for the descriptor `fd`. -/
def put (s : Epoll) (c fd : Nat) (e : EpollEvent) (o : Option EpollData) : Epoll :=
  { s.setEvent c e with interest := Function.update s.interest fd o }

variable {s : Epoll} {c fd : Nat} {e : EpollEvent} {o : Option EpollData} {m : Mask}

/-- Every operation changes one event and what the list holds for its descriptor. -/
theorem Inv.put (h : s.Inv) (hfd : fd ≠ 0)
    (hold : (s.events c).iFD = fd ∨ (s.events c).iFD = 0 ∧ ∀ x, (s.events x).iFD ≠ fd)
    (he : e.iFD = fd ∧ Shows c e.iMask o ∨ e = {} ∧ o = none) : (s.put c fd e o).Inv := by
  have hev x : (s.put c fd e o).events x = if x = c then e else s.events x := Function.update_apply ..
  have hin f : (s.put c fd e o).interest f = if f = fd then o else s.interest f := Function.update_apply ..
  obtain ⟨hidle, hinj, hshows, howned⟩ := h
  have hfree : ∀ x, x ≠ c → (s.events x).iFD ≠ fd := by grind
  rcases he with ⟨he, ho⟩ | ⟨rfl, rfl⟩
  · constructor <;> simp only [hev, hin]
    · grind
    · grind
    · grind
    · intro f d hd
      by_cases hf : f = fd
      · rw [if_pos hf] at hd
        subst hd
        grind [Shows]
      · grind
  · constructor <;> simp only [hev, hin] <;> grind

/-- The operation `AddEvent` chooses is the one the kernel accepts. -/
theorem Inv.addEvent (h : s.Inv) (c : Nat) (hm : m ≠ .none) : (s.addEvent c m).1.Inv ∧ (s.addEvent c m).2 = .ok := by
  by_cases hc : (s.events c).iFD = 0
  · simpa [Epoll.addEvent, hc] using h
  obtain ⟨j, hj⟩ : ∃ j, (s.events c).iMask.join m = j := ⟨_, rfl⟩
  have hj0 : Shows c j (some ⟨j.readable || j.writable, j.writable, c⟩) :=
    ⟨hj ▸ Mask.ne_none_join hm, rfl, rfl, fun hr => by simp [hr]⟩
  have hp := h.put (e := { s.events c with iMask := j }) hc (.inl rfl) (.inl ⟨rfl, hj0⟩)
  have hs := h.shows c hc
  cases hi : s.interest (s.events c).iFD with
  | none =>
    have hn : (s.events c).iMask = .none := by rwa [hi] at hs
    simpa [Epoll.addEvent, hc, hn, epollCtl, setEvent, hi, Epoll.put, ← hj] using hp
  | some d =>
    rw [hi] at hs
    simpa [Epoll.addEvent, hc, hs.1, epollCtl, setEvent, hi, Epoll.put, hj] using hp

/-- `DelEvent` leaves the rest of the mask registered; where nothing was, its `epoll_ctl` fails. -/
theorem Inv.delEvent_eq (h : s.Inv) (hc : (s.events c).iFD ≠ 0) (m : Mask) :
    ∃ o, Shows c ((s.events c).iMask.without m) o ∧ s.delEvent c m =
      s.put c (s.events c).iFD { s.events c with iMask := (s.events c).iMask.without m } o := by
  have hs := h.shows c hc
  by_cases hm0 : (s.events c).iMask.without m = .none
  · refine ⟨none, hm0, ?_⟩
    cases hi : s.interest (s.events c).iFD with
    | none =>
      have hu : Function.update s.interest (s.events c).iFD none = s.interest := by
        rw [← hi, Function.update_eq_self]
      simp [delEvent, hc, hm0, epollCtl, setEvent, hi, Epoll.put, hu]
    | some d => simp [delEvent, hc, hm0, epollCtl, setEvent, hi, Epoll.put]
  · obtain ⟨d, hi⟩ : ∃ d, s.interest (s.events c).iFD = some d := by
      refine Option.ne_none_iff_exists'.mp fun hi => hm0 ?_
      have hn : (s.events c).iMask = .none := by rwa [hi] at hs
      rw [hn]
      rfl
    refine ⟨some ⟨_, _, c⟩, ⟨hm0, rfl, rfl, id⟩, ?_⟩
    simp [delEvent, hc, hm0, epollCtl, setEvent, hi, Epoll.put]

theorem step_inv (s : Epoll) (l : Label) (s' : Epoll) (h : s.Inv) (hl : s.Proper l)
    (hs : s.step l = some s') : s'.Inv := by
  cases l with
  | connect c fd =>
    obtain ⟨hc, hfd, hnew⟩ := hl
    have hnone : s.interest fd = none :=
      Option.eq_none_iff_forall_ne_some.mpr fun d hd => hnew d.ptr (h.owned fd d hd).2
    have hp := h.put (e := { s.events c with iFD := fd }) (o := none) hfd (.inr ⟨hc, hnew⟩)
      (.inl ⟨rfl, h.idle c hc⟩)
    rw [Epoll.put, ← hnone, Function.update_eq_self] at hp
    cases hs
    exact hp
  | add c m =>
    cases hs
    exact (h.addEvent c hl).1
  | del c m =>
    cases hs
    by_cases hc : (s.events c).iFD = 0
    · simpa [delEvent, hc] using h
    · obtain ⟨o, ho, hd⟩ := h.delEvent_eq hc m
      rw [hd]
      exact h.put hc (.inl rfl) (.inl ⟨rfl, ho⟩)
  | close c =>
    cases hs
    by_cases hc : (s.events c).iFD = 0
    · simpa [close, hc] using h
    · obtain ⟨o, -, hd⟩ := h.delEvent_eq hc ⟨true, true⟩
      have hp := h.put hc (.inl rfl) (.inr ⟨rfl, rfl⟩)
      simpa [close, hc, hd, Epoll.put, setEvent] using hp

/-- In every reachable state the interest list agrees with the masks, its pointers are events with a
descriptor, and the next `AddEvent` succeeds. -/
theorem interest_follows_masks (ls : List Label) (s : Epoll) (hm : Lib.Meets step Proper init ls)
    (hr : Lib.run step init ls = some s) :
    (∀ c, (s.events c).iFD ≠ 0 → Shows c (s.events c).iMask (s.interest (s.events c).iFD)) ∧
      (∀ fd d, s.interest fd = some d → fd ≠ 0 ∧ (s.events d.ptr).iFD = fd) ∧
      ∀ c m, m ≠ .none → (s.addEvent c m).2 = .ok := by
  have h : s.Inv := Lib.run_inv step_inv ls init s (by constructor <;> simp [init]) hm hr
  exact ⟨h.shows, h.owned, fun c m hne => (h.addEvent c hne).2⟩

theorem interest_follows_masks_eval : ∃ s, Lib.run step init [.connect 1 7, .add 1 ⟨true, false⟩] = some s ∧
    (s.addEvent 1 ⟨false, true⟩).2 = .ok := by
  refine ⟨_, rfl, (interest_follows_masks [.connect 1 7, .add 1 ⟨true, false⟩] _ ?_ rfl).2.2 _ _
    (by simp [Mask.none])⟩
  simp [Lib.Meets, step, Proper, init, Mask.none]

end Epoll

end RedisProxy
