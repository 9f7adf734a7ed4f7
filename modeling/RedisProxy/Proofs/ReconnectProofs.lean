import RedisProxy.Proofs.LinksProofs
import RedisProxy.Proofs.IdentyReuseProofs

/-!
# Proofs: reconnect timers and live connections

A reconnect timer is there only as long as its backend has no connection. `Close` of a backend that is
connected leaves one timer behind, and the timer that connects ends. The exception is a plain server
whose connection is refused at once: there `ReConnect` leaves three timers behind.
-/

namespace RedisProxy

variable {cfg : Config} {calm : Prop} {l l' : Links}

/-- The invariant of runs in which no timer opens a connection beside another one. -/
structure Quiet (mode : RouteMode) (l : Links) : Prop where
  idle : ∀ t ∈ l.timers, (l.backends t.server).ev.iFD = 0 ∧ ¬(l.backends t.server).ev.status.Live
  once : mode = .tiny → (l.timers.map Timer.server).Nodup
  none : mode = .cluster → l.timers = []
  server : ∀ t ∈ l.timers, t.server < l.nBackends
  spare : ∀ b, (l.backends b).ev.iFD ≠ 0 → b < l.nBackends
  clean : ∀ b, ∀ s ∈ (l.backends b).reInits, ¬s.Live

namespace Quiet

variable {mode : RouteMode} {l l' : Links} {b : Nat}
variable {x : Backend} {ts : List Timer}

theorem not_live_closed : ¬ConnectStatus.closed.Live := by
  rintro (h | h) <;> exact nomatch h

/-- No timer waits for a backend that has a connection. -/
theorem server_ne (h : Quiet mode l) (hb : (l.backends b).ev.iFD ≠ 0 ∨ (l.backends b).ev.status.Live) :
    ∀ t ∈ l.timers, t.server ≠ b := by
  rintro t ht rfl
  obtain ⟨hfd, hst⟩ := h.idle t ht
  rcases hb with hb | hb
  · exact hb hfd
  · exact hst hb

theorem set_ne (l : Links) {b' : Nat} (h : b' ≠ b) (x : Backend) : (l.set b x).backends b' = l.backends b' :=
  Function.update_of_ne h ..

theorem set_self (l : Links) (b : Nat) (x : Backend) : (l.set b x).backends b = x := Function.update_self ..

/-- A write to a backend, and to the timers. -/
theorem write (h : Quiet mode l) (hidle : ∀ t ∈ ts, t.server ≠ b → t ∈ l.timers)
    (hself : (∃ t ∈ ts, t.server = b) → x.ev.iFD = 0 ∧ ¬x.ev.status.Live)
    (honce : mode = .tiny → (ts.map Timer.server).Nodup) (hnone : mode = .cluster → ts = [])
    (hserver : ∀ t ∈ ts, t.server < l.nBackends) (hspare : x.ev.iFD ≠ 0 → b < l.nBackends)
    (hclean : ∀ s ∈ x.reInits, ¬s.Live) : Quiet mode { l.set b x with timers := ts } := by
  refine ⟨fun t ht => ?_, honce, hnone, hserver, fun b' hb' => ?_, fun b' s hs => ?_⟩
  · by_cases hb : t.server = b
    · show ((l.set b x).backends t.server).ev.iFD = 0 ∧ ¬((l.set b x).backends t.server).ev.status.Live
      rw [hb, set_self]
      exact hself ⟨t, ht, hb⟩
    · show ((l.set b x).backends t.server).ev.iFD = 0 ∧ ¬((l.set b x).backends t.server).ev.status.Live
      rw [set_ne _ hb]
      exact h.idle t (hidle t ht hb)
  · by_cases hb : b' = b
    · change ((l.set b x).backends b').ev.iFD ≠ 0 at hb'
      rw [hb, set_self] at hb'
      rw [hb]
      exact hspare hb'
    · change ((l.set b x).backends b').ev.iFD ≠ 0 at hb'
      rw [set_ne _ hb] at hb'
      exact h.spare b' hb'
  · by_cases hb : b' = b
    · change s ∈ ((l.set b x).backends b').reInits at hs
      rw [hb, set_self] at hs
      exact hclean s hs
    · change s ∈ ((l.set b x).backends b').reInits at hs
      rw [set_ne _ hb] at hs
      exact h.clean b' s hs

/-- A write that keeps what the timers depend on. -/
theorem keep (h : Quiet mode l) (hr : x.reInits = (l.backends b).reInits)
    (hfd : x.ev.iFD = (l.backends b).ev.iFD ∨ x.ev.iFD = 0)
    (hx : x.ev.status = (l.backends b).ev.status ∨ ∀ t ∈ l.timers, t.server ≠ b) : Quiet mode (l.set b x) := by
  refine h.write (fun t ht _ => ht) ?_ h.once h.none h.server (fun hne => ?_) ?_
  · rintro ⟨t, ht, rfl⟩
    rcases hx with hst | hx
    · obtain ⟨hfd', hst'⟩ := h.idle t ht
      rw [hfd', or_self] at hfd
      rw [hst]
      exact ⟨hfd, hst'⟩
    · exact absurd rfl (hx t ht)
  · rcases hfd with hfd | hfd
    · rw [hfd] at hne
      exact h.spare b hne
    · exact absurd hfd hne
  · rw [hr]
    exact h.clean b

/-- Timers of a backend that is closed. -/
theorem nodup_append (h : Quiet mode l) {n : Nat} (ht : ∀ t ∈ ts, t.server = b) (hlen : ts.length ≤ n)
    (hn : n = 0 ∨ n = 1 ∧ ∀ t ∈ l.timers, t.server ≠ b) (hm : mode = .tiny) :
    ((ts ++ l.timers).map Timer.server).Nodup := by
  rcases hn with rfl | ⟨rfl, hfree⟩
  · rw [List.length_eq_zero_iff.mp (Nat.le_zero.mp hlen), List.nil_append]
    exact h.once hm
  · cases ts with
    | nil => exact h.once hm
    | cons t ts =>
      have hnil : ts = [] := List.length_eq_zero_iff.mp (by simpa using hlen)
      rw [hnil, List.singleton_append, List.map_cons, List.nodup_cons]
      refine ⟨fun hmem => ?_, h.once hm⟩
      obtain ⟨u, hu, heq⟩ := List.mem_map.mp hmem
      exact hfree u hu (heq.trans (ht t List.mem_cons_self))

/-- `ReConnect` of a backend without connection. -/
theorem reConnects (h : Quiet mode l) (hmode : mode ≠ .cluster) {pMeta : Option Nat} (hb : b < l.nBackends)
    (hfd : (l.backends b).ev.iFD = 0) (hst : ¬(l.backends b).ev.status.Live)
    (hfree : pMeta = Option.none → ∀ t ∈ l.timers, t.server ≠ b)
    (hmine : ∀ idx, pMeta = some idx → ∃ t ∈ l.timers, t.server = b ∧ t.idx = idx)
    (hr : ReConnects mode True l b pMeta l') : Quiet mode l' := by
  have hlen : (if pMeta = Option.none then 1 else 0) = 0 ∨
      (if pMeta = Option.none then 1 else 0) = 1 ∧ ∀ t ∈ l.timers, t.server ≠ b := by
    by_cases hp : pMeta = Option.none
    · exact .inr ⟨if_pos hp, hfree hp⟩
    · exact .inl (if_neg hp)
  have hserver : ∀ {ts : List Timer}, (∀ t ∈ ts, t.server = b) → ∀ t ∈ ts ++ l.timers, t.server < l.nBackends := by
    intro ts hts t ht
    rcases List.mem_append.mp ht with ht | ht
    · rw [hts t ht]
      exact hb
    · exact h.server t ht
  have hothers : ∀ {ts : List Timer}, (∀ t ∈ ts, t.server = b) → ∀ t ∈ ts ++ l.timers, t.server ≠ b → t ∈ l.timers := by
    intro ts hts t ht hne
    rcases List.mem_append.mp ht with ht | ht
    · exact absurd (hts t ht) hne
    · exact ht
  have hwiped : ∀ s ∈ (l.backends b).reInits ++ [(l.backends b).ev.status], ¬s.Live := by
    intro s hs
    rcases List.mem_append.mp hs with hs | hs
    · exact h.clean b s hs
    · rw [List.mem_singleton.mp hs]
      exact hst
  cases hr with
  | later ht hle =>
    have hself : l.set b (l.backends b) = l := by
      unfold Links.set
      rw [Function.update_eq_self]
    have := h.write (x := l.backends b) (hothers ht) (fun _ => ⟨hfd, hst⟩) (h.nodup_append ht hle hlen)
      (fun hm => absurd hm hmode) (hserver ht) (fun _ => hb) (h.clean b)
    rw [hself] at this
    exact this
  | retry ht hle =>
    exact h.write (hothers ht) (fun _ => ⟨hfd, hst⟩) (h.nodup_append ht hle hlen) (fun hm => absurd hm hmode)
      (hserver ht) (fun _ => hb) hwiped
  | opens hev hone =>
    have hsub : ∀ t ∈ l.timers.filter fun t => pMeta ≠ some t.idx, t ∈ l.timers ∧ pMeta ≠ some t.idx := by
      intro t ht
      simpa using ht
    refine h.write (fun t ht _ => (hsub t ht).1) ?_ (fun hm => ?_) (fun hm => absurd hm hmode)
      (fun t ht => h.server t (hsub t ht).1) (fun _ => hb) hwiped
    · -- the timer that calls is the only one of the backend
      rintro ⟨t, hleft, hbt⟩
      exfalso
      obtain ⟨ht, hidx⟩ := hsub t hleft
      cases pMeta with
      | none => exact hfree rfl t ht hbt
      | some idx =>
        by_cases hm : mode = .twem
        · exact hidx (hone trivial hm (by simp) t ht hbt)
        · have htiny : mode = .tiny := by
            cases mode with
            | twem => exact absurd rfl hm
            | cluster => exact absurd rfl hmode
            | tiny => rfl
          obtain ⟨u, hu, hbu, rfl⟩ := hmine idx rfl
          have heq := List.inj_on_of_nodup_map (h.once htiny) ht hu (hbt.trans hbu.symm)
          exact hidx (by rw [heq])
    · exact (h.once hm).sublist ((List.filter_sublist).map _)
  | refused hy ht hle =>
    refine h.write (hothers ht) (fun _ => ⟨hy.fd, ?_⟩) (fun hm => h.nodup_append ht (hle hm) hlen hm)
      (fun hm => absurd hm hmode) (hserver ht) (fun _ => hb) ?_
    · rw [hy.status]
      exact not_live_closed
    · rw [hy.reInits]
      exact hwiped

end Quiet

/-- What one step of the links preserves. -/
theorem LinkStep.quiet (hs : LinkStep cfg calm True l l') (h : Quiet cfg.mode l) : Quiet cfg.mode l' := by
  cases hs with
  | push hst _ hq =>
    have hsend := RedisEvent.sendMsg_queued hq
    exact h.keep rfl (.inl hsend.fd) (.inl hsend.status)
  | online hst _ => exact h.keep rfl (.inl rfl) (.inr (h.server_ne (.inr (.inl hst))))
  | select hst hq =>
    have hsend := RedisEvent.sendMsg_queued hq
    exact h.keep rfl (.inl hsend.fd) (.inr (h.server_ne (.inr (.inl hst))))
  | pop hp _ =>
    obtain ⟨-, rfl⟩ := RedisEvent.popIdenty_some hp
    exact h.keep rfl (.inl rfl) (.inl rfl)
  | write _ hw =>
    have hwr := RedisEvent.writeQueue_written hw
    exact h.keep rfl (.inl hwr.fd) (.inl hwr.status)
  | cache => exact h.keep rfl (.inl rfl) (.inl rfl)
  | close hfd hy => exact h.keep hy.reInits (.inr hy.fd) (.inr (h.server_ne (.inl hfd)))
  | @restart b y l' hfd hy hmode _ hr =>
    have hfree := h.server_ne (.inl hfd)
    have hclosed : Quiet cfg.mode (l.set b y) := h.keep hy.reInits (.inr hy.fd) (.inr hfree)
    have hself : (l.set b y).backends b = y := Quiet.set_self ..
    refine hclosed.reConnects hmode (h.spare b hfd) ?_ ?_ (fun _ => hfree)
      (fun idx hidx => absurd hidx (by simp)) hr
    · rw [hself]
      exact hy.fd
    · rw [hself, hy.status]
      exact Quiet.not_live_closed
  | @timer t l' ht hr =>
    have hmode : cfg.mode ≠ .cluster := by
      intro hm
      rw [h.none hm] at ht
      exact absurd ht (by simp)
    obtain ⟨hfd, hst⟩ := h.idle t ht
    refine h.reConnects hmode (h.server t ht) hfd hst (fun hn => absurd hn (by simp)) (fun idx hidx => ?_) hr
    exact ⟨t, ht, rfl, Option.some.inj hidx⟩
  | @retime f hf =>
    have hback : ∀ t ∈ l.timers.map f, ∃ u ∈ l.timers, t.server = u.server := by
      intro t ht
      obtain ⟨u, hu, rfl⟩ := List.mem_map.mp ht
      exact ⟨u, hu, (hf u).2⟩
    refine ⟨fun t ht => ?_, fun hm => ?_, fun hm => ?_, fun t ht => ?_, h.spare, h.clean⟩
    · obtain ⟨u, hu, heq⟩ := hback t ht
      rw [heq]
      exact h.idle u hu
    · have hmap : (l.timers.map f).map Timer.server = l.timers.map Timer.server := by
        rw [List.map_map]
        exact List.map_congr_left fun t _ => (hf t).2
      rw [hmap]
      exact h.once hm
    · rw [h.none hm]
      rfl
    · obtain ⟨u, hu, heq⟩ := hback t ht
      rw [heq]
      exact h.server u hu
  | @add x hx =>
    have hlt : ∀ t ∈ l.timers, t.server ≠ l.nBackends := fun t ht => (h.server t ht).ne
    refine ⟨fun t ht => ?_, h.once, h.none, fun t ht => Nat.lt_succ_of_lt (h.server t ht), fun b hb => ?_,
      fun b s hs => ?_⟩
    · show ((l.set l.nBackends x).backends t.server).ev.iFD = 0 ∧
        ¬((l.set l.nBackends x).backends t.server).ev.status.Live
      rw [Quiet.set_ne _ (hlt t ht)]
      exact h.idle t ht
    · by_cases hbn : b = l.nBackends
      · rw [hbn]
        exact Nat.lt_succ_self _
      · change ((l.set l.nBackends x).backends b).ev.iFD ≠ 0 at hb
        rw [Quiet.set_ne _ hbn] at hb
        exact Nat.lt_succ_of_lt (h.spare b hb)
    · change s ∈ ((l.set l.nBackends x).backends b).reInits at hs
      by_cases hbn : b = l.nBackends
      · rw [hbn, Quiet.set_self, hx.reInits] at hs
        cases hs
      · rw [Quiet.set_ne _ hbn] at hs
        exact h.clean b s hs

/-- What any number of steps preserves. -/
theorem LinkSteps.quiet (hs : LinkSteps cfg calm True l l') (h : Quiet cfg.mode l) : Quiet cfg.mode l' := by
  induction hs with
  | refl => exact h
  | tail _ hstep ih => exact hstep.quiet ih

namespace Proxy

variable {cfg : Config} {w w' : Proxy}

theorem init_quiet (mode : RouteMode) : Quiet mode init.links := by
  refine ⟨fun t ht => ?_, fun _ => List.nodup_nil, fun _ => rfl, fun t ht => ?_, fun b hb => absurd rfl hb,
    fun b s hs => ?_⟩
  · exact absurd ht List.not_mem_nil
  · exact absurd ht List.not_mem_nil
  · exact absurd hs List.not_mem_nil

open Lib List Option Function

instance decidableOpening : ∀ conn, Decidable (Connect.Opening conn)
  | .inProgress _ | .connected _ => isTrue trivial
  | .socketError | .refused _ => isFalse id

instance decidableOnlyOK (cfg : Config) (w : Proxy) : ∀ l, Decidable (w.OnlyOK cfg l)
  | .reconnectTimer k conn =>
    match h : w.timers[k]? with
    | none => isTrue (by dsimp only [OnlyOK]; rw [h]; trivial)
    | some t =>
      decidable_of_iff (cfg.mode = .twem → t.ulNextMS ≤ w.now → (w.backends t.server).ev.ulNextTry ≤ w.now →
        Connect.Opening conn → ∀ u ∈ w.timers, u.server = t.server → u.idx = t.idx)
        (by dsimp only [OnlyOK]; rw [h])
  | .addServer _ | .reroute _ | .accept _ | .request .. | .growClient .. | .clientWrite .. | .clientClose _ | .reply ..
  | .growBackend .. | .backendWrite .. | .backendClose .. | .statusTimer .. | .tick _ => isTrue trivial

/-- In every state that the proxy reaches, `ReConnect` has run `ReInit` only on events that were neither
connecting nor connected. -/
theorem reInit_not_live (cfg : Config) (ls : List Label) {w : Proxy}
    (hok : Meets (step cfg) (OnlyOK cfg) init ls) (hrun : run (step cfg) init ls = some w) :
    ∀ b, ∀ s ∈ (w.backends b).reInits, s ≠ .connecting ∧ s ≠ .connected := by
  have hquiet : Quiet cfg.mode w.links := by
    refine run_inv (I := fun w => Quiet cfg.mode w.links) (C := OnlyOK cfg) ?_ ls init w (init_quiet cfg.mode) hok hrun
    intro w l w' h hl hs
    have hsteps : LinkSteps cfg False True w.links w'.links := step_links (fun hf => hf.elim) (fun _ => hl) hs
    exact hsteps.quiet h
  intro b s hs
  exact not_or.mp (hquiet.clean b s hs)

/-- A backend whose connection breaks, and the timer that connects it again. -/
theorem reInit_not_live_one :
    let ls : List Label := [.addServer (.inProgress 0), .backendWrite 0 true [] .socketError,
      .backendClose 0 .socketError, .tick 100, .reconnectTimer 0 (.inProgress 2)]
    Meets (step plainConfig) (OnlyOK plainConfig) init ls ∧
      ∃ w, run (step plainConfig) init ls = some w ∧ (w.backends 0).reInits = [.closed, .closed] ∧
        ∀ b, ∀ s ∈ (w.backends b).reInits, s ≠ .connecting ∧ s ≠ .connected := by
  intro ls
  have hok : Meets (step plainConfig) (OnlyOK plainConfig) init ls := by decide
  obtain ⟨w, hw, hview⟩ : ∃ w, run (step plainConfig) init ls = some w ∧ (w.backends 0).reInits = [.closed, .closed] :=
    map_eq_some_iff.mp rfl
  exact ⟨hok, w, hw, hview, reInit_not_live plainConfig ls hok hw⟩

/-- A connection is refused when its backend reconnects, which leaves three timers behind. One of them
connects; another one runs `ReInit` on the connection, which is established by then. -/
theorem timer_wipes_connected :
    let ls : List Label := [.addServer (.inProgress 0), .backendWrite 0 true [] .socketError,
      .backendClose 0 (.refused 1), .tick 100, .reconnectTimer 2 (.inProgress 2), .backendWrite 0 true [] .socketError,
      .tick 200]
    ∃ w w', run (step plainConfig) init ls = some w ∧ step plainConfig w (.reconnectTimer 1 (.inProgress 3)) = some w' ∧
      (w.backends 0).ev.status = .connected ∧ .connected ∈ (w'.backends 0).reInits := by
  intro ls
  obtain ⟨w, hw, hview⟩ : ∃ w, run (step plainConfig) init ls = some w ∧
      ((w.backends 0).ev.status, (step plainConfig w (.reconnectTimer 1 (.inProgress 3))).map
        fun w' => (w'.backends 0).reInits) = (.connected, some [.closed, .closed, .connected]) :=
    map_eq_some_iff.mp rfl
  obtain ⟨hst, hstep⟩ := Prod.mk.inj hview
  obtain ⟨w', hw', hre⟩ := map_eq_some_iff.mp hstep
  exact ⟨w, w', hw, hw', hst, by rw [hre]; simp⟩

end Proxy

end RedisProxy
