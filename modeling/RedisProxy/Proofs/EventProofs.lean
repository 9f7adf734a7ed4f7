import RedisProxy.Event

/-!
# Proofs: `DoSendv` and the loop of `Sendv`

`doSendv_spec` says what one `DoSendv` can do to the socket, `sendvLoop_spec` that the loop behind it
accounts for the accepted bytes as `consume` does.
-/

namespace RedisProxy

variable {iov : List Iovec} {v v' : Nat → Iovec} {σ : Type}

open Lib List Function

/-! ## The mask -/

section Mask

variable {iFD : Nat} (m : Mask)

@[simp] theorem Mask.addWrite_writable (h : 0 < iFD) : (m.addWrite iFD).writable = true := by
  simp [Mask.addWrite, h]

@[simp] theorem Mask.delWrite_zero : m.delWrite 0 = m := rfl

theorem Mask.addWrite_mono (h : m.writable = true) : (m.addWrite iFD).writable = true := by
  unfold Mask.addWrite
  split_ifs
  · rfl
  · exact h

end Mask

/-! ## `DoSendv` -/

/-- The outcomes of `DoSendv`: a negative code and no progress, or some of the offered bytes. -/
structure DoSendvRes (offered : List UInt8) (sock : Socket) (r : Int) (sock' : Socket) : Prop where
  code : (r = grEagain ∨ r = grError) ∧ sock'.sent = sock.sent ∨
    ∃ k : Nat, r = k ∧ k ≤ offered.length ∧ k ≤ maxRwCount ∧ sock'.sent = sock.sent ++ offered.take k
  script : sock'.script <:+ sock.script
  /-- The value `0` needs the answer `0`, unless nothing was offered. -/
  pos : .zero ∉ sock.script → offered ≠ [] → r ≠ 0

theorem doSendvLoop_spec (offered : List UInt8) : ∀ (tries : Nat) (sock : Socket),
    DoSendvRes offered sock (doSendvLoop offered tries sock).1 (doSendvLoop offered tries sock).2 := by
  intro tries
  induction tries with
  | zero =>
    intro sock
    exact ⟨.inl ⟨.inr rfl, rfl⟩, suffix_rfl, fun _ _ => by simp [doSendvLoop, grError]⟩
  | succ tries ih =>
    rintro ⟨script, sent⟩
    cases script with
    | nil => exact ⟨.inl ⟨.inl rfl, rfl⟩, suffix_rfl, fun _ _ => by simp [doSendvLoop, grEagain]⟩
    | cons a script =>
      cases a with
      | accept n =>
        refine ⟨.inr ⟨min (n + 1) (min offered.length maxRwCount), rfl, by omega, by omega, rfl⟩,
          suffix_cons .., fun _ hne => ?_⟩
        have := length_pos_iff.mpr hne
        simp only [doSendvLoop, ne_eq, Nat.cast_eq_zero, maxRwCount]
        omega
      | zero =>
        refine ⟨.inr ⟨0, rfl, Nat.zero_le _, Nat.zero_le _, ?_⟩, suffix_cons .., fun hz _ => ?_⟩
        · simp [doSendvLoop]
        · exact absurd (mem_cons_self ..) hz
      | eintr =>
        have hih := ih { script, sent }
        refine ⟨hih.code, hih.script.trans (suffix_cons ..), fun hz hne => hih.pos ?_ hne⟩
        exact fun hmem => hz (mem_cons_of_mem _ hmem)
      | eagain =>
        exact ⟨.inl ⟨.inl rfl, rfl⟩, suffix_cons .., fun _ _ => by simp [doSendvLoop, grEagain]⟩
      | error =>
        exact ⟨.inl ⟨.inr rfl, rfl⟩, suffix_cons .., fun _ _ => by simp [doSendvLoop, grError]⟩

theorem doSendv_spec (iov : List Iovec) (sock : Socket) :
    DoSendvRes ((iov.take 512).flatMap Iovec.bytes) sock (doSendv iov sock).1 (doSendv iov sock).2 :=
  doSendvLoop_spec _ 2 sock

/-- `DoSendv` fails only if the kernel reports an error, or interrupts it. -/
theorem doSendv_error {sock : Socket} (h : (doSendv iov sock).1 = grError) :
    .error ∈ sock.script ∨ .eintr ∈ sock.script := by
  obtain ⟨script, sent⟩ := sock
  unfold doSendv at h
  cases script with
  | nil => exact absurd h (by simp [doSendvLoop, grEagain, grError])
  | cons a script =>
    cases a with
    | accept n =>
      simp only [doSendvLoop, grError] at h
      omega
    | zero => exact absurd h (by simp [doSendvLoop, grError])
    | eintr => exact .inr mem_cons_self
    | eagain => exact absurd h (by simp [doSendvLoop, grEagain, grError])
    | error => exact .inl mem_cons_self

/-- The answer of the kernel on which `DoSendv` acts, and the answers left for later calls. -/
def lastAnswer : List WritevRet → WritevRet × List WritevRet
  | [] => (.eagain, [])
  | .eintr :: [] => (.eagain, [])
  | .eintr :: .eintr :: script => (.error, script)
  | .eintr :: a :: script => (a, script)
  | a :: script => (a, script)

/-- The return value of `writev` that an answer stands for. -/
def answerValue (offered : List UInt8) : WritevRet → Int
  | .accept n => (min (n + 1) (min offered.length maxRwCount) : Nat)
  | .zero => 0
  | .eagain => grEagain
  | _ => grError

theorem doSendv_answer (iov : List Iovec) (sock : Socket) :
    (doSendv iov sock).1 = answerValue ((iov.take 512).flatMap Iovec.bytes) (lastAnswer sock.script).1 ∧
      (doSendv iov sock).2.script = (lastAnswer sock.script).2 := by
  obtain ⟨script, sent⟩ := sock
  rcases script with _ | ⟨a, script⟩
  · exact ⟨rfl, rfl⟩
  · cases a with
    | eintr =>
      rcases script with _ | ⟨b, script⟩
      · exact ⟨rfl, rfl⟩
      · cases b <;> exact ⟨rfl, rfl⟩
    | accept n => exact ⟨rfl, rfl⟩
    | zero => exact ⟨rfl, rfl⟩
    | eagain => exact ⟨rfl, rfl⟩
    | error => exact ⟨rfl, rfl⟩

/-- The offered bytes are the first of all bytes that wait. -/
theorem take_offered {k : Nat} (hk : k ≤ ((iov.take 512).flatMap Iovec.bytes).length) :
    ((iov.take 512).flatMap Iovec.bytes).take k = (iov.flatMap Iovec.bytes).take k := by
  conv_rhs => rw [← take_append_drop 512 iov, flatMap_append]
  rw [take_append_of_le_length hk]

/-! ## The loop -/

theorem int32_eq {x : Int} (h1 : -2 ^ 31 ≤ x) (h2 : x < 2 ^ 31) : int32 x = x := by
  unfold int32
  rw [Int.bmod_def]
  omega

theorem iovSlice_cons (v : Nat → Iovec) (i n : Nat) : iovSlice v i (n + 1) = v i :: iovSlice v (i + 1) n := by
  simp only [iovSlice, range_succ_eq_map, map_cons, map_map, Nat.add_zero]
  refine congrArg _ (map_congr_left fun j _ => ?_)
  simp only [comp_apply, Nat.succ_eq_add_one]
  rw [Nat.add_right_comm, Nat.add_assoc]

@[simp] theorem iovSlice_length (v : Nat → Iovec) (i n : Nat) : (iovSlice v i n).length = n := by
  simp [iovSlice]

theorem iovSlice_congr {w : Nat → Iovec} {i n : Nat} (h : ∀ j, i ≤ j → j < i + n → v j = w j) :
    iovSlice v i n = iovSlice w i n := by
  apply map_congr_left
  intro j hj
  have := mem_range.mp hj
  exact h (i + j) (by omega) (by omega)

theorem Iovec.Valid.length_bytes {v : Iovec} (h : v.Valid) : v.bytes.length = v.iovLen := by
  unfold Iovec.bytes
  rw [length_take]
  exact min_eq_left h.len_le

/-- Skipping the part of an `iovec` that went out. -/
theorem Iovec.bytes_skip {v : Iovec} (h : v.Valid) (k : Nat) :
    (⟨v.iovBase.drop k, v.iovLen - k⟩ : Iovec).bytes = v.bytes.drop k ∧
      (⟨v.iovBase.drop k, v.iovLen - k⟩ : Iovec).Valid := by
  refine ⟨?_, ⟨?_, ?_⟩⟩
  · simp only [Iovec.bytes, drop_take]
  · rw [length_drop]
    exact Nat.sub_le_sub_right h.len_le k
  · exact (Nat.sub_le _ _).trans_lt h.len_lt

/-- What the loop of `Sendv` does with `k` accepted bytes: the cells that `consume` finds exhausted
are passed to `onSent`, and the cells behind them hold what `consume` leaves. -/
structure SendvRes {σ : Type} (onSent : σ → Option σ) (n iov k : Nat) (v : Nat → Iovec) (s : σ)
    (ret : Ret) (v' : Nat → Iovec) (s' : σ) : Prop where
  sent : iterOpt onSent (consume k ((iovSlice v iov n).map Iovec.bytes)).1 s = some s'
  ret_eq : ret = if (consume k ((iovSlice v iov n).map Iovec.bytes)).1 = n then .ok else .eagain
  rest : (iovSlice v' (iov + (consume k ((iovSlice v iov n).map Iovec.bytes)).1)
    (n - (consume k ((iovSlice v iov n).map Iovec.bytes)).1)).map Iovec.bytes =
      (consume k ((iovSlice v iov n).map Iovec.bytes)).2
  frame : ∀ i, i < iov ∨ iov + n ≤ i → v' i = v i
  valid : ∀ i, iov ≤ i → i < iov + n → (v' i).Valid

/-- The loop calls `onSent` at most once for each cell, and for each if it completes. -/
theorem sendvLoop_iter (onSent : σ → Option σ) {ret : Ret} {s' : σ} :
    ∀ (n iov : Nat) (k : Int) (v : Nat → Iovec) (s : σ), sendvLoop onSent n iov k v s = some (ret, v', s') →
      ∃ j ≤ n, iterOpt onSent j s = some s' ∧ (ret = .ok → j = n) := by
  intro n
  induction n with
  | zero =>
    intro iov k v s h
    obtain ⟨rfl, rfl, rfl⟩ := h
    exact ⟨0, le_rfl, rfl, fun _ => rfl⟩
  | succ n ih =>
    intro iov k v s h
    rw [sendvLoop] at h
    split_ifs at h
    · cases h
      exact ⟨0, Nat.zero_le _, rfl, fun hok => nomatch hok⟩
    · cases h
      exact ⟨0, Nat.zero_le _, rfl, fun hok => nomatch hok⟩
    · cases hs : onSent s with
      | none => simp [hs] at h
      | some s₁ =>
        simp only [hs] at h
        obtain ⟨j, hjn, hiter, hok⟩ := ih _ _ _ _ h
        refine ⟨j + 1, Nat.succ_le_succ hjn, ?_, fun hr => by rw [hok hr]⟩
        simp [iterOpt, hs, hiter]

theorem sendvLoop_spec (onSent : σ → Option σ) :
    ∀ (n iov k : Nat) (s s' : σ) (ret : Ret), (∀ i, iov ≤ i → i < iov + n → (v i).Valid) →
      k ≤ maxRwCount → sendvLoop onSent n iov k v s = some (ret, v', s') → SendvRes onSent n iov k v s ret v' s' := by
  intro n
  induction n with
  | zero =>
    intro iov k s s' ret hv _ h
    obtain ⟨rfl, rfl, rfl⟩ := h
    exact ⟨rfl, rfl, rfl, fun _ _ => rfl, hv⟩
  | succ n ih =>
    intro iov k s s' ret hv hk h
    have hiov := hv iov le_rfl (by omega)
    have hlen := hiov.length_bytes
    have hlt := hiov.len_lt
    have hmax : k < 2 ^ 31 := lt_of_le_of_lt hk (by decide)
    have hint : int32 ((k : Int) - (v iov).iovLen) = (k : Int) - (v iov).iovLen :=
      int32_eq (by omega) (by omega)
    rw [sendvLoop] at h
    simp only [hint] at h
    rcases Nat.lt_or_ge k (v iov).iovLen with hkl | hkl
    · -- the bytes end inside this cell
      have hcons : consume k ((iovSlice v iov (n + 1)).map Iovec.bytes) =
          (0, (v iov).bytes.drop k :: (iovSlice v (iov + 1) n).map Iovec.bytes) := by
        rw [iovSlice_cons, map_cons, consume_cons_gt _ (by omega)]
      rw [if_pos (by omega)] at h
      split_ifs at h with h0
      · have hk0 : k = 0 := by omega
        cases h
        refine ⟨by rw [hcons]; rfl, by rw [hcons]; rfl, ?_, fun _ _ => rfl, hv⟩
        rw [hcons, hk0]
        show (iovSlice v iov (n + 1)).map Iovec.bytes = _
        rw [iovSlice_cons]
        rfl
      · cases h
        obtain ⟨hb, hval⟩ := Iovec.bytes_skip hiov k
        have h1 : ((k : Int) - (v iov).iovLen + (v iov).iovLen).toNat = k := by omega
        have h2 : (-((k : Int) - (v iov).iovLen)).toNat = (v iov).iovLen - k := by omega
        simp only [h1, h2]
        refine ⟨by rw [hcons]; rfl, by rw [hcons]; rfl, ?_, ?_, ?_⟩
        · rw [hcons]
          show (iovSlice _ iov (n + 1)).map Iovec.bytes = _
          rw [iovSlice_cons, map_cons, update_self, hb]
          refine congrArg _ (congrArg _ (iovSlice_congr fun j hj _ => ?_))
          exact update_of_ne (by omega) ..
        · intro i hi
          exact update_of_ne (by omega) ..
        · intro i hi1 hi2
          rw [update_apply]
          split_ifs
          · exact hval
          · exact hv i hi1 hi2
    · -- the cell is exhausted
      have hcons : consume k ((iovSlice v iov (n + 1)).map Iovec.bytes) =
          ((consume (k - (v iov).iovLen) ((iovSlice v (iov + 1) n).map Iovec.bytes)).1 + 1,
            (consume (k - (v iov).iovLen) ((iovSlice v (iov + 1) n).map Iovec.bytes)).2) := by
        rw [iovSlice_cons, map_cons, consume_cons_le _ (by omega), hlen]
      rw [if_neg (by omega)] at h
      cases hs : onSent s with
      | none => simp [hs] at h
      | some s1 =>
        simp only [hs] at h
        have hcast : ((k : Int) - (v iov).iovLen) = ((k - (v iov).iovLen : Nat) : Int) := by omega
        rw [hcast] at h
        have hih := ih (iov + 1) (k - (v iov).iovLen) s1 s' ret (fun i h1 h2 => hv i (by omega) (by omega))
          (by omega) h
        refine ⟨?_, ?_, ?_, ?_, ?_⟩
        · rw [hcons]
          show (onSent s).bind _ = _
          rw [hs]
          exact hih.sent
        · rw [hih.ret_eq, hcons]
          simp
        · rw [hcons, ← hih.rest]
          simp only [Nat.add_sub_add_right]
          rw [Nat.add_right_comm iov 1, Nat.add_assoc iov]
        · intro i hi
          exact hih.frame i (by omega)
        · intro i hi1 hi2
          rcases Nat.eq_or_lt_of_le hi1 with rfl | hi1
          · rw [hih.frame iov (by omega)]
            exact hiov
          · exact hih.valid i (by omega) (by omega)

/-- The loop never fails. -/
theorem sendvLoop_ne_error (onSent : σ → Option σ) :
    ∀ (n iov : Nat) (r : Int) (v : Nat → Iovec) (s : σ) (v' : Nat → Iovec) (s' : σ),
      sendvLoop onSent n iov r v s ≠ some (.error, v', s') := by
  intro n
  induction n with
  | zero =>
    intro iov r v s v' s' h
    simp [sendvLoop] at h
  | succ n ih =>
    intro iov r v s v' s' h
    rw [sendvLoop] at h
    split_ifs at h
    · simp at h
    · simp at h
    · cases hs : onSent s with
      | none => simp [hs] at h
      | some s₁ =>
        simp only [hs] at h
        exact ih _ _ _ _ _ _ h

/-- The loop never aborts if `onSent` does not. -/
theorem sendvLoop_isSome (onSent : σ → Option σ) (hs : ∀ s, (onSent s).isSome) :
    ∀ (n iov : Nat) (r : Int) (v : Nat → Iovec) (s : σ), (sendvLoop onSent n iov r v s).isSome := by
  intro n
  induction n with
  | zero => intros; rfl
  | succ n ih =>
    intro iov r v s
    rw [sendvLoop]
    obtain ⟨s1, hs1⟩ := Option.isSome_iff_exists.mp (hs s)
    simp only [hs1]
    split_ifs
    · rfl
    · rfl
    · exact ih ..

end RedisProxy
