import QuantumSsh.Channel.Traffic

/-!
# An exchange of keys on a plain connection

A client that starts a re-key and goes through with it. The counters start again, and
the log grows by the packets of the exchange.
-/

namespace QuantumSsh.Channel

open Wire Kex Machine Program Transport

/-- The counters of the session are below a bound. -/
structure World.Below (w : World) (k : ℕ) : Prop where
  bytesRx : w.session.rekey.bytesRx ≤ k
  bytesTx : w.session.rekey.bytesTx ≤ k
  seqRx : w.session.seqRx ≤ k
  seqTx : w.session.seqTx ≤ k
  thresholds : w.session.rekey.thresholds = plainHandshake.thresholds

variable {w : World}

theorem World.Below.mono {k k' : ℕ} (h : w.Below k) (hk : k ≤ k') : w.Below k' :=
  ⟨h.bytesRx.trans hk, h.bytesTx.trans hk, h.seqRx.trans hk, h.seqTx.trans hk, h.thresholds⟩

theorem World.Below.atTick {k : ℕ} (h : w.Below k) (tick : ℕ) : (w.atTick tick).Below k :=
  ⟨h.bytesRx, h.bytesTx, h.seqRx, h.seqTx, h.thresholds⟩

/-- A packet that arrives counts its bytes and itself. -/
theorem World.Below.arrived {k : ℕ} (h : w.Below k) {p : Bytes} (hp : p ≠ []) :
    (w.arrived p).Below (k + p.length) := by
  have hlen : 1 ≤ p.length := List.length_pos_iff.2 hp
  refine ⟨?_, h.bytesTx.trans (by omega), ?_, h.seqTx.trans (by omega), h.thresholds⟩
  · exact (saturatingAdd_le _ _ _).trans (Nat.add_le_add_right h.bytesRx _)
  · exact (wrappingAdd_le _ _ _).trans (Nat.add_le_add h.seqRx hlen)

theorem not_due {k : ℕ} (h : w.Below k) (hk : k < 1024 * 1024 * 1024) :
    w.session.rekeyDue (plainEnv.now w.session.tick) = false := by
  have hmax : plainHandshake.thresholds.maxBytes = 1024 * 1024 * 1024 ∧
      plainHandshake.thresholds.maxPackets = 2 ^ 31 ∧
      0 < plainHandshake.thresholds.maxInterval := by decide
  refine rekeyDue_eq_false ?_ ?_ ⟨?_, ?_⟩ ?_ <;> rw [h.thresholds]
  · rw [hmax.1]
    exact h.bytesRx.trans_lt hk
  · rw [hmax.1]
    exact h.bytesTx.trans_lt hk
  · rw [hmax.2.1]
    have := h.seqRx
    omega
  · rw [hmax.2.1]
    have := h.seqTx
    omega
  · have hnow : plainEnv.now w.session.tick = 0 := rfl
    rw [hnow, Nat.zero_sub]
    exact hmax.2.2

/-! ### The packets of the exchange -/

theorem readHybridInit_hybridInit :
    ∃ init, init.length = clientInitLen ∧ readHybridInit.run hybridInit = .ok (init, []) := by
  have hsplit : hybridInit =
      sshMsgKexHybridInit :: (putString (List.replicate clientInitLen 0) ++ []) := by
    simp [hybridInit]
  rw [hsplit]
  have hlen : (List.replicate clientInitLen (0 : UInt8)).length = clientInitLen :=
    List.length_replicate
  generalize List.replicate clientInitLen (0 : UInt8) = init at hlen
  refine ⟨init, hlen, ?_⟩
  refine Reader.run_bind_ok.2 ⟨_, _, rfl, Reader.run_bind_ok.2 ⟨init, [], ?_, ?_⟩⟩
  · refine Reader.string_putString hlen.le ?_ _
    rw [hlen]
    decide
  · exact Reader.run_bind_ok.2 ⟨(), [], rfl, rfl⟩

theorem exchange_plain {init : Bytes} (hlen : init.length = clientInitLen) (m secret : Bytes) :
    ∃ outcome, hybridExchange plainCrypto init (some m) (some secret) = .ok outcome := by
  have hvalid : ∀ ek, plainCrypto.validEncapsulationKey ek = true := fun _ => rfl
  have hdh : ∀ x y, plainCrypto.diffieHellman x y = some (List.replicate 32 0) := fun _ _ => rfl
  simp [hybridExchange, hlen, hvalid, hdh, pure, Except.pure]

theorem step_hybridInit {iC iS : Bytes} {n : Negotiated}
    (hphase : w.session.rekey.phase = .awaitHybridInit iC iS n false)
    (hc2s : n.cipherC2s = chacha20Poly1305) (hs2c : n.cipherS2c = chacha20Poly1305) :
    ∃ s, Config.step plainEnv ⟨w, .waiting⟩ (.event (.packet hybridInit)) =
      some ⟨{ w with session := s }, .flush⟩ ∧
      Rekeys plainEnv hybridInit (w.arrived hybridInit).session .continued s := by
  obtain ⟨init, hlen, hread⟩ := readHybridInit_hybridInit
  obtain ⟨outcome, houtcome⟩ := exchange_plain hlen (List.replicate 32 0) (List.replicate 32 0)
  have harrived : ∀ p, (w.arrived p).session.rekey.phase = w.session.rekey.phase := fun _ => rfl
  have hphase' := (harrived hybridInit).trans hphase
  refine step_rekeying (.inl (by simp [Session.rekeyActive, hphase])) ?_
  have hmsg : hybridInit.head?.getD 0 = sshMsgKexHybridInit := rfl
  simp only [stepRekey, ensures_bind, ensures_look, ensures_update, hphase']
  rw [if_pos hmsg]
  have hrandom : ∀ tick length, plainEnv.random tick length = some (List.replicate length 0) :=
    fun _ _ => rfl
  have hcrypto : plainEnv.crypto = plainCrypto := rfl
  have hsign : ∀ tick h, plainEnv.sign tick h = some [] := fun _ _ => rfl
  simp only [completeRekeyReply, hread, ensures_bind, ask_ensures, hrandom, hcrypto, houtcome,
    ensures_look, hsign]
  split
  next newRx newTx hderive =>
    simp only [ensures_bind, ensures_writePacket willing_plainEnv, ensures_update]
    rfl
  next hnone =>
    exfalso
    revert hnone
    simp only [imp_false, not_forall, not_not]
    exact exists_deriveCipherPair _ _ _ _ (.inl hc2s) (.inl hs2c)

theorem step_newkeys {env : Env} {newRx : PacketCipher}
    (hphase : w.session.rekey.phase = .awaitNewKeys newRx) (hdeferred : w.driver.deferred = []) :
    ∃ s, Config.step env ⟨w, .waiting⟩ (.event (.packet [sshMsgNewkeys])) =
      some ⟨{ w with session := s }, .flush⟩ ∧
      Rekeys env [sshMsgNewkeys] (w.arrived [sshMsgNewkeys]).session .completed s := by
  have hrekeys : (stepRekey env [sshMsgNewkeys]).Ensures (w.arrived [sshMsgNewkeys]).session
      (fun step s => Rekeys env [sshMsgNewkeys] (w.arrived [sshMsgNewkeys]).session step s)
      fun _ _ => True := stepRekey_ensures (fun _ _ h => h) fun _ _ _ => trivial
  have hphase' : (w.arrived [sshMsgNewkeys]).session.rekey.phase = .awaitNewKeys newRx := hphase
  have hok : (stepRekey env [sshMsgNewkeys]).Ensures (w.arrived [sshMsgNewkeys]).session
      (fun step _ => step = .completed) fun _ _ => False := by
    simp only [stepRekey, ensures_bind, ensures_look, ensures_update, hphase']
    have hmsg : [sshMsgNewkeys].head?.getD 0 = sshMsgNewkeys := rfl
    rw [if_pos hmsg, if_neg (by simp)]
    simp only [ensures_bind, ask_ensures, ensures_update]
    rfl
  obtain ⟨step, s, hrun, rfl, h⟩ :=
    ((hok.and hrekeys).mono (fun _ _ h => h) fun _ _ h => h.1).exists_ok
  have harrived : World.observe { w with session := w.session.receive [sshMsgNewkeys] }
      (.received [sshMsgNewkeys]) = w.arrived [sshMsgNewkeys] := rfl
  have hactive : (w.arrived [sshMsgNewkeys]).session.rekeyActive = true := by
    simp [Session.rekeyActive, hphase']
  have hsame : ({ session := s, driver := { w.driver with deferred := [] } } : World) =
      { w with session := s } := by rw [← hdeferred]
  refine ⟨s, ?_, h⟩
  simp [Config.step, World.enabled, onEvent, onPacket, resume, bind, Prog.bind, look, update,
    note, harrived, hactive, onSession, zoom, hrun, drainDeferred, updateDriver]
  rw [hdeferred]
  exact congrArg (fun w => (⟨w, .flush⟩ : Config)) hsame

theorem negotiates_plain : Negotiates (clientKexinit kexAlgorithm false)
    ⟨chacha20Poly1305, chacha20Poly1305, false, false⟩ := by
  unfold Negotiates
  decide +kernel

theorem Rekeys.thresholds_eq {env : Env} {p : Bytes} {step : RekeyStep} {s : Session}
    (h : Rekeys env p (w.arrived p).session step s) :
    s.rekey.thresholds = w.session.rekey.thresholds := by
  cases h <;> rfl

theorem Rekeys.awaits_of_replied {env : Env} {p iC iS : Bytes} {n : Negotiated} {s : Session}
    (h : Rekeys env p (w.arrived p).session .continued s)
    (hwaits : w.session.rekey.phase = .awaitHybridInit iC iS n false) :
    (∃ newRx, s.rekey.phase = .awaitNewKeys newRx) ∧ s.seqTx = 0 := by
  have hphase : (w.arrived p).session.rekey.phase = .awaitHybridInit iC iS n false := hwaits
  cases h with
  | opened cookie n' tick bytesTx started hphase' => exact absurd (hphase.symm.trans hphase') (by simp)
  | answered iS' n' tick hphase' => exact absurd (hphase.symm.trans hphase') (by simp)
  | skipped iC' iS' n' hphase' => exact absurd (hphase.symm.trans hphase') (by simp)
  | replied iC' iS' n' tick₁ tick bytesTx₁ bytesTx r hphase' => exact ⟨⟨_, rfl⟩, rfl⟩

/-! ### The exchange -/

/-- The inputs of an exchange that the client starts. -/
def exchangeTurns : List Input :=
  packetTurn (clientKexinit kexAlgorithm false) ++ packetTurn hybridInit ++
    packetTurn [sshMsgNewkeys]

/-- An entry of an exchange. -/
def ofExchange (e : Obs) : Bool := utters kexMessages e || (e matches .received _)

theorem rekeys_ofExchange {env : Env} {p : Bytes} {step : RekeyStep} {s : Session}
    (h : Rekeys env p (w.arrived p).session step s) : Grows ofExchange w.session.log s.log := by
  have harrived : Grows ofExchange w.session.log (w.arrived p).session.log := .one rfl rfl
  exact harrived.trans ((rekeys_grows h).mono fun e he => Bool.or_eq_true_iff.2 (.inl he))

/-- The keys are exchanged, and the counters start again. -/
theorem run_exchange {w₁ : World}
    (hrest : run (Config.step plainEnv) ⟨w, .flush⟩ [.phase, .phase, .phase] = some ⟨w₁, .waiting⟩)
    (hidle : w₁.session.rekey.phase = .idle) (hfed : w₁.driver.Fed)
    (hdeferred : w₁.driver.deferred = [])
    (hthresholds : w₁.session.rekey.thresholds = plainHandshake.thresholds) :
    ∃ s, run (Config.step plainEnv) ⟨w, .flush⟩ exchangeTurns =
      some ⟨{ w₁ with session := s }, .flush⟩ ∧ s.rekey.phase = .idle ∧
      World.Below { w₁ with session := s } 0 ∧ Grows ofExchange w₁.session.log s.log := by
  obtain ⟨s₁, hstep₁, hrekeys₁⟩ := @step_kexinit plainEnv w₁ _ _ willing_plainEnv hidle rfl
    negotiates_plain
  obtain ⟨iS, hphase₁⟩ := Rekeys.awaits_of_idle hrekeys₁ hidle negotiates_plain
  have hbusy₁ := @turn_busy plainEnv { w₁ with session := s₁ }
    (by simp [Session.rekeyActive, hphase₁]) hfed
  obtain ⟨s₂, hstep₂, hrekeys₂⟩ := @step_hybridInit { w₁ with session := s₁ } _ _ _ hphase₁ rfl rfl
  obtain ⟨⟨newRx, hphase₂⟩, hseq₂⟩ :=
    Rekeys.awaits_of_replied (w := { w₁ with session := s₁ }) hrekeys₂ hphase₁
  have hbusy₂ := @turn_busy plainEnv { w₁ with session := s₂ }
    (by simp [Session.rekeyActive, hphase₂]) hfed
  obtain ⟨s₃, hstep₃, hrekeys₃⟩ := @step_newkeys { w₁ with session := s₂ } plainEnv newRx hphase₂
    hdeferred
  have hthresholds₃ : s₃.rekey.thresholds = plainHandshake.thresholds :=
    (Rekeys.thresholds_eq (w := { w₁ with session := s₂ }) hrekeys₃).trans
      ((Rekeys.thresholds_eq (w := { w₁ with session := s₁ }) hrekeys₂).trans
        ((Rekeys.thresholds_eq (w := w₁) hrekeys₁).trans hthresholds))
  have hlog : Grows ofExchange w₁.session.log s₃.log :=
    (rekeys_ofExchange (w := w₁) hrekeys₁).trans
      ((rekeys_ofExchange (w := { w₁ with session := s₁ }) hrekeys₂).trans
        (rekeys_ofExchange (w := { w₁ with session := s₂ }) hrekeys₃))
  refine ⟨s₃, ?_, ?_, ?_, hlog⟩
  · simp only [exchangeTurns, packetTurn, List.append_assoc]
    rw [run_append_of_eq (run_turn hrest hstep₁), run_append_of_eq (run_turn hbusy₁ hstep₂)]
    exact run_turn hbusy₂ hstep₃
  · cases hrekeys₃ with
    | completed newRx tick now hphase hmsg => rfl
  · cases hrekeys₃ with
    | completed newRx tick now hphase hmsg =>
      exact ⟨Nat.le_refl 0, Nat.le_refl 0, Nat.le_refl 0, hseq₂.le, hthresholds₃⟩

end QuantumSsh.Channel
