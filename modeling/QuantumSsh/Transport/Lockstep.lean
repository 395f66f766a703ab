import QuantumSsh.Lib.Coupling
import QuantumSsh.Transport.Session

/-!
# Two sessions in lockstep

Sessions that differ only in what they have counted on the receiving side, in their
ticks and in entries of the log that do not matter. In environments that give the same
answers from here on, their programs do the same.
-/

namespace QuantumSsh.Transport

open Wire Kex Machine Program

/-- The environment from a tick on. -/
def Env.after (env : Env) (n : ℕ) : Env where
  crypto := env.crypto
  now tick := env.now (n + tick)
  sealOk tick := env.sealOk (n + tick)
  writeOk tick := env.writeOk (n + tick)
  random tick := env.random (n + tick)
  hostKeyBlob := env.hostKeyBlob
  sign tick := env.sign (n + tick)
  helper := env.helper
  spawnOk tick := env.spawnOk (n + tick)
  allocateOk tick := env.allocateOk (n + tick)
  resizeOk tick := env.resizeOk (n + tick)

theorem Env.after_add (env : Env) (m n : ℕ) : env.after (m + n) = (env.after m).after n := by
  simp only [Env.after, Nat.add_assoc]

/-- The environment with its answers from a tick on. -/
def Env.delayed (env : Env) (n : ℕ) : Env where
  crypto := env.crypto
  now tick := env.now (tick - n)
  sealOk tick := env.sealOk (tick - n)
  writeOk tick := env.writeOk (tick - n)
  random tick := env.random (tick - n)
  hostKeyBlob := env.hostKeyBlob
  sign tick := env.sign (tick - n)
  helper := env.helper
  spawnOk tick := env.spawnOk (tick - n)
  allocateOk tick := env.allocateOk (tick - n)
  resizeOk tick := env.resizeOk (tick - n)

theorem Env.after_delayed (env : Env) (n : ℕ) : (env.delayed n).after n = env := by
  simp [Env.after, Env.delayed]

/-- What a session's programs read, but for the thresholds of the receiving side. -/
def Session.core (s : Session) : Session :=
  { s with seqRx := 0, tick := 0, log := [], rekey := { s.rekey with bytesRx := 0 } }

/-- The thresholds that what was received has crossed. -/
def Session.crossed (s : Session) : Bool × Bool :=
  (s.rekey.thresholds.maxBytes ≤ s.rekey.bytesRx, s.rekey.thresholds.maxPackets ≤ s.seqRx)

/-- What triggers a re-key that is due. -/
def Session.dueTo (s : Session) (now : ℕ) : Trigger :=
  if s.rekey.thresholds.maxInterval ≤ now - s.rekey.lastKex then .time
  else if s.rekey.thresholds.maxBytes ≤ s.rekey.bytesRx ∨
      s.rekey.thresholds.maxBytes ≤ s.rekey.bytesTx then .bytes
  else .packets

theorem crossed_writePacket (env : Env) (payload : Bytes) (s : Session) :
    ((writePacket env payload s).2).crossed = s.crossed := by
  simp only [writePacket, writeSealed, bind, Prog.bind, update, look, Transport.ask, pure]
  cases env.sealOk s.tick with
  | false => rfl
  | true =>
    cases env.writeOk s.tick with
    | false => rfl
    | true => rfl

/-- The sessions are in lockstep, as far as the log's `visible` entries show. -/
structure Beside (visible : Obs → Bool) (env env' : Env) (s t : Session) : Prop where
  core : s.core = t.core
  log : s.log.filter visible = t.log.filter visible
  agree : env.after s.tick = env'.after t.tick

variable {visible : Obs → Bool} {env env' : Env} {s t : Session} {α : Type}

namespace Beside

/-- What is read off the core is the same. -/
theorem same {β : Type} (h : Beside visible env env' s t) (g : Session → β)
    (hg : ∀ s, g s = g s.core) : g s = g t := by
  rw [hg s, hg t, h.core]

theorem update (h : Beside visible env env' s t) (f : Session → Session)
    (hcore : ∀ s, (f s).core = (f s.core).core) (hlog : ∀ s, (f s).log = s.log)
    (htick : ∀ s, (f s).tick = s.tick) : Beside visible env env' (f s) (f t) where
  core := by rw [hcore s, hcore t, h.core]
  log := by rw [hlog, hlog, h.log]
  agree := by rw [htick, htick, h.agree]

theorem updates (h : Beside visible env env' s t) {f : Session → Session}
    (hcore : ∀ s, (f s).core = (f s.core).core) (hlog : ∀ s, (f s).log = s.log)
    (htick : ∀ s, (f s).tick = s.tick) :
    (Program.update f : SessionProg Unit).Couples (Program.update f) s t
      (Beside visible env env') :=
  couples_update (h.update f hcore hlog htick)

theorem observe (h : Beside visible env env' s t) (obs : Obs) :
    Beside visible env env' (s.observe obs) (t.observe obs) where
  core := h.core
  log := by simp only [Session.observe, List.filter_append, h.log]
  agree := h.agree

/-- The environments agree on everything that does not depend on the tick. -/
theorem constants (h : Beside visible env env' s t) :
    env.crypto = env'.crypto ∧ env.hostKeyBlob = env'.hostKeyBlob ∧ env.helper = env'.helper :=
  have hsame : ∀ {β : Type} (g : Env → β), g (env.after s.tick) = g (env'.after t.tick) :=
    fun g => congrArg g h.agree
  ⟨hsame Env.crypto, hsame Env.hostKeyBlob, hsame Env.helper⟩

/-- Both take the same answer. -/
theorem ask {f : Env → ℕ → α} (h : Beside visible env env' s t)
    (hf : ∀ env n, f env n = f (env.after n) 0) :
    (ask (f env)).Couples (ask (f env')) s t (Beside visible env env') := by
  refine ⟨?_, ⟨h.core, h.log, ?_⟩⟩
  · change Except.ok (f env s.tick) = Except.ok (f env' t.tick)
    rw [hf env s.tick, hf env' t.tick, h.agree]
  · change env.after (s.tick + 1) = env'.after (t.tick + 1)
    rw [Env.after_add, Env.after_add, h.agree]

theorem sign (h : Beside visible env env' s t) (message : Bytes) :
    (Transport.ask fun tick => env.sign tick message).Couples
      (Transport.ask fun tick => env'.sign tick message) s t (Beside visible env env') :=
  h.ask (f := fun env tick => env.sign tick message) fun _ _ => rfl

/-- So many random bytes. -/
theorem draw (h : Beside visible env env' s t) (length : ℕ) :
    (Transport.ask fun tick => env.random tick length).Couples
      (Transport.ask fun tick => env'.random tick length) s t (Beside visible env env') :=
  h.ask (f := fun env tick => env.random tick length) fun _ _ => rfl

theorem writeSealed (h : Beside visible env env' s t) (payload : Bytes) :
    (writeSealed env payload).Couples (writeSealed env' payload) s t
      (Beside visible env env') := by
  have hseq := h.same Session.seqTx fun _ => rfl
  refine couples_look ?_
  rw [hseq]
  refine couples_bind (h.ask (f := fun env tick => (env.sealOk tick, env.writeOk tick))
    fun _ _ => rfl) ?_ fun _ _ h => h
  rintro ⟨sealOk, writeOk⟩ s' t' h'
  have hframe : (⟨s'.txInstalls, s'.tx, t.seqTx, payload⟩ : Frame) =
      ⟨t'.txInstalls, t'.tx, t.seqTx, payload⟩ := by
    rw [h'.same Session.txInstalls fun _ => rfl, h'.same Session.tx fun _ => rfl]
  have hlog := h'.observe (.sealed ⟨s'.txInstalls, s'.tx, t.seqTx, payload⟩)
  rw [hframe] at hlog
  cases sealOk with
  | false => exact couples_fail _ h'
  | true =>
    cases writeOk with
    | false =>
      refine ⟨rfl, ?_⟩
      change Beside visible env env' (s'.observe (.sealed ⟨s'.txInstalls, s'.tx, t.seqTx, payload⟩))
        (t'.observe _)
      rw [hframe]
      exact hlog
    | true =>
      refine ⟨rfl, ?_⟩
      change Beside visible env env'
        { s'.observe (.sealed ⟨s'.txInstalls, s'.tx, t.seqTx, payload⟩) with
          seqTx := wrappingAdd 32 t.seqTx 1 }
        { t'.observe _ with seqTx := wrappingAdd 32 t.seqTx 1 }
      rw [hframe]
      exact hlog.update (fun s => { s with seqTx := wrappingAdd 32 t.seqTx 1 })
        (fun _ => rfl) (fun _ => rfl) fun _ => rfl

theorem writePacket (h : Beside visible env env' s t) (payload : Bytes) :
    (writePacket env payload).Couples (writePacket env' payload) s t (Beside visible env env') := by
  refine couples_bind (couples_update ?_) (fun _ _ _ h' => h'.writeSealed payload) fun _ _ h => h
  exact h.update (fun s => { s with rekey := { s.rekey with
    bytesTx := saturatingAdd u64Max s.rekey.bytesTx payload.length } })
    (fun _ => rfl) (fun _ => rfl) fun _ => rfl

theorem receive (h : Beside visible env env' s t) (payload : Bytes) :
    Beside visible env env' (s.receive payload) (t.receive payload) :=
  ⟨h.core, h.log, h.agree⟩

theorem setPhase (h : Beside visible env env' s t) (phase : RekeyPhase) :
    Beside visible env env' (s.setPhase phase) (t.setPhase phase) :=
  h.update (fun s => s.setPhase phase) (fun _ => rfl) (fun _ => rfl) fun _ => rfl

theorem disconnect (h : Beside visible env env' s t) (rejection : Rejection) :
    (disconnect env rejection : SessionProg α).Couples (disconnect env' rejection) s t
      (Beside visible env env') :=
  couples_bind (couples_attempt (h.writeSealed _)) (fun _ _ _ h' => couples_fail _ h')
    fun _ _ h => h

/-! ### Re-keying -/

theorem negotiateRekey (h : Beside visible env env' s t) (payload : Bytes) :
    (negotiateRekey env payload).Couples (negotiateRekey env' payload) s t
      (Beside visible env env') := by
  unfold Transport.negotiateRekey
  split
  · exact couples_pure _ h
  · exact h.disconnect _
  · exact h.disconnect _

theorem dueTo (h : Beside visible env env' s t) (hcrossed : s.crossed = t.crossed) (now : ℕ) :
    s.dueTo now = t.dueTo now := by
  have hrx : s.rekey.thresholds.maxBytes ≤ s.rekey.bytesRx ↔
      t.rekey.thresholds.maxBytes ≤ t.rekey.bytesRx :=
    decide_eq_decide.1 (congrArg Prod.fst hcrossed)
  have htx : s.rekey.bytesTx = t.rekey.bytesTx := h.same (fun s => s.rekey.bytesTx) fun _ => rfl
  have hlast : s.rekey.lastKex = t.rekey.lastKex :=
    h.same (fun s => s.rekey.lastKex) fun _ => rfl
  have hmax : s.rekey.thresholds = t.rekey.thresholds :=
    h.same (fun s => s.rekey.thresholds) fun _ => rfl
  unfold Session.dueTo
  simp only [hrx]
  rw [hmax, hlast, htx]

/-- A re-key is due to both if they have crossed the same thresholds. -/
theorem rekeyDue (h : Beside visible env env' s t) (hcrossed : s.crossed = t.crossed) (now : ℕ) :
    s.rekeyDue now = t.rekeyDue now := by
  have hbytes : decide (s.rekey.thresholds.maxBytes ≤ s.rekey.bytesRx) =
      decide (t.rekey.thresholds.maxBytes ≤ t.rekey.bytesRx) := congrArg Prod.fst hcrossed
  have hpackets : decide (s.rekey.thresholds.maxPackets ≤ s.seqRx) =
      decide (t.rekey.thresholds.maxPackets ≤ t.seqRx) := congrArg Prod.snd hcrossed
  have hphase : s.rekey.phase = t.rekey.phase := h.same (fun s => s.rekey.phase) fun _ => rfl
  have htx : s.rekey.bytesTx = t.rekey.bytesTx := h.same (fun s => s.rekey.bytesTx) fun _ => rfl
  have hlast : s.rekey.lastKex = t.rekey.lastKex :=
    h.same (fun s => s.rekey.lastKex) fun _ => rfl
  have hmax : s.rekey.thresholds = t.rekey.thresholds :=
    h.same (fun s => s.rekey.thresholds) fun _ => rfl
  have hseq : s.seqTx = t.seqTx := h.same Session.seqTx fun _ => rfl
  unfold Session.rekeyDue thresholdsReached
  rw [hbytes, hpackets, hphase, htx, hlast, hmax, hseq]

/-- Both start a re-key for the same reason if they have crossed the same thresholds. -/
theorem beginRekey (h : Beside visible env env' s t) (hcrossed : s.crossed = t.crossed) :
    (beginRekey env).Couples (beginRekey env') s t (Beside visible env env') := by
  refine couples_bind ((h.draw 16).keeping hcrossed rfl rfl) ?_ fun _ _ h => h.1
  rintro cookie s₁ t₁ ⟨h₁, hcrossed₁⟩
  cases cookie with
  | none => exact couples_fail _ h₁
  | some cookie =>
    refine couples_bind ((h₁.writePacket _).keeping hcrossed₁ (crossed_writePacket _ _ _)
      (crossed_writePacket _ _ _)) ?_ fun _ _ h => h.1
    rintro _ s₂ t₂ ⟨h₂, hcrossed₂⟩
    refine couples_bind ((h₂.ask fun _ _ => rfl).keeping hcrossed₂ rfl rfl) ?_ fun _ _ h => h.1
    rintro started s₃ t₃ ⟨h₃, hcrossed₃⟩
    refine couples_bind ((h₃.ask fun _ _ => rfl).keeping hcrossed₃ rfl rfl) ?_ fun _ _ h => h.1
    rintro now s₄ t₄ ⟨h₄, hcrossed₄⟩
    have htrigger := h₄.dueTo hcrossed₄ now
    refine couples_update ?_
    change Beside visible env env'
      { s₄ with rekey := { s₄.rekey with
          started, initiator := .server, trigger := s₄.dueTo now
          phase := .sentKexInit (buildRekeyKexinit cookie) } }
      { t₄ with rekey := { t₄.rekey with
          started, initiator := .server, trigger := t₄.dueTo now
          phase := .sentKexInit (buildRekeyKexinit cookie) } }
    rw [htrigger]
    exact h₄.update (fun s => { s with rekey := { s.rekey with
      started, initiator := .server, trigger := t₄.dueTo now
      phase := .sentKexInit (buildRekeyKexinit cookie) } }) (fun _ => rfl) (fun _ => rfl)
      fun _ => rfl

theorem completeRekeyReply (h : Beside visible env env' s t) (payload iC iS : Bytes)
    (n : Negotiated) :
    (completeRekeyReply env payload iC iS n).Couples (completeRekeyReply env' payload iC iS n) s t
      (Beside visible env env') := by
  obtain ⟨hcrypto, hblob, -⟩ := h.constants
  unfold Transport.completeRekeyReply
  cases readHybridInit.run payload with
  | error => exact h.disconnect _
  | ok fields =>
    obtain ⟨clientInit, rest⟩ := fields
    refine couples_bind (h.draw 32) ?_ fun _ _ h => h
    intro m s₁ t₁ h₁
    refine couples_bind (h₁.draw 32) ?_ fun _ _ h => h
    intro secret s₂ t₂ h₂
    rw [← hcrypto]
    split
    · exact h₂.disconnect _
    · exact h₂.disconnect _
    next outcome _ =>
      refine couples_look ?_
      have hclient : s₂.clientId = t₂.clientId := h₂.same Session.clientId fun _ => rfl
      have hsession : s₂.sessionId = t₂.sessionId := h₂.same Session.sessionId fun _ => rfl
      simp only [id_eq, hclient, hsession, ← hblob]
      refine couples_bind (h₂.sign _) ?_ fun _ _ h => h
      intro signature s₃ t₃ h₃
      cases signature with
      | none => exact h₃.disconnect _
      | some signature =>
        dsimp only
        split
        next newRx newTx _ =>
          refine couples_bind (h₃.writePacket _) ?_ fun _ _ h => h
          intro _ s₄ t₄ h₄
          refine couples_bind (h₄.writePacket _) ?_ fun _ _ h => h
          intro _ s₅ t₅ h₅
          refine couples_bind (h₅.updates (fun _ => rfl) (fun _ => rfl) fun _ => rfl) ?_
            fun _ _ h => h
          exact fun _ _ _ h₆ => couples_pure _ h₆
        next => exact couples_fail _ h₃

/-- What `step_rekey` does once the peer's NEWKEYS is accepted. -/
theorem completed (h : Beside visible env env' s t) (newRx : PacketCipher) :
    (do
      let now ← Transport.ask env.now
      Program.update fun s => { s.observe .rekeyed with
        rx := newRx
        rxInstalls := s.rxInstalls + 1
        seqRx := 0
        rekey := { s.rekey with bytesRx := 0, bytesTx := 0, lastKex := now, phase := .idle } }
      return .completed : SessionProg RekeyStep).Couples
    (do
      let now ← Transport.ask env'.now
      Program.update fun s => { s.observe .rekeyed with
        rx := newRx
        rxInstalls := s.rxInstalls + 1
        seqRx := 0
        rekey := { s.rekey with bytesRx := 0, bytesTx := 0, lastKex := now, phase := .idle } }
      return .completed) s t (Beside visible env env') := by
  refine couples_bind (h.ask fun _ _ => rfl) ?_ fun _ _ h => h
  intro now s₂ t₂ h₂
  refine couples_bind (couples_update ?_) (fun _ _ _ h => couples_pure _ h) fun _ _ h => h
  exact (h₂.observe .rekeyed).update (fun s => { s with
    rx := newRx
    rxInstalls := s.rxInstalls + 1
    seqRx := 0
    rekey := { s.rekey with bytesRx := 0, bytesTx := 0, lastKex := now, phase := .idle } })
    (fun _ => rfl) (fun _ => rfl) fun _ => rfl

theorem stepRekey (h : Beside visible env env' s t) (payload : Bytes) :
    (stepRekey env payload).Couples (stepRekey env' payload) s t (Beside visible env env') := by
  refine couples_look ?_
  rw [h.same (fun s => s.rekey.phase) fun _ => rfl]
  refine couples_bind (couples_update (h.setPhase .idle)) ?_ fun _ _ h => h
  intro _ s₁ t₁ h₁
  have hawaits : ∀ iS (n : Negotiated), ∀ s t, Beside visible env env' s t →
      (Program.update (fun s : Session => s.setPhase (.awaitHybridInit payload iS n
        n.skipGuessedPacket)) >>= fun _ => pure .continued : SessionProg RekeyStep).Couples
      (Program.update (fun s : Session => s.setPhase (.awaitHybridInit payload iS n
        n.skipGuessedPacket)) >>= fun _ => pure .continued) s t (Beside visible env env') :=
    fun iS n s t h => couples_bind (couples_update (h.setPhase _))
      (fun _ _ _ h => couples_pure _ h) fun _ _ h => h
  cases t.rekey.phase with
  | idle =>
    refine couples_ite (fun _ => h₁.disconnect _) fun _ => ?_
    refine couples_bind (h₁.ask fun _ _ => rfl) ?_ fun _ _ h => h
    intro now s₂ t₂ h₂
    refine couples_bind (h₂.updates (fun _ => rfl) (fun _ => rfl) fun _ => rfl) ?_ fun _ _ h => h
    intro _ s₃ t₃ h₃
    refine couples_bind (h₃.draw 16) ?_ fun _ _ h => h
    intro cookie s₄ t₄ h₄
    cases cookie with
    | none => exact couples_fail _ h₄
    | some cookie =>
      refine couples_bind (h₄.writePacket _) ?_ fun _ _ h => h
      intro _ s₅ t₅ h₅
      exact couples_bind (h₅.negotiateRekey payload) (fun n s t h => hawaits _ n s t h)
        fun _ _ h => h
  | sentKexInit iS =>
    refine couples_ite (fun _ => ?_) fun _ => ?_
    · exact couples_bind (h₁.negotiateRekey payload) (fun n s t h => hawaits iS n s t h)
        fun _ _ h => h
    · exact couples_bind (couples_update (h₁.setPhase _)) (fun _ _ _ h => couples_pure _ h)
        fun _ _ h => h
  | awaitHybridInit iC iS n skip =>
    cases skip with
    | true =>
      exact couples_bind (couples_update (h₁.setPhase _)) (fun _ _ _ h => couples_pure _ h)
        fun _ _ h => h
    | false =>
      exact couples_ite (fun _ => h₁.completeRekeyReply payload iC iS n) fun _ => h₁.disconnect _
  | awaitNewKeys newRx =>
    refine couples_ite (fun _ => ?_) fun _ => h₁.disconnect _
    refine couples_ite (fun _ => ?_) fun _ => h₁.completed newRx
    exact couples_bind (h₁.disconnect _) (fun _ _ _ h => h.completed newRx) fun _ _ h => h

end Beside

end QuantumSsh.Transport
