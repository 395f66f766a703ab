import QuantumSsh.Channel.Duplex

/-!
# What each part of a turn seals

The messages that the parts of a turn may seal, by their numbers. A property of the
log that looks only at some messages is then kept by every part that seals none of
them.
-/

namespace QuantumSsh.Channel

open Wire Kex Machine Program Transport

/-! ### Growth of the log -/

/-- The log grows by entries of one kind. -/
def Grows (P : Obs → Bool) (log log' : List Obs) : Prop :=
  ∃ es, log' = log ++ es ∧ ∀ e ∈ es, P e = true

namespace Grows

variable {P Q : Obs → Bool} {log log₁ log' : List Obs}

theorem refl (P : Obs → Bool) (log : List Obs) : Grows P log log := ⟨[], by simp, by simp⟩

theorem trans (h : Grows P log log₁) (h' : Grows P log₁ log') : Grows P log log' := by
  obtain ⟨es, rfl, hes⟩ := h
  obtain ⟨es', rfl, hes'⟩ := h'
  refine ⟨es ++ es', by simp, fun e he => ?_⟩
  obtain he | he := List.mem_append.1 he
  · exact hes e he
  · exact hes' e he

theorem mono (h : Grows P log log') (hPQ : ∀ e, P e = true → Q e = true) : Grows Q log log' := by
  obtain ⟨es, hlog, hes⟩ := h
  exact ⟨es, hlog, fun e he => hPQ e (hes e he)⟩

theorem one {e : Obs} (he : P e = true) (hlog : log' = log ++ [e]) : Grows P log log' :=
  ⟨[e], hlog, by simpa using he⟩

/-- What every entry of the kind keeps, the growth keeps. -/
theorem keeps {R : List Obs → Prop} (h : Grows P log log')
    (hR : ∀ log e, P e = true → R log → R (log ++ [e])) (hlog : R log) : R log' := by
  obtain ⟨es, rfl, hes⟩ := h
  induction es generalizing log with
  | nil => simpa using hlog
  | cons e es ih =>
    have hone := hR log e (hes e List.mem_cons_self) hlog
    simpa using ih hone fun e he => hes e (List.mem_cons_of_mem _ he)

end Grows

/-- The message is one of these. -/
def isOneOf (msgs : List UInt8) (q : Bytes) : Bool := q.head?.any fun msg => msg ∈ msgs

theorem isOneOf_disjoint {msgs msgs' : List UInt8} (h : ∀ msg ∈ msgs, msg ∉ msgs') {q : Bytes}
    (hq : isOneOf msgs q = true) : isOneOf msgs' q = false := by
  cases hhead : q.head? with
  | none => simp [isOneOf, hhead]
  | some msg =>
    have hmem : msg ∈ msgs := by simpa [isOneOf, hhead] using hq
    simpa [isOneOf, hhead] using h msg hmem

/-- The entry seals one of the messages, or it is about the server's own side. -/
def utters (msgs : List UInt8) : Obs → Bool
  | .sealed f => isOneOf msgs f.payload
  | .received _ | .handled _ | .output _ _ => false
  | _ => true

theorem utters_mono {msgs msgs' : List UInt8} (h : msgs ⊆ msgs') (e : Obs)
    (he : utters msgs e = true) : utters msgs' e = true := by
  cases e with
  | sealed f =>
    cases hf : f.payload.head? with
    | none => simp [utters, isOneOf, hf] at he
    | some msg =>
      have hmem : msg ∈ msgs := by simpa [utters, isOneOf, hf] using he
      simpa [utters, isOneOf, hf] using h hmem
  | received | handled | output => cases he
  | rekeyed | accepted | queued | stdinEof | credited | execStarted | execFinished => rfl

/-! ### The parts of a turn -/

variable {env : Env} {w w' : World}

theorem grows_sent {msgs : List UInt8} {q : Bytes}
    (hq : isOneOf msgs q = true) (tick bytesTx : ℕ) :
    Grows (utters msgs) w.session.log (w.sent tick bytesTx q).session.log := by
  have he : utters msgs (.sealed (w.session.frame q)) = true := hq
  exact .one he rfl

theorem grows_left {P : Bytes → Prop} {msgs : List UInt8} (h : w.Left P w')
    (hP : ∀ q, P q → isOneOf msgs q = true) :
    Grows (utters msgs) w.session.log w'.session.log := by
  obtain hlog | ⟨q, hq, hlog⟩ := h
  · rw [hlog]
    exact .refl _ _
  · have he : utters msgs (.sealed (w.session.frame q)) = true := hP q hq
    exact .one he hlog

theorem grows_disconnect (h : w.Left IsDisconnect w') :
    Grows (utters [Kex.sshMsgDisconnect]) w.session.log w'.session.log := by
  refine grows_left h fun q hq => ?_
  have hhead : q.head? = some Kex.sshMsgDisconnect := hq
  simp [isOneOf, hhead]

/-- The messages of channel data. -/
def dataMessages : List UInt8 := [sshMsgChannelData, sshMsgChannelExtendedData]

/-- The messages of the terminal sequence: the exit report, EOF and CLOSE. -/
def terminalMessages : List UInt8 := [sshMsgChannelRequest, sshMsgChannelEof, sshMsgChannelClose]

/-- The messages of a key exchange. -/
def kexMessages : List UInt8 := [sshMsgKexinit, sshMsgNewkeys, sshMsgKexHybridReply]

/-- The messages that answer a request. -/
def replyMessages : List UInt8 :=
  [sshMsgRequestFailure, sshMsgChannelOpenConfirmation, sshMsgChannelOpenFailure,
    sshMsgChannelSuccess, sshMsgChannelFailure]

theorem head_dataFrame (w : World) (p : PendingOut) (n : ℕ) :
    isOneOf dataMessages (w.dataFrame p n) = true := by
  unfold World.dataFrame buildDataFrame
  cases p.kind <;> rfl

theorem head_exitReport {d : Driver} {report : Bytes} (h : d.exitReport = some report) :
    report.head? = some sshMsgChannelRequest := by
  unfold Driver.exitReport at h
  split at h <;> cases h <;> rfl

theorem head_terminal {d : Driver} {q : Bytes} (hq : q ∈ d.terminal) :
    isOneOf terminalMessages q = true := by
  unfold Driver.terminal at hq
  split at hq
  · rw [List.mem_singleton.1 hq]
    rfl
  · obtain hq | hq := List.mem_append.1 hq
    · rw [isOneOf, head_exitReport (Option.mem_toList.1 hq)]
      rfl
    · obtain rfl | rfl : q = buildEof d.peerChan ∨ q = buildClose d.peerChan := by simpa using hq
      · rfl
      · rfl

theorem FlushOnes.grows (h : Relation.ReflTransGen FlushOne w w') :
    Grows (utters dataMessages) w.session.log w'.session.log := by
  induction h with
  | refl => exact .refl _ _
  | tail _ hone ih =>
    cases hone with
    | packet p n tick bytesTx hflush =>
      exact ih.trans (grows_sent (head_dataFrame _ p n) tick bytesTx)

theorem FlushFails.grows (h : FlushFails w w') :
    Grows (utters dataMessages) w.session.log w'.session.log := by
  obtain ⟨w₁, p, n, hrun, hflush, hleft⟩ := h
  refine (FlushOnes.grows hrun).trans (grows_left hleft ?_)
  rintro q rfl
  exact head_dataFrame w₁ p n

theorem HandsOff.grows (h : HandsOff w w') : Grows (utters []) w.session.log w'.session.log := by
  have hfeeds : ∀ {w₁ : World}, Feeds w w₁ → Grows (utters []) w.session.log w₁.session.log := by
    intro w₁ h
    cases h with
    | queued child chunk preExec => exact .one rfl rfl
    | childless | empty | returned | dropped => exact .refl _ _
  cases h with
  | fed h => exact hfeeds h
  | closed h h' =>
    cases h' with
    | closed child hchild heof hnext hopen => exact (hfeeds h).trans (.one rfl rfl)

theorem Credits.grows (h : Credits w w') :
    Grows (utters [sshMsgChannelWindowAdjust]) w.session.log w'.session.log := by
  cases h with
  | below hlt => exact .refl _ _
  | returned tick bytesTx hbatch => exact grows_sent rfl tick bytesTx

theorem SentAll.grows {qs : List Bytes} {msgs : List UInt8} (h : SentAll qs w w')
    (hqs : ∀ q ∈ qs, isOneOf msgs q = true) :
    Grows (utters msgs) w.session.log w'.session.log := by
  induction h with
  | nil => exact .refl _ _
  | cons tick bytesTx hsent ih =>
    have hq := hqs _ List.mem_cons_self
    exact (grows_sent hq tick bytesTx).trans (ih fun q hq => hqs q (List.mem_cons_of_mem _ hq))

theorem emitFinished_grows (w : World) :
    Grows (utters []) w.session.log w.emitFinished.session.log := by
  unfold World.emitFinished
  split
  · exact .one rfl rfl
  · exact .refl _ _

theorem rekeys_grows {p : Bytes} {step : RekeyStep} {s s' : Session}
    (h : Rekeys env p s step s') : Grows (utters kexMessages) s.log s'.log := by
  cases h with
  | opened cookie n tick bytesTx started hphase hmsg hn => exact .one rfl rfl
  | answered iS n tick hphase hmsg hn => exact .refl _ _
  | passed iS hphase hmsg => exact .refl _ _
  | skipped iC iS n hphase => exact .refl _ _
  | replied iC iS n tick₁ tick bytesTx₁ bytesTx r hphase hmsg =>
    have hreply : Grows (utters kexMessages) s.log (s.sent tick₁ bytesTx₁ r.payload).log :=
      .one rfl rfl
    exact hreply.trans (.one rfl rfl)
  | completed newRx tick now hphase hmsg => exact .one rfl rfl

/-- What phases (C) to (E) seal. -/
def settleMessages : List UInt8 := sshMsgChannelWindowAdjust :: sshMsgKexinit :: terminalMessages

theorem Settles.grows {finished : Bool} (h : Settles w finished w') :
    Grows (utters settleMessages) w.session.log w'.session.log := by
  have hcredit : [sshMsgChannelWindowAdjust] ⊆ settleMessages := by decide
  have hterminal : terminalMessages ⊆ settleMessages := by decide
  cases h with
  | busy hactive => exact .refl _ _
  | rekeyed cookie tick bytesTx started trigger hidle hcredits hstate =>
    exact (hcredits.grows.mono (utters_mono hcredit)).trans (.one rfl rfl)
  | @closes w₁ _ _ tick now hidle hcredits hdue hcloses =>
    refine (hcredits.grows.mono (utters_mono hcredit)).trans ?_
    cases hcloses with
    | waiting hready hstate => exact .refl _ _
    | finished hready hstate => exact (emitFinished_grows _).mono (utters_mono (by simp))
    | half hready hearly hsent =>
      have hsent' := hsent.grows fun q hq => head_terminal hq
      exact hsent'.mono (utters_mono hterminal)
    | early hready hearly hsent =>
      have hsent' := hsent.grows fun q hq => head_terminal hq
      exact (hsent'.mono (utters_mono hterminal)).trans
        ((emitFinished_grows _).mono (utters_mono (by simp)))

theorem SettleFails.grows (h : SettleFails w w') :
    Grows (utters settleMessages) w.session.log w'.session.log := by
  have hcredit : [sshMsgChannelWindowAdjust] ⊆ settleMessages := by decide
  have hterminal : terminalMessages ⊆ settleMessages := by decide
  cases h with
  | credit hidle hbatch hleft =>
    refine grows_left hleft ?_
    rintro q rfl
    rfl
  | rekey w₁ cookie hidle hcredits hstate hleft =>
    refine (hcredits.grows.mono (utters_mono hcredit)).trans (grows_left hleft ?_)
    rintro q rfl
    rfl
  | terminal w₁ tick now hidle hcredits hdue hready hfails =>
    obtain ⟨pre, q, post, w₂, hqs, hsent, hleft⟩ := hfails
    have hmem : ∀ q' ∈ pre ++ q :: post,
        isOneOf terminalMessages q' = true := by
      rw [← hqs]
      exact fun q' hq' => head_terminal hq'
    have hsent' := hsent.grows fun q' hq' => hmem q' (List.mem_append_left _ hq')
    have hleft' : Grows (utters terminalMessages) w₂.session.log w'.session.log := by
      refine grows_left hleft ?_
      rintro q' rfl
      exact hmem q' (by simp)
    exact (hcredits.grows.mono (utters_mono hcredit)).trans
      ((hsent'.trans hleft').mono (utters_mono hterminal))

/-- What a failed step of the re-key seals. -/
theorem rekeyFails_grows {p : Bytes} (h : RekeyFails p w.session w'.session) :
    Grows (utters (Kex.sshMsgDisconnect :: kexMessages)) w.session.log w'.session.log := by
  have hkex : kexMessages ⊆ Kex.sshMsgDisconnect :: kexMessages := List.subset_cons_self _ _
  have hdisconnect : [Kex.sshMsgDisconnect] ⊆ Kex.sshMsgDisconnect :: kexMessages := by decide
  have hreply : ∀ q : Bytes, q.head? = some sshMsgKexHybridReply →
      isOneOf (Kex.sshMsgDisconnect :: kexMessages) q = true := by
    intro q hq
    rw [isOneOf, hq]
    rfl
  cases h with
  | refused hleft => exact (grows_disconnect hleft).mono (utters_mono hdisconnect)
  | opening cookie hphase hmsg hleft =>
    refine grows_left hleft ?_
    rintro q rfl
    rfl
  | openedRefused cookie tick bytesTx hphase hmsg hleft =>
    have hsent : Grows (utters (Kex.sshMsgDisconnect :: kexMessages)) w.session.log
        (w.sent tick bytesTx (buildRekeyKexinit cookie)).session.log := grows_sent rfl tick bytesTx
    have hleft' : (w.sent tick bytesTx (buildRekeyKexinit cookie)).Left IsDisconnect w' := hleft
    exact hsent.trans ((grows_disconnect hleft').mono (utters_mono hdisconnect))
  | replying q iC iS n hphase hq hleft =>
    refine grows_left hleft ?_
    rintro q' rfl
    exact hreply q' hq
  | finishing q iC iS n tick bytesTx hphase hq hleft =>
    have hsent : Grows (utters (Kex.sshMsgDisconnect :: kexMessages)) w.session.log
        (w.sent tick bytesTx q).session.log := grows_sent (hreply q hq) tick bytesTx
    have hleft' : (w.sent tick bytesTx q).Left (fun q' => q' = [sshMsgNewkeys]) w' := hleft
    refine hsent.trans (grows_left hleft' ?_)
    rintro q' rfl
    rfl

end QuantumSsh.Channel
