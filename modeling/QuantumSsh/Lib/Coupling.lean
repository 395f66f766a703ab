import QuantumSsh.Lib.Program

/-!
# Coupled programs

Two programs in lockstep: they end with the same result, in states that a relation
holds of. The rules follow the shape of the programs.
-/

namespace Program

variable {σ τ ε α β : Type}

/-- The programs end with the same result, in related states. -/
def Prog.Couples (p : Prog σ ε α) (q : Prog τ ε α) (s : σ) (t : τ) (R : σ → τ → Prop) :
    Prop :=
  (p s).1 = (q t).1 ∧ R (p s).2 (q t).2

variable {s : σ} {t : τ} {R S : σ → τ → Prop} {p : Prog σ ε α} {q : Prog τ ε α}

namespace Prog.Couples

theorem mono (h : p.Couples q s t R) (hRS : ∀ s' t', R s' t' → S s' t') : p.Couples q s t S :=
  ⟨h.1, hRS _ _ h.2⟩

/-- What one program returns, the other does. -/
theorem of_ok (h : p.Couples q s t R) {a : α} {s' : σ} (hp : p s = (.ok a, s')) :
    ∃ t', q t = (.ok a, t') ∧ R s' t' := by
  rcases hq : q t with ⟨result, t'⟩
  obtain ⟨hresult, hR⟩ := h
  rw [hp, hq] at hresult hR
  exact ⟨t', congrArg (·, t') hresult.symm, hR⟩

/-- What one program fails with, the other does. -/
theorem of_error (h : p.Couples q s t R) {e : ε} {s' : σ} (hp : p s = (.error e, s')) :
    ∃ t', q t = (.error e, t') ∧ R s' t' := by
  rcases hq : q t with ⟨result, t'⟩
  obtain ⟨hresult, hR⟩ := h
  rw [hp, hq] at hresult hR
  exact ⟨t', congrArg (·, t') hresult.symm, hR⟩

theorem symm (h : p.Couples q s t R) : q.Couples p t s fun t s => R s t :=
  ⟨h.1.symm, h.2⟩

theorem trans {υ : Type} {r : Prog υ ε α} {u : υ} {T : τ → υ → Prop} (h : p.Couples q s t R)
    (h' : q.Couples r t u T) : p.Couples r s u fun s u => ∃ t, R s t ∧ T t u :=
  ⟨h.1.trans h'.1, _, h.2, h'.2⟩

/-- What neither program changes stays the same. -/
theorem keeping {γ : Type} {f : σ → γ} {g : τ → γ} (h : p.Couples q s t R) (hfg : f s = g t)
    (hp : f (p s).2 = f s) (hq : g (q t).2 = g t) :
    p.Couples q s t fun s' t' => R s' t' ∧ f s' = g t' :=
  ⟨h.1, h.2, hp.trans (hfg.trans hq.symm)⟩

end Prog.Couples

theorem couples_pure (a : α) (h : R s t) : (pure a : Prog σ ε α).Couples (pure a) s t R :=
  ⟨rfl, h⟩

theorem couples_fail (e : ε) (h : R s t) : (fail e : Prog σ ε α).Couples (fail e) s t R :=
  ⟨rfl, h⟩

theorem couples_update {f : σ → σ} {g : τ → τ} (h : R (f s) (g t)) :
    (update f : Prog σ ε Unit).Couples (update g) s t R := ⟨rfl, h⟩

theorem couples_update_bind {f : σ → σ} {g : τ → τ} {k : Unit → Prog σ ε α}
    {k' : Unit → Prog τ ε α} (h : (k ()).Couples (k' ()) (f s) (g t) R) :
    (update f >>= k).Couples (update g >>= k') s t R := h

theorem couples_bind {f : α → Prog σ ε β} {g : α → Prog τ ε β} (h : p.Couples q s t R)
    (hnext : ∀ a s' t', R s' t' → (f a).Couples (g a) s' t' S)
    (herr : ∀ s' t', R s' t' → S s' t') : (p >>= f).Couples (q >>= g) s t S := by
  obtain ⟨hresult, hR⟩ := h
  change (Prog.bind p f).Couples (Prog.bind q g) s t S
  unfold Prog.Couples Prog.bind
  rcases hp : p s with ⟨_ | a, s'⟩ <;> rcases hq : q t with ⟨_ | b, t'⟩ <;>
    rw [hp, hq] at hresult hR <;> cases hresult
  · exact ⟨rfl, herr _ _ hR⟩
  · exact hnext a s' t' hR

/-- What one of the programs ensures holds where they go on. -/
theorem couples_bind_of_ensures {f : α → Prog σ ε β} {g : α → Prog τ ε β} {P : α → Prop}
    (h : p.Couples q s t R) (hp : p.Ensures s (fun a _ => P a) fun _ _ => True)
    (hnext : ∀ a s' t', P a → R s' t' → (f a).Couples (g a) s' t' S)
    (herr : ∀ s' t', R s' t' → S s' t') : (p >>= f).Couples (q >>= g) s t S := by
  rcases hrun : p s with ⟨e | a, s'⟩
  · obtain ⟨t', hq, hR⟩ := h.of_error hrun
    refine ⟨?_, ?_⟩ <;> simp only [bind, Prog.bind, hrun, hq]
    exact herr s' t' hR
  · obtain ⟨t', hq, hR⟩ := h.of_ok hrun
    have hnext := hnext a s' t' (hp.of_ok hrun) hR
    refine ⟨?_, ?_⟩ <;> simp only [bind, Prog.bind, hrun, hq]
    · exact hnext.1
    · exact hnext.2

/-- The programs branch alike. -/
theorem couples_ite_of_iff {c c' : Prop} [Decidable c] [Decidable c'] {p' : Prog σ ε α}
    {q' : Prog τ ε α} (hc : c ↔ c') (hpos : c → p.Couples q s t R)
    (hneg : ¬c → p'.Couples q' s t R) :
    (if c then p else p').Couples (if c' then q else q') s t R := by
  by_cases h : c
  · rw [if_pos h, if_pos (hc.1 h)]
    exact hpos h
  · rw [if_neg h, if_neg fun h' => h (hc.2 h')]
    exact hneg h

theorem couples_ite {c : Prop} [Decidable c] {p' : Prog σ ε α} {q' : Prog τ ε α}
    (hpos : c → p.Couples q s t R) (hneg : ¬c → p'.Couples q' s t R) :
    (if c then p else p').Couples (if c then q else q') s t R :=
  couples_ite_of_iff Iff.rfl hpos hneg

/-- What is looked at may differ, as long as what follows is coupled. -/
theorem couples_look {γ δ : Type} {g : σ → γ} {g' : τ → δ} {f : γ → Prog σ ε α}
    {f' : δ → Prog τ ε α} (h : (f (g s)).Couples (f' (g' t)) s t R) :
    (look g >>= f).Couples (look g' >>= f') s t R := h

/-- An ignored failure: both programs go on. -/
theorem couples_attempt (h : p.Couples q s t R) : (attempt p).Couples (attempt q) s t R :=
  ⟨rfl, h.2⟩

theorem couples_zoom {σ' τ' : Type} {get : σ' → σ} {set : σ' → σ → σ'} {get' : τ' → τ}
    {set' : τ' → τ → τ'} {u : σ'} {v : τ'} {T : σ' → τ' → Prop}
    (h : p.Couples q (get u) (get' v) R) (hset : ∀ s' t', R s' t' → T (set u s') (set' v t')) :
    (zoom get set p).Couples (zoom get' set' q) u v T :=
  ⟨h.1, hset _ _ h.2⟩

end Program
