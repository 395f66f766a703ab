import QuantumSsh.Lib.Program

/-!
# Programs that read a tape

Part of the state is a tape that the program reads from the front. Which part it is, is said
by the function that puts a tape into a state. A program consumes the head of the tape when
it reads just that, whatever comes behind.
-/

namespace Program

variable {σ ε ι α β : Type} {load : List ι → σ → σ}

/-- From `s`, with `head` in front on the tape, the program returns `a` and leaves what was
behind. -/
def Consumes (load : List ι → σ → σ) (p : Prog σ ε α) (s : σ) (head : List ι) (a : α) (s' : σ) :
    Prop :=
  ∀ rest, p (load (head ++ rest) s) = (.ok a, load rest s')

variable {p : Prog σ ε α} {f : α → Prog σ ε β} {s s₁ s' : σ} {head head' : List ι} {a : α} {b : β}

theorem consumes_pure (a : α) (s : σ) : Consumes load (pure a : Prog σ ε α) s [] a s :=
  fun _ => rfl

theorem Consumes.bind (h : Consumes load p s head a s₁) (h' : Consumes load (f a) s₁ head' b s') :
    Consumes load (p >>= f) s (head ++ head') b s' := by
  intro rest
  change Prog.bind p f _ = _
  rw [Prog.bind, List.append_assoc, h (head' ++ rest)]
  exact h' rest

/-- The first program reads nothing. -/
theorem Consumes.then_reads (h : Consumes load p s [] a s₁) (h' : Consumes load (f a) s₁ head b s') :
    Consumes load (p >>= f) s head b s' :=
  h.bind h'

/-- The second program reads nothing. -/
theorem Consumes.then_rests (h : Consumes load p s head a s₁)
    (h' : Consumes load (f a) s₁ [] b s') : Consumes load (p >>= f) s head b s' := by
  have hboth := h.bind h'
  rwa [List.append_nil] at hboth

/-- A value that does not depend on the tape. -/
theorem consumes_look {g : σ → α} (hg : ∀ tape s, g (load tape s) = g s) (s : σ) :
    Consumes load (look g : Prog σ ε α) s [] (g s) s := fun rest => by
  rw [List.nil_append, look, hg]

/-- A change that does not depend on the tape, and leaves it. -/
theorem consumes_update {g : σ → σ} (hg : ∀ tape s, g (load tape s) = load tape (g s)) (s : σ) :
    Consumes load (update g : Prog σ ε Unit) s [] () (g s) := fun rest => by
  rw [List.nil_append, update, hg]

theorem look_bind (g : σ → α) (s : σ) : ((look g : Prog σ ε α) >>= f) s = f (g s) s := rfl


end Program
