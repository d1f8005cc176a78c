import ScriptEngine.Run.Exec

/-!
# Computations that agree

Two computations that start from related states agree if both yield a result, both fail with the
same error, or both take too many steps.  What the results and the states have to do with each other
in the first two cases is a parameter.

## Main definitions

* `Ending.state?` : the state that is left behind.
* `Ending.Agree` : endings that agree.
* `Exec.Relates` : computations whose endings agree on related states.
* `Exec.Same` : the same result and related states again.
* `Exec.Yields` : the results of a computation.

## Main statements

* `Exec.Relates.bind`, `Exec.Same.bind` : computations one after the other.
* `Exec.Same.iterate`, `Exec.Same.firstResult` : repeated computations.
-/

namespace ScriptEngine

variable {σ τ ε α β γ δ : Type}

/-- The state that is left behind, with a result or with an error. -/
def Ending.state? : Ending σ ε α → Option σ
  | .ok _ s => some s
  | .error _ s => some s
  | .exhausted => none

/-- Whether a computation ends with a result and a state that pass a test. -/
def Ending.passes (test : α → σ → Bool) : Ending σ ε α → Bool
  | .ok a s => test a s
  | _ => false

theorem Ending.exists_of_passes {x : Ending σ ε α} {test : α → σ → Bool}
    (h : x.passes test = true) :
    ∃ a s, x = .ok a s ∧ test a s = true := by
  cases x with
  | ok a s => exact ⟨a, s, rfl, h⟩
  | error | exhausted => cases h

/-- The error that a computation fails with. -/
def Ending.error? : Ending σ ε α → Option (ε × σ)
  | .error e s => some (e, s)
  | _ => none

theorem Ending.eq_of_error? {x : Ending σ ε α} {e : ε} {s : σ} (h : x.error? = some (e, s)) :
    x = .error e s := by
  cases x with
  | error => cases h; rfl
  | ok | exhausted => cases h

/-- Endings of one kind, with related results and states. -/
inductive Ending.Agree (E : σ → τ → Prop) (Q : α → β → σ → τ → Prop) :
    Ending σ ε α → Ending τ ε β → Prop where
  | ok {a : α} {b : β} {s : σ} {t : τ} (h : Q a b s t) : Ending.Agree E Q (.ok a s) (.ok b t)
  | error {e : ε} {s : σ} {t : τ} (h : E s t) : Ending.Agree E Q (.error e s) (.error e t)
  | exhausted : Ending.Agree E Q .exhausted .exhausted

/-- The same result on both sides, and related states. -/
abbrev sameResult (S : σ → τ → Prop) : α → α → σ → τ → Prop :=
  fun a b s t => a = b ∧ S s t

theorem Ending.Agree.mono {E E' : σ → τ → Prop} {Q Q' : α → β → σ → τ → Prop}
    {x : Ending σ ε α} {y : Ending τ ε β} (h : x.Agree E Q y) (hE : ∀ {s t}, E s t → E' s t)
    (hQ : ∀ {a b s t}, Q a b s t → Q' a b s t) : x.Agree E' Q' y := by
  cases h with
  | ok h => exact .ok (hQ h)
  | error h => exact .error (hE h)
  | exhausted => exact .exhausted

theorem Ending.Agree.symm {E : σ → τ → Prop} {Q : α → β → σ → τ → Prop} {x : Ending σ ε α}
    {y : Ending τ ε β} (h : x.Agree E Q y) :
    y.Agree (fun t s => E s t) (fun b a t s => Q a b s t) x := by
  cases h with
  | ok h => exact .ok h
  | error h => exact .error h
  | exhausted => exact .exhausted

theorem Ending.Agree.trans {υ : Type} {E : σ → τ → Prop} {E' : τ → υ → Prop}
    {Q : α → β → σ → τ → Prop} {Q' : β → γ → τ → υ → Prop} {x : Ending σ ε α} {y : Ending τ ε β}
    {z : Ending υ ε γ} (h : x.Agree E Q y) (h' : y.Agree E' Q' z) :
    x.Agree (fun s u => ∃ t, E s t ∧ E' t u) (fun a c s u => ∃ b t, Q a b s t ∧ Q' b c t u) z := by
  cases h with
  | ok h => cases h' with | ok h' => exact .ok ⟨_, _, h, h'⟩
  | error h => cases h' with | error h' => exact .error ⟨_, h, h'⟩
  | exhausted => cases h' with | exhausted => exact .exhausted

namespace Exec

/-- Computations whose endings agree on states related by `S`: failures leave states related by `E`,
and results satisfy `Q`. -/
def Relates (S E : σ → τ → Prop) (Q : α → β → σ → τ → Prop) (x : Exec σ α) (y : Exec τ β) : Prop :=
  ∀ ⦃s t⦄, S s t → (x s).Agree E Q (y t)

namespace Relates

variable {S S' E E' : σ → τ → Prop} {Q Q' : α → β → σ → τ → Prop} {P : γ → δ → σ → τ → Prop}
  {x : Exec σ α} {y : Exec τ β}

theorem bind {f : α → Exec σ γ} {g : β → Exec τ δ} (h : Relates S E Q x y)
    (hf : ∀ a b, Relates (Q a b) E P (f a) (g b)) : Relates S E P (x >>= f) (y >>= g) := by
  intro s t hst
  change Ending.Agree E P (andThen x f s) (andThen y g t)
  have hxy := h hst
  unfold andThen
  generalize x s = p at hxy ⊢
  generalize y t = q at hxy ⊢
  cases hxy with
  | ok hQ => exact hf _ _ hQ
  | error hE => exact .error hE
  | exhausted => exact .exhausted

theorem pure {a : α} {b : β} (h : ∀ {s t}, S s t → Q a b s t) :
    Relates S E Q (pure a : Exec σ α) (pure b : Exec τ β) :=
  fun _ _ hst => .ok (h hst)

theorem fail (e : RuntimeError) (h : ∀ {s t}, S s t → E s t) :
    Relates S E Q (Exec.fail e : Exec σ α) (Exec.fail e : Exec τ β) :=
  fun _ _ hst => .error (h hst)

theorem mono (h : Relates S E Q x y) (hS : ∀ {s t}, S' s t → S s t) (hE : ∀ {s t}, E s t → E' s t)
    (hQ : ∀ {a b s t}, Q a b s t → Q' a b s t) : Relates S' E' Q' x y :=
  fun _ _ hst => (h (hS hst)).mono hE hQ

end Relates

/-! ### Laws -/

theorem andThen_result (x : Exec σ α) : andThen x result = x := by
  funext s
  unfold andThen
  cases x s <;> rfl

theorem andThen_assoc (x : Exec σ α) (f : α → Exec σ β) (g : β → Exec σ γ) :
    andThen (andThen x f) g = andThen x fun a => andThen (f a) g := by
  funext s
  unfold andThen
  cases x s <;> rfl

instance : LawfulMonad (Exec σ) :=
  LawfulMonad.mk' (Exec σ) andThen_result (fun _ _ => rfl) andThen_assoc

/-- A computation yields a result from some state. -/
def Yields (x : Exec σ α) (a : α) : Prop :=
  ∃ s s', x s = .ok a s'

theorem bind_congr {x : Exec σ α} {f g : α → Exec σ β} (h : ∀ a, x.Yields a → f a = g a) :
    x >>= f = x >>= g := by
  funext s
  change andThen x f s = andThen x g s
  unfold andThen
  cases hx : x s with
  | ok a s' => exact congrFun (h a ⟨s, s', hx⟩) s'
  | _ => rfl

/-- Both of two computations one after the other yield a result if they do together. -/
theorem ok_of_bind {x : Exec σ α} {f : α → Exec σ β} {s t : σ} {b : β} (h : (x >>= f) s = .ok b t) :
    ∃ a s', x s = .ok a s' ∧ f a s' = .ok b t := by
  change andThen x f s = .ok b t at h
  unfold andThen at h
  cases hx : x s with
  | ok a s' =>
    rw [hx] at h
    exact ⟨a, s', rfl, h⟩
  | error e s' =>
    rw [hx] at h
    cases h
  | exhausted =>
    rw [hx] at h
    cases h

namespace Yields

theorem of_bind {x : Exec σ α} {f : α → Exec σ β} {b : β} (h : (x >>= f).Yields b) :
    ∃ a, x.Yields a ∧ (f a).Yields b := by
  obtain ⟨s, t, h⟩ := h
  obtain ⟨a, s', hx, hf⟩ := ok_of_bind h
  exact ⟨a, ⟨s, s', hx⟩, s', t, hf⟩

theorem of_pure {a b : α} (h : (pure a : Exec σ α).Yields b) : b = a := by
  obtain ⟨s, s', h⟩ := h
  cases h
  rfl

theorem of_fail {e : RuntimeError} {a : α} (h : (fail e : Exec σ α).Yields a) : False := by
  obtain ⟨s, s', h⟩ := h
  cases h

end Yields

/-! ### Repetition as sequence -/

theorem iterate_succ (step : Exec σ (Option α)) (n : Nat) :
    iterate step (n + 1) = step >>= fun a =>
      match a with
      | none => iterate step n
      | some a => Pure.pure a := by
  funext s
  change _ = andThen step _ s
  rw [iterate, andThen]
  dsimp only
  cases step s with
  | ok a s' => cases a <;> rfl
  | _ => rfl

theorem firstResult_cons (step : β → Exec σ (Option α)) (b : β) (rest : List β) :
    firstResult step (b :: rest) = step b >>= fun a =>
      match a with
      | none => firstResult step rest
      | some a => Pure.pure (some a) := by
  funext s
  change _ = andThen (step b) _ s
  rw [firstResult, andThen]
  dsimp only
  cases step b s with
  | ok a s' => cases a <;> rfl
  | _ => rfl

/-! ### The same result -/

/-- Computations that yield the same result and leave states related as before. -/
def Same (S : σ → τ → Prop) (x : Exec σ α) (y : Exec τ α) : Prop :=
  Relates S S (sameResult S) x y

namespace Same

variable {S : σ → τ → Prop} {x : Exec σ α} {y : Exec τ α}

theorem bind {f : α → Exec σ β} {g : α → Exec τ β} (h : Same S x y) (hf : ∀ a, Same S (f a) (g a)) :
    Same S (x >>= f) (y >>= g) := by
  refine Relates.bind h fun a b s t => ?_
  rintro ⟨rfl, hst⟩
  exact hf a hst

/-- The second computation may use how the first one ended. -/
theorem bindTo {E : σ → τ → Prop} {Q : β → δ → σ → τ → Prop} {f : α → Exec σ β} {g : α → Exec τ δ}
    (h : Same S x y) (hE : ∀ {s t}, S s t → E s t) (hf : ∀ a, Relates S E Q (f a) (g a)) :
    Relates S E Q (x >>= f) (y >>= g) := by
  refine Relates.bind (Relates.mono h id hE id) fun a b s t => ?_
  rintro ⟨rfl, hst⟩
  exact hf a hst

theorem pure (a : α) : Same S (pure a : Exec σ α) (pure a : Exec τ α) :=
  Relates.pure fun hst => ⟨rfl, hst⟩

theorem fail (e : RuntimeError) : Same S (Exec.fail e : Exec σ α) (Exec.fail e : Exec τ α) :=
  Relates.fail e id

theorem raise (kind : ErrorKind) (message : String) :
    Same S (Exec.raise kind message : Exec σ α) (Exec.raise kind message : Exec τ α) :=
  fail _

theorem exhaust : Same S (Exec.exhaust : Exec σ α) (Exec.exhaust : Exec τ α) :=
  fun _ _ _ => .exhausted

theorem ite {c : Prop} [Decidable c] {x' : Exec σ α} {y' : Exec τ α} (h : Same S x y)
    (h' : Same S x' y') : Same S (if c then x else x') (if c then y else y') := by
  split
  · exact h
  · exact h'

theorem iterate {step : Exec σ (Option α)} {step' : Exec τ (Option α)} (h : Same S step step')
    (n : Nat) : Same S (Exec.iterate step n) (Exec.iterate step' n) := by
  induction n with
  | zero => exact exhaust
  | succ n ih =>
    rw [iterate_succ, iterate_succ]
    refine h.bind fun a => ?_
    cases a with
    | none => exact ih
    | some a => exact pure a

theorem firstResult {step : β → Exec σ (Option α)} {step' : β → Exec τ (Option α)} :
    ∀ l : List β, (∀ b ∈ l, Same S (step b) (step' b)) →
      Same S (Exec.firstResult step l) (Exec.firstResult step' l)
  | [], _ => pure none
  | b :: rest, h => by
    rw [firstResult_cons, firstResult_cons]
    refine (h b List.mem_cons_self).bind fun a => ?_
    cases a with
    | none => exact firstResult rest fun b hb => h b (List.mem_cons_of_mem _ hb)
    | some a => exact pure (some a)

end Same

end Exec

end ScriptEngine
