import ScriptEngine.Proofs.Code.Trace
import Mathlib.Data.Set.Insert

/-!
# Slots that are written before they are read

A slot for bare results holds a made-up value until it is written.  So an activation may read such a
slot only after it has written it, or if the slot was written already when the code began.

## Main definitions

* `ReadsAfter` : in a list of events no bare slot is read that was not written before.
* `Traced.Initializes` : code reads bare slots after they were written, and has written more of them
  if it ends as said.
* `Prepares` : statements that come first and leave more slots written for those that follow.

## Main statements

* `Traced.Initializes.bind` : one computation after another.
* `Prepares.cons` : one more statement in front.
-/

namespace ScriptEngine

/-- Slots for bare numbers, booleans and strings. -/
def Storage.IsTyped : Storage → Prop
  | .slot ρ _ => ρ ≠ .boxed
  | .global _ | .parameter .. | .field _ => False

/-! ### Lists of events -/

/-- The storages that are written in a list of events. -/
def writtenIn (es : List Event) : Set Storage :=
  {x | ∃ v s, Event.write x v s ∈ es}

/-- A bare slot is read only if it is one of some given slots or was written before. -/
def ReadsAfter (S : Set Storage) (es : List Event) : Prop :=
  ∀ pre x s post, es = pre ++ .read x s :: post → x.IsTyped → x ∈ S ∨ x ∈ writtenIn pre

/-- The bare slots among some storages are known to be written, or are written in a list of
events. -/
def Covers (S S' : Set Storage) (es : List Event) : Prop :=
  ∀ x ∈ S', x.IsTyped → x ∈ S ∨ x ∈ writtenIn es

section

variable {S S' S'' : Set Storage} {es es' : List Event}

theorem writtenIn_append : writtenIn (es ++ es') = writtenIn es ∪ writtenIn es' := by
  ext x
  simp only [writtenIn, Set.mem_ofPred_eq, List.mem_append, Set.mem_union, exists_or]

theorem ReadsAfter.nil : ReadsAfter S [] := by
  intro pre x s post h
  cases pre <;> cases h

/-- Only bare slots that were written at the start are read. -/
theorem ReadsAfter.of_forall (h : ∀ x s, Event.read x s ∈ es → x.IsTyped → x ∈ S) :
    ReadsAfter S es := by
  rintro pre x s post rfl ht
  exact .inl (h x s (List.mem_append_right _ List.mem_cons_self) ht)

theorem ReadsAfter.append (h : ReadsAfter S es) (hcovers : Covers S S' es)
    (h' : ReadsAfter S' es') :
    ReadsAfter S (es ++ es') := by
  intro pre x s post heq ht
  rcases List.append_eq_append_iff.mp heq with ⟨mid, rfl, hmid⟩ | ⟨mid, rfl, hmid⟩
  · rw [writtenIn_append]
    rcases h' mid x s post hmid ht with hx | hx
    · exact (hcovers x hx ht).imp_right .inl
    · exact .inr (.inr hx)
  · cases mid with
    | nil =>
      rw [List.append_nil] at hcovers
      rcases h' [] x s post hmid.symm ht with hx | ⟨v, t, hx⟩
      · exact hcovers x hx ht
      · cases hx
    | cons e mid =>
      cases hmid
      exact h pre x s mid rfl ht

theorem Covers.of_subset (h : S' ⊆ S) : Covers S S' es :=
  fun _ hx _ => .inl (h hx)

theorem Covers.append (h : Covers S S' es) (h' : Covers S' S'' es') : Covers S S'' (es ++ es') := by
  intro x hx ht
  rw [writtenIn_append]
  rcases h' x hx ht with hx | hx
  · exact (h x hx ht).imp_right .inl
  · exact .inr (.inr hx)

end

/-! ### Computations -/

namespace Traced

variable {α β : Type} {S S' S'' : Set Storage} {D : α → Prop} {D' : β → Prop}

/-- A computation that starts with some slots written reads no others before it writes them, and if
it ends as said then more slots are written. -/
structure Initializes (S S' : Set Storage) (D : α → Prop) (x : Traced α) : Prop where
  reads : ∀ s, ReadsAfter S (x s).1
  covers : ∀ s a s', (x s).2 = .ok a s' → D a → Covers S S' (x s).1

namespace Initializes

theorem silent (x : Act α) : Initializes S S D (Traced.silent x) :=
  ⟨fun _ => .nil, fun _ _ _ _ _ => .of_subset subset_rfl⟩

theorem pure (a : α) : Initializes S S D (pure a : Traced α) :=
  silent _

/-- Nothing is said of a computation that does not end as said. -/
theorem pure_of_not {a : α} (h : ¬ D a) : Initializes S S' D (Pure.pure a : Traced α) where
  reads _ := .nil
  covers _ b _ heq hb := by
    cases heq
    exact absurd hb h

/-- Computations that read only what was written at the start. -/
theorem of_reads {x : Traced α} (h : ∀ s, ∀ y t, Event.read y t ∈ (x s).1 → y.IsTyped → y ∈ S) :
    Initializes S S D x :=
  ⟨fun s => .of_forall (h s), fun _ _ _ _ _ => .of_subset subset_rfl⟩

theorem bind {x : Traced α} {f : α → Traced β} (h : Initializes S S' D x)
    (hf : ∀ a, D a → Initializes S' S'' D' (f a)) (hno : ∀ a, ¬ D a → Initializes S S'' D' (f a)) :
    Initializes S S'' D' (x >>= f) where
  reads s := by
    change ReadsAfter S (andThen x f s).1
    unfold andThen
    cases hx : (x s).2 with
    | ok a s' =>
      by_cases ha : D a
      · exact (h.reads s).append (h.covers s a s' hx ha) ((hf a ha).reads s')
      · exact (h.reads s).append (.of_subset subset_rfl) ((hno a ha).reads s')
    | error | exhausted => exact h.reads s
  covers s b s'' heq hb := by
    change Covers S S'' (andThen x f s).1
    change (andThen x f s).2 = .ok b s'' at heq
    unfold andThen at heq ⊢
    cases hx : (x s).2 with
    | ok a s' =>
      rw [hx] at heq
      by_cases ha : D a
      · exact (h.covers s a s' hx ha).append ((hf a ha).covers s' b s'' heq hb)
      · exact Covers.append (.of_subset subset_rfl) ((hno a ha).covers s' b s'' heq hb)
    | error | exhausted =>
      rw [hx] at heq
      cases heq

/-- One computation after another one that ends as said whenever it ends. -/
theorem andThen {x : Traced α} {f : α → Traced β} (h : Initializes S S' (fun _ => True) x)
    (hf : ∀ a, Initializes S' S'' D' (f a)) : Initializes S S'' D' (x >>= f) :=
  h.bind (fun a _ => hf a) fun _ ha => absurd trivial ha

/-- A slot that is written whenever the computation ends. -/
theorem of_writes {x : Traced α} (hreads : ∀ s, ReadsAfter S (x s).1)
    (h : ∀ s a s', (x s).2 = .ok a s' → ∀ y ∈ S', y.IsTyped → y ∈ S ∨ y ∈ writtenIn (x s).1) :
    Initializes S S' D x :=
  ⟨hreads, fun s a s' heq _ => h s a s' heq⟩

end Initializes

/-- A slot is written by every computation that ends. -/
def Writes (y : Storage) (x : Traced α) : Prop :=
  ∀ s a s', (x s).2 = .ok a s' → y ∈ writtenIn (x s).1

namespace Writes

variable {y : Storage} {x : Traced α} {f : α → Traced β}

theorem bind_left (h : Writes y x) (f : α → Traced β) : Writes y (x >>= f) := by
  intro s b s'' heq
  change y ∈ writtenIn (andThen x f s).1
  change (andThen x f s).2 = .ok b s'' at heq
  unfold andThen at heq ⊢
  cases hx : (x s).2 with
  | ok a s' =>
    rw [hx] at heq
    rw [writtenIn_append]
    exact .inl (h s a s' hx)
  | error | exhausted =>
    rw [hx] at heq
    cases heq

theorem bind_right (h : ∀ a, Writes y (f a)) : Writes y (x >>= f) := by
  intro s b s'' heq
  change y ∈ writtenIn (andThen x f s).1
  change (andThen x f s).2 = .ok b s'' at heq
  unfold andThen at heq ⊢
  cases hx : (x s).2 with
  | ok a s' =>
    rw [hx] at heq
    rw [writtenIn_append]
    exact .inr (h a s' b s'' heq)
  | error | exhausted =>
    rw [hx] at heq
    cases heq

theorem setSlot {ρ : Rep} {k : Nat} (v : Value) (z : ρ.Carrier) :
    Writes (.slot ρ k) (tracedSetSlot ρ k v z) := by
  intro s a s' _
  exact ⟨v, s, List.mem_append_left _ List.mem_cons_self⟩

end Writes

end Traced

variable {host : Host}

/-- Code that stores into a slot has written it when it ends. -/
theorem Code.writes_storeSlot {ρ : Rep} (k : Nat) (value : Code ρ) :
    Traced.Writes (.slot ρ k) ((Code.storeSlot ρ k value).traced host) := by
  by_cases hvalue : ∃ σ operand, value = .unary (.convert σ ρ) operand
  · obtain ⟨σ, operand, rfl⟩ := hvalue
    rw [Code.traced]
    exact .bind_right fun x => .bind_right fun y => .bind_left (.setSlot _ _) _
  · have hplain (σ : Rep) (operand : Code σ) (heq : value = .unary (.convert σ ρ) operand) :
        False :=
      hvalue ⟨σ, operand, heq⟩
    rw [Code.traced]
    · exact .bind_right fun x => .bind_left (.setSlot _ _) _
    · exact hplain

/-! ### Statements -/

section

variable {S S' S'' : Set Storage} {c : StatementCode} {cs : List StatementCode}

/-- Statements that come before others: these may rely on more slots being written. -/
def Prepares (host : Host) (S S' : Set Storage) (cs : List StatementCode) : Prop :=
  ∀ rest S'', Traced.Initializes S' S'' (· = Completion.normal) (tracedStatements host rest) →
    Traced.Initializes S S'' (· = Completion.normal) (tracedStatements host (cs ++ rest))

theorem Prepares.nil : Prepares host S S [] :=
  fun _ _ h => h

theorem Prepares.cons (h : Traced.Initializes S S' (· = .normal) (c.traced host))
    (hcs : Prepares host S' S'' cs) :
    Prepares host S S'' (c :: cs) := by
  intro rest T hrest
  rw [List.cons_append, tracedStatements]
  refine h.bind (fun a ha => ?_) fun a ha => ?_
  · subst ha
    exact hcs rest T hrest
  · cases a with
    | normal => exact absurd rfl ha
    | _ => exact .pure_of_not ha

theorem Prepares.append {ds : List StatementCode} (hcs : Prepares host S S' cs)
    (hds : Prepares host S' S'' ds) :
    Prepares host S S'' (cs ++ ds) := by
  intro rest T hrest
  rw [List.append_assoc]
  exact hcs _ _ (hds _ _ hrest)

theorem Prepares.initializes (h : Prepares host S S' cs) :
    Traced.Initializes S S' (· = .normal) (tracedStatements host cs) := by
  have hall := h [] S' (.pure _)
  rwa [List.append_nil] at hall

end

end ScriptEngine
