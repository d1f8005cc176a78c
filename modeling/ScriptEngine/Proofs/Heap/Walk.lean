import ScriptEngine.Proofs.Heap.Similarity

/-!
# Walks along prototypes

Properties are looked up by loops that go from an object to its prototype, and from there on.
Nothing in these loops counts their rounds.  If each object inherits from an older one they end
nevertheless, with what the chain of prototypes gives.

## Main definitions

* `Heap.Linked` : each object inherits from an older one.
* `Heap.Ends` : the prototypes of an object come to an end.
* `Loop`, `Loop.run` : loops along prototypes.
* `Loop.get`, `Loop.hasProperty`, `Loop.enumerate`, `Loop.inherits` : the loops of the operations.
* `Heap.LoopsEnd` : these loops end with what the operations yield.

## Main statements

* `Heap.Linked.ends` : in a linked heap all prototypes come to an end.
* `Heap.Linked.run_eq` : in a linked heap a loop visits the chain of prototypes and ends.
* `Heap.Linked.loopsEnd` : in a linked heap the loops of the operations end.
-/

namespace ScriptEngine

/-! ### Loops -/

/-- A loop along prototypes with a state `σ` and a result `β`. -/
structure Loop (σ β : Type) where
  /-- What happens at an object: the loop yields a result or goes on to the prototype. -/
  visit : Heap → σ → Ref → β ⊕ σ
  /-- The result after the last object. -/
  finish : σ → β

namespace Loop

variable {σ β : Type}

/-- Runs a loop from an object on; there is no result if it takes more rounds than said. -/
def run (l : Loop σ β) (h : Heap) : Nat → σ → Option Ref → Option β
  | 0, _, _ => none
  | _ + 1, s, none => some (l.finish s)
  | fuel + 1, s, some r =>
    match l.visit h s r with
    | .inl b => some b
    | .inr s => l.run h fuel s (h.object r).prototype

/-- Visits the objects of a list. -/
def along (l : Loop σ β) (h : Heap) : σ → List Ref → β
  | s, [] => l.finish s
  | s, r :: rest =>
    match l.visit h s r with
    | .inl b => b
    | .inr s => l.along h s rest

/-- Looks for the value of a property. -/
def get (key : String) : Loop Unit Value where
  visit h _ r :=
    match (h.object r).getOwn? key with
    | some v => .inl v
    | none => .inr ()
  finish _ := .undefined

/-- Looks for a property. -/
def hasProperty (key : String) : Loop Unit Bool where
  visit h _ r := if (h.object r).hasOwn key then .inl true else .inr ()
  finish _ := false

/-- Collects the enumerable keys; the state has the keys that were met, and those to be visited. -/
def enumerate : Loop (List String × List String) (List String) where
  visit h s r :=
    let o := h.object r
    let (fresh, seen) := Heap.freshKeys s.1 (o.ownKeys false)
    .inr (seen, s.2 ++ fresh.filter o.isOwnEnumerable)
  finish s := s.2

/-- Looks for an object. -/
def inherits (p : Ref) : Loop Unit Bool where
  visit _ _ r := if r == p then .inl true else .inr ()
  finish _ := false

variable (h : Heap)

theorem along_get (key : String) (l : List Ref) :
    (get key).along h () l = (l.findSome? fun q => (h.object q).getOwn? key).getD .undefined := by
  induction l with
  | nil => rfl
  | cons r rest ih =>
    rw [along, List.findSome?_cons]
    simp only [get]
    cases (h.object r).getOwn? key with
    | none => exact ih
    | some v => rfl

theorem along_hasProperty (key : String) (l : List Ref) :
    (hasProperty key).along h () l = l.any fun q => (h.object q).hasOwn key := by
  induction l with
  | nil => rfl
  | cons r rest ih =>
    rw [along, List.any_cons]
    simp only [hasProperty]
    cases (h.object r).hasOwn key with
    | false => exact ih
    | true => rfl

theorem along_enumerate (seen keys : List String) (l : List Ref) :
    enumerate.along h (seen, keys) l = keys ++ h.enumerateFrom seen l := by
  induction l generalizing seen keys with
  | nil => exact (List.append_nil keys).symm
  | cons r rest ih => exact (ih _ _).trans (List.append_assoc ..)

theorem along_inherits (p : Ref) (l : List Ref) : (inherits p).along h () l = l.contains p := by
  induction l with
  | nil => rfl
  | cons r rest ih =>
    rw [along, List.contains_cons]
    simp only [inherits, Bool.beq_comm (a := p)]
    cases r == p with
    | false => exact ih
    | true => rfl

end Loop

/-! ### Links -/

namespace Heap

/-- Each object inherits from an older one, if from any. -/
def Linked (h : Heap) : Prop :=
  ∀ r p, (h.object r).prototype = some p → p < r

/-- The prototypes of an object come to an end. -/
inductive Ends (h : Heap) : Ref → Prop
  | last {r : Ref} (hr : (h.object r).prototype = none) : Ends h r
  | next {r p : Ref} (hr : (h.object r).prototype = some p) (hp : Ends h p) : Ends h r

/-- The loops of the operations end, with what the operations yield. -/
structure LoopsEnd (h : Heap) : Prop where
  get : ∀ r key, ∃ rounds, (Loop.get key).run h rounds () (some r) = some (h.get r key)
  hasProperty : ∀ r key, ∃ rounds, (Loop.hasProperty key).run h rounds () (some r) =
    some (h.hasProperty r key)
  enumerate : ∀ r, ∃ rounds, Loop.enumerate.run h rounds ([], []) (some r) = some (h.enumerate r)
  /-- The operator `instanceof` looks for an object from the first prototype on. -/
  inherits : ∀ r p, ∃ rounds,
    (Loop.inherits p).run h rounds () (h.object r).prototype = some ((h.chain r).tail.contains p)

namespace Linked

variable {h : Heap} {σ β : Type}

theorem ends (hl : h.Linked) (r : Ref) : h.Ends r := by
  induction r using Nat.strongRecOn with
  | ind r ih =>
    cases hp : (h.object r).prototype with
    | none => exact .last hp
    | some p => exact .next hp (ih p (hl r p hp))

/-- Within more rounds than there are older objects, a loop visits a chain and ends. -/
theorem run_chainWithin (hl : h.Linked) (l : Loop σ β) {fuel : Nat} {s : σ} {r : Ref}
    (hr : r < fuel) :
    l.run h (fuel + 1) s (some r) = some (l.along h s (h.chainWithin fuel r)) := by
  induction fuel generalizing s r with
  | zero => exact absurd hr (Nat.not_lt_zero r)
  | succ fuel ih =>
    rw [Loop.run, chainWithin]
    cases hp : (h.object r).prototype with
    | none =>
      simp only [Loop.along]
      cases l.visit h s r <;> rfl
    | some p =>
      simp only [Loop.along]
      cases l.visit h s r with
      | inl b => rfl
      | inr s => exact ih (Nat.lt_of_lt_of_le (hl r p hp) (Nat.le_of_lt_succ hr))

/-- In a linked heap a loop visits the chain of an object and ends. -/
theorem run_eq (hl : h.Linked) (l : Loop σ β) (s : σ) (r : Ref) :
    ∃ rounds, l.run h rounds s (some r) = some (l.along h s (h.chain r)) := by
  rcases Nat.lt_or_ge r h.size with hr | hr
  · exact ⟨_, hl.run_chainWithin l (Nat.lt_succ_of_lt hr)⟩
  · have hp : (h.object r).prototype = none := by
      rw [object_of_size_le hr]
      rfl
    refine ⟨2, ?_⟩
    rw [Loop.run, chain, chainWithin, hp]
    simp only [Loop.along]
    cases l.visit h s r <;> rfl

/-- A loop that begins at the first prototype of an object visits the rest of its chain and ends. -/
theorem run_tail (hl : h.Linked) (l : Loop σ β) (s : σ) (r : Ref) :
    ∃ rounds, l.run h rounds s (h.object r).prototype = some (l.along h s (h.chain r).tail) := by
  rw [chain, chainWithin]
  cases hp : (h.object r).prototype with
  | none => exact ⟨1, rfl⟩
  | some p =>
    have hr : r < h.size := by
      refine Nat.lt_of_not_le fun hle => ?_
      rw [object_of_size_le hle] at hp
      cases hp
    exact ⟨_, hl.run_chainWithin l (Nat.lt_trans (hl r p hp) hr)⟩

/-- In a linked heap the loops of the operations end. -/
theorem loopsEnd (hl : h.Linked) : h.LoopsEnd where
  get r key := by
    rw [Heap.get, ← Loop.along_get]
    exact hl.run_eq _ () r
  hasProperty r key := by
    rw [Heap.hasProperty, ← Loop.along_hasProperty]
    exact hl.run_eq _ () r
  enumerate r := by
    have hkeys : h.enumerate r = Loop.enumerate.along h ([], []) (h.chain r) :=
      (Loop.along_enumerate h [] [] _).symm
    rw [hkeys]
    exact hl.run_eq _ _ r
  inherits r p := by
    rw [← Loop.along_inherits h]
    exact hl.run_tail _ () r

end Linked

end Heap

end ScriptEngine
