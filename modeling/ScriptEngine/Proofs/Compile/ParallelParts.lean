import ScriptEngine.Proofs.Compile.ParallelCode

/-!
# Names and statements with and without types

What the two compilations of a body make of the names in it, and what the statements of the body do
if their expressions evaluate in the same way.

## Main definitions

* `Compile.NameAlike` : what the two compilations make of a name.
* `Proceeds` : statements that end in the same way, after which more variables were written.

## Main statements

* `Compile.NameAlike.reads`, `Compile.NameAlike.writes` : reads and writes of a name.
* `Exec.Same.loopWhile`, `Exec.Same.forEachKey` : loops.
-/

namespace ScriptEngine

/-- Calls do the same on machines that are the same up to the two codes of functions. -/
abbrev Host.Agrees (host : Host) (a : Analysis) : Prop :=
  (@MachineRelation.recoded a.Counterparts Analysis.Counterparts.resembles).Calls
    host.call host.call

/-! ### Names -/

namespace Compile

variable {ctx : BodyContext} {given given' : BodyState} {W : Set VariableId} {host : Host}
  {i : Identifier} {v : VariableId} {a b : Access} {c d : TypedCode} {t : ValueType}

/-- What a name is compiled to with types and without any. -/
structure NameAlike (ctx : BodyContext) (i : Identifier) (given given' : BodyState)
    (a b : Access) : Prop where
  places : ctx.Places given given'
  code : identifier ctx i given = .ok (a, given)
  code' : identifier ctx.untyped i given' = .ok (b, given')
  parallel : a.Parallel given given' b

theorem parallel_name (i : Identifier) :
    Parallel ctx (NameAlike ctx i) (identifier ctx i) (identifier ctx.untyped i) :=
  ((parallel_identifier i).steady (steady_identifier i) (steady_identifier i)).mono
    fun _ _ _ _ hp ⟨hcode, hcode', hab⟩ => ⟨hp, hcode, hcode', hab⟩

/-- Without types every variable in a slot is kept as a value. -/
theorem boxed_of_parallel (hp : ctx.Places given given') (h : a.Parallel given given' b)
    {ρ : Rep} {k : Nat} (hb : b.binding.storage = .slot ρ k) : ρ = .boxed := by
  have hstorage := h.binding.storage
  rw [hb] at hstorage
  generalize a.binding.storage = x at hstorage
  cases hstorage with
  | slot hx hy => exact hp.boxed hy

/-- The code that writes a name that is kept in no typed slot. -/
theorem alike_store_of_not_isTyped (hp : ctx.Places given given') (h : a.Parallel given given' b)
    (hscopes : ∀ scope ∈ a.scopes, ¬ scope.storage.IsTyped) (hbinding : ¬ a.binding.storage.IsTyped)
    (hcd : c.Alike host (RunState.Parallel ctx given given' W) d) :
    (a.store c).Alike host (RunState.Parallel ctx given given' W) (b.store d) :=
  Access.same_store (Reference.Finds.mono (h.relates_resolve hp hscopes)
    fun _ _ hpq => writtenAlike_of_not_isTyped h hp hbinding hpq) hcd (fun _ _ => trivial)
    (fun _ _ _ _ hstorage => Rep.holds_of_not_isTyped hbinding hstorage) fun _ _ =>
      boxed_of_parallel hp h

/-- The code that gives the variable of no name its value. -/
theorem alike_store_of_access (hp : ctx.Places given given') (h : a.Parallel given given' b)
    (hv : ¬ (ctx.analysis.var v).valueType.IsConcrete)
    (hkind : (ctx.analysis.var v).kind ≠ .withScope) (hcode : access ctx v given = .ok (a, given))
    (hcd : c.Alike host (RunState.Parallel ctx given given' W) d) :
    (a.store c).Alike host (RunState.Parallel ctx given given' W) (b.store d) ∧
      (a.initializer.store c).Alike host (RunState.Parallel ctx given given' W)
        (b.initializer.store d) := by
  obtain ⟨hscopes, hbinding⟩ := not_isTyped_of_access hp.typed hv hkind hcode
  have hnone : ∀ scope ∈ a.scopes, ¬ scope.storage.IsTyped := by
    rw [hscopes]
    exact nofun
  have hinitializer : a.initializer.Parallel given given' b.initializer :=
    ⟨h.name, h.scopes, h.binding.storage, rfl⟩
  exact ⟨alike_store_of_not_isTyped hp h hnone hbinding hcd,
    alike_store_of_not_isTyped hp hinitializer hnone hbinding hcd⟩

namespace NameAlike

variable (h : NameAlike ctx i given given' a b)
include h

theorem named (hi : ctx.analysis.Guarded i) : Named ctx given i a :=
  named_of_identifier h.places.typed hi h.code

theorem isEmpty_scopes : a.scopes.isEmpty = b.scopes.isEmpty := by
  have hscopes := h.parallel.scopes
  generalize a.scopes = l at hscopes
  generalize b.scopes = l' at hscopes
  cases hscopes <;> rfl

theorem finds (hi : ctx.analysis.Guarded i) : (Reference.name a).Finds host
    (RunState.Parallel ctx given given' W) (a.Found b) (.name b) :=
  h.parallel.relates_resolve h.places (h.named hi).scopes

theorem reads (hi : ctx.analysis.Reads W i) : (Reference.name a).Finds host
    (RunState.Parallel ctx given given' W) (Place.ReadAlike (RunState.Parallel ctx given given' W))
    (.name b) :=
  (h.finds hi.guarded).mono fun _ _ hpq =>
    h.parallel.readAlike h.places hpq ((h.named hi.guarded).mem_slotsOf hi)

theorem deletes (hi : ctx.analysis.Guarded i) : (Reference.name a).Finds host
    (RunState.Parallel ctx given given' W)
    (fun p q => Exec.Same (RunState.Parallel ctx given given' W) p.delete q.delete) (.name b) :=
  (h.finds hi).mono fun _ _ hpq => h.parallel.same_delete hpq

theorem writes (hi : ctx.analysis.Writes i t) (top : Bool) : (Reference.name a).Finds host
    (RunState.Parallel ctx given given' W)
    (Place.WrittenAlike (RunState.Parallel ctx given given' W)
      (RunState.Parallel ctx given given' (ctx.analysis.written top W i)) (·.Fits t)) (.name b) :=
  (h.finds hi.guarded).mono fun _ _ hpq =>
    (h.named hi.guarded).writtenAlike h.parallel h.places hi top hpq

/-- What is written to a name within a statement is not relied on after it. -/
theorem writtenAlike_inner (hi : ctx.analysis.Writes i t) {p q : Place} (hpq : a.Found b p q) :
    p.WrittenAlike (RunState.Parallel ctx given given' W) (RunState.Parallel ctx given given' W)
      (·.Fits t) q := by
  have hwritten := (h.named hi.guarded).writtenAlike (W := W) h.parallel h.places hi false hpq
  rwa [Analysis.written_false] at hwritten

theorem writes_inner (hi : ctx.analysis.Writes i t) : (Reference.name a).Finds host
    (RunState.Parallel ctx given given' W)
    (Place.WrittenAlike (RunState.Parallel ctx given given' W)
      (RunState.Parallel ctx given given' W) (·.Fits t)) (.name b) :=
  (h.finds hi.guarded).mono fun _ _ => h.writtenAlike_inner hi

/-- A name is read and written. -/
theorem steps (hread : ctx.analysis.Reads W i) (hi : ctx.analysis.Writes i t) :
    (Reference.name a).Finds host (RunState.Parallel ctx given given' W)
    (fun p q => p.ReadAlike (RunState.Parallel ctx given given' W) q ∧
      p.WrittenAlike (RunState.Parallel ctx given given' W) (RunState.Parallel ctx given given' W)
        (·.Fits t) q)
    (.name b) :=
  (h.finds hi.guarded).mono fun _ _ hpq =>
    ⟨h.parallel.readAlike h.places hpq ((h.named hi.guarded).mem_slotsOf hread),
      h.writtenAlike_inner hi hpq⟩

theorem store (hi : ctx.analysis.Writes i t) (top : Bool) (hc : HasType c t)
    (hcd : c.Alike host (RunState.Parallel ctx given given' W) d) :
    Exec.SameTo (RunState.Parallel ctx given given' W)
      (RunState.Parallel ctx given given' (ctx.analysis.written top W i)) ((a.store c).value host)
      ((b.store d).value host) :=
  Access.same_store (h.writes hi top) hcd (hc host)
    (fun _ hv _ _ hstorage => (h.named hi.guarded).holds hi hstorage hv)
    fun _ _ => boxed_of_parallel h.places h.parallel

/-- A name that gets its value in another way than by an assignment. -/
theorem receives (hi : ctx.analysis.Receives i) : (Reference.name a).Finds host
    (RunState.Parallel ctx given given' W)
    (Place.WrittenAlike (RunState.Parallel ctx given given' W)
      (RunState.Parallel ctx given given' W) fun _ => True) (.name b) :=
  (h.finds hi.1).mono fun _ _ hpq =>
    writtenAlike_of_not_isTyped h.parallel h.places ((h.named hi.1).not_isTyped hi) hpq

theorem declares (hi : ctx.analysis.Receives i)
    (hcd : c.Alike host (RunState.Parallel ctx given given' W) d) :
    (a.store c).Alike host (RunState.Parallel ctx given given' W) (b.store d) :=
  alike_store_of_not_isTyped h.places h.parallel (h.named hi.1).scopes
    ((h.named hi.1).not_isTyped hi) hcd

end NameAlike

end Compile

/-! ### Statements -/

section

variable {S S' S'' : RunState → RunState → Prop} {α : Type}

/-- Two runs of statements end in the same way, and if they end normally then the states are related
more closely. -/
def Proceeds (S S' : RunState → RunState → Prop) (x y : Act LabelCompletion) : Prop :=
  Exec.Relates S S (fun c l s t => c = l ∧ S s t ∧ (c = .normal → S' s t)) x y

namespace Proceeds

variable {x y x' y' : Act LabelCompletion}

theorem same (h : Proceeds S S' x y) : Exec.Same S x y :=
  Exec.Relates.mono h id id fun ⟨hcl, hst, _⟩ => ⟨hcl, hst⟩

theorem of_same (h : Exec.Same S x y) : Proceeds S S x y :=
  Exec.Relates.mono h id id fun ⟨hcl, hst⟩ => ⟨hcl, hst, fun _ => hst⟩

/-- Something is done first that relates the states more closely. -/
theorem after {z w : Act α} {f g : α → Act LabelCompletion} (hS : ∀ {s t}, S' s t → S s t)
    (hz : Exec.SameTo S S' z w) (hfg : ∀ a, Exec.Same S' (f a) (g a)) :
    Proceeds S S' (z >>= f) (w >>= g) := by
  refine Exec.Relates.bind hz fun a b s t => ?_
  rintro ⟨rfl, hst⟩
  exact (hfg a hst).mono hS fun ⟨hcl, hst⟩ => ⟨hcl, hS hst, fun _ => hst⟩

/-- Statements after others, which run only if these end normally. -/
theorem andThen (hS : ∀ {s t}, S' s t → S s t) (h : Proceeds S S' x y)
    (h' : Proceeds S' S'' x' y') :
    Proceeds S S''
      (do match ← x with
        | .normal => x'
        | abrupt => return abrupt)
      (do match ← y with
        | .normal => y'
        | abrupt => return abrupt) := by
  refine Exec.Relates.bind h fun c l s t => ?_
  rintro ⟨rfl, hst, hnormal⟩
  cases c with
  | normal => exact (h' (hnormal rfl)).mono hS fun ⟨hcl, hst, hnormal⟩ => ⟨hcl, hS hst, hnormal⟩
  | _ => exact .ok ⟨rfl, hst, nofun⟩

end Proceeds

namespace Exec.Same

variable {x y x' y' : Act LabelCompletion} {test test' : Act Bool} {update update' : Act Unit}

theorem andThen (h : Exec.Same S x y) (h' : Exec.Same S x' y') :
    Exec.Same S
      (do match ← x with
        | .normal => x'
        | abrupt => return abrupt)
      (do match ← y with
        | .normal => y'
        | abrupt => return abrupt) :=
  (Proceeds.andThen id (.of_same h) (.of_same h')).same

theorem catchingError {f g : RuntimeError → Act LabelCompletion} (h : Exec.Same S x y)
    (hfg : ∀ e, Exec.Same S (f e) (g e)) :
    Exec.Same S (ScriptEngine.catchingError x f) (ScriptEngine.catchingError y g) := by
  intro s t hst
  have hxy := h hst
  unfold ScriptEngine.catchingError
  generalize x s = p at hxy
  generalize y t = q at hxy
  cases hxy with
  | ok h => exact .ok h
  | error h => exact hfg _ h
  | exhausted => exact .exhausted

/-- How statements end that replace others unless they end normally. -/
theorem agree_replacing {p q : Ending RunState RuntimeError LabelCompletion}
    {k k' : RunState → Ending RunState RuntimeError LabelCompletion}
    (hk : ∀ {s t}, S s t → (k s).Agree S (sameResult S) (k' t)) :
    p.Agree S (sameResult S) q →
    (match p with
      | .ok .normal s => k s
      | ending => ending).Agree S (sameResult S)
    (match q with
      | .ok .normal s => k' s
      | ending => ending) := by
  intro h
  cases h with
  | @ok c l s t h =>
    obtain ⟨rfl, hst⟩ := h
    cases c with
    | normal => exact hk hst
    | _ => exact .ok ⟨rfl, hst⟩
  | error h => exact .error h
  | exhausted => exact .exhausted

theorem finallyRunning (h : Exec.Same S x y) (h' : Exec.Same S x' y') :
    Exec.Same S (ScriptEngine.finallyRunning x x') (ScriptEngine.finallyRunning y y') := by
  intro s t hst
  have hxy := h hst
  unfold ScriptEngine.finallyRunning
  generalize x s = p at hxy
  generalize y t = q at hxy
  cases hxy with
  | ok h => exact agree_replacing (fun hst => .ok ⟨h.1, hst⟩) (h' h.2)
  | error h => exact agree_replacing (fun hst => .error hst) (h' h)
  | exhausted => exact .exhausted

/-! ### Loops -/

theorem loopWhile (htest : Exec.Same S test test') (hupdate : Exec.Same S update update')
    (h : Exec.Same S x y) (labels : List String) (rounds : Nat) :
    Exec.Same S (ScriptEngine.loopWhile test update x labels rounds)
      (ScriptEngine.loopWhile test' update' y labels rounds) := by
  refine .iterate (htest.bind fun b => .ite (h.bind fun c => ?_) (.pure _)) rounds
  cases c.afterBody labels with
  | none => exact hupdate.bind fun _ => .pure none
  | some ended => exact .pure (some ended)

theorem repeatWhile (htest : Exec.Same S test test') (h : Exec.Same S x y) (labels : List String)
    (rounds : Nat) : Exec.Same S (ScriptEngine.repeatWhile test x labels rounds)
      (ScriptEngine.repeatWhile test' y labels rounds) := by
  refine .iterate (h.bind fun c => ?_) rounds
  cases c.afterBody labels with
  | none => exact htest.bind fun b => .ite (.pure none) (.pure _)
  | some ended => exact .pure (some ended)

theorem forEachKey {T : FunctionCode → FunctionCode → Prop} (hS : RunState.Recoding T S)
    (hT : ∀ {c d}, T c d → c.Resembles d) {assign assign' : Value → Act Unit}
    (hassign : ∀ v, Exec.Same S (assign (.string v)) (assign' (.string v)))
    (h : Exec.Same S x y) (v : Value) (labels : List String) :
    Exec.Same S (ScriptEngine.forEachKey v assign x labels)
      (ScriptEngine.forEachKey v assign' y labels) := by
  unfold ScriptEngine.forEachKey
  split
  · exact .pure _
  · refine (hS.same_lift hT (MachineRelation.same_toObject v)).bind fun o => ?_
    cases o with
    | object r =>
      refine (hS.same_onHeap fun s => s.enumerate r).bind fun keys => ?_
      refine (Exec.Same.firstResult keys fun key _ => ?_).bind fun ended => .pure _
      refine (hS.same_onHeap fun s => s.hasProperty r key).bind fun found => .ite ?_ (.pure none)
      exact (hassign key).bind fun _ => h.bind fun c => .pure _
    | _ => exact .pure _

end Exec.Same

end

end ScriptEngine
