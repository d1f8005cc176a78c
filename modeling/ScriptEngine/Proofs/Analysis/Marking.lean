import ScriptEngine.Analysis.TypeInference
import ScriptEngine.Proofs.Analysis.Typing
import Mathlib.Algebra.GroupWithZero.Nat
import Mathlib.Logic.Function.Iterate

/-!
# Passes of type inference

A pass over a script changes types upwards only: from the bottom to a concrete type or to the top,
and from a concrete type to the top.  So no type changes more than twice, and the passes come to an
end.  The last one changes nothing, so that what it saw holds of the final types: what is written to
a variable is of its type.

## Main definitions

* `ValueType.rank` : how far up a type is.
* `Raises` : changes of types that all go up.
* `Infer.Sweeps` : what a part of a pass does to the types, and what holds if it changes none.
* `Analysis.pass`, `Analysis.passed` : one pass, and the types after some of them.
* `TypeSite.Settled` : a write that changes the type of no variable.

## Main statements

* `Infer.sweeps_stmtList` : a pass over statements.
* `Analysis.types_settle` : passes raise types, they come to an end, and the final types are
  settled.
-/

namespace ScriptEngine

/-! ### The order of types -/

namespace ValueType

/-- How far up a type is: the bottom, the concrete types and the types of objects, the top. -/
def rank : ValueType → Nat
  | .unset => 0
  | .boolean | .string | .double | .object => 1
  | .unknown => 2

theorem rank_le_two (t : ValueType) : t.rank ≤ 2 := by
  cases t <;> decide

theorem rank_unset_lt {t : ValueType} (h : t ≠ .unset) : rank .unset < t.rank := by
  cases t <;> first | exact absurd rfl h | decide

@[simp] theorem orUnknown_ne_unset (t : ValueType) : t.orUnknown ≠ .unset := by
  cases t <;> decide

theorem orUnknown_of_ne {t : ValueType} (h : t ≠ .unset) : t.orUnknown = t := by
  cases t <;> first | rfl | exact absurd rfl h

/-- What is written to a variable leaves its type as it is, or takes it to the top. -/
theorem merge_eq_or {s : ValueType} (h : s ≠ .unset) (t : ValueType) :
    s.merge t = s ∨ s.rank < (s.merge t).rank := by
  cases s <;> cases t <;> first | exact absurd rfl h | decide

end ValueType

/-! ### Changes that go up -/

/-- Changes of types, the latest first: each one raises the type that its variable has by then. -/
inductive Raises (types : Array ValueType) : List TypeUpdate → Array ValueType → Prop
  | none : Raises types [] types
  | more {updates : List TypeUpdate} {raised : Array ValueType} {u : TypeUpdate}
      (before : Raises types updates raised) (current : raised[u.variableId]? = some u.before)
      (up : u.before.rank < u.after.rank) :
      Raises types (u :: updates) (raised.setIfInBounds u.variableId u.after)

namespace Raises

variable {types types' types'' : Array ValueType} {us us' : List TypeUpdate}

theorem eq_of_nil (h : Raises types [] types') : types' = types := by
  cases h
  rfl

theorem trans (h : Raises types us types') (h' : Raises types' us' types'') :
    Raises types (us' ++ us) types'' := by
  induction h' with
  | none => exact h
  | more _ current up ih => exact .more ih current up

theorem size_eq (h : Raises types us types') : types'.size = types.size := by
  induction h with
  | none => rfl
  | more _ _ _ ih => rw [Array.size_setIfInBounds, ih]

end Raises

/-- The sum of the ranks of types. -/
def totalRank (types : Array ValueType) : Nat :=
  (types.toList.map ValueType.rank).sum

theorem totalRank_le (types : Array ValueType) : totalRank types ≤ 2 * types.size := by
  have h : ∀ l : List ValueType, (l.map ValueType.rank).sum ≤ 2 * l.length := by
    intro l
    induction l with
    | nil => exact Nat.le_refl _
    | cons t rest ih =>
      have ht := t.rank_le_two
      simp only [List.map_cons, List.sum_cons, List.length_cons]
      omega
  exact h types.toList

theorem sum_set_lt (f : ValueType → Nat) {l : List ValueType} {i : Nat} {s t : ValueType}
    (hi : l[i]? = some s) (h : f s < f t) : (l.map f).sum < ((l.set i t).map f).sum := by
  induction l generalizing i with
  | nil => cases hi
  | cons x rest ih =>
    cases i with
    | zero =>
      cases hi
      simpa using h
    | succ i =>
      have hrest := ih (i := i) hi
      simpa using hrest

/-- Each change makes the sum of the ranks greater. -/
theorem Raises.totalRank_add_length_le {types types' : Array ValueType} {us : List TypeUpdate}
    (h : Raises types us types') : totalRank types + us.length ≤ totalRank types' := by
  induction h with
  | none => exact Nat.le_refl _
  | @more updates raised u _ current up ih =>
    have hi : raised.toList[u.variableId]? = some u.before := by
      rw [Array.getElem?_toList]
      exact current
    have hlt := sum_set_lt ValueType.rank hi up
    rw [← Array.toList_setIfInBounds] at hlt
    unfold totalRank at ih ⊢
    simp only [List.length_cons]
    omega

/-! ### Parts of a pass -/

namespace Infer

/-- A part of a pass only raises types.  If it runs on some given types and changes none of them,
then its result satisfies `Q`. -/
def Sweeps {α : Type} (types : Array ValueType) (x : Infer α) (Q : α → Prop) : Prop :=
  ∀ s : Inference, ∃ us, (x s).2.updates = us ++ s.updates ∧ Raises s.types us (x s).2.types ∧
    (us = [] → s.types = types → Q (x s).1)

namespace Sweeps

variable {α β : Type} {types : Array ValueType} {x : Infer α} {f : α → Infer β} {Q Q' : α → Prop}
  {R : β → Prop}

theorem pure {r : α} (h : Q r) : Sweeps types (pure r : Infer α) Q :=
  fun _ => ⟨[], rfl, .none, fun _ _ => h⟩

theorem mono (h : Sweeps types x Q) (hQ : ∀ r, Q r → Q' r) : Sweeps types x Q' := by
  intro s
  obtain ⟨us, hus, hraises, hx⟩ := h s
  exact ⟨us, hus, hraises, fun hnil htypes => hQ _ (hx hnil htypes)⟩

/-- One part after the other: neither changes a type if both together do not. -/
theorem bind (hx : Sweeps types x Q) (hf : ∀ r, Sweeps types (f r) fun b => Q r → R b) :
    Sweeps types (x >>= f) R := by
  intro s
  obtain ⟨us, hus, hraises, hx⟩ := hx s
  obtain ⟨us', hus', hraises', hf⟩ := hf (x s).1 (x s).2
  refine ⟨us' ++ us, ?_, hraises.trans hraises', fun hnil htypes => ?_⟩
  · rw [List.append_assoc, ← hus]
    exact hus'
  · obtain ⟨rfl, rfl⟩ := List.append_eq_nil_iff.mp hnil
    exact hf rfl (hraises.eq_of_nil.trans htypes) (hx rfl htypes)

end Sweeps

section Steps

variable {s : Inference} {v : VariableId} {t old : ValueType}

theorem set_of_none (h : s.types[v]? = none) : (set v t s).2 = s := by
  simp only [set, modify, modifyGet, MonadStateOf.modifyGet, StateT.modifyGet, h]
  rfl

theorem set_of_eq (h : s.types[v]? = some t) : (set v t s).2 = s := by
  simp only [set, modify, modifyGet, MonadStateOf.modifyGet, StateT.modifyGet, h, if_pos]
  rfl

theorem set_of_ne (h : s.types[v]? = some old) (hne : old ≠ t) :
    (set v t s).2 =
      { types := s.types.setIfInBounds v t, updates := ⟨v, old, t⟩ :: s.updates } := by
  simp only [set, modify, modifyGet, MonadStateOf.modifyGet, StateT.modifyGet, h, if_neg hne]
  rfl

theorem typeOf_bind {α : Type} (v : VariableId) (f : ValueType → Infer α) (s : Inference) :
    (typeOf v >>= f) s = f (s.types[v]?.getD .unknown) s := rfl

/-- A read changes the type of a variable only if it is the first use. -/
theorem read_eq (v : VariableId) (s : Inference) :
    read v s = if s.types[v]?.getD .unknown = .unset then (.unknown, (set v .unknown s).2)
      else (s.types[v]?.getD .unknown, s) := by
  unfold read
  rw [typeOf_bind]
  generalize s.types[v]?.getD .unknown = current
  cases current <;> rfl

theorem write_eq (v : VariableId) (t : ValueType) (always : Bool) (s : Inference) :
    write v t always s = set v (if s.types[v]?.getD .unknown = .unset
      then (if always then t.orUnknown else .unknown)
        else (s.types[v]?.getD .unknown).merge t) s := by
  unfold write
  rw [typeOf_bind]
  generalize s.types[v]?.getD .unknown = current
  cases current <;> rfl

end Steps

variable {types : Array ValueType}

/-- A variable is given a type that it has or that is further up. -/
theorem updates_set {s : Inference} {v : VariableId} {t : ValueType}
    (h : ∀ old, s.types[v]? = some old → old = t ∨ old.rank < t.rank) :
    ∃ us, (set v t s).2.updates = us ++ s.updates ∧ Raises s.types us (set v t s).2.types ∧
      (us = [] → ∀ old, s.types[v]? = some old → old = t) := by
  cases hv : s.types[v]? with
  | none =>
    rw [set_of_none hv]
    refine ⟨[], rfl, .none, fun _ old hold => ?_⟩
    cases hold
  | some old =>
    by_cases heq : old = t
    · rw [set_of_eq (heq ▸ hv)]
      refine ⟨[], rfl, .none, fun _ old' hold => ?_⟩
      cases hold
      exact heq
    · rw [set_of_ne hv heq]
      refine ⟨[⟨v, old, t⟩], rfl, .more .none hv ((h old hv).resolve_left heq), fun hnil => ?_⟩
      cases hnil

/-- A variable that was read has a type from then on. -/
theorem sweeps_read (v : VariableId) : Sweeps types (read v) fun t =>
    types[v]? ≠ some .unset ∧ t = types[v]?.getD .unknown := by
  intro s
  rw [read_eq]
  split
  · next hunset =>
    have hv : s.types[v]? = some .unset := by
      cases hv : s.types[v]? with
      | none => rw [hv] at hunset; cases hunset
      | some t => rw [hv] at hunset; exact congrArg some hunset
    obtain ⟨us, hus, hraises, hsame⟩ :=
      updates_set (s := s) (v := v) (t := .unknown) fun old hold => by
      rw [hv] at hold
      cases hold
      exact .inr (by decide)
    exact ⟨us, hus, hraises, fun hnil _ => by cases hsame hnil _ hv⟩
  · next hne =>
    refine ⟨[], rfl, .none, fun _ htypes => ?_⟩
    subst htypes
    refine ⟨fun hv => hne ?_, rfl⟩
    rw [hv]
    rfl

/-- A write that changes no type merges into the type of its variable. -/
theorem sweeps_write (v : VariableId) (t : ValueType) (always : Bool) :
    Sweeps types (write v t always)
    fun _ => ∀ old, types[v]? = some old → old ≠ .unset ∧ old.merge t = old := by
  intro s
  have hcurrent {old : ValueType} (hold : s.types[v]? = some old) :
      s.types[v]?.getD .unknown = old := by
    rw [hold]
    rfl
  rw [write_eq]
  split
  · next hunset =>
    have hnew : (if always then t.orUnknown else .unknown) ≠ ValueType.unset := by
      cases always
      · exact (by decide : ValueType.unknown ≠ .unset)
      · exact t.orUnknown_ne_unset
    obtain ⟨us, hus, hraises, hsame⟩ := updates_set (s := s) (v := v)
      (t := if always then t.orUnknown else .unknown) fun old hold => by
        rw [← hcurrent hold, hunset]
        exact .inr (ValueType.rank_unset_lt hnew)
    refine ⟨us, hus, hraises, fun hnil htypes old hold => ?_⟩
    subst htypes
    have heq := hsame hnil old hold
    rw [← hcurrent hold, hunset] at heq
    exact absurd heq.symm hnew
  · next hset =>
    have hne {old : ValueType} (hold : s.types[v]? = some old) : old ≠ .unset := fun h =>
      hset (by rw [hcurrent hold, h])
    obtain ⟨us, hus, hraises, hsame⟩ := updates_set (s := s) (v := v)
      (t := (s.types[v]?.getD .unknown).merge t) fun old hold => by
        rw [hcurrent hold]
        exact (ValueType.merge_eq_or (hne hold) t).imp_left Eq.symm
    refine ⟨us, hus, hraises, fun hnil htypes old hold => ?_⟩
    subst htypes
    refine ⟨hne hold, ?_⟩
    have heq := hsame hnil old hold
    rw [hcurrent hold] at heq
    exact heq.symm

end Infer

/-! ### Settled types -/

section Settled

variable (a : Analysis)

/-- A write merges into the type of its variable without a change. -/
def TypeSite.Settled : TypeSite → Prop
  | .write i t => ∀ v x, a.reference? i = some v → a.vars[v]? = some x →
    x.valueType.merge t = x.valueType
  | _ => True

/-- No write changes the type of its variable. -/
def SitesSettled (sites : List TypeSite) : Prop :=
  ∀ x ∈ sites, x.Settled a

variable {a} {sites sites' : List TypeSite}

@[simp] theorem sitesSettled_nil : SitesSettled a [] :=
  nofun

@[simp] theorem sitesSettled_cons {x : TypeSite} :
    SitesSettled a (x :: sites) ↔ x.Settled a ∧ SitesSettled a sites :=
  List.forall_mem_cons

@[simp] theorem sitesSettled_append :
    SitesSettled a (sites ++ sites') ↔ SitesSettled a sites ∧ SitesSettled a sites' :=
  List.forall_mem_append

@[simp] theorem settled_read {W : Set VariableId} {i : Identifier} :
    (TypeSite.read W i).Settled a :=
  trivial

@[simp] theorem settled_caught {i : Identifier} : (TypeSite.caught i).Settled a :=
  trivial

@[simp] theorem settled_held {id : NodeId} : (TypeSite.held id).Settled a :=
  trivial

@[simp] theorem settled_declared {i : Identifier} : (TypeSite.declared i).Settled a :=
  trivial

@[simp] theorem settled_called {id : FunctionId} : (TypeSite.called id).Settled a :=
  trivial

end Settled

namespace Infer

variable {a : Analysis} {types : Array ValueType}

theorem vars_setTypes (v : VariableId) : (a.setTypes types).vars[v]? =
    a.vars[v]?.map fun x => { x with valueType := (types[v]?.getD .unknown).orUnknown } := by
  simp only [Analysis.setTypes, Array.getElem?_mapIdx]

theorem nameType_of_none {i : Identifier} (h : a.reference? i = none) :
    a.nameType i = .unknown := by
  unfold Analysis.nameType
  rw [h, Option.bind_none]

theorem nameType_setTypes (hsize : types.size = a.vars.size) {i : Identifier} {v : VariableId}
    (h : a.reference? i = some v) :
    (a.setTypes types).nameType i = (types[v]?.getD .unknown).orUnknown := by
  have h' : (a.setTypes types).reference? i = some v := h
  unfold Analysis.nameType
  rw [h', Option.bind_some, vars_setTypes]
  by_cases hv : v < a.vars.size
  · rw [Array.getElem?_eq_getElem hv, Option.map_some]
  · have htypes : types[v]? = none := Array.getElem?_eq_none (hsize ▸ Nat.le_of_not_lt hv)
    rw [Array.getElem?_eq_none (Nat.le_of_not_lt hv), htypes]
    rfl

theorem sweeps_readName (hsize : types.size = a.vars.size) (i : Identifier) :
    Sweeps types (readName a.reference? i) fun t => t = (a.setTypes types).nameType i := by
  unfold readName
  cases hi : a.reference? i with
  | none => exact .pure (nameType_of_none (a := a.setTypes types) hi).symm
  | some v =>
    refine (sweeps_read v).mono fun t ht => ?_
    obtain ⟨hset, rfl⟩ := ht
    rw [nameType_setTypes hsize hi]
    cases hv : types[v]? with
    | none => rfl
    | some old =>
      refine (ValueType.orUnknown_of_ne fun h => hset ?_).symm
      rw [hv]
      exact congrArg some h

theorem sweeps_writeName (i : Identifier) (t : ValueType) (always : Bool) :
    Sweeps types (writeName a.reference? i t always) fun _ =>
      (TypeSite.write i t).Settled (a.setTypes types) := by
  have hsettled : (TypeSite.write i t).Settled (a.setTypes types) ↔ ∀ v, a.reference? i = some v →
      ∀ x, (a.setTypes types).vars[v]? = some x → x.valueType.merge t = x.valueType :=
    ⟨fun h v hv x hx => h v x hv hx, fun h v x hv hx => h v hv x hx⟩
  unfold writeName
  cases hi : a.reference? i with
  | none =>
    refine .pure (hsettled.mpr fun v hv => ?_)
    rw [hi] at hv
    cases hv
  | some w =>
    refine (sweeps_write w t always).mono fun _ h => hsettled.mpr fun v hv x hx => ?_
    rw [hi] at hv
    cases hv
    rw [vars_setTypes, Option.map_eq_some_iff] at hx
    obtain ⟨y, -, rfl⟩ := hx
    cases hw : types[w]? with
    | none => cases t <;> rfl
    | some old =>
      obtain ⟨hne, hmerge⟩ := h old hw
      simpa [ValueType.orUnknown_of_ne hne] using hmerge

/-- A part of a pass that goes through some sites and yields a type. -/
abbrev SweepsTo (a : Analysis) (types : Array ValueType) (x : Infer ValueType) (t : ValueType)
    (sites : List TypeSite) : Prop :=
  Sweeps types x fun r => r = t ∧ SitesSettled (a.setTypes types) sites

/-- A part of a pass that goes through some sites. -/
abbrev SweepsOver (a : Analysis) (types : Array ValueType) (x : Infer Unit)
    (sites : List TypeSite) :
    Prop :=
  Sweeps types x fun _ => SitesSettled (a.setTypes types) sites

/-! ### Statements as sequences -/

section Statements

variable (reference? : Identifier → Option VariableId)

/-- An expression as a statement: a plain assignment to a name counts as one that always happens if
the statement is one of a body itself. -/
def statement (top : Bool) : Expr → Infer Unit
  | .assign _ .plain (.identifier i) value => do
    let t ← expr reference? value
    writeName reference? i t top
  | e => do
    let _ ← expr reference? e

/-- An expression that may be left out. -/
def option : Option Expr → Infer Unit
  | none => pure ()
  | some e => do
    let _ ← expr reference? e

/-- The first part of the head of a `for` loop. -/
def forInit (top : Bool) : ForInit → Infer Unit
  | .nothing => pure ()
  | .declaration _ ds => declaratorList reference? top ds
  | .expression e => statement reference? top e

theorem stmt_expression (top : Bool) (span : Span) (e : Expr) :
    stmt reference? top (.expression span e) = statement reference? top e := by
  cases e with
  | assign span op target value =>
    cases op with
    | plain => cases target <;> rfl
    | compound op => rfl
  | _ => rfl

theorem stmt_for (top : Bool) (span : Span) (init : ForInit) (test update : Option Expr)
    (body : Stmt) :
    stmt reference? top (.for span init test update body) = (do
      forInit reference? top init
      option reference? test
      stmt reference? false body
      option reference? update) := by
  cases init with
  | expression e =>
    cases e with
    | assign span op target value =>
      cases op <;> cases target <;> cases test <;> cases update <;> rfl
    | _ => cases test <;> cases update <;> rfl
  | _ => cases test <;> cases update <;> rfl

end Statements

section Sequence

variable {x : Infer ValueType} {t : ValueType} {y y' : Infer Unit} {sites sites' : List TypeSite}

theorem SweepsTo.andThen (h : SweepsTo a types x t sites) (h' : SweepsOver a types y sites') :
    SweepsOver a types (x >>= fun _ => y) (sites ++ sites') :=
  h.bind fun _ => h'.mono fun _ hsites' hsites => sitesSettled_append.mpr ⟨hsites.2, hsites'⟩

theorem SweepsOver.andThen (h : SweepsOver a types y sites) (h' : SweepsOver a types y' sites') :
    SweepsOver a types (y >>= fun _ => y') (sites ++ sites') :=
  h.bind fun _ => h'.mono fun _ hsites' hsites => sitesSettled_append.mpr ⟨hsites, hsites'⟩

theorem SweepsOver.yields (h : SweepsOver a types y sites) (t : ValueType) :
    SweepsTo a types (y >>= fun _ => pure t) t sites :=
  h.bind fun _ => .pure fun hsites => ⟨rfl, hsites⟩

theorem SweepsTo.skip (h : SweepsTo a types x t sites) :
    SweepsOver a types (x >>= fun _ => pure ()) sites :=
  h.bind fun _ => .pure fun hsites => hsites.2

theorem SweepsTo.thenWrite (h : SweepsTo a types x t sites) (i : Identifier) (always : Bool) :
    SweepsOver a types (x >>= fun t => writeName a.reference? i t always)
      (sites ++ [.write i t]) := by
  refine h.bind fun r => (sweeps_writeName i r always).mono fun _ => ?_
  rintro hwrite ⟨rfl, hsites⟩
  exact sitesSettled_append.mpr ⟨hsites, sitesSettled_cons.mpr ⟨hwrite, sitesSettled_nil⟩⟩

theorem SweepsOver.cons {site : TypeSite} (h : SweepsOver a types y sites)
    (hsite : site.Settled (a.setTypes types)) : SweepsOver a types y (site :: sites) :=
  h.mono fun _ hsites => sitesSettled_cons.mpr ⟨hsite, hsites⟩

/-- What goes through the value of an expression if it is a plain assignment to a name. -/
abbrev SweepsAssigned (a : Analysis) (types : Array ValueType) (W : Set VariableId)
    (e : Expr) : Prop :=
  ∀ (span : Span) (i : Identifier) (value : Expr), e = .assign span .plain (.identifier i) value →
    SweepsTo a types (expr a.reference? value) (value.type (a.setTypes types))
      (value.typeSites (a.setTypes types) W)

theorem SweepsTo.statement {W : Set VariableId} {e : Expr}
    (h : SweepsTo a types (expr a.reference? e) (e.type (a.setTypes types))
      (e.typeSites (a.setTypes types) W)) (hassigned : SweepsAssigned a types W e) (top : Bool) :
    SweepsOver a types (statement a.reference? top e) (e.typeSites (a.setTypes types) W) := by
  unfold Infer.statement
  split
  · next span i value => exact (hassigned span i value rfl).thenWrite i top
  · exact h.skip

/-- Two parts that each yield a type, and a type worked out from both. -/
theorem SweepsTo.both {x' : Infer ValueType} {t' : ValueType}
    (f : ValueType → ValueType → ValueType) (h : SweepsTo a types x t sites)
    (h' : SweepsTo a types x' t' sites') :
    SweepsTo a types (do
      let l ← x
      let r ← x'
      return f l r) (f t t') (sites ++ sites') := by
  refine h.bind fun l => h'.bind fun r => .pure ?_
  rintro ⟨rfl, hsites'⟩ ⟨rfl, hsites⟩
  exact ⟨rfl, sitesSettled_append.mpr ⟨hsites, hsites'⟩⟩

theorem SweepsTo.after (h : SweepsOver a types y sites) (h' : SweepsTo a types x t sites') :
    SweepsTo a types (y >>= fun _ => x) t (sites ++ sites') :=
  h.bind fun _ => h'.mono fun _ hsites' hsites =>
    ⟨hsites'.1, sitesSettled_append.mpr ⟨hsites, hsites'.2⟩⟩

theorem SweepsOver.write (i : Identifier) (t : ValueType) (always : Bool) :
    SweepsOver a types (writeName a.reference? i t always) [.write i t] :=
  (sweeps_writeName i t always).mono fun _ h => sitesSettled_cons.mpr ⟨h, sitesSettled_nil⟩

theorem SweepsTo.read (hsize : types.size = a.vars.size) (W : Set VariableId) (i : Identifier) :
    SweepsTo a types (readName a.reference? i) ((a.setTypes types).nameType i) [.read W i] :=
  (sweeps_readName hsize i).mono fun _ h =>
    ⟨h, sitesSettled_cons.mpr ⟨settled_read, sitesSettled_nil⟩⟩

end Sequence

mutual

theorem sweeps_expr (hsize : types.size = a.vars.size) (W : Set VariableId) : ∀ e : Expr,
    SweepsTo a types (expr a.reference? e) (e.type (a.setTypes types))
      (e.typeSites (a.setTypes types) W)
  | .literal .. | .this _ => .pure ⟨rfl, sitesSettled_nil⟩
  | .identifier i => .read hsize W i
  | .array _ elements => (sweeps_elementList hsize W elements).yields .object
  | .object _ properties => (sweeps_propertyList hsize W properties).yields .object
  | .function f => (sweeps_func hsize f).yields .object
  | .unary _ op argument => (sweeps_expr hsize W argument).skip.yields op.resultType
  | .update _ _ (.identifier i) _ =>
    ((SweepsTo.read hsize W i).andThen (.write i .double false)).yields .double
  | .update _ _ (.member m) _ => (sweeps_member hsize W m).yields .double
  | .binary _ op left right =>
    (sweeps_expr hsize W left).both op.resultType (sweeps_expr hsize W right)
  | .logical _ _ left right => (sweeps_expr hsize W left).both .join (sweeps_expr hsize W right)
  | .assign _ .plain (.identifier i) value => by
    refine (sweeps_expr hsize W value).bind fun t =>
      (sweeps_writeName i t false).bind fun _ => .pure ?_
    rintro hwrite ⟨rfl, hvalue⟩
    exact ⟨rfl, sitesSettled_append.mpr ⟨hvalue, sitesSettled_cons.mpr ⟨hwrite, sitesSettled_nil⟩⟩⟩
  | .assign _ (.compound op) (.identifier i) value => by
    refine (sweeps_readName hsize i).bind fun current => (sweeps_expr hsize W value).bind fun t =>
      (sweeps_writeName i (op.resultType current t) false).bind fun _ => .pure ?_
    rintro hwrite ⟨rfl, hvalue⟩ rfl
    exact ⟨rfl, sitesSettled_cons.mpr ⟨settled_read, sitesSettled_append.mpr ⟨hvalue,
      sitesSettled_cons.mpr ⟨hwrite, sitesSettled_nil⟩⟩⟩⟩
  | .assign _ .plain (.member m) value => by
    exact .after (sweeps_member hsize W m) ((sweeps_expr hsize W value).bind fun _ => .pure id)
  | .assign _ (.compound op) (.member m) value =>
    ((sweeps_member hsize W m).yields .unknown).both op.resultType (sweeps_expr hsize W value)
  | .conditional _ test consequent alternate =>
    .after (sweeps_expr hsize W test).skip
      ((sweeps_expr hsize W consequent).both .join (sweeps_expr hsize W alternate))
  | .call _ callee arguments =>
    ((sweeps_expr hsize W callee).andThen (sweeps_exprList hsize W arguments .unknown).skip).yields
      .unknown
  | .construct _ callee arguments =>
    ((sweeps_expr hsize W callee).andThen (sweeps_exprList hsize W arguments .unknown).skip).yields
      .object
  | .sequence _ expressions => sweeps_exprList hsize W expressions .unknown
  | .member m => (sweeps_member hsize W m).yields .unknown

theorem sweeps_exprList (hsize : types.size = a.vars.size) (W : Set VariableId) :
    ∀ (es : List Expr) (last : ValueType), SweepsTo a types (exprList a.reference? last es)
      (lastType (a.setTypes types) last es) (exprTypeSites (a.setTypes types) W es)
  | [], _ => .pure ⟨rfl, sitesSettled_nil⟩
  | e :: rest, _ => by
    refine (sweeps_expr hsize W e).bind fun t => (sweeps_exprList hsize W rest t).mono fun r => ?_
    rintro ⟨hr, hrest⟩ ⟨rfl, he⟩
    exact ⟨hr, sitesSettled_append.mpr ⟨he, hrest⟩⟩

theorem sweeps_elementList (hsize : types.size = a.vars.size) (W : Set VariableId) :
    ∀ es : List (Option Expr), SweepsOver a types (elementList a.reference? es)
      (elementTypeSites (a.setTypes types) W es)
  | [] => .pure sitesSettled_nil
  | none :: rest => sweeps_elementList hsize W rest
  | some e :: rest => (sweeps_expr hsize W e).andThen (sweeps_elementList hsize W rest)

theorem sweeps_propertyList (hsize : types.size = a.vars.size) (W : Set VariableId) :
    ∀ ps : List Property, SweepsOver a types (propertyList a.reference? ps)
      (propertyTypeSites (a.setTypes types) W ps)
  | [] => .pure sitesSettled_nil
  | .mk _ _ value :: rest => (sweeps_expr hsize W value).andThen (sweeps_propertyList hsize W rest)

theorem sweeps_member (hsize : types.size = a.vars.size) (W : Set VariableId) : ∀ m : Member,
    SweepsOver a types (member a.reference? m) (m.typeSites (a.setTypes types) W)
  | .named _ object _ => (sweeps_expr hsize W object).skip
  | .computed _ object property =>
    (sweeps_expr hsize W object).andThen (sweeps_expr hsize W property).skip

theorem sweeps_assigned (hsize : types.size = a.vars.size) (W : Set VariableId) :
    ∀ e : Expr, SweepsAssigned a types W e
  | .assign _ .plain (.identifier _) value => by
    rintro _ _ _ ⟨⟩
    exact sweeps_expr hsize W value
  | .assign _ .plain (.member _) _ | .assign _ (.compound _) _ _ | .literal .. | .identifier _
  | .this _ | .array .. | .object .. | .function _ | .unary .. | .update .. | .binary ..
  | .logical .. | .conditional .. | .call .. | .construct .. | .sequence .. | .member _ => nofun

theorem sweeps_func (hsize : types.size = a.vars.size) : ∀ f : Func,
    SweepsOver a types (func a.reference? f) (f.typeSites (a.setTypes types))
  | .mk _ _ _ _ _ _ _ body => (sweeps_stmtList hsize true ∅ body).cons settled_called

theorem sweeps_stmtList (hsize : types.size = a.vars.size) (top : Bool) (W : Set VariableId) :
    ∀ ss : List Stmt, SweepsOver a types (stmtList a.reference? top ss)
      (stmtTypeSites (a.setTypes types) top W ss)
  | [] => .pure sitesSettled_nil
  | s :: rest => (sweeps_stmt hsize top W s).andThen (sweeps_stmtList hsize top _ rest)

theorem sweeps_declaratorList (hsize : types.size = a.vars.size) (top : Bool) (W : Set VariableId) :
    ∀ ds : List Declarator, SweepsOver a types (declaratorList a.reference? top ds)
      (declaratorTypeSites (a.setTypes types) top W ds)
  | [] => .pure sitesSettled_nil
  | .mk _ _ none :: rest => sweeps_declaratorList hsize top W rest
  | .mk _ name (some init) :: rest => by
    have h := ((sweeps_expr hsize W init).thenWrite name top).andThen
      (sweeps_declaratorList hsize top ((a.setTypes types).written top W name) rest)
    rwa [bind_assoc, List.append_assoc] at h

theorem sweeps_clauseList (hsize : types.size = a.vars.size) (W : Set VariableId) :
    ∀ cs : List SwitchClause, SweepsOver a types (clauseList a.reference? cs)
      (clauseTypeSites (a.setTypes types) W cs)
  | [] => .pure sitesSettled_nil
  | .mk _ none body :: rest =>
    (sweeps_stmtList hsize false W body).andThen (sweeps_clauseList hsize W rest)
  | .mk _ (some test) body :: rest => (sweeps_expr hsize W test).andThen
    ((sweeps_stmtList hsize false W body).andThen (sweeps_clauseList hsize W rest))

theorem sweeps_block (hsize : types.size = a.vars.size) (W : Set VariableId) : ∀ b : Block,
    SweepsOver a types (block a.reference? b) (b.typeSites (a.setTypes types) W)
  | .mk _ body => sweeps_stmtList hsize false W body

theorem sweeps_option (hsize : types.size = a.vars.size) (W : Set VariableId) : ∀ e : Option Expr,
    SweepsOver a types (option a.reference? e) (optionTypeSites (a.setTypes types) W e)
  | none => .pure sitesSettled_nil
  | some e => (sweeps_expr hsize W e).skip

theorem sweeps_forInit (hsize : types.size = a.vars.size) (top : Bool) (W : Set VariableId) :
    ∀ init : ForInit, SweepsOver a types (forInit a.reference? top init)
      (init.typeSites (a.setTypes types) top W)
  | .nothing => .pure sitesSettled_nil
  | .declaration _ ds => sweeps_declaratorList hsize top W ds
  | .expression e => (sweeps_expr hsize W e).statement (sweeps_assigned hsize W e) top

theorem sweeps_forInTarget (hsize : types.size = a.vars.size) (W : Set VariableId) :
    ∀ left : ForInTarget,
    SweepsOver a types (forInTarget a.reference? left) (left.typeSites (a.setTypes types) W)
  | .declaration i | .target (.identifier i) => .write i .string false
  | .target (.member m) => sweeps_member hsize W m

theorem sweeps_stmt (hsize : types.size = a.vars.size) (top : Bool)
    (W : Set VariableId) : ∀ s : Stmt,
    SweepsOver a types (stmt a.reference? top s) (s.typeSites (a.setTypes types) top W)
  | .empty _ | .debugger _ | .brk .. | .cont .. | .ret _ none => .pure sitesSettled_nil
  | .expression _ e => by
    rw [stmt_expression]
    exact (sweeps_expr hsize W e).statement (sweeps_assigned hsize W e) top
  | .block b => sweeps_block hsize W b
  | .ret _ (some e) => (sweeps_expr hsize W e).skip
  | .throw _ e => (sweeps_expr hsize W e).skip
  | .labeled _ _ body => sweeps_stmt hsize false W body
  | .conditional _ test consequent none =>
    (sweeps_expr hsize W test).andThen (sweeps_stmt hsize false W consequent)
  | .conditional _ test consequent (some alternate) => (sweeps_expr hsize W test).andThen
    ((sweeps_stmt hsize false W consequent).andThen (sweeps_stmt hsize false W alternate))
  | .switch _ discriminant clauses =>
    (sweeps_expr hsize W discriminant).andThen (sweeps_clauseList hsize W clauses)
  | .tryCatch _ b none none => (sweeps_block hsize W b).andThen (.pure sitesSettled_nil)
  | .tryCatch _ b none (some f) => (sweeps_block hsize W b).andThen (sweeps_block hsize W f)
  | .tryCatch _ b (some (.mk _ _ hb)) none => (sweeps_block hsize W b).andThen
    (((sweeps_block hsize W hb).cons settled_caught).andThen (.pure sitesSettled_nil))
  | .tryCatch _ b (some (.mk _ _ hb)) (some f) => (sweeps_block hsize W b).andThen
    (((sweeps_block hsize W hb).cons settled_caught).andThen (sweeps_block hsize W f))
  | .while _ test body => (sweeps_expr hsize W test).andThen (sweeps_stmt hsize false W body)
  | .doWhile _ test body => (sweeps_stmt hsize false W body).andThen (sweeps_expr hsize W test).skip
  | .for _ init test update body => by
    rw [stmt_for]
    exact (sweeps_forInit hsize top W init).andThen ((sweeps_option hsize _ test).andThen
      ((sweeps_stmt hsize false _ body).andThen (sweeps_option hsize _ update)))
  | .forIn _ left right body => (sweeps_expr hsize W right).andThen
    ((sweeps_forInTarget hsize W left).andThen (sweeps_stmt hsize false W body))
  | .with _ id object body =>
    ((sweeps_expr hsize W object).andThen (sweeps_stmt hsize false W body)).cons
      settled_held
  | .declaration _ ds => sweeps_declaratorList hsize top W ds
  | .function f => (sweeps_func hsize f).mono fun _ h => sitesSettled_append.mpr ⟨fun x hx => by
      obtain ⟨i, -, rfl⟩ := List.mem_map.mp hx
      exact settled_declared, h⟩

end

end Infer

/-! ### Passes -/

/-- No change takes a type down. -/
theorem Raises.up {types types' : Array ValueType} {us : List TypeUpdate}
    (h : Raises types us types') {v : VariableId} {s : ValueType} (hs : types[v]? = some s) :
    ∃ t, types'[v]? = some t ∧ (s = t ∨ s.rank < t.rank) := by
  induction h with
  | none => exact ⟨s, hs, .inl rfl⟩
  | @more updates raised u _ current up ih =>
    obtain ⟨t, ht, hst⟩ := ih
    rw [Array.getElem?_setIfInBounds]
    by_cases hv : u.variableId = v
    · subst hv
      obtain rfl : u.before = t := Option.some.inj (current.symm.trans ht)
      refine ⟨u.after, ?_, .inr (by rcases hst with rfl | hlt <;> omega)⟩
      rw [if_pos rfl, if_pos (Array.getElem?_eq_some_iff.mp current).1]
    · exact ⟨t, by rw [if_neg hv]; exact ht, hst⟩

namespace Analysis

variable (a : Analysis) (body : List Stmt)

/-- One pass over a script. -/
def pass (types : Array ValueType) : Inference :=
  ((Infer.stmtList a.reference? true body).run ⟨types, []⟩).2

/-- The types after some passes. -/
def passed (n : Nat) : Array ValueType :=
  (fun types => (a.pass body types).types)^[n] a.seededTypes

theorem size_seededTypes : a.seededTypes.size = a.vars.size := by
  have hfold {f : Array ValueType → VariableId → Array ValueType}
      (hf : ∀ types v, (f types v).size = types.size) (l : List VariableId)
        (types : Array ValueType) :
      (l.foldl f types).size = types.size := by
    induction l generalizing types with
    | nil => rfl
    | cons v rest ih => rw [List.foldl_cons, ih, hf]
  have hunset (t : ValueType) (types : Array ValueType) (v : VariableId) :
      (setUnset t types v).size = types.size := Array.size_modify
  unfold seededTypes
  dsimp only
  rw [hfold (hunset _), hfold (hunset _), hfold fun types v => Array.size_setIfInBounds,
    Array.size_map]

/-- A pass raises types. -/
theorem raises_pass (types : Array ValueType) :
    Raises types (a.pass body types).updates (a.pass body types).types := by
  obtain ⟨us, hus, hraises, -⟩ := Infer.sweeps_stmtList a.size_seededTypes true ∅ body ⟨types, []⟩
  rw [List.append_nil] at hus
  unfold pass
  rw [← hus] at hraises
  exact hraises

/-- A pass that changes no type finds all writes settled. -/
theorem settled_of_pass {types : Array ValueType} (hsize : types.size = a.vars.size)
    (h : (a.pass body types).changed = false) :
    SitesSettled (a.setTypes types) (stmtTypeSites (a.setTypes types) true ∅ body) := by
  obtain ⟨us, hus, -, hsettled⟩ := Infer.sweeps_stmtList hsize true ∅ body ⟨types, []⟩
  have hnil : (a.pass body types).updates = [] := by
    simpa [Inference.changed] using h
  rw [List.append_nil] at hus
  exact hsettled (hus.symm.trans hnil) rfl

/-- Passes come to an end before each type has gone up twice. -/
theorem inferPasses_eq (fuel : Nat) (types : Array ValueType)
    (h : 2 * types.size < fuel + totalRank types) :
    ∃ n, n + totalRank types ≤ 2 * types.size ∧
      (∀ i < n, (a.pass body ((fun t => (a.pass body t).types)^[i] types)).changed = true) ∧
      (a.pass body ((fun t => (a.pass body t).types)^[n] types)).changed = false ∧
      inferPasses a body fuel types = (fun t => (a.pass body t).types)^[n] types := by
  induction fuel generalizing types with
  | zero =>
    have := totalRank_le types
    omega
  | succ fuel ih =>
    have hraises := a.raises_pass body types
    have hpass : inferPasses a body (fuel + 1) types =
        if (a.pass body types).changed then inferPasses a body fuel (a.pass body types).types
        else (a.pass body types).types := rfl
    rw [hpass]
    cases hchanged : (a.pass body types).changed with
    | false =>
      have hnil : (a.pass body types).updates = [] := by
        simpa [Inference.changed] using hchanged
      rw [hnil] at hraises
      exact ⟨0, by simpa using totalRank_le types, nofun, hchanged, hraises.eq_of_nil⟩
    | true =>
      have hlength : 0 < (a.pass body types).updates.length := by
        simpa [Inference.changed, List.length_pos_iff] using hchanged
      have hrank := hraises.totalRank_add_length_le
      have hsize := hraises.size_eq
      obtain ⟨n, hn, hall, hlast, heq⟩ := ih (a.pass body types).types (by omega)
      refine ⟨n + 1, by omega, fun i hi => ?_, hlast, heq⟩
      cases i with
      | zero => exact hchanged
      | succ i => exact hall i (by omega)

theorem foldl_setUnset_unknown {v : VariableId} (t : ValueType) : ∀ (l : List VariableId)
    {types : Array ValueType}, types[v]? = some .unknown →
      (l.foldl (setUnset t) types)[v]? = some .unknown
  | [], _, h => h
  | w :: rest, types, h => by
    refine foldl_setUnset_unknown t rest ?_
    simp only [setUnset, Array.getElem?_modify, h]
    split <;> rfl

theorem foldl_set_unknown {v : VariableId} : ∀ (l : List VariableId) {types : Array ValueType},
    v < types.size → (v ∈ l ∨ types[v]? = some .unknown) →
      (l.foldl (fun types v => types.setIfInBounds v .unknown) types)[v]? = some .unknown
  | [], _, _, h => h.resolve_left List.not_mem_nil
  | w :: rest, types, hsize, h => by
    refine foldl_set_unknown rest (by simpa using hsize) ?_
    by_cases hw : w = v
    · exact .inr (by simp [hw, hsize])
    · exact h.imp (List.mem_of_ne_of_mem (Ne.symm hw)) fun h => by
        simpa [Array.getElem?_setIfInBounds, hw] using h

theorem mem_fallbacks {v w : VariableId} (h : (a.var w).fallback = some v) : v ∈ a.fallbacks := by
  unfold var at h
  cases hw : a.vars[w]? with
  | none =>
    rw [hw] at h
    cases h
  | some x =>
    rw [hw] at h
    exact List.mem_filterMap.mpr ⟨x, Array.mem_toList_iff.mpr (Array.mem_of_getElem? hw), h⟩

/-- Only locals that no nested function uses and no `with` statement hides start with a type that
says anything. -/
theorem seededTypes_unknown {v : VariableId} (hv : v < a.vars.size)
    (h : (a.var v).kind ≠ .local ∨ (a.var v).isCaptured = true ∨ ∃ w, (a.var w).fallback = some v) :
    a.seededTypes[v]? = some .unknown := by
  have hvar : a.vars[v]? = some (a.var v) := by
    rw [var, Array.getElem?_eq_getElem hv]
    rfl
  -- After the fallbacks only types that are unset are replaced.
  refine foldl_setUnset_unknown _ _
    (foldl_setUnset_unknown _ _ (foldl_set_unknown _ (by simpa using hv) ?_))
  rw [Array.getElem?_map, hvar]
  rcases h with h | h | ⟨w, h⟩
  · exact .inr (by simp [h])
  · exact .inr (by simp [h])
  · exact .inl (a.mem_fallbacks h)

/-- A type that starts as unknown stays so. -/
theorem valueType_withTypes {v : VariableId} (hv : a.seededTypes[v]? = some .unknown) :
    ((a.withTypes body).var v).valueType = .unknown := by
  have hsize := a.size_seededTypes
  obtain ⟨n, -, -, -, heq⟩ := a.inferPasses_eq body (2 * a.vars.size + 2) a.seededTypes (by omega)
  have hstays : ∀ i, (a.passed body i)[v]? = some .unknown := by
    intro i
    induction i with
    | zero => exact hv
    | succ i ih =>
      obtain ⟨t, ht, htop⟩ := (a.raises_pass body _).up ih
      unfold passed at ht ⊢
      rw [Function.iterate_succ_apply', ht]
      rcases htop with rfl | hlt
      · rfl
      · exact absurd (t.rank_le_two.trans_lt' hlt) (Nat.lt_irrefl _)
  have hlt : v < a.vars.size := hsize ▸ (Array.getElem?_eq_some_iff.mp hv).1
  unfold withTypes
  rw [heq]
  change ((a.setTypes (a.passed body n)).var v).valueType = _
  simp [setTypes, var, hstays, hlt, ValueType.orUnknown]

/-- The final types are those after some number of passes, the last of which changes nothing. -/
theorem withTypes_eq :
    ∃ n ≤ 2 * a.vars.size, (∀ i < n, (a.pass body (a.passed body i)).changed = true) ∧
    (a.pass body (a.passed body n)).changed = false ∧
    a.withTypes body = a.setTypes (a.passed body n) := by
  have hsize := a.size_seededTypes
  obtain ⟨n, hn, hall, hlast, heq⟩ := a.inferPasses_eq body (2 * a.vars.size + 2) a.seededTypes
    (by omega)
  refine ⟨n, by omega, hall, hlast, ?_⟩
  unfold withTypes
  rw [heq]
  rfl

theorem size_passed (i : Nat) : (a.passed body i).size = a.vars.size := by
  induction i with
  | zero => exact a.size_seededTypes
  | succ i ih =>
    unfold passed at ih ⊢
    rw [Function.iterate_succ_apply', (a.raises_pass body _).size_eq, ih]

/-- Every write merges into the final type of its variable. -/
theorem settled_withTypes :
    SitesSettled (a.withTypes body) (stmtTypeSites (a.withTypes body) true ∅ body) := by
  obtain ⟨n, -, -, hlast, htypes⟩ := a.withTypes_eq body
  rw [htypes]
  exact a.settled_of_pass body (a.size_passed body n) hlast

theorem valueType_withTypes_ne_unset : ∀ x ∈ (a.withTypes body).vars, x.valueType ≠ .unset := by
  obtain ⟨n, -, -, -, htypes⟩ := a.withTypes_eq body
  rw [htypes]
  intro x hx
  obtain ⟨v, hv, rfl⟩ := Array.mem_iff_getElem.mp hx
  simp [setTypes]

/-- Every change that a pass makes takes the type of one variable up, and no pass takes one down.
So the passes come to an end, after at most two changes for each variable and a last pass that
changes nothing.  In the final types every write merges into the type of its variable without a
change, and no variable is without a type. -/
theorem types_settle :
    (∀ types, Raises types (a.pass body types).updates (a.pass body types).types) ∧
    (∀ (types : Array ValueType) (v : VariableId) (s : ValueType), types[v]? = some s →
      ∃ t, (a.pass body types).types[v]? = some t ∧ (s = t ∨ s.rank < t.rank)) ∧
    (∃ n ≤ 2 * a.vars.size, (∀ i < n, (a.pass body (a.passed body i)).changed = true) ∧
      (a.pass body (a.passed body n)).changed = false ∧
      a.withTypes body = a.setTypes (a.passed body n)) ∧
    SitesSettled (a.withTypes body) (stmtTypeSites (a.withTypes body) true ∅ body) ∧
    ∀ x ∈ (a.withTypes body).vars, x.valueType ≠ .unset :=
  ⟨a.raises_pass body, fun types _ _ hs => (a.raises_pass body types).up hs, a.withTypes_eq body,
    a.settled_withTypes body, a.valueType_withTypes_ne_unset body⟩

end Analysis

end ScriptEngine
