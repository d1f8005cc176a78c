import ScriptEngine.Proofs.Compile.Nesting
import ScriptEngine.Proofs.Run.Activation
import ScriptEngine.Proofs.Run.Moment

/-!
# Lineages of activations

A function of a script is made by an activation, which runs a function that another activation made,
and so on up to an activation of the script itself.  The records of these activations are linked in
the same order, and the function takes the innermost of them along.

## Main definitions

* `Activation` : an activation of a body.
* `Lineage` : the activations that an activation comes from.
* `Born` : the function at a place was made by the last activation of a lineage.
* `Records.Chain` : the records along the links.
* `Activation.Holds` : the record of an activation is as the activation made it.
* `Machine.Sound` : all functions of scripts have a lineage whose records are held.

## Main statements

* `Lineage.stands` : the code of an activation stands in the bodies of its lineage.
* `Lineage.mirrors` : the records of a lineage are linked as the layouts of its bodies.
-/

namespace ScriptEngine

/-! ### Records -/

namespace Records

variable {rs : Records} {q : RecordRef}

theorem record_set (rs : Records) (r : RecordRef) (index : Nat) (v : Value) (q : RecordRef) :
    (rs.set r index v).record q =
      if q = r then { rs.record q with fields := (rs.record q).fields.setIfInBounds index v }
      else rs.record q := by
  unfold set record
  rw [Array.getElem?_modify]
  by_cases hr : r = q
  · rw [if_pos hr, if_pos hr.symm]
    cases rs.entries[q]? with
    | none => rfl
    | some x => rfl
  · rw [if_neg hr, if_neg (Ne.symm hr)]

theorem parent?_set (r : RecordRef) (index : Nat) (v : Value) (q : RecordRef) :
    (rs.set r index v).parent? q = rs.parent? q := by
  unfold parent?
  rw [record_set]
  split <;> rfl

theorem fieldCount_set (r : RecordRef) (index : Nat) (v : Value) (q : RecordRef) :
    (rs.set r index v).fieldCount q = rs.fieldCount q := by
  unfold fieldCount
  rw [record_set]
  split
  · exact Array.size_setIfInBounds
  · rfl

theorem size_set (r : RecordRef) (index : Nat) (v : Value) :
    (rs.set r index v).entries.size = rs.entries.size :=
  Array.size_modify

/-- A field that is written has the value. -/
theorem get_set_self {index : Nat} (h : index < rs.fieldCount q) (v : Value) :
    (rs.set q index v).get q index = v := by
  unfold get
  rw [record_set, if_pos rfl]
  simp only [Array.getElem?_setIfInBounds, if_true]
  rw [if_pos (show index < (rs.record q).fields.size from h)]
  rfl

theorem get_set_ne {r : RecordRef} {i index : Nat} (h : ¬ (q = r ∧ i = index)) (v : Value) :
    (rs.set r index v).get q i = rs.get q i := by
  unfold get
  rw [record_set]
  split
  · have hi : index ≠ i := fun heq => h ⟨‹_›, heq.symm⟩
    simp [hi]
  · rfl

/-- The records from one on, along the links. -/
inductive Chain (rs : Records) : Option RecordRef → List RecordRef → Prop
  | none : Chain rs none []
  | some {q : RecordRef} {qs : List RecordRef} (h : Chain rs (rs.parent? q) qs) :
    Chain rs (some q) (q :: qs)

namespace Chain

variable {head : Option RecordRef} {qs : List RecordRef}

/-- The record some links up. -/
theorem ancestor? (h : rs.Chain head qs) (hops : Nat) :
    head.bind (rs.ancestor? · hops) = qs[hops]? := by
  induction h generalizing hops with
  | none => rfl
  | @some q qs _ ih =>
    cases hops with
    | zero => rfl
    | succ hops =>
      rw [List.getElem?_cons_succ, ← ih, Option.bind_some, Records.ancestor?]
      cases rs.parent? q <;> rfl

end Chain

end Records

/-! ### Activations -/

/-- An activation of a body: the number of levels of calls that it may make, its code, and the state
in which it begins. -/
structure Activation where
  fuel : Nat
  code : FunctionCode
  start : RunState

namespace Activation

/-- What happens in an activation. -/
def events (A : Activation) : List Event :=
  (A.code.traced (.within A.fuel) A.start).1

/-- The record that an activation allocated when its frame was entered. -/
def own (A : Activation) : Option RecordRef :=
  A.start.frame.own

/-- The record that the functions made in an activation take along. -/
def head (A : Activation) : Option RecordRef :=
  A.start.frame.head

/-- An activation makes a function, at a place of the heap. -/
def Makes (A : Activation) (code : FunctionCode) (r : Ref) : Prop :=
  ∃ s, .function code s ∈ A.events ∧ s.machine.heap.size = r

end Activation

/-- The activations that an activation comes from, itself first, among those that a run entered:
each one runs a function that the next one made, and the last one runs a script. -/
inductive Lineage (c : CompiledProgram) (ran : Activation → Prop) : List Activation → Prop
  | script {A : Activation} {m : Machine} (entered : ran A) (code : A.code = c.code)
      (begun : A.start = c.code.begin m) : Lineage c ran [A]
  | function {A B : Activation} {L : List Activation}
    {r : Ref} {m : Machine} {this arguments : Value}
      (entered : ran A) (made : B.Makes A.code r)
      (begun : A.start = m.enterFrame A.code.info this (.object r) arguments B.head)
      (outer : Lineage c ran (B :: L)) : Lineage c ran (A :: B :: L)

/-- A function of a script was made by the first activation of a lineage, whose innermost record it
took along. -/
structure Born (c : CompiledProgram) (ran : Activation → Prop) (L : List Activation)
    (code : FunctionCode) (r : Ref) (scope : Option RecordRef) : Prop where
  lineage : Lineage c ran L
  made : ∃ B outer, L = B :: outer ∧ B.Makes code r ∧ scope = B.head

section

variable {c : CompiledProgram} {ran ran' : Activation → Prop} {L : List Activation}

theorem Lineage.mono (h : Lineage c ran L) (hran : ∀ A, ran A → ran' A) : Lineage c ran' L := by
  induction h with
  | script entered code begun => exact .script (hran _ entered) code begun
  | function entered made begun _ ih => exact .function (hran _ entered) made begun ih

theorem Born.mono {code : FunctionCode} {r : Ref} {scope : Option RecordRef}
    (h : Born c ran L code r scope) (hran : ∀ A, ran A → ran' A) : Born c ran' L code r scope :=
  ⟨h.lineage.mono hran, h.made⟩

end

/-! ### Code of a lineage -/

/-- Equal activations. -/
def ActivationRelation.equal : ActivationRelation where
  machines := .equal
  frame _ := True
  setSlot _ _ _ _ := trivial
  completion _ _ := trivial

theorem ActivationRelation.isDiagonal_equal : ActivationRelation.equal.IsDiagonal where
  eq h := h
  keeps _ _ _ := rfl

/-- What holds of the functions that are made. -/
def Event.Makes (P : FunctionCode → Prop) : Event → Prop
  | .function g _ => P g
  | _ => True

/-- Runs of a body on one host, with what holds of the functions that are made. -/
def ActivationRelation.Setting.making (host : Host) (P : FunctionCode → Prop) :
    ActivationRelation.Setting :=
  .onHost host .equal (Event.Makes P) fun _ _ _ hst => ⟨trivial, by
    obtain rfl := ActivationRelation.isDiagonal_equal.eq_of_rel hst
    exact Ending.agree_self⟩

/-- A body only makes functions that its code makes. -/
theorem FunctionCode.makes_traced {P : FunctionCode → Prop} {code : FunctionCode}
    (h : Makes P code.effects) (host : Host) (s : RunState) :
    ∀ e ∈ (code.traced host s).1, e.Makes P := by
  have hdiagonal : ActivationRelation.equal.IsDiagonal := ActivationRelation.isDiagonal_equal
  refine (ActivationRelation.Setting.follows_function (X := .making host P) hdiagonal code
    (fun e he => ?_)
    (show ActivationRelation.equal.rel s s from ⟨rfl, trivial, rfl⟩) fun _ _ => trivial).1
  have hmade := h e he
  cases e with
  | read storage =>
    exact fun lenient => .noting fun s t hst _ =>
      ⟨trivial, hdiagonal.same_storageRead lenient storage hst⟩
  | write storage source =>
    exact fun v _ => .noting fun s t hst _ => ⟨trivial, hdiagonal.same_storageWrite v storage hst⟩
  | function f => exact .noting fun s t hst _ => ⟨hmade, hdiagonal.same_makeFunction f hst⟩

/-- The bodies of several activations. -/
abbrev bodiesOf (L : List Activation) : List FunctionId :=
  L.map (·.code.info.id)

section

variable {K : Compilation} {ran : Activation → Prop} {L : List Activation} {A : Activation}

/-- The code of an activation stands in the bodies of its lineage. -/
theorem Lineage.stands (h : Lineage K.compiled ran (A :: L)) :
    K.Stands (bodiesOf (A :: L)) A.code := by
  generalize hlist : A :: L = list at h
  induction h generalizing A L with
  | script entered code begun =>
    cases hlist
    have hstands : K.Stands [0] K.compiled.code := .script
    have hid : 0 = K.compiled.code.info.id := List.head_eq_of_cons_eq hstands.cons
    rw [bodiesOf, List.map_singleton, code, ← hid]
    exact hstands
  | @function A B L r m this arguments entered made begun _ ih =>
    cases hlist
    obtain ⟨s, hs, -⟩ := made
    exact FunctionCode.makes_traced (ih rfl).makes _ _ _ hs

theorem Born.stands {code : FunctionCode} {r : Ref} {scope : Option RecordRef}
    (h : Born K.compiled ran L code r scope) : K.Stands (code.info.id :: bodiesOf L) code := by
  obtain ⟨hlineage, B, outer, rfl, ⟨s, hs, -⟩, -⟩ := h
  exact FunctionCode.makes_traced hlineage.stands.makes _ _ _ hs

end

/-! ### Held records -/

/-- A value is an arguments object. -/
def Heap.IsArguments (h : Heap) (v : Value) : Prop :=
  ∃ r, v = .object r ∧ (h.object r).cls.shape = .arguments

theorem Heap.IsArguments.grow {h k : Heap} {v : Value} (hv : h.IsArguments v) (hk : h.Grows k) :
    k.IsArguments v := by
  obtain ⟨r, rfl, hr⟩ := hv
  refine ⟨r, rfl, ?_⟩
  rw [hk.shape r ?_, hr]
  by_contra hout
  rw [shape_object_of_size_le (Nat.not_lt.mp hout)] at hr
  cases hr

namespace Activation

/-- The record of an activation is its own one among all, linked to the record that the function
took along, and has as many fields as the code asks for. -/
structure HasRecord (A : Activation) (owners : List Activation) (records : Records) : Prop where
  owner : ∀ q, A.own = some q → owners[q]? = some A
  parent : ∀ q, A.own = some q → records.parent? q = A.start.frame.scope
  fieldCount : ∀ q, A.own = some q → A.code.info.layout.ownFields = some (records.fieldCount q)

/-- The record of an activation is as the activation made it and has its arguments object. -/
structure Holds (A : Activation) (owners : List Activation) (m : Machine) : Prop where
  record : A.HasRecord owners m.records
  arguments : ∀ q i, A.own = some q → A.code.info.argumentsField = some i →
    m.heap.IsArguments (m.records.get q i)

variable {A : Activation} {owners : List Activation} {m : Machine}

theorem HasRecord.set {rs : Records} (h : A.HasRecord owners rs) (r : RecordRef) (index : Nat)
    (v : Value) :
    A.HasRecord owners (rs.set r index v) where
  owner := h.owner
  parent q hq := (Records.parent?_set r index v q).trans (h.parent q hq)
  fieldCount q hq := by rw [Records.fieldCount_set, h.fieldCount q hq]

theorem Holds.grow (h : A.Holds owners m) {heap : Heap} (hgrows : m.heap.Grows heap) :
    A.Holds owners { m with heap } :=
  ⟨h.record, fun q i hq hi => (h.arguments q i hq hi).grow hgrows⟩

/-- Fields other than that of the arguments object may be written, and this one with an arguments
object. -/
theorem Holds.set (h : A.Holds owners m) {r : RecordRef} {index : Nat} {v : Value}
    (hv : A.own = some r → A.code.info.argumentsField = some index → m.heap.IsArguments v) :
    A.Holds owners { m with records := m.records.set r index v } := by
  refine ⟨h.record.set r index v, fun q i hq hi => ?_⟩
  by_cases hwritten : q = r ∧ i = index
  · obtain ⟨rfl, rfl⟩ := hwritten
    have hcount : i < m.records.fieldCount q := by
      by_contra hout
      obtain ⟨o, ho, -⟩ := h.arguments q i hq hi
      rw [Records.get, Array.getElem?_eq_none (Nat.not_lt.mp hout)] at ho
      cases ho
    change m.heap.IsArguments ((m.records.set q i v).get q i)
    rw [Records.get_set_self hcount]
    exact hv hq hi
  · change m.heap.IsArguments ((m.records.set r index v).get q i)
    rw [Records.get_set_ne hwritten]
    exact h.arguments q i hq hi

/-- A new record is not that of an activation which has one. -/
theorem HasRecord.alloc {rs : Records} (h : A.HasRecord owners rs)
    (hsize : owners.length = rs.entries.size) (n : Nat) (scope : Option RecordRef)
    {owners' : List Activation} (howners : owners <+: owners') :
    A.HasRecord owners' (rs.alloc n scope).2 := by
  have hne {q : RecordRef} (hq : A.own = some q) : q ≠ rs.entries.size := by
    have hlt := (List.getElem?_eq_some_iff.mp (h.owner q hq)).1
    exact Nat.ne_of_lt (hsize ▸ hlt)
  refine ⟨fun q hq => ?_, fun q hq => ?_, fun q hq => ?_⟩
  · obtain ⟨new, rfl⟩ := howners
    rw [List.getElem?_append_left (List.getElem?_eq_some_iff.mp (h.owner q hq)).1]
    exact h.owner q hq
  · rw [Records.parent?, Records.record_alloc, if_neg (hne hq)]
    exact h.parent q hq
  · rw [Records.fieldCount, Records.record_alloc, if_neg (hne hq)]
    exact h.fieldCount q hq

end Activation

/-! ### Sound machines -/

/-- The records of a machine belong to activations, and each function of a script was made by the
first activation of a lineage, all of whose records are held. -/
structure Machine.Sound (ran : Activation → Prop) (owners : List Activation)
    (m : Machine) : Prop where
  size : owners.length = m.records.entries.size
  born : ∀ r code scope, (m.heap.object r).cls.shape = .script code scope →
    ∃ c L, c.OfSource ∧ Born c ran L code r scope ∧ ∀ B ∈ L, B.Holds owners m

/-- A machine is sound, and the records that were held on another one are held. -/
def Machine.Later (ran : Activation → Prop) (owners : List Activation) (m n : Machine) : Prop :=
  ∃ owners', n.Sound ran owners' ∧ ∀ A : Activation, A.Holds owners m → A.Holds owners' n

section

variable {ran ran' : Activation → Prop} {owners owners' : List Activation} {m n p : Machine}

theorem Machine.Sound.mono (h : m.Sound ran owners) (hran : ∀ A, ran A → ran' A) :
    m.Sound ran' owners := by
  refine ⟨h.size, fun r code scope hr => ?_⟩
  obtain ⟨c, L, hc, hborn, hL⟩ := h.born r code scope hr
  exact ⟨c, L, hc, hborn.mono hran, hL⟩

/-- Changes that leave the functions of scripts alone and keep all records held keep a machine
sound. -/
theorem Machine.Sound.change (h : m.Sound ran owners)
    (hsize : owners'.length = n.records.entries.size)
    (hborn : ∀ r code scope, (n.heap.object r).cls.shape = .script code scope →
      (m.heap.object r).cls.shape = .script code scope)
    (hholds : ∀ A : Activation, A.Holds owners m → A.Holds owners' n) : n.Sound ran owners' := by
  refine ⟨hsize, fun r code scope hr => ?_⟩
  obtain ⟨c, L, hc, hmade, hL⟩ := h.born r code scope (hborn r code scope hr)
  exact ⟨c, L, hc, hmade, fun B hB => hholds B (hL B hB)⟩

theorem Heap.Grows.script {h k : Heap} (hk : h.Grows k) {r : Ref} {code : FunctionCode}
    {scope : Option RecordRef} (hr : (k.object r).cls.shape = .script code scope) :
    (h.object r).cls.shape = .script code scope := by
  rcases Nat.lt_or_ge r h.size with hlt | hge
  · rw [← hk.shape r hlt, hr]
  · exact absurd hr (hk.fresh r hge code scope)

theorem Machine.Sound.grow (h : m.Sound ran owners) {heap : Heap} (hgrows : m.heap.Grows heap) :
    Machine.Sound ran owners { m with heap } :=
  h.change h.size (fun _ _ _ => hgrows.script) fun _ hA => hA.grow hgrows

theorem Machine.Sound.setField (h : m.Sound ran owners) {r : RecordRef} {index : Nat} {v : Value}
    (hv : ∀ A : Activation, A.Holds owners m → A.own = some r →
      A.code.info.argumentsField = some index →
      m.heap.IsArguments v) :
    Machine.Sound ran owners { m with records := m.records.set r index v } :=
  h.change (h.size.trans (Records.size_set r index v).symm) (fun _ _ _ hr => hr) fun A hA =>
    hA.set (hv A hA)

/-- A new function of a script takes the innermost record of the activation that made it along. -/
theorem Machine.Sound.newFunction (h : m.Sound ran owners) {c : CompiledProgram}
    {L : List Activation} {code : FunctionCode} {scope : Option RecordRef} (hc : c.OfSource)
    (hborn : Born c ran L code m.heap.size scope) (hL : ∀ B ∈ L, B.Holds owners m) :
    Machine.Sound ran owners { m with heap := (m.heap.newFunction code scope).2 } ∧
      ∀ A : Activation, A.Holds owners m →
        A.Holds owners { m with heap := (m.heap.newFunction code scope).2 } := by
  have hobject (r : Ref) : (((m.heap.newFunction code scope).2.object r).cls.shape =
      if r = m.heap.size then .script code scope else (m.heap.object r).cls.shape) := by
    unfold Heap.newFunction Heap.make
    rw [Heap.object_alloc]
    split
    · rw [Heap.Advance.cls_foldl_defineOwn]
      rfl
    · rfl
  have hkept (A : Activation) (hA : A.Holds owners m) :
      A.Holds owners { m with heap := (m.heap.newFunction code scope).2 } := by
    refine ⟨hA.record, fun q i hq hi => ?_⟩
    obtain ⟨r, hr, hshape⟩ := hA.arguments q i hq hi
    refine ⟨r, hr, ?_⟩
    rw [hobject, if_neg, hshape]
    rintro rfl
    rw [Heap.shape_object_of_size_le (Nat.le_refl _)] at hshape
    cases hshape
  refine ⟨⟨h.size, fun r code' scope' hr => ?_⟩, hkept⟩
  change ((m.heap.newFunction code scope).2.object r).cls.shape = _ at hr
  rw [hobject] at hr
  split at hr
  · rename_i heq
    cases hr
    subst heq
    exact ⟨c, L, hc, hborn, fun B hB => hkept B (hL B hB)⟩
  · obtain ⟨c', L', hc', hborn', hL'⟩ := h.born r code' scope' hr
    exact ⟨c', L', hc', hborn', fun B hB => hkept B (hL' B hB)⟩

/-- The frame of an activation before its entry has a record just if the code asks for one. -/
theorem Machine.enterFrame_cases (m : Machine) (info : FunctionInfo) (this callee arguments : Value)
    (scope : Option RecordRef) :
    (info.layout.ownFields = none ∧
      (m.enterFrame info this callee arguments scope).frame.own = none ∧
      (m.enterFrame info this callee arguments scope).machine = m) ∨
    ∃ n, info.layout.ownFields = some n ∧
      (m.enterFrame info this callee arguments scope).frame.own = some m.records.entries.size ∧
      (m.enterFrame info this callee arguments scope).machine =
        { m with records := (m.records.alloc n scope).2 } := by
  unfold Machine.enterFrame
  cases info.layout.ownFields with
  | none => exact .inl ⟨rfl, rfl, rfl⟩
  | some n => exact .inr ⟨n, rfl, rfl, rfl⟩

/-- Entering a frame keeps all records held, and the new one is that of the activation. -/
theorem Machine.Sound.enterFrame (h : m.Sound ran owners) {A : Activation}
    {this callee arguments : Value} {scope : Option RecordRef}
    (hA : A.start = m.enterFrame A.code.info this callee arguments scope) :
    ∃ owners', A.start.machine.Sound ran owners' ∧ A.HasRecord owners' A.start.machine.records ∧
      (∀ B : Activation, B.Holds owners m → B.Holds owners' A.start.machine) ∧
      A.start.machine.heap = m.heap := by
  have hscope : A.start.frame.scope = scope := by rw [hA]; rfl
  rcases m.enterFrame_cases A.code.info this callee arguments scope with
    ⟨-, hown, hmachine⟩ | ⟨n, hfields, hown, hmachine⟩
  · rw [← hA] at hown hmachine
    rw [hmachine]
    refine ⟨owners, h, ⟨fun q hq => ?_, fun q hq => ?_, fun q hq => ?_⟩, fun _ hB => hB, rfl⟩ <;>
      cases hown.symm.trans hq
  · rw [← hA] at hown hmachine
    rw [hmachine]
    have hkept (B : Activation) (hB : B.Holds owners m) :
        B.Holds (owners ++ [A]) { m with records := (m.records.alloc n scope).2 } := by
      refine ⟨hB.record.alloc h.size n scope (List.prefix_append _ _), fun q i hq hi => ?_⟩
      have hne : q ≠ m.records.entries.size :=
        Nat.ne_of_lt (h.size ▸ (List.getElem?_eq_some_iff.mp (hB.record.owner q hq)).1)
      have harguments := hB.arguments q i hq hi
      rw [Records.get] at harguments
      change m.heap.IsArguments ((m.records.alloc n scope).2.get q i)
      rw [Records.get, Records.record_alloc, if_neg hne]
      exact harguments
    refine ⟨owners ++ [A], h.change ?_ (fun _ _ _ hr => hr) hkept,
      ⟨fun q hq => ?_, fun q hq => ?_, fun q hq => ?_⟩, hkept, rfl⟩
    · simp [Records.alloc, h.size]
    · cases hown.symm.trans hq
      rw [← h.size, List.getElem?_concat_length]
    · cases hown.symm.trans hq
      rw [Records.parent?, Records.record_alloc, if_pos rfl, hscope]
    · cases hown.symm.trans hq
      rw [Records.fieldCount, Records.record_alloc, if_pos rfl, hfields]
      simp

/-! ### Later machines -/

namespace Machine.Later

theorem of_sound (h : m.Sound ran owners) : m.Later ran owners m :=
  ⟨owners, h, fun _ hA => hA⟩

theorem trans (hmn : m.Later ran owners n) (h : ∀ owners', n.Sound ran owners' →
    (∀ A : Activation, A.Holds owners m → A.Holds owners' n) →
    n.Later ran owners' p) : m.Later ran owners p := by
  obtain ⟨owners', hn, hkept⟩ := hmn
  obtain ⟨owners'', hp, hkept'⟩ := h owners' hn hkept
  exact ⟨owners'', hp, fun A hA => hkept' A (hkept A hA)⟩

/-- What is not looked at may change. -/
theorem congr (h : m.Later ran owners n) (hheap : p.heap = n.heap)
    (hrecords : p.records = n.records) :
    m.Later ran owners p := by
  obtain ⟨owners', hn, hkept⟩ := h
  have hholds (A : Activation) (hA : A.Holds owners' n) : A.Holds owners' p := by
    refine ⟨hrecords ▸ hA.record, fun q i hq hi => ?_⟩
    rw [hheap, hrecords]
    exact hA.arguments q i hq hi
  refine ⟨owners', hn.change (hrecords ▸ hn.size) (fun r code scope hr => hheap ▸ hr) hholds,
    fun A hA => ?_⟩
  exact hholds A (hkept A hA)

theorem grow (h : m.Later ran owners n) {heap : Heap} (hgrows : n.heap.Grows heap) :
    m.Later ran owners { n with heap } :=
  h.trans fun owners' hn _ => ⟨owners', hn.grow hgrows, fun _ hA => hA.grow hgrows⟩

end Machine.Later

end

/-! ### Arguments objects -/

/-- The state of an activation after its arguments object was put where the body looks for it. -/
def RunState.withArguments (info : FunctionInfo) (s : RunState) : RunState where
  frame :=
    match info.argumentsSlot with
    | some slot => s.frame.setSlot .boxed slot s.frame.arguments
    | none => s.frame
  machine :=
    match info.argumentsField, s.frame.own with
    | some field, some r =>
      { s.machine with records := s.machine.records.set r field s.frame.arguments }
    | _, _ => s.machine

theorem keepArguments_eq (info : FunctionInfo) (s : RunState) :
    keepArguments info s = .ok () (s.withArguments info) := by
  obtain ⟨⟨strict, this, callee, arguments, scope, own, records, values, doubles, booleans, strings,
      completion⟩, m⟩ := s
  unfold keepArguments RunState.withArguments
  cases info.argumentsField <;> cases own <;> cases info.argumentsSlot <;> rfl

/-- The parts of a frame that an activation never changes. -/
structure Frame.Begun (A : Activation) (f : Frame) : Prop where
  own : f.own = A.own
  scope : f.scope = A.start.frame.scope
  records : f.records = A.start.frame.records

namespace Frame.Begun

variable {A : Activation} {f : Frame}

theorem head (h : f.Begun A) : f.head = A.head := by
  unfold Frame.head Activation.head Frame.head
  rw [h.own, h.scope]
  rfl

theorem setSlot (h : f.Begun A) (ρ : Rep) (i : Nat) (x : ρ.Carrier) :
    (f.setSlot ρ i x).Begun A := by
  cases ρ <;> exact ⟨h.own, h.scope, h.records⟩

theorem withArguments (A : Activation) (info : FunctionInfo) :
    (A.start.withArguments info).frame.Begun A := by
  have hbegun : A.start.frame.Begun A := ⟨rfl, rfl, rfl⟩
  unfold RunState.withArguments
  cases info.argumentsSlot with
  | none => exact hbegun
  | some slot => exact hbegun.setSlot .boxed slot _

end Frame.Begun

section

variable {ran : Activation → Prop} {owners : List Activation} {A : Activation}

/-- Once an activation keeps its arguments object, its record is held. -/
theorem Machine.Sound.withArguments (h : A.start.machine.Sound ran owners)
    (hA : A.HasRecord owners A.start.machine.records)
    (harguments : ∀ i, A.code.info.argumentsField = some i →
      (∃ fields, A.code.info.layout.ownFields = some fields ∧ i < fields) ∧
        A.start.machine.heap.IsArguments A.start.frame.arguments) :
    (A.start.withArguments A.code.info).machine.Sound ran owners ∧
      A.Holds owners (A.start.withArguments A.code.info).machine ∧
      ∀ B : Activation, B.Holds owners A.start.machine →
        B.Holds owners (A.start.withArguments A.code.info).machine := by
  unfold RunState.withArguments
  cases hfield : A.code.info.argumentsField with
  | none => exact ⟨h, ⟨hA, fun q i _ hi => by cases hfield.symm.trans hi⟩, fun _ hB => hB⟩
  | some i =>
    obtain ⟨⟨fields, hfields, hlt⟩, hvalue⟩ := harguments i hfield
    cases hown : A.start.frame.own with
    | none => exact ⟨h, ⟨hA, fun q i hq _ => by cases hown.symm.trans hq⟩, fun _ hB => hB⟩
    | some r =>
      refine ⟨h.setField fun _ _ _ _ => hvalue, ⟨hA.set r i _, fun q j hq hj => ?_⟩, fun B hB =>
        hB.set fun _ _ => hvalue⟩
      cases hown.symm.trans hq
      cases hfield.symm.trans hj
      have hcount := hA.fieldCount r hown
      rw [hfields] at hcount
      change A.start.machine.heap.IsArguments ((A.start.machine.records.set r i _).get r i)
      rw [Records.get_set_self (Option.some.inj hcount ▸ hlt)]
      exact hvalue

end

/-! ### Records of a lineage -/

section

variable {K : Compilation} {ran : Activation → Prop} {L : List Activation} {A : Activation}
  {owners : List Activation} {rs : Records}

/-- A record belongs to an activation of a lineage whose body has a layout, and it has its
fields. -/
def Mirrors (c : CompiledProgram) (L : List Activation) (rs : Records) (q : RecordRef)
    (l : LayoutId) : Prop :=
  ∃ B ∈ L, B.own = some q ∧ (c.analysis.body B.code.info.id).layout = some l ∧
    rs.fieldCount q = (c.analysis.layout l).fields.length

/-- An activation has a record just if its body has a layout, -/
theorem Lineage.own_isSome (h : Lineage K.compiled ran (A :: L)) :
    A.own.isSome = (K.compiled.analysis.body A.code.info.id).layout.isSome := by
  have hfields := h.stands.ownFields_eq
  have hcases {m : Machine} {this callee arguments : Value} {scope : Option RecordRef}
      (hA : A.start = m.enterFrame A.code.info this callee arguments scope) :
      A.own.isSome = A.code.info.layout.ownFields.isSome := by
    unfold Activation.own
    rw [hA]
    rcases m.enterFrame_cases A.code.info this callee arguments
        scope with ⟨hnone, hown, -⟩ | ⟨n, hsome, hown, -⟩
    · rw [hnone, hown]
    · rw [hsome, hown]
      rfl
  have hown : A.own.isSome = A.code.info.layout.ownFields.isSome := by
    cases h with
    | script entered code begun => exact hcases (begun.trans (by rw [FunctionCode.begin, code]))
    | function entered made begun outer => exact hcases begun
  rw [hown, hfields, Option.isSome_map]

/-- and it is linked to the innermost record of the activation that made its function. -/
theorem Lineage.scope_eq {B : Activation} (h : Lineage K.compiled ran (A :: B :: L)) :
    A.start.frame.scope = B.head := by
  cases h with
  | function entered made begun outer =>
    rw [begun]
    rfl

theorem Lineage.outer {B : Activation} (h : Lineage K.compiled ran (A :: B :: L)) :
    Lineage K.compiled ran (B :: L) := by
  cases h with
  | function entered made begun outer => exact outer

/-- The records of a lineage are linked, in the order of the layouts of its bodies. -/
theorem Lineage.mirrors (h : Lineage K.compiled ran (A :: L))
    (hL : ∀ B ∈ A :: L, B.HasRecord owners rs) : ∃ qs, rs.Chain A.head qs ∧
      List.Forall₂ (Mirrors K.compiled (A :: L) rs) qs
        (K.compiled.analysis.layoutsOf (bodiesOf (A :: L))) := by
  -- one more activation in front of those whose records the function took along
  have hstep {A : Activation} {L : List Activation} (h : Lineage K.compiled ran (A :: L))
      (hA : A.HasRecord owners rs) {qs : List RecordRef} (hqs : rs.Chain A.start.frame.scope qs)
      (houter : List.Forall₂ (Mirrors K.compiled L rs) qs
        (K.compiled.analysis.layoutsOf (bodiesOf L))) :
      ∃ qs, rs.Chain A.head qs ∧
        List.Forall₂ (Mirrors K.compiled (A :: L) rs) qs
          (K.compiled.analysis.layoutsOf (bodiesOf (A :: L))) := by
    have hmore : List.Forall₂ (Mirrors K.compiled (A :: L) rs) qs
        (K.compiled.analysis.layoutsOf (bodiesOf L)) :=
      houter.imp fun q l ⟨B, hB, hq⟩ => ⟨B, List.mem_cons_of_mem A hB, hq⟩
    have hisSome := h.own_isSome
    have hhead : A.head = A.own.or A.start.frame.scope := rfl
    cases hl : (K.compiled.analysis.body A.code.info.id).layout with
    | none =>
      rw [hl, Option.isSome_none, Option.isSome_eq_false_iff, Option.isNone_iff_eq_none] at hisSome
      rw [hhead, hisSome, bodiesOf, List.map_cons, Analysis.layoutsOf_of_none hl]
      exact ⟨qs, hqs, hmore⟩
    | some l =>
      rw [hl] at hisSome
      obtain ⟨q, hq⟩ := Option.isSome_iff_exists.mp hisSome
      have hfields := hA.fieldCount q hq
      rw [h.stands.ownFields_eq, hl] at hfields
      rw [hhead, hq, bodiesOf, List.map_cons, Analysis.layoutsOf_of_some hl]
      refine ⟨q :: qs, .some (hA.parent q hq ▸ hqs),
        .cons ⟨A, List.mem_cons_self, hq, hl, ?_⟩ hmore⟩
      exact (Option.some.inj hfields).symm
  induction L generalizing A with
  | nil =>
    have hscope : A.start.frame.scope = none := by
      cases h with
      | script entered code begun =>
        rw [begun]
        rfl
    exact hstep h (hL A List.mem_cons_self) (hscope ▸ .none) .nil
  | cons B L ih =>
    obtain ⟨qs, hqs, houter⟩ := ih h.outer fun C hC => hL C (List.mem_cons_of_mem _ hC)
    exact hstep h (hL A List.mem_cons_self) (h.scope_eq ▸ hqs) houter

end

end ScriptEngine
