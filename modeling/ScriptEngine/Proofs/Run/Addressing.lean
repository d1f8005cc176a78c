import ScriptEngine.Proofs.Compile.WithObjects
import ScriptEngine.Proofs.Run.Lineage
import ScriptEngine.Proofs.Run.Prototypes

/-!
# Addressed fields

An activation that begins with all records of its lineage finds the fields that its code addresses,
and keeps these records: it changes no field of an arguments object, and the functions that it makes
take its innermost record along.

## Main definitions

* `Finds` : a field that code addresses is that of a variable, in the record of an activation of the
  lineage.
* `Work.Enters` : the activations that work enters.
* `KeepsSound` : calls that leave sound machines behind.
* `Event.Fits` : events of an activation that finds what it addresses.
* `Activation.Begins` : an activation with all records of its lineage.

## Main statements

* `Lineage.finds` : what the code of an activation addresses is there.
* `Activation.Begins.follows` : the events of an activation fit, and it leaves a sound machine
  behind.
-/

namespace ScriptEngine

variable {α : Type}

/-! ### Fields that are addressed -/

/-- In an activation with a lineage, the field that code reaches a variable by is the one of this
variable, in the record of the activation that declares it.  For a parameter, an arguments object is
there. -/
structure Finds (c : CompiledProgram) (L : List Activation) (x : Storage) (address : FieldAddress)
    (s : RunState) (v : VariableId) (B : Activation) (q : RecordRef) : Prop where
  field : ∃ l, (c.analysis.var v).field = some ⟨l, address.index⟩
  lineage : B ∈ L
  declares : B.code.info.id = (c.analysis.var v).body
  own : B.own = some q
  record : Act.record address.record s = .ok q s
  lt_fieldCount : address.index < s.machine.records.fieldCount q
  «local» : x = .field address → (c.analysis.var v).kind = .local
  parameter : ∀ i, x = .parameter i (some address) → (c.analysis.var v).kind = .parameter ∧
    i = (c.analysis.var v).index.getD 0 ∧
      s.machine.heap.IsArguments (s.machine.records.get q address.index)

theorem Machine.records_enterFrame (m : Machine) (info : FunctionInfo)
    (this callee arguments : Value) (scope : Option RecordRef) :
    (m.enterFrame info this callee arguments scope).frame.records =
      (info.recordHops.map fun hops =>
        (m.enterFrame info this callee arguments scope).frame.head.bind
          ((m.enterFrame info this callee arguments
            scope).machine.records.ancestor? · hops)).toArray := by
  unfold Machine.enterFrame
  cases info.layout.ownFields <;> rfl

section

variable {K : Compilation} {ran : Activation → Prop} {owners : List Activation} {A B : Activation}
  {L : List Activation}

theorem Lineage.records_eq {c : CompiledProgram} (h : Lineage c ran (A :: L)) :
    A.start.frame.records =
    (A.code.info.recordHops.map fun hops =>
      A.head.bind (A.start.machine.records.ancestor? · hops)).toArray := by
  have hentered {m : Machine} {this callee arguments : Value} {scope : Option RecordRef}
      (hA : A.start = m.enterFrame A.code.info this callee arguments scope) :
        A.start.frame.records =
        (A.code.info.recordHops.map fun hops =>
          A.head.bind (A.start.machine.records.ancestor? · hops)).toArray := by
    unfold Activation.head
    rw [hA]
    exact m.records_enterFrame _ _ _ _ _
  cases h with
  | script entered code begun => exact hentered (begun.trans (by rw [FunctionCode.begin, code]))
  | function entered made begun outer => exact hentered begun

theorem Lineage.stands_of_mem (h : Lineage K.compiled ran L) (hB : B ∈ L) :
    ∃ bodies, K.Stands bodies B.code := by
  induction h with
  | script entered code begun =>
    obtain rfl := List.mem_singleton.mp hB
    exact ⟨_, (Lineage.script entered code begun).stands⟩
  | function entered made begun outer ih =>
    rcases List.mem_cons.mp hB with rfl | hB
    · exact ⟨_, (Lineage.function entered made begun outer).stands⟩
    · exact ih hB

/-- What an activation addresses it finds. -/
theorem Lineage.finds (h : Lineage K.compiled ran (A :: L)) {x : Storage} {address : FieldAddress}
    {v : VariableId} {l : LayoutId} (hkeeps : K.Keeps (bodiesOf (A :: L)) A.code.info x address v l)
    (hstart : ∀ B ∈ A :: L, B.HasRecord owners A.start.machine.records) {s : RunState}
    {owners' : List Activation} (hs : s.frame.Begun A)
    (hholds : ∀ B ∈ A :: L, B.Holds owners' s.machine) :
    ∃ B q, Finds K.compiled (A :: L) x address s v B q := by
  obtain ⟨qs, hchain, hmirrors⟩ := h.mirrors hstart
  obtain ⟨hops, hfind, hnumber⟩ := hkeeps.hops
  obtain ⟨hlt, heq, -⟩ := List.findIdx?_eq_some_iff_getElem.mp hfind
  have hlt' : hops < qs.length := hmirrors.length_eq ▸ hlt
  obtain ⟨B, hB, hown, hlayout, -⟩ := hmirrors.get hlt' hlt
  rw [show (K.compiled.analysis.layoutsOf (bodiesOf (A :: L))).get ⟨hops, hlt⟩ =
    l from beq_iff_eq.mp heq] at hlayout
  have hrecord : s.frame.records[address.record]? = some (some qs[hops]) := by
    rw [hs.records, h.records_eq, List.getElem?_toArray, List.getElem?_map, hnumber,
      Option.map_some, hchain.ancestor?, List.getElem?_eq_getElem hlt']
  have hbody : B.code.info.id = (K.compiled.analysis.var v).body :=
    ((K.linked.owned _ l).mp hlayout).2.symm.trans ((K.linked.owned _ l).mp hkeeps.layout).2
  obtain ⟨bodies, hstands⟩ := h.stands_of_mem hB
  have hfields := (hholds B hB).record.fieldCount _ hown
  rw [hstands.ownFields_eq, hlayout] at hfields
  refine ⟨B, qs[hops], ⟨l, hkeeps.field⟩, hB, hbody, hown, ?_, ?_, fun hx => (hkeeps.local hx).1,
    fun i hi => ?_⟩
  · unfold Act.record
    change Exec.andThen (Act.onFrame _) _ s = _
    simp only [Exec.andThen, Act.onFrame, hrecord]
    rfl
  · exact Option.some.inj hfields ▸ hkeeps.lt_length
  · obtain ⟨hkind, hindex, harguments⟩ := hkeeps.parameter i hi
    refine ⟨hkind, hindex, (hholds B hB).arguments _ _ hown ?_⟩
    rw [hstands.argumentsField_eq, hlayout]
    exact harguments

end

/-! ### Later machines -/

/-- A state that is left behind is related to some other one. -/
theorem Ending.Agree.exists_rel {σ τ : Type} {E : σ → τ → Prop} {x : Ending σ RuntimeError α}
    {y : Ending τ RuntimeError α} (h : x.Agree E (sameResult E) y) {s : σ}
    (hs : x.state? = some s) :
    ∃ t, E s t := by
  cases h with
  | ok hQ =>
    cases hs
    exact ⟨_, hQ.2⟩
  | error hE =>
    cases hs
    exact ⟨_, hE⟩
  | exhausted => cases hs

section

variable {ran : Activation → Prop} {owners : List Activation} {m p q : Machine}

theorem withHeap_later {h k : Heap} (hpq : p = q ∧ m.Later ran owners p)
    (hadvance : Heap.Advance Eq p.heap q.heap h k) :
    ({ p with heap := h } : Machine) = { q with heap := k } ∧
    m.Later ran owners { p with heap := h } := by
  obtain ⟨rfl, hp⟩ := hpq
  obtain rfl := hadvance.similar.eq
  exact ⟨rfl, hp.grow hadvance.left⟩

theorem withOutput_later (hpq : p = q ∧ m.Later ran owners p) (text : String) :
    ({ p with output := p.output ++ text } : Machine) = { q with output := q.output ++ text } ∧
      m.Later ran owners { p with output := p.output ++ text } := by
  obtain ⟨rfl, hp⟩ := hpq
  exact ⟨rfl, hp.congr rfl rfl⟩

/-- Machines later than a sound one, related to themselves. -/
def MachineRelation.later (ran : Activation → Prop) (owners : List Activation) (m : Machine) :
    MachineRelation where
  code := Eq
  rel p q := p = q ∧ m.Later ran owners p
  code_name := @FunctionCode.name_congr
  heap h := h.1 ▸ .refl _
  depth h := congrArg Machine.depth h.1
  limit h := congrArg Machine.limit h.1
  withHeap := withHeap_later
  withOutput := withOutput_later

/-- A computation on the machine agrees with itself if what it leaves behind is later. -/
theorem MachineRelation.agree_later {x : Ending Machine RuntimeError α}
    (h : ∀ n, x.state? = some n → m.Later ran owners n) :
    x.Agree (MachineRelation.later ran owners m).rel
      (sameResult (MachineRelation.later ran owners m).rel) x := by
  cases x with
  | ok a s => exact .ok ⟨rfl, rfl, h s rfl⟩
  | error e s => exact .error ⟨rfl, h s rfl⟩
  | exhausted => exact .exhausted

end

/-! ### Work -/

namespace Work

/-- Work with a number of levels of calls enters an activation. -/
inductive Enters : Nat → Work → Activation → Prop
  | body {fuel : Nat} {code : FunctionCode} {s : RunState} :
    Enters fuel (.body code s) ⟨fuel, code, s⟩
  | made {fuel : Nat} {α : Type} {x : Caller → Run α} {m : Machine} {c : Call} {A : Activation}
      (h : Run.Makes x (callWithin fuel) m c) (hA : Enters fuel (.call c) A) :
      Enters fuel (.computation x m) A
  | native {fuel : Nat} {c : Call} {r : Ref} {f : Native} {A : Activation}
      (h : c.callee = .object r) (hf : (c.machine.heap.object r).cls = .function (.native f))
      (hdepth : c.machine.depth < c.machine.limit)
      (hA : Enters fuel (.computation (f.run · c.this c.arguments)
        { c.machine with depth := c.machine.depth + 1 }) A) :
      Enters (fuel + 1) (.call c) A
  | script {fuel : Nat} {c : Call} {m : Machine} {r : Ref} {code : FunctionCode}
      {scope : Option RecordRef} {s : RunState} {A : Activation} (h : c.callee = .object r)
      (hf : (c.machine.heap.object r).cls = .function (.script code scope))
      (hdepth : c.machine.depth < c.machine.limit)
      (hs : code.enter scope r c.this c.arguments
        { c.machine with depth := c.machine.depth + 1 } = .ok s m)
      (hA : Enters fuel (.body code s) A) : Enters (fuel + 1) (.call c) A
  | run {fuel : Nat} {code : FunctionCode} {s t : RunState} {α : Type} {x : Caller → Run α}
    {A : Activation}
      (h : .run x t ∈ (code.traced (.within fuel) s).1)
      (hA : Enters fuel (.computation x t.machine) A) : Enters fuel (.body code s) A

end Work

/-- Calls with a number of levels leave sound machines behind if they enter activations that the run
enters only. -/
def KeepsSound (ran : Activation → Prop) (fuel : Nat) : Prop :=
  ∀ ⦃c : Call⦄, (∀ A, Work.Enters fuel (.call c) A → ran A) → ∀ ⦃owners n⦄,
    c.machine.Sound ran owners →
    (c.ending (callWithin fuel)).state? = some n → c.machine.Later ran owners n

/-- A computation agrees with itself on later machines if the calls that it makes leave sound
machines behind. -/
theorem KeepsSound.agree {ran : Activation → Prop} {fuel : Nat} (hcalls : KeepsSound ran fuel)
    {x : Caller → Run α} (hx : Run.Regular x) {m : Machine}
    (hran : ∀ A, Work.Enters fuel (.computation x m) A → ran A) {n : Machine}
    {owners : List Activation} (hm : n.Later ran owners m) :
    (x (callWithin fuel) m).Agree (MachineRelation.later ran owners n).rel
      (sameResult (MachineRelation.later ran owners n).rel) (x (callWithin fuel) m) := by
  refine hx.agree (fun f this arguments p q hmade hpq => ?_) ⟨rfl, hm⟩
  obtain ⟨rfl, hp⟩ := hpq
  refine MachineRelation.agree_later fun k hk => hp.trans fun owners' hsound _ => ?_
  exact hcalls (c := ⟨f, this, arguments, p⟩) (fun A hA => hran A (.made hmade hA)) hsound hk

/-! ### Bodies -/

/-- An activation that keeps its arguments object changes neither its own record nor the ones that
it reaches, and its machine gets later. -/
def ActivationRelation.begun (A : Activation) (ran : Activation → Prop) (owners : List Activation) :
    ActivationRelation where
  machines := .later ran owners (A.start.withArguments A.code.info).machine
  frame f := f.Begun A
  setSlot h ρ i x := h.setSlot ρ i x
  completion h _ := ⟨h.own, h.scope, h.records⟩

/-- The variable that is read or written. -/
def Event.storage? : Event → Option Storage
  | .read x _ | .write x _ _ => some x
  | .function .. | .run .. => none

/-- The events of an activation with a lineage: its machine is sound, and it finds what it
addresses. -/
structure Event.Fits (c : CompiledProgram) (ran : Activation → Prop) (L : List Activation)
    (e : Event) :
    Prop where
  regular : e.IsRegular
  sound : ∃ owners, e.state.machine.Sound ran owners
  finds : ∀ x address, e.storage? = some x → x.address? = some address →
    ∃ v B q, Finds c L x address e.state v B q

/-- An activation with a lineage begins on a sound machine, with a record of its own if it needs one
and with all records around. -/
structure Activation.Begins (K : Compilation) (ran : Activation → Prop) (owners : List Activation)
    (A : Activation) (L : List Activation) : Prop where
  lineage : Lineage K.compiled ran (A :: L)
  sound : A.start.machine.Sound ran owners
  record : A.HasRecord owners A.start.machine.records
  outer : ∀ B ∈ L, B.Holds owners A.start.machine
  arguments : A.code.info.argumentsField.isSome = true →
    A.start.machine.heap.IsArguments A.start.frame.arguments

theorem Compilation.ofSource (K : Compilation) : K.compiled.OfSource :=
  ⟨K.source, K.program, K.options, K.parsed, K.compiles⟩

/-- The arguments object has a field of the own record. -/
theorem Compilation.Stands.argumentsField_lt {K : Compilation} {bodies : List FunctionId}
    {code : FunctionCode} (h : K.Stands bodies code) {i : Nat}
    (hi : code.info.argumentsField = some i) :
    ∃ fields, code.info.layout.ownFields = some fields ∧ i < fields := by
  rw [h.argumentsField_eq] at hi
  obtain ⟨l, hl, hindex⟩ := Option.bind_eq_some_iff.mp hi
  refine ⟨_, by rw [h.ownFields_eq, hl]; rfl, ?_⟩
  exact (List.findIdx?_eq_some_iff_getElem.mp hindex).1

/-- A body begins once it keeps its arguments object. -/
def FunctionCode.entered (host : Host) : FunctionCode → Traced Completion
  | .mk info entry body => do
    Traced.silent (declareGlobals info.globals)
    let _ ← entry.traced host
    body.traced host

theorem FunctionCode.traced_eq (host : Host) (code : FunctionCode) (s : RunState) :
    code.traced host s = code.entered host (s.withArguments code.info) := by
  obtain ⟨info, entry, body⟩ := code
  have hkeep := keepArguments_eq info s
  change Traced.andThen (Traced.silent (keepArguments info)) _ s = _
  unfold Traced.andThen Traced.silent
  rw [hkeep]
  rfl

section

variable {K : Compilation} {ran : Activation → Prop} {owners : List Activation} {A : Activation}
  {L : List Activation}

namespace Activation.Begins

theorem withArguments (h : A.Begins K ran owners L) :
    (A.start.withArguments A.code.info).machine.Sound ran owners ∧
      (∀ B ∈ A :: L, B.Holds owners (A.start.withArguments A.code.info).machine) ∧
      ∀ B : Activation, B.Holds owners A.start.machine →
        B.Holds owners (A.start.withArguments A.code.info).machine := by
  obtain ⟨hsound, hA, hkept⟩ := h.sound.withArguments h.record fun i hi =>
    ⟨h.lineage.stands.argumentsField_lt hi, h.arguments (by rw [hi]; rfl)⟩
  exact ⟨hsound, List.forall_mem_cons.mpr ⟨hA, fun B hB => hkept B (h.outer B hB)⟩, hkept⟩

theorem hasRecord (h : A.Begins K ran owners L) :
    ∀ B ∈ A :: L, B.HasRecord owners A.start.machine.records :=
  List.forall_mem_cons.mpr ⟨h.record, fun B hB => (h.outer B hB).record⟩

end Activation.Begins

/-! #### What events do -/

/-- A computation goes on from a state to states that are related to themselves. -/
def ActivationRelation.StaysAt (R : ActivationRelation) (s : RunState) (x : Act α) : Prop :=
  (x s).Agree R.rel (sameResult R.rel) (x s)

namespace ActivationRelation

variable {s t : RunState}

theorem eq_of_begun (h : (begun A ran owners).rel s t) : s = t := by
  obtain ⟨f, p⟩ := s
  obtain ⟨g, q⟩ := t
  obtain ⟨hfg, -, hpq, -⟩ := h
  cases hfg
  cases hpq
  rfl

theorem rel_self (hframe : s.frame.Begun A)
    (hmachine : (A.start.withArguments A.code.info).machine.Later ran owners s.machine) :
    (begun A ran owners).rel s s :=
  ⟨rfl, hframe, rfl, hmachine⟩

/-- What changes nothing keeps the relation. -/
theorem same_of_looks {x : Act α} (hx : x.Looks) : Exec.Same (begun A ran owners).rel x x := by
  intro s t hst
  obtain rfl := eq_of_begun hst
  rcases hx s with ⟨a, ha⟩ | ⟨e, he⟩
  · rw [ha]
    exact .ok ⟨rfl, hst⟩
  · rw [he]
    exact .error hst

/-- The fields of variables may be written, since they are not those of arguments objects. -/
theorem staysAt_writeField (h : A.Begins K ran owners L) (hs : (begun A ran owners).rel s s)
    {address : FieldAddress} {v : VariableId} {l : LayoutId}
    (hkeeps : K.Keeps (bodiesOf (A :: L)) A.code.info (.field address) address v l)
    (value : Value) :
    (begun A ran owners).StaysAt s (Act.writeField address value) := by
  obtain ⟨-, hheld, -⟩ := h.withArguments
  obtain ⟨owners', hsound, hkept⟩ := hs.machine.2
  have hholds (B : Activation) (hB : B ∈ A :: L) : B.Holds owners' s.machine := hkept B (hheld B hB)
  obtain ⟨B, q, hfinds⟩ := h.lineage.finds hkeeps h.hasRecord hs.frame hholds
  have hwrite : Act.writeField address value s =
      .ok () ⟨s.frame,
        { s.machine with records := s.machine.records.set q address.index value }⟩ := by
    unfold Act.writeField
    change Exec.andThen (Act.record address.record) _ s = _
    unfold Exec.andThen
    rw [hfinds.record]
  -- the record belongs to one activation only, and there the field is not that of its arguments
  -- object
  have hvalue (C : Activation) (hC : C.Holds owners' s.machine) (hown : C.own = some q)
      (hindex : C.code.info.argumentsField = some address.index) :
        s.machine.heap.IsArguments value := by
    have hB := (hholds B hfinds.lineage).record.owner q hfinds.own
    obtain rfl : C = B := Option.some.inj ((hC.record.owner q hown).symm.trans hB)
    obtain ⟨bodies, hstands⟩ := h.lineage.stands_of_mem hfinds.lineage
    rw [hstands.argumentsField_eq, hfinds.declares, hkeeps.layout] at hindex
    exact absurd hindex (hkeeps.local rfl).2
  unfold StaysAt
  rw [hwrite]
  refine .ok ⟨rfl, rel_self hs.frame ⟨owners', hsound.setField hvalue, fun C hC => ?_⟩⟩
  exact (hkept C hC).set (hvalue C (hkept C hC))

/-- Variables may be written. -/
theorem staysAt_write (h : A.Begins K ran owners L) (hs : (begun A ran owners).rel s s)
    {x : Storage} (hx : ∃ e ∈ A.code.effects, e.storage? = some x) (value : Value) :
    (begun A ran owners).StaysAt s (x.write value) := by
  have hsame {x : Act Unit} (hx : Exec.Same (begun A ran owners).rel x x) :
      (begun A ran owners).StaysAt s x :=
    hx hs
  cases x with
  | global name =>
    refine hsame ((same_onFrame _).bind fun strict => ?_)
    refine (same_onHeap fun s => s.hasProperty _ name).bind fun found => ?_
    exact .ite (.raise _ _) (same_lift (MachineRelation.same_putOwn _ name value))
  | parameter index via =>
    refine hsame ((same_of_looks (Act.looks_argumentsObject via)).bind fun arguments => ?_)
    exact same_lift (MachineRelation.same_changeHeap fun s => .setParameter s arguments index value)
  | slot ρ index => exact hsame (same_setSlot ρ index _)
  | field address =>
    obtain ⟨e, he, hx⟩ := hx
    obtain ⟨v, l, hkeeps⟩ := h.lineage.stands.keeps he hx rfl
    exact staysAt_writeField h hs hkeeps value

/-- A function that is made takes the innermost record along. -/
theorem staysAt_makeFunction (h : A.Begins K ran owners L) (hs : (begun A ran owners).rel s s)
    {code : FunctionCode} (hmade : .function code s ∈ A.events) :
    (begun A ran owners).StaysAt s (makeFunction code) := by
  obtain ⟨-, hheld, -⟩ := h.withArguments
  have hmake : makeFunction code s = .ok (.object s.machine.heap.size)
      ⟨s.frame, { s.machine with heap := (s.machine.heap.newFunction code A.head).2 }⟩ := by
    rw [← hs.frame.head]
    rfl
  unfold StaysAt
  rw [hmake]
  refine .ok ⟨rfl, rel_self hs.frame ?_⟩
  obtain ⟨owners', hsound, hkept⟩ := hs.machine.2
  have hborn : Born K.compiled ran (A :: L) code s.machine.heap.size A.head :=
    ⟨h.lineage, A, L, rfl, ⟨s, hmade, rfl⟩, rfl⟩
  obtain ⟨hnew, hstill⟩ := hsound.newFunction K.ofSource hborn fun B hB => hkept B (hheld B hB)
  exact ⟨owners', hnew, fun B hB => hstill B (hkept B hB)⟩

/-- An event of a variable that the code uses fits. -/
theorem fits_of_effect (h : A.Begins K ran owners L) {e : Event}
    (hs : (begun A ran owners).rel e.state e.state) (hregular : e.IsRegular)
    (hx : ∀ x, e.storage? = some x → ∃ f ∈ A.code.effects, f.storage? = some x) :
    e.Fits K.compiled ran (A :: L) := by
  obtain ⟨-, hheld, -⟩ := h.withArguments
  obtain ⟨owners', hsound, hkept⟩ := hs.machine.2
  refine ⟨hregular, ⟨owners', hsound⟩, fun x address he haddress => ?_⟩
  obtain ⟨f, hf, hstorage⟩ := hx x he
  obtain ⟨v, l, hkeeps⟩ := h.lineage.stands.keeps hf hstorage haddress
  obtain ⟨B, q, hfinds⟩ := h.lineage.finds hkeeps h.hasRecord hs.frame fun B hB =>
      hkept B (hheld B hB)
  exact ⟨v, B, q, hfinds⟩

/-- A computation that an activation begins fits and keeps the relation. -/
theorem runs_begun (h : A.Begins K ran owners L) (hcalls : KeepsSound ran A.fuel)
    (hran : ∀ B, Work.Enters A.fuel (.body A.code A.start) B → ran B) {x : Caller → Run α}
    (hx : Run.Regular x) {s t : RunState} (hst : (begun A ran owners).rel s t) :
    Event.Fits K.compiled ran (A :: L) (.run x s) ∧ (.run x s ∈ A.events →
      (x (Host.within A.fuel).call s.machine).Agree (begun A ran owners).machines.rel
        (sameResult (begun A ran owners).machines.rel)
          (x (Host.within A.fuel).call t.machine)) := by
  obtain rfl := eq_of_begun hst
  refine ⟨fits_of_effect h hst hx nofun, fun hmade => ?_⟩
  exact hcalls.agree hx (fun B hB => hran B (.run hmade hB)) hst.machine.2

/-- An activation on a host whose calls leave sound machines behind. -/
def Setting.begun (h : A.Begins K ran owners L) (hcalls : KeepsSound ran A.fuel)
    (hran : ∀ B, Work.Enters A.fuel (.body A.code A.start) B → ran B) : Setting where
  relation := .begun A ran owners
  left := .within A.fuel
  right := .within A.fuel
  known e := e ∈ A.events
  event := Event.Fits K.compiled ran (A :: L)
  rounds := rfl
  runs := runs_begun h hcalls hran

/-- All effects of the code fit. -/
theorem Setting.begun_admits (h : A.Begins K ran owners L) (hcalls : KeepsSound ran A.fuel)
    (hran : ∀ B, Work.Enters A.fuel (.body A.code A.start) B → ran B) :
    (Setting.begun h hcalls hran).AdmitsAll A.code.effects := by
  intro f hf
  cases f with
  | read storage =>
    refine fun lenient => .noting fun s t hst _ => ?_
    obtain rfl := eq_of_begun hst
    refine ⟨fits_of_effect h hst trivial fun x hx => ⟨_, hf, hx⟩, ?_⟩
    exact same_of_looks (Storage.looks_read lenient storage) hst
  | write storage source =>
    refine fun v _ => .noting fun s t hst _ => ?_
    obtain rfl := eq_of_begun hst
    refine ⟨fits_of_effect h hst trivial fun x hx => ⟨_, hf, hx⟩, ?_⟩
    exact staysAt_write h hst ⟨_, hf, rfl⟩ v
  | function code =>
    refine .noting fun s t hst hknown => ?_
    obtain rfl := eq_of_begun hst
    exact ⟨fits_of_effect h hst trivial nofun, staysAt_makeFunction h hst hknown⟩

theorem Setting.follows_entered {X : Setting} : ∀ code : FunctionCode, X.AdmitsAll code.effects →
    ∃ y, X.Follows (code.entered X.left) y
  | .mk info entry body, h => by
    obtain ⟨hentry, hbody⟩ := admitsAll_append h
    have hglobals : X.Follows (Traced.silent (declareGlobals info.globals))
        (declareGlobals info.globals) :=
      .silent (IsDiagonal.same_declareGlobals _)
    exact ⟨_, hglobals.bind fun _ _ =>
      (follows_statement entry hentry).bind fun _ _ => follows_statement body hbody⟩

end ActivationRelation

/-- What happens in an activation fits, and it leaves a later machine behind. -/
theorem Activation.Begins.follows (h : A.Begins K ran owners L) (hcalls : KeepsSound ran A.fuel)
    (hran : ∀ B, Work.Enters A.fuel (.body A.code A.start) B → ran B) :
    (∀ e ∈ A.events, e.Fits K.compiled ran (A :: L)) ∧
      ∀ n, (Work.body A.code A.start).after? A.fuel = some n →
        A.start.machine.Later ran owners n := by
  obtain ⟨hsound, -, hkept⟩ := h.withArguments
  have hbegun : (ActivationRelation.begun A ran owners).rel (A.start.withArguments A.code.info)
      (A.start.withArguments A.code.info) :=
    ActivationRelation.rel_self (.withArguments A _) (.of_sound hsound)
  have htraced : A.code.traced (.within A.fuel) A.start =
      A.code.entered (.within A.fuel) (A.start.withArguments A.code.info) := A.code.traced_eq _ _
  obtain ⟨y, hfollows⟩ := ActivationRelation.Setting.follows_entered A.code
    (ActivationRelation.Setting.begun_admits h hcalls hran)
  obtain ⟨hevents, hend⟩ := hfollows hbegun fun e he => by
    change e ∈ (A.code.traced (.within A.fuel) A.start).1
    rw [htraced]
    exact he
  change ∀ e ∈ (A.code.entered (.within A.fuel) _).1, e.Fits K.compiled ran (A :: L) at hevents
  rw [← htraced] at hevents
  refine ⟨hevents, fun n hn => ?_⟩
  obtain ⟨t, ht, rfl⟩ := Option.map_eq_some_iff.mp hn
  rw [← (traced_within A.fuel A.code A.start).1, htraced] at ht
  obtain ⟨_, hrel⟩ := hend.exists_rel ht
  obtain ⟨owners', hlater, hstill⟩ := hrel.machine.2
  exact ⟨owners', hlater, fun B hB => hstill B (hkept B hB)⟩

end

end ScriptEngine
