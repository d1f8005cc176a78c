import ScriptEngine.Proofs.Run.Depth

/-!
# Machines with other codes

Two machines that are the same up to the codes of functions.  A run cannot tell them apart if
activations of the codes at one place end in the same way: what happens between activations does not
depend on codes, and activations of the same code are alike anyway.

## Main definitions

* `FunctionCode.Resembles` : codes of which the same is seen without calling their functions.
* `Machine.Recoded` : machines that are the same up to codes.
* `RunState.Recoding` : relations of activations on such machines whose frames differ in slots only.
* `FunctionCode.EndsAs` : activations of two codes end in the same way.

## Main statements

* `RunState.Recoding.same_read`, `RunState.Recoding.same_write` : variables that are kept outside of
  slots.
* `FunctionCode.endsAs_self` : activations of one code.
* `calls_recoded` : calls on such machines.
-/

namespace ScriptEngine

variable {T : FunctionCode → FunctionCode → Prop} {α : Type}

/-! ### Machines -/

/-- Two codes of which the same is seen before their functions are called. -/
structure FunctionCode.Resembles (c d : FunctionCode) : Prop where
  name : c.info.name = d.info.name
  paramCount : c.info.paramCount = d.info.paramCount
  strict : c.info.strict = d.info.strict

theorem FunctionCode.Resembles.refl (c : FunctionCode) : c.Resembles c :=
  ⟨rfl, rfl, rfl⟩

/-- Two machines are the same up to the codes of functions, the codes at one place being related. -/
structure Machine.Recoded (T : FunctionCode → FunctionCode → Prop) (m n : Machine) : Prop where
  heap : Heap.Similar T m.heap n.heap
  records : m.records = n.records
  depth : m.depth = n.depth
  limit : m.limit = n.limit
  output : m.output = n.output

namespace Machine.Recoded

variable {m n : Machine}

theorem refl (m : Machine) : m.Recoded T m :=
  ⟨.refl _, rfl, rfl, rfl, rfl⟩

theorem mono {T' : FunctionCode → FunctionCode → Prop} (h : m.Recoded T n)
    (hT : ∀ {c d}, T c d → T' c d) :
    m.Recoded T' n :=
  { h with heap := h.heap.mono hT }

theorem withRecords (h : m.Recoded T n) (records : Records) :
    { m with records }.Recoded T { n with records } :=
  ⟨h.heap, rfl, h.depth, h.limit, h.output⟩

theorem withHeap (h : m.Recoded T n) {k l : Heap} (hkl : Heap.Similar T k l) :
    { m with heap := k }.Recoded T { n with heap := l } :=
  ⟨hkl, h.records, h.depth, h.limit, h.output⟩

end Machine.Recoded

/-- A frame without its slots. -/
def Frame.outline (f : Frame) : Frame :=
  { f with values := #[], doubles := #[], booleans := #[], strings := #[] }

theorem Object.Similar.defineAll {o o' : Object} (h : Object.Similar T o o')
    (properties : List (String × Value)) :
    Object.Similar T (properties.foldl (fun o p => o.defineOwn p.1 p.2 false) o)
      (properties.foldl (fun o p => o.defineOwn p.1 p.2 false) o') := by
  induction properties generalizing o o' with
  | nil => exact h
  | cons p rest ih => exact ih (h.defineOwn _ _ _)

section

variable (hT : ∀ {c d}, T c d → c.Resembles d)

/-- Machines that are the same up to codes. -/
def MachineRelation.recoded : MachineRelation where
  code := T
  rel := Machine.Recoded T
  code_name h := (hT h).name
  heap h := h.heap
  depth h := h.depth
  limit h := h.limit
  withHeap h hadvance := h.withHeap hadvance.similar
  withOutput h text := ⟨h.heap, h.records, h.depth, h.limit, congrArg (· ++ text) h.output⟩

include hT in
/-- Functions with related codes are made at the same place. -/
theorem Heap.Similar.newFunction {h k : Heap} (s : Heap.Similar T h k) {c d : FunctionCode}
    (hcd : c = d ∨ T c d) (scope : Option RecordRef) :
    (h.newFunction c scope).1 = (k.newFunction d scope).1 ∧
      Heap.Similar T (h.newFunction c scope).2 (k.newFunction d scope).2 := by
  refine ⟨s.size, s.alloc ?_⟩
  rcases hcd with rfl | hcd
  · exact .refl _
  · rw [(hT hcd).name, (hT hcd).paramCount]
    exact (Object.Similar.function scope _ _ hcd).defineAll _

end

/-! ### Activations -/

/-- A relation between activations on recoded machines whose frames have the same outline, and which
goes on to hold when the machines change. -/
structure RunState.Recoding (T : FunctionCode → FunctionCode → Prop)
    (S : RunState → RunState → Prop) :
    Prop where
  machine : ∀ {s t}, S s t → s.machine.Recoded T t.machine
  outline : ∀ {s t}, S s t → s.frame.outline = t.frame.outline
  withMachine : ∀ {s t m n}, S s t → m.Recoded T n → S ⟨s.frame, m⟩ ⟨t.frame, n⟩

namespace RunState.Recoding

variable {S : RunState → RunState → Prop} (hS : RunState.Recoding T S)

include hS

/-- What is read of frames is the same if slots do not matter for it. -/
theorem same_onFrame {f : Frame → α} (h : ∀ frame, f frame = f frame.outline) :
    Exec.Same S (Act.onFrame f) (Act.onFrame f) :=
  fun s t hst => .ok ⟨by rw [h s.frame, h t.frame, hS.outline hst], hst⟩

theorem same_onHeap {f g : Heap → α} (h : ∀ {h k}, Heap.Similar T h k → f h = g k) :
    Exec.Same S (Act.onHeap f) (Act.onHeap g) :=
  fun _ _ hst => .ok ⟨h (hS.machine hst).heap, hst⟩

theorem same_record (number : Nat) : Exec.Same S (Act.record number) (Act.record number) := by
  refine (hS.same_onFrame fun _ => rfl).bind fun r => ?_
  cases r.join with
  | some r => exact .pure r
  | none => exact .raise _ _

theorem same_readField (address : FieldAddress) :
    Exec.Same S (Act.readField address) (Act.readField address) :=
  (hS.same_record _).bind fun _ _ _ hst => .ok ⟨by rw [(hS.machine hst).records], hst⟩

theorem same_setRecords (f : Records → Records) :
    Exec.Same S (fun s => .ok () ⟨s.frame, { s.machine with records := f s.machine.records }⟩)
      (fun s => .ok () ⟨s.frame, { s.machine with records := f s.machine.records }⟩) := by
  intro s t hst
  have hmachine := hS.machine hst
  refine .ok ⟨rfl, hS.withMachine hst ?_⟩
  rw [hmachine.records]
  exact hmachine.withRecords _

theorem same_writeField (address : FieldAddress) (v : Value) :
    Exec.Same S (Act.writeField address v) (Act.writeField address v) :=
  (hS.same_record _).bind fun r => hS.same_setRecords (·.set r address.index v)

theorem same_argumentsObject (via : Option FieldAddress) :
    Exec.Same S (Act.argumentsObject via) (Act.argumentsObject via) := by
  cases via with
  | none => exact hS.same_onFrame fun _ => rfl
  | some address => exact hS.same_readField address

/-- A variable that is kept in no slot is read. -/
theorem same_read (lenient : Bool) {x : Storage} (hx : ∀ ρ index, x ≠ .slot ρ index) :
    Exec.Same S (x.read lenient) (x.read lenient) := by
  cases x with
  | global name =>
    refine (hS.same_onHeap fun s => s.hasProperty _ name).bind fun found => .ite ?_ ?_
    · exact hS.same_onHeap fun s => s.get _ name
    · exact .ite (.pure _) (.raise _ _)
  | parameter index via =>
    exact (hS.same_argumentsObject via).bind fun arguments => hS.same_onHeap fun s =>
      s.parameter arguments index
  | slot ρ index => exact absurd rfl (hx ρ index)
  | field address => exact hS.same_readField address

section

variable (hT : ∀ {c d}, T c d → c.Resembles d)

theorem same_lift {x y : Run α} (h : (MachineRelation.recoded hT).Same x y) :
    Exec.Same S (Act.lift x) (Act.lift y) := by
  rintro ⟨f, m⟩ ⟨g, n⟩ hst
  have hxy := h (hS.machine hst)
  unfold Act.lift
  dsimp only at hxy ⊢
  generalize x m = p at hxy ⊢
  generalize y n = q at hxy ⊢
  cases hxy with
  | ok hQ => exact .ok ⟨hQ.1, hS.withMachine hst hQ.2⟩
  | error hE => exact .error (hS.withMachine hst hE)
  | exhausted => exact .exhausted

include hT

/-- A variable that is kept in no slot is written. -/
theorem same_write (v : Value) {x : Storage} (hx : ∀ ρ index, x ≠ .slot ρ index) :
    Exec.Same S (x.write v) (x.write v) := by
  cases x with
  | global name =>
    refine (hS.same_onFrame fun _ => rfl).bind fun strict => ?_
    refine (hS.same_onHeap fun s => s.hasProperty _ name).bind fun found => .ite (.raise _ _) ?_
    exact hS.same_lift hT (MachineRelation.same_putOwn _ name v)
  | parameter index via =>
    refine (hS.same_argumentsObject via).bind fun arguments => ?_
    exact hS.same_lift hT (MachineRelation.same_changeHeap fun s =>
      .setParameter s arguments index v)
  | slot ρ index => exact absurd rfl (hx ρ index)
  | field address => exact hS.same_writeField address v

theorem same_makeFunction {c d : FunctionCode} (hcd : c = d ∨ T c d) :
    Exec.Same S (makeFunction c) (makeFunction d) := by
  refine (hS.same_onFrame (f := Frame.head) fun _ => rfl).bind fun scope s t hst => ?_
  have hmachine := hS.machine hst
  obtain ⟨href, hsimilar⟩ := hmachine.heap.newFunction hT hcd scope
  exact .ok ⟨congrArg Value.object href, hS.withMachine hst (hmachine.withHeap hsimilar)⟩

theorem same_writeProperty (base : Value) (key : String) (v : Value) :
    Exec.Same S ((Place.property base key).write v) ((Place.property base key).write v) :=
  (hS.same_onFrame fun _ => rfl).bind fun _ =>
    hS.same_lift hT (MachineRelation.same_putProperty _ _ _ _)

theorem same_deleteProperty (base : Value) (key : String) :
    Exec.Same S (Place.property base key).delete (Place.property base key).delete :=
  (hS.same_onFrame fun _ => rfl).bind fun _ =>
    hS.same_lift hT (MachineRelation.same_deleteProperty _ _ _)

theorem same_declareGlobals : ∀ names : List String,
    Exec.Same S (declareGlobals names) (declareGlobals names)
  | [] => .pure _
  | name :: rest => by
    unfold declareGlobals
    refine (hS.same_onHeap fun s => s.hasProperty _ name).bind fun found => ?_
    cases found with
    | true => exact same_declareGlobals rest
    | false =>
      exact (hS.same_lift hT (MachineRelation.same_putOwn _ _ _)).bind fun _ =>
        same_declareGlobals rest

end

/-- An activation keeps its arguments object. -/
theorem same_keepArguments {info info' : FunctionInfo}
    (hfield : info.argumentsField = info'.argumentsField)
    (hslot : ∀ v, Exec.Same S (info.slotArguments v) (info'.slotArguments v)) :
    Exec.Same S (keepArguments info) (keepArguments info') := by
  refine (hS.same_onFrame (f := Frame.arguments) fun _ => rfl).bind fun arguments => ?_
  refine (hS.same_onFrame (f := Frame.own) fun _ => rfl).bind fun own => ?_
  rw [hfield]
  cases info'.argumentsField with
  | none => exact hslot arguments
  | some field =>
    cases own with
    | none => exact hslot arguments
    | some r => exact (hS.same_setRecords (·.set r field arguments)).bind fun _ => hslot arguments

end RunState.Recoding

/-! ### Activations of one code -/

section

variable (hT : ∀ {c d}, T c d → c.Resembles d)

/-- Activations with the same frame on recoded machines. -/
def ActivationRelation.recoded : ActivationRelation where
  machines := .recoded hT
  frame _ := True
  setSlot _ _ _ _ := trivial
  completion _ _ := trivial

theorem ActivationRelation.recoding_recoded :
    RunState.Recoding T (ActivationRelation.recoded hT).rel where
  machine h := h.machine
  outline h := congrArg Frame.outline h.same
  withMachine h hmn := ⟨h.same, trivial, hmn⟩

/-- Runs of one code on a host whose calls do the same on recoded machines. -/
def ActivationRelation.Setting.recoded {host : Host}
    (hcall : (MachineRelation.recoded hT).Calls host.call host.call) : ActivationRelation.Setting :=
  .onHost host (.recoded hT) (fun _ => True) fun hx _ _ hst => ⟨trivial, hx.same hcall hst.machine⟩

namespace ActivationRelation

variable {hT} {host : Host} (hcall : (MachineRelation.recoded hT).Calls host.call host.call)

theorem Setting.admits_recoded (e : Effect) : (Setting.recoded hT hcall).Admits e := by
  have hS := recoding_recoded hT
  have hslot {x : Storage} (hx : ¬ ∃ ρ index, x = .slot ρ index) (ρ : Rep) (index : Nat) :
      x ≠ .slot ρ index :=
    fun h => hx ⟨ρ, index, h⟩
  cases e with
  | read x =>
    refine fun lenient => .noting fun s t hst _ => ⟨trivial, ?_⟩
    by_cases hx : ∃ ρ index, x = .slot ρ index
    · obtain ⟨ρ, index, rfl⟩ := hx
      exact same_onFrame (fun f => ρ.box (f.slot ρ index)) hst
    · exact hS.same_read lenient (hslot hx) hst
  | write x source =>
    refine fun v _ => .noting fun s t hst _ => ⟨trivial, ?_⟩
    by_cases hx : ∃ ρ index, x = .slot ρ index
    · obtain ⟨ρ, index, rfl⟩ := hx
      exact same_setSlot ρ index _ hst
    · exact hS.same_write hT v (hslot hx) hst
  | function f => exact .noting fun s t hst _ => ⟨trivial, hS.same_makeFunction hT (.inl rfl) hst⟩

/-- A body does the same on recoded machines. -/
theorem follows_recoded : ∀ code : FunctionCode,
    (Setting.recoded hT hcall).Follows (code.traced host) (code.exec host)
  | .mk info entry body => by
    have hS := recoding_recoded hT
    have hslot (v : Value) : Exec.Same (ActivationRelation.recoded hT).rel (info.slotArguments v)
        (info.slotArguments v) := by
      unfold FunctionInfo.slotArguments
      cases info.argumentsSlot with
      | some slot => exact same_setSlot _ _ _
      | none => exact .pure _
    refine Traced.Follows.bind (.silent (hS.same_keepArguments rfl hslot)) fun _ _ => ?_
    refine Traced.Follows.bind (.silent (hS.same_declareGlobals hT _)) fun _ _ => ?_
    exact (Setting.follows_statement entry fun e _ => Setting.admits_recoded hcall e).bind
      fun _ _ =>
      Setting.follows_statement body fun e _ => Setting.admits_recoded hcall e

end ActivationRelation

end

/-! ### Calls -/

/-- Activations of two codes on recoded machines end in the same way. -/
def FunctionCode.EndsAs (T : FunctionCode → FunctionCode → Prop) (host : Host)
    (c d : FunctionCode) : Prop :=
  ∀ ⦃m n : Machine⦄, m.Recoded T n → ∀ this callee arguments scope,
    (c.exec host (m.enterFrame c.info this callee arguments scope)).Agree
      (fun s t => s.machine.Recoded T t.machine)
      (fun p q s t => p.callValue = q.callValue ∧ s.frame.completion = t.frame.completion ∧
        s.machine.Recoded T t.machine)
      (d.exec host (n.enterFrame d.info this callee arguments scope))

section

variable {host : Host} {c d : FunctionCode} (h : c.EndsAs T host d)
include h

/-- The frames of activations that end in the same way. -/
theorem FunctionCode.EndsAs.relates_inFrame (this callee arguments : Value)
    (scope : Option RecordRef) :
    Exec.Relates (Machine.Recoded T) (Machine.Recoded T)
      (fun p q m n => p.1.callValue = q.1.callValue ∧ p.2.completion = q.2.completion ∧
        m.Recoded T n)
      (inFrame (·.enterFrame c.info this callee arguments scope) (c.exec host))
      (inFrame (·.enterFrame d.info this callee arguments scope) (d.exec host)) := by
  intro m n hmn
  have hend := h hmn this callee arguments scope
  unfold inFrame
  generalize c.exec host _ = p at hend ⊢
  generalize d.exec host _ = q at hend ⊢
  cases hend with
  | ok hQ => exact .ok hQ
  | error hE => exact .error hE
  | exhausted => exact .exhausted

/-- Scripts whose activations end in the same way. -/
theorem FunctionCode.EndsAs.same_runProgram :
    Exec.Same (Machine.Recoded T) (c.runProgram host) (d.runProgram host) :=
  (h.relates_inFrame (.object Intrinsic.global.ref) .undefined .undefined none).bind
    fun _ _ _ _ hQ => .ok hQ.2

end

section

variable (hT : ∀ {c d}, T c d → c.Resembles d) {host : Host} {fuel : Nat}

/-- Activations of one code end in the same way. -/
theorem FunctionCode.endsAs_self
    (hcall : (MachineRelation.recoded hT).Calls (callWithin fuel) (callWithin fuel))
    (c : FunctionCode) :
    c.EndsAs T (.within fuel) c := by
  intro m n hmn this callee arguments scope
  have henter : (ActivationRelation.recoded hT).rel
      (m.enterFrame c.info this callee arguments scope)
      (n.enterFrame c.info this callee arguments scope) := by
    unfold Machine.enterFrame
    rw [hmn.records]
    exact ⟨rfl, trivial, hmn.withRecords _⟩
  obtain ⟨-, hend⟩ := @ActivationRelation.follows_recoded T hT (.within fuel) hcall c _ _ henter
      fun _ _ => trivial
  rw [(traced_within fuel c _).1] at hend
  exact hend.mono (fun h => h.machine) fun ⟨hvalue, h⟩ =>
    ⟨congrArg Completion.callValue hvalue, congrArg Frame.completion h.same, h.machine⟩

variable {c d : FunctionCode} (hagree : c.EndsAs T host d)

include hagree in
/-- The activations of functions with codes that end in the same way. -/
theorem same_invoke_recoded (hcd : c.Resembles d) (scope : Option RecordRef) (callee : Ref)
    (this : Value) (arguments : List Value) :
    (MachineRelation.recoded hT).Same (c.invoke host scope callee this arguments)
    (d.invoke host scope callee this arguments) := by
  unfold FunctionCode.invoke
  dsimp only
  rw [hcd.strict, hcd.paramCount]
  refine (same_effectiveThis _ this).bind fun this => ?_
  refine (MachineRelation.same_new (Heap.adds_newArguments _ _ _)).bind fun arguments => ?_
  exact (hagree.relates_inFrame this (.object callee) arguments scope).bind fun _ _ _ _ hQ =>
    .ok ⟨hQ.1, hQ.2.2⟩

/-- Calls on recoded machines do the same if the activations that they enter end in the same way. -/
theorem same_callWith_recoded (hcall : (MachineRelation.recoded hT).Calls host.call host.call)
    (hself : ∀ c : FunctionCode, c.EndsAs T host c) (hagree : ∀ {c d}, T c d → c.EndsAs T host d)
    (callee this : Value) (arguments : List Value) :
    (MachineRelation.recoded hT).Same (callWith host callee this arguments)
      (callWith host callee this arguments) := by
  refine Exec.Relates.bind (MachineRelation.relates_callable callee "a function") ?_
  rintro ⟨r, f⟩ ⟨q, g⟩ m n h
  obtain rfl : r = q := h.ref
  refine MachineRelation.same_nested (Q := .recoded hT) ?_ ?_ ?_ h.rel
  · cases h.similar with
    | refl f =>
      cases f with
      | script code scope =>
        exact same_invoke_recoded hT (hself code) (.refl code) scope r this arguments
      | native f => exact (Run.regular_native f this arguments).same hcall
    | script scope hcode =>
      exact same_invoke_recoded hT (hagree hcode) (hT hcode) scope r this arguments
  · exact fun hmn => ⟨hmn.heap, hmn.records, congrArg (· + 1) hmn.depth, hmn.limit, hmn.output⟩
  · exact fun hmn => ⟨hmn.heap, hmn.records, congrArg (· - 1) hmn.depth, hmn.limit, hmn.output⟩

/-- Calls do the same on recoded machines if activations of related codes end in the same way as
long as the calls that they make do the same. -/
theorem calls_recoded
    (h : ∀ fuel, (MachineRelation.recoded hT).Calls (callWithin fuel) (callWithin fuel) →
    ∀ {c d}, T c d → c.EndsAs T (.within fuel) d) (fuel : Nat) :
    (MachineRelation.recoded hT).Calls (callWithin fuel) (callWithin fuel) := by
  induction fuel with
  | zero => exact fun _ _ _ => .exhaust
  | succ fuel ih =>
    exact @same_callWith_recoded T hT (.within fuel) ih (FunctionCode.endsAs_self hT ih) (h fuel ih)

end

end ScriptEngine
