import ScriptEngine.Proofs.Compile.ParallelStates

/-!
# Code that does the same

Two codes yield the same value on related states if their parts do.  How the parts represent their
results does not matter, since an operator computes the same from them in every representation.

## Main definitions

* `TypedCode.Alike` : codes that yield the same value.
* `Reference.Finds` : references that find corresponding places.

## Main statements

* `TypedCode.Alike.binary`, `TypedCode.Alike.conditional`, `TypedCode.Alike.sequence` : operators.
* `Reference.Finds.alike_store`, `Reference.Finds.alike_step` : writes.
-/

namespace ScriptEngine

variable {host : Host} {S S' : RunState → RunState → Prop}

/-- Two codes yield the same value and leave states related as before. -/
abbrev TypedCode.Alike (host : Host) (S : RunState → RunState → Prop) (c d : TypedCode) : Prop :=
  Exec.Same S (c.value host) (d.value host)

/-- Two codes of values yield the same. -/
abbrev Code.Alike (host : Host) (S : RunState → RunState → Prop) (c d : Code .boxed) : Prop :=
  Exec.Same S (c.eval host) (d.eval host)

/-- The codes of two properties have the same key and yield the same value. -/
inductive PropertyCode.Alike (host : Host) (S : RunState → RunState → Prop) :
    PropertyCode → PropertyCode → Prop
  | mk (key : String) {c d : Code .boxed} (h : c.Alike host S d) :
    Alike host S (.mk key c) (.mk key d)

/-- Two references find places of which something holds. -/
def Reference.Finds (host : Host) (S : RunState → RunState → Prop) (Q : Place → Place → Prop)
    (r r' : Reference) : Prop :=
  Exec.Relates S S (fun p q s t => Q p q ∧ S s t) (r.resolve host) (r'.resolve host)

/-- Two places are the same property. -/
def Place.SameProperty (p q : Place) : Prop :=
  p = q ∧ ∃ base key, p = .property base key

/-! ### Parts of code -/

theorem TypedCode.value_boxed (c : Code .boxed) :
    TypedCode.value host ⟨.boxed, c⟩ = c.eval host := by
  rw [value_mk]
  exact id_map _

namespace TypedCode.Alike

variable {c d : TypedCode}

theorem boxed (h : c.Alike host S d) : (c.inRep .boxed).Alike host S (d.inRep .boxed) := by
  rw [Code.Alike, eval_inRep_boxed, eval_inRep_boxed]
  exact h

theorem boolean (h : c.Alike host S d) :
    Exec.Same S ((c.inRep .boolean).eval host) ((d.inRep .boolean).eval host) := by
  rw [eval_inRep_boolean, eval_inRep_boolean]
  exact h.bind fun v => .pure v.toBoolean

/-- Code that yields a value of its own. -/
theorem of_code {c d : Code .boxed} (h : c.Alike host S d) :
    TypedCode.Alike host S ⟨.boxed, c⟩ ⟨.boxed, d⟩ := by
  rw [TypedCode.Alike, value_boxed, value_boxed]
  exact h

theorem logical (op : LogicalOp) {c' d' : TypedCode} (h : c.Alike host S d)
    (h' : c'.Alike host S d') :
    (logicalCode op c c').Alike host S (logicalCode op d d') := by
  rw [TypedCode.Alike, value_logicalCode, value_logicalCode]
  exact h.bind fun v => .ite h' (.pure v)

theorem conditional {test test' c' d' : TypedCode} (ht : test.Alike host S test')
    (h : c.Alike host S d) (h' : c'.Alike host S d') :
    (conditionalCode (test.inRep .boolean) c c').Alike host S
      (conditionalCode (test'.inRep .boolean) d d') := by
  rw [TypedCode.Alike, value_conditionalCode, value_conditionalCode]
  exact ht.boolean.bind fun b => .ite h h'

theorem sequence : ∀ {c d : TypedCode} {cs ds : List TypedCode}, c.Alike host S d →
    List.Forall₂ (TypedCode.Alike host S) cs ds →
      (sequenceCode c cs).Alike host S (sequenceCode d ds)
  | _, _, _, _, h, .nil => h
  | _, _, _, _, h, .cons hnext hrest => by
    rw [TypedCode.Alike, value_sequenceCode_cons, value_sequenceCode_cons]
    exact h.bind fun _ => sequence hnext hrest

end TypedCode.Alike

theorem Exec.Same.evalList {cs ds : List (Code .boxed)}
    (h : List.Forall₂ (Code.Alike host S) cs ds) :
    Exec.Same S (ScriptEngine.evalList host cs) (ScriptEngine.evalList host ds) := by
  induction h with
  | nil => exact .pure []
  | cons hc _ ih => exact hc.bind fun v => ih.bind fun vs => .pure (v :: vs)

/-! ### Places -/

namespace Reference.Finds

variable {Q Q' : Place → Place → Prop} {r r' : Reference}

theorem mono (h : r.Finds host S Q r') (hQ : ∀ p q, Q p q → Q' p q) : r.Finds host S Q' r' :=
  Exec.Relates.mono h id id fun ⟨hpq, hst⟩ => ⟨hQ _ _ hpq, hst⟩

theorem bind {α : Type} {f g : Place → Act α} (h : r.Finds host S Q r')
    (hfg : ∀ p q, Q p q → Exec.SameTo S S' (f p) (g q)) :
    Exec.SameTo S S' (r.resolve host >>= f) (r'.resolve host >>= g) :=
  Exec.Relates.bind h fun p q _ _ hpq => hfg p q hpq.1 hpq.2

theorem read (h : r.Finds host S (Place.ReadAlike S) r') (lenient : Bool) :
    Exec.Same S (r.resolve host >>= fun p => p.read lenient)
      (r'.resolve host >>= fun p => p.read lenient) :=
  h.bind fun _ _ hpq => hpq.read lenient

/-- A place is found before the value that it gets. -/
theorem store {V : Value → Prop} {x y : Act Value}
    (h : r.Finds host S (Place.WrittenAlike S S' V) r') (hxy : Exec.Same S x y)
    (hV : ∀ v, x.Yields v → V v) :
    Exec.SameTo S S' (r.resolve host >>= fun p => x >>= fun v => p.write v >>= fun _ => pure v)
      (r'.resolve host >>= fun p => y >>= fun v => p.write v >>= fun _ => pure v) := by
  refine h.bind fun p q hpq => Exec.Relates.bind (Exec.Relates.noting hxy) fun v w s t => ?_
  rintro ⟨hv, rfl, hst⟩
  exact Exec.SameTo.bind (hpq v (hV v hv)) (fun _ => Exec.Relates.pure fun hst => ⟨rfl, hst⟩) hst

theorem alike_load (h : r.Finds host S (Place.ReadAlike S) r') (lenient : Bool) :
    TypedCode.Alike host S ⟨.boxed, .load r lenient⟩ ⟨.boxed, .load r' lenient⟩ := by
  rw [TypedCode.Alike, TypedCode.value_boxed, TypedCode.value_boxed, Code.eval, Code.eval]
  exact h.read lenient

theorem alike_store {c d : Code .boxed}
    (h : r.Finds host S (Place.WrittenAlike S S fun _ => True) r') (hcd : c.Alike host S d) :
    TypedCode.Alike host S ⟨.boxed, .store r c⟩ ⟨.boxed, .store r' d⟩ := by
  rw [TypedCode.Alike, TypedCode.value_boxed, TypedCode.value_boxed, Code.eval, Code.eval]
  exact h.store hcd fun _ _ => trivial

theorem alike_delete (h : r.Finds host S (fun p q => Exec.Same S p.delete q.delete) r') :
    TypedCode.Alike host S ⟨.boolean, .delete r⟩ ⟨.boolean, .delete r'⟩ := by
  rw [TypedCode.Alike, TypedCode.value_mk, TypedCode.value_mk, Code.eval, Code.eval]
  exact Exec.Same.bind (h.bind fun _ _ hpq => hpq) fun b => .pure _

theorem assign {V : Value → Prop} (h : r.Finds host S (Place.WrittenAlike S S' V) r') {v : Value}
    (hv : V v) :
    Exec.SameTo S S' (r.resolve host >>= fun p => p.write v)
      (r'.resolve host >>= fun p => p.write v) :=
  h.bind fun _ _ hpq => hpq v hv

end Reference.Finds

/-! ### Names -/

namespace Access

variable {a b : Access}

theorem alike_load (h : (Reference.name a).Finds host S (Place.ReadAlike S) (.name b))
    (lenient : Bool) :
    (a.load lenient).Alike host S (b.load lenient) := by
  rw [TypedCode.Alike, value_load, value_load]
  exact h.read lenient

/-- The code that writes a name writes the value as it is, in both representations. -/
theorem same_store {V : Value → Prop} {c d : TypedCode}
    (h : (Reference.name a).Finds host S (Place.WrittenAlike S S' V) (.name b))
    (hcd : c.Alike host S d) (hc : ∀ v, (c.value host).Yields v → V v)
    (ha : ∀ v, V v → ∀ ρ k, a.binding.storage = .slot ρ k → ρ.Holds v)
    (hb : ∀ ρ k, b.binding.storage = .slot ρ k → ρ = .boxed) :
    Exec.SameTo S S' ((a.store c).value host) ((b.store d).value host) := by
  rw [value_store a c fun ρ k _ hbinding v hv => ha v (hc v hv) ρ k (by rw [hbinding]),
    value_store b d fun ρ k _ hbinding v _ => by
      obtain rfl := hb ρ k (by rw [hbinding])
      rfl]
  exact h.store hcd hc

end Access

/-! ### On recoded machines -/

section

variable {T : FunctionCode → FunctionCode → Prop} (hS : RunState.Recoding T S)
include hS

theorem RunState.Recoding.alike_frame {c : Code .boxed} (f : Frame → Value)
    (hc : c.eval host = Act.onFrame f) (hf : ∀ frame, f frame = f frame.outline) :
    TypedCode.Alike host S ⟨.boxed, c⟩ ⟨.boxed, c⟩ := by
  refine .of_code ?_
  rw [Code.Alike, hc]
  exact hS.same_onFrame hf

section

variable (hT : ∀ {c d}, T c d → c.Resembles d)
include hT

theorem RunState.Recoding.same_new {f : Heap → Ref × Heap} (h : Heap.Adds T f) :
    Exec.Same S (Act.lift (Run.new f)) (Act.lift (Run.new f)) :=
  hS.same_lift hT (MachineRelation.same_new h)

theorem Code.alike_regularExpression (pattern flags : String) :
    TypedCode.Alike host S ⟨.boxed, .regularExpression pattern flags⟩
      ⟨.boxed, .regularExpression pattern flags⟩ := by
  refine .of_code ?_
  rw [Code.Alike, Code.eval]
  exact hS.same_new hT (Heap.adds_newRegularExpression pattern flags)

theorem Code.alike_array {cs ds : List (Code .boxed)} (h : List.Forall₂ (Code.Alike host S) cs ds) :
    TypedCode.Alike host S ⟨.boxed, .array cs⟩ ⟨.boxed, .array ds⟩ := by
  refine .of_code ?_
  rw [Code.Alike, Code.eval, Code.eval]
  exact (Exec.Same.evalList h).bind fun values => hS.same_new hT (Heap.adds_newArray _)

theorem Exec.Same.putProperties (r : Ref) {ps qs : List PropertyCode}
    (h : List.Forall₂ (PropertyCode.Alike host S) ps qs) :
    Exec.Same S (ScriptEngine.putProperties host r ps) (ScriptEngine.putProperties host r qs) := by
  induction h with
  | nil => exact .pure ()
  | cons hp _ ih =>
    obtain ⟨key, hvalue⟩ := hp
    exact hvalue.bind fun v =>
      (hS.same_lift hT (MachineRelation.same_putOwn r key v)).bind fun _ => ih

theorem Code.alike_object {ps qs : List PropertyCode}
    (h : List.Forall₂ (PropertyCode.Alike host S) ps qs) :
    TypedCode.Alike host S ⟨.boxed, .object ps⟩ ⟨.boxed, .object qs⟩ := by
  refine .of_code ?_
  rw [Code.Alike, Code.eval, Code.eval]
  refine (hS.same_new hT Heap.adds_newObject).bind fun v => ?_
  cases v with
  | object r => exact (Exec.Same.putProperties hS hT r h).bind fun _ => .pure _
  | _ => exact .pure _

theorem Code.alike_function {f g : FunctionCode} (h : T f g) :
    TypedCode.Alike host S ⟨.boxed, .function f⟩ ⟨.boxed, .function g⟩ := by
  refine .of_code ?_
  rw [Code.Alike, Code.eval, Code.eval]
  exact hS.same_makeFunction hT (.inr h)

variable {p q : Place} (h : p.SameProperty q)
include h

theorem Place.SameProperty.readAlike : p.ReadAlike S q := by
  obtain ⟨rfl, base, key, rfl⟩ := h
  exact ⟨rfl, rfl, fun _ => hS.same_lift hT (MachineRelation.same_getProperty base key)⟩

theorem Place.SameProperty.writtenAlike (V : Value → Prop) : p.WrittenAlike S S V q := by
  obtain ⟨rfl, base, key, rfl⟩ := h
  exact fun v _ => hS.same_writeProperty hT base key v

theorem Place.SameProperty.same_delete : Exec.Same S p.delete q.delete := by
  obtain ⟨rfl, base, key, rfl⟩ := h
  exact hS.same_deleteProperty hT base key

end

/-! ### Calls -/

section

variable {hT : ∀ {c d}, T c d → c.Resembles d}
  (hcall : (MachineRelation.recoded hT).Calls host.call host.call)
include hcall

theorem RunState.Recoding.same_run {α : Type} {x : Caller → Run α} (h : Run.Regular x) :
    Exec.Same S (Act.lift (x host.call)) (Act.lift (x host.call)) :=
  hS.same_lift hT (h.same hcall)

namespace TypedCode.Alike

variable {c d c' d' : TypedCode}

theorem binary (op : BinaryOp) (h : c.Alike host S d) (h' : c'.Alike host S d') :
    (specializeBinary op c c').Alike host S (specializeBinary op d d') := by
  rw [TypedCode.Alike, value_specializeBinary, value_specializeBinary]
  exact h.bind fun x => h'.bind fun y => hS.same_run hcall (Run.regular_binary op x y)

theorem unary (op : UnaryOp) (h : c.Alike host S d) :
    (specializeUnary op c).Alike host S (specializeUnary op d) := by
  rw [TypedCode.Alike, value_specializeUnary, value_specializeUnary]
  exact h.bind fun x => hS.same_run hcall (Run.regular_unary op x)

end TypedCode.Alike

namespace Code

variable {f g : Code .boxed} {cs ds : List (Code .boxed)}

theorem alike_call (hf : f.Alike host S g) (h : List.Forall₂ (Code.Alike host S) cs ds) :
    TypedCode.Alike host S ⟨.boxed, .call f cs⟩ ⟨.boxed, .call g ds⟩ := by
  refine .of_code ?_
  rw [Code.Alike, eval, eval]
  exact hf.bind fun callee => (Exec.Same.evalList h).bind fun values =>
    hS.same_run hcall (.call callee .undefined values)

theorem alike_construct (hf : f.Alike host S g) (h : List.Forall₂ (Code.Alike host S) cs ds) :
    TypedCode.Alike host S ⟨.boxed, .construct f cs⟩ ⟨.boxed, .construct g ds⟩ := by
  refine .of_code ?_
  rw [Code.Alike, eval, eval]
  exact hf.bind fun callee => (Exec.Same.evalList h).bind fun values =>
    hS.same_run hcall (Run.regular_construct callee values)

end Code

namespace Reference.Finds

variable {r r' : Reference}

theorem alike_call {cs ds : List (Code .boxed)} (hr : r.Finds host S (Place.ReadAlike S) r')
    (h : List.Forall₂ (Code.Alike host S) cs ds) :
    TypedCode.Alike host S ⟨.boxed, .callPlace r cs⟩ ⟨.boxed, .callPlace r' ds⟩ := by
  refine .of_code ?_
  rw [Code.Alike, Code.eval, Code.eval]
  refine hr.bind fun p q hpq => (hpq.read false).bind fun f =>
    (Exec.Same.evalList h).bind fun values => ?_
  have hplace : callAtPlace host.call p f values = callAtPlace host.call q f values := by
    unfold callAtPlace
    rw [hpq.name, hpq.receiver]
  rw [hplace]
  exact hS.same_run hcall (Run.regular_callAtPlace q f values)

/-- A compound assignment of a place that takes any value. -/
theorem alike_combine (op : BinaryOp) {c d : Code .boxed}
    (hr : r.Finds host S (fun p q => p.ReadAlike S q ∧ p.WrittenAlike S S (fun _ => True) q) r')
    (h : c.Alike host S d) :
    TypedCode.Alike host S ⟨.boxed, .combine r op c⟩ ⟨.boxed, .combine r' op d⟩ := by
  refine .of_code ?_
  rw [Code.Alike, Code.eval, Code.eval]
  refine hr.bind fun p q hpq => (hpq.1.read false).bind fun old => h.bind fun v => ?_
  refine (hS.same_run hcall (Run.regular_binary op old v)).bind fun new => ?_
  exact Exec.Same.bind (hpq.2 new trivial) fun _ => .pure new

/-- A step of a place that takes numbers. -/
theorem alike_step (op : UpdateOp) (before : Bool)
    (hr : r.Finds host S (fun p q => p.ReadAlike S q ∧ p.WrittenAlike S S (·.Fits .double) q) r') :
    (Compile.stepCode op before r).Alike host S (Compile.stepCode op before r') := by
  rw [TypedCode.Alike, value_stepCode, value_stepCode]
  refine hr.bind fun p q hpq => (hpq.1.read false).bind fun old => ?_
  refine (hS.same_run hcall (Run.regular_toNumber old)).bind fun x => ?_
  exact Exec.Same.bind (hpq.2 _ ⟨_, rfl⟩) fun _ => .pure _

end Reference.Finds

theorem Reference.finds_member {o o' k k' : Code .boxed} (ho : o.Alike host S o')
    (hk : k.Alike host S k') :
    (Reference.member o k).Finds host S Place.SameProperty (.member o' k') := by
  have hsame : Exec.Same S ((member o k).resolve host) ((member o' k').resolve host) := by
    rw [resolve, resolve]
    exact ho.bind fun base => hk.bind fun key =>
      hS.same_run hcall (Run.regular_memberPlace base key)
  refine Exec.Relates.mono (Exec.Relates.noting hsame) id id ?_
  rintro p q s t ⟨hp, rfl, hst⟩
  refine ⟨⟨rfl, ?_⟩, hst⟩
  have hproperty := canBe_of_yields hp
  cases p with
  | binding => exact absurd hproperty id
  | property base key => exact ⟨base, key, rfl⟩

end

end

end ScriptEngine
