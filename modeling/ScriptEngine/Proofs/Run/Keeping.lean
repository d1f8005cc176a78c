import ScriptEngine.Proofs.Run.Calling
import ScriptEngine.Proofs.Run.Closed

/-!
# Computations that make calls on closed machines

Conversions, operators and native functions keep machines closed if the calls that they make do.
Calls are only made of values of the heap, on such values, and on closed machines.

## Main definitions

* `Caller.Keeps` : callers that keep closed machines closed.
* `Run.KeepsCalling` : computations that keep closed machines closed with any such caller.
* `Call.Closed` : calls of values of a closed heap.

## Main statements

* `Run.keeps_binary`, `Run.keeps_native`, `Run.keeps_construct` : operators, native functions and
  the operator `new`.
* `Run.KeepsCalling.call_closed` : the calls that a computation makes are closed.
-/

namespace ScriptEngine

variable {α β : Type}

/-- The calls of values of a closed machine keep it closed. -/
def Caller.Keeps (call : Caller) : Prop :=
  ∀ ⦃n f this arguments⦄, f.Below n → this.Below n → ListBelow n arguments →
    (call f this arguments).Keeps n Value.Below

/-- A computation that keeps closed machines closed if its calls do. -/
def Run.KeepsCalling (n : Nat) (x : Caller → Run α) : Prop :=
  ∀ call, Caller.Keeps call → (x call).Keeps n Anything

/-- A place is a variable or belongs to a value that is primitive or among the first `n` objects. -/
def Place.Below (n : Nat) : Place → Prop
  | .binding .. => True
  | .property base _ => base.Below n

theorem Place.Below.mono {n k : Nat} {p : Place} (h : p.Below n) (hnk : n ≤ k) : p.Below k := by
  cases p with
  | binding name b => trivial
  | property base key => exact Value.Below.mono h hnk

theorem Place.Below.receiver {n : Nat} {p : Place} (h : p.Below n) : p.receiver.Below n := by
  cases p with
  | binding name b => trivial
  | property base key => exact h

theorem Rep.Below.mono {ρ : Rep} {n k : Nat} {x : ρ.Carrier} (h : ρ.Below n x) (hnk : n ≤ k) :
    ρ.Below k x :=
  Value.Below.mono h hnk

namespace Run

variable {n : Nat} {call : Caller} (hcall : call.Keeps)

/-! ### Conversions -/

include hcall

theorem keeps_tryMethod {r : Ref} (hr : r < n) (name : String) :
    (tryMethod call r name).Keeps n fun k v => ∀ w ∈ v, w.Below k := by
  refine (keeps_onHeap fun c _ => c.get r name).bind fun f k hk hf => ?_
  refine (keeps_look _).bind fun _ l hl _ => .ite ?_ (.pure fun _ _ => nofun)
  have hthis : (Value.object r).Below l := Nat.lt_of_lt_of_le hr (Nat.le_trans hk hl)
  refine (hcall (hf.mono hl) hthis .nil).bind fun v k _ hv => .pure fun l hl w hw => ?_
  split at hw
  · cases hw
  · cases hw
    exact hv.mono hl

theorem keeps_toPrimitive {v : Value} (hv : v.Below n) (hint : Hint) :
    (toPrimitive call v hint).Keeps n Value.Below := by
  cases v with
  | object r =>
    refine (Exec.Keeps.firstResult (Q := Value.Below) Value.Below.mono hint.methods fun name _ =>
      keeps_tryMethod hcall hv name).bind fun p k _ hp => ?_
    cases p with
    | some p => exact .pure fun l hl => (hp p rfl).mono hl
    | none => exact .raise _ _
  | _ => exact .pure fun _ _ => trivial

theorem keeps_toNumber {v : Value} (hv : v.Below n) : (toNumber call v).Keeps n Anything :=
  (keeps_toPrimitive hcall hv .number).bind fun _ _ _ _ => .pure fun _ _ => trivial

theorem keeps_toText {v : Value} (hv : v.Below n) : (toText call v).Keeps n Anything :=
  (keeps_toPrimitive hcall hv .string).bind fun _ _ _ _ => .pure fun _ _ => trivial

theorem keeps_convert (ρ : Rep) {v : Value} (hv : v.Below n) :
    (convert call ρ v).Keeps n ρ.Below := by
  cases ρ with
  | double => exact (keeps_toNumber hcall hv).mono fun _ _ => trivial
  | boolean => exact .pure fun _ _ => trivial
  | string => exact (keeps_toText hcall hv).mono fun _ _ => trivial
  | boxed => exact .pure fun _ hk => Value.Below.mono hv hk

/-! ### Operators -/

section Operators

variable {x y : Value} (hx : x.Below n) (hy : y.Below n)

include hx hy

theorem keeps_looselyEqual : (looselyEqual call x y).Keeps n Anything := by
  have hleft := keeps_toPrimitive hcall hx .default
  have hright := keeps_toPrimitive hcall hy .default
  unfold looselyEqual
  split
  · exact .pure fun _ _ => trivial
  · exact .ite (.pure fun _ _ => trivial) (hleft.bind fun _ _ _ _ => .pure fun _ _ => trivial)
  · exact .ite (.pure fun _ _ => trivial) (hright.bind fun _ _ _ _ => .pure fun _ _ => trivial)
  · exact .pure fun _ _ => trivial

theorem keeps_lessThan (leftFirst : Bool) : (lessThan call x y leftFirst).Keeps n Anything := by
  have hleft {k : Nat} (hk : n ≤ k) := keeps_toPrimitive hcall (hx.mono hk) .number
  have hright {k : Nat} (hk : n ≤ k) := keeps_toPrimitive hcall (hy.mono hk) .number
  unfold lessThan
  dsimp only
  refine .ite ?_ ?_
  · refine (hleft (Nat.le_refl n)).bind fun p k hk _ => (hright hk).bind fun q _ _ _ => ?_
    refine (Exec.Keeps.any _).bind fun pq _ _ _ => ?_
    obtain ⟨p, q⟩ := pq
    dsimp only
    split <;> exact .pure fun _ _ => trivial
  · refine (hright (Nat.le_refl n)).bind fun q k hk _ => (hleft hk).bind fun p _ _ _ => ?_
    refine (Exec.Keeps.any _).bind fun pq _ _ _ => ?_
    obtain ⟨p, q⟩ := pq
    dsimp only
    split <;> exact .pure fun _ _ => trivial

theorem keeps_compare (r : Relation) : (compare call r x y).Keeps n Anything := by
  unfold compare
  exact .ite ((keeps_lessThan hcall hy hx false).bind fun _ _ _ _ => .pure fun _ _ => trivial)
    ((keeps_lessThan hcall hx hy true).bind fun _ _ _ _ => .pure fun _ _ => trivial)

theorem keeps_equal (e : Equality) : (equal call e x y).Keeps n Anything := by
  unfold equal
  refine .ite ((Exec.Keeps.any _).bind fun _ _ _ _ => .pure fun _ _ => trivial) ?_
  exact (keeps_looselyEqual hcall hx hy).bind fun _ _ _ _ => .pure fun _ _ => trivial

theorem keeps_membership : (membership call x y).Keeps n Anything := by
  cases y with
  | object r =>
    exact (keeps_toText hcall hx).bind fun key k hk _ => keeps_hasProperty (hy.mono hk) key
  | _ => exact (keeps_display x).bind fun _ _ _ _ => .raise _ _

theorem keeps_sum : (sum call x y).Keeps n Value.Below := by
  refine (keeps_toPrimitive hcall hx .default).bind fun p k hk _ => ?_
  refine (keeps_toPrimitive hcall (hy.mono hk) .default).bind fun q _ _ _ => ?_
  split <;> exact .pure fun _ _ => trivial

theorem keeps_numeric (op : NumericOp) : (numeric call op x y).Keeps n Anything :=
  (keeps_toNumber hcall hx).bind fun _ _ hk _ =>
    (keeps_toNumber hcall (hy.mono hk)).bind fun _ _ _ _ => .pure fun _ _ => trivial

/-- Binary operators keep machines closed. -/
theorem keeps_binary (op : BinaryOp) : (binary call op x y).Keeps n Value.Below := by
  unfold binary
  split
  · exact keeps_sum hcall hx hy
  · exact (keeps_numeric hcall hx hy _).bind fun _ _ _ _ => .pure fun _ _ => trivial
  · exact (keeps_compare hcall hx hy _).bind fun _ _ _ _ => .pure fun _ _ => trivial
  · exact (keeps_equal hcall hx hy _).bind fun _ _ _ _ => .pure fun _ _ => trivial
  · exact (keeps_membership hcall hx hy).bind fun _ _ _ _ => .pure fun _ _ => trivial
  · exact (keeps_instanceOf x hy).bind fun _ _ _ _ => .pure fun _ _ => trivial

end Operators

/-- Unary operators keep machines closed. -/
theorem keeps_unary (op : UnaryOp) {v : Value} (hv : v.Below n) :
    (unary call op v).Keeps n Value.Below := by
  cases op with
  | minus | plus | bitwiseNot =>
    exact (keeps_toNumber hcall hv).bind fun _ _ _ _ => .pure fun _ _ => trivial
  | typeOf => exact (keeps_look _).bind fun _ _ _ _ => .pure fun _ _ => trivial
  | logicalNot | void | delete => exact .pure fun _ _ => trivial

theorem keeps_unaryForm {ρ σ : Rep} (form : UnaryForm ρ σ) {x : ρ.Carrier} (hx : ρ.Below n x) :
    (form.apply call x).Keeps n σ.Below := by
  cases form with
  | convert ρ σ => exact keeps_convert hcall σ hx
  | negate | complement | not | void ρ => exact .pure fun _ _ => trivial
  | typeOf ρ => exact (keeps_look (·.typeName (ρ.box x))).mono fun _ _ => trivial
  | object => exact keeps_toObject hx
  | dynamic op => exact keeps_unary hcall op hx

theorem keeps_binaryForm {ρ σ τ : Rep} (form : BinaryForm ρ σ τ) {x : ρ.Carrier} {y : σ.Carrier}
    (hx : ρ.Below n x) (hy : σ.Below n y) : (form.apply call x y).Keeps n τ.Below := by
  cases form with
  | numeric op => exact (keeps_numeric hcall hx hy op).mono fun _ _ => trivial
  | compare r => exact (keeps_compare hcall hx hy r).mono fun _ _ => trivial
  | equal e => exact (keeps_equal hcall hx hy e).mono fun _ _ => trivial
  | concatenateValues =>
    refine (keeps_toPrimitive hcall hx .default).bind fun p k hk _ => ?_
    exact (keeps_toPrimitive hcall (Value.Below.mono hy hk) .default).bind fun q _ _ _ =>
      .pure fun _ _ => trivial
  | membership => exact (keeps_membership hcall hx hy).mono fun _ _ => trivial
  | instanceOf => exact (keeps_instanceOf _ hy).mono fun _ _ => trivial
  | dynamic op => exact keeps_binary hcall hx hy op
  | numbers | compareNumbers | compareStrings | equalNumbers | equalBooleans | equalStrings
  | concatenate =>
    exact .pure fun _ _ => trivial

/-! ### Native functions -/

omit hcall in
theorem below_argument {arguments : List Value} (ha : ListBelow n arguments) (i : Nat) :
    (Native.argument arguments i).Below n := by
  unfold Native.argument
  cases hi : arguments[i]? with
  | none => trivial
  | some v => exact ha v (List.mem_of_getElem? hi)

theorem keeps_textOr (missing : String) {v : Value} (hv : v.Below n) :
    (Native.textOr call missing v).Keeps n Anything := by
  cases v with
  | undefined => exact .pure fun _ _ => trivial
  | _ => exact keeps_toText hcall hv

theorem keeps_elementTexts : ∀ {n : Nat} {values : List Value}, ListBelow n values →
    (Native.elementTexts call values).Keeps n Anything
  | _, [], _ => .pure fun _ _ => trivial
  | n, v :: rest, h => by
    obtain ⟨hv, hrest⟩ := List.forall_mem_cons.mp h
    have hrest {k : Nat} (hk : n ≤ k) := keeps_elementTexts (ListBelow.mono hrest hk)
    unfold Native.elementTexts
    refine .ite ?_ ?_
    · refine (Exec.Keeps.any _).bind fun text k hk _ => ?_
      exact (hrest hk).bind fun _ _ _ _ => .pure fun _ _ => trivial
    · refine (keeps_toText hcall hv).bind fun text k hk _ => ?_
      exact (hrest hk).bind fun _ _ _ _ => .pure fun _ _ => trivial

theorem keeps_runJoin (this : Value) {separator : Value} (hs : separator.Below n) :
    (Native.runJoin call this separator).Keeps n Value.Below := by
  refine (keeps_receiver this "join").bind fun r k hk _ => ?_
  have hrest (l : Nat) (separator : String) : (do
      let values ← onHeap fun h => (Native.elements (h.object r)).toList
      let texts ← Native.elementTexts call values
      return Value.string (separator.intercalate texts)).Keeps l Value.Below := by
    have helements : (onHeap fun h => (Native.elements (h.object r)).toList).Keeps l ListBelow :=
      keeps_onHeap fun c _ v hv => (c.object r).elements v (Array.mem_toList_iff.mp hv)
    refine helements.bind fun values _ _ hvalues => ?_
    exact (keeps_elementTexts hcall hvalues).bind fun _ _ _ _ => .pure fun _ _ => trivial
  cases separator with
  | undefined => exact (Exec.Keeps.any _).bind fun s l _ _ => hrest l s
  | _ => exact (keeps_toText hcall (hs.mono hk)).bind fun s l _ _ => hrest l s

theorem keeps_runHasOwnProperty {this : Value} (ht : this.Below n) {arguments : List Value}
    (ha : ListBelow n arguments) :
    (Native.runHasOwnProperty call this arguments).Keeps n Value.Below := by
  refine (keeps_toText hcall (below_argument ha 0)).bind fun key k hk _ => ?_
  refine (keeps_toObject (ht.mono hk)).bind fun o _ _ _ => ?_
  cases o with
  | object r => exact (keeps_look _).bind fun _ _ _ _ => .pure fun _ _ => trivial
  | _ => exact .pure fun _ _ => trivial

theorem keeps_runErrorToString (this : Value) :
    (Native.runErrorToString call this).Keeps n Value.Below := by
  cases this with
  | object r =>
    refine (keeps_onHeap fun c _ => c.get r "name").bind fun name _ _ hname => ?_
    refine (keeps_textOr hcall _ hname).bind fun name _ _ _ => ?_
    refine (keeps_onHeap fun c _ => c.get r "message").bind fun message _ _ hmessage => ?_
    exact (keeps_textOr hcall _ hmessage).bind fun message _ _ _ => .pure fun _ _ => trivial
  | _ => exact .raise _ _

omit hcall in
theorem keeps_runPush (this : Value) {arguments : List Value} (ha : ListBelow n arguments) :
    (Native.runPush this arguments).Keeps n Value.Below := by
  refine (keeps_receiver this "push").bind fun r k hk _ => ?_
  refine (keeps_changeHeap fun c hle => c.update r (.changeElements _) fun ho => ?_).bind
    fun _ _ _ _ => ?_
  · refine ho.changeElements fun hvalues => ?_
    rw [List.foldl_push_eq_append']
    exact hvalues.append (.ofList (ha.mono (Nat.le_trans hk hle)))
  · exact (keeps_look _).bind fun _ _ _ _ => .pure fun _ _ => trivial

omit hcall in
theorem keeps_runPop (this : Value) : (Native.runPop this).Keeps n Value.Below := by
  refine (keeps_receiver this "pop").bind fun r _ _ _ => ?_
  have hlast : (onHeap fun h => (Native.elements (h.object r)).back?.getD .undefined).Keeps n
      Value.Below := by
    refine keeps_onHeap fun {h} c _ => ?_
    cases hback : (Native.elements (h.object r)).back? with
    | none => trivial
    | some v => exact (c.object r).elements v (Array.mem_of_back? hback)
  refine (hlast.weaken ‹_›).bind fun last k _ hv => ?_
  refine (keeps_changeHeap fun c _ => c.update r (.changeElements _) fun ho =>
    ho.changeElements .pop).bind
      fun _ _ hk _ => ?_
  exact .pure fun _ hle => hv.mono (Nat.le_trans hk hle)

/-- Native functions keep machines closed. -/
theorem keeps_native (f : Native) {this : Value} (ht : this.Below n) {arguments : List Value}
    (ha : ListBelow n arguments) : (f.run call this arguments).Keeps n Value.Below := by
  cases f with
  | functionPrototype => exact .pure fun _ _ => trivial
  | object => exact .ite (keeps_new fun c _ => c.newObject) (keeps_toObject (below_argument ha 0))
  | objectToString => exact (keeps_look _).bind fun _ _ _ _ => .pure fun _ _ => trivial
  | objectValueOf => exact keeps_toObject ht
  | hasOwnProperty => exact keeps_runHasOwnProperty hcall ht ha
  | function => exact .raise _ _
  | functionCall => exact hcall ht (below_argument ha 0) fun v hv => ha v (List.mem_of_mem_tail hv)
  | functionApply =>
    refine (keeps_listOf _).bind fun list k hk hlist => ?_
    exact hcall (ht.mono hk) ((below_argument ha 0).mono hk) hlist
  | functionToString => exact keeps_runFunctionToString this
  | array => exact keeps_runArray ha
  | arrayIsArray => exact (keeps_look _).bind fun _ _ _ _ => .pure fun _ _ => trivial
  | arrayPush => exact keeps_runPush this ha
  | arrayPop => exact keeps_runPop this
  | arrayJoin => exact keeps_runJoin hcall this (below_argument ha 0)
  | arrayToString => exact keeps_runJoin hcall this (show Value.Below n .undefined from trivial)
  | error kind =>
    refine (keeps_textOr hcall "" (below_argument ha 0)).bind fun _ _ _ _ => ?_
    exact keeps_new fun c _ => c.newError kind _
  | errorToString => exact keeps_runErrorToString hcall this
  | consoleLog =>
    refine (keeps_look _).bind fun line _ _ _ => ?_
    exact (keeps_write _).bind fun _ _ _ _ => .pure fun _ _ => trivial

/-! ### Functions -/

theorem keeps_memberPlace {base key : Value} (hb : base.Below n) (hk : key.Below n) :
    (memberPlace call base key).Keeps n Place.Below := by
  refine .ite ((keeps_display key).bind fun _ _ _ _ => .raise _ _) ?_
  exact (keeps_toText hcall hk).bind fun _ _ hle _ => .pure fun _ hle' =>
    hb.mono (Nat.le_trans hle hle')

theorem keeps_callAtPlace {place : Place} (hp : place.Below n) {f : Value} (hf : f.Below n)
    {arguments : List Value} (ha : ListBelow n arguments) :
    (callAtPlace call place f arguments).Keeps n Value.Below :=
  (keeps_look _).bind fun _ _ hk _ =>
    .ite (hcall (hf.mono hk) (hp.mono hk).receiver (ha.mono hk)) (.raise _ _)

/-- The prototype of what a function makes with `new`. -/
def prototypeOf (r : Ref) (h : Heap) : Ref :=
  match h.get r "prototype" with
  | .object p => p
  | _ => Intrinsic.objectPrototype.ref

/-- The operator `new` keeps machines closed: the new object inherits from an object of the heap. -/
theorem keeps_construct {callee : Value} (hc : callee.Below n) {arguments : List Value}
    (ha : ListBelow n arguments) : (construct call callee arguments).Keeps n Value.Below := by
  refine (keeps_callable hc "a constructor").bind fun rf k hk hfound => ?_
  obtain ⟨r, f⟩ := rf
  cases f with
  | native f => exact hcall (hc.mono hk) trivial (ha.mono hk)
  | script code scope =>
    refine (keeps_changeHeap fun c hle => c.ensurePrototype (Nat.lt_of_lt_of_le hfound.1 hle)).bind
      fun _ _ hk₁ _ => ?_
    have hprototype (l : Nat) : (onHeap (prototypeOf r)).Keeps l fun k p => p < k := by
      refine keeps_onHeap fun {h} c _ => ?_
      unfold prototypeOf
      have hget := c.get r "prototype"
      generalize h.get r "prototype" = v at hget ⊢
      cases v with
      | object p => exact hget
      | _ => exact c.ref_lt .objectPrototype
    refine (hprototype _).bind fun p _ hk₂ hp => ?_
    refine (keeps_new fun c hle =>
      c.alloc (.plain (show ObjectClass.ordinary.Closed _ from trivial) _) fun q hq =>
        ?_).bind fun this l hk₃ hthis => ?_
    · cases hq
      exact Nat.lt_of_lt_of_le hp hle
    · have hle := Nat.le_trans hk (Nat.le_trans hk₁ (Nat.le_trans hk₂ hk₃))
      refine (hcall (hc.mono hle) hthis (ha.mono hle)).bind fun v _ hk₄ hv => .pure fun _ hle => ?_
      split
      · exact hv.mono hle
      · exact hthis.mono (Nat.le_trans hk₄ hle)

end Run

/-! ### Calls that are made -/

/-- A call of a value of a closed heap, with such values. -/
structure Call.Closed (c : Call) : Prop where
  machine : c.machine.Closed
  callee : c.callee.Below c.machine.heap.size
  this : c.this.Below c.machine.heap.size
  arguments : ListBelow c.machine.heap.size c.arguments

/-- A call that keeps machines closed whenever its values are those of a closed heap. -/
theorem Caller.Keeps.closes {call : Caller} (hcall : call.Keeps) {c : Call} (hc : c.Closed) :
    (c.ending call).Closes c.machine.heap Value.Below :=
  hcall hc.callee hc.this hc.arguments hc.machine (Nat.le_refl _)

/-- A caller keeps machines closed if each of its closed calls does. -/
theorem Caller.keeps_of_closes {call : Caller}
    (h : ∀ c : Call, c.Closed → (c.ending call).Closes c.machine.heap Value.Below) :
    call.Keeps := by
  intro n f this arguments hf ht ha m hm hn
  exact h ⟨f, this, arguments, m⟩ ⟨hm, hf.mono hn, ht.mono hn, ha.mono hn⟩

/-- The calls that a computation makes are closed, and up to then no object has another
prototype. -/
theorem Run.KeepsCalling.call_closed {x : Caller → Run α} {call : Caller} {m : Machine} {c : Call}
    (hx : KeepsCalling m.heap.size x) (hcall : call.Keeps) (hm : m.Closed) (h : Makes x call m c) :
    c.Closed ∧ m.heap.KeepsLinks c.machine.heap := by
  -- With a caller that fails at the call, the computation ends there: what it leaves is the call's
  -- machine.
  have hends (call' : Caller) (hother : ∀ d, d ≠ c → d.ending call' = d.ending call) (v : Value)
      (hc : c.ending call' = .error (.thrown v) c.machine) (hkeeps : call'.Keeps) :
      (Ending.error (.thrown v) c.machine).Closes (α := α) m.heap Anything := by
    rw [← h call' _ _ hother hc]
    exact hx call' hkeeps hm (Nat.le_refl _)
  by_cases hclosed : c.Closed
  · obtain ⟨call', hother, hc⟩ := exists_failing call c (.thrown .undefined) c.machine
    refine ⟨hclosed, ?_⟩
    have hkeeps : call'.Keeps := Caller.keeps_of_closes fun d hd => ?_
    · cases hends call' hother _ hc hkeeps with
      | error closed links below => exact links
    · by_cases hdc : d = c
      · rw [hdc, hc]
        exact .error hclosed.machine (.refl _) trivial
      · rw [hother d hdc]
        exact hcall.closes hd
  · -- What is thrown here is no object of the machine, which no closed ending allows.
    obtain ⟨call', hother, hc⟩ :=
      exists_failing call c (.thrown (.object c.machine.heap.size)) c.machine
    have hkeeps : call'.Keeps := Caller.keeps_of_closes fun d hd => by
      rw [hother d fun hdc => hclosed (hdc ▸ hd)]
      exact hcall.closes hd
    cases hends call' hother _ hc hkeeps with
    | error closed links below => exact absurd below (Nat.lt_irrefl _)

end ScriptEngine
