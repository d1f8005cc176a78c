import ScriptEngine.Proofs.Run.Similarity

/-!
# Computations that make calls

Conversions, operators and native functions make their calls one after the other, and what they do
in between depends on the results of these calls only.  So what holds of them follows from what
holds of the calls that they make.

## Main definitions

* `Call` : a call of a value on a machine.
* `Run.Makes` : a computation makes a call.
* `Run.Regular` : computations that make their calls one after the other.

## Main statements

* `Run.Regular.same` : regular computations agree on related machines if their calls do.
* `Run.Regular.preserves` : a regular computation keeps what the calls that it makes keep.
* `Run.Regular.holds_of_makes` : what a computation keeps holds where it makes a call.
* `Run.regular_binary`, `Run.regular_native`, `Run.regular_construct` : operators, native functions
  and the operator `new`.
-/

namespace ScriptEngine

variable {α β : Type}

/-! ### Calls -/

/-- A call of a value as a function, on a machine. -/
structure Call where
  callee : Value
  this : Value
  arguments : List Value
  machine : Machine

/-- How a call ends. -/
def Call.ending (c : Call) (call : Caller) : Ending Machine RuntimeError Value :=
  call c.callee c.this c.arguments c.machine

namespace Run

/-- A computation makes a call: however the call fails, the computation fails as well. -/
def Makes (x : Caller → Run α) (call : Caller) (m : Machine) (c : Call) : Prop :=
  ∀ (call' : Caller) (e : RuntimeError) (n : Machine),
    (∀ d, d ≠ c → d.ending call' = d.ending call) →
    c.ending call' = .error e n → x call' m = .error e n

/-- Computations that make their calls one after the other, and apart from that do the same on
related machines. -/
inductive Regular : {α : Type} → (Caller → Run α) → Prop
  | steady {α : Type} {x : Run α} (same : ∀ R : MachineRelation, R.Same x x) : Regular fun _ => x
  | call (f this : Value) (arguments : List Value) : Regular fun call => call f this arguments
  | bind {α β : Type} {x : Caller → Run α} {f : Caller → α → Run β} (first : Regular x)
      (rest : ∀ a, Regular fun call => f call a) : Regular fun call => x call >>= f call

end Run

/-- Callers that agree on related machines. -/
def MachineRelation.Calls (R : MachineRelation) (call call' : Caller) : Prop :=
  ∀ f this arguments, R.Same (call f this arguments) (call' f this arguments)

namespace Run

/-- There is a caller that fails at one call and otherwise does what another one does. -/
theorem exists_failing (call : Caller) (c : Call) (e : RuntimeError) (n : Machine) :
    ∃ call' : Caller, (∀ d, d ≠ c → d.ending call' = d.ending call) ∧
      c.ending call' = .error e n := by
  classical
  exact ⟨fun f this arguments m => if Call.mk f this arguments m = c then .error e n else
    call f this arguments m, fun d hd => if_neg hd, if_pos rfl⟩

section Bind

variable {x : Caller → Run α} {f : Caller → α → Run β} {call : Caller} {m n : Machine} {a : α}
  {c : Call}

theorem bind_of_ok (h : x call m = .ok a n) : (x call >>= f call) m = f call a n := by
  change Exec.andThen (x call) (f call) m = _
  rw [Exec.andThen, h]

theorem bind_of_error {e : RuntimeError} (h : x call m = .error e n) :
    (x call >>= f call) m = .error e n := by
  change Exec.andThen (x call) (f call) m = _
  rw [Exec.andThen, h]

theorem bind_of_exhausted (h : x call m = .exhausted) : (x call >>= f call) m = .exhausted := by
  change Exec.andThen (x call) (f call) m = _
  rw [Exec.andThen, h]

/-- A computation ends in the same way with two callers, unless they differ at a call that it
makes. -/
def DependsOnCalls (x : Caller → Run α) : Prop :=
  ∀ call call' m, x call' m = x call m ∨ ∃ c, Makes x call m c ∧ c.ending call' ≠ c.ending call

namespace Makes

/-- A call that is made cannot have failed in another way already. -/
theorem not_fixed (h : Makes x call m c) (y : Ending Machine RuntimeError α) :
    ¬ ∀ call' : Caller, (∀ d, d ≠ c → d.ending call' = d.ending call) → x call' m = y := by
  intro hy
  obtain ⟨call₁, hother₁, hc₁⟩ := exists_failing call c (.thrown .undefined) m
  obtain ⟨call₂, hother₂, hc₂⟩ := exists_failing call c (.thrown .null) m
  have h₁ := h call₁ _ m hother₁ hc₁
  have h₂ := h call₂ _ m hother₂ hc₂
  rw [hy call₁ hother₁] at h₁
  rw [hy call₂ hother₂, h₁] at h₂
  cases h₂

/-- The calls of the first of two computations are calls of both. -/
theorem first (h : Makes x call m c) : Makes (fun call => x call >>= f call) call m c :=
  fun call' e n hother hc => bind_of_error (h call' e n hother hc)

/-- The calls of the second of two computations are calls of both. -/
theorem rest (h : Makes (f · a) call n c) (hx : DependsOnCalls x) (ha : x call m = .ok a n) :
    Makes (fun call => x call >>= f call) call m c := by
  intro call' e n' hother hc
  rcases hx call call' m with heq | ⟨d, hd, hne⟩
  · exact (bind_of_ok (heq.trans ha)).trans (h call' e n' hother hc)
  · obtain rfl : d = c := Classical.byContradiction fun hdc => hne (hother d hdc)
    exact bind_of_error (hd call' e n' hother hc)

/-- A call of two computations one after the other is a call of one of them. -/
theorem of_bind (h : Makes (fun call => x call >>= f call) call m c) (hx : DependsOnCalls x) :
    Makes x call m c ∨ ∃ a n, x call m = .ok a n ∧ Makes (f · a) call n c := by
  by_cases hnot : Makes x call m c
  · exact .inl hnot
  have hsame (call' : Caller) (hother : ∀ d, d ≠ c → d.ending call' = d.ending call) :
      x call' m = x call m := by
    rcases hx call call' m with heq | ⟨d, hd, hne⟩
    · exact heq
    · obtain rfl : d = c := Classical.byContradiction fun hdc => hne (hother d hdc)
      exact absurd hd hnot
  cases hxm : x call m with
  | ok a n =>
    refine .inr ⟨a, n, rfl, fun call' e n' hother hc => ?_⟩
    exact (bind_of_ok ((hsame call' hother).trans hxm)).symm.trans (h call' e n' hother hc)
  | error e n =>
    exact absurd (fun call' hother => bind_of_error ((hsame call' hother).trans hxm))
      (h.not_fixed _)
  | exhausted =>
    exact absurd (fun call' hother => bind_of_exhausted ((hsame call' hother).trans hxm))
      (h.not_fixed _)

end Makes

end Bind

/-- What makes a call by itself makes that one. -/
theorem makes_call {f this : Value} {arguments : List Value} {call : Caller} {m : Machine}
    {c : Call} :
    Makes (fun call => call f this arguments) call m c ↔ c = ⟨f, this, arguments, m⟩ := by
  refine ⟨fun h => Classical.byContradiction fun hne => ?_, ?_⟩
  · exact h.not_fixed _ fun call' hother => hother ⟨f, this, arguments, m⟩ (Ne.symm hne)
  · rintro rfl _ _ _ _ hc
    exact hc

namespace Regular

variable {x : Caller → Run α}

theorem dependsOnCalls (h : Regular x) : DependsOnCalls x := by
  induction h with
  | steady => exact fun _ _ _ => .inl rfl
  | call f this arguments =>
    intro call call' m
    by_cases heq : call' f this arguments m = call f this arguments m
    · exact .inl heq
    · exact .inr ⟨⟨f, this, arguments, m⟩, makes_call.mpr rfl, heq⟩
  | @bind _ _ x f _ _ hx hf =>
    intro call call' m
    rcases hx call call' m with heq | ⟨c, hc, hne⟩
    · cases hxm : x call m with
      | ok a n =>
        refine (hf a call call' n).imp (fun h => ?_) fun ⟨c, hc, hne⟩ => ⟨c, hc.rest hx hxm, hne⟩
        exact (bind_of_ok (heq.trans hxm)).trans (h.trans (bind_of_ok hxm).symm)
      | error e n => exact .inl ((bind_of_error (heq.trans hxm)).trans (bind_of_error hxm).symm)
      | exhausted =>
        exact .inl ((bind_of_exhausted (heq.trans hxm)).trans (bind_of_exhausted hxm).symm)
    · exact .inr ⟨c, hc.first, hne⟩

/-- A regular computation agrees with itself on related machines if the calls that it makes do. -/
theorem agree (h : Regular x) {R : MachineRelation} {call call' : Caller} {m n : Machine}
    (hcall : ∀ f this arguments p q, Makes x call m ⟨f, this, arguments, p⟩ → R.rel p q →
      (call f this arguments p).Agree R.rel (sameResult R.rel) (call' f this arguments q))
    (hmn : R.rel m n) : (x call m).Agree R.rel (sameResult R.rel) (x call' n) := by
  induction h generalizing m n with
  | steady same => exact same R hmn
  | call f this arguments => exact hcall f this arguments m n (makes_call.mpr rfl) hmn
  | @bind _ _ x f hx _ ihx ihf =>
    have hxy := ihx (fun f this arguments p q hc => hcall f this arguments p q hc.first) hmn
    change Ending.Agree _ _ (Exec.andThen (x call) (f call) m) (Exec.andThen (x call') (f call') n)
    unfold Exec.andThen
    cases hxm : x call m with
    | ok a p =>
      rw [hxm] at hxy
      generalize x call' n = y at hxy ⊢
      cases hxy with
      | ok h =>
        obtain ⟨rfl, hpq⟩ := h
        exact ihf _ (fun f this arguments p q hc =>
          hcall f this arguments p q (hc.rest hx.dependsOnCalls hxm)) hpq
    | error e p =>
      rw [hxm] at hxy
      generalize x call' n = y at hxy ⊢
      cases hxy with
      | error h => exact .error h
    | exhausted =>
      rw [hxm] at hxy
      generalize x call' n = y at hxy ⊢
      cases hxy with
      | exhausted => exact .exhausted

/-- Regular computations agree on related machines if all calls do. -/
theorem same (h : Regular x) {R : MachineRelation} {call call' : Caller}
    (hcall : R.Calls call call') :
    R.Same (x call) (x call') :=
  fun _ _ hmn => h.agree (fun f this arguments _ _ _ hpq => hcall f this arguments hpq) hmn

/-- The machine at a call that is made is related to some other one. -/
theorem related_of_makes (h : Regular x) {R : MachineRelation} {call call' : Caller} {m n : Machine}
    {c : Call} (hmade : Makes x call m c)
    (hcall : ∀ f this arguments p q, Makes x call m ⟨f, this, arguments, p⟩ → R.rel p q →
      (call f this arguments p).Agree R.rel (sameResult R.rel) (call' f this arguments q))
    (hmn : R.rel m n) : ∃ q, R.rel c.machine q := by
  induction h generalizing m n with
  | steady same => exact absurd (fun _ _ => rfl) (hmade.not_fixed _)
  | call f this arguments => exact ⟨n, by rwa [makes_call.mp hmade]⟩
  | @bind _ _ x f hx _ ihx ihf =>
    have hfirst f this arguments p q hc := hcall f this arguments p q (Makes.first hc)
    rcases hmade.of_bind hx.dependsOnCalls with hc | ⟨a, p, hxm, hc⟩
    · exact ihx hc hfirst hmn
    · have hxy := hx.agree hfirst hmn
      rw [hxm] at hxy
      generalize x call' n = y at hxy
      cases hxy with
      | ok h =>
        obtain ⟨rfl, hpq⟩ := h
        exact ihf _ hc (fun f this arguments p q hc =>
          hcall f this arguments p q (hc.rest hx.dependsOnCalls hxm)) hpq

/-! ### Regular computations -/

theorem pure (a : α) : Regular fun _ => (Pure.pure a : Run α) :=
  .steady fun _ => .pure a

theorem raise (kind : ErrorKind) (message : String) :
    Regular fun _ => (Run.raise kind message : Run α) :=
  .steady fun _ => .raise kind message

theorem ite {p : Prop} [Decidable p] {x y : Caller → Run α} (hx : Regular x) (hy : Regular y) :
    Regular fun call => if p then x call else y call := by
  split
  · exact hx
  · exact hy

theorem firstResult {step : Caller → β → Run (Option α)} (h : ∀ b, Regular (step · b)) :
    ∀ l : List β, Regular fun call => Exec.firstResult (step call) l
  | [] => pure none
  | b :: rest => by
    simp only [Exec.firstResult_cons]
    refine (h b).bind fun a => ?_
    cases a with
    | none => exact firstResult h rest
    | some a => exact pure (some a)

end Regular

open MachineRelation

/-! ### Conversions -/

theorem regular_tryMethod (r : Ref) (name : String) : Regular (tryMethod · r name) := by
  refine .bind (.steady fun _ => same_onHeap fun s => s.get r name) fun f => ?_
  refine .bind (.steady fun _ => same_onHeap fun s => s.isCallable f) fun callable =>
    .ite ?_ (.pure none)
  exact .bind (.call f (.object r) []) fun v => .pure _

theorem regular_toPrimitive (v : Value) (hint : Hint) : Regular (toPrimitive · v hint) := by
  cases v with
  | object r =>
    refine .bind (.firstResult (regular_tryMethod r) hint.methods) fun p => ?_
    cases p with
    | some p => exact .pure p
    | none => exact .raise _ _
  | _ => exact .pure _

theorem regular_toNumber (v : Value) : Regular (toNumber · v) :=
  .bind (regular_toPrimitive v .number) fun _ => .pure _

theorem regular_toText (v : Value) : Regular (toText · v) :=
  .bind (regular_toPrimitive v .string) fun _ => .pure _

theorem regular_convert (ρ : Rep) (v : Value) : Regular (convert · ρ v) := by
  cases ρ with
  | double => exact regular_toNumber v
  | boolean => exact .pure _
  | string => exact regular_toText v
  | boxed => exact .pure _

/-! ### Operators -/

theorem regular_looselyEqual (a b : Value) : Regular (looselyEqual · a b) := by
  have hprimitive (v : Value) := regular_toPrimitive v .default
  unfold looselyEqual
  split
  · exact .pure _
  · exact .ite (.pure _) (.bind (hprimitive _) fun _ => .pure _)
  · exact .ite (.pure _) (.bind (hprimitive _) fun _ => .pure _)
  · exact .pure _

theorem regular_lessThan (a b : Value) (leftFirst : Bool) : Regular (lessThan · a b leftFirst) := by
  have hprimitive (v : Value) := regular_toPrimitive v .number
  unfold lessThan
  dsimp only
  refine .ite ?_ ?_
  · refine .bind (hprimitive a) fun p => .bind (hprimitive b) fun q => .bind (.pure (p, q)) ?_
    rintro ⟨p, q⟩
    dsimp only
    split <;> exact .pure _
  · refine .bind (hprimitive b) fun q => .bind (hprimitive a) fun p => .bind (.pure (p, q)) ?_
    rintro ⟨p, q⟩
    dsimp only
    split <;> exact .pure _

theorem regular_compare (r : Relation) (x y : Value) : Regular (compare · r x y) := by
  unfold compare
  exact .ite (.bind (regular_lessThan y x false) fun _ => .pure _)
    (.bind (regular_lessThan x y true) fun _ => .pure _)

theorem regular_equal (e : Equality) (x y : Value) : Regular (equal · e x y) := by
  unfold equal
  exact .ite (.bind (.pure _) fun _ => .pure _) (.bind (regular_looselyEqual x y) fun _ => .pure _)

theorem regular_membership (x y : Value) : Regular (membership · x y) := by
  cases y with
  | object r => exact .bind (regular_toText x) fun key => .steady fun _ => same_hasProperty _ key
  | _ => exact .bind (.steady fun _ => same_display x) fun _ => .raise _ _

theorem regular_sum (x y : Value) : Regular (sum · x y) := by
  refine .bind (regular_toPrimitive x .default) fun p => ?_
  refine .bind (regular_toPrimitive y .default) fun q => ?_
  split <;> exact .pure _

theorem regular_numeric (op : NumericOp) (x y : Value) : Regular (numeric · op x y) :=
  .bind (regular_toNumber x) fun _ => .bind (regular_toNumber y) fun _ => .pure _

/-- Binary operators are regular. -/
theorem regular_binary (op : BinaryOp) (x y : Value) : Regular (binary · op x y) := by
  unfold binary
  split
  · exact regular_sum x y
  · exact .bind (regular_numeric _ x y) fun _ => .pure _
  · exact .bind (regular_compare _ x y) fun _ => .pure _
  · exact .bind (regular_equal _ x y) fun _ => .pure _
  · exact .bind (regular_membership x y) fun _ => .pure _
  · exact .bind (.steady fun _ => same_instanceOf x y) fun _ => .pure _

/-- Unary operators are regular. -/
theorem regular_unary (op : UnaryOp) (v : Value) : Regular (unary · op v) := by
  cases op with
  | minus | plus | bitwiseNot => exact .bind (regular_toNumber v) fun _ => .pure _
  | typeOf => exact .bind (.steady fun _ => same_onHeap fun s => s.typeName v) fun _ => .pure _
  | logicalNot | void | delete => exact .pure _

theorem regular_unaryForm {ρ σ : Rep} (form : UnaryForm ρ σ) (x : ρ.Carrier) :
    Regular (form.apply · x) := by
  cases form with
  | convert ρ σ => exact regular_convert σ _
  | negate | complement | not => exact .pure _
  | typeOf ρ => exact .steady fun _ => same_onHeap fun s => s.typeName _
  | object => exact .steady fun _ => same_toObject x
  | void ρ => exact .pure _
  | dynamic op => exact regular_unary op x

theorem regular_binaryForm {ρ σ τ : Rep} (form : BinaryForm ρ σ τ) (x : ρ.Carrier) (y : σ.Carrier) :
    Regular (form.apply · x y) := by
  cases form with
  | numeric op => exact regular_numeric op x y
  | compare r => exact regular_compare r x y
  | equal e => exact regular_equal e x y
  | concatenateValues =>
    refine .bind (regular_toPrimitive x .default) fun p => ?_
    exact .bind (regular_toPrimitive y .default) fun q => .pure _
  | membership => exact regular_membership x y
  | instanceOf => exact .steady fun _ => same_instanceOf x y
  | dynamic op => exact regular_binary op x y
  | numbers | compareNumbers | compareStrings | equalNumbers | equalBooleans | equalStrings
  | concatenate => exact .pure _

/-! ### Native functions -/

theorem regular_textOr (missing : String) (v : Value) : Regular (Native.textOr · missing v) := by
  cases v with
  | undefined => exact .pure _
  | _ => exact regular_toText _

theorem regular_elementTexts : ∀ values : List Value, Regular (Native.elementTexts · values)
  | [] => .pure _
  | v :: rest => by
    unfold Native.elementTexts
    exact .ite (.bind (.pure _) fun _ => .bind (regular_elementTexts rest) fun _ => .pure _)
      (.bind (regular_toText v) fun _ => .bind (regular_elementTexts rest) fun _ => .pure _)

theorem regular_runJoin (this separator : Value) : Regular (Native.runJoin · this separator) := by
  refine .bind (.steady fun _ => same_receiver this "join") fun r => ?_
  have hrest (separator : String) : Regular fun call => (do
      let values ← onHeap fun h => (Native.elements (h.object r)).toList
      let texts ← Native.elementTexts call values
      return Value.string (separator.intercalate texts)) := by
    refine .bind (.steady fun _ => same_onHeap fun s => by rw [(s.object r).elements])
      fun values => ?_
    exact .bind (regular_elementTexts values) fun _ => .pure _
  cases separator with
  | undefined => exact .bind (.pure _) hrest
  | _ => exact .bind (regular_toText _) hrest

theorem regular_runHasOwnProperty (this : Value) (arguments : List Value) :
    Regular (Native.runHasOwnProperty · this arguments) := by
  refine .bind (regular_toText _) fun key => .bind (.steady fun _ => same_toObject this) fun o => ?_
  cases o with
  | object r =>
    exact .bind (.steady fun _ => same_onHeap fun s => (s.object r).hasOwn key) fun _ => .pure _
  | _ => exact .pure _

theorem regular_runErrorToString (this : Value) : Regular (Native.runErrorToString · this) := by
  cases this with
  | object r =>
    refine .bind (.steady fun _ => same_onHeap fun s => s.get r "name") fun name => ?_
    refine .bind (regular_textOr _ name) fun name => ?_
    refine .bind (.steady fun _ => same_onHeap fun s => s.get r "message") fun message => ?_
    exact .bind (regular_textOr _ message) fun message => .pure _
  | _ => exact .raise _ _

/-- Native functions are regular. -/
theorem regular_native (f : Native) (this : Value) (arguments : List Value) :
    Regular (f.run · this arguments) := by
  cases f with
  | functionPrototype => exact .pure _
  | object =>
    exact .ite (.steady fun _ => same_new Heap.adds_newObject) (.steady fun _ => same_toObject _)
  | objectToString =>
    exact .bind (.steady fun _ => same_onHeap fun s => classTag_eq s this) fun _ => .pure _
  | objectValueOf => exact .steady fun _ => same_toObject this
  | hasOwnProperty => exact regular_runHasOwnProperty this arguments
  | function => exact .raise _ _
  | functionCall => exact .call _ _ _
  | functionApply => exact .bind (.steady fun _ => same_listOf _) fun list => .call _ _ list
  | functionToString => exact .steady fun _ => same_runFunctionToString this
  | array => exact .steady fun _ => same_runArray arguments
  | arrayIsArray =>
    exact .bind (.steady fun _ => same_onHeap fun s => isArray_eq s _) fun _ => .pure _
  | arrayPush =>
    refine .bind (.steady fun _ => same_receiver this "push") fun r => ?_
    refine .bind (.steady fun _ => same_changeHeap fun s =>
      .update s r (·.changeElements _) (.changeElements _)) fun _ => ?_
    exact .bind (.steady fun _ => same_onHeap fun s => by rw [(s.object r).elements])
      fun _ => .pure _
  | arrayPop =>
    refine .bind (.steady fun _ => same_receiver this "pop") fun r => ?_
    refine .bind (.steady fun _ => same_onHeap fun s => by rw [(s.object r).elements])
      fun last => ?_
    exact .bind (.steady fun _ => same_changeHeap fun s =>
      .update s r (·.changeElements _) (.changeElements _)) fun _ => .pure _
  | arrayJoin => exact regular_runJoin this _
  | arrayToString => exact regular_runJoin this .undefined
  | error kind =>
    exact .bind (regular_textOr "" _) fun _ => .steady fun _ => same_new (Heap.adds_newError kind _)
  | errorToString => exact regular_runErrorToString this
  | consoleLog =>
    refine .bind (.steady fun _ => same_onHeap fun s => ?_) fun line =>
      .bind (.steady fun _ => same_write _) fun _ => .pure _
    simp only [Native.consoleLine, funext s.display]

/-! ### Functions -/

theorem regular_memberPlace (base key : Value) : Regular (memberPlace · base key) :=
  .ite (.bind (.steady fun _ => same_display key) fun _ => .raise _ _)
    (.bind (regular_toText key) fun _ => .pure _)

theorem regular_callAtPlace (place : Place) (f : Value) (arguments : List Value) :
    Regular (callAtPlace · place f arguments) :=
  .bind (.steady fun _ => same_onHeap fun s => s.isCallable f) fun _ =>
    .ite (.call _ _ _) (.raise _ _)

/-- What `new` does with the function that it found: a script's function gets a new object. -/
def constructScript (call : Caller) (callee : Value) (arguments : List Value) (r : Ref) :
    Run Value := do
  changeHeap (·.ensurePrototype r)
  let prototype ← onHeap fun h =>
    match h.get r "prototype" with
    | .object p => p
    | _ => Intrinsic.objectPrototype.ref
  let this ← new (·.alloc (.plain .ordinary (some prototype)))
  let v ← call callee this arguments
  return if v.isObject then v else this

/-- The place of a script's function, which `new` asks for. -/
def Callable.scriptRef? : Ref × Callable → Option Ref
  | (r, .script ..) => some r
  | (_, .native _) => none

theorem construct_eq (call : Caller) (callee : Value) (arguments : List Value) :
    construct call callee arguments = (do
      let f ← callable callee "a constructor"
      return Callable.scriptRef? f) >>= fun r? =>
        match r? with
        | some r => constructScript call callee arguments r
        | none => call callee .undefined arguments := by
  rw [bind_assoc]
  refine congrArg (callable callee "a constructor" >>= ·) (funext fun f => ?_)
  obtain ⟨r, f⟩ := f
  cases f <;> rfl

/-- The operator `new` is regular. -/
theorem regular_construct (callee : Value) (arguments : List Value) :
    Regular (construct · callee arguments) := by
  simp only [construct_eq]
  refine .bind (.steady fun R => ?_) fun r? => ?_
  · refine Exec.Relates.bind (relates_callable callee _) fun f g => ?_
    refine .pure fun h => ⟨?_, h.rel⟩
    obtain ⟨r, f⟩ := f
    obtain ⟨q, g⟩ := g
    obtain rfl : r = q := h.ref
    cases h.similar <;> rfl
  · cases r? with
    | none => exact .call _ _ _
    | some r =>
      refine .bind (.steady fun _ => same_changeHeap fun s => .ensurePrototype s r) fun _ => ?_
      refine .bind (.steady fun _ => same_onHeap fun s => by rw [s.get r "prototype"])
        fun prototype => ?_
      refine .bind (.steady fun _ => same_new (Heap.adds_plain prototype)) fun this => ?_
      exact .bind (.call callee this arguments) fun v => .pure _

end Run

end ScriptEngine
