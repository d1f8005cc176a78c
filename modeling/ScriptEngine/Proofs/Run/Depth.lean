import ScriptEngine.Proofs.Code.Effect
import ScriptEngine.Proofs.Run.Moment

/-!
# The depth of calls

Only entering and leaving a call changes the depth, so it is the same wherever a body or a
computation begins, comes past an event or ends, and calls bring it back however they end.  Since a
call is entered below the limit only, the depth never exceeds the limit.

## Main definitions

* `Machine.AtLevel` : the depth and the limit of a machine.
* `MachineRelation.level` : machines at one level, related to themselves.

## Main statements

* `level_calls` : calls end at the level where they began.
* `traced_within` : a body with events ends as it does without them, and they are all at its level.
* `Work.Passes.depth` : work passes through machines between its depth and the limit.
* `Engine.depth_bounded` : all tasks stay within the limit and end at the depth where they began.
-/

namespace ScriptEngine

variable {α β : Type}

/-- The depth of calls of a machine and its limit. -/
structure Machine.AtLevel (depth limit : Nat) (m : Machine) : Prop where
  depth : m.depth = depth
  limit : m.limit = limit

/-- Machines at one level, related to themselves. -/
def MachineRelation.level (depth limit : Nat) : MachineRelation where
  code := Eq
  rel m n := m = n ∧ m.AtLevel depth limit
  code_name := @FunctionCode.name_congr
  heap := by
    rintro m _ ⟨rfl, -⟩
    exact .refl _
  depth h := congrArg Machine.depth h.1
  limit h := congrArg Machine.limit h.1
  withHeap := by
    rintro m _ h k ⟨rfl, hm⟩ hadvance
    obtain rfl := hadvance.similar.eq
    exact ⟨rfl, hm.depth, hm.limit⟩
  withOutput := by
    rintro m _ ⟨rfl, hm⟩ text
    exact ⟨rfl, hm.depth, hm.limit⟩

open MachineRelation

/-! ### Bodies -/

section Bodies

/-- Activations at one level, related to themselves. -/
def ActivationRelation.level (depth limit : Nat) : ActivationRelation where
  machines := .level depth limit
  frame _ := True
  setSlot _ _ _ _ := trivial
  completion _ _ := trivial

/-- The computations of events may be run with any caller. -/
def Event.IsRegular : Event → Prop
  | .run x _ => Run.Regular x
  | _ => True

variable {depth limit : Nat} {host : Host}

/-- What a body does on a host whose calls come back to the level where they began. -/
def ActivationRelation.Setting.level
    (h : (MachineRelation.level depth limit).Calls host.call host.call) :
    ActivationRelation.Setting :=
  .onHost host (.level depth limit) (fun e => e.IsRegular ∧ e.state.machine.AtLevel depth limit)
    fun hx _ _ hst => ⟨⟨hx, hst.machine.2⟩, hx.same h hst.machine⟩

namespace ActivationRelation

theorem isDiagonal_level : (ActivationRelation.level depth limit).IsDiagonal where
  eq h := h.1
  keeps h hdepth hlimit := ⟨rfl, hdepth.trans h.2.depth, hlimit.trans h.2.limit⟩

theorem level_refl {s : RunState} (h : s.machine.AtLevel depth limit) :
    (ActivationRelation.level depth limit).rel s s :=
  ⟨rfl, trivial, rfl, h⟩

namespace Setting

variable {h : (MachineRelation.level depth limit).Calls host.call host.call}

theorem level_noting {e : RunState → Event} {x : Act α}
    (he : ∀ s, (e s).IsRegular ∧ (e s).state = s)
    (hx : Exec.Same (ActivationRelation.level depth limit).rel x x) :
    (Setting.level h).Follows (Traced.log e >>= fun _ => Traced.silent x) x :=
  .noting fun s _ hst _ => ⟨⟨(he s).1, by rw [(he s).2]; exact hst.machine.2⟩, hx hst⟩

/-- All effects keep the level. -/
theorem level_admits (e : Effect) : (Setting.level h).Admits e := by
  cases e with
  | read storage =>
    exact fun lenient =>
      level_noting (fun _ => ⟨trivial, rfl⟩) (isDiagonal_level.same_storageRead lenient storage)
  | write storage source =>
    exact fun v _ =>
      level_noting (fun _ => ⟨trivial, rfl⟩) (isDiagonal_level.same_storageWrite v storage)
  | function f =>
    exact level_noting (fun _ => ⟨trivial, rfl⟩) (isDiagonal_level.same_makeFunction f)

/-- A body keeps the level, and all its events are at that level. -/
theorem level_follows (h : (MachineRelation.level depth limit).Calls host.call host.call)
    (code : FunctionCode) : (Setting.level h).Follows (code.traced host) (code.exec host) :=
  follows_function isDiagonal_level code fun e _ => level_admits e

end Setting

end ActivationRelation

end Bodies

/-! ### Calls -/

theorem same_effectiveThis {R : MachineRelation} (strict : Bool) (this : Value) :
    R.Same (effectiveThis strict this) (effectiveThis strict this) :=
  .ite (.pure _) (.ite (.pure _) (same_toObject _))

section Calls

variable {depth limit : Nat} {host : Host}

/-- What ends as it does on related machines at one level ends at that level. -/
theorem Machine.AtLevel.after {x : Run α} {m n : Machine} (hm : m.AtLevel depth limit)
    (h : (level depth limit).Same x x) (hn : (x m).state? = some n) : n.AtLevel depth limit := by
  have hx := h ⟨rfl, hm⟩
  generalize x m = p at hx hn
  cases hx with
  | ok hQ =>
    cases hn
    exact hQ.2.2
  | error hE =>
    cases hn
    exact hE.2
  | exhausted => cases hn

/-- Entering a frame stays at the level, and the frame is entered there. -/
theorem relates_enter (code : FunctionCode) (scope : Option RecordRef) (callee : Ref) (this : Value)
    (arguments : List Value) :
    Exec.Relates (level depth limit).rel (level depth limit).rel
      (fun s t _ _ => s = t ∧ s.machine.AtLevel depth limit)
      (code.enter scope callee this arguments) (code.enter scope callee this arguments) := by
  refine (same_effectiveThis _ this).bindTo id fun this => ?_
  refine (same_new (Heap.adds_newArguments _ _ _)).bindTo id fun arguments => ?_
  rintro m _ ⟨rfl, hm⟩
  refine .ok ⟨rfl, ?_⟩
  unfold Machine.enterFrame
  split
  · exact ⟨hm.depth, hm.limit⟩
  · exact ⟨hm.depth, hm.limit⟩

variable (hcall : (level depth limit).Calls host.call host.call)

include hcall

/-- A body with events ends as it does without them, and all its events are at its level. -/
theorem traced_atLevel (code : FunctionCode) {s : RunState} (hs : s.machine.AtLevel depth limit) :
    (code.traced host s).2 = code.exec host s ∧
      ∀ e ∈ (code.traced host s).1, e.IsRegular ∧ e.state.machine.AtLevel depth limit := by
  obtain ⟨hevents, hend⟩ := ActivationRelation.Setting.level_follows hcall code
    (ActivationRelation.level_refl hs) fun _ _ => trivial
  refine ⟨?_, hevents⟩
  generalize (code.traced host s).2 = p at hend ⊢
  generalize code.exec host s = q at hend ⊢
  cases hend with
  | ok hQ => rw [hQ.1, ActivationRelation.isDiagonal_level.eq_of_rel hQ.2]
  | error hE => rw [ActivationRelation.isDiagonal_level.eq_of_rel hE]
  | exhausted => rfl

/-- A body ends at its level. -/
theorem exec_atLevel (code : FunctionCode) {s t : RunState} (hs : s.machine.AtLevel depth limit)
    (ht : (code.exec host s).state? = some t) : t.machine.AtLevel depth limit := by
  obtain ⟨-, hend⟩ := ActivationRelation.Setting.level_follows hcall code
    (ActivationRelation.level_refl hs) fun _ _ => trivial
  rw [← (traced_atLevel hcall code hs).1] at ht
  generalize (code.traced host s).2 = p at hend ht
  generalize code.exec host s = q at hend
  cases hend with
  | ok hQ =>
    cases ht
    exact hQ.2.machine.2
  | error hE =>
    cases ht
    exact hE.machine.2
  | exhausted => cases ht

theorem same_invoke (code : FunctionCode) (scope : Option RecordRef) (callee : Ref) (this : Value)
    (arguments : List Value) :
    (level depth limit).Same (code.invoke host scope callee this arguments)
      (code.invoke host scope callee this arguments) := by
  rw [code.invoke_eq]
  refine Exec.Relates.bind (relates_enter code scope callee this arguments) fun s t => ?_
  rintro m n ⟨rfl, hs⟩
  have hend (u : RunState) := exec_atLevel hcall code (t := u) hs
  unfold FunctionCode.runFrom
  cases hx : code.exec host s with
  | ok c u => exact .ok ⟨rfl, rfl, hend u (by rw [hx]; rfl)⟩
  | error e u => exact .error ⟨rfl, hend u (by rw [hx]; rfl)⟩
  | exhausted => exact .exhausted

end Calls

/-- A call comes back to its level if the calls one level deeper do. -/
theorem same_callWith {depth limit : Nat} {host : Host}
    (hcall : (level (depth + 1) limit).Calls host.call host.call) (callee this : Value)
    (arguments : List Value) :
    (level depth limit).Same (callWith host callee this arguments)
    (callWith host callee this arguments) := by
  refine Exec.Relates.bind (relates_callable callee "a function") ?_
  rintro ⟨r, f⟩ ⟨q, g⟩ m n h
  obtain rfl : r = q := h.ref
  obtain rfl : f = g := by
    cases h.similar with
    | refl => rfl
    | script scope hcode => rw [hcode]
  refine same_nested (Q := level (depth + 1) limit) ?_ ?_ ?_ h.rel
  · cases f with
    | script code scope => exact same_invoke hcall code scope r this arguments
    | native f => exact (Run.regular_native f this arguments).same hcall
  · rintro m _ ⟨rfl, hm⟩
    exact ⟨rfl, congrArg (· + 1) hm.depth, hm.limit⟩
  · rintro m _ ⟨rfl, hm⟩
    exact ⟨rfl, congrArg (· - 1) hm.depth, hm.limit⟩

/-- Calls come back to the level where they began, however they end. -/
theorem level_calls (fuel depth limit : Nat) :
    (level depth limit).Calls (callWithin fuel) (callWithin fuel) := by
  induction fuel generalizing depth with
  | zero => exact fun _ _ _ => .exhaust
  | succ fuel ih => exact @same_callWith _ _ (.within fuel) (ih (depth + 1))

/-- A body with events ends as it does without them, and all its events are at the level where it
began. -/
theorem traced_within (fuel : Nat) (code : FunctionCode) (s : RunState) :
    (code.traced (.within fuel) s).2 = code.exec (.within fuel) s ∧
      ∀ e ∈ (code.traced (.within fuel) s).1,
        e.IsRegular ∧ e.state.machine.AtLevel s.machine.depth s.machine.limit :=
  @traced_atLevel _ _ (.within fuel) (level_calls fuel _ _) code s ⟨rfl, rfl⟩

/-! ### Work -/

namespace Work

/-- The computations of work may be run with any caller. -/
def IsRegular : Work → Prop
  | .computation x _ => Run.Regular x
  | _ => True

/-- Work ends at the level where it began. -/
theorem after_atLevel {fuel : Nat} {w : Work} {n : Machine} (hw : w.IsRegular)
    (h : w.after? fuel = some n) : n.AtLevel w.machine.depth w.machine.limit := by
  have hm : w.machine.AtLevel w.machine.depth w.machine.limit := ⟨rfl, rfl⟩
  cases w with
  | computation x m => exact hm.after (hw.same (level_calls fuel _ _)) h
  | call c => exact hm.after (level_calls fuel _ _ c.callee c.this c.arguments) h
  | body code s =>
    obtain ⟨t, ht, rfl⟩ := Option.map_eq_some_iff.mp h
    exact @exec_atLevel _ _ (.within fuel) (level_calls fuel _ _) code s t hm ht

/-- Work passes through machines between its own depth and the limit only. -/
theorem Passes.depth {fuel : Nat} {w : Work} {n : Machine} (h : w.Passes fuel n) (hw : w.IsRegular)
    (hdepth : w.machine.depth ≤ w.machine.limit) :
    n.limit = w.machine.limit ∧ w.machine.depth ≤ n.depth ∧ n.depth ≤ w.machine.limit := by
  have hlevel {w : Work} {n : Machine} (hdepth : w.machine.depth ≤ w.machine.limit)
      (hn : n.AtLevel w.machine.depth w.machine.limit) :
      n.limit = w.machine.limit ∧ w.machine.depth ≤ n.depth ∧ n.depth ≤ w.machine.limit :=
    ⟨hn.limit, Nat.le_of_eq hn.depth.symm, hn.depth ▸ hdepth⟩
  induction h with
  | begins => exact hlevel hdepth ⟨rfl, rfl⟩
  | ends h => exact hlevel hdepth (after_atLevel hw h)
  | @made fuel _ x m n c h _ ih =>
    -- The calls of a computation begin at its own level.
    obtain ⟨q, rfl, hc⟩ := hw.related_of_makes (R := level m.depth m.limit) h
      (fun f this arguments _ _ _ hpq => level_calls fuel _ _ f this arguments hpq) ⟨rfl, rfl, rfl⟩
    obtain ⟨hd, hl⟩ := hc
    have hpassed := ih trivial (by simpa only [machine, hd, hl] using hdepth)
    simpa only [machine, hd, hl] using hpassed
  | @native fuel c n r f _ _ hlt _ ih =>
    obtain ⟨hl, hd, hle⟩ := ih (Run.regular_native f c.this c.arguments) hlt
    exact ⟨hl, Nat.le_of_succ_le hd, hle⟩
  | @script fuel c m n r code scope s _ _ hlt hs _ ih =>
    have hinside : (level (c.machine.depth + 1) c.machine.limit).rel
        { c.machine with depth := c.machine.depth + 1 }
          { c.machine with depth := c.machine.depth + 1 } :=
      ⟨rfl, rfl, rfl⟩
    have hentered := relates_enter code scope r c.this c.arguments hinside
    rw [hs] at hentered
    cases hentered with
    | ok hQ =>
      have hpassed := ih trivial
      simp only [machine, hQ.2.depth, hQ.2.limit] at hpassed
      obtain ⟨hl, hd, hle⟩ := hpassed hlt
      exact ⟨hl, Nat.le_of_succ_le hd, hle⟩
  | @event fuel code s e h =>
    exact hlevel hdepth ((traced_within fuel code s).2 e h).2
  | @run fuel code s t _ x n h _ ih =>
    obtain ⟨hx, ht⟩ := (traced_within fuel code s).2 _ h
    have hpassed := ih hx
    simp only [Work.machine] at hpassed ⊢
    rw [show t.machine.depth = s.machine.depth from ht.depth,
      show t.machine.limit = s.machine.limit from ht.limit] at hpassed
    exact hpassed hdepth

end Work

/-! ### Calls at the limit -/

theorem exists_function {h : Heap} {v : Value} (hv : h.isCallable v = true) :
    ∃ r f, v = .object r ∧ (h.object r).cls = .function f := by
  cases v with
  | object r =>
    rw [Heap.isCallable, Object.isCallable] at hv
    split at hv
    · rename_i f hf
      exact ⟨r, f, rfl, hf⟩
    · cases hv
  | _ => cases hv

/-- A call of a function runs it one call deeper. -/
theorem callWith_of_function (host : Host) {r : Ref} {f : Callable} (this : Value)
    (arguments : List Value) {m : Machine} (hf : (m.heap.object r).cls = .function f) :
    callWith host (.object r) this arguments m =
      Run.nested (match f with
        | .script code scope => code.invoke host scope r this arguments
        | .native f => f.run host.call this arguments) m := by
  have hcallable := callable_of_function "a function" hf
  change Exec.andThen (Run.callable (.object r) "a function") _ m = _
  unfold Exec.andThen
  generalize Run.callable (.object r) "a function" m = e at hcallable ⊢
  subst hcallable
  rfl

/-- A call of a function at the limit fails, on any host: nothing of the function runs. -/
theorem callWith_of_limit (host : Host) {callee : Value} (this : Value) (arguments : List Value)
    {m : Machine} (hcallee : m.heap.isCallable callee = true) (hdepth : m.limit ≤ m.depth) :
    callWith host callee this arguments m =
      .error (.raised .rangeError "Maximum call stack size exceeded") m := by
  obtain ⟨r, f, rfl, hf⟩ := exists_function hcallee
  rw [callWith_of_function host this arguments hf]
  exact if_neg (Nat.not_lt.mpr hdepth)

/-- A call at the limit passes through no other machine. -/
theorem Work.Passes.of_limit {fuel : Nat} {c : Call} {n : Machine}
    (h : Passes (fuel + 1) (.call c) n) (hcallee : c.machine.heap.isCallable c.callee = true)
    (hdepth : c.machine.limit ≤ c.machine.depth) :
    n = c.machine := by
  cases h with
  | begins => rfl
  | ends h =>
    have hfails : (c.ending (callWithin (fuel + 1))).state? = some c.machine :=
      congrArg Ending.state? (callWith_of_limit (.within fuel) c.this c.arguments hcallee hdepth)
    exact Option.some.inj (h.symm.trans hfails)
  | native _ _ hlt _ => exact absurd hlt (Nat.not_lt.mpr hdepth)
  | script _ _ hlt _ _ => exact absurd hlt (Nat.not_lt.mpr hdepth)

/-! ### Tasks -/

namespace Engine

/-- The work for a task is regular, and it begins at the level of the engine. -/
theorem Task.regular_of_work {e : Engine} {t : Task} {w : Work} (h : t.work? e = some w) :
    w.IsRegular ∧ w.machine.AtLevel e.machine.depth e.machine.limit := by
  obtain ⟨code, rfl⟩ | ⟨callee, this, arguments, rfl⟩ | ⟨callee, arguments, rfl⟩ := work_cases h
  · exact ⟨trivial, rfl, rfl⟩
  · exact ⟨trivial, rfl, rfl⟩
  · exact ⟨Run.regular_construct callee arguments, rfl, rfl⟩

/-- The depth of calls is bounded and restored.  A task that begins within the limit passes through
machines within the limit only, and it ends at the depth where it began, with a value or with any
error.  A call of a function at the limit fails with an error of its own, on any host, and nothing
of the function runs. -/
theorem depth_bounded (fuel : Nat) (e : Engine) (t : Task) (h : e.machine.depth ≤ e.machine.limit) :
    (∀ n, t.Passes fuel e n → n.depth ≤ e.machine.limit ∧ n.limit = e.machine.limit) ∧
    (∀ e', (t.perform fuel e).state? = some e' →
      e'.machine.depth = e.machine.depth ∧ e'.machine.limit = e.machine.limit) ∧
    ∀ c : Call, c.machine.heap.isCallable c.callee = true → c.machine.depth = c.machine.limit →
      (∀ host, callWith host c.callee c.this c.arguments c.machine =
        .error (.raised .rangeError "Maximum call stack size exceeded") c.machine) ∧
      ∀ n, Work.Passes (fuel + 1) (.call c) n → n = c.machine := by
  refine ⟨?_, ?_, fun c hcallee hdepth => ?_⟩
  · rintro n (rfl | ⟨w, hw, hn⟩)
    · exact ⟨h, rfl⟩
    · obtain ⟨hregular, hm⟩ := Task.regular_of_work hw
      have hpassed := hn.depth hregular
      rw [hm.depth, hm.limit] at hpassed
      obtain ⟨hl, -, hle⟩ := hpassed h
      exact ⟨hle, hl⟩
  · intro e' he'
    rcases Task.after_perform he' with ⟨-, rfl⟩ | ⟨w, hw, hn⟩
    · exact ⟨rfl, rfl⟩
    · obtain ⟨hregular, hm⟩ := Task.regular_of_work hw
      have hafter := Work.after_atLevel hregular hn
      exact ⟨hafter.depth.trans hm.depth, hafter.limit.trans hm.limit⟩
  · have hlimit := Nat.le_of_eq hdepth.symm
    exact ⟨fun host => callWith_of_limit host c.this c.arguments hcallee hlimit,
      fun n hn => hn.of_limit hcallee hlimit⟩

/-- The message of a range error. -/
def rangeMessage? : EngineError → Option String
  | .runtime (.raised .rangeError message) => some message
  | _ => none

theorem eq_of_rangeMessage? {e : EngineError} {message : String}
    (h : rangeMessage? e = some message) :
    e = .runtime (.raised .rangeError message) := by
  unfold rangeMessage? at h
  split at h
  · cases h
    rfl
  · cases h

theorem depth_bounded_recursion : ∃ message e',
    (Engine.ofConfig { EngineConfig.standard with maxCallDepth := 2 }).machine.depth ≤ 2 ∧
    (Task.eval "function f() \x7b return f(); \x7d f();").perform 4
      (.ofConfig { EngineConfig.standard with maxCallDepth := 2 }) =
        .error (.runtime (.raised .rangeError message)) e' ∧
    e'.machine.depth = 0 ∧
    callWith (.within 4) (.object Intrinsic.functionPrototype.ref) .undefined []
      { heap := .initial, records := .empty, depth := 2, limit := 2, output := "" } =
        .error (.raised .rangeError "Maximum call stack size exceeded")
          { heap := .initial, records := .empty, depth := 2, limit := 2, output := "" } := by
  let e : Engine := .ofConfig { EngineConfig.standard with maxCallDepth := 2 }
  have hfails :
      (((Task.eval "function f() \x7b return f(); \x7d f();").perform 4 e).error?.any fun failure =>
      (rangeMessage? failure.1).isSome) = true := by decide +kernel
  obtain ⟨failure, hfailure, hrange⟩ := (Option.any_eq_true _ _).mp hfails
  obtain ⟨message, hmessage⟩ := Option.isSome_iff_exists.mp hrange
  obtain ⟨error, e'⟩ := failure
  obtain rfl := eq_of_rangeMessage? hmessage
  have hend := Ending.eq_of_error? hfailure
  obtain ⟨-, hrestored, hlimit⟩ := depth_bounded 4 e
    (.eval "function f() \x7b return f(); \x7d f();") (Nat.zero_le _)
  refine ⟨message, e', Nat.zero_le _, hend, (hrestored e' (congrArg Ending.state? hend)).1, ?_⟩
  exact (hlimit ⟨.object Intrinsic.functionPrototype.ref, .undefined, [], _⟩
    (by decide +kernel) rfl).1 _

end Engine

end ScriptEngine
