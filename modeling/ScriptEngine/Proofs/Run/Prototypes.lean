import ScriptEngine.Proofs.Code.Closed
import ScriptEngine.Proofs.Compile.Constants
import ScriptEngine.Proofs.Run.Depth
import ScriptEngine.Proofs.Run.Links

/-!
# Chains of prototypes

Scripts only get hold of objects that exist, so what a constructor makes inherits from an older
object like everything else.  No object gets another prototype later on.  At every moment of a run
each chain of prototypes therefore comes to an end, and so do the loops that follow it.

## Main definitions

* `Work.Closed` : work on a closed machine, with values of its heap.
* `Work.PassesDuring` : the machines that work passes through during one of its events.
* `Engine.Task.Valid` : tasks with compiled scripts and with values of the engine.
* `Engine.Reaches` : engines after valid tasks.

## Main statements

* `keeps_callWithin` : calls keep machines closed.
* `Work.Passes.closed` : work passes through closed machines, on which no object has another
  prototype.
* `Work.Passes.ordered` : of two moments of work one comes first.
* `Engine.prototypes_end` : chains of prototypes end at every moment, and they never change.
-/

namespace ScriptEngine

variable {α β : Type} {n : Nat}

/-! ### Calls -/

theorem keeps_effectiveThis (strict : Bool) {this : Value} (ht : this.Below n) :
    (effectiveThis strict this).Keeps n Value.Below := by
  refine .ite (.pure fun _ hk => ht.mono hk) (.ite ?_ (Run.keeps_toObject ht))
  exact fun m hm _ => .ok hm (.refl _) (hm.heap.ref_lt .global)

theorem heap_enterFrame (m : Machine) (info : FunctionInfo) (this callee arguments : Value)
    (scope : Option RecordRef) :
    (m.enterFrame info this callee arguments scope).machine.heap = m.heap := by
  unfold Machine.enterFrame
  cases info.layout.ownFields <;> rfl

theorem keeps_newArguments {callee : Ref} (hc : callee < n) {arguments : List Value}
    (ha : ListBelow n arguments) (paramCount : Nat) :
    (Run.new (·.newArguments arguments paramCount (some callee))).Keeps n Value.Below := by
  refine Run.keeps_new fun c hle => c.newArguments (ha.mono hle) _ fun r hr => ?_
  cases hr
  exact Nat.lt_of_lt_of_le hc hle

theorem keeps_inFrame {enter : Machine → RunState} {x : Act α} {Q : Nat → α → Prop}
    (henter : ∀ {m : Machine}, m.Closed → n ≤ m.heap.size →
      (enter m).Closed ∧ (enter m).machine.heap = m.heap)
    (hx : x.Keeps n Q) : (inFrame enter x).Keeps n fun k p => Q k p.1 := by
  intro m hm hn
  obtain ⟨closed, heap⟩ := henter hm hn
  have hend := hx closed (Nat.le_trans hn (Nat.le_of_eq (congrArg Heap.size heap.symm)))
  change Ending.Closes (enter m).machine.heap Q (x (enter m)) at hend
  rw [heap] at hend
  change Ending.Closes m.heap _ (inFrame enter x m)
  unfold inFrame
  generalize x (enter m) = p at hend ⊢
  cases hend with
  | ok closed links result => exact .ok closed.machine links result
  | error closed links below => exact .error closed.machine links below
  | exhausted => exact .exhausted

/-- The state in which a function begins, one call deeper. -/
theorem FunctionCode.closed_enter {code : FunctionCode} {scope : Option RecordRef} {callee : Ref}
    {this : Value} {arguments : List Value} {m m' : Machine} {s : RunState} (hm : m.Closed)
    (hc : callee < m.heap.size) (ht : this.Below m.heap.size) (ha : ListBelow m.heap.size arguments)
    (h : code.enter scope callee this arguments m = .ok s m') :
    s.Closed ∧ m.heap.KeepsLinks s.machine.heap := by
  obtain ⟨this', m₁, hthis, h⟩ := Exec.ok_of_bind h
  obtain ⟨arguments', m₂, harguments, h⟩ := Exec.ok_of_bind h
  obtain ⟨closed₁, links₁, hthis'⟩ :=
    (keeps_effectiveThis code.info.strict ht).of_ok hm (Nat.le_refl _) hthis
  obtain ⟨closed₂, links₂, harguments'⟩ :=
    (keeps_newArguments hc ha _).of_ok closed₁ links₁.size_le harguments
  cases h
  have hlinks := links₁.trans links₂
  refine ⟨closed₂.enterFrame _ _ (hthis'.mono links₂.size_le) ?_ harguments', ?_⟩
  · exact Nat.lt_of_lt_of_le hc hlinks.size_le
  · rw [heap_enterFrame]
    exact hlinks

/-- A computation one call deeper leaves the machine behind as it does itself, one call less
deep. -/
theorem Run.state_nested (x : Run α) {m : Machine} (h : m.depth < m.limit) :
    (nested x m).state? = (x { m with depth := m.depth + 1 }).state?.map leave := by
  unfold nested
  rw [if_pos h]
  cases x { m with depth := m.depth + 1 } <;> rfl

theorem FunctionCode.state_runFrom (host : Host) (code : FunctionCode) (s : RunState)
    (m : Machine) :
    (code.runFrom host s m).state? = (code.exec host s).state?.map (·.machine) := by
  unfold runFrom
  cases code.exec host s <;> rfl

section Calls

variable {fuel : Nat} (hcall : (callWithin fuel).Keeps)

include hcall

/-- A body without objects with its events, and with what they leave behind. -/
theorem outcome_body {code : FunctionCode} (h : code.Primitive) {s : RunState} (hs : s.Closed) :
    Traced.Outcome (.within fuel) s.machine.heap Completion.Below
      ((code.traced (.within fuel) s).1, code.exec (.within fuel) s) := by
  rw [← (traced_within fuel code s).1]
  exact keeps_body hcall code h hs (Nat.le_refl _)

theorem keeps_exec {code : FunctionCode} (h : code.Primitive) :
    (code.exec (.within fuel)).Keeps n Completion.Below :=
  fun _ hs _ => (outcome_body hcall h hs).ending

/-- The activation of a script's function. -/
theorem keeps_invoke {code : FunctionCode} (h : code.Primitive) (scope : Option RecordRef)
    {callee : Ref} (hc : callee < n) {this : Value} (ht : this.Below n) {arguments : List Value}
    (ha : ListBelow n arguments) :
    (code.invoke (.within fuel) scope callee this arguments).Keeps n Value.Below := by
  refine (keeps_effectiveThis _ ht).bind fun this k hk ht => ?_
  refine (keeps_newArguments (Nat.lt_of_lt_of_le hc hk) (ha.mono hk) _).bind
    fun arguments l hl ha => ?_
  refine (keeps_inFrame (fun hm hle => ?_) (keeps_exec hcall h)).bind fun p i _ hp =>
    .pure fun _ hle => ?_
  · refine ⟨hm.enterFrame _ _ (ht.mono (Nat.le_trans hl hle)) ?_ (ha.mono hle), heap_enterFrame ..⟩
    exact Nat.lt_of_lt_of_le hc (Nat.le_trans hk (Nat.le_trans hl hle))
  · obtain ⟨c, frame⟩ := p
    cases c with
    | ret v => exact Value.Below.mono hp hle
    | _ => trivial

theorem keeps_callWith : Caller.Keeps (callWith (.within fuel)) := by
  intro n f this arguments hf ht ha
  refine (Run.keeps_callable hf "a function").bind fun found k hk hfound => ?_
  obtain ⟨r, f⟩ := found
  refine Run.keeps_nested ?_
  cases f with
  | native f => exact Run.keeps_native hcall f (ht.mono hk) (ha.mono hk)
  | script code scope => exact keeps_invoke hcall hfound.2 scope hfound.1 (ht.mono hk) (ha.mono hk)

end Calls

/-- Calls keep machines closed. -/
theorem keeps_callWithin (fuel : Nat) : (callWithin fuel).Keeps := by
  induction fuel with
  | zero => exact fun _ _ _ _ _ _ _ => .exhaust
  | succ fuel ih => exact keeps_callWith ih

/-! ### Work -/

namespace Work

/-- Work on a closed machine, with values of its heap and with code without objects. -/
def Closed : Work → Prop
  | .computation x m => m.Closed ∧ Run.KeepsCalling m.heap.size x ∧ Run.Regular x
  | .call c => c.Closed
  | .body code s => s.Closed ∧ code.Primitive

theorem Closed.machine {w : Work} (h : w.Closed) : w.machine.Closed := by
  cases w with
  | computation x m => exact h.1
  | call c => exact Call.Closed.machine h
  | body code s => exact h.1.machine

variable {fuel : Nat}

/-- What closed work leaves behind is closed, and no object has another prototype. -/
theorem Closed.after {w : Work} (hw : w.Closed) {n : Machine} (h : w.after? fuel = some n) :
    n.Closed ∧ w.machine.heap.KeepsLinks n.heap := by
  have hcall := keeps_callWithin fuel
  cases w with
  | computation x m =>
    obtain ⟨hm, hx, -⟩ := hw
    exact (hx _ hcall hm (Nat.le_refl _)).state h
  | call c => exact (hcall.closes hw).state h
  | body code s =>
    obtain ⟨t, ht, rfl⟩ := Option.map_eq_some_iff.mp h
    obtain ⟨hclosed, hlinks⟩ := (outcome_body hcall hw.2 hw.1).ending.state ht
    exact ⟨hclosed.machine, hlinks⟩

/-! #### Parts of work -/

theorem Closed.made {x : Caller → Run α} {m : Machine} {c : Call} (hw : (computation x m).Closed)
    (h : Run.Makes x (callWithin fuel) m c) : (call c).Closed :=
  (hw.2.1.call_closed (keeps_callWithin fuel) hw.1 h).1

theorem Closed.native {c : Call} (hc : (call c).Closed) (f : Native) :
    (computation (f.run · c.this c.arguments)
      { c.machine with depth := c.machine.depth + 1 }).Closed := by
  refine ⟨⟨hc.machine.heap, hc.machine.records⟩, fun _ hcall => ?_, Run.regular_native f _ _⟩
  exact (Run.keeps_native hcall f (Call.Closed.this hc) (Call.Closed.arguments hc)).forget

theorem Closed.script {c : Call} (hc : (call c).Closed) {r : Ref} {code : FunctionCode}
    {scope : Option RecordRef} {s : RunState} {m : Machine} (h : c.callee = .object r)
    (hf : (c.machine.heap.object r).cls = .function (.script code scope))
    (hs : code.enter scope r c.this c.arguments
      { c.machine with depth := c.machine.depth + 1 } = .ok s m) :
    (body code s).Closed ∧ c.machine.heap.KeepsLinks s.machine.heap := by
  have hmachine : c.machine.Closed := hc.machine
  have hcode := (hmachine.heap.object r).cls
  rw [hf] at hcode
  have hcallee := Call.Closed.callee hc
  rw [h] at hcallee
  obtain ⟨closed, links⟩ := FunctionCode.closed_enter
    (m := { c.machine with depth := c.machine.depth + 1 }) ⟨hc.machine.heap, hc.machine.records⟩
    hcallee (Call.Closed.this hc) (Call.Closed.arguments hc) hs
  exact ⟨⟨closed, hcode⟩, links⟩

theorem Closed.run {code : FunctionCode} {s t : RunState} {x : Caller → Run α}
    (hw : (body code s).Closed) (h : .run x t ∈ (code.traced (.within fuel) s).1) :
    (computation x t.machine).Closed := by
  obtain ⟨closed, keeps⟩ := (outcome_body (keeps_callWithin fuel) hw.2 hw.1).trail.closed _ h
  exact ⟨closed.machine, keeps, ((traced_within fuel code s).2 _ h).1⟩

theorem Closed.trail {code : FunctionCode} {s : RunState} (hw : (body code s).Closed) :
    Trail (.within fuel) s.machine.heap (code.traced (.within fuel) s).1 :=
  (outcome_body (keeps_callWithin fuel) hw.2 hw.1).trail

/-- What an event of closed work leaves behind is the past of what the work leaves behind. -/
theorem Closed.event_before {code : FunctionCode} {s : RunState} {e : Event} {m : Machine}
    (hw : (body code s).Closed) (he : e ∈ (code.traced (.within fuel) s).1)
    (hm : (body code s).after? fuel = some m) : e.Before (.within fuel) m.heap := by
  obtain ⟨t, ht, rfl⟩ := Option.map_eq_some_iff.mp hm
  exact (outcome_body (keeps_callWithin fuel) hw.2 hw.1).before t ht e he

/-- During an event of closed work no object gets another prototype. -/
theorem Closed.links_event {code : FunctionCode} {s : RunState} {e : Event} {m : Machine}
    (hw : (body code s).Closed) (he : e ∈ (code.traced (.within fuel) s).1)
    (hm : e.after? (.within fuel) = some m) : e.state.machine.heap.KeepsLinks m.heap := by
  cases e with
  | run x t => exact ((hw.run he).after hm).2
  | _ =>
    cases hm
    exact .refl _

/-- The calls of closed work give no object another prototype. -/
theorem Closed.linkedCalls {x : Caller → Run α} {m : Machine} (hw : (computation x m).Closed) :
    Run.LinkedCalls x (callWithin fuel) m :=
  fun _ hc _ hn => ((hw.made hc).after hn).2

/-! #### Moments of work -/

/-- Closed work passes through closed machines, on which no object has another prototype. -/
theorem Passes.closed {w : Work} {n : Machine} (h : w.Passes fuel n) (hw : w.Closed) :
    n.Closed ∧ w.machine.heap.KeepsLinks n.heap := by
  induction h with
  | begins => exact ⟨hw.machine, .refl _⟩
  | ends h => exact hw.after h
  | made h _ ih =>
    obtain ⟨closed, links⟩ := ih (hw.made h)
    exact ⟨closed, (hw.2.2.links_of_makes hw.linkedCalls h).trans links⟩
  | native _ _ _ _ ih => exact ih (hw.native _)
  | script h hf _ hs _ ih =>
    obtain ⟨hbody, entered⟩ := hw.script h hf hs
    obtain ⟨closed, links⟩ := ih hbody
    exact ⟨closed, entered.trans links⟩
  | event h => exact ⟨(hw.trail.closed _ h).state.machine, hw.trail.links _ h⟩
  | run h _ ih =>
    obtain ⟨closed, links⟩ := ih (hw.run h)
    exact ⟨closed, (hw.trail.links _ h).trans links⟩

/-- A call leaves behind what its native function does, one call less deep. -/
theorem after_native {c : Call} {r : Ref} {f : Native} (h : c.callee = .object r)
    (hf : (c.machine.heap.object r).cls = .function (.native f))
    (hdepth : c.machine.depth < c.machine.limit) :
    (call c).after? (fuel + 1) = ((computation (f.run · c.this c.arguments)
      { c.machine with depth := c.machine.depth + 1 }).after? fuel).map Run.leave := by
  change (callWith (.within fuel) c.callee c.this c.arguments c.machine).state? = _
  rw [h, callWith_of_function _ c.this c.arguments hf, Run.state_nested _ hdepth]
  rfl

/-- A call leaves behind what the body of its function does, one call less deep. -/
theorem after_script {c : Call} {r : Ref} {code : FunctionCode} {scope : Option RecordRef}
    {s : RunState} {m : Machine} (h : c.callee = .object r)
    (hf : (c.machine.heap.object r).cls = .function (.script code scope))
    (hdepth : c.machine.depth < c.machine.limit)
    (hs : code.enter scope r c.this c.arguments
      { c.machine with depth := c.machine.depth + 1 } = .ok s m) :
    (call c).after? (fuel + 1) = ((body code s).after? fuel).map Run.leave := by
  change (callWith (.within fuel) c.callee c.this c.arguments c.machine).state? = _
  rw [h, callWith_of_function _ c.this c.arguments hf, Run.state_nested _ hdepth]
  dsimp only
  rw [FunctionCode.invoke_eq]
  change (Exec.andThen (code.enter scope r c.this c.arguments) _ _).state?.map _ = _
  unfold Exec.andThen
  rw [hs]
  exact congrArg _ (code.state_runFrom _ s m)

/-- The end of closed work comes after all machines that it passes through. -/
theorem Passes.before_end {w : Work} {n m : Machine} (h : w.Passes fuel n) (hw : w.Closed)
    (hm : w.after? fuel = some m) : n.heap.KeepsLinks m.heap := by
  induction h generalizing m with
  | begins => exact (hw.after hm).2
  | ends h =>
    cases h.symm.trans hm
    exact .refl _
  | made h _ ih =>
    obtain ⟨p, hp, links⟩ := hw.2.2.follows_end hw.linkedCalls h hm
    exact (ih (hw.made h) hp).trans links
  | native h hf hdepth _ ih =>
    rw [after_native h hf hdepth] at hm
    obtain ⟨p, hp, rfl⟩ := Option.map_eq_some_iff.mp hm
    exact ih (hw.native _) (m := p) hp
  | script h hf hdepth hs _ ih =>
    rw [after_script h hf hdepth hs] at hm
    obtain ⟨p, hp, rfl⟩ := Option.map_eq_some_iff.mp hm
    exact ih (hw.script h hf hs).1 (m := p) hp
  | @event fuel code s e h =>
    obtain ⟨p, hp, links⟩ := hw.event_before h hm
    exact (hw.links_event h hp).trans links
  | run h _ ih =>
    obtain ⟨p, hp, links⟩ := hw.event_before h hm
    exact (ih (hw.run h) hp).trans links

/-- Work passes through a machine in the course of one of its events. -/
def PassesDuring (fuel : Nat) (e : Event) (n : Machine) : Prop :=
  n = e.state.machine ∨
    ∃ (α : Type) (x : Caller → Run α) (t : RunState), e = .run x t ∧
      (computation x t.machine).Passes fuel n

/-- All that a body passes through during one event comes before all that it passes through during a
later one. -/
theorem PassesDuring.before {code : FunctionCode} {s : RunState} {e e' : Event} {n n' : Machine}
    (h : PassesDuring fuel e n) (h' : PassesDuring fuel e' n') (hw : (body code s).Closed)
    (he : e ∈ (code.traced (.within fuel) s).1) (he' : e' ∈ (code.traced (.within fuel) s).1)
    (hbefore : e.Before (.within fuel) e'.state.machine.heap) : n.heap.KeepsLinks n'.heap := by
  obtain ⟨p, hp, links⟩ := hbefore
  have hn : n.heap.KeepsLinks p.heap := by
    rcases h with rfl | ⟨_, x, t, rfl, hn⟩
    · exact hw.links_event he hp
    · exact hn.before_end (hw.run he) hp
  have hn' : e'.state.machine.heap.KeepsLinks n'.heap := by
    rcases h' with rfl | ⟨_, x, t, rfl, hn'⟩
    · exact .refl _
    · exact (hn'.closed (hw.run he')).2
  exact (hn.trans links).trans hn'

/-- Of two events that a body passes through one comes first, unless they are the same. -/
theorem PassesDuring.ordered {code : FunctionCode} {s : RunState} {e e' : Event} {n n' : Machine}
    (h : PassesDuring fuel e n) (h' : PassesDuring fuel e' n') (hw : (body code s).Closed)
    (he : e ∈ (code.traced (.within fuel) s).1) (he' : e' ∈ (code.traced (.within fuel) s).1) :
    e = e' ∨ n.heap.KeepsLinks n'.heap ∨ n'.heap.KeepsLinks n.heap := by
  obtain ⟨i, hi, rfl⟩ := List.mem_iff_getElem.mp he
  obtain ⟨j, hj, rfl⟩ := List.mem_iff_getElem.mp he'
  have htrail : Trail (.within fuel) _ _ := hw.trail
  have hordered := List.pairwise_iff_getElem.mp htrail.ordered
  rcases Nat.lt_trichotomy i j with hij | rfl | hij
  · exact .inr (.inl (h.before h' hw he he' (hordered i j hi hj hij)))
  · exact .inl rfl
  · exact .inr (.inr (h'.before h hw he' he (hordered j i hj hi hij)))

/-- What a body passes through: its beginning, its end, and what happens during its events. -/
theorem Passes.of_body {code : FunctionCode} {s : RunState} {n : Machine}
    (h : (body code s).Passes fuel n) :
    n = s.machine ∨ (body code s).after? fuel = some n ∨
      ∃ e ∈ (code.traced (.within fuel) s).1, PassesDuring fuel e n := by
  cases h with
  | begins => exact .inl rfl
  | ends h => exact .inr (.inl h)
  | event h => exact .inr (.inr ⟨_, h, .inl rfl⟩)
  | run h hn => exact .inr (.inr ⟨_, h, .inr ⟨_, _, _, rfl, hn⟩⟩)

/-- Of two machines that closed work passes through, one comes first. -/
theorem Passes.ordered {w : Work} {n n' : Machine} (h : w.Passes fuel n) (h' : w.Passes fuel n')
    (hw : w.Closed) : n.heap.KeepsLinks n'.heap ∨ n'.heap.KeepsLinks n.heap := by
  have hfollows {fuel : Nat} {c : Call} {n m : Machine} (hc : (call c).Closed)
      (hn : (call c).Passes fuel n) (h : Run.Follows (callWithin fuel) c m) :
      n.heap.KeepsLinks m.heap := by
    obtain ⟨p, hp, links⟩ := h
    exact (hn.before_end hc hp).trans links
  induction h generalizing n' with
  | begins => exact .inl (h'.closed hw).2
  | ends h => exact .inr (h'.before_end hw h)
  | made h hn ih =>
    cases h' with
    | begins => exact .inr ((Passes.made h hn).closed hw).2
    | ends h' => exact .inl ((Passes.made h hn).before_end hw h')
    | made h' hn' =>
      rcases hw.2.2.ordered hw.linkedCalls h h' with rfl | hcd | hdc
      · exact ih hn' (hw.made h)
      · exact .inl ((hfollows (hw.made h) hn hcd).trans (hn'.closed (hw.made h')).2)
      · exact .inr ((hfollows (hw.made h') hn' hdc).trans (hn.closed (hw.made h)).2)
  | @native fuel c n r f h hf hdepth hn ih =>
    cases h' with
    | begins => exact .inr ((Passes.native h hf hdepth hn).closed hw).2
    | ends h' => exact .inl ((Passes.native h hf hdepth hn).before_end hw h')
    | native h' hf' _ hn' =>
      cases h.symm.trans h'
      cases hf.symm.trans hf'
      exact ih hn' (hw.native _)
    | script h' hf' =>
      cases h.symm.trans h'
      cases hf.symm.trans hf'
  | @script fuel c m n r code scope s h hf hdepth hs hn ih =>
    cases h' with
    | begins => exact .inr ((Passes.script h hf hdepth hs hn).closed hw).2
    | ends h' => exact .inl ((Passes.script h hf hdepth hs hn).before_end hw h')
    | native h' hf' =>
      cases h.symm.trans h'
      cases hf.symm.trans hf'
    | script h' hf' _ hs' hn' =>
      cases h.symm.trans h'
      cases hf.symm.trans hf'
      cases hs.symm.trans hs'
      exact ih hn' (hw.script h hf hs).1
  | @event fuel code s e h =>
    rcases h'.of_body with rfl | hend | ⟨e', he', hn'⟩
    · exact .inr (hw.trail.links e h)
    · exact .inl ((Passes.event h).before_end hw hend)
    · rcases PassesDuring.ordered (.inl rfl) hn' hw h he' with rfl | hordered
      · rcases hn' with rfl | ⟨_, x, t, rfl, hn'⟩
        · exact .inl (.refl _)
        · exact .inl (hn'.closed (hw.run h)).2
      · exact hordered
  | @run fuel code s t _ x n h hn ih =>
    rcases h'.of_body with rfl | hend | ⟨e', he', hn'⟩
    · exact .inr ((Passes.run h hn).closed hw).2
    · exact .inl ((Passes.run h hn).before_end hw hend)
    · rcases PassesDuring.ordered (.inr ⟨_, _, _, rfl, hn⟩) hn' hw h he' with rfl | hordered
      · rcases hn' with rfl | ⟨_, y, u, heq, hn'⟩
        · exact .inr (hn.closed (hw.run h)).2
        · cases heq
          exact ih hn' (hw.run h)
      · exact hordered

end Work

/-! ### Tasks -/

/-- A script begins on a closed machine, with the heap of this machine. -/
theorem FunctionCode.closed_begin (code : FunctionCode) {m : Machine} (hm : m.Closed) :
    (code.begin m).Closed ∧ (code.begin m).machine.heap = m.heap :=
  ⟨hm.enterFrame _ _ (hm.heap.ref_lt .global) trivial trivial, heap_enterFrame ..⟩

namespace Engine

/-- The scripts of an engine are compiled programs. -/
theorem exists_of_compile {e : Engine} {source : String} {p : CompiledProgram}
    (h : e.compile source = .ok p) : ∃ q : Program, q.compile e.options = .ok p := by
  unfold Engine.compile at h
  split at h
  · cases h
  · rename_i q _
    split at h
    · cases h
    · rename_i hq
      cases h
      exact ⟨q, hq⟩

namespace Task

/-- Tasks that can be asked of an engine: any text, scripts that were compiled, and values of the
engine. -/
def Valid (e : Engine) : Task → Prop
  | .eval _ => True
  | .run p => ∃ (q : Program) (options : CompileOptions), q.compile options = .ok p
  | .call callee this arguments =>
    callee.Below e.machine.heap.size ∧ this.Below e.machine.heap.size ∧
      ListBelow e.machine.heap.size arguments
  | .construct callee arguments =>
    callee.Below e.machine.heap.size ∧ ListBelow e.machine.heap.size arguments

variable {e e' : Engine} {t : Task} {fuel : Nat}

/-- The work for a valid task is closed, and it begins on the heap of the engine. -/
theorem Valid.closed (ht : t.Valid e) (he : e.machine.Closed) {w : Work} (h : t.work? e = some w) :
    w.Closed ∧ w.machine.heap = e.machine.heap := by
  have hscript {q : Program} {options : CompileOptions} {p : CompiledProgram}
      (hq : q.compile options = .ok p) :
      (Work.body p.code (p.code.begin e.machine)).Closed ∧
        (p.code.begin e.machine).machine.heap = e.machine.heap :=
    ⟨⟨(p.code.closed_begin he).1, Program.primitive_of_compile hq⟩, (p.code.closed_begin he).2⟩
  cases t with
  | eval source =>
    dsimp only [work?] at h
    cases hc : e.compile source with
    | error err =>
      rw [hc] at h
      cases h
    | ok p =>
      rw [hc] at h
      cases h
      obtain ⟨q, hq⟩ := exists_of_compile hc
      exact hscript hq
  | run p =>
    cases h
    obtain ⟨q, options, hq⟩ := ht
    exact hscript hq
  | call callee this arguments =>
    cases h
    exact ⟨⟨he, ht.1, ht.2.1, ht.2.2⟩, rfl⟩
  | construct callee arguments =>
    cases h
    exact ⟨⟨he, fun call hcall => (Run.keeps_construct hcall ht.1 ht.2).forget,
      Run.regular_construct callee arguments⟩, rfl⟩

/-- An engine with a closed machine passes through closed machines with a valid task. -/
theorem Passes.closed {n : Machine} (h : t.Passes fuel e n) (ht : t.Valid e)
    (he : e.machine.Closed) :
    n.Closed ∧ e.machine.heap.KeepsLinks n.heap := by
  rcases h with rfl | ⟨w, hw, hn⟩
  · exact ⟨he, .refl _⟩
  · obtain ⟨hclosed, hheap⟩ := ht.closed he hw
    rw [← hheap]
    exact hn.closed hclosed

/-- What a valid task leaves behind comes after all machines of the task. -/
theorem Passes.before_end {n : Machine} (h : t.Passes fuel e n) (ht : t.Valid e)
    (he : e.machine.Closed) (hend : (t.perform fuel e).state? = some e') :
    n.heap.KeepsLinks e'.machine.heap := by
  rcases after_perform hend with ⟨hnone, rfl⟩ | ⟨w, hw, hafter⟩
  · rcases h with rfl | ⟨w, hw, hn⟩
    · exact .refl _
    · cases hnone.symm.trans hw
  · obtain ⟨hclosed, hheap⟩ := ht.closed he hw
    rcases h with rfl | ⟨w', hw', hn⟩
    · rw [← hheap]
      exact (hclosed.after hafter).2
    · cases hw.symm.trans hw'
      exact hn.before_end hclosed hafter

/-- Of two machines that an engine passes through with a valid task, one comes first. -/
theorem Passes.ordered {n n' : Machine} (h : t.Passes fuel e n) (h' : t.Passes fuel e n')
    (ht : t.Valid e) (he : e.machine.Closed) :
    n.heap.KeepsLinks n'.heap ∨ n'.heap.KeepsLinks n.heap := by
  rcases h with rfl | ⟨w, hw, hn⟩
  · exact .inl (h'.closed ht he).2
  · rcases h' with rfl | ⟨w', hw', hn'⟩
    · exact .inr (closed (.inr ⟨w, hw, hn⟩) ht he).2
    · cases hw.symm.trans hw'
      exact hn.ordered hn' (ht.closed he hw).1

/-- What a valid task leaves behind is closed. -/
theorem Valid.after (ht : t.Valid e) (he : e.machine.Closed)
    (hend : (t.perform fuel e).state? = some e') :
    e'.machine.Closed := by
  rcases after_perform hend with ⟨-, rfl⟩ | ⟨w, hw, hafter⟩
  · exact he
  · exact ((ht.closed he hw).1.after hafter).1

end Task

/-- An engine comes from another one by valid tasks, and by taking what was written to the
console. -/
inductive Reaches (e : Engine) : Engine → Prop
  | refl : Reaches e e
  | task {e₁ e₂ : Engine} {fuel : Nat} {t : Task} (h : Reaches e e₁) (ht : t.Valid e₁)
      (hend : (t.perform fuel e₁).state? = some e₂) : Reaches e e₂
  | takeOutput {e₁ : Engine} (h : Reaches e e₁) : Reaches e e₁.takeOutput.2

/-- Engines that come from a closed one are closed, and no object of theirs has another
prototype. -/
theorem Reaches.closed {e e' : Engine} (h : e.Reaches e') (he : e.machine.Closed) :
    e'.machine.Closed ∧ e.machine.heap.KeepsLinks e'.machine.heap := by
  induction h with
  | refl => exact ⟨he, .refl _⟩
  | task _ ht hend ih =>
    obtain ⟨closed, links⟩ := ih
    exact ⟨ht.after closed hend, links.trans (Task.Passes.before_end (.inl rfl) ht closed hend)⟩
  | takeOutput _ ih =>
    obtain ⟨closed, links⟩ := ih
    exact ⟨⟨closed.heap, closed.records⟩, links⟩

theorem closed_ofConfig (config : EngineConfig) : (ofConfig config).machine.Closed where
  heap := Heap.closed_initial
  records _ _ := trivial

/-- Chains of prototypes are finite at every moment of every task of an engine: each object inherits
from one that was made before it, so following prototypes ends, and with it every loop that reads or
looks for a property, collects keys or looks for an object.  An object has the same prototype at all
moments of a task, and at all moments of later tasks. -/
theorem prototypes_end {config : EngineConfig} {e : Engine} {fuel : Nat} {t : Task}
    (he : (ofConfig config).Reaches e) (ht : t.Valid e) {n : Machine} (hn : t.Passes fuel e n) :
    n.heap.Linked ∧ (∀ r, n.heap.Ends r) ∧ n.heap.LoopsEnd ∧
    (∀ n', t.Passes fuel e n' → ∀ r, r < n.heap.size → r < n'.heap.size →
      (n'.heap.object r).prototype = (n.heap.object r).prototype) ∧
    ∀ e' e₂ fuel' t' n', (t.perform fuel e).state? = some e' → e'.Reaches e₂ → t'.Valid e₂ →
      Task.Passes fuel' e₂ t' n' → n.heap.KeepsLinks n'.heap := by
  have hclosed := (he.closed (closed_ofConfig config)).1
  have hlinked := (hn.closed ht hclosed).1.heap.linked
  refine ⟨hlinked, hlinked.ends, hlinked.loopsEnd, fun n' hn' r hr hr' => ?_,
    fun e' e₂ fuel' t' n' hend hreaches ht' hn' => ?_⟩
  · rcases hn.ordered hn' ht hclosed with links | links
    · exact links.prototype r hr
    · exact (links.prototype r hr').symm
  · obtain ⟨closed, links⟩ := hreaches.closed (ht.after hclosed hend)
    exact ((hn.before_end ht hclosed hend).trans links).trans (hn'.closed ht' closed).2

/-- The end of a task is one of the moments of the task. -/
theorem Task.passes_end {e e' : Engine} {fuel : Nat} {t : Task}
    (h : (t.perform fuel e).state? = some e') :
    t.Passes fuel e e'.machine := by
  rcases after_perform h with ⟨-, rfl⟩ | ⟨w, hw, hafter⟩
  · exact .inl rfl
  · exact .inr ⟨w, hw, .ends hafter⟩

theorem prototypes_end_constructor : ∃ v e',
    (ofConfig .standard).Reaches (ofConfig .standard) ∧
    (Task.eval "function F() \x7b\x7d F.prototype = []; new F();").Valid (ofConfig .standard) ∧
    (Task.eval "function F() \x7b\x7d F.prototype = []; new F();").perform 4 (ofConfig .standard) =
      .ok v e' ∧
    e'.machine.heap.Linked ∧ ∀ r, e'.machine.heap.Ends r := by
  have hruns : ((Task.eval "function F() \x7b\x7d F.prototype = []; new F();").perform 4
      (ofConfig .standard)).passes (fun _ _ => true) = true := by decide +kernel
  obtain ⟨v, e', hend, -⟩ := Ending.exists_of_passes hruns
  have hreaches : (ofConfig .standard).Reaches (ofConfig .standard) := .refl
  obtain ⟨hlinked, hends, -⟩ :=
    prototypes_end hreaches (show Task.Valid _ (.eval _) from trivial)
      (Task.passes_end (congrArg Ending.state? hend))
  exact ⟨v, e', hreaches, trivial, hend, hlinked, hends⟩

end Engine

end ScriptEngine
