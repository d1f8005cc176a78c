import ScriptEngine.Proofs.Compile.ParallelBodies
import ScriptEngine.Proofs.Compile.TypedSlots

/-!
# Types cannot be observed

A script is compiled with types if and only if it is compiled without, and both codes do the same.
An activation of a body ends as the statements of the body do on the places that were given in the
end, and these do the same with both codes of their expressions.  The calls in between enter
activations of the two codes of one function again, one level deeper.

## Main definitions

* `CompiledProgram.SameFunction` : the codes of one function in two compilations.

## Main statements

* `Compile.endsAs_counterparts` : activations of the two codes of a function end in the same way.
* `Analysis.agrees_within` : calls do the same on machines that are the same up to these codes.
* `Program.specialize_unobservable` : a script does the same with types and without.
-/

namespace ScriptEngine

/-! ### Activations -/

/-- The statements of a body tell what its activation yields. -/
theorem Completion.Fits.callValue_eq {isProgram : Bool} {c d : Completion} {l : LabelCompletion}
    (hc : c.Fits isProgram l) (hd : d.Fits isProgram l) : c.callValue = d.callValue := by
  cases hc <;> cases hd <;> rfl

namespace Compile

section

variable {ctx : BodyContext} {given given' : BodyState} {host : Host} {W : Set VariableId}
  (name : String) (paramCount : Nat) (globals : List String) (hp : ctx.Places given given')
include hp

/-- Activations of the two codes of a body start alike. -/
theorem parallel_enterFrame {m n : Machine} (hmn : m.Recoded ctx.analysis.Counterparts n)
    (this callee arguments : Value) (scope : Option RecordRef) :
    RunState.Parallel ctx given given' ∅
      (m.enterFrame (bodyInfo ctx name paramCount globals given) this callee arguments scope)
      (n.enterFrame (bodyInfo ctx.untyped name paramCount globals given') this callee arguments
        scope) where
  machine := by
    unfold Machine.enterFrame
    rw [hmn.records]
    exact hmn.withRecords _
  outline := by
    unfold Machine.enterFrame Frame.outline bodyInfo
    rw [hmn.records, hp.parallel.hops]
    rfl
  room ρ := by
    rw [(m.has_enterFrame _ _ _ _ _ rfl).slots]
    cases ρ <;> exact le_rfl
  room' ρ := by
    rw [(n.has_enterFrame _ _ _ _ _ rfl).slots]
    cases ρ <;> exact le_rfl
  slots v x y hx hy hρ := by
    -- Nothing was written, and all slots for values are empty.
    have hempty (m : Machine) (info : FunctionInfo) (i : Nat) :
        (m.enterFrame info this callee arguments scope).frame.slot .boxed i = .undefined := by
      simp only [Frame.slot, Machine.enterFrame, Array.getElem?_replicate]
      split <;> rfl
    obtain ⟨ρ, i⟩ := x
    obtain ⟨σ, j⟩ := y
    obtain rfl : ρ = .boxed := by_contra fun hne => hρ hne
    obtain rfl : σ = .boxed := hp.boxed hy
    exact (hempty ..).trans (hempty ..).symm

/-- The arguments object is kept in a slot for values. -/
theorem same_slotArguments (harguments : ∀ v, (ctx.analysis.body ctx.id).arguments = some v →
      ¬ (ctx.analysis.var v).valueType.IsConcrete) (arguments : Value) :
    Exec.Same (RunState.Parallel ctx given given' W)
      ((bodyInfo ctx name paramCount globals given).slotArguments arguments)
      ((bodyInfo ctx.untyped name paramCount globals given').slotArguments arguments) := by
  have hslot : (bodyInfo ctx name paramCount globals given).argumentsSlot =
      (ctx.analysis.body ctx.id).arguments.bind fun v => (given.slot? v).map (·.index) := rfl
  have hslot' : (bodyInfo ctx.untyped name paramCount globals given').argumentsSlot =
      (ctx.analysis.body ctx.id).arguments.bind fun v => (given'.slot? v).map (·.index) := rfl
  unfold FunctionInfo.slotArguments
  rw [hslot, hslot']
  cases hv : (ctx.analysis.body ctx.id).arguments with
  | none => exact .pure _
  | some v =>
    rw [Option.bind_some, Option.bind_some]
    have hsome := hp.parallel.slots v
    cases hx : given.slot? v with
    | none =>
      cases hy : given'.slot? v with
      | none => exact .pure _
      | some y => rw [hx, hy] at hsome; cases hsome
    | some x =>
      cases hy : given'.slot? v with
      | none => rw [hx, hy] at hsome; cases hsome
      | some y =>
        obtain ⟨ρ, i⟩ := x
        obtain ⟨σ, j⟩ := y
        obtain rfl : σ = .boxed := hp.boxed hy
        obtain rfl : ρ = .boxed := by_contra fun hρ =>
          harguments v hv (isConcrete_of_allotted (x := .slot ρ i) hp.typed hx hρ)
        exact fun s t hst => .ok ⟨rfl, (hst.setSlot hp hx hy rfl).of_subset (Set.subset_insert ..)⟩

variable {body : List Stmt} {r r' : List StatementCode × List StatementCode}

/-- Activations of the two codes of a body, from the entry on. -/
theorem same_activation (h : BodyAlike host ctx body given given' r r')
    (hsites : AllSound ctx.analysis (stmtTypeSites ctx.analysis true ∅ body))
    (hcalled : ctx.isProgram = false → ctx.analysis.ReceivesOnCall ctx.id)
    (harguments : ∀ v, (ctx.analysis.body ctx.id).arguments = some v →
      ¬ (ctx.analysis.var v).valueType.IsConcrete) :
    Exec.Same (RunState.Parallel ctx given given' ∅)
      (ctx.activation host given (bodyInfo ctx name paramCount globals given) (.block r.2) body)
      (ctx.untyped.activation host given' (bodyInfo ctx.untyped name paramCount globals given')
        (.block r'.2) body) := by
  have hS : RunState.Recoding ctx.analysis.Counterparts (RunState.Parallel ctx given given' ∅) :=
    RunState.recoding_parallel
  have hfield : (bodyInfo ctx name paramCount globals given).argumentsField =
      (bodyInfo ctx.untyped name paramCount globals given').argumentsField := rfl
  unfold BodyContext.activation
  refine (hS.same_keepArguments hfield
    (same_slotArguments name paramCount globals hp harguments)).bind fun _ =>
    (hS.same_declareGlobals Analysis.Counterparts.resembles _).bind fun _ => ?_
  rw [StatementCode.exec, StatementCode.exec]
  exact (h.entry hsites hcalled).same.bind fun _ => (h.statements true ∅ hsites).same

/-- Activations of the two codes of a body. -/
theorem endsAs_of_bodies (h : BodyAlike host ctx body given given' r r')
    (hruns : BodyRuns host ctx body given r) (hruns' : BodyRuns host ctx.untyped body given' r')
    (hsites : AllSound ctx.analysis (stmtTypeSites ctx.analysis true ∅ body))
    (hcalled : ctx.isProgram = false → ctx.analysis.ReceivesOnCall ctx.id)
    (harguments : ∀ v, (ctx.analysis.body ctx.id).arguments = some v →
      ¬ (ctx.analysis.var v).valueType.IsConcrete) :
    (FunctionCode.mk (bodyInfo ctx name paramCount globals given) (.block r.2) (.block r.1)).EndsAs
      ctx.analysis.Counterparts host
      (.mk (bodyInfo ctx.untyped name paramCount globals given') (.block r'.2) (.block r'.1)) := by
  intro m n hmn this callee arguments scope
  -- Each of them ends as the statements do.
  have htyped := sameEnding_activation hruns.1 hruns.2 name paramCount globals m this callee
      arguments scope
  have huntyped := sameEnding_activation hruns'.1 hruns'.2 name paramCount globals n this callee
      arguments scope
  have hsame := same_activation name paramCount globals hp h hsites hcalled harguments
    (parallel_enterFrame name paramCount globals hp hmn this callee arguments scope)
  refine ((htyped.trans hsame).trans huntyped.symm).mono ?_ ?_
  · rintro s t ⟨t', ⟨s', hs, hst⟩, ht⟩
    rw [← hs.machine, ← ht.machine]
    exact hst.machine
  · rintro c d s t ⟨_, t', ⟨l, s', ⟨hc, hs⟩, rfl, hst⟩, hd, ht⟩
    refine ⟨hc.callValue_eq hd, ?_, ?_⟩
    · obtain ⟨_, hframe⟩ := hs.frame
      obtain ⟨_, hframe'⟩ := ht.frame
      have houtline := congrArg Frame.completion hst.outline
      rwa [hframe, hframe'] at houtline
    · rw [← hs.machine, ← ht.machine]
      exact hst.machine

end

/-! ### Functions -/

section

variable {a : Analysis} {host : Host} (hcall : host.Agrees a)
include hcall

/-- Activations of the two codes of a function end in the same way if the calls that they make do
the same. -/
theorem endsAs_counterparts {c d : FunctionCode} (h : a.Counterparts c d) :
    c.EndsAs a.Counterparts host d := by
  obtain ⟨f, hf, hc, hd⟩ := h
  obtain ⟨hcalled, hsites⟩ := allSound_func.mp hf
  have hparts := parallel_functionParts
    (fun j => parallel_stmtList host (.ofBody a f.id false) hcall f.body j)
    (parallel_hoistList host (.ofBody a f.id false) hcall f.body) rfl
  rcases hparts.of_initial with ⟨e, h, -⟩ | ⟨r, given, r', given', h, h', hp, hbodies⟩
  · rw [func_of_error h] at hc
    cases hc
  · obtain rfl := Except.ok.inj ((func_of_parts h).symm.trans hc)
    have hends := endsAs_of_bodies f.name f.params.length [] hp hbodies
        ((ensures_functionParts f.body).of_run h)
      ((ensures_functionParts f.body).of_run h') hsites (fun _ => hcalled) hcalled.arguments
    rw [← BodyContext.ofBody_untyped] at h' hends
    obtain rfl := Except.ok.inj ((func_of_parts h').symm.trans hd)
    exact hends

end

end Compile

/-- Calls do the same on machines that are the same up to the two codes of functions. -/
theorem Analysis.agrees_within (a : Analysis) : ∀ fuel, (Host.within fuel).Agrees a :=
  calls_recoded Analysis.Counterparts.resembles fun _ hcall _ _ =>
    @Compile.endsAs_counterparts a _ hcall _ _

/-! ### Scripts -/

namespace Compile

section

variable {a : Analysis} {p : Program} {given : BodyState}

theorem program_of_error {e : StaticError}
    (h : scriptParts (.ofBody a 0 true) p.body .initial = .error e) :
    program a p = .error e := by
  change ((scriptParts _ _) _ >>= _) = _
  rw [h]
  rfl

theorem program_of_parts {r : List StatementCode × List StatementCode}
    (h : scriptParts (.ofBody a 0 true) p.body .initial = .ok (r, given)) :
    program a p = .ok (.mk (bodyInfo (.ofBody a 0 true) "" 0
      (declaredNames p.body ++ (bodyFunctions p.body).map (·.name)) given) (.block r.2)
        (.block r.1)) := by
  change ((scriptParts _ _) _ >>= _) = _
  rw [h]
  rfl

/-- Both compilations of a script fail with the same error, or activations of the two codes end in
the same way. -/
theorem parallel_program (hsites : AllSound a (stmtTypeSites a true ∅ p.body))
    (harguments : ∀ v, (a.body 0).arguments = some v → ¬ (a.var v).valueType.IsConcrete) :
    (∃ e, program a p = .error e ∧ program a.untyped p = .error e) ∨
    ∃ c d, program a p = .ok c ∧ program a.untyped p = .ok d ∧
      ∀ fuel, c.EndsAs a.Counterparts (.within fuel) d := by
  have hparts (fuel : Nat) := parallel_scriptParts
    (fun j => parallel_stmtList (.within fuel) (.ofBody a 0 true) (a.agrees_within fuel) p.body j)
    (parallel_hoistList (.within fuel) (.ofBody a 0 true) (a.agrees_within fuel) p.body)
  rcases (hparts 0).of_initial with ⟨e, h, h'⟩ | ⟨r, given, r', given', h, h', hp, -⟩
  · rw [← BodyContext.ofBody_untyped] at h'
    exact .inl ⟨e, program_of_error h, program_of_error h'⟩
  · refine .inr ⟨_, _, program_of_parts h, program_of_parts (by rwa [BodyContext.ofBody_untyped]),
      fun fuel => ?_⟩
    rcases (hparts fuel).of_initial with ⟨e, he, -⟩ | ⟨s, u, s', u', hs, hs', -, hbodies⟩
    · rw [h] at he
      cases he
    · cases h.symm.trans hs
      cases h'.symm.trans hs'
      rw [BodyContext.ofBody_untyped]
      exact endsAs_of_bodies "" 0 _ hp hbodies ((ensures_scriptParts p.body).of_run h)
        ((ensures_scriptParts p.body).of_run h') hsites nofun harguments

end

end Compile

/-- Two codes are those of one function of a script that was compiled twice. -/
def CompiledProgram.SameFunction (c d : CompiledProgram) (code code' : FunctionCode) : Prop :=
  ∃ f : Func, (code.info.id = f.id ∧ Compile.func c.analysis f = .ok code) ∧
    code'.info.id = f.id ∧ Compile.func d.analysis f = .ok code'

/-- A script is compiled with its tables. -/
theorem Program.compile_of_analyze {p : Program} {options : CompileOptions} {a : Analysis}
    (h : analyze p options = .ok a) : p.compile options = (Compile.program a p).map (⟨·, a⟩) := by
  unfold compile
  rw [h]
  rfl

/-- Specialization cannot be observed.  A script is compiled with types if and only if it is
compiled without, and the error is the same otherwise.  On any machine both codes do the same within
any number of steps: neither ends, or both fail with the same error, or both end with the same
value.  Then the machines are the same, with the same output and the same objects at the same places
of the heap, but for functions of one scope that have the two codes of one function. -/
theorem Program.specialize_unobservable {source : String} {p : Program}
    (hp : Program.parse source = .ok p) (strict : Bool) :
    (∃ e, p.compile ⟨strict, true⟩ = .error e ∧ p.compile ⟨strict, false⟩ = .error e) ∨
    ∃ c d, p.compile ⟨strict, true⟩ = .ok c ∧ p.compile ⟨strict, false⟩ = .ok d ∧
      ∀ (m : Machine) (fuel : Nat),
        (c.code.runProgram (.within fuel) m).Agree (Machine.Recoded (c.SameFunction d))
          (fun v w s t => v = w ∧ s.Recoded (c.SameFunction d) t)
            (d.code.runProgram (.within fuel) m) := by
  cases ha : analyze p ⟨strict, true⟩ with
  | error e => exact .inl ⟨e, by rw [compile, ha]; rfl, by rw [compile, analyze_untyped, ha]; rfl⟩
  | ok a =>
    have ha' : analyze p ⟨strict, false⟩ = .ok a.untyped := by rw [analyze_untyped, ha]; rfl
    have harguments (v : VariableId) (hv : (a.body 0).arguments = some v) :
        ¬ (a.var v).valueType.IsConcrete := by
      rw [valueType_arguments hp ha 0 v hv]
      decide
    rw [compile_of_analyze ha, compile_of_analyze ha']
    rcases Compile.parallel_program (Program.sound_typeSites hp ha) harguments with
      ⟨e, h, h'⟩ | ⟨c, d, h, h', hends⟩
    · exact .inl ⟨e, by rw [h]; rfl, by rw [h']; rfl⟩
    · refine .inr ⟨⟨c, a⟩, ⟨d, a.untyped⟩, by rw [h]; rfl, by rw [h']; rfl, fun m fuel => ?_⟩
      have hsame {code code' : FunctionCode} (hcodes : a.Counterparts code code') :
          CompiledProgram.SameFunction ⟨c, a⟩ ⟨d, a.untyped⟩ code code' := by
        obtain ⟨f, -, hf, hf'⟩ := hcodes
        exact ⟨f, ⟨(Compile.info_of_func hf).1, hf⟩, (Compile.info_of_func hf').1, hf'⟩
      exact ((hends fuel).same_runProgram (.refl m)).mono (·.mono hsame) fun ⟨hvalue, hmn⟩ =>
        ⟨hvalue, hmn.mono hsame⟩

/-- A function that keeps a number in a slot for numbers only if it is compiled with types. -/
theorem Program.specialize_unobservable_number : ∃ (p : Program) (c d : CompiledProgram),
    Program.parse "function f(x) { var n = 0; while (n < x) n++; return n + x; } f(4);" = .ok p ∧
    p.compile ⟨false, true⟩ = .ok c ∧ p.compile ⟨false, false⟩ = .ok d ∧
    (Compile.firstFunction? p.body c).map (·.info.layout) = some ⟨0, 1, 0, 0, 0, none⟩ ∧
    (Compile.firstFunction? p.body d).map (·.info.layout) = some ⟨1, 0, 0, 0, 0, none⟩ ∧
    ∀ (m : Machine) (fuel : Nat),
      (c.code.runProgram (.within fuel) m).Agree (Machine.Recoded (c.SameFunction d))
        (fun v w s t => v = w ∧ s.Recoded (c.SameFunction d) t)
          (d.code.runProgram (.within fuel) m) := by
  obtain ⟨p, c, hp, hc, h⟩ := Program.exists_compile
    "function f(x) { var n = 0; while (n < x) n++; return n + x; } f(4);" ⟨false, true⟩
    (fun p c => (p.compile ⟨false, false⟩).toOption.any fun d =>
      (Compile.firstFunction? p.body c).map (·.info.layout) == some ⟨0, 1, 0, 0, 0, none⟩ &&
        (Compile.firstFunction? p.body d).map (·.info.layout) ==
          some ⟨1, 0, 0, 0, 0, none⟩) (by decide +kernel)
  obtain ⟨d, hd, h⟩ := (Option.any_eq_true _ _).mp h
  obtain ⟨htyped, huntyped⟩ := Bool.and_eq_true_iff.mp h
  rcases Program.specialize_unobservable hp false with ⟨e, herror, -⟩ | ⟨c', d', hc', hd', hagree⟩
  · cases hc.symm.trans herror
  · cases hc.symm.trans hc'
    cases (eq_ok_of_toOption hd).symm.trans hd'
    exact ⟨p, c, d, hp, hc, hd', beq_iff_eq.mp htyped, beq_iff_eq.mp huntyped, hagree⟩

end ScriptEngine
