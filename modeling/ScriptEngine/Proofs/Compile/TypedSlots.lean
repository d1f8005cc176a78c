import ScriptEngine.Proofs.Analysis.FinalTypes
import ScriptEngine.Proofs.Compile.Initialization

/-!
# Typed slots in runs

The bodies of a script that was compiled with types, in all their activations: a typed slot is read
only after the same activation has written it, only values of its type are written to it, and the
code of an expression yields values of the type that the last pass over the script finds for it.

## Main definitions

* `Program.Compiles` : the bodies of a script with their code.
* `FunctionCode.TypesHold` : what the types of variables and expressions say about the code of a
  body.

## Main statements

* `Program.types_hold` : the types of all bodies of a script hold.
-/

namespace ScriptEngine

open Compile

/-! ### Bodies of scripts -/

/-- The code of the statements and of the entry of a script or of a function. -/
def Compile.parts (ctx : BodyContext) (body : List Stmt) :
    Compile (List StatementCode × List StatementCode) :=
  if ctx.isProgram then scriptParts ctx body else functionParts ctx body

/-- The entry and the statements of a body are compiled to some code, after which its variables have
the places that are given. -/
def FunctionCode.IsOf (ctx : BodyContext) (body : List Stmt) (given : BodyState)
    (code : FunctionCode) : Prop :=
  ∃ info entry statements, (Compile.parts ctx body).run .initial =
    .ok ((statements, entry), given) ∧
    code = .mk info (.block entry) (.block statements)

/-- The bodies of a script with their code: its own one, and those of the functions that are made in
them. -/
inductive Program.Compiles (p : Program) (a : Analysis) :
    BodyContext → List Stmt → FunctionCode → Prop
  | script {code : FunctionCode} (made : Compile.program a p = .ok code) :
      Compiles p a (.ofBody a 0 true) p.body code
  | function {ctx : BodyContext} {body : List Stmt}
    {outer code : FunctionCode} {piece : Piece} {f : Func}
      (around : Compiles p a ctx body outer) (piece_mem : piece ∈ bodyPieces ctx.isProgram body)
      (makes : piece.function? = some f) (made : Compile.func a f = .ok code) :
      Compiles p a (.ofBody a f.id false) f.body code

/-! ### What types say -/

/-- The type that a pass over a script finds for an expression in the end. -/
def Analysis.finalType (a : Analysis) (e : Expr) : ValueType :=
  (Infer.expr a.reference? e ⟨a.types, []⟩).1

/-- What the types of variables and expressions say about the code of a body. -/
structure FunctionCode.TypesHold (ctx : BodyContext) (body : List Stmt) (given : BodyState)
    (code : FunctionCode) : Prop where
  compiled : code.IsOf ctx body given
  /-- A typed slot is read only after it was written, in any activation on any host. -/
  reads : ∀ (host : Host) (s : RunState), ReadsAfter ∅ (code.traced host s).1
  /-- A write of a typed slot comes from a piece of the body that stores a value, unless the value
  needs no conversion as it is computed in the representation of the slot. -/
  writes : ∀ (host : Host) (s t : RunState) (ρ : Rep) (k : Nat) (v : Value),
    .write (.slot ρ k) v t ∈ (code.traced host s).1 → ρ ≠ .boxed →
      ∃ p ∈ bodyPieces ctx.isProgram body, ∃ acc source, p.Stores ctx given acc source ∧
        acc.binding.storage = .slot ρ k ∧
          (source.Gives host v ∨ ∃ c : Code ρ, source = .code ⟨ρ, c⟩)
  /-- A value that is stored is of the type of the slot before it is converted, so it stays as it
  is. -/
  stores : ∀ p ∈ bodyPieces ctx.isProgram body,
    ∀ (acc : Access) (source : Source) (ρ : Rep) (k : Nat),
    p.Stores ctx given acc source → acc.binding.storage = .slot ρ k →
      ∀ (host : Host) (v : Value), source.Gives host v →
        ρ.Holds v ∧ ∀ call, Run.convert call ρ v = pure (ρ.ofPrimitive v)
  /-- The values of an expression are of the type that is found for it in the end. -/
  expressions : ∀ e, .expr e ∈ bodyPieces ctx.isProgram body → ∃ c,
    Compile.expr ctx e given = .ok (c, given) ∧
    ∀ (host : Host) (v : Value), (c.value host).Yields v → v.Fits (ctx.analysis.finalType e)
  /-- The functions that an activation makes are those of pieces of the body. -/
  functions : ∀ (host : Host) (s t : RunState) (g : FunctionCode),
    .function g t ∈ (code.traced host s).1 →
    ∃ p ∈ bodyPieces ctx.isProgram body, ∃ f, p.function? = some f ∧
      Compile.func ctx.analysis f = .ok g
  /-- The events are those of the run of the code. -/
  ending : ∀ (host : Host) (s : RunState), (code.traced host s).2 = code.exec host s

section

variable {a : Analysis} {ctx : BodyContext} {body : List Stmt} {given : BodyState}
  {code : FunctionCode} {p : Program}

theorem BodyState.slotsOf_empty (given : BodyState) : given.slotsOf ∅ = ∅ :=
  Set.eq_empty_of_forall_notMem fun _ ⟨_, hv, _⟩ => hv

/-- A place where the types can be relied upon changes no type of a variable. -/
theorem TypeSite.Sound.settled {x : TypeSite} (h : x.Sound a) : x.Settled a := by
  cases x with
  | write i t => exact h.merges
  | _ => trivial

/-- The values of an expression are of the type that is found for it in the end. -/
theorem Analysis.finalType_eq (ha : ∀ x ∈ a.vars, x.valueType ≠ .unset) {e : Expr}
    {W : Set VariableId} (h : AllSound a (e.typeSites a W)) : a.finalType e = e.type a := by
  unfold finalType
  rw [Infer.finds_expr ha W e (fun x hx => (h x hx).settled) []]

/-- What is noted of a value is the value itself, unless it has the representation of the slot. -/
theorem Source.gives_of_noted {ρ : Rep} {source : Source} {host : Host} {v : Value}
    (h : (source.noted ρ).Gives host v) :
    source.Gives host v ∨ ∃ c : Code ρ, source = .code ⟨ρ, c⟩ := by
  cases source with
  | code c =>
    obtain ⟨σ, c⟩ := c
    by_cases hσ : σ = ρ
    · subst hσ
      exact .inr ⟨c, rfl⟩
    · have hconvert : (TypedCode.mk σ c).inRep ρ = .unary (.convert σ ρ) c := dif_neg hσ
      change ((TypedCode.mk σ c).inRep ρ).source.Gives host v at h
      rw [hconvert] at h
      exact .inl h
  | _ => exact .inl h

/-! ### Bodies -/

namespace Compile

variable {host : Host} {statements entry : List StatementCode}

section

variable (hsites : AllSound ctx.analysis (stmtTypeSites ctx.analysis true ∅ body))
include hsites

theorem typed_parts (hcall : ctx.isProgram = false → ctx.analysis.ReceivesOnCall ctx.id) :
    Ensures ctx (fun given r => given.Sound ctx ∧ TypedBody ctx body given r) (parts ctx body) := by
  unfold parts
  split
  · next hprogram => exact (typed_scriptParts hsites hprogram).sound
  · next hprogram =>
    have hprogram : ctx.isProgram = false := Bool.not_eq_true _ ▸ hprogram
    exact (typed_functionParts hsites hprogram (hcall hprogram)).sound

theorem prepares_parts (host : Host) : Ensures ctx (fun given r => Prepares host (given.slotsOf ∅)
    (given.slotsOf (stmtsAfter ctx.analysis true ∅ body)) r.1) (parts ctx body) := by
  have hbody := prepares_stmtList host .none body ∅ hsites
  unfold parts
  split
  · exact hbody.bind fun _ => (Ensures.of_steady (steady_hoistList body)).bind fun _ =>
      .pure fun _ _ h => h
  · exact hbody.bind fun _ => (Ensures.of_steady steady_selfEntry).bind fun _ =>
      (Ensures.of_steady (steady_hoistList body)).bind fun _ => .pure fun _ _ _ h => h

end

/-- The effects of a body come from its pieces. -/
theorem TypedBody.permitted (h : TypedBody ctx body given (statements, entry))
    (info : FunctionInfo) :
    ∀ e ∈ (FunctionCode.mk info (.block entry) (.block statements)).effects,
      e.Permitted ctx given (stmtsAfter ctx.analysis true ∅ body) (bodyPieces ctx.isProgram body) :=
  List.forall_mem_append.mpr
    ⟨fun e he => (h.entry e he).mono (Set.empty_subset _) (List.Subset.refl _), h.body.effects⟩

/-- The events of a body come from its pieces, and its trace ends as its run. -/
theorem TypedBody.comes (h : TypedBody ctx body given (statements, entry)) (info : FunctionInfo)
    (host : Host) (s : RunState) :
    (∀ e ∈ ((FunctionCode.mk info (.block entry) (.block statements)).traced host s).1,
      e.Comes ctx given host (stmtsAfter ctx.analysis true ∅ body)
        (bodyPieces ctx.isProgram body)) ∧
    ((FunctionCode.mk info (.block entry) (.block statements)).traced host s).2 =
      (FunctionCode.mk info (.block entry) (.block statements)).exec host s :=
  ActivationRelation.Setting.Follows.comes (ActivationRelation.Setting.follows_function
    ActivationRelation.isDiagonal_equal _ fun e he =>
      ActivationRelation.Setting.admits_permitted (h.permitted info e he)) s

/-- The types of a body hold if they can be relied upon at its sites, and its pieces are known. -/
theorem typesHold_of_run (ha : ∀ x ∈ ctx.analysis.vars, x.valueType ≠ .unset)
    (hsites : AllSound ctx.analysis (stmtTypeSites ctx.analysis true ∅ body))
    (hcall : ctx.isProgram = false → ctx.analysis.ReceivesOnCall ctx.id)
    (hrun : (parts ctx body).run .initial = .ok ((statements, entry), given))
    (info : FunctionInfo) :
    (FunctionCode.mk info (.block entry) (.block statements)).TypesHold ctx body given ∧
      ∀ p ∈ bodyPieces ctx.isProgram body, p.Known ctx given := by
  obtain ⟨hs, htyped⟩ := (typed_parts hsites hcall).of_run hrun
  refine ⟨?_, htyped.body.pieces⟩
  refine
    { compiled := ⟨info, entry, statements, hrun, rfl⟩
      reads := fun host s => ?_
      writes := fun host s t ρ k v hmem hρ => ?_
      stores := fun p hp acc source ρ k hstores hstorage host v hv => ?_
      expressions := fun e he => ?_
      functions := fun host s t g hmem => (htyped.comes info host s).1 _ hmem
      ending := fun host s => (htyped.comes info host s).2 }
  · have hreads :=
      (initializes_body info htyped.entry ((prepares_parts hsites host).of_run hrun)).reads s
    rwa [given.slotsOf_empty] at hreads
  · obtain ⟨p, hp, acc, source, hstores, hstorage, hv⟩ :=
      (htyped.comes info host s).1 _ hmem ρ k rfl hρ
    exact ⟨p, hp, acc, source, hstores, hstorage, Source.gives_of_noted hv⟩
  · have hholds := (htyped.body.pieces p hp).holds hs hstores hstorage hv
    exact ⟨hholds, fun call => convert_of_holds hholds⟩
  · obtain ⟨⟨W, hsites⟩, c, hc⟩ := htyped.body.pieces _ he
    refine ⟨c, hc, fun host v hv => ?_⟩
    rw [Analysis.finalType_eq ha hsites]
    exact (hasType_expr W e hsites).at hs hc host v hv

end Compile

/-! ### Scripts -/

/-- A function whose code is made in a body stands where the types can be relied upon. -/
theorem Piece.Known.func {p : Piece} {f : Func} (h : p.Known ctx given)
    (hf : p.function? = some f) :
    AllSound ctx.analysis (f.typeSites ctx.analysis) := by
  unfold Piece.function? at hf
  split at hf
  · cases hf
    obtain ⟨⟨W, hsites⟩, -⟩ := h
    exact hsites
  · cases hf
    exact h.sites
  · cases hf

theorem allSound_func {f : Func} : AllSound a (f.typeSites a) ↔
    a.ReceivesOnCall f.id ∧ AllSound a (stmtTypeSites a true ∅ f.body) := by
  cases f
  exact allSound_cons

/-- The tables and the code of a compiled script. -/
theorem Program.analyze_of_compile {options : CompileOptions} {c : CompiledProgram}
    (h : p.compile options = .ok c) :
    analyze p options = .ok c.analysis ∧ Compile.program c.analysis p = .ok c.code := by
  obtain ⟨a, ha, h⟩ := except_bind_eq_ok h
  obtain ⟨code, hcode, h⟩ := except_bind_eq_ok h
  cases h
  exact ⟨ha, hcode⟩

/-- No variable of a script that is accepted is without a type. -/
theorem Program.valueType_ne_unset {strict : Bool} (ha : analyze p ⟨strict, true⟩ = .ok a) :
    ∀ x ∈ a.vars, x.valueType ≠ .unset := by
  unfold analyze at ha
  obtain ⟨r, -, ha⟩ := except_bind_eq_ok ha
  cases ha
  exact r.withLayouts.valueType_withTypes_ne_unset p.body

/-- The types can be relied upon in a body whose code is made, and they hold. -/
theorem Program.Compiles.holds {source : String} {strict : Bool} (hp : Program.parse source = .ok p)
    (ha : analyze p ⟨strict, true⟩ = .ok a) (h : p.Compiles a ctx body code) :
    ctx.analysis = a ∧ ∃ given, code.TypesHold ctx body given ∧
      ∀ piece ∈ bodyPieces ctx.isProgram body, piece.Known ctx given := by
  have hset := Program.valueType_ne_unset ha
  induction h with
  | @script code made =>
    obtain ⟨statements, entry, given, globals, hrun, rfl⟩ := program_eq_ok made
    have hsites : AllSound a (stmtTypeSites a true ∅ p.body) := Program.sound_typeSites hp ha
    exact ⟨rfl, given, @typesHold_of_run (.ofBody a 0 true) _ _ _ _ hset hsites
      (fun h => by cases h) hrun _⟩
  | @function ctx body outer code piece f around piece_mem makes made ih =>
    obtain ⟨rfl, given, -, hknown⟩ := ih
    obtain ⟨hcalled, hbody⟩ := allSound_func.mp ((hknown piece piece_mem).func makes)
    obtain ⟨statements, entry, given, name, paramCount, hrun, rfl⟩ := func_eq_ok made
    exact ⟨rfl, given,
      @typesHold_of_run (.ofBody ctx.analysis f.id false) _ _ _ _ hset hbody
        (fun _ => hcalled) hrun _⟩

end

/-- In every activation of a body of a script that was compiled with types, on any host and in any
state, the types that were inferred hold. -/
theorem Program.types_hold {source : String} {p : Program} {strict : Bool} {c : CompiledProgram}
    (hp : Program.parse source = .ok p) (hc : p.compile ⟨strict, true⟩ = .ok c) {ctx : BodyContext}
    {body : List Stmt} {code : FunctionCode} (h : p.Compiles c.analysis ctx body code) :
    ∃ given, code.TypesHold ctx body given := by
  obtain ⟨-, given, hholds, -⟩ := h.holds hp (Program.analyze_of_compile hc).1
  exact ⟨given, hholds⟩

/-- The function of a script that is a single function declaration. -/
def Program.onlyFunction? (p : Program) : Option Func :=
  match p.body with
  | [.function f] => some f
  | _ => none

theorem Program.body_of_onlyFunction? {p : Program} {f : Func} (h : p.onlyFunction? = some f) :
    p.body = [.function f] := by
  unfold onlyFunction? at h
  split at h
  · next g hbody =>
    cases h
    exact hbody
  · cases h

/-- A function with a number and a string, which a loop goes on to write. -/
theorem Program.types_hold_loop :
    ∃ (p : Program) (c : CompiledProgram) (f : Func) (code : FunctionCode),
    Program.parse
      "function f(x) { var n = 0, s = typeof x; while (n < x) { n++; s += n; } return s; }" =
      .ok p ∧
    p.compile ⟨false, true⟩ = .ok c ∧ p.Compiles c.analysis (.ofBody c.analysis f.id false)
      f.body code ∧
    code.info.layout = ⟨0, 1, 0, 1, 0, none⟩ ∧
    ∃ given, code.TypesHold (.ofBody c.analysis f.id false) f.body given := by
  obtain ⟨p, c, hp, hc, h⟩ := Program.exists_compile
    "function f(x) { var n = 0, s = typeof x; while (n < x) { n++; s += n; } return s; }"
      ⟨false, true⟩
    (fun p c => p.onlyFunction?.any fun f => (Compile.func c.analysis f).toOption.any fun code =>
      code.info.layout == ⟨0, 1, 0, 1, 0, none⟩) (by decide +kernel)
  obtain ⟨f, hf, h⟩ := (Option.any_eq_true _ _).mp h
  obtain ⟨code, hcode, hlayout⟩ := (Option.any_eq_true _ _).mp h
  have hcompiles : p.Compiles c.analysis (.ofBody c.analysis f.id false) f.body code := by
    have hdeclared : .declared f ∈ bodyPieces true p.body := by
      rw [Program.body_of_onlyFunction? hf]
      exact List.mem_singleton_self _
    exact .function (.script (Program.analyze_of_compile hc).2) hdeclared
      rfl (eq_ok_of_toOption hcode)
  exact ⟨p, c, f, code, hp, hc, hcompiles, beq_iff_eq.mp hlayout,
    Program.types_hold hp hc hcompiles⟩

end ScriptEngine
