import ScriptEngine.Proofs.Analysis.Records
import ScriptEngine.Proofs.Compile.Frame
import ScriptEngine.Proofs.Compile.Functions
import ScriptEngine.Proofs.Compile.Lookup

/-!
# Nested bodies

Every body of a compiled script stands in other bodies, up to the script itself.  Its code makes
functions that stand in it, and it reaches the captured variables of the bodies around through the
records that these bodies have.

## Main definitions

* `CompiledProgram.OfSource` : compiled scripts.
* `Compilation` : a script that was compiled, with what is known about its tables.
* `Compilation.Stands` : code that stands in some bodies.
* `Storage.address?` : the field that a variable is reached by.
* `Compilation.Keeps` : a field of one of the records around keeps a variable.

## Main statements

* `Compilation.Stands.makes` : code makes functions that stand in it.
* `Compilation.Stands.keeps` : the fields that code uses keep the variables of the bodies around.
-/

namespace ScriptEngine

/-- A script that was compiled from a source. -/
def CompiledProgram.OfSource (c : CompiledProgram) : Prop :=
  ∃ source p options, Program.parse source = .ok p ∧ p.compile options = .ok c

/-- The field by which a variable is reached: its own one, or that of the arguments object that
keeps it. -/
def Storage.address? : Storage → Option FieldAddress
  | .field address => some address
  | .parameter _ via => via
  | .slot .. | .global _ => none

/-- The variable that an effect reads or writes. -/
def Effect.storage? : Effect → Option Storage
  | .read x | .write x _ => some x
  | .function _ => none

/-- The parameters that a name can stand for belong to functions. -/
theorem Environment.Denotes.body_ne_zero {a : Analysis} {env : Environment} {name : String}
    {u w : VariableId} (h : env.Denotes a name u) (hs : a.Sound) (hvalid : env.Valid a)
    (huses : a.Uses u w) (hkind : (a.var w).kind = .parameter) : (a.var w).body ≠ 0 := by
  obtain ⟨target, outer, withs, hfind, -, hu⟩ := h
  obtain ⟨hfound, hwiths⟩ := hvalid.of_find hs hfind
  obtain ⟨-, ⟨id, -, howns⟩, -⟩ := hfound target outer rfl
  have htarget (hw : target = w) : (a.var w).body ≠ 0 := by
    subst hw
    intro hzero
    have hlisted := howns.kind
    rw [← howns.body, hzero, hkind] at hlisted
    exact absurd hlisted (by decide)
  rcases hu with ⟨-, rfl⟩ | ⟨-, hguards⟩
  · rcases huses with rfl | ⟨hwith, -⟩
    · exact htarget rfl
    · have hlisted := declarableKinds_subset id howns.kind
      rw [hwith] at hlisted
      exact absurd hlisted (by decide)
  · rcases huses with rfl | ⟨-, hfallback | hchain⟩
    · rw [hguards.var] at hkind
      cases hkind
    · rw [hguards.var] at hfallback
      exact htarget (Option.some.inj hfallback)
    · rw [hguards.var] at hchain
      obtain ⟨⟨v, body⟩, hmem, rfl⟩ := List.mem_map.mp hchain
      obtain ⟨v', hv', heq⟩ := List.mem_map.mp hmem
      cases heq
      obtain ⟨id', -, howns'⟩ := hwiths v hv'
      rw [List.mem_singleton.mp howns'.kind] at hkind
      cases hkind

/-- A script that was compiled, with the tables in which its names were resolved. -/
structure Compilation where
  source : String
  program : Program
  options : CompileOptions
  compiled : CompiledProgram
  resolution : Analysis
  origin : VariableId → NodeId
  parsed : Program.parse source = .ok program
  compiles : program.compile options = .ok compiled
  resolved : program.Scoped resolution origin
  laidOut : resolution.LaidOut compiled.analysis
  linked : compiled.analysis.RecordsLinked

theorem CompiledProgram.OfSource.compilation {c : CompiledProgram} (h : c.OfSource) :
    ∃ K : Compilation, K.compiled = c := by
  obtain ⟨source, p, options, hp, hc⟩ := h
  obtain ⟨a, ha, hcode⟩ := Compile.except_bind_eq_ok hc
  obtain ⟨code, -, hresult⟩ := Compile.except_bind_eq_ok hcode
  cases hresult
  obtain ⟨r, origin, number, hscoped, hs, hlaid, howned⟩ := Program.exists_scoped_of_analyze hp ha
  have hlinked := hscoped.recordsLinked hp hs hlaid howned
  exact ⟨⟨source, p, options, _, r, origin, hp, hc, hscoped, hlaid, hlinked⟩, rfl⟩

namespace Compilation

variable (K : Compilation)

/-- Bodies around a place without the scopes inside of them. -/
def environment (bodies : List FunctionId) : Environment :=
  bodies.map fun body => ⟨body, []⟩

theorem bodies_environment (bodies : List FunctionId) : (environment bodies).bodies = bodies := by
  simp [environment, Environment.bodies, Function.comp_def]

theorem current_environment (env : Environment) :
    Resolve.current (environment env.bodies) = Resolve.current env := by
  cases env <;> rfl

/-- Code of a script that stands in some bodies, its own one first: that of the script itself, or
that of a function in another body. -/
inductive Stands : List FunctionId → FunctionCode → Prop
  | script : Stands [0] K.compiled.code
  | function {env : Environment} {f : Func} {code : FunctionCode}
      (valid : Environment.Valid K.resolution (environment env.bodies))
      (resolved : Func.Resolved K.resolution K.origin env f)
      (compiles : Compile.func K.compiled.analysis f = .ok code) : Stands (f.id :: env.bodies) code

variable {K} {bodies : List FunctionId} {code : FunctionCode}

theorem program_eq (K : Compilation) :
    Compile.program K.compiled.analysis K.program = .ok K.compiled.code := by
  obtain ⟨a, -, hcode⟩ := Compile.except_bind_eq_ok K.compiles
  obtain ⟨code, hprogram, hresult⟩ := Compile.except_bind_eq_ok hcode
  rw [← Except.ok.inj hresult]
  exact hprogram

theorem analyzed (K : Compilation) : analyze K.program K.options = .ok K.compiled.analysis := by
  obtain ⟨a, ha, hcode⟩ := Compile.except_bind_eq_ok K.compiles
  obtain ⟨code, -, hresult⟩ := Compile.except_bind_eq_ok hcode
  rw [← Except.ok.inj hresult]
  exact ha

namespace Stands

/-- The first of the bodies is that of the code. -/
theorem cons (h : K.Stands bodies code) : bodies = code.info.id :: bodies.tail := by
  cases h with
  | script =>
    obtain ⟨statements, entry, given, globals, -, hcode⟩ := Compile.program_eq_ok K.program_eq
    rw [hcode]
    rfl
  | function valid resolved compiles =>
    obtain ⟨statements, entry, given, name, paramCount, -, rfl⟩ := Compile.func_eq_ok compiles
    rfl

theorem valid (h : K.Stands bodies code) : Environment.Valid K.resolution (environment bodies) := by
  cases h with
  | script => exact K.resolved.valid
  | @function env f code valid resolved compiles =>
    have hopens : K.resolution.Opens env f := by
      cases f
      exact resolved.1
    refine .inside hopens.bound ?_ ?_ ?_ nofun valid
    · exact (current_environment env).symm ▸ hopens.above
    · exact (current_environment env).symm ▸ hopens.parent
    · exact (hopens.binds "arguments").mpr (.inr (.inl rfl))

/-- Code makes functions that stand in its body. -/
theorem makes (h : K.Stands bodies code) :
    Makes (fun g => K.Stands (g.info.id :: bodies) g) code.effects := by
  have hinner : Makes (Compile.Inner K.resolution K.origin K.compiled.analysis bodies)
      code.effects := by
    cases h with
    | script => exact Compile.makes_of_program K.program_eq K.resolved.resolved
    | @function env f code valid resolved compiles =>
      refine Compile.makes_of_func compiles ?_ rfl
      cases f
      exact resolved.2
  intro e he
  cases e with
  | read | write => trivial
  | function g =>
    obtain ⟨env, f, rfl, hf, hg⟩ := hinner _ he
    have hstands : K.Stands (f.id :: env.bodies) g := .function h.valid hf hg
    have hid : f.id = g.info.id := List.head_eq_of_cons_eq hstands.cons
    rw [hid] at hstands
    exact hstands

/-- How code uses its frame. -/
theorem framed (h : K.Stands bodies code) : ∃ isProgram statements given,
    code.Framed (.ofBody K.compiled.analysis code.info.id isProgram) statements given := by
  have hid := h.cons
  cases h with
  | script =>
    obtain ⟨given, hframed⟩ := framed_of_program K.parsed K.analyzed K.program_eq
    have hid : 0 = K.compiled.code.info.id := List.head_eq_of_cons_eq hid
    exact ⟨_, _, given, hid ▸ hframed⟩
  | @function env f code valid resolved compiles =>
    obtain ⟨given, hframed⟩ := framed_of_func K.parsed K.analyzed compiles
    have hid : f.id = code.info.id := List.head_eq_of_cons_eq hid
    exact ⟨_, _, given, hid ▸ hframed⟩

theorem ownFields_eq (h : K.Stands bodies code) : code.info.layout.ownFields =
    (K.compiled.analysis.body code.info.id).layout.map fun l =>
    (K.compiled.analysis.layout l).fields.length := by
  obtain ⟨isProgram, statements, given, hframed⟩ := h.framed
  obtain ⟨name, paramCount, globals, entry, body, hcode, -⟩ := hframed.compiled
  have hid := congrArg (·.info.id) hcode
  rw [hcode]
  rfl

theorem argumentsField_eq (h : K.Stands bodies code) : code.info.argumentsField =
    (K.compiled.analysis.body code.info.id).layout.bind fun l =>
      (K.compiled.analysis.layout l).fieldIndex? argumentsField := by
  obtain ⟨isProgram, statements, given, hframed⟩ := h.framed
  obtain ⟨name, paramCount, globals, entry, body, hcode, -⟩ := hframed.compiled
  rw [hcode]
  rfl

/-- The records in reach are those of the bodies. -/
theorem chain_ofBody (h : K.Stands bodies code) (isProgram : Bool) :
    (BodyContext.ofBody K.compiled.analysis code.info.id isProgram).chain =
      K.compiled.analysis.layoutsOf bodies := by
  have hchain := K.laidOut.chain_ofBody K.resolved.parent h.valid isProgram
  rw [bodies_environment] at hchain
  have hcurrent : Resolve.current (environment bodies) = code.info.id := by
    rw [h.cons]
    rfl
  rwa [hcurrent] at hchain

/-- The records that a function takes along when it is made are those of the bodies around. -/
theorem layoutChain_eq (h : K.Stands bodies code) :
    K.compiled.analysis.layoutChain K.compiled.analysis.layouts.size
      (K.compiled.analysis.body code.info.id).parentLayout =
        K.compiled.analysis.layoutsOf bodies.tail := by
  have hvalid := h.valid
  have hcurrent : Resolve.current (environment bodies) = code.info.id := by
    rw [h.cons]
    rfl
  have hlt := hvalid.bodies_lt_size _ hvalid.current_mem
  have henclosing := K.laidOut.enclosingLayout?_eq K.resolved.parent hvalid
  rw [hcurrent, bodies_environment] at henclosing
  rw [hcurrent] at hlt
  rw [K.laidOut.parentLayout _ hlt, henclosing]
  cases h with
  | script => exact Analysis.layoutChain_none _ _
  | @function env f code valid resolved compiles =>
    rw [← bodies_environment env.bodies]
    refine K.laidOut.layoutChain_eq K.resolved.parent valid fun l hl => ?_
    obtain ⟨id, -, hlayout⟩ := List.mem_filterMap.mp (List.mem_of_mem_head? hl)
    exact K.laidOut.below id l hlayout

end Stands

/-! ### Fields -/

variable (K) in
/-- A field of one of the records around keeps a variable, and code gets the number of this
record. -/
structure Keeps (bodies : List FunctionId) (info : FunctionInfo) (x : Storage)
    (address : FieldAddress) (v : VariableId) (l : LayoutId) : Prop where
  field : (K.compiled.analysis.var v).field = some ⟨l, address.index⟩
  layout : (K.compiled.analysis.body (K.compiled.analysis.var v).body).layout = some l
  lt_length : address.index < (K.compiled.analysis.layout l).fields.length
  hops : ∃ hops, (K.compiled.analysis.layoutsOf bodies).findIdx? (· == l) = some hops ∧
    info.recordHops[address.record]? = some hops
  /-- A parameter is reached by the field of the arguments object. -/
  parameter : ∀ i, x = .parameter i (some address) → (K.compiled.analysis.var v).kind = .parameter ∧
    i = (K.compiled.analysis.var v).index.getD 0 ∧
    (K.compiled.analysis.layout l).fieldIndex? argumentsField = some address.index
  /-- Other variables have fields of their own. -/
  «local» : x = .field address → (K.compiled.analysis.var v).kind = .local ∧
    (K.compiled.analysis.layout l).fieldIndex? argumentsField ≠ some address.index

/-- What the kind of a variable says about its storage. -/
theorem gives_storage {ctx : BodyContext} (v : VariableId) : Compile.Gives (fun x =>
    (∀ i via, x = .parameter i via →
      (ctx.analysis.var v).kind = .parameter ∧ i = (ctx.analysis.var v).index.getD 0) ∧
    ∀ address, x = .field address →
      (ctx.analysis.var v).kind ≠ .parameter) (Compile.storage ctx v) := by
  unfold Compile.storage
  extract_lets x
  split
  · exact .pure ⟨nofun, nofun⟩
  · rename_i hkind
    have hparameter (via : Option FieldAddress) :
        (∀ j via', Storage.parameter (x.index.getD 0) via = .parameter j via' →
          x.kind = .parameter ∧ j = x.index.getD 0) ∧
        ∀ address, Storage.parameter (x.index.getD 0) via = .field address → x.kind ≠ .parameter :=
      ⟨fun _ _ heq => ⟨hkind, (Storage.parameter.inj heq).1.symm⟩, nofun⟩
    split
    · exact .pure (hparameter _)
    · split
      · exact .after fun _ => .pure (hparameter _)
      · exact .throw _
  iterate 2
    rename_i hkind
    have hfield (address : FieldAddress) :
        (∀ i via, Storage.field address = .parameter i via →
          x.kind = .parameter ∧ i = x.index.getD 0) ∧
          ∀ address', Storage.field address = .field address' → x.kind ≠ .parameter :=
      ⟨nofun, fun _ _ hparameter => by rw [hkind] at hparameter; cases hparameter⟩
    split
    · exact .after fun _ => .pure (hfield _)
    · split
      · exact .after fun _ => .pure ⟨nofun, nofun⟩
      · exact .throw _
  iterate 2 exact .throw _

/-- A captured variable is a parameter or a local one. -/
theorem kind_of_closedOver {v : VariableId} {id : FunctionId}
    (hv : v ∈ (K.compiled.analysis.body id).closedOver) :
    (K.compiled.analysis.var v).kind = .parameter ∨ (K.compiled.analysis.var v).kind = .local := by
  obtain ⟨_, _, hvar⟩ := K.laidOut.same.var v
  rw [hvar]
  rw [K.laidOut.same.closedOver] at hv
  simpa using ((K.resolved.sound.body id).closedOver v hv).kind

/-- The index of a field tells its name. -/
theorem getElem?_of_fieldIndex? {l : RecordLayout} {name : String} {index : Nat}
    (h : l.fieldIndex? name = some index) : l.fields[index]? = some name := by
  obtain ⟨hlt, heq, -⟩ := List.findIdx?_eq_some_iff_getElem.mp h
  rw [List.getElem?_eq_getElem hlt, beq_iff_eq.mp heq]

/-- A script keeps no arguments object. -/
theorem argumentsField_script (K : Compilation) : K.compiled.code.info.argumentsField = none := by
  have hstands : K.Stands [0] K.compiled.code := .script
  have hid : K.compiled.code.info.id = 0 := (List.head_eq_of_cons_eq hstands.cons).symm
  rw [hstands.argumentsField_eq, hid]
  cases hl : (K.compiled.analysis.body 0).layout with
  | none => rfl
  | some l =>
    refine Option.eq_none_iff_forall_ne_some.mpr fun index hindex => ?_
    have hbound : 0 < K.resolution.bodies.size :=
      K.resolved.valid.bodies_lt_size _ K.resolved.valid.current_mem
    have hne : (K.resolution.body 0).closedOver ≠ [] := fun hempty => by
      rw [K.laidOut.none 0 hempty] at hl
      cases hl
    obtain ⟨l', hl', hlayout⟩ := K.laidOut.captured 0 hbound hne
    cases hl.symm.trans hl'
    -- the field would be that of a parameter, and the script has none
    have hmem := List.mem_of_getElem? (getElem?_of_fieldIndex? hindex)
    rw [hlayout] at hmem
    obtain ⟨v, hv, hname⟩ := List.mem_map.mp (mem_sortedNames.mp hmem)
    have hclosed : v ∈ (K.compiled.analysis.body 0).closedOver := by rwa [K.laidOut.same.closedOver]
    have hkind : (K.compiled.analysis.var v).kind = .parameter := by
      refine (kind_of_closedOver hclosed).resolve_right fun hlocal => ?_
      refine K.linked.apart 0 v hclosed (by rw [hlocal]; decide) ?_
      rw [K.laidOut.same.fieldName, hname]
    obtain ⟨_, _, hvar⟩ := K.laidOut.same.var v
    rw [hvar] at hkind
    obtain ⟨o, ho, i, u, hi, hu, huses, -⟩ := K.resolved.captures 0 v hv
    obtain ⟨env, hreads, hresolved⟩ := K.resolved.occurrences o ho
    rw [hi] at hresolved
    obtain ⟨u', hu', hdenotes⟩ := hresolved
    cases hu.symm.trans hu'
    exact hdenotes.body_ne_zero K.resolved.sound hreads.valid huses hkind
      ((K.resolved.sound.body 0).closedOver v hv).body

theorem Stands.keeps (h : K.Stands bodies code) {e : Effect} (he : e ∈ code.effects) {x : Storage}
    {address : FieldAddress} (hx : e.storage? = some x) (haddress : x.address? = some address) :
    ∃ v l, K.Keeps bodies code.info x address v l := by
  obtain ⟨isProgram, statements, given, hframed⟩ := h.framed
  have husable : Compile.Usable (.ofBody K.compiled.analysis code.info.id isProgram) given
      code.temporaries x := by
    have hused := hframed.used e he
    cases e with
    | function => cases hx
    | _ =>
      cases hx
      exact hused
  rcases husable with ⟨v, hstorage, hallotted⟩ | ⟨i, -, rfl⟩
  · obtain ⟨f, hf, hindex, hops, hfind, hnumber⟩ : ∃ f, (K.compiled.analysis.var v).field = some f ∧
        Compile.Addressed (.ofBody K.compiled.analysis code.info.id isProgram) given f address := by
      cases x with
      | field a =>
        cases haddress
        exact hallotted
      | parameter i via =>
        cases haddress
        exact hallotted
      | _ => cases haddress
    obtain ⟨l, index⟩ := f
    rw [h.chain_ofBody] at hfind
    have hclosed : v ∈ (K.compiled.analysis.body (K.compiled.analysis.var v).body).closedOver :=
      (K.linked.captured v).mp (by rw [Variable.isCaptured, hf]; rfl)
    obtain ⟨-, l', index', hlayout, hfield, hname⟩ := K.linked.field _ v hclosed
    cases hf.symm.trans hfield
    have hget := (hname index).mpr rfl
    have hindex : address.index = index := hindex
    obtain ⟨hparameter, hlocal⟩ := gives_storage v hstorage
    refine ⟨v, l, ?_, hlayout, ?_, ⟨hops, hfind, ?_⟩, fun i hi => ?_, fun hx => ?_⟩
    · rw [hf, hindex]
    · rw [hindex]
      exact (List.getElem?_eq_some_iff.mp hget).1
    · obtain ⟨name, paramCount, globals, entry, body, hcode, -⟩ := hframed.compiled
      rw [hcode]
      exact hnumber
    · obtain ⟨hkind, hi⟩ := hparameter i _ hi
      have hfieldName : K.compiled.analysis.fieldName v = argumentsField := by
        unfold Analysis.fieldName
        rw [show (K.compiled.analysis.var v).kind = .parameter from hkind]
      rw [hfieldName] at hget hname
      obtain ⟨j, hj⟩ := RecordLayout.exists_fieldIndex? (List.mem_of_getElem? hget)
      rw [hindex, hj, (hname j).mp (getElem?_of_fieldIndex? hj)]
      exact ⟨hkind, hi, rfl⟩
    · have hkind : (K.compiled.analysis.var v).kind = .local :=
        (kind_of_closedOver hclosed).resolve_left (hlocal _ hx)
      refine ⟨hkind, fun harguments => ?_⟩
      rw [hindex] at harguments
      have heq := Option.some.inj (hget.symm.trans (getElem?_of_fieldIndex? harguments))
      exact K.linked.apart _ v hclosed (by rw [hkind]; decide) heq
  · cases haddress

end Compilation

end ScriptEngine
