import ScriptEngine.Analysis.Basic
import ScriptEngine.Compile.Operator

/-!
# Places of variables in a body

Every variable that a body uses gets a place when it is first met: a slot of the frame, or a field
of a record, for which the record gets a number.

## Main definitions

* `BodyContext` : what is known about the body that is compiled.
* `BodyState` : the slots and record numbers given so far.
* `Compile` : compilation of a body.
* `Compile.access` : the places that a variable's name stands for.
-/

namespace ScriptEngine

/-- The layouts of the records that a body can reach, innermost first; `fuel` bounds their
number. -/
def Analysis.layoutChain (a : Analysis) : Nat → Option LayoutId → List LayoutId
  | 0, _ => []
  | _, none => []
  | fuel + 1, some id => id :: a.layoutChain fuel (a.layout id).parent

/-- What is known about the body that is compiled. -/
structure BodyContext where
  analysis : Analysis
  id : FunctionId
  isProgram : Bool
  /-- The layouts of the records that the body can reach, innermost first. -/
  chain : List LayoutId

/-- The context of a body. -/
def BodyContext.ofBody (a : Analysis) (id : FunctionId) (isProgram : Bool) : BodyContext :=
  let head := (a.body id).layout.or (a.body id).parentLayout
  { analysis := a, id, isProgram, chain := a.layoutChain a.layouts.size head }

/-- A slot of a frame. -/
structure Slot where
  rep : Rep
  index : Nat
deriving Repr, DecidableEq, Inhabited

/-- The slots and record numbers that a body has been given. -/
structure BodyState where
  slots : List (VariableId × Slot)
  /-- The numbers of slots by representation. -/
  values : Nat
  doubles : Nat
  booleans : Nat
  strings : Nat
  /-- How many links up each numbered record is. -/
  hops : List Nat
deriving Repr, Inhabited

namespace BodyState

/-- Nothing given. -/
def initial : BodyState := ⟨[], 0, 0, 0, 0, []⟩

/-- The number of slots of a representation. -/
def count (s : BodyState) : Rep → Nat
  | .boxed => s.values
  | .double => s.doubles
  | .boolean => s.booleans
  | .string => s.strings

/-- Adds a slot of a representation. -/
def grow (s : BodyState) : Rep → BodyState
  | .boxed => { s with values := s.values + 1 }
  | .double => { s with doubles := s.doubles + 1 }
  | .boolean => { s with booleans := s.booleans + 1 }
  | .string => { s with strings := s.strings + 1 }

/-- The slot of a variable, if it has one. -/
def slot? (s : BodyState) (v : VariableId) : Option Slot :=
  (s.slots.find? (·.1 == v)).map (·.2)

/-- The layout of the frame. -/
def layout (s : BodyState) (ownFields : Option Nat) : FrameLayout :=
  { values := s.values, doubles := s.doubles, booleans := s.booleans, strings := s.strings
    records := s.hops.length, ownFields }

end BodyState

/-- Compilation of a body. -/
abbrev Compile := StateT BodyState (Except StaticError)

namespace Compile

variable (ctx : BodyContext)

/-- A new slot. -/
def newSlot (ρ : Rep) : Compile Slot :=
  modifyGet fun s => (⟨ρ, s.count ρ⟩, s.grow ρ)

/-- The slot of a variable. -/
def slot (v : VariableId) : Compile Slot := do
  match (← get).slot? v with
  | some slot => return slot
  | none =>
    let slot ← newSlot (.ofValueType (ctx.analysis.var v).valueType)
    modify fun s => { s with slots := (v, slot) :: s.slots }
    return slot

/-- The number of the record some links up. -/
def recordNumber (hops : Nat) : Compile Nat := do
  match (← get).hops.findIdx? (· == hops) with
  | some n => return n
  | none => modifyGet fun s => (s.hops.length, { s with hops := s.hops ++ [hops] })

/-- The address of a field. -/
def fieldAddress (f : RecordField) : Compile FieldAddress := do
  match ctx.chain.findIdx? (· == f.layout) with
  | some hops => return ⟨← recordNumber hops, f.index⟩
  | none => throw (.unresolvedIdentifier s!"closure {f.layout} out of reach")

/-- The storage of a variable. -/
def storage (v : VariableId) : Compile Storage := do
  let x := ctx.analysis.var v
  match x.kind with
  | .global => return .global x.name
  | .parameter =>
    let index := x.index.getD 0
    if x.body == ctx.id then return .parameter index none
    else
      match x.field with
      | some f => return .parameter index (some (← fieldAddress ctx f))
      | none => throw (.unresolvedIdentifier x.name)
  | .local | .arguments =>
    match x.field with
    | some f => return .field (← fieldAddress ctx f)
    | none =>
      if x.body == ctx.id then
        let slot ← slot ctx v
        return .slot slot.rep slot.index
      else throw (.unresolvedIdentifier x.name)
  | .this | .withScope => throw (.unresolvedIdentifier x.name)

/-- The binding of a variable. -/
def binding (v : VariableId) : Compile Binding := do
  let x := ctx.analysis.var v
  let storage ← storage ctx v
  return ⟨storage, if x.immutable then some x.name else none⟩

/-- The bindings of several variables. -/
def bindings : List VariableId → Compile (List Binding)
  | [] => pure []
  | v :: rest => do
    let b ← binding ctx v
    let bs ← bindings rest
    return b :: bs

/-- The places that the name of a variable stands for. -/
def access (v : VariableId) : Compile Access := do
  let x := ctx.analysis.var v
  match x.kind with
  | .withScope =>
    match x.fallback with
    | some target =>
      let scopes ← bindings ctx (x.withChain.map (·.1))
      return ⟨x.name, scopes, ← binding ctx target⟩
    | none => throw (.unresolvedIdentifier x.name)
  | _ => return ⟨x.name, [], ← binding ctx v⟩

/-- The places that an identifier occurrence stands for. -/
def identifier (i : Identifier) : Compile Access :=
  match ctx.analysis.reference? i with
  | some v => access ctx v
  | none => throw (.unresolvedIdentifier i.name)

end Compile

namespace Access

/-- Code that reads a name. -/
def load (a : Access) (lenient : Bool) : TypedCode :=
  match a with
  | ⟨_, [], ⟨.slot ρ index, none⟩⟩ => ⟨ρ, .slot ρ index⟩
  | a => ⟨.boxed, .load (.name a) lenient⟩

/-- Code that writes a name and yields what was written. -/
def store (a : Access) (value : TypedCode) : TypedCode :=
  match a with
  | ⟨_, [], ⟨.slot ρ index, none⟩⟩ => ⟨ρ, .storeSlot ρ index (value.inRep ρ)⟩
  | a => ⟨.boxed, .store (.name a) (value.inRep .boxed)⟩

/-- The access that gives a name its first value, also one that may not be assigned. -/
def initializer (a : Access) : Access :=
  { a with binding := { a.binding with constant := none } }

end Access

end ScriptEngine
