import ScriptEngine.Proofs.Code.Initialization
import ScriptEngine.Proofs.Compile.TypedBodies
import ScriptEngine.Proofs.Run.Lineage

/-!
# Initialization of typed slots

The first write of a variable with a concrete type is a statement of its own at the top of its body.
Such statements run one after the other, so whatever comes after one of them finds the slot of the
variable written.

## Main definitions

* `Event.Comes` : an event on a typed slot comes from a piece of the body.

## Main statements

* `Compile.initializes_stmt` : the statements at the top of a body.
* `Compile.initializes_function` : no typed slot is read by an activation before the activation
  writes it.
-/

namespace ScriptEngine

/-! ### Events of pieces -/

/-- An event on a typed slot comes from a piece of the body, and so does a new function. -/
def Event.Comes (ctx : BodyContext) (given : BodyState) (host : Host) (W : Set VariableId)
    (ps : List Piece) :
    Event → Prop
  | .read x _ => x.IsTyped → x ∈ given.slotsOf W
  | .write x v _ => ∀ ρ k, x = .slot ρ k → ρ ≠ .boxed → ∃ p ∈ ps, ∃ acc src,
    p.Stores ctx given acc src ∧ acc.binding.storage = .slot ρ k ∧ (src.noted ρ).Gives host v
  | .function g _ => ∃ p ∈ ps, ∃ f, p.function? = some f ∧ Compile.func ctx.analysis f = .ok g
  | .run .. => True

variable {ctx : BodyContext} {given : BodyState} {host : Host} {W W' : Set VariableId}
  {ps : List Piece}

/-- Runs of code on one host, with events that come from pieces. -/
def ActivationRelation.Setting.permitted (ctx : BodyContext) (given : BodyState) (host : Host)
    (W : Set VariableId) (ps : List Piece) : ActivationRelation.Setting :=
  .onHost host .equal (Event.Comes ctx given host W ps) fun _ _ _ hst => ⟨trivial, by
    obtain rfl := ActivationRelation.isDiagonal_equal.eq_of_rel hst
    exact Ending.agree_self⟩

theorem ActivationRelation.Setting.admits_permitted {e : Effect} (h : e.Permitted ctx given W ps) :
    (permitted ctx given host W ps).Admits e := by
  have hdiagonal : ActivationRelation.equal.IsDiagonal := ActivationRelation.isDiagonal_equal
  cases e with
  | read x =>
    exact fun lenient => .noting fun s t hst _ => ⟨h, hdiagonal.same_storageRead lenient x hst⟩
  | write x source =>
    refine fun v hv => .noting fun s t hst _ =>
      ⟨fun ρ k hx hρ => ?_, hdiagonal.same_storageWrite v x hst⟩
    obtain ⟨p, hp, acc, src, hstores, hstorage, rfl⟩ := h ρ k hx hρ
    exact ⟨p, hp, acc, src, hstores, hstorage, hv⟩
  | function g => exact .noting fun s t hst _ => ⟨h, hdiagonal.same_makeFunction g hst⟩

/-- What follows of code whose effects come from pieces: so do its events, and the trace ends as the
code does. -/
theorem ActivationRelation.Setting.Follows.comes {α : Type} {x : Traced α} {y : Act α}
    (h : (permitted ctx given host W ps).Follows x y) (s : RunState) :
    (∀ e ∈ (x s).1, e.Comes ctx given host W ps) ∧ (x s).2 = y s := by
  have hself : ActivationRelation.equal.rel s s := ⟨rfl, trivial, rfl⟩
  obtain ⟨hevents, hends⟩ := h hself fun _ _ => trivial
  refine ⟨hevents, ?_⟩
  generalize (x s).2 = p at hends
  generalize y s = q at hends
  cases hends with
  | ok hQ => rw [hQ.1, ActivationRelation.isDiagonal_equal.eq_of_rel hQ.2]
  | error hE => rw [ActivationRelation.isDiagonal_equal.eq_of_rel hE]
  | exhausted => rfl

namespace Compile

variable {i : Identifier} {acc : Access} {c : TypedCode}

section

variable {S : Set Storage} {α : Type} {D : α → Prop}

theorem reads_of_comes {x : Traced α} (h : ∀ s, ∀ e ∈ (x s).1, e.Comes ctx given host W ps) :
    x.Initializes (given.slotsOf W) (given.slotsOf W) D :=
  .of_reads fun s _ _ he ht => h s _ he ht

/-- A statement that reads only what was written before it. -/
theorem initializes_of_permitted {code : StatementCode}
    (h : ∀ e ∈ code.effects, e.Permitted ctx given W ps) {D : Completion → Prop} :
    (code.traced host).Initializes (given.slotsOf W) (given.slotsOf W) D :=
  reads_of_comes fun s => (ActivationRelation.Setting.Follows.comes
    (ActivationRelation.Setting.follows_statement code fun e he =>
      ActivationRelation.Setting.admits_permitted (h e he)) s).1

end

/-! ### Assignments at the top -/

/-- A change of representation writes what was written without it. -/
theorem writes_inRep {y : Storage} {ρ : Rep} (h : Traced.Writes y (c.code.traced host)) :
    Traced.Writes y ((c.inRep ρ).traced host) := by
  obtain ⟨σ, code⟩ := c
  unfold TypedCode.inRep Code.convert
  split
  · next heq =>
    cases heq
    exact h
  · rw [Code.traced]
    exact h.bind_left _

/-- An assignment writes the slot of a variable of a concrete type. -/
theorem Named.writes_store {v : VariableId} {k : Nat} (h : Named ctx given i acc)
    (hv : ctx.analysis.reference? i = some v)
    (hconcrete : (ctx.analysis.var v).valueType.IsConcrete)
    (hk : given.slot? v = some ⟨.ofValueType (ctx.analysis.var v).valueType, k⟩) :
    Traced.Writes (.slot (.ofValueType (ctx.analysis.var v).valueType) k)
      ((acc.store c).code.traced host) := by
  obtain ⟨k', hk', hacc⟩ := h.slot v hv hconcrete
  obtain rfl : k' = k := by
    rw [hk] at hk'
    cases hk'
    rfl
  rw [hacc]
  exact Code.writes_storeSlot _ _

/-- A statement that always writes a name, and reads only what was written before it. -/
theorem initializes_of_writes {code : StatementCode} (hs : given.Sound ctx)
    (hreads : ∀ e ∈ code.effects, e.Permitted ctx given W ps)
    (hwrites : ∀ v, ctx.analysis.reference? i = some v → (ctx.analysis.var v).valueType.IsConcrete →
      ∀ k, given.slot? v = some ⟨.ofValueType (ctx.analysis.var v).valueType, k⟩ →
        Traced.Writes (.slot (.ofValueType (ctx.analysis.var v).valueType) k) (code.traced host)) :
    (code.traced host).Initializes (given.slotsOf W) (given.slotsOf (ctx.analysis.written true W i))
      (· = .normal) := by
  refine .of_writes (initializes_of_permitted (D := fun _ => True) hreads).reads
    fun s a s' hend y hy ht => ?_
  obtain ⟨v, hv | ⟨-, hv⟩, slot, hslot, rfl⟩ := hy
  · exact .inl ⟨v, hv, slot, hslot, rfl⟩
  · have hrep : slot.rep = .ofValueType (ctx.analysis.var v).valueType := hs.kind v slot hslot
    have hconcrete : (ctx.analysis.var v).valueType.IsConcrete := by
      unfold ValueType.IsConcrete
      rw [← hrep]
      exact ht
    obtain ⟨ρ, k⟩ := slot
    cases hrep
    exact .inr (hwrites v hv hconcrete k hslot s a s' hend)

/-- An assignment that is a statement of its own. -/
theorem initializes_store (hs : given.Sound ctx) (h : Named ctx given i acc)
    (hreads : ∀ e ∈ (acc.store c).effects, e.Permitted ctx given W ps) {code : StatementCode}
    (hcode : code = (acc.store c).effect ∨ code = .complete ((acc.store c).inRep .boxed)) :
    (code.traced host).Initializes (given.slotsOf W) (given.slotsOf (ctx.analysis.written true W i))
      (· = .normal) := by
  rcases hcode with rfl | rfl
  · exact initializes_of_writes hs hreads fun v hv hconcrete k hk =>
      (h.writes_store hv hconcrete hk).bind_left _
  · have hinside : ∀ e ∈ (StatementCode.complete ((acc.store c).inRep .boxed)).effects,
        e.Permitted ctx given W ps := by
      rw [StatementCode.effects, effects_inRep]
      exact hreads
    exact initializes_of_writes hs hinside fun v hv hconcrete k hk =>
      (writes_inRep (h.writes_store hv hconcrete hk)).bind_left _

/-! ### Statements at the top -/

/-- A name that is assigned in code that goes on with the same places. -/
theorem ensures_assigned (hi : ctx.analysis.Guarded i) :
    Ensures ctx (fun given acc => given.Sound ctx ∧ identifier ctx i given = .ok (acc, given) ∧
      Named ctx given i acc) (identifier ctx i) :=
  (ensures_named hi).sound

/-- The declarations of a statement prepare for what follows. -/
theorem prepares_declaratorList (host : Host) (W : Set VariableId) : ∀ ds : List Declarator,
    AllSound ctx.analysis (declaratorTypeSites ctx.analysis true W ds) →
      Ensures ctx (fun given cs => Prepares host (given.slotsOf W)
        (given.slotsOf (declaratorsAfter ctx.analysis true W ds)) cs) (declaratorList ctx ds)
  | [], _ => .pure fun _ => .nil
  | .mk _ _ none :: rest, h => by
    rw [declaratorList]
    exact prepares_declaratorList host W rest h
  | .mk span name (some init) :: rest, h => by
    obtain ⟨hinit, h⟩ := allSound_append.mp h
    obtain ⟨hwrite, hrest⟩ := allSound_cons.mp h
    rw [declaratorList]
    refine (ensures_assigned hwrite.guarded).bind fun acc => (typed_expr W init hinit).bind fun v =>
      (prepares_declaratorList host _ rest hrest).bind fun cs => .pure fun given hcs hv hacc => ?_
    have hsites : AllSound ctx.analysis
        ((Expr.assign span .plain (.identifier name) init).typeSites ctx.analysis W) :=
      allSound_append.mpr ⟨hinit, List.forall_mem_singleton.mpr hwrite⟩
    have hstore := typed_assignment hsites hacc.2 hv
    exact .cons (initializes_store hacc.1 hacc.2.2 hstore.effects (.inl rfl)) hcs

/-- An expression statement. -/
theorem initializes_expression (host : Host) (W : Set VariableId) (e : Expr)
    (code : TypedCode → StatementCode)
    (hcode : ∀ c, code c = c.effect ∨ code c = .complete (c.inRep .boxed))
    (h : AllSound ctx.analysis (e.typeSites ctx.analysis W)) :
    Ensures ctx (fun given c => ((code c).traced host).Initializes (given.slotsOf W)
      (given.slotsOf (e.after ctx.analysis true W)) (· = .normal)) (expr ctx e) := by
  by_cases hplain : ∃ span i value, e = .assign span .plain (.identifier i) value
  · obtain ⟨span, i, value, rfl⟩ := hplain
    obtain ⟨hvalue, hwrite⟩ := allSound_append.mp h
    have hi := (allSound_cons.mp hwrite).1
    refine (ensures_assigned hi.guarded).bind fun acc => (typed_expr W value hvalue).bind fun v =>
      .pure fun given hv hacc => ?_
    exact initializes_store hacc.1 hacc.2.2 (typed_assignment h hacc.2 hv).effects (hcode _)
  · have hafter : e.after ctx.analysis true W = W := by
      unfold Expr.after
      split
      · exact absurd ⟨_, _, _, rfl⟩ hplain
      · rfl
    rw [hafter]
    refine (typed_expr W e h).mono fun given c hc => ?_
    have hpermitted : ∀ x ∈ (code c).effects, x.Permitted ctx given W e.pieces := by
      rcases hcode c with heq | heq
      · rw [heq]
        exact hc.2.effects
      · rw [heq, StatementCode.effects, effects_inRep]
        exact hc.2.effects
    exact initializes_of_permitted hpermitted

theorem prepares_forInit (host : Host) (W : Set VariableId) (init : ForInit)
    (h : AllSound ctx.analysis (init.typeSites ctx.analysis true W)) :
    Ensures ctx (fun given cs => Prepares host (given.slotsOf W)
      (given.slotsOf (init.after ctx.analysis true W)) cs) (forInit ctx init) := by
  cases init with
  | nothing => exact .pure fun _ => .nil
  | declaration span ds => exact prepares_declaratorList host W ds h
  | expression e =>
    exact (initializes_expression host W e TypedCode.effect (fun _ => .inl rfl) h).bind fun c =>
      .pure fun _ hc => .cons hc .nil

/-- A statement at the top of a body. -/
theorem initializes_stmt (host : Host) (W : Set VariableId) (s : Stmt) (j : Jumps)
    (h : AllSound ctx.analysis (s.typeSites ctx.analysis true W)) :
    Ensures ctx (fun given c => (c.traced host).Initializes (given.slotsOf W)
      (given.slotsOf (s.after ctx.analysis true W)) (· = .normal)) (stmt ctx j s) := by
  have hplain (hafter : s.after ctx.analysis true W = W) :
      Ensures ctx (fun given c => (c.traced host).Initializes (given.slotsOf W)
        (given.slotsOf (s.after ctx.analysis true W)) (· = .normal)) (stmt ctx j s) := by
    have htyped := typed_stmt true W s j h
    rw [hafter] at htyped ⊢
    exact htyped.mono fun _ _ hc => initializes_of_permitted hc.effects
  cases s with
  | expression span e =>
    refine (initializes_expression host W e
      (fun c => if ctx.isProgram then .complete (c.inRep .boxed) else c.effect)
        (fun c => ?_) h).bind
      fun c => .pure fun _ hc => hc
    split
    · exact .inr rfl
    · exact .inl rfl
  | declaration span ds =>
    exact (prepares_declaratorList host W ds h).bind fun cs => .pure fun _ hcs => hcs.initializes
  | «for» span init test update body =>
    obtain ⟨hinit, h⟩ := allSound_append.mp h
    obtain ⟨htest, h⟩ := allSound_append.mp h
    obtain ⟨hbody, hupdate⟩ := allSound_append.mp h
    have hbody := typed_stmt false (init.after ctx.analysis true W) body (j.enter .loop) hbody
    rw [Stmt.after_false] at hbody
    rw [stmt_for]
    refine (prepares_forInit host W init hinit).bind
      fun first => (typed_forTest _ test htest).bind fun t =>
      (typed_forUpdate _ update hupdate).bind fun u => hbody.bind fun b =>
        .pure fun _ hb hu ht hfirst => ?_
    have hloop : Typed ctx _ (init.after ctx.analysis true W) _
        (StatementCode.loop j.nextId t u b).effects :=
      ht.append (hu.append hb)
    exact (hfirst.append (.cons (initializes_of_permitted hloop.effects) .nil)).initializes
  | _ => exact hplain rfl

/-- The statements at the top of a body. -/
theorem prepares_stmtList (host : Host) (j : Jumps) : ∀ (ss : List Stmt) (W : Set VariableId),
    AllSound ctx.analysis (stmtTypeSites ctx.analysis true W ss) →
      Ensures ctx (fun given cs => Prepares host (given.slotsOf W)
        (given.slotsOf (stmtsAfter ctx.analysis true W ss)) cs) (stmtList ctx j ss)
  | [], W, _ => by
    rw [stmtList]
    exact .pure fun _ => .nil
  | s :: rest, W, h => by
    obtain ⟨hs, hrest⟩ := allSound_append.mp h
    have hlist := prepares_stmtList host j rest _ hrest
    have hboth : Ensures ctx (fun given cs => Prepares host (given.slotsOf W)
        (given.slotsOf (stmtsAfter ctx.analysis true W (s :: rest))) cs) (do
          let c ← stmt ctx j s
          let cs ← stmtList ctx j rest
          return c :: cs) :=
      (initializes_stmt host W s j hs).bind fun c => hlist.bind fun cs => .pure fun _ hcs hc =>
        .cons hc hcs
    cases s with
    | function f =>
      rw [stmtList]
      exact hlist
    | empty span =>
      rw [stmtList]
      exact hlist
    | _ => simpa only [stmtList] using hboth

/-! ### Bodies -/

/-- A body, whose entry reads no typed slot. -/
theorem initializes_body (info : FunctionInfo) {entry body : List StatementCode}
    (hentry : ∀ e ∈ statementEffects entry, e.Permitted ctx given ∅ ps)
    (hbody : Prepares host (given.slotsOf ∅) (given.slotsOf W) body) :
    ((FunctionCode.mk info (.block entry) (.block body)).traced host).Initializes (given.slotsOf ∅)
      (given.slotsOf W) (· = .normal) := by
  have hfirst : ∀ e ∈ (StatementCode.block entry).effects, e.Permitted ctx given ∅ ps := hentry
  rw [FunctionCode.traced]
  exact .andThen (.silent _) fun _ => .andThen (.silent _) fun _ =>
    .andThen (initializes_of_permitted hfirst) fun _ => hbody.initializes

end Compile

end ScriptEngine
