import ScriptEngine.Proofs.Analysis.Capture
import ScriptEngine.Proofs.Analysis.Marking
import ScriptEngine.Proofs.Compile.Bodies

/-!
# Frames of bodies

A body gets a frame with as many slots and records as were given out while it was compiled.  Its
variables and its `switch` statements take different slots, every variable keeps its slot wherever
it occurs, and no code reaches past the end of the frame.

The slots of `switch` statements are those that were counted when the statement was met.  So the
ones that a part of a body takes lie between the numbers of slots before and after that part, and no
variable gets one of them later.

## Main definitions

* `StatementCode.temporaries` : the slots that `switch` statements keep their values in.
* `Compile.Takes` : a computation with the slots that it takes for no variable.
* `Storage.Fits` : a variable is kept within the slots and records that there are.
* `FunctionCode.Framed` : how a body uses its frame.

## Main statements

* `Compile.takes_stmt` : what a statement takes and uses.
* `Program.framed_of_compile` : all bodies of a compiled script use their frames in this way.
-/

namespace ScriptEngine

open BodyState

/-! ### Slots of no variable -/

mutual

/-- The slots that the `switch` statements in a statement keep their values in. -/
def StatementCode.temporaries : StatementCode → List Nat
  | .block statements => statementTemporaries statements
  | .effect _ | .complete _ | .ret _ | .brk _ | .cont _ | .throw _ => []
  | .labeled _ body => body.temporaries
  | .branch _ consequent alternate => consequent.temporaries ++ alternate.temporaries
  | .switch _ slot _ clauses => slot :: clauseTemporaries clauses
  | .tryCatch body _ handler => body.temporaries ++ handler.temporaries
  | .tryFinally body finalizer => body.temporaries ++ finalizer.temporaries
  | .loop _ _ update body => update.temporaries ++ body.temporaries
  | .repeat _ body _ => body.temporaries
  | .forIn _ _ _ body => body.temporaries

/-- The slots that the `switch` statements among statements keep their values in. -/
def statementTemporaries : List StatementCode → List Nat
  | [] => []
  | s :: rest => s.temporaries ++ statementTemporaries rest

/-- The slots that the `switch` statements in clauses keep their values in. -/
def clauseTemporaries : List ClauseCode → List Nat
  | [] => []
  | .case _ body :: rest => body.temporaries ++ clauseTemporaries rest
  | .otherwise body :: rest => body.temporaries ++ clauseTemporaries rest

end

/-- The slots that the `switch` statements of a body keep their values in. -/
def FunctionCode.temporaries : FunctionCode → List Nat
  | .mk _ entry body => entry.temporaries ++ body.temporaries

theorem statementTemporaries_append (cs ds : List StatementCode) :
    statementTemporaries (cs ++ ds) = statementTemporaries cs ++ statementTemporaries ds := by
  induction cs with
  | nil => rfl
  | cons c rest ih => simp [statementTemporaries, ih]

theorem statementEffects_append (cs ds : List StatementCode) :
    statementEffects (cs ++ ds) = statementEffects cs ++ statementEffects ds := by
  induction cs with
  | nil => rfl
  | cons c rest ih => simp [statementEffects, ih]

namespace Compile

variable {α β : Type} {ctx : BodyContext}

/-- A slot that was given to a variable, or one of those that were taken for no variable. -/
def Usable (ctx : BodyContext) (given : BodyState) (taken : List Nat) (x : Storage) : Prop :=
  Placed ctx given x ∨ ∃ i ∈ taken, x = .slot .boxed i

theorem Usable.mono {given : BodyState} {taken taken' : List Nat} (h : taken ⊆ taken') (x : Storage)
    (hx : Usable ctx given taken x) : Usable ctx given taken' x :=
  hx.imp_right fun ⟨i, hi, heq⟩ => ⟨i, h hi, heq⟩

/-- Effects on variables that have their places and on slots that were taken. -/
abbrev Uses (ctx : BodyContext) (given : BodyState) (taken : List Nat)
    (effects : List Effect) : Prop :=
  Within (Usable ctx given taken) effects

theorem uses_of_placed {given : BodyState} {taken : List Nat} {effects : List Effect}
    (h : Within (Placed ctx given) effects) : Uses ctx given taken effects :=
  h.mono fun _ => .inl

theorem Uses.append {given : BodyState} {taken taken' : List Nat} {effects effects' : List Effect}
    (h : Uses ctx given taken effects) (h' : Uses ctx given taken' effects') :
    Uses ctx given (taken ++ taken') (effects ++ effects') :=
  within_append.mpr ⟨h.mono (Usable.mono (List.subset_append_left ..)),
    h'.mono (Usable.mono (List.subset_append_right ..))⟩

/-- A computation keeps what has been given and takes slots for no variable: different ones, which
were not counted before it and are counted after it.  At every later moment they are hidden, and `Q`
holds of them and of the result. -/
def Takes (ctx : BodyContext) (Q : List Nat → BodyState → α → Prop) (x : Compile α) : Prop :=
  ∀ ⦃s a s'⦄, x s = .ok (a, s') → s.Grows ctx s' ∧ (s.Sound ctx → ∃ taken : List Nat,
    taken.Nodup ∧ (∀ i ∈ taken, s.values ≤ i ∧ i < s'.values) ∧
      ∀ ⦃given⦄, s'.Grows ctx given → (∀ i ∈ taken, given.Hidden i) ∧ Q taken given a)

namespace Takes

variable {Q : List Nat → BodyState → α → Prop} {R : List Nat → BodyState → β → Prop} {x : Compile α}

theorem of_steady {P : BodyState → α → Prop} (h : Steady ctx P x) :
    Takes ctx (fun taken given a => taken = [] ∧ P given a) x := by
  intro s a s' hx
  obtain ⟨hgrows, hlater⟩ := h hx
  exact ⟨hgrows, fun _ =>
    ⟨[], List.nodup_nil, nofun, fun given hgiven => ⟨nofun, rfl, (hlater hgiven).2⟩⟩⟩

theorem mono {Q' : List Nat → BodyState → α → Prop} (h : Takes ctx Q x)
    (hQ : ∀ taken given a, Q taken given a → Q' taken given a) : Takes ctx Q' x := by
  intro s a s' hx
  obtain ⟨hgrows, hlater⟩ := h hx
  refine ⟨hgrows, fun hs => ?_⟩
  obtain ⟨taken, hnodup, hcounted, hgiven⟩ := hlater hs
  exact ⟨taken, hnodup, hcounted, fun given hg => (hgiven hg).imp_right (hQ taken given a)⟩

theorem pure {a : α} (h : ∀ given, Q [] given a) : Takes ctx Q (pure a : Compile α) := by
  intro s b s' hx
  cases hx
  exact ⟨.refl s, fun _ => ⟨[], List.nodup_nil, nofun, fun given _ => ⟨nofun, h given⟩⟩⟩

theorem throw (e : StaticError) : Takes ctx Q (throw e : Compile α) := by
  intro s b s' hx
  cases hx

/-- One part after the other: what the second one takes was not counted before. -/
theorem bind {f : α → Compile β} (hx : Takes ctx Q x)
    (hf : ∀ a, Takes ctx (fun taken' given b => ∀ taken, Q taken given a →
      R (taken ++ taken') given b) (f a)) :
    Takes ctx R (x >>= f) := by
  intro s b s'' h
  obtain ⟨a, s', hxa, hfb⟩ := bind_eq_ok h
  obtain ⟨hgrows, hlater⟩ := hx hxa
  obtain ⟨hgrows', hlater'⟩ := hf a hfb
  refine ⟨hgrows.trans hgrows', fun hs => ?_⟩
  obtain ⟨taken, hnodup, hcounted, hgiven⟩ := hlater hs
  obtain ⟨taken', hnodup', hcounted', hgiven'⟩ := hlater' (hgrows.sound hs)
  have hle : s.values ≤ s'.values := hgrows.count .boxed
  have hle' : s'.values ≤ s''.values := hgrows'.count .boxed
  refine ⟨taken ++ taken', ?_, fun i hi => ?_, fun given hg => ?_⟩
  · refine List.nodup_append.mpr ⟨hnodup, hnodup', fun i hi j hj heq => ?_⟩
    have hbelow := (hcounted i hi).2
    have habove := (hcounted' j hj).1
    omega
  · rcases List.mem_append.mp hi with hi | hi
    · have := hcounted i hi
      omega
    · have := hcounted' i hi
      omega
  · obtain ⟨hhidden, hQ⟩ := hgiven (hgrows'.trans hg)
    obtain ⟨hhidden', hR⟩ := hgiven' hg
    exact ⟨List.forall_mem_append.mpr ⟨hhidden, hhidden'⟩, hR taken hQ⟩

theorem map {g : α → β} (hx : Takes ctx Q x)
    (h : ∀ taken given a, Q taken given a → R taken given (g a)) :
    Takes ctx R (x >>= fun a => Pure.pure (g a)) :=
  hx.bind fun a => .pure fun given taken ha => by
    rw [List.append_nil]
    exact h taken given a ha

/-- What is steady takes nothing. -/
theorem first {P : BodyState → α → Prop} {f : α → Compile β} (hx : Steady ctx P x)
    (hf : ∀ a, Takes ctx (fun taken given b => P given a → R taken given b) (f a)) :
    Takes ctx R (x >>= f) :=
  (of_steady hx).bind fun a => (hf a).mono fun taken' given b hb taken ⟨htaken, ha⟩ => by
    rw [htaken]
    exact hb ha

theorem last {P : BodyState → α → Prop} {g : α → β} (hx : Steady ctx P x)
    (h : ∀ given a, P given a → R [] given (g a)) : Takes ctx R (x >>= fun a => Pure.pure (g a)) :=
  first hx fun a => .pure fun given ha => h given a ha

end Takes

/-- A new slot for values is taken. -/
theorem takes_newSlot : Takes ctx (fun taken _ x => taken = [x.index]) (newSlot .boxed) := by
  intro s x s' h
  cases h
  refine ⟨s.grows_grow .boxed,
    fun hs => ⟨[s.values], List.pairwise_singleton _ _, ?_, fun given hgiven => ⟨?_, rfl⟩⟩⟩
  · exact List.forall_mem_singleton.mpr ⟨Nat.le_refl _, Nat.lt_succ_self _⟩
  · exact List.forall_mem_singleton.mpr (hgiven.hidden hs)

/-! ### Statements -/

/-- A statement takes the slots of its `switch` statements and uses no others for no variable. -/
structure StmtTakes (ctx : BodyContext) (taken : List Nat) (given : BodyState)
    (c : StatementCode) : Prop where
  temporaries : c.temporaries = taken
  uses : Uses ctx given taken c.effects

/-- Statements take the slots of their `switch` statements and use no others for no variable. -/
structure ListTakes (ctx : BodyContext) (taken : List Nat) (given : BodyState)
    (cs : List StatementCode) :
    Prop where
  temporaries : statementTemporaries cs = taken
  uses : Uses ctx given taken (statementEffects cs)

/-- The clauses of a `switch` use its slot and take those of the `switch` statements in them. -/
structure ClausesTake (ctx : BodyContext) (slot : Nat) (taken : List Nat) (given : BodyState)
    (cs : List ClauseCode) : Prop where
  temporaries : clauseTemporaries cs = taken
  uses : Uses ctx given (slot :: taken) (clauseEffects cs)

variable {given : BodyState} {taken taken' : List Nat}

theorem ListTakes.cons {c : StatementCode} {cs : List StatementCode}
    (hc : StmtTakes ctx taken given c) (hcs : ListTakes ctx taken' given cs) :
    ListTakes ctx (taken ++ taken') given (c :: cs) where
  temporaries := by rw [statementTemporaries, hc.temporaries, hcs.temporaries]
  uses := hc.uses.append hcs.uses

theorem ListTakes.block {cs : List StatementCode} (h : ListTakes ctx taken given cs) :
    StmtTakes ctx taken given (.block cs) :=
  ⟨h.temporaries, h.uses⟩

theorem PlacedEntry.takes : ∀ {cs : List StatementCode}, PlacedEntry ctx given cs →
    ListTakes ctx [] given cs
  | [], _ => ⟨rfl, within_nil⟩
  | c :: rest, h => by
    obtain ⟨⟨code, rfl, hcode⟩, hrest⟩ := List.forall_mem_cons.mp h
    have hc : StmtTakes ctx [] given code.effect := ⟨rfl, uses_of_placed hcode⟩
    exact ListTakes.cons hc (PlacedEntry.takes hrest)

/-- A statement after others that take no slots. -/
theorem StmtTakes.after {cs : List StatementCode} {c : StatementCode}
    (hc : StmtTakes ctx taken given c) (hcs : PlacedEntry ctx given cs) :
    ListTakes ctx taken given (cs ++ [c]) where
  temporaries := by
    rw [statementTemporaries_append, hcs.takes.temporaries]
    simp [statementTemporaries, hc.temporaries]
  uses := by
    rw [statementEffects_append, statementEffects, statementEffects, List.append_nil]
    exact within_append.mpr ⟨hcs.takes.uses.mono (Usable.mono (List.nil_subset _)), hc.uses⟩

theorem StmtTakes.otherwise {slot : Nat} {body : StatementCode} {cs : List ClauseCode}
    (hb : StmtTakes ctx taken given body) (hcs : ClausesTake ctx slot taken' given cs) :
    ClausesTake ctx slot (taken ++ taken') given (.otherwise body :: cs) where
  temporaries := by rw [clauseTemporaries, hb.temporaries, hcs.temporaries]
  uses := by
    refine within_append.mpr ⟨hb.uses.mono (Usable.mono ?_), hcs.uses.mono (Usable.mono ?_)⟩
    · exact fun i hi => List.mem_cons_of_mem _ (List.mem_append_left _ hi)
    · exact List.cons_subset_cons _ (List.subset_append_right ..)

theorem StmtTakes.case {slot : Nat} {test : Code .boolean} {body : StatementCode}
    {cs : List ClauseCode} (hb : StmtTakes ctx taken given body)
    (ht : Uses ctx given [slot] test.effects) (hcs : ClausesTake ctx slot taken' given cs) :
    ClausesTake ctx slot (taken ++ taken') given (.case test body :: cs) where
  temporaries := (hb.otherwise hcs).temporaries
  uses := by
    refine within_append.mpr ⟨ht.mono (Usable.mono ?_), (hb.otherwise hcs).uses⟩
    exact List.cons_subset_cons _ (List.nil_subset _)

theorem StmtTakes.finally {body finalizer : StatementCode} (hb : StmtTakes ctx taken given body)
    (hf : StmtTakes ctx taken' given finalizer) :
    StmtTakes ctx (taken ++ taken') given (.tryFinally body finalizer) where
  temporaries := by rw [StatementCode.temporaries, hb.temporaries, hf.temporaries]
  uses := hb.uses.append hf.uses

theorem steady_forUpdate (update : Option Expr) :
    Steady ctx (StmtTakes ctx []) (forUpdate ctx update) := by
  cases update with
  | none => exact .pure fun _ => ⟨rfl, within_nil⟩
  | some e => exact (steady_expr e).bind fun c => .pure fun t hc => ⟨rfl, uses_of_placed hc⟩

theorem uses_boxed {c : TypedCode} (h : PlacedCode ctx given c) (ρ : Rep) :
    Uses ctx given taken (c.inRep ρ).effects :=
  uses_of_placed (by rwa [effects_inRep])

theorem steady_jump (target : Except StaticError TargetId) :
    Steady ctx (fun _ _ => True) (jump target) := by
  cases target with
  | ok t => exact .pure fun _ => trivial
  | error e => exact .throw e

mutual

/-- What the code of statements takes and uses. -/
theorem takes_stmtList :
    ∀ (ss : List Stmt) (j : Jumps), Takes ctx (ListTakes ctx) (stmtList ctx j ss)
  | [], j => by
    rw [stmtList]
    exact .pure fun _ => ⟨rfl, within_nil⟩
  | s :: rest, j => by
    have hrest := takes_stmtList rest j
    have hboth : Takes ctx (ListTakes ctx) (do
        let c ← stmt ctx j s
        let cs ← stmtList ctx j rest
        return c :: cs) :=
      (takes_stmt s j).bind fun c => hrest.map fun _ given cs hcs _ hc => .cons hc hcs
    cases s with
    | function f => rwa [stmtList]
    | empty span => rwa [stmtList]
    | _ => simpa only [stmtList] using hboth

/-- What the code of the clauses of a `switch` takes and uses. -/
theorem takes_clauseList : ∀ (cs : List SwitchClause) (j : Jumps) (slot : Nat),
    Takes ctx (ClausesTake ctx slot) (clauseList ctx j slot cs)
  | [], j, slot => by
    rw [clauseList]
    exact .pure fun _ => ⟨rfl, within_nil⟩
  | .mk _ none body :: rest, j, slot => by
    rw [clauseList]
    exact (takes_stmtList body j).bind fun b => (takes_clauseList rest j slot).map
      fun _ given cs hcs _ hb => hb.block.otherwise hcs
  | .mk _ (some test) body :: rest, j, slot => by
    rw [clauseList]
    refine .first (steady_expr test) fun t => (takes_stmtList body j).bind fun b =>
      (takes_clauseList rest j slot).map fun taken' given cs hcs taken hb ht => hb.block.case ?_ hcs
    -- The test compares the slot of the `switch` with what the expression yields.
    rw [effects_inRep, effects_binary]
    refine within_append.mpr
      ⟨within_cons.mpr ⟨.inr ⟨slot, List.mem_cons_self, rfl⟩, within_nil⟩, ?_⟩
    exact uses_of_placed ht

/-- What the code of a block takes and uses. -/
theorem takes_block : ∀ (b : Block) (j : Jumps), Takes ctx (StmtTakes ctx) (block ctx j b)
  | .mk _ body, j => by
    rw [block]
    exact (takes_stmtList body j).map fun _ given cs h => h.block

/-- What the code of a `catch` clause takes and uses beside the statements in front of it. -/
theorem takes_handler : ∀ (h : Handler) (j : Jumps) (body : StatementCode),
    Takes ctx (fun taken' given c => ∀ taken, StmtTakes ctx taken given body →
      StmtTakes ctx (taken ++ taken') given c) (handler ctx j body h)
  | .mk _ param b, j, body => by
    rw [handler]
    refine .first (steady_identifier param) fun a => (takes_block b j).map
      fun taken' given c hc ha taken hbody => ⟨?_, ?_⟩
    · rw [StatementCode.temporaries, hbody.temporaries, hc.temporaries]
    · refine hbody.uses.append ?_
      exact within_append.mpr ⟨uses_of_placed ha.effects,
        within_append.mpr ⟨uses_of_placed (ha.writes .any), hc.uses⟩⟩

/-- What the code of a statement takes and uses. -/
theorem takes_stmt : ∀ (s : Stmt) (j : Jumps), Takes ctx (StmtTakes ctx) (stmt ctx j s)
  | .expression _ e, j => by
    refine .last (steady_expr e) fun given c hc => ?_
    split
    · exact ⟨rfl, uses_boxed hc _⟩
    · exact ⟨rfl, uses_of_placed hc⟩
  | .block b, j => by
    exact takes_block b j
  | .empty _, j => by
    exact .pure fun _ => ⟨rfl, within_nil⟩
  | .debugger _, j => by
    exact .pure fun _ => ⟨rfl, within_nil⟩
  | .function _, j => by
    exact .pure fun _ => ⟨rfl, within_nil⟩
  | .declaration _ ds, j => by
    exact .last (steady_declaratorList ds) fun _ cs h => h.takes.block
  | .ret _ none, j => by
    rw [stmt_ret_none]
    split
    · exact .throw _
    · exact .pure fun _ => ⟨rfl, within_nil⟩
  | .ret _ (some e), j => by
    rw [stmt_ret_some]
    split
    · exact .throw _
    · exact .last (steady_expr e) fun _ c hc => ⟨rfl, uses_boxed hc _⟩
  | .brk _ label, j => by
    exact .last (steady_jump _) fun _ _ _ => ⟨rfl, within_nil⟩
  | .cont _ label, j => by
    exact .last (steady_jump _) fun _ _ _ => ⟨rfl, within_nil⟩
  | .labeled _ label body, j => by
    rw [stmt_labeled]
    split
    · exact .throw _
    · next k hk =>
      split
      · exact takes_stmt body k
      · exact (takes_stmt body (k.enter .labeled)).map fun _ _ _ h => ⟨h.temporaries, h.uses⟩
  | .conditional _ test consequent none, j => by
    refine .first (steady_expr test) fun t =>
      (takes_stmt consequent j).map fun taken given c hc ht => ⟨?_, ?_⟩
    · simp [StatementCode.temporaries, hc.temporaries, StatementCode.skip, statementTemporaries]
    · exact within_append.mpr ⟨uses_boxed ht _, within_append.mpr ⟨hc.uses, within_nil⟩⟩
  | .conditional _ test consequent (some alternate), j => by
    refine .first (steady_expr test) fun t => (takes_stmt consequent j).bind fun c =>
      (takes_stmt alternate j).map fun taken' given d hd taken hc ht => ⟨?_, ?_⟩
    · rw [StatementCode.temporaries, hc.temporaries, hd.temporaries]
    · exact within_append.mpr ⟨uses_boxed ht _, hc.uses.append hd.uses⟩
  | .switch _ discriminant clauses, j => by
    refine .first (steady_expr discriminant) fun d => takes_newSlot.bind fun slot =>
      (takes_clauseList clauses (j.enter .switch) slot.index).map
        fun taken' given cs hcs taken htaken hd => ?_
    rw [htaken]
    exact ⟨by rw [StatementCode.temporaries, hcs.temporaries]; rfl,
      within_append.mpr ⟨uses_boxed hd _,
        within_cons.mpr ⟨.inr ⟨_, List.mem_cons_self, rfl⟩, hcs.uses⟩⟩⟩
  | .throw _ e, j => by
    exact .last (steady_expr e) fun _ c hc => ⟨rfl, uses_boxed hc _⟩
  | .tryCatch _ b none none, j => by
    rw [stmt_tryCatch]
    exact (takes_block b j).map fun _ _ _ hbody => hbody
  | .tryCatch _ b (some h) none, j => by
    rw [stmt_tryCatch]
    exact (takes_block b j).bind fun body =>
      (takes_handler h j body).map fun _ _ _ hc taken hbody =>
      hc taken hbody
  | .tryCatch _ b none (some f), j => by
    rw [stmt_tryCatch]
    exact (takes_block b j).bind fun body => (takes_block f j).map fun _ _ _ hd _ hbody =>
      hbody.finally hd
  | .tryCatch _ b (some h) (some f), j => by
    rw [stmt_tryCatch]
    refine (takes_block b j).bind fun body => (takes_handler h j body).bind fun c =>
      (takes_block f j).map fun _ _ _ hd _ hc taken hbody => ?_
    rw [← List.append_assoc]
    exact (hc taken hbody).finally hd
  | .while _ test body, j => by
    refine .first (steady_expr test) fun t =>
      (takes_stmt body (j.enter .loop)).map fun taken given b hb ht =>
      ⟨hb.temporaries, ?_⟩
    exact within_append.mpr ⟨uses_boxed ht _, within_append.mpr ⟨within_nil, hb.uses⟩⟩
  | .doWhile _ test body, j => by
    refine .first (steady_expr test) fun t =>
      (takes_stmt body (j.enter .loop)).map fun taken given b hb ht =>
      ⟨hb.temporaries, ?_⟩
    exact within_append.mpr ⟨hb.uses, uses_boxed ht _⟩
  | .for _ init test update body, j => by
    rw [stmt_for]
    refine .first (steady_forInit init) fun first => .first (steady_forTest test) fun t =>
      .first (steady_forUpdate update) fun u => (takes_stmt body (j.enter .loop)).map
        fun taken given b hb hu ht hfirst => ?_
    have hloop : StmtTakes ctx taken given (.loop j.nextId t u b) := by
      refine ⟨?_, within_append.mpr ⟨uses_of_placed ht, within_append.mpr ⟨?_, hb.uses⟩⟩⟩
      · rw [StatementCode.temporaries, hu.temporaries, hb.temporaries]
        rfl
      · exact hu.uses.mono (Usable.mono (List.nil_subset _))
    exact (hloop.after hfirst).block
  | .forIn _ left right body, j => by
    rw [stmt_forIn]
    refine .first (steady_forInPlace left) fun place => .first (steady_expr right) fun o =>
      (takes_stmt body (j.enter .loop)).map fun taken given b hb ho hplace => ⟨hb.temporaries, ?_⟩
    exact within_append.mpr ⟨uses_boxed ho _, within_append.mpr ⟨uses_of_placed hplace.effects,
      within_append.mpr ⟨uses_of_placed (hplace.writes _), hb.uses⟩⟩⟩
  | .with _ id object body, j => by
    rw [stmt_with]
    refine .first (steady_withEntry id object) fun c =>
      (takes_stmt body j).map fun taken given b hb hc => ?_
    have hentry : PlacedEntry ctx given [c.effect] := List.forall_mem_singleton.mpr ⟨c, rfl, hc⟩
    exact (hb.after hentry).block

end

end Compile

/-! ### Room for variables -/

/-- The number of slots of a representation. -/
def FrameLayout.count (layout : FrameLayout) : Rep → Nat
  | .boxed => layout.values
  | .double => layout.doubles
  | .boolean => layout.booleans
  | .string => layout.strings

/-- The number of slots of a representation. -/
def Frame.count (f : Frame) : Rep → Nat
  | .boxed => f.values.size
  | .double => f.doubles.size
  | .boolean => f.booleans.size
  | .string => f.strings.size

/-- A variable is kept within some numbers of slots and of records, unless it is kept elsewhere. -/
def Storage.Fits (slots : Rep → Nat) (records : Nat) : Storage → Prop
  | .slot ρ index => index < slots ρ
  | .field address | .parameter _ (some address) => address.record < records
  | .parameter _ none | .global _ => True

/-- A frame has the slots and the records of a layout. -/
structure Frame.Has (f : Frame) (layout : FrameLayout) : Prop where
  slots : f.count = layout.count
  records : f.records.size = layout.records

/-- What is read or written is there at that moment. -/
def Event.InRange : Event → Prop
  | .read storage s | .write storage _ s => storage.Fits s.frame.count s.frame.records.size
  | .function .. | .run .. => True

/-- The code of a body runs without reaching past the end of its frame. -/
def FunctionCode.RunsInRange (host : Host) (code : FunctionCode) (s : RunState) : Prop :=
  (code.traced host s).2 = code.exec host s ∧ ∀ e ∈ (code.traced host s).1, e.InRange

/-- The slots and records of a body that was compiled with the places given in the end. -/
theorem Compile.fits_of_usable {ctx : BodyContext} {given : BodyState} {taken : List Nat}
    {fields : Option Nat} (hs : given.Sound ctx) (htaken : ∀ i ∈ taken, i < given.values)
    {x : Storage} (hx : Compile.Usable ctx given taken x) :
    x.Fits (given.layout fields).count (given.layout fields).records := by
  have hcount (ρ : Rep) : (given.layout fields).count ρ = given.count ρ := by
    cases ρ <;> rfl
  have haddress {f : RecordField} {address : FieldAddress}
      (h : Compile.Addressed ctx given f address) :
      address.record < given.hops.length := by
    obtain ⟨-, _, -, hhops⟩ := h
    exact (List.getElem?_eq_some_iff.mp hhops).1
  rcases hx with ⟨v, -, hv⟩ | ⟨i, hi, rfl⟩
  · cases x with
    | global name => trivial
    | parameter index via =>
      cases via with
      | none => trivial
      | some address =>
        obtain ⟨_, -, h⟩ := hv
        exact haddress h
    | slot ρ index =>
      change index < (given.layout fields).count ρ
      rw [hcount]
      exact hs.counted v _ hv
    | field address =>
      obtain ⟨_, -, h⟩ := hv
      exact haddress h
  · exact htaken i hi

/-! ### Runs within a frame -/

section Runs

variable {host : Host} {layout : FrameLayout}

/-- Equal machines. -/
def MachineRelation.equal : MachineRelation where
  code := Eq
  rel m n := m = n
  code_name := @FunctionCode.name_congr
  heap := by
    rintro m _ rfl
    exact .refl _
  depth h := congrArg Machine.depth h
  limit h := congrArg Machine.limit h
  withHeap := by
    rintro m _ h k rfl hadvance
    obtain rfl := hadvance.similar.eq
    rfl
  withOutput := by
    rintro m _ rfl text
    rfl

theorem Frame.Has.setSlot {f : Frame} (h : f.Has layout) (ρ : Rep) (i : Nat) (x : ρ.Carrier) :
    (f.setSlot ρ i x).Has layout := by
  refine ⟨Eq.trans (funext fun σ => ?_) h.slots, ?_⟩
  · cases ρ <;> cases σ <;> simp [Frame.setSlot, Frame.count]
  · cases ρ <;> exact h.records

/-- Equal activations in a frame with a layout. -/
def ActivationRelation.within (layout : FrameLayout) : ActivationRelation where
  machines := .equal
  frame f := f.Has layout
  setSlot h := h.setSlot
  completion h _ := ⟨h.slots, h.records⟩

theorem ActivationRelation.isDiagonal_within : (ActivationRelation.within layout).IsDiagonal where
  eq h := h
  keeps _ _ _ := rfl

theorem Ending.agree_self {α ε : Type} {p : Ending Machine ε α} :
    p.Agree MachineRelation.equal.rel (sameResult MachineRelation.equal.rel) p := by
  cases p with
  | ok a m => exact .ok ⟨rfl, rfl⟩
  | error e m => exact .error rfl
  | exhausted => exact .exhausted

/-- Runs of a body on one host in a frame with a layout. -/
def ActivationRelation.Setting.within (host : Host) (layout : FrameLayout) :
    ActivationRelation.Setting :=
  .onHost host (.within layout) Event.InRange fun _ _ _ hst => ⟨trivial, by
    obtain rfl := ActivationRelation.isDiagonal_within.eq_of_rel hst
    exact Ending.agree_self⟩

/-- What fits into the layout is in range. -/
theorem ActivationRelation.Setting.admits_within {e : Effect}
    (h : e.Within (Storage.Fits layout.count layout.records)) :
    (ActivationRelation.Setting.within host layout).Admits e := by
  have hdiagonal : (ActivationRelation.within layout).IsDiagonal :=
    ActivationRelation.isDiagonal_within
  have hfits {storage : Storage} (hx : storage.Fits layout.count layout.records) {s t : RunState}
      (hst : (ActivationRelation.within layout).rel s t) :
      storage.Fits s.frame.count s.frame.records.size := by
    rw [hst.frame.slots, hst.frame.records]
    exact hx
  cases e with
  | read storage =>
    exact fun lenient => .noting fun s t hst _ =>
      ⟨hfits h hst, hdiagonal.same_storageRead lenient storage hst⟩
  | write storage source =>
    exact fun v _ => .noting fun s t hst _ =>
      ⟨hfits h hst, hdiagonal.same_storageWrite v storage hst⟩
  | function f => exact .noting fun s t hst _ => ⟨trivial, hdiagonal.same_makeFunction f hst⟩

/-- Code whose variables fit into a layout stays within frames that have it. -/
theorem FunctionCode.runsInRange_of_fits {code : FunctionCode}
    (h : Within (Storage.Fits layout.count layout.records) code.effects) {s : RunState}
    (hs : s.frame.Has layout) : code.RunsInRange host s := by
  have hrel : (ActivationRelation.within layout).rel s s := ⟨rfl, hs, rfl⟩
  obtain ⟨hevents, hend⟩ := ActivationRelation.Setting.follows_function
    (X := .within host layout) ActivationRelation.isDiagonal_within code
    (fun e he => ActivationRelation.Setting.admits_within (h e he)) hrel fun _ _ => trivial
  refine ⟨?_, hevents⟩
  change (code.traced host s).2.Agree _ _ (code.exec host s) at hend
  generalize (code.traced host s).2 = p at hend
  generalize code.exec host s = q at hend
  cases hend with
  | ok hQ => rw [hQ.1, ActivationRelation.isDiagonal_within.eq_of_rel hQ.2]
  | error hE => rw [ActivationRelation.isDiagonal_within.eq_of_rel hE]
  | exhausted => rfl

end Runs

/-! ### Types of variables -/

/-- Only locals that no nested function uses and no `with` statement hides can have a concrete
type. -/
theorem valueType_of_analyze {p : Program} {options : CompileOptions} {a : Analysis}
    (h : analyze p options = .ok a) {v : VariableId} (hv : v < a.vars.size)
    (hkind : (a.var v).kind ≠ .local ∨ (a.var v).isCaptured = true ∨ ∃ w,
      (a.var w).fallback = some v) :
    (a.var v).valueType = .unknown := by
  unfold analyze at h
  cases hr : Resolve.program options.strict p with
  | error e =>
    rw [hr] at h
    cases h
  | ok r =>
    rw [hr] at h
    generalize options.specialize = specialize at h
    obtain rfl : (if specialize then r.withLayouts.withTypes p.body
        else r.withLayouts.untyped) = a :=
      Except.ok.inj h
    cases specialize with
    | true =>
      have hvar (w : VariableId) : ∃ valueType, (r.withLayouts.withTypes p.body).var w =
          { r.withLayouts.var w with valueType } := r.withLayouts.var_setTypes _ w
      have hlt : v < r.withLayouts.vars.size := by
        simpa [Analysis.withTypes, Analysis.setTypes] using hv
      refine r.withLayouts.valueType_withTypes p.body (r.withLayouts.seededTypes_unknown hlt ?_)
      refine hkind.imp (fun hne => ?_) (.imp (fun hcaptured => ?_) (Exists.imp fun w hw => ?_))
      · obtain ⟨_, h⟩ := hvar v
        simpa [h] using hne
      · obtain ⟨_, h⟩ := hvar v
        simpa [h, Variable.isCaptured] using hcaptured
      · obtain ⟨_, h⟩ := hvar w
        simpa [h] using hw
    | false =>
      have hlt : v < r.withLayouts.vars.size := by
        simpa [Analysis.untyped] using hv
      simp [Analysis.untyped, Analysis.var, hlt]

/-! ### Bodies -/

/-- How a body uses its frame, `given` being the places that were given in the end. -/
structure FunctionCode.Framed (ctx : BodyContext) (statements : List Stmt) (given : BodyState)
    (code : FunctionCode) : Prop where
  /-- The layout is read off in the end, and the code runs as statements that find their variables
  there. -/
  compiled : ∃ name paramCount globals entry body,
    code = .mk (Compile.bodyInfo ctx name paramCount globals given) entry body ∧
      ∀ host, Runs given .none ctx.isProgram (body.exec host)
        (runStmts (Evaluator.ofBody host ctx given) statements)
  kind : ∀ v x, given.slot? v = some x → x.rep = .ofValueType (ctx.analysis.var v).valueType
  distinct : ∀ v w x, given.slot? v = some x → given.slot? w = some x → v = w
  temporaries : code.temporaries.Nodup
  /-- A slot of a `switch` is that of no variable. -/
  apart : ∀ i ∈ code.temporaries, given.Hidden i
  /-- No two numbers are given to the record at one distance. -/
  records : given.hops.Nodup
  used : Compile.Uses ctx given code.temporaries code.effects
  fits : Within (Storage.Fits code.info.layout.count code.info.layout.records) code.effects
  argumentsSlot : ∀ i, code.info.argumentsSlot = some i → i < code.info.layout.values ∧
    ∃ v, (ctx.analysis.body ctx.id).arguments = some v ∧ given.slot? v = some ⟨.boxed, i⟩
  argumentsField : ∀ i, code.info.argumentsField = some i →
    ∃ fields, code.info.layout.ownFields = some fields ∧ i < fields
  runs : ∀ (host : Host) (m : Machine) (this callee arguments : Value) (scope : Option RecordRef),
    (m.enterFrame code.info this callee arguments scope).frame.Has code.info.layout ∧
      code.RunsInRange host (m.enterFrame code.info this callee arguments scope)

/-- An activation has the frame that the layout asks for. -/
theorem Machine.has_enterFrame (m : Machine) (info : FunctionInfo) (this callee arguments : Value)
    (scope : Option RecordRef) (h : info.recordHops.length = info.layout.records) :
    (m.enterFrame info this callee arguments scope).frame.Has info.layout := by
  refine ⟨funext fun ρ => ?_, ?_⟩
  · cases ρ <;> simp [Machine.enterFrame, Frame.count, FrameLayout.count]
  · simpa [Machine.enterFrame] using h

namespace Compile

variable {ctx : BodyContext} {given : BodyState} {statements : List Stmt}

/-- What is known of the slots that a computation takes from the beginning on. -/
theorem Takes.of_run {α : Type} {Q : List Nat → BodyState → α → Prop} {x : Compile α}
    (hx : Takes ctx Q x) {a : α} (h : x.run .initial = .ok (a, given)) :
    given.Sound ctx ∧ ∃ taken : List Nat,
      taken.Nodup ∧ (∀ i ∈ taken, i < given.values) ∧ (∀ i ∈ taken, given.Hidden i) ∧
        Q taken given a := by
  obtain ⟨hgrows, hlater⟩ := hx h
  obtain ⟨taken, hnodup, hcounted, hgiven⟩ := hlater sound_initial
  obtain ⟨hhidden, hQ⟩ := hgiven (.refl given)
  exact ⟨hgrows.sound sound_initial, taken, hnodup, fun i hi => (hcounted i hi).2, hhidden, hQ⟩

/-- The statements and the entry of a body. -/
def BodyTakes (ctx : BodyContext) (taken : List Nat) (given : BodyState)
    (r : List StatementCode × List StatementCode) : Prop :=
  ListTakes ctx taken given r.1 ∧ PlacedEntry ctx given r.2

/-- A body that was compiled in one go uses its frame as it should. -/
theorem framed_of_run {x : Compile (List StatementCode × List StatementCode)}
    {entry body : List StatementCode} (h : x.run .initial = .ok ((body, entry), given))
    (hruns : ∀ host, Ensures ctx (fun given r => BodyRuns host ctx statements given r) x)
    (htakes : Takes ctx (BodyTakes ctx) x)
    (harguments : ∀ v, (ctx.analysis.body ctx.id).arguments = some v →
      (ctx.analysis.var v).valueType = .unknown)
    (name : String) (paramCount : Nat) (globals : List String) :
    (FunctionCode.mk (bodyInfo ctx name paramCount globals given) (.block entry)
      (.block body)).Framed ctx statements given := by
  obtain ⟨hs, taken, hnodup, hcounted, hhidden, hbody, hentry⟩ := htakes.of_run h
  have htemporaries : statementTemporaries entry ++ statementTemporaries body = taken := by
    rw [hentry.takes.temporaries, hbody.temporaries, List.nil_append]
  have hused : Uses ctx given taken (statementEffects entry ++ statementEffects body) :=
    within_append.mpr ⟨hentry.takes.uses.mono (Usable.mono (List.nil_subset _)), hbody.uses⟩
  have hfits : Within (Storage.Fits (bodyInfo ctx name paramCount globals given).layout.count
      (bodyInfo ctx name paramCount globals given).layout.records)
      (statementEffects entry ++ statementEffects body) :=
    hused.mono fun _ => fits_of_usable hs hcounted
  subst htemporaries
  refine
    { compiled := ⟨name, paramCount, globals, _, _, rfl, fun host => ?_⟩
      kind := hs.kind
      distinct := hs.distinct
      temporaries := hnodup
      apart := hhidden
      records := hs.hops
      used := hused
      fits := hfits
      argumentsSlot := fun i hi => ?_
      argumentsField := fun i hi => ?_
      runs := fun host m this callee arguments scope => ?_ }
  · exact ((hruns host).of_run h).1
  · obtain ⟨v, hv, hslot⟩ := Option.bind_eq_some_iff.mp hi
    obtain ⟨⟨ρ, index⟩, hx, rfl⟩ := Option.map_eq_some_iff.mp hslot
    have hrep : ρ = .boxed := by
      refine (hs.kind v _ hx).trans ?_
      rw [harguments v hv]
      rfl
    subst hrep
    exact ⟨hs.counted v _ hx, v, hv, hx⟩
  · obtain ⟨l, hl, hindex⟩ := Option.bind_eq_some_iff.mp hi
    refine ⟨(ctx.analysis.layout l).fields.length, ?_, RecordLayout.fieldIndex?_lt hindex⟩
    simp [FunctionCode.info, bodyInfo, BodyState.layout, hl]
  · have hhas := m.has_enterFrame (bodyInfo ctx name paramCount globals given) this callee
        arguments scope rfl
    exact ⟨hhas, FunctionCode.runsInRange_of_fits hfits hhas⟩

theorem takes_functionParts (body : List Stmt) :
    Takes ctx (BodyTakes ctx) (functionParts ctx body) :=
  (takes_stmtList body .none).bind fun statements => .first steady_selfEntry fun self =>
    .last (steady_hoistList body) fun given declared hdeclared hself taken hbody => by
      rw [List.append_nil]
      exact ⟨hbody, placedEntry_append hself hdeclared⟩

theorem takes_scriptParts (body : List Stmt) : Takes ctx (BodyTakes ctx) (scriptParts ctx body) :=
  (takes_stmtList body .none).bind fun statements =>
    .last (steady_hoistList body) fun given entry hentry taken hbody => by
      rw [List.append_nil]
      exact ⟨hbody, hentry⟩

end Compile

section

variable {source : String} {p : Program} {options : CompileOptions} {a : Analysis}

/-- The slot that takes the arguments object is written as it is. -/
theorem valueType_arguments (hp : Program.parse source = .ok p) (ha : analyze p options = .ok a)
    (id : FunctionId) (v : VariableId) (hv : (a.body id).arguments = some v) :
    (a.var v).valueType = .unknown := by
  obtain ⟨r, origin, hscoped, hlaid⟩ := laidOut_of_analyze (Program.wellNumbered_of_parse hp) ha
  obtain ⟨_, _, hbody⟩ := hlaid.same.body id
  obtain ⟨_, _, hvar⟩ := hlaid.same.var v
  have howns := (hscoped.sound.body id).arguments v (by rwa [hbody] at hv)
  refine valueType_of_analyze ha (by rw [hlaid.same.vars_size]; exact howns.bound) (.inl ?_)
  rw [hvar, List.mem_singleton.mp howns.kind]
  decide

theorem framed_of_program (hp : Program.parse source = .ok p) (ha : analyze p options = .ok a)
    {code : FunctionCode} (hcode : Compile.program a p = .ok code) :
    ∃ given, code.Framed (.ofBody a 0 true) p.body given := by
  obtain ⟨statements, entry, given, globals, hrun, rfl⟩ := Compile.program_eq_ok hcode
  exact ⟨given, Compile.framed_of_run hrun (fun _ => Compile.ensures_scriptParts _)
    (Compile.takes_scriptParts _) (valueType_arguments hp ha 0) "" 0 globals⟩

theorem framed_of_func (hp : Program.parse source = .ok p)
    (ha : analyze p options = .ok a) {f : Func} {code : FunctionCode}
    (hcode : Compile.func a f = .ok code) :
    ∃ given, code.Framed (.ofBody a f.id false) f.body given := by
  obtain ⟨statements, entry, given, name, paramCount, hrun, rfl⟩ := Compile.func_eq_ok hcode
  exact ⟨given, Compile.framed_of_run hrun (fun _ => Compile.ensures_functionParts _)
    (Compile.takes_functionParts _) (valueType_arguments hp ha f.id) name paramCount []⟩

end

/-- All bodies of a script that compiles use their frames in the same way. -/
theorem Program.framed_of_compile {source : String} {p : Program} {options : CompileOptions}
    {c : CompiledProgram} (hp : Program.parse source = .ok p) (h : p.compile options = .ok c) :
    (∃ given, c.code.Framed (.ofBody c.analysis 0 true) p.body given) ∧
    ∀ (f : Func) (code : FunctionCode), Compile.func c.analysis f = .ok code →
      ∃ given, code.Framed (.ofBody c.analysis f.id false) f.body given := by
  obtain ⟨a, ha, h⟩ := Compile.except_bind_eq_ok h
  obtain ⟨code, hcode, h⟩ := Compile.except_bind_eq_ok h
  cases h
  exact ⟨framed_of_program hp ha hcode, fun _ _ hf => framed_of_func hp ha hf⟩

/-- Some property of a source that compiles, by computation. -/
theorem Program.exists_compile (source : String) (options : CompileOptions)
    (q : Program → CompiledProgram → Bool)
    (h : ((Program.parse source).toOption.any fun p => (p.compile options).toOption.any (q p)) =
      true) :
    ∃ p c, Program.parse source = .ok p ∧ p.compile options = .ok c ∧ q p c = true := by
  obtain ⟨p, hp, h⟩ := Program.exists_parse source _ h
  obtain ⟨c, hc, h⟩ := exists_of_toOption_any h
  exact ⟨p, c, hp, hc, h⟩

/-- The code of the first function that a body declares. -/
def Compile.firstFunction? (body : List Stmt) (c : CompiledProgram) : Option FunctionCode :=
  (bodyFunctions body).head?.bind fun f => (func c.analysis f).toOption

theorem Compile.exists_of_firstFunction? {body : List Stmt} {c : CompiledProgram}
    {code : FunctionCode} (h : firstFunction? body c = some code) :
    ∃ f, func c.analysis f = .ok code := by
  obtain ⟨f, -, hf⟩ := Option.bind_eq_some_iff.mp h
  exact ⟨f, eq_ok_of_toOption hf⟩

/-- The slots of a variable of each kind and of two `switch` statements, one inside the other. -/
theorem Program.framed_of_compile_switch : ∃ p c f code,
    Program.parse
      "function f(x) { var n = 1, t = true, s = typeof x; switch (n) { case x: switch (s) { } } }" =
      .ok p ∧ p.compile ⟨false, true⟩ = .ok c ∧ Compile.func c.analysis f = .ok code ∧
    code.temporaries = [0, 1] ∧ code.info.layout = ⟨2, 1, 1, 1, 0, none⟩ ∧
    (∃ given, c.code.Framed (.ofBody c.analysis 0 true) p.body given) ∧
    ∃ given, code.Framed (.ofBody c.analysis f.id false) f.body given := by
  obtain ⟨p, c, hp, hc, h⟩ := Program.exists_compile
    "function f(x) { var n = 1, t = true, s = typeof x; switch (n) { case x: switch (s) { } } }"
      ⟨false, true⟩
    (fun p c => (Compile.firstFunction? p.body c).any fun code =>
      code.temporaries == [0, 1] && code.info.layout == ⟨2, 1, 1, 1, 0, none⟩) (by decide +kernel)
  have hframed := Program.framed_of_compile hp hc
  obtain ⟨code, hcode, h⟩ := (Option.any_eq_true _ _).mp h
  obtain ⟨f, hf⟩ := Compile.exists_of_firstFunction? hcode
  obtain ⟨htemporaries, hlayout⟩ := Bool.and_eq_true_iff.mp h
  exact ⟨p, c, f, code, hp, hc, hf, beq_iff_eq.mp htemporaries, beq_iff_eq.mp hlayout, hframed.1,
    hframed.2 f code hf⟩

end ScriptEngine
