import ScriptEngine.Proofs.Analysis.Parameters
import ScriptEngine.Proofs.Script.Occurrence
import ScriptEngine.Proofs.Script.Numbering

/-!
# Resolution

Resolution fills the tables so that the scoping rules hold of the whole script.

## Main definitions

* `Analysis.Awaits` : the tables before a piece of syntax is resolved.
* `Analysis.Fills`, `Resolve.Gives` : the tables after a piece of syntax is resolved.

## Main statements

* `Resolve.post_enter` : the body of a function is opened.
* `Resolve.gives_expr`, `Resolve.gives_stmt` : expressions and statements are resolved.
* `Resolve.scoped_of_program` : the scoping rules hold of a script.
-/

namespace ScriptEngine

/-! ### Pieces of syntax -/

/-- The tables before a piece of syntax is resolved: its nodes and functions are its own, and the
functions that it declares have got their names. -/
structure Analysis.Awaits (env : Environment) (ms : List Mark) (fs : List Func) (a : Analysis) :
    Prop where
  sound : a.Sound
  valid : env.Valid a
  nodes : (Mark.nodesOf ms).Nodup
  functions : (Mark.functionsOf ms).Nodup
  ordered : Mark.AllOrdered ms
  above : ∀ id ∈ Mark.functionsOf ms, Resolve.current env < id
  nodes_lt : ∀ n ∈ Mark.nodesOf ms, n < a.references.size ∧ n < a.withVariables.size
  functions_lt : ∀ id ∈ Mark.functionsOf ms, id < a.bodies.size
  fresh : ∀ id ∈ Mark.functionsOf ms, (a.body id).declared = .empty ∧ (a.body id).params = []
  named : ∀ f ∈ fs, ∀ i, f.identifier? = some i → a.NamesFunction (Resolve.current env) i.id

/-- An identifier occurrence in a function uses a variable of a body around the function. -/
def Occurrence.UsesForeign (a : Analysis) (o : Occurrence) (w : VariableId) : Prop :=
  ∃ i v, o.mention = .identifier i ∧ a.reference? i = some v ∧ a.Uses v w ∧
    (a.var w).body ≠ Scope.owner o.scopes ∧ (a.var w).body ∈ Scope.path o.scopes

/-- The tables after a piece of syntax is resolved.  A property of the piece holds from then on,
given the origins of the variables that were added for it, every variable that was captured is used
by an occurrence in a nested function, and every name that became one of the script's is that of an
occurrence. -/
structure Analysis.Fills (env : Environment) (ms : List Mark) (us : List Occurrence)
    (P : Analysis → (VariableId → NodeId) → Prop) (a b : Analysis) : Prop where
  sound : b.Sound
  growth : a.Extends (fun n => n ∉ Mark.nodesOf ms) (fun id => id ∉ Mark.functionsOf ms) b
  holds : ∃ o : VariableId → NodeId, ∀ c o',
    b.Extends (fun n => n ∈ Mark.nodesOf ms)
      (fun id => id ∈ Mark.functionsOf ms ∨ id ∈ env.bodies) c →
    (∀ v, a.vars.size ≤ v → v < b.vars.size → o' v = o v) → P c o'
  notes : a.Notes b
    (fun w => ∃ u ∈ us, ∀ c, b.Extends (fun n => n ∈ Mark.nodesOf ms) (fun _ => False) c →
      u.UsesForeign c w)
    fun x => ∃ u ∈ us, ∃ i, u.mention = .identifier i ∧ i.name = x

/-- The names of functions are among the nodes of an outline. -/
def NamesIn (fs : List Func) (ms : List Mark) : Prop :=
  ∀ f ∈ fs, ∀ i, f.identifier? = some i → i.id ∈ Mark.nodesOf ms

namespace NamesIn

variable {fs fs' : List Func} {ms ms' : List Mark}

theorem nil (ms : List Mark) : NamesIn [] ms :=
  fun _ hf => absurd hf List.not_mem_nil

theorem append (h : NamesIn fs ms) (h' : NamesIn fs' ms') : NamesIn (fs ++ fs') (ms ++ ms') := by
  intro f hf i hi
  rw [Mark.nodesOf_append, List.mem_append]
  exact (List.mem_append.mp hf).imp (fun hf => h f hf i hi) fun hf => h' f hf i hi

theorem left (h : NamesIn fs ms) (ms' : List Mark) : NamesIn fs (ms ++ ms') := by
  simpa using h.append (nil ms')

theorem right (h : NamesIn fs ms) (ms' : List Mark) : NamesIn fs (ms' ++ ms) := by
  simpa using (nil ms').append h

end NamesIn

mutual

/-- The functions that a statement declares have their names in it. -/
theorem namesIn_stmt : ∀ s : Stmt, NamesIn s.functions s.marks
  | .function f => by
    obtain ⟨span, id, name, params, strict, isExpression, bodySpan, body⟩ := f
    intro g hg i hi
    cases List.mem_singleton.mp hg
    cases hi
    simp [Mark.nodesOf, Mark.nodes, Identifier.mark]
  | .block b => by simpa [Stmt.functions] using namesIn_block b
  | .labeled _ _ body => by simpa [Stmt.functions] using namesIn_stmt body
  | .while _ test body => by simpa [Stmt.functions] using (namesIn_stmt body).right test.marks
  | .doWhile _ test body => by simpa [Stmt.functions] using (namesIn_stmt body).left test.marks
  | .with _ id object body => by
    simpa [Stmt.functions] using ((namesIn_stmt body).left [.node id]).right object.marks
  | .conditional _ test c none => by simpa [Stmt.functions] using (namesIn_stmt c).right test.marks
  | .conditional _ test c (some a) => by
    simpa [Stmt.functions] using ((namesIn_stmt c).append (namesIn_stmt a)).right test.marks
  | .for _ init test update body => by
    simpa [Stmt.functions] using
      (namesIn_stmt body).right (init.marks ++ optionMarks test ++ optionMarks update)
  | .forIn _ left right body => by
    simpa [Stmt.functions] using (namesIn_stmt body).right (left.marks ++ right.marks)
  | .switch _ discriminant clauses => by
    simpa [Stmt.functions] using (namesIn_clauses clauses).right discriminant.marks
  | .tryCatch _ b none none => by simpa [Stmt.functions] using namesIn_block b
  | .tryCatch _ b none (some f) => by
    simpa [Stmt.functions] using (namesIn_block b).append (namesIn_block f)
  | .tryCatch _ b (some (.mk _ param hb)) none => by
    simpa [Stmt.functions] using (namesIn_block b).append ((namesIn_block hb).right [param.mark])
  | .tryCatch _ b (some (.mk _ param hb)) (some f) => by
    simpa [Stmt.functions] using
      (namesIn_block b).append (((namesIn_block hb).right [param.mark]).append (namesIn_block f))
  | .expression .. => .nil _
  | .empty _ => .nil _
  | .debugger _ => .nil _
  | .ret .. => .nil _
  | .brk .. => .nil _
  | .cont .. => .nil _
  | .throw .. => .nil _
  | .declaration .. => .nil _

theorem namesIn_block : ∀ b : Block, NamesIn b.functions b.marks
  | .mk _ body => by simpa [Block.functions] using namesIn_stmts body

theorem namesIn_stmts : ∀ body : List Stmt, NamesIn (bodyFunctions body) (stmtMarks body)
  | [] => .nil _
  | s :: rest => by simpa [bodyFunctions] using (namesIn_stmt s).append (namesIn_stmts rest)

theorem namesIn_clauses :
    ∀ clauses : List SwitchClause, NamesIn (clausesFunctions clauses) (clauseMarks clauses)
  | [] => .nil _
  | .mk _ none body :: rest => by
    simpa [clausesFunctions] using (namesIn_stmts body).append (namesIn_clauses rest)
  | .mk _ (some test) body :: rest => by
    simpa [clausesFunctions] using
      ((namesIn_stmts body).append (namesIn_clauses rest)).right test.marks

end

namespace Analysis

variable {env : Environment} {ms ms₁ ms₂ : List Mark} {fs fs₁ fs₂ : List Func} {a b : Analysis}

theorem Awaits.env_not_mem (h : a.Awaits env ms fs) : ∀ id ∈ env.bodies, id ∉ Mark.functionsOf ms :=
  fun id hid hmem => absurd ((h.valid.bodies_le id hid).trans_lt (h.above id hmem)) (lt_irrefl id)

theorem Awaits.perm (h : a.Awaits env ms fs) (hms : ms.Perm ms₁) : a.Awaits env ms₁ fs := by
  have hnodes : (Mark.nodesOf ms).Perm (Mark.nodesOf ms₁) := by
    simpa only [Mark.nodesOf_eq_flatMap] using hms.flatMap_right _
  have hfunctions : (Mark.functionsOf ms).Perm (Mark.functionsOf ms₁) := by
    simpa only [Mark.functionsOf_eq_flatMap] using hms.flatMap_right _
  exact
    { h with
      nodes := hnodes.nodup_iff.mp h.nodes
      functions := hfunctions.nodup_iff.mp h.functions
      ordered := (Mark.allOrdered_iff _).mpr fun m hm =>
        (Mark.allOrdered_iff _).mp h.ordered m (hms.mem_iff.mpr hm)
      above := fun id hid => h.above id (hfunctions.mem_iff.mpr hid)
      nodes_lt := fun n hn => h.nodes_lt n (hnodes.mem_iff.mpr hn)
      functions_lt := fun id hid => h.functions_lt id (hfunctions.mem_iff.mpr hid)
      fresh := fun id hid => h.fresh id (hfunctions.mem_iff.mpr hid) }

theorem Awaits.left (h : a.Awaits env (ms₁ ++ ms₂) (fs₁ ++ fs₂)) : a.Awaits env ms₁ fs₁ := by
  obtain ⟨sound, valid, nodes, functions, ordered, above, nodes_lt, functions_lt, fresh, named⟩ := h
  simp only [Mark.nodesOf_append, Mark.functionsOf_append, Mark.allOrdered_append, List.mem_append,
    List.nodup_append] at nodes functions ordered above nodes_lt functions_lt fresh named
  exact ⟨sound, valid, nodes.1, functions.1, ordered.1,
    fun id hid => above id (.inl hid), fun n hn => nodes_lt n (.inl hn),
    fun id hid => functions_lt id (.inl hid), fun id hid => fresh id (.inl hid),
    fun f hf => named f (.inl hf)⟩

/-- After one piece of syntax the tables await the next one. -/
theorem Awaits.right (h : a.Awaits env (ms₁ ++ ms₂) (fs₁ ++ fs₂)) (hfs : NamesIn fs₂ ms₂)
    (hs : b.Sound)
    (hab : a.Extends (fun n => n ∉ Mark.nodesOf ms₁) (fun id => id ∉ Mark.functionsOf ms₁) b) :
    b.Awaits env ms₂ fs₂ := by
  have henv := h.left.env_not_mem
  obtain ⟨sound, valid, nodes, functions, ordered, above, nodes_lt, functions_lt, fresh, named⟩ := h
  simp only [Mark.nodesOf_append, Mark.functionsOf_append, Mark.allOrdered_append, List.mem_append,
    List.nodup_append] at nodes functions ordered above nodes_lt functions_lt fresh named
  refine ⟨hs, valid.of_extends hab henv, nodes.2.1, functions.2.1, ordered.2,
    fun id hid => above id (.inr hid), fun n hn => ?_, fun id hid => ?_, fun id hid => ?_,
    fun f hf i hi => ?_⟩
  · rw [hab.references_size, hab.withVariables_size]
    exact nodes_lt n (.inr hn)
  · rw [hab.bodies_size]
    exact functions_lt id (.inr hid)
  · have hnot : id ∉ Mark.functionsOf ms₁ := fun h => functions.2.2 id h id hid rfl
    rw [(hab.body id hnot).fixed (Nat.ne_of_gt (Nat.zero_lt_of_lt (above id (.inr hid)))),
      (hab.body id hnot).params]
    exact fresh id (.inr hid)
  · exact (named f (.inr hf) i hi).of_extends hab fun h =>
      nodes.2.2 _ h _ (hfs f hf i hi) rfl

end Analysis

/-! ### Environments -/

theorem Environment.Valid.openScope {a : Analysis} {env : Environment} (h : env.Valid a)
    {e : ScopeEntry} (he : e.Valid a (Resolve.current env)) :
    (Resolve.openScope e env).Valid a := by
  cases h with
  | script bound valid => exact .script bound (List.forall_mem_cons.mpr ⟨he, valid⟩)
  | inside bound above parent arguments valid outer =>
    exact .inside bound above parent arguments (List.forall_mem_cons.mpr ⟨he, valid⟩) outer

theorem Scope.owner_of_bodies {a : Analysis} {env : Environment} {scopes : List Scope}
    (h : env.Valid a) (hscopes : env.bodies = path scopes) :
    owner scopes = Resolve.current env := by
  obtain ⟨rest, hpath⟩ := path_eq_cons scopes
  rw [hpath] at hscopes
  cases h <;> exact (List.cons.inj hscopes).1.symm

theorem Environment.Valid.hoisted {a : Analysis} {env : Environment} (h : env.Valid a) :
    (Resolve.hoistedEnvironment env).Valid a := by
  cases h with
  | script bound => exact .script bound nofun
  | inside bound above parent arguments _ outer =>
    exact .inside bound above parent arguments nofun outer

theorem Environment.Valid.opens {a : Analysis} {env : Environment} (h : env.Valid a) {f : Func}
    (hf : a.Opens env f) : Environment.Valid a (⟨f.id, []⟩ :: env) :=
  .inside hf.bound hf.above hf.parent ((hf.binds _).mpr (.inr (.inl rfl))) nofun h

namespace Resolve

/-- A computation resolves a piece of syntax inside of scopes, of which a property then holds. -/
def Gives (env : Environment) (scopes : List Scope) (ms : List Mark) (fs : List Func)
    (us : List Occurrence) (x : Resolve Unit) (P : Analysis → (VariableId → NodeId) → Prop) :
    Prop :=
  env.bodies = Scope.path scopes → ∀ a : Analysis, a.Awaits env ms fs →
    x.Post a fun _ b => a.Fills env ms us P b

namespace Gives

variable {env : Environment} {scopes : List Scope} {ms ms₁ ms₂ : List Mark} {fs fs₁ fs₂ : List Func}
  {us us₁ us₂ : List Occurrence} {x y : Resolve Unit}
  {P Q : Analysis → (VariableId → NodeId) → Prop}

theorem mono (h : Gives env scopes ms fs us x P) (hPQ : ∀ c o, P c o → Q c o) :
    Gives env scopes ms fs us x Q := by
  refine fun hscopes a ha => .mono (h hscopes a ha) fun _ b hb => ?_
  obtain ⟨o, ho⟩ := hb.holds
  exact { hb with holds := ⟨o, fun c o' hbc hv => hPQ c o' (ho c o' hbc hv)⟩ }

theorem pure (h : ∀ c o, P c o) : Gives env scopes [] [] [] (Pure.pure ()) P :=
  fun _ _ ha => .pure ⟨ha.sound, .refl _ _ _, ⟨fun _ => 0, fun c o _ _ => h c o⟩, .refl _⟩

/-- A check leaves the tables alone. -/
theorem check {α : Type} {x : Resolve α} {f : α → Resolve Unit}
    (hx : ∀ a, x.Post a fun _ b => b = a) (hf : ∀ r, Gives env scopes ms fs us (f r) P) :
    Gives env scopes ms fs us (x >>= f) P := by
  refine fun hscopes a ha => .bind (hx a) ?_
  rintro r _ rfl
  exact hf r hscopes _ ha

/-- Two pieces of syntax are resolved one after the other. -/
theorem bind (hx : Gives env scopes ms₁ fs₁ us₁ x P) (hy : Gives env scopes ms₂ fs₂ us₂ y Q)
    (hfs : NamesIn fs₂ ms₂) :
    Gives env scopes (ms₁ ++ ms₂) (fs₁ ++ fs₂) (us₁ ++ us₂) (x >>= fun _ => y)
      fun c o => P c o ∧ Q c o := by
  intro hscopes a ha
  refine .bind (hx hscopes a ha.left) fun _ b hb => ?_
  have hawaits := ha.right hfs hb.sound hb.growth
  refine .mono (hy hscopes b hawaits) fun _ c hc => ?_
  obtain ⟨o₁, h₁⟩ := hb.holds
  obtain ⟨o₂, h₂⟩ := hc.holds
  have hnodes := ha.nodes
  have hfunctions := ha.functions
  have henv := hawaits.env_not_mem
  simp only [Mark.nodesOf_append, Mark.functionsOf_append, List.nodup_append] at hnodes hfunctions
  refine ⟨hc.sound, ?_,
    ⟨fun v => if v < b.vars.size then o₁ v else o₂ v, fun d o hcd ho => ⟨?_, ?_⟩⟩, ?_⟩
  · refine (hb.growth.mono ?_ ?_).trans (hc.growth.mono ?_ ?_) <;>
      simp only [Mark.nodesOf_append, Mark.functionsOf_append, List.mem_append, not_or] <;>
      intro n hn
    exacts [hn.1, hn.1, hn.2, hn.2]
  · refine h₁ d o ((hc.growth.mono ?_ ?_).trans (hcd.mono ?_ ?_)) fun v hv hlt => ?_
    · exact fun n hn hn' => hnodes.2.2 n hn n hn' rfl
    · rintro id (hid | hid)
      · exact fun hid' => hfunctions.2.2 id hid id hid' rfl
      · exact henv id hid
    · simp only [Mark.nodesOf_append, List.mem_append]
      exact fun n hn => .inl hn
    · simp only [Mark.functionsOf_append, List.mem_append]
      rintro id (hid | hid)
      · exact .inl (.inl hid)
      · exact .inr hid
    · exact (ho v hv (hlt.trans_le hc.growth.size)).trans (if_pos hlt)
  · refine h₂ d o (hcd.mono ?_ ?_) fun v hv hlt => ?_
    · simp only [Mark.nodesOf_append, List.mem_append]
      exact fun n hn => .inr hn
    · simp only [Mark.functionsOf_append, List.mem_append]
      rintro id (hid | hid)
      · exact .inl (.inr hid)
      · exact .inr hid
    · exact (ho v (hb.growth.size.trans hv) hlt).trans (if_neg (Nat.not_lt.mpr hv))
  · have hleft (x : String) : (∃ u ∈ us₁, ∃ i, u.mention = .identifier i ∧ i.name = x) →
        ∃ u ∈ us₁ ++ us₂, ∃ i, u.mention = .identifier i ∧ i.name = x :=
      fun ⟨u, hu, h⟩ => ⟨u, List.mem_append_left _ hu, h⟩
    have hright (x : String) : (∃ u ∈ us₂, ∃ i, u.mention = .identifier i ∧ i.name = x) →
        ∃ u ∈ us₁ ++ us₂, ∃ i, u.mention = .identifier i ∧ i.name = x :=
      fun ⟨u, hu, h⟩ => ⟨u, List.mem_append_right _ hu, h⟩
    refine (hb.notes.mono ?_ hleft).trans (hc.notes.mono ?_ hright)
    · rintro w ⟨u, hu, huses⟩
      refine ⟨u, List.mem_append_left _ hu, fun d hcd => huses d ?_⟩
      refine (hc.growth.mono (fun n hn hn' => hnodes.2.2 n hn n hn' rfl) nofun).trans
        (hcd.mono (fun n hn => ?_) nofun)
      rw [Mark.nodesOf_append]
      exact List.mem_append_left _ hn
    · rintro w ⟨u, hu, huses⟩
      refine ⟨u, List.mem_append_right _ hu, fun d hcd => huses d (hcd.mono (fun n hn => ?_) nofun)⟩
      rw [Mark.nodesOf_append]
      exact List.mem_append_right _ hn

theorem bind_pure (h : Gives env scopes ms fs us x P) (hPQ : ∀ c o, P c o → Q c o) :
    Gives env scopes ms fs us (x >>= fun _ => Pure.pure ()) Q := by
  have hx : (x >>= fun _ => Pure.pure ()) = x := bind_pure_unit
  rw [hx]
  exact h.mono hPQ

theorem perm (h : Gives env scopes ms₁ fs us x P) (hms : ms.Perm ms₁) :
    Gives env scopes ms fs us x P := by
  have hnodes (n : NodeId) : n ∈ Mark.nodesOf ms ↔ n ∈ Mark.nodesOf ms₁ := by
    simpa only [Mark.nodesOf_eq_flatMap] using (hms.flatMap_right _).mem_iff
  have hfunctions (id : FunctionId) : id ∈ Mark.functionsOf ms ↔ id ∈ Mark.functionsOf ms₁ := by
    simpa only [Mark.functionsOf_eq_flatMap] using (hms.flatMap_right _).mem_iff
  intro hscopes a ha
  refine .mono (h hscopes a (ha.perm hms)) fun _ b ⟨hs, hgrowth, ⟨o, ho⟩, hnotes⟩ => ?_
  simp only [← hnodes, ← hfunctions] at hgrowth ho hnotes
  exact ⟨hs, hgrowth, ⟨o, ho⟩, hnotes⟩

theorem weaken (h : Gives env scopes ms fs us₁ x P) (hus : us₁ ⊆ us) :
    Gives env scopes ms fs us x P := by
  refine fun hscopes a ha => .mono (h hscopes a ha) fun _ b hb =>
    { hb with notes := hb.notes.mono ?_ ?_ }
  · rintro w ⟨u, hu, huses⟩
    exact ⟨u, hus hu, huses⟩
  · rintro x ⟨u, hu, hx⟩
    exact ⟨u, hus hu, hx⟩

/-- What is declared is no expression. -/
theorem declaration {isExpression : Bool}
    (h : isExpression = false → Gives env scopes ms fs us x P) :
    Gives env scopes (.declaration isExpression :: ms) fs us x P := by
  have hnodes : Mark.nodesOf (.declaration isExpression :: ms) = Mark.nodesOf ms := rfl
  have hfunctions : Mark.functionsOf (.declaration isExpression :: ms) = Mark.functionsOf ms := rfl
  intro hscopes a ha
  have hawaits : a.Awaits env ms fs :=
    { ha with
      ordered := ha.ordered.2
      nodes := ha.nodes
      functions := ha.functions
      above := ha.above
      nodes_lt := ha.nodes_lt
      functions_lt := ha.functions_lt
      fresh := ha.fresh }
  refine .mono (h ha.ordered.1 hscopes a hawaits) fun _ b hb => ⟨hb.sound, ?_, ?_, ?_⟩
  · rw [hnodes, hfunctions]
    exact hb.growth
  · rw [hnodes, hfunctions]
    exact hb.holds
  · rw [hnodes]
    exact hb.notes

end Gives

/-! ### Checks -/

section

variable {a : Analysis}

theorem post_checkName (strict : Bool) (name : String) :
    (checkName strict name).Post a fun _ b => b = a := by
  unfold checkName
  split
  · exact .throw _
  · exact .pure rfl

theorem post_checkParameters (seen : List String) (ps : List Identifier) :
    (checkParameters seen ps).Post a fun _ b => b = a := by
  induction ps generalizing seen with
  | nil => exact .pure rfl
  | cons p ps ih =>
    unfold checkParameters
    refine .bind (post_checkName true p.name) ?_
    rintro _ _ rfl
    dsimp only
    split
    · exact .bind (.throw _ : Post _ _ fun _ _ => False) fun _ _ h => h.elim
    · exact ih _

theorem post_isStrict (env : Environment) : (isStrict env).Post a fun _ b => b = a := by
  intro n r s hrun
  cases hrun
  rfl

theorem post_checkTarget (env : Environment) (t : Target) :
    (checkTarget env t).Post a fun _ b => b = a := by
  cases t with
  | identifier i =>
    refine .bind (post_isStrict env) ?_
    rintro strict _ rfl
    exact post_checkName strict i.name
  | member m => exact .pure rfl

end

/-! ### Functions -/

theorem mark_eq (f : Func) : f.mark = .function f.id
    (f.identifier?.toList.map Identifier.mark ++
      (f.params.map Identifier.mark ++ stmtMarks f.body)) := by
  obtain ⟨span, id, _ | name, params, strict, isExpression, bodySpan, body⟩ := f <;> simp [Func.id,
    Func.identifier?, Func.params, Func.body]

/-- What is numbered in a list of identifiers. -/
theorem outline_identifiers (is : List Identifier) :
    Mark.nodesOf (is.map Identifier.mark) = is.map (·.id) ∧
      Mark.functionsOf (is.map Identifier.mark) = [] ∧
        Mark.AllOrdered (is.map Identifier.mark) := by
  induction is with
  | nil => simp [Mark.nodesOf, Mark.functionsOf, Mark.AllOrdered]
  | cons i is ih =>
    simpa [Mark.nodesOf, Mark.functionsOf, Mark.AllOrdered, Mark.nodes, Mark.functions,
      Mark.Ordered, Identifier.mark] using ih

theorem nodesOf_mark (f : Func) : Mark.nodesOf [f.mark] = f.identifier?.toList.map (·.id) ++
    (f.params.map (·.id) ++ Mark.nodesOf (stmtMarks f.body)) := by
  rw [mark_eq]
  simp only [Mark.nodesOf, Mark.nodes, Mark.nodesOf_append, outline_identifiers, List.append_nil]

theorem functionsOf_mark (f : Func) :
    Mark.functionsOf [f.mark] = f.id :: Mark.functionsOf (stmtMarks f.body) := by
  rw [mark_eq]
  simp only [Mark.functionsOf, Mark.functions, Mark.functionsOf_append, outline_identifiers,
    List.append_nil, List.nil_append]

theorem allOrdered_mark (f : Func) : Mark.AllOrdered [f.mark] ↔
    (∀ k ∈ Mark.functionsOf (stmtMarks f.body), f.id < k) ∧ Mark.AllOrdered (stmtMarks f.body) := by
  rw [mark_eq]
  simp only [Mark.AllOrdered, Mark.Ordered, Mark.functionsOf_append, Mark.allOrdered_append,
    outline_identifiers, List.nil_append, true_and, and_true]

/-- The nodes that the names bound by a function in its body have. -/
def BelongsTo (f : Func) (n : NodeId) : Prop :=
  (∃ p ∈ f.params, p.id = n) ∨
    (∃ g ∈ bodyFunctions f.body, ∃ i, g.identifier? = some i ∧ i.id = n) ∨
    f.isExpression = true ∧ ∃ i, f.identifier? = some i ∧ i.id = n

/-- The body of a function is opened: it has the names that the function binds, and the functions
declared in it have got theirs. -/
theorem post_enter {env : Environment} {a : Analysis} {f : Func} (hs : a.Sound) (henv : env.Valid a)
    (hbound : f.id < a.bodies.size) (habove : current env < f.id)
    (hfresh : (a.body f.id).declared = .empty ∧ (a.body f.id).params = [])
    (hnodes : ∀ n, BelongsTo f n → n < a.references.size) :
    (enter env f).Post a fun inner b => inner = ⟨f.id, []⟩ :: env ∧ b.Sound ∧
      a.Extends (fun n => ¬ BelongsTo f n) (fun id => id ≠ f.id) b ∧ inner.Valid b ∧ b.Opens env f ∧
      a.Quiet b ∧ ∀ g ∈ bodyFunctions f.body, ∀ i, g.identifier? = some i →
        b.NamesFunction f.id i.id := by
  have hid : f.id ≠ 0 := Nat.ne_of_gt (Nat.zero_lt_of_lt habove)
  have hne (id : FunctionId) (h : id ∈ env.bodies) : id ≠ f.id :=
    Nat.ne_of_lt ((henv.bodies_le id h).trans_lt habove)
  have hrest (strict : Bool) : (do
      modifyBody f.id fun b => { b with parent := some (current env), strict, name := f.name }
      declareBody f
      return ⟨f.id, []⟩ :: env : Resolve Environment).Post a fun inner b =>
        inner = ⟨f.id, []⟩ :: env ∧ b.Sound ∧
        a.Extends (fun n => ¬ BelongsTo f n) (fun id => id ≠ f.id) b ∧
        Environment.Valid b inner ∧ b.Opens env f ∧ a.Quiet b ∧
        ∀ g ∈ bodyFunctions f.body, ∀ i, g.identifier? = some i → b.NamesFunction f.id i.id := by
    refine .bind (.modifyTables _) ?_
    rintro _ base rfl
    have hlink : a.Extends (fun _ => True) (fun id => id ≠ f.id) { a with
        bodies := a.bodies.modify f.id fun b =>
          { b with parent := some (current env), strict, name := f.name } } :=
      a.extends_modifyBody fun h => absurd rfl h
    have hbody := a.body_modify_self hbound fun b =>
      { b with parent := some (current env), strict, name := f.name }
    have hstart : Analysis.Declaring { a with
        bodies := a.bodies.modify f.id fun b =>
          { b with parent := some (current env), strict, name := f.name } } f.id (BelongsTo f)
        (fun _ => False) f.bindingKind (fun _ => False) { a with
        bodies := a.bodies.modify f.id fun b =>
          { b with parent := some (current env), strict, name := f.name } } := by
      refine
        { bound := by simpa using hbound
          sound := hs.modifyBody
            { hs.body f.id with parent := fun q hq => Option.some.inj hq ▸ habove }
          growth := .refl _ _ _
          parent := rfl
          fresh := fun x v hv => ?_
          names := fun x => ?_
          kinds := fun x v hv => ?_
          closedOver := fun _ => rfl
          others := fun _ _ => rfl
          named := nofun }
      · rw [hbody, hfresh.1] at hv
        cases hv
      · rw [hbody, hfresh.1]
        simp [NameTable.contains, NameTable.empty]
      · rw [hbody, hfresh.1] at hv
        cases hv
    have hparameters : Analysis.Parameters f.id [] { a with
        bodies := a.bodies.modify f.id fun b =>
          { b with parent := some (current env), strict, name := f.name } } := by
      refine ⟨by simpa using hbound, ?_, ?_, nofun⟩ <;> rw [hbody]
      · rw [hfresh.1]
        nofun
      · rw [hfresh.2]
        rfl
    have hquiet := a.quiet_modifyBody f.id (f := fun b =>
      { b with parent := some (current env), strict, name := f.name }) (fun _ => rfl) fun _ => rfl
    have hfunction (g : Func) (hg : g ∈ bodyFunctions f.body) (i : Identifier)
        (hi : g.identifier? = some i) : BelongsTo f i.id := .inr (.inl ⟨g, hg, i, hi, rfl⟩)
    have hself (he : f.isExpression = true) (i : Identifier) (hi : f.identifier? = some i) :
        BelongsTo f i.id := .inr (.inr ⟨he, i, hi, rfl⟩)
    refine .bind ((post_declareBody hstart hid (fun p hp => ⟨.inl ⟨p, hp, rfl⟩, nofun⟩)
      (fun g hg i hi => ⟨hfunction g hg i hi, hnodes _ (hfunction g hg i hi)⟩)
      fun he i hi => ⟨hself he i hi, hnodes _ (hself he i hi)⟩).and hparameters.declareBody)
        fun _ b ⟨hb, htakes⟩ => ?_
    have hparent : (b.body f.id).parent = some (current env) := by
      rw [hb.parent, hbody]
    have hab := (hlink.mono (fun _ _ => trivial) fun _ h => h).trans hb.growth
    refine .pure ⟨rfl, hb.sound, hab, ?_,
      ⟨hb.bound, habove, hparent, hb.names, hb.kinds, htakes.takes⟩,
      hquiet.trans ⟨hb.closedOver, hb.others 0 hid.symm⟩,
      fun g hg i hi => hb.named i.id (.inr ⟨g, hg, i, hi, rfl⟩)⟩
    refine .inside hb.bound habove hparent ((hb.names _).mpr (.inr (.inl rfl))) nofun
      (henv.of_extends hab hne)
  unfold enter
  refine .bind (post_isStrict env) ?_
  rintro strict _ rfl
  dsimp only
  split
  · split
    · refine .bind (post_checkName true _) ?_
      rintro _ _ rfl
      refine .bind (post_checkParameters [] f.params) ?_
      rintro _ _ rfl
      exact hrest _
    · refine .bind (post_checkParameters [] f.params) ?_
      rintro _ _ rfl
      exact hrest _
  · exact hrest _

theorem opens_of_extends {env : Environment} {a b : Analysis} {f : Func} {N : NodeId → Prop}
    {F : FunctionId → Prop} (h : a.Opens env f) (hs : a.Sound) (hab : a.Extends N F b)
    (hF : F f.id) :
    b.Opens env f := by
  have hdeclared : (b.body f.id).declared = (a.body f.id).declared :=
    (hab.body _ hF).fixed (Nat.ne_of_gt (Nat.zero_lt_of_lt h.above))
  have hvar (x : String) (v : VariableId) (hv : (a.body f.id).declared.get? x = some v) :
      b.var v = a.var v :=
    hab.var v ((hs.body _).declared x v hv).1.bound
  refine ⟨hab.bodies_size ▸ h.bound, h.above, (hab.body _ hF).parent.trans h.parent, ?_, ?_,
    h.takes.steady (hab.body _ hF).params ?_⟩ <;> rw [hdeclared]
  · exact h.binds
  · intro x v hv
    rw [hvar x v hv]
    exact h.kinds x v hv
  · exact fun x v hv => ⟨hv, congrArg Variable.index (hvar x v hv)⟩

/-- A function is resolved if its statements are.  The name of a declaration keeps its variable. -/
theorem gives_func {env : Environment} {scopes : List Scope} {f : Func} {fs : List Func}
    {us : List Occurrence} (hfs : ∀ g ∈ fs, g = f ∧ f.isExpression = false)
    {x : Environment → Resolve Unit}
    (hbody : Gives (⟨f.id, []⟩ :: env) (.function f :: scopes) (stmtMarks f.body)
      (bodyFunctions f.body) us
      (x (⟨f.id, []⟩ :: env)) fun c o => stmtsResolved c o (⟨f.id, []⟩ :: env) f.body) :
    Gives env scopes [f.mark] fs us (enter env f >>= x) fun c o =>
      (∀ g ∈ fs, ∀ i, g.identifier? = some i → c.NamesFunction (current env) i.id) ∧
      c.Opens env f ∧ stmtsResolved c o (⟨f.id, []⟩ :: env) f.body := by
  intro hscopes a ha
  have hn := ha.nodes
  have hf := ha.functions
  have hordered := (allOrdered_mark f).mp ha.ordered
  have hnodes_lt := ha.nodes_lt
  have hfunctions_lt := ha.functions_lt
  have habove := ha.above f.id (by simp [functionsOf_mark])
  have hid : f.id ≠ 0 := Nat.ne_of_gt (Nat.zero_lt_of_lt habove)
  have hmem {n : NodeId} (h : BelongsTo f n) : n ∈ Mark.nodesOf [f.mark] := by
    simp only [nodesOf_mark, List.mem_append, List.mem_map, Option.mem_toList]
    rcases h with h | ⟨g, hg, i, hi, rfl⟩ | ⟨-, h⟩
    · exact .inr (.inl h)
    · exact .inr (.inr (namesIn_stmts f.body g hg i hi))
    · exact .inl h
  have hroom (n : NodeId) (h : BelongsTo f n) : n < a.references.size := (hnodes_lt n (hmem h)).1
  simp only [nodesOf_mark, functionsOf_mark, List.nodup_append, List.nodup_cons, List.mem_append,
    List.mem_cons, List.mem_map, Option.mem_toList] at hn hf hnodes_lt hfunctions_lt
  -- the name of a declaration does not belong to the body of the function
  have hname {g : Func} (hg : g ∈ fs) {i : Identifier} (hi : g.identifier? = some i) :
      ¬ BelongsTo f i.id ∧ i.id ∉ Mark.nodesOf (stmtMarks f.body) ∧
        i.id ∈ Mark.nodesOf [f.mark] := by
    obtain ⟨rfl, hdeclared⟩ := hfs g hg
    have hinside : i.id ∉ Mark.nodesOf (stmtMarks g.body) :=
      fun h => hn.2.2 i.id ⟨i, hi, rfl⟩ i.id (.inr h) rfl
    refine ⟨?_, hinside, by simp [nodesOf_mark, hi]⟩
    rintro (⟨p, hp, heq⟩ | ⟨h, hh, j, hj, heq⟩ | ⟨he, -⟩)
    · exact hn.2.2 i.id ⟨i, hi, rfl⟩ p.id (.inl ⟨p, hp, rfl⟩) heq.symm
    · exact hinside (heq ▸ namesIn_stmts g.body h hh j hj)
    · rw [hdeclared] at he
      cases he
  refine .bind (post_enter ha.sound ha.valid (hfunctions_lt f.id (.inl rfl)) habove
    (ha.fresh f.id (by simp [functionsOf_mark])) hroom) ?_
  rintro _ b ⟨rfl, hsound, hab, hvalid, hopens, hquiet, hnamed⟩
  have hawaits : b.Awaits (⟨f.id, []⟩ :: env) (stmtMarks f.body) (bodyFunctions f.body) :=
    { sound := hsound
      valid := hvalid
      nodes := hn.2.1.2.1
      functions := hf.2
      ordered := hordered.2
      above := hordered.1
      nodes_lt := fun n hn => by
        rw [hab.references_size, hab.withVariables_size]
        exact hnodes_lt n (.inr (.inr hn))
      functions_lt := fun id hid => hab.bodies_size ▸ hfunctions_lt id (.inr hid)
      fresh := fun id hid => by
        have hne : id ≠ f.id := fun h => hf.1 (h ▸ hid)
        rw [(hab.body id hne).fixed (Nat.ne_of_gt (Nat.zero_lt_of_lt (hordered.1 id hid))),
          (hab.body id hne).params]
        exact ha.fresh id (by simp [functionsOf_mark, hid])
      named := hnamed }
  have hpath : Environment.bodies (⟨f.id, []⟩ :: env) = Scope.path (.function f :: scopes) :=
    congrArg (f.id :: ·) hscopes
  refine .mono (hbody hpath b hawaits) fun _ c hc => ?_
  obtain ⟨o, ho⟩ := hc.holds
  have hbc : b.Extends (fun n => n ∉ Mark.nodesOf (stmtMarks f.body))
      (fun id => id ∉ Mark.functionsOf (stmtMarks f.body)) c := hc.growth
  have hinside {n : NodeId} (h : n ∉ Mark.nodesOf [f.mark]) :
      n ∉ Mark.nodesOf (stmtMarks f.body) := fun h' => h (by simp [nodesOf_mark, h'])
  have hinsideFunction {id : FunctionId} (h : id ∉ Mark.functionsOf [f.mark]) :
      id ≠ f.id ∧ id ∉ Mark.functionsOf (stmtMarks f.body) := by
    simpa [functionsOf_mark] using h
  refine ⟨hc.sound, ?_, ⟨o, fun d o' hcd hv => ⟨?_, ?_, ?_⟩⟩,
    hquiet.notes.trans (hc.notes.mono ?_ fun _ h => h)⟩
  · exact (hab.mono (fun n hn h => hn (hmem h)) fun id hid => (hinsideFunction hid).1).trans
      (hbc.mono (fun n hn => hinside hn) fun id hid => (hinsideFunction hid).2)
  · intro g hg i hi
    obtain ⟨hnot, hnotInside, hmark⟩ := hname hg hi
    exact (((ha.named g hg i hi).of_extends hab hnot).of_extends hbc hnotInside).of_extends
      hcd hmark
  · have hbc' : b.Extends (fun _ => False) (fun id => id = f.id) c :=
      hbc.mono nofun fun id hid => hid ▸ hf.1
    have hcd' : c.Extends (fun _ => False) (fun id => id = f.id) d :=
      hcd.mono nofun fun id hid => .inl (by simp [functionsOf_mark, hid])
    exact opens_of_extends hopens hsound (hbc'.trans hcd') rfl
  · refine ho d o' (hcd.mono (fun n hn => by simp [nodesOf_mark, hn]) ?_) fun v hle hlt =>
      hv v (hab.size.trans hle) hlt
    rintro id (hid | hid)
    · exact .inl (by simp [functionsOf_mark, hid])
    · rcases List.mem_cons.mp hid with rfl | hid
      · exact .inl (by simp [functionsOf_mark])
      · exact .inr hid
  · rintro w ⟨u, hu, huses⟩
    exact ⟨u, hu, fun d hcd => huses d (hcd.mono (fun n hn => by simp [nodesOf_mark, hn]) nofun)⟩

/-! ### Names and scopes -/

theorem gives_identifier (env : Environment) (scopes : List Scope) (i : Identifier) :
    Gives env scopes [i.mark] [] [⟨.identifier i, scopes⟩] (identifier env i) fun c _ =>
      i.Resolved c env := by
  intro hscopes a ha
  have hnode : i.id ∈ Mark.nodesOf [i.mark] := by simp [Mark.nodesOf, Mark.nodes, Identifier.mark]
  have hlt := (ha.nodes_lt i.id hnode).1
  refine .bind (post_resolve ha.sound ha.valid i.name) ?_
  rintro v b ⟨hab, hdenotes, hv, hnew⟩
  refine .mono (.modifyTables _) ?_
  rintro _ _ rfl
  have hbc := b.extends_setReference i.id v
  have hreference {N : NodeId → Prop} {F : FunctionId → Prop} {d : Analysis}
      (hcd : Analysis.Extends N F
        { b with references := b.references.setIfInBounds i.id (some v) } d)
      (hN : N i.id) : d.reference? i = some v := by
    rw [hcd.reference? hN]
    unfold Analysis.reference?
    dsimp only
    rw [Array.getElem?_setIfInBounds_self_of_lt (hab.growth.references_size ▸ hlt)]
    rfl
  refine ⟨hab.sound.setReference i.id hv, ?_,
    ⟨fun _ => 0, fun d _ hcd _ => ⟨v, hreference hcd hnode, ?_⟩⟩,
    (hnew.mono ?_ fun x hx => ⟨_, List.mem_singleton_self _, i, rfl, hx.symm⟩).trans
      (b.quiet_setReference i.id v).notes⟩
  · refine (hab.growth.mono (fun _ _ => trivial) fun _ _ => trivial).trans
      (hbc.mono (fun n hn => ?_) fun _ _ => trivial)
    simpa [Mark.nodesOf, Mark.nodes, Identifier.mark] using hn
  · have henv := ha.valid.of_extends hab.growth fun _ _ => trivial
    have hbc' : b.Extends (fun _ => False) (fun id => id ∈ env.bodies) _ :=
      hbc.mono nofun fun _ _ => trivial
    exact hdenotes.of_extends henv hab.sound (hbc'.trans (hcd.mono nofun fun _ h => .inr h))
      fun _ h => h
  · rintro w ⟨hw, huses, hne, hmem⟩
    refine ⟨_, List.mem_singleton_self _,
      fun d hcd => ⟨i, v, rfl, hreference hcd hnode, ?_, ?_, ?_⟩⟩
    · have hvar : d.var v = b.var v := hcd.var v hv
      unfold Analysis.Uses at huses ⊢
      rw [hvar]
      exact huses
    · rw [hcd.var w hw]
      exact fun h => hne (h.trans (Scope.owner_of_bodies ha.valid hscopes))
    · rw [hcd.var w hw]
      exact hscopes ▸ hmem

theorem current_openScope (env : Environment) (e : ScopeEntry) :
    current (openScope e env) = current env := by
  cases env <;> rfl

theorem bodies_openScope (env : Environment) (e : ScopeEntry) :
    (openScope e env).bodies = env.bodies := by
  cases env <;> rfl

theorem current_hoistedEnvironment (env : Environment) :
    current (hoistedEnvironment env) = current env := by
  cases env <;> rfl

theorem bodies_hoistedEnvironment (env : Environment) :
    (hoistedEnvironment env).bodies = env.bodies := by
  cases env <;> rfl

/-- Only the bodies around matter for what a piece of syntax fills. -/
theorem Gives.hoisted {env : Environment} {scopes : List Scope} {ms : List Mark} {fs : List Func}
    {us : List Occurrence} {x : Resolve Unit} {P : Analysis → (VariableId → NodeId) → Prop}
    (h : Gives (hoistedEnvironment env) (Scope.hoisted scopes) ms fs us x P) :
    Gives env scopes ms fs us x P := by
  intro hscopes a ha
  have hcurrent := current_hoistedEnvironment env
  have hbodies := bodies_hoistedEnvironment env
  have hpath : (hoistedEnvironment env).bodies = Scope.path (Scope.hoisted scopes) := by
    rw [hbodies, hscopes, Scope.path_hoisted]
  have hx := h hpath a { ha with
    valid := ha.valid.hoisted
    above := by rw [hcurrent]; exact ha.above
    named := by rw [hcurrent]; exact ha.named }
  refine .mono hx fun _ b hb => { hb with holds := ?_ }
  rw [← hbodies]
  exact hb.holds

/-- A variable for a scope is added to the body at the head of an environment. -/
theorem post_addSynthetic {a : Analysis} {env : Environment} (hs : a.Sound) (henv : env.Valid a)
    {x : Variable} (hx : x.Sound) (hcovers : a.Covers x) (hkind : x.kind = .local)
    (hbody : x.body = current env) : (addSynthetic env x).Post a fun v b =>
    v = a.vars.size ∧ v < b.vars.size ∧ a.Advances b ∧
      b.var v = x ∧ v ∈ (b.body (current env)).synthetic ∧ a.Quiet b := by
  refine .bind (.addVariable x) ?_
  rintro _ _ ⟨rfl, rfl⟩
  refine .bind (.modifyTables _) ?_
  rintro _ _ rfl
  have hpush := hs.push hx hcovers
  have hvar := a.var_push_self x
  have hbound := henv.bodies_lt_size _ henv.current_mem
  have hquiet := Analysis.quiet_modifyBody { a with vars := a.vars.push x } (current env)
    (f := fun b => { b with synthetic := b.synthetic ++ [a.vars.size] }) (fun _ => rfl) fun _ => rfl
  refine .pure ⟨rfl, by simp, ⟨hpush.modifyBody ?_, (a.extends_push x).trans
    (Analysis.extends_modifyBody _ fun _ => ?_)⟩, hvar, ?_, ⟨hquiet.closedOver, hquiet.declared⟩⟩
  · refine { hpush.body (current env) with
      synthetic := fun v hv => ?_, synthetic_nodup := ?_, apart := fun v hv y hy => ?_ }
    · rcases List.mem_append.mp hv with hv | hv
      · exact (hpush.body (current env)).synthetic v hv
      · cases List.mem_singleton.mp hv
        refine ⟨by simp, ?_, ?_⟩
        · rw [hvar, hbody]
        · rw [hvar, hkind]
          exact List.mem_cons_self
    · refine List.Nodup.append (hs.body (current env)).synthetic_nodup (List.nodup_singleton _)
        (List.disjoint_singleton.mpr fun hmem => ?_)
      exact absurd ((hs.body (current env)).synthetic _ hmem).bound (lt_irrefl _)
    · rcases List.mem_append.mp hv with hv | hv
      · exact (hs.body (current env)).apart v hv y hy
      · cases List.mem_singleton.mp hv
        exact absurd ((hs.body (current env)).declared y _ hy).1.bound (lt_irrefl _)
  · exact { BodyInfo.Grows.refl _ _ with synthetic := List.subset_append_left _ _ }
  · rw [Analysis.body_modify_self { a with vars := a.vars.push x } hbound]
    exact List.mem_append_right _ (List.mem_singleton_self _)

/-- A scope is opened: a variable is added for it and noted at its node. -/
theorem Gives.scope {env : Environment} {scopes inner : List Scope} {n : NodeId} {ms : List Mark}
    {fs : List Func} {us : List Occurrence} {u : Occurrence}
    (hinner : Scope.path inner = Scope.path scopes) {entry : VariableId → ScopeEntry}
    {R : Analysis → VariableId → Prop} {x : Resolve Environment} {y : Environment → Resolve Unit}
    {P : VariableId → Analysis → (VariableId → NodeId) → Prop} (hentry : ∀ v, (entry v).holder = v)
    (hR : ∀ {N F b c v}, b.Extends N F c → N n → R b v → R c v)
    (hx : ∀ a, a.Sound → env.Valid a → n < a.references.size ∧ n < a.withVariables.size →
      x.Post a fun inner b => ∃ v, inner = openScope (entry v) env ∧ a.vars.size ≤ v ∧ b.Sound ∧
        a.Extends (fun m => m ≠ n) (fun _ => True) b ∧ (entry v).Valid b (current env) ∧ R b v ∧
        a.Quiet b)
    (hy : ∀ v, Gives (openScope (entry v) env) inner ms fs us (y (openScope (entry v) env)) (P v))
    (hfs : NamesIn fs ms) :
    Gives env scopes (.node n :: ms) fs (u :: us) (x >>= y) fun c o =>
      ∃ v, R c v ∧ o v = n ∧ (entry v).Valid c (current env) ∧ P v c o := by
  intro hscopes a ha
  have hnodes : Mark.nodesOf (.node n :: ms) = n :: Mark.nodesOf ms := by
    simp [Mark.nodesOf, Mark.nodes]
  have hfunctions : Mark.functionsOf (.node n :: ms) = Mark.functionsOf ms := by
    simp [Mark.functionsOf, Mark.functions]
  have henv := ha.env_not_mem
  have hn := ha.nodes
  rw [hnodes, List.nodup_cons] at hn
  refine .bind (hx a ha.sound ha.valid (ha.nodes_lt n (by simp [hnodes]))) ?_
  rintro _ b ⟨v, rfl, hle, hs, hab, hvalid, hv, hquiet⟩
  have henvb := ha.valid.of_extends hab fun _ _ => trivial
  have hcurrent := current_openScope env (entry v)
  have hbodies := bodies_openScope env (entry v)
  have hsplit : a.Awaits env ([.node n] ++ ms) ([] ++ fs) := ha
  have hawaits := hsplit.right hfs hs
    (hab.mono (fun m hm => by simpa [Mark.nodesOf, Mark.nodes] using hm) fun _ _ => trivial)
  have hpath : (openScope (entry v) env).bodies = Scope.path inner := by
    rw [hbodies, hscopes, hinner]
  refine .mono (hy v hpath b { hawaits with
    valid := henvb.openScope hvalid
    above := by rw [hcurrent]; exact hawaits.above
    named := by rw [hcurrent]; exact hawaits.named }) fun _ c hc => ?_
  obtain ⟨o, ho⟩ := hc.holds
  have hbound : v < b.vars.size := hentry v ▸ hvalid.bound
  refine ⟨hc.sound, ?_, ⟨fun w => if w < b.vars.size then n else o w, fun d o' hcd hw =>
    ⟨v, ?_, ?_, ?_, ?_⟩⟩, hquiet.notes.trans (hc.notes.mono ?_ ?_)⟩
  · refine (hab.mono ?_ fun _ _ => trivial).trans (hc.growth.mono ?_ ?_)
    · simp only [hnodes, List.mem_cons, not_or]
      exact fun m hm => hm.1
    · simp only [hnodes, List.mem_cons, not_or]
      exact fun m hm => hm.2
    · simp only [hfunctions]
      exact fun _ h => h
  · exact hR hcd (by simp [hnodes]) (hR hc.growth hn.1 hv)
  · exact (hw v hle (hbound.trans_le hc.growth.size)).trans (if_pos hbound)
  · have hnot : current env ∉ Mark.functionsOf ms := by
      simpa only [hfunctions] using henv _ ha.valid.current_mem
    exact hcd.entry (.inr ha.valid.current_mem) (hc.growth.entry hnot hvalid)
  · refine ho d o' (hcd.mono ?_ ?_) fun w hbw hwc =>
      (hw w (hab.size.trans hbw) hwc).trans (if_neg (Nat.not_lt.mpr hbw))
    · simp only [hnodes, List.mem_cons]
      exact fun m hm => .inr hm
    · simp only [hfunctions, hbodies]
      exact fun _ h => h
  · rintro w ⟨u, hu, huses⟩
    refine ⟨u, List.mem_cons_of_mem _ hu,
      fun d hcd => huses d (hcd.mono (fun m hm => ?_) fun _ h => h.elim)⟩
    rw [hnodes]
    exact List.mem_cons_of_mem _ hm
  · rintro x ⟨u, hu, hx⟩
    exact ⟨u, List.mem_cons_of_mem _ hu, hx⟩

theorem post_enterCatch {a : Analysis} {env : Environment} (hs : a.Sound) (henv : env.Valid a)
    {i : Identifier} (hi : i.id < a.references.size) :
    (enterCatch env i).Post a fun inner b => ∃ v, inner = openScope (.catch_ i.name v) env ∧
      a.vars.size ≤ v ∧ b.Sound ∧ a.Extends (fun m => m ≠ i.id) (fun _ => True) b ∧
      (ScopeEntry.catch_ i.name v).Valid b (current env) ∧ b.reference? i = some v ∧ a.Quiet b := by
  unfold enterCatch
  refine .bind (post_isStrict env) ?_
  rintro strict _ rfl
  refine .bind (post_checkName strict i.name) ?_
  rintro _ _ rfl
  refine .bind .freshNumber ?_
  rintro n a rfl
  have hcurrent := henv.bodies_lt_size _ henv.current_mem
  refine .bind (post_addSynthetic hs henv ⟨.inl rfl, nofun, rfl, nofun⟩
    ⟨hcurrent, nofun, List.forall_mem_nil _⟩ rfl rfl) ?_
  rintro _ b ⟨rfl, hbound, hab, hvar, hsynthetic, hquiet⟩
  refine .bind (.modifyTables _) ?_
  rintro _ _ rfl
  have hbc := b.extends_setReference i.id a.vars.size
  refine .pure ⟨a.vars.size, rfl, le_rfl, hab.sound.setReference i.id hbound,
    (hab.growth.mono (fun _ _ => trivial) fun _ h => h).trans hbc, hbc.entry trivial ?_, ?_,
    hquiet.trans (b.quiet_setReference i.id a.vars.size)⟩
  · refine ⟨hbound, ?_, ?_, hsynthetic, ?_⟩
    · exact (congrArg Variable.kind hvar).trans rfl
    · exact (congrArg Variable.body hvar).trans rfl
    · rintro x v ⟨⟩
      exact (congrArg Variable.name hvar).trans rfl
  · unfold Analysis.reference?
    dsimp only
    rw [Array.getElem?_setIfInBounds_self_of_lt (hab.growth.references_size ▸ hi)]
    rfl

theorem post_enterWith {a : Analysis} {env : Environment} (hs : a.Sound) (henv : env.Valid a)
    {n : NodeId} (hn : n < a.withVariables.size) :
    (enterWith env n).Post a fun inner b => ∃ v, inner = openScope (.with_ v) env ∧
      a.vars.size ≤ v ∧ b.Sound ∧ a.Extends (fun m => m ≠ n) (fun _ => True) b ∧
      (ScopeEntry.with_ v).Valid b (current env) ∧ b.withVariable? n = some v ∧ a.Quiet b := by
  unfold enterWith
  refine .bind .freshNumber ?_
  rintro k a rfl
  have hcurrent := henv.bodies_lt_size _ henv.current_mem
  refine .bind (post_addSynthetic hs henv ⟨.inr rfl, fun _ => rfl, rfl, nofun⟩
    ⟨hcurrent, nofun, List.forall_mem_nil _⟩ rfl rfl) ?_
  rintro _ b ⟨rfl, hbound, hab, hvar, hsynthetic, hquiet⟩
  refine .bind (.modifyTables _) ?_
  rintro _ _ rfl
  have hbc := b.extends_setWithVariable n a.vars.size
  refine .pure ⟨a.vars.size, rfl, le_rfl, hab.sound.setWithVariable n hbound,
    (hab.growth.mono (fun _ _ => trivial) fun _ h => h).trans hbc, hbc.entry trivial ?_, ?_,
    hquiet.trans (b.quiet_setWithVariable n a.vars.size)⟩
  · refine ⟨hbound, ?_, ?_, hsynthetic, nofun⟩
    · exact (congrArg Variable.kind hvar).trans rfl
    · exact (congrArg Variable.body hvar).trans rfl
  · unfold Analysis.withVariable?
    dsimp only
    rw [Array.getElem?_setIfInBounds_self_of_lt (hab.growth.withVariables_size ▸ hn)]
    rfl

/-! ### Statements and expressions -/

/-- Resolves the names in an expression that may be left out. -/
def option (env : Environment) : Option Expr → Resolve Unit
  | none => pure ()
  | some e => expr env e

/-- Resolves the names in what comes first in the head of a `for` loop. -/
def forInit (env : Environment) : ForInit → Resolve Unit
  | .nothing => pure ()
  | .declaration _ ds => declaratorList env ds
  | .expression e => expr env e

/-- Resolves the names in what the keys of a `for`-`in` loop are assigned to. -/
def forInTarget (env : Environment) : ForInTarget → Resolve Unit
  | .declaration i => identifier env i
  | .target t => target env t

theorem expr_unary (env : Environment) (span : Span) (op : UnaryOp) (argument : Expr) :
    expr env (.unary span op argument) = (do
      match op, argument with
      | .delete, .identifier i =>
        if ← isStrict env then throw (.deleteOfIdentifier i.name)
      | _, _ => pure ()
      expr env argument) := by
  cases op with
  | delete => cases argument <;> rfl
  | _ => rfl

theorem stmt_for (env : Environment) (span : Span) (init : ForInit) (test update : Option Expr)
    (body : Stmt) : stmt env (.for span init test update body) = (do
      forInit env init
      option env test
      option env update
      stmt env body) := by
  cases init <;> cases test <;> cases update <;> rfl

theorem stmt_forIn (env : Environment) (span : Span) (left : ForInTarget) (right : Expr)
    (body : Stmt) :
    stmt env (.forIn span left right body) = (do
      forInTarget env left
      expr env right
      stmt env body) := by
  cases left <;> rfl

mutual

/-- The names in an expression are resolved. -/
theorem gives_expr (env : Environment) (scopes : List Scope) : ∀ e : Expr,
    Gives env scopes e.marks [] (e.occurrences scopes) (expr env e) fun c o => e.Resolved c o env
  | .literal .. => .pure fun _ _ => trivial
  | .this _ => .pure fun _ _ => trivial
  | .identifier i => gives_identifier env scopes i
  | .array _ elements => gives_elementList env scopes elements
  | .object _ properties => gives_propertyList env scopes properties
  | .function f => (gives_function env scopes [] f nofun).mono fun _ _ h => h.2
  | .unary _ op argument => by
    have hargument := gives_expr env scopes argument
    rw [expr_unary]
    split
    · refine .check (fun _ => post_isStrict env) fun strict => ?_
      split
      · exact .check (fun _ => .throw _) fun _ => hargument
      · exact hargument
    · exact hargument
  | .update _ _ t _ => .check (fun _ => post_checkTarget env t) fun _ => gives_target env scopes t
  | .binary _ _ left right =>
    (gives_expr env scopes left).bind (gives_expr env scopes right) (.nil _)
  | .logical _ _ left right =>
    (gives_expr env scopes left).bind (gives_expr env scopes right) (.nil _)
  | .assign _ _ t value =>
    .check (fun _ => post_checkTarget env t) fun _ =>
      (gives_target env scopes t).bind (gives_expr env scopes value) (.nil _)
  | .conditional _ test consequent alternate => by
    simp only [Expr.marks, Expr.occurrences, Expr.Resolved, List.append_assoc]
    exact (gives_expr env scopes test).bind
      ((gives_expr env scopes consequent).bind (gives_expr env scopes alternate) (.nil _)) (.nil _)
  | .call _ callee arguments =>
    (gives_expr env scopes callee).bind (gives_exprList env scopes arguments) (.nil _)
  | .construct _ callee arguments =>
    (gives_expr env scopes callee).bind (gives_exprList env scopes arguments) (.nil _)
  | .sequence _ expressions => gives_exprList env scopes expressions
  | .member m => gives_member env scopes m

theorem gives_exprList (env : Environment) (scopes : List Scope) : ∀ es : List Expr,
    Gives env scopes (exprMarks es) [] (exprOccurrences scopes es) (exprList env es) fun c o =>
      exprsResolved c o env es
  | [] => .pure fun _ _ => trivial
  | e :: rest => (gives_expr env scopes e).bind (gives_exprList env scopes rest) (.nil _)

theorem gives_elementList (env : Environment) (scopes : List Scope) : ∀ es : List (Option Expr),
    Gives env scopes (elementMarks es) [] (elementOccurrences scopes es) (elementList env es)
      fun c o => elementsResolved c o env es
  | [] => .pure fun _ _ => trivial
  | none :: rest => gives_elementList env scopes rest
  | some e :: rest => (gives_expr env scopes e).bind (gives_elementList env scopes rest) (.nil _)

theorem gives_propertyList (env : Environment) (scopes : List Scope) : ∀ ps : List Property,
    Gives env scopes (propertyMarks ps) [] (propertyOccurrences scopes ps) (propertyList env ps)
      fun c o => propertiesResolved c o env ps
  | [] => .pure fun _ _ => trivial
  | .mk _ _ value :: rest =>
    (gives_expr env scopes value).bind (gives_propertyList env scopes rest) (.nil _)

theorem gives_member (env : Environment) (scopes : List Scope) : ∀ m : Member,
    Gives env scopes m.marks [] (m.occurrences scopes) (member env m) fun c o => m.Resolved c o env
  | .named _ object _ => gives_expr env scopes object
  | .computed _ object property =>
    (gives_expr env scopes object).bind (gives_expr env scopes property) (.nil _)

theorem gives_target (env : Environment) (scopes : List Scope) : ∀ t : Target,
    Gives env scopes t.marks [] (t.occurrences scopes) (target env t) fun c o => t.Resolved c o env
  | .identifier i => gives_identifier env scopes i
  | .member m => gives_member env scopes m

theorem gives_function (env : Environment) (scopes : List Scope) (fs : List Func) :
    ∀ f : Func, (∀ g ∈ fs, g = f ∧ f.isExpression = false) →
    Gives env scopes [f.mark] fs (f.occurrences scopes) (func env f) fun c o =>
      (∀ g ∈ fs, ∀ i, g.identifier? = some i → c.NamesFunction (current env) i.id) ∧
        f.Resolved c o env
  | .mk _ _ _ _ _ _ _ body, hfs => gives_func hfs (gives_stmtList _ _ body)

theorem gives_stmtList (env : Environment) (scopes : List Scope) : ∀ ss : List Stmt,
    Gives env scopes (stmtMarks ss) (bodyFunctions ss) (stmtOccurrences scopes ss) (stmtList env ss)
      fun c o => stmtsResolved c o env ss
  | [] => .pure fun _ _ => trivial
  | s :: rest =>
    (gives_stmt env scopes s).bind (gives_stmtList env scopes rest) (namesIn_stmts rest)

theorem gives_stmt (env : Environment) (scopes : List Scope) : ∀ s : Stmt,
    Gives env scopes s.marks s.functions (s.occurrences scopes) (stmt env s) fun c o =>
      s.Resolved c o env
  | .expression _ e => gives_expr env scopes e
  | .block b => gives_block env scopes b
  | .empty _ => .pure fun _ _ => trivial
  | .debugger _ => .pure fun _ _ => trivial
  | .brk .. => .pure fun _ _ => trivial
  | .cont .. => .pure fun _ _ => trivial
  | .ret _ none => .pure fun _ _ => trivial
  | .ret _ (some e) => gives_expr env scopes e
  | .labeled _ _ body => gives_stmt env scopes body
  | .conditional _ test consequent none =>
    (gives_expr env scopes test).bind (gives_stmt env scopes consequent) (namesIn_stmt consequent)
  | .conditional _ test consequent (some alternate) => by
    simp only [Stmt.marks, Stmt.occurrences, Stmt.Resolved, Stmt.functions, List.append_assoc]
    exact (gives_expr env scopes test).bind
      ((gives_stmt env scopes consequent).bind (gives_stmt env scopes alternate)
        (namesIn_stmt alternate))
      ((namesIn_stmt consequent).append (namesIn_stmt alternate))
  | .switch _ discriminant clauses =>
    (gives_expr env scopes discriminant).bind (gives_clauseList env scopes clauses)
      (namesIn_clauses clauses)
  | .throw _ e => gives_expr env scopes e
  | .tryCatch _ b none none => by
    simp only [Stmt.marks, Stmt.occurrences, Stmt.Resolved, Stmt.functions, List.append_nil]
    exact (gives_block env scopes b).bind_pure fun _ _ h => ⟨h, trivial, trivial⟩
  | .tryCatch _ b none (some f) => by
    simp only [Stmt.marks, Stmt.occurrences, Stmt.Resolved, Stmt.functions,
      List.append_nil, true_and]
    exact (gives_block env scopes b).bind (gives_block env scopes f) (namesIn_block f)
  | .tryCatch _ b (some (.mk span param hb)) none => by
    simp only [Stmt.marks, Stmt.occurrences, Stmt.Resolved, Stmt.functions,
      List.append_nil, and_true]
    refine (gives_block env scopes b).bind
      ((gives_handler env scopes (.mk span param hb)).bind_pure fun _ _ h => h) ?_
    simpa using (namesIn_block hb).right [param.mark]
  | .tryCatch _ b (some (.mk span param hb)) (some f) => by
    simp only [Stmt.marks, Stmt.occurrences, Stmt.Resolved, Stmt.functions, List.append_assoc]
    refine (gives_block env scopes b).bind
      ((gives_handler env scopes (.mk span param hb)).bind (gives_block env scopes f)
        (namesIn_block f)) ?_
    simpa using ((namesIn_block hb).right [param.mark]).append (namesIn_block f)
  | .while _ test body =>
    (gives_expr env scopes test).bind (gives_stmt env scopes body) (namesIn_stmt body)
  | .doWhile _ test body =>
    ((gives_expr env scopes test).bind (gives_stmt env scopes body) (namesIn_stmt body)).perm
      List.perm_append_comm
  | .for _ init test update body => by
    rw [stmt_for]
    simp only [Stmt.marks, Stmt.occurrences, Stmt.Resolved, Stmt.functions, List.append_assoc]
    have hnames := namesIn_stmt body
    exact (gives_forInit env scopes init).bind
      ((gives_option env scopes test).bind
        ((gives_option env scopes update).bind (gives_stmt env scopes body) hnames)
          (hnames.right _))
      ((hnames.right _).right _)
  | .forIn _ left right body => by
    rw [stmt_forIn]
    simp only [Stmt.marks, Stmt.occurrences, Stmt.Resolved, Stmt.functions, List.append_assoc]
    have hnames := namesIn_stmt body
    exact (gives_forInTarget env scopes left).bind
      ((gives_expr env scopes right).bind (gives_stmt env scopes body) hnames) (hnames.right _)
  | .with _ id object body => by
    have hscope : Gives env scopes (.node id :: body.marks) body.functions
        (⟨.holder id, scopes⟩ :: body.occurrences (.with id :: scopes))
        (enterWith env id >>= fun inner => stmt inner body) fun c o =>
          ∃ v, c.withVariable? id = some v ∧ o v = id ∧
            (ScopeEntry.with_ v).Valid c (current env) ∧
            body.Resolved c o (openScope (.with_ v) env) :=
      .scope rfl (fun _ => rfl) (fun h hn hv => (h.withVariable? hn).trans hv)
        (fun a hs henv hn => post_enterWith hs henv hn.2)
        (fun v => gives_stmt (openScope (.with_ v) env) (.with id :: scopes) body)
          (namesIn_stmt body)
    have hperm : (object.marks ++ body.marks ++ [Mark.node id]).Perm
        (object.marks ++ Mark.node id :: body.marks) := by
      rw [List.append_assoc]
      exact List.perm_append_comm.append_left _
    have hwith :=
      ((gives_expr env scopes object).bind hscope ((namesIn_stmt body).right [.node id])).perm hperm
    refine .check (fun _ => post_isStrict env) fun strict => ?_
    split
    · exact .check (fun _ => .throw _) fun _ => hwith
    · exact hwith
  | .declaration _ ds => gives_declaratorList env scopes ds
  | .function f => by
    refine .declaration fun hdeclared => ?_
    refine ((gives_function (hoistedEnvironment env) (Scope.hoisted scopes) [f] f fun g hg =>
      ⟨List.mem_singleton.mp hg, hdeclared⟩).hoisted.weaken (List.subset_append_right _ _)).mono
        fun c o h => ⟨?_, h.2⟩
    rw [← current_hoistedEnvironment]
    exact h.1 f (List.mem_singleton_self f)

theorem gives_option (env : Environment) (scopes : List Scope) : ∀ e : Option Expr,
    Gives env scopes (optionMarks e) [] (optionOccurrences scopes e) (option env e) fun c o =>
      optionResolved c o env e
  | none => .pure fun _ _ => trivial
  | some e => gives_expr env scopes e

theorem gives_forInit (env : Environment) (scopes : List Scope) : ∀ init : ForInit,
    Gives env scopes init.marks [] (init.occurrences scopes) (forInit env init) fun c o =>
      init.Resolved c o env
  | .nothing => .pure fun _ _ => trivial
  | .declaration _ ds => gives_declaratorList env scopes ds
  | .expression e => gives_expr env scopes e

theorem gives_forInTarget (env : Environment) (scopes : List Scope) : ∀ left : ForInTarget,
    Gives env scopes left.marks [] (left.occurrences scopes) (forInTarget env left) fun c o =>
      left.Resolved c o env
  | .declaration i => gives_identifier env scopes i
  | .target t => gives_target env scopes t

theorem gives_declaratorList (env : Environment) (scopes : List Scope) : ∀ ds : List Declarator,
    Gives env scopes (declaratorMarks ds) [] (declaratorOccurrences scopes ds)
      (declaratorList env ds) fun c o => declaratorsResolved c o env ds
  | [] => .pure fun _ _ => trivial
  | .mk _ name none :: rest =>
    (gives_identifier env scopes name).bind (gives_declaratorList env scopes rest) (.nil _)
  | .mk _ name (some init) :: rest =>
    (gives_identifier env scopes name).bind
      ((gives_expr env scopes init).bind (gives_declaratorList env scopes rest) (.nil _)) (.nil _)

theorem gives_clauseList (env : Environment) (scopes : List Scope) : ∀ cs : List SwitchClause,
    Gives env scopes (clauseMarks cs) (clausesFunctions cs) (clauseOccurrences scopes cs)
      (clauseList env cs) fun c o =>
      clausesResolved c o env cs
  | [] => .pure fun _ _ => trivial
  | .mk _ none body :: rest =>
    (gives_stmtList env scopes body).bind (gives_clauseList env scopes rest) (namesIn_clauses rest)
  | .mk _ (some test) body :: rest => by
    simp only [clauseMarks, clauseOccurrences, clausesResolved, clausesFunctions, List.append_assoc]
    exact (gives_expr env scopes test).bind
      ((gives_stmtList env scopes body).bind (gives_clauseList env scopes rest)
        (namesIn_clauses rest))
      ((namesIn_stmts body).append (namesIn_clauses rest))

theorem gives_block (env : Environment) (scopes : List Scope) : ∀ b : Block,
    Gives env scopes b.marks b.functions (b.occurrences scopes) (block env b) fun c o =>
      b.Resolved c o env
  | .mk _ body => gives_stmtList env scopes body

theorem gives_handler (env : Environment) (scopes : List Scope) : ∀ h : Handler,
    Gives env scopes h.marks (match h with | .mk _ _ body => body.functions) (h.occurrences scopes)
      (handler env h) fun c o => h.Resolved c o env
  | .mk _ param body =>
    .scope rfl (fun _ => rfl)
      (fun h hn hv => (h.reference? hn).trans hv)
      (fun _ hs henv hn => post_enterCatch hs henv hn.1)
      (fun v => gives_block (openScope (.catch_ param.name v) env) (.catch param :: scopes) body)
      (namesIn_block body)

end

end Resolve

/-! ### Scripts -/

/-- The tables of a script in which all names are resolved. -/
structure Program.Scoped (p : Program) (a : Analysis) (origin : VariableId → NodeId) : Prop where
  sound : a.Sound
  valid : Environment.Valid a [⟨0, []⟩]
  bodies_size : a.bodies.size = p.functionCount
  parent : (a.body 0).parent = none
  params : (a.body 0).params = []
  declared : ∀ x, (a.body 0).declared.contains x = true →
    x ∈ bodyVarNames p.body ∨ x ∈ (bodyFunctions p.body).map Func.name ∨
      ∃ o ∈ p.occurrences, ∃ i, o.mention = .identifier i ∧ i.name = x
  resolved : stmtsResolved a origin [⟨0, []⟩] p.body
  captures : ∀ id, ∀ w ∈ (a.body id).closedOver, ∃ u ∈ p.occurrences, u.UsesForeign a w

theorem Analysis.initial_body (functionCount nodeCount : Nat) (id : FunctionId) :
    (initial functionCount nodeCount).body id =
      if id < (initial functionCount nodeCount).bodies.size then .plain id else default := by
  unfold initial body
  simp only [List.getElem?_toArray, List.getElem?_map, List.size_toArray, List.length_map,
    List.length_range]
  split
  · rename_i hlt
    rw [List.getElem?_range hlt]
    rfl
  · rename_i hge
    rw [List.getElem?_eq_none (List.length_range.trans_le (Nat.le_of_not_lt hge))]
    rfl

/-- A body about which only its number is known has nothing that could be wrong. -/
theorem Analysis.bodySound_plain {a : Analysis} {id n : FunctionId}
    (h : id < a.bodies.size → n = id) :
    a.BodySound id (.plain n) where
  number := h
  tidy := NameTable.tidy_empty
  declared x v hv := by cases hv
  closedOver := List.forall_mem_nil _
  closedOver_nodup := .nil
  synthetic := List.forall_mem_nil _
  synthetic_nodup := .nil
  apart := List.forall_mem_nil _
  arguments v hv := by cases hv
  selfBinding v hv := by cases hv
  parent q hq := by cases hq
  layout := rfl

theorem Analysis.sound_initial (functionCount nodeCount : Nat) :
    (initial functionCount nodeCount).Sound := by
  have hnone {n : NodeId} {v : VariableId} :
      (Array.replicate nodeCount none)[n]? ≠ some (some v) := by
    rw [Array.getElem?_replicate]
    split <;> simp
  refine ⟨fun v hv => ?_, fun v hv => ?_, fun _ _ h => absurd h hnone, fun _ _ h => absurd h hnone,
    fun id => ?_⟩
  · obtain rfl := Nat.lt_one_iff.mp hv
    refine ⟨.inl rfl, fun h => ?_, rfl, fun h => ?_⟩ <;> cases h
  · obtain rfl := Nat.lt_one_iff.mp hv
    have hsize : (initial functionCount nodeCount).bodies.size = max functionCount 1 := by
      simp [initial]
    refine ⟨hsize ▸ Nat.lt_of_lt_of_le Nat.one_pos (Nat.le_max_right functionCount 1),
      fun w hw => ?_, List.forall_mem_nil _⟩
    cases hw
  · rw [initial_body]
    split
    · exact bodySound_plain fun _ => rfl
    · next hge => exact bodySound_plain (n := 0) fun hlt => absurd hlt hge

/-- Tables of a script in which nothing is declared yet. -/
structure Analysis.Blank (a : Analysis) (p : Program) : Prop where
  sound : a.Sound
  bodies_size : a.bodies.size = p.functionCount
  references_size : a.references.size = p.nodeCount
  withVariables_size : a.withVariables.size = p.nodeCount
  declared : ∀ id, (a.body id).declared = .empty
  parent : ∀ id, (a.body id).parent = none
  params : ∀ id, (a.body id).params = []
  closedOver : ∀ id, (a.body id).closedOver = []

namespace Analysis.Blank

variable {p : Program} {a c : Analysis}

/-- The tables that the resolution of a script begins with. -/
theorem of_initial (hp : p.WellNumbered) (strict : Bool) : Blank
    { initial p.functionCount p.nodeCount with
      bodies := (initial p.functionCount p.nodeCount).bodies.modify 0 fun b =>
        { b with strict := strict, name := "%program" } } p := by
  have hempty (id : FunctionId) :
      ((initial p.functionCount p.nodeCount).body id).declared = .empty ∧
      ((initial p.functionCount p.nodeCount).body id).parent = none ∧
        ((initial p.functionCount p.nodeCount).body id).closedOver = [] ∧
          ((initial p.functionCount p.nodeCount).body id).params = [] := by
    rw [initial_body]
    split <;> exact ⟨rfl, rfl, rfl, rfl⟩
  -- The entry of the script itself changes in its mode and its name only.
  have hsame {α : Type} (g : BodyInfo → α)
      (hg : ∀ b : BodyInfo, g { b with strict := strict, name := "%program" } = g b)
        (id : FunctionId) :=
    modifyBody_congr g (initial p.functionCount p.nodeCount) 0 hg id
  have hs := sound_initial p.functionCount p.nodeCount
  exact
    { sound := hs.modifyBody { hs.body 0 with }
      bodies_size := by
        have := hp.functionCount_pos
        simp only [initial, List.size_toArray, Array.size_modify, List.length_map,
          List.length_range]
        omega
      references_size := by simp [initial]
      withVariables_size := by simp [initial]
      declared := fun id => (hsame (·.declared) (fun _ => rfl) id).trans (hempty id).1
      parent := fun id => (hsame (·.parent) (fun _ => rfl) id).trans (hempty id).2.1
      params := fun id => (hsame (·.params) (fun _ => rfl) id).trans (hempty id).2.2.2
      closedOver := fun id => (hsame (·.closedOver) (fun _ => rfl) id).trans (hempty id).2.2.1 }

theorem bound (h : a.Blank p) (hp : p.WellNumbered) : 0 < a.bodies.size :=
  h.bodies_size ▸ hp.functionCount_pos

theorem declaring (h : a.Blank p) (hp : p.WellNumbered) :
    a.Declaring 0 (fun n => n ∈ Mark.nodesOf p.marks) (fun _ => False) (fun _ => .global)
      (fun _ => False) a where
  bound := h.bound hp
  sound := h.sound
  growth := .refl _ _ _
  parent := rfl
  fresh x v hv := by
    rw [h.declared] at hv
    cases hv
  names x := by
    rw [h.declared]
    simp [NameTable.contains, NameTable.empty]
  kinds x v hv := by
    rw [h.declared] at hv
    cases hv
  closedOver _ := rfl
  others _ _ := rfl
  named := nofun

theorem parameters (h : a.Blank p) (hp : p.WellNumbered) : a.Parameters 0 [] := by
  refine ⟨h.bound hp, ?_, ?_, nofun⟩
  · rw [h.declared]
    nofun
  · exact congrArg (List.map some) (h.params 0)

/-- After the declarations of a script its statements can be resolved. -/
theorem awaits (h : a.Blank p) (hp : p.WellNumbered) {named : NodeId → Prop}
    {names : String → Prop}
    (hc : a.Declaring 0 (fun n => n ∈ Mark.nodesOf p.marks) named (fun _ => .global) names c)
    (hnamed : ∀ f ∈ bodyFunctions p.body, ∀ i, f.identifier? = some i → named i.id) :
    c.Awaits [⟨0, []⟩] (stmtMarks p.body) (bodyFunctions p.body) := by
  have hfunction {id : FunctionId} (hid : id ∈ Mark.functionsOf p.marks) :
      0 < id ∧ id < p.functionCount := by
    obtain ⟨hpos, hlt⟩ := List.mem_range'_1.mp (hp.functions.mem_iff.mp hid)
    exact ⟨hpos, hlt.trans_eq (Nat.add_sub_of_le hp.functionCount_pos)⟩
  exact
    { sound := hc.sound
      valid := .script hc.bound nofun
      nodes := hp.nodes.nodup_iff.mpr List.nodup_range
      functions := hp.functions.nodup_iff.mpr List.nodup_range'
      ordered := hp.ordered
      above := fun id hid => (hfunction hid).1
      nodes_lt := fun n hn => by
        have hlt := List.mem_range.mp (hp.nodes.mem_iff.mp hn)
        rw [hc.growth.references_size, hc.growth.withVariables_size, h.references_size,
          h.withVariables_size]
        exact ⟨hlt, hlt⟩
      functions_lt := fun id hid => by
        rw [hc.growth.bodies_size, h.bodies_size]
        exact (hfunction hid).2
      fresh := fun id hid => by
        have hne : id ≠ 0 := Nat.ne_of_gt (hfunction hid).1
        rw [(hc.growth.body id hne).fixed hne, (hc.growth.body id hne).params]
        exact ⟨h.declared id, h.params id⟩
      named := fun f hf i hi => hc.named i.id (hnamed f hf i hi) }

end Analysis.Blank

/-- A script is resolved from the tables before anything is known. -/
theorem Resolve.post_script {strict : Bool} {p : Program} (hp : p.WellNumbered) :
    (Resolve.script strict p).Post (.initial p.functionCount p.nodeCount) fun _ a =>
      ∃ origin, p.Scoped a origin := by
  unfold Resolve.script
  refine .bind (.modifyTables _) ?_
  rintro _ _ rfl
  have hblank := Analysis.Blank.of_initial hp (p.strict || strict)
  generalize ({ Analysis.initial p.functionCount p.nodeCount with
    bodies := (Analysis.initial p.functionCount p.nodeCount).bodies.modify 0 fun b =>
      { b with strict := p.strict || strict, name := "%program" } } : Analysis) = base at *
  have hglobal : VariableKind.global ∈ declarableKinds 0 := List.mem_cons_self
  refine .bind (((hblank.declaring hp).declareVariables (fun _ _ _ => rfl) hglobal nofun).and
    ((hblank.parameters hp).declareVariables .global _)) fun _ b ⟨hb, hb'⟩ => ?_
  have hroom (n : NodeId) (hn : n ∈ Mark.nodesOf p.marks) : n < base.references.size :=
    (List.mem_range.mp (hp.nodes.mem_iff.mp hn)).trans_eq hblank.references_size.symm
  refine .bind ((hb.declareFunctions (fun f hf i hi =>
    ⟨namesIn_stmts p.body f hf i hi, hroom _ (namesIn_stmts p.body f hf i hi)⟩) (fun _ _ _ => rfl)
      hglobal nofun).and (hb'.declareFunctions .global _)) fun _ c ⟨hc, hc'⟩ => ?_
  have hawaits := hblank.awaits hp hc fun f hf i hi => .inr ⟨f, hf, i, hi, rfl⟩
  refine .mono (Resolve.gives_stmtList [⟨0, []⟩] [] p.body rfl c hawaits) fun _ d hd => ?_
  obtain ⟨o, ho⟩ := hd.holds
  have henv := hawaits.env_not_mem
  refine ⟨o, hd.sound, hawaits.valid.of_extends hd.growth henv, ?_, ?_, ?_, fun x hx => ?_,
    ho d o (.refl _ _ _) fun _ _ _ => rfl, ?_⟩
  · rw [hd.growth.bodies_size, hc.growth.bodies_size, hblank.bodies_size]
  · rw [(hd.growth.body 0 (henv 0 List.mem_cons_self)).parent, hc.parent, hblank.parent]
  · rw [(hd.growth.body 0 (henv 0 List.mem_cons_self)).params]
    exact List.map_eq_nil_iff.mp hc'.takes.params
  · rcases hd.notes.declared x hx with hx | hx
    · rw [hc.names] at hx
      rcases hx with (hx | hx) | hx
      · exact hx.elim
      · exact .inl (mem_declaredNames.mp hx)
      · exact .inr (.inl hx)
    · exact .inr (.inr hx)
  · intro id w hw
    rcases hd.notes.captured id w hw with hw | ⟨u, hu, huses⟩
    · rw [hc.closedOver, hblank.closedOver] at hw
      cases hw
    · exact ⟨u, hu, huses d (.refl _ _ _)⟩

/-- The scoping rules hold of a script. -/
theorem Resolve.scoped_of_program {strict : Bool} {p : Program} (hp : p.WellNumbered) {a : Analysis}
    (h : Resolve.program strict p = .ok a) : ∃ origin, p.Scoped a origin := by
  unfold program at h
  split at h
  · rename_i s hrun
    cases h
    exact post_script hp 0 () s hrun
  · cases h

end ScriptEngine
