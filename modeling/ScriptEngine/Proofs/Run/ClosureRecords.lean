import ScriptEngine.Proofs.Run.Addressing

/-!
# Records of closures

Every function of a script takes the records of the bodies around it along, one for each body that
has a layout, and its activations reach the captured variables in these records.  So no field that
code addresses is ever missing.

## Main definitions

* `Work.Ready` : work on a sound machine.
* `Engine.Fresh` : engines on which nothing ran.
* `Engine.History` : engines after tasks, with the activations that were entered for these.

## Main statements

* `keepsSound` : calls leave sound machines behind.
* `Work.Passes.sound` : work passes through sound machines.
* `Work.Enters.fits` : the events of all activations that work enters fit.
* `Engine.records_mirror` : the records of all functions, and the fields that all activations
  address.
-/

namespace ScriptEngine

variable {α : Type}

/-! ### Calls -/

theorem Heap.cls_make (h : Heap) (cls : ObjectClass) (parent : Intrinsic)
    (properties : List (String × Value)) :
    ((h.make cls parent properties).2.object (h.make cls parent properties).1).cls = cls := by
  unfold Heap.make
  rw [Heap.object_alloc, if_pos (show (h.alloc _).1 = h.size from rfl),
    Heap.Advance.cls_foldl_defineOwn]
  rfl

theorem Heap.isArguments_newArguments (h : Heap) (arguments : List Value) (paramCount : Nat)
    (callee : Option Ref) : (h.newArguments arguments paramCount callee).2.IsArguments
      (.object (h.newArguments arguments paramCount callee).1) := by
  refine ⟨_, rfl, ?_⟩
  unfold Heap.newArguments
  rw [Heap.cls_make]
  rfl

/-- A new object is later. -/
theorem relates_new_later {ran : Activation → Prop} {owners : List Activation} {m : Machine}
    {f : Heap → Ref × Heap} (hf : ∀ h : Heap, h.Grows (f h).2) :
    Exec.Relates (MachineRelation.later ran owners m).rel (MachineRelation.later ran owners m).rel
      (fun v _ n k => (MachineRelation.later ran owners m).rel n k ∧
        ∃ h, v = .object (f h).1 ∧ n.heap = (f h).2) (Run.new f) (Run.new f) := by
  rintro n _ ⟨rfl, hn⟩
  exact .ok ⟨⟨rfl, hn.grow (hf n.heap)⟩, n.heap, rfl, rfl⟩

/-- Entering a frame is later, and the frame has a new arguments object. -/
theorem relates_enter_later (ran : Activation → Prop) (owners : List Activation) (m : Machine)
    (code : FunctionCode) (scope : Option RecordRef) (callee : Ref) (this : Value)
    (arguments : List Value) :
    Exec.Relates (MachineRelation.later ran owners m).rel (MachineRelation.later ran owners m).rel
      (fun s _ n _ => m.Later ran owners n ∧ ∃ this arguments, n.heap.IsArguments arguments ∧
        s = n.enterFrame code.info this (.object callee) arguments scope)
      (code.enter scope callee this arguments) (code.enter scope callee this arguments) := by
  refine (same_effectiveThis _ this).bindTo id fun this => ?_
  refine Exec.Relates.bind (relates_new_later fun h => ?_) fun v _ n k => ?_
  · exact (Heap.adds_newArguments arguments code.info.paramCount (some callee)
      (Heap.Similar.refl (T := Eq) h)).2.left
  · rintro ⟨hn, h, rfl, hheap⟩
    refine .ok ⟨hn.2, _, _, ?_, rfl⟩
    rw [hheap]
    exact h.isArguments_newArguments arguments _ _

/-- What a call leaves behind: nothing happened, a native function ran, or a function of a script
entered its frame and ran. -/
theorem Work.after_call {fuel : Nat} {c : Call} {n : Machine}
    (h : (call c).after? (fuel + 1) = some n) :
    n = c.machine ∨ c.machine.depth < c.machine.limit ∧ ∃ r p, c.callee = .object r ∧
      n = Run.leave p ∧
      ((∃ f : Native, (c.machine.heap.object r).cls = .function (.native f) ∧
        (computation (f.run · c.this c.arguments)
          { c.machine with depth := c.machine.depth + 1 }).after? fuel = some p) ∨
      ∃ code scope, (c.machine.heap.object r).cls = .function (.script code scope) ∧
        ((∃ e, code.enter scope r c.this c.arguments
          { c.machine with depth := c.machine.depth + 1 } =
          .error e p) ∨
        ∃ s m, code.enter scope r c.this c.arguments
          { c.machine with depth := c.machine.depth + 1 } = .ok s m ∧
          (body code s).after? fuel = some p)) := by
  change (callWith (.within fuel) c.callee c.this c.arguments c.machine).state? = some n at h
  cases hcallable : c.machine.heap.isCallable c.callee with
  | false =>
    obtain ⟨e, he⟩ := callable_of_not_callable "a function" hcallable
    change (Exec.andThen (Run.callable c.callee "a function") _ c.machine).state? = some n at h
    unfold Exec.andThen at h
    rw [he] at h
    exact .inl (Option.some.inj h).symm
  | true =>
    obtain ⟨r, f, hr, hf⟩ := exists_function hcallable
    rcases Nat.lt_or_ge c.machine.depth c.machine.limit with hdepth | hdepth
    · rw [hr, callWith_of_function _ c.this c.arguments hf, Run.state_nested _ hdepth] at h
      obtain ⟨p, hp, rfl⟩ := Option.map_eq_some_iff.mp h
      refine .inr ⟨hdepth, r, p, hr, rfl, ?_⟩
      cases f with
      | native f => exact .inl ⟨f, hf, hp⟩
      | script code scope =>
        refine .inr ⟨code, scope, hf, ?_⟩
        dsimp only at hp
        rw [FunctionCode.invoke_eq] at hp
        change (Exec.andThen (code.enter scope r c.this c.arguments) _ _).state? = some p at hp
        unfold Exec.andThen at hp
        cases henter : code.enter scope r c.this c.arguments
            { c.machine with depth := c.machine.depth + 1 } with
        | ok s m =>
          rw [henter] at hp
          dsimp only at hp
          rw [FunctionCode.state_runFrom] at hp
          exact .inr ⟨s, m, rfl, hp⟩
        | error e m =>
          rw [henter] at hp
          cases hp
          exact .inl ⟨e, rfl⟩
        | exhausted =>
          rw [henter] at hp
          cases hp
    · rw [callWith_of_limit _ c.this c.arguments hcallable hdepth] at h
      exact .inl (Option.some.inj h).symm

section

variable {ran : Activation → Prop} {owners : List Activation} {m n : Machine} {fuel : Nat}

/-- One call deeper nothing else changes. -/
theorem Machine.Sound.deeper (h : m.Sound ran owners) :
    m.Later ran owners { m with depth := m.depth + 1 } :=
  (Machine.Later.of_sound h).congr rfl rfl

/-- The activation of a function that was made begins. -/
theorem Machine.Sound.begins (h : m.Sound ran owners) {c : CompiledProgram} (hc : c.OfSource)
    {L : List Activation} {code : FunctionCode} {r : Ref} {scope : Option RecordRef}
    (hborn : Born c ran L code r scope) (hL : ∀ B ∈ L, B.Holds owners m) {this arguments : Value}
    {s : RunState} (hs : s = m.enterFrame code.info this (.object r) arguments scope)
    (harguments : m.heap.IsArguments arguments) (hran : ran ⟨fuel, code, s⟩) :
    ∃ K owners', Activation.Begins K ran owners' ⟨fuel, code, s⟩ L ∧
      ∀ B : Activation, B.Holds owners m → B.Holds owners' s.machine := by
  obtain ⟨K, rfl⟩ := hc.compilation
  obtain ⟨hlineage, B, outer, rfl, hmade, rfl⟩ := hborn
  obtain ⟨owners', hsound, hrecord, hkept, hheap⟩ := h.enterFrame (A := ⟨fuel, code, s⟩) hs
  refine ⟨K, owners',
    ⟨.function hran hmade hs hlineage, hsound, hrecord, fun C hC => hkept C (hL C hC),
    fun _ => ?_⟩, hkept⟩
  rw [hheap]
  dsimp only
  rw [hs]
  exact harguments

/-- The activation that a call of a function enters begins. -/
theorem Machine.Sound.enters {c : Call} (h : c.machine.Sound ran owners) {r : Ref}
    {code : FunctionCode} {scope : Option RecordRef}
    (hf : (c.machine.heap.object r).cls = .function (.script code scope)) {s : RunState}
    {m : Machine} (hs : code.enter scope r c.this c.arguments
      { c.machine with depth := c.machine.depth + 1 } = .ok s m) (hran : ran ⟨fuel, code, s⟩) :
    ∃ K owners' L, Activation.Begins K ran owners' ⟨fuel, code, s⟩ L ∧
      ∀ B : Activation, B.Holds owners c.machine → B.Holds owners' s.machine := by
  have hentered := relates_enter_later ran owners c.machine code scope r c.this c.arguments
    (show (MachineRelation.later ran owners c.machine).rel
      { c.machine with depth := c.machine.depth + 1 } _ from ⟨rfl, h.deeper⟩)
  rw [hs] at hentered
  cases hentered with
  | ok hQ =>
    obtain ⟨⟨owners', hsound, hkept⟩, this, arguments, harguments, hbegun⟩ := hQ
    obtain ⟨c', L, hc', hborn, hL⟩ := h.born r code scope (congrArg ObjectClass.shape hf)
    obtain ⟨K, owners'', hbegins, hstill⟩ := hsound.begins hc' hborn (fun B hB => hkept B (hL B hB))
      hbegun harguments hran
    exact ⟨K, owners'', L, hbegins, fun B hB => hstill B (hkept B hB)⟩

/-- Calls leave sound machines behind. -/
theorem keepsSound (ran : Activation → Prop) (fuel : Nat) : KeepsSound ran fuel := by
  induction fuel with
  | zero =>
    intro c _ owners n _ hn
    cases hn
  | succ fuel ih =>
    intro c hran owners n hsound hn
    rcases Work.after_call hn with rfl | ⟨hdepth, r, p, hr, rfl,
        ⟨f, hf, hp⟩ | ⟨code, scope, hf, hp⟩⟩
    · exact .of_sound hsound
    · have hagree := ih.agree (Run.regular_native f c.this c.arguments)
        (fun A hA => hran A (.native hr hf hdepth hA)) hsound.deeper
      obtain ⟨_, hrel⟩ := hagree.exists_rel hp
      exact hrel.2.congr rfl rfl
    · rcases hp with ⟨e, he⟩ | ⟨s, m, hs, hp⟩
      · have hentered := relates_enter_later ran owners c.machine code scope r c.this c.arguments
          (show (MachineRelation.later ran owners c.machine).rel
            { c.machine with depth := c.machine.depth + 1 } _ from ⟨rfl, hsound.deeper⟩)
        rw [he] at hentered
        cases hentered with
        | error hE => exact hE.2.congr rfl rfl
      · obtain ⟨K, owners', L, hbegins, hkept⟩ :=
          hsound.enters hf hs (hran _ (.script hr hf hdepth hs .body))
        obtain ⟨-, hafter⟩ := hbegins.follows ih fun A hA => hran A (.script hr hf hdepth hs hA)
        obtain ⟨owners'', hlater, hstill⟩ := hafter p hp
        refine Machine.Later.congr (n := p) ⟨owners'', hlater, fun B hB => ?_⟩ rfl rfl
        exact hstill B (hkept B hB)

end

/-! ### Moments -/

namespace Work

/-- Work on a sound machine. -/
def Ready (ran : Activation → Prop) (fuel : Nat) : Work → Prop
  | .computation x m => Run.Regular x ∧ ∃ owners, m.Sound ran owners
  | .call c => ∃ owners, c.machine.Sound ran owners
  | .body code s => ∃ K owners L, Activation.Begins K ran owners ⟨fuel, code, s⟩ L

variable {ran : Activation → Prop} {fuel : Nat}

theorem Ready.sound {w : Work} (h : w.Ready ran fuel) : ∃ owners, w.machine.Sound ran owners := by
  cases w with
  | computation x m => exact h.2
  | call c => exact h
  | body code s =>
    obtain ⟨K, owners, L, h⟩ := h
    exact ⟨owners, h.sound⟩

/-- Work leaves sound machines behind. -/
theorem Ready.after {w : Work} (h : w.Ready ran fuel) (hran : ∀ A, w.Enters fuel A → ran A)
    {n : Machine} (hn : w.after? fuel = some n) : ∃ owners, n.Sound ran owners := by
  cases w with
  | computation x m =>
    obtain ⟨hx, owners, hm⟩ := h
    obtain ⟨_, hrel⟩ := ((keepsSound ran fuel).agree hx hran (.of_sound hm)).exists_rel hn
    exact hrel.2.imp fun _ => And.left
  | call c =>
    obtain ⟨owners, hc⟩ := h
    exact (keepsSound ran fuel hran hc hn).imp fun _ => And.left
  | body code s =>
    obtain ⟨K, owners, L, h⟩ := h
    exact ((h.follows (keepsSound ran fuel) hran).2 n hn).imp fun _ => And.left

theorem Ready.made {x : Caller → Run α} {m : Machine} {c : Call}
    (h : (computation x m).Ready ran fuel) (hran : ∀ A, (computation x m).Enters fuel A → ran A)
    (hc : Run.Makes x (callWithin fuel) m c) :
    (call c).Ready ran fuel := by
  obtain ⟨hx, owners, hm⟩ := h
  obtain ⟨_, hrel⟩ :=
    hx.related_of_makes (R := .later ran owners m) hc (fun f this arguments p q hmade hpq => by
    obtain ⟨rfl, hp⟩ := hpq
    refine MachineRelation.agree_later fun k hk => hp.trans fun owners' hsound _ => ?_
    exact keepsSound ran fuel
      (c := ⟨f, this, arguments, p⟩) (fun A hA => hran A (.made hmade hA)) hsound hk)
    ⟨rfl, .of_sound hm⟩
  exact hrel.2.imp fun _ => And.left

theorem Ready.native {c : Call} (h : (call c).Ready ran (fuel + 1)) (f : Native) :
    (computation (f.run · c.this c.arguments) { c.machine with depth := c.machine.depth + 1 }).Ready
    ran fuel := by
  obtain ⟨owners, hc⟩ := h
  exact ⟨Run.regular_native f c.this c.arguments, hc.deeper.imp fun _ => And.left⟩

theorem Ready.run {code : FunctionCode} {s t : RunState} {x : Caller → Run α}
    (h : (body code s).Ready ran fuel) (hran : ∀ A, (body code s).Enters fuel A → ran A)
    (hx : .run x t ∈ (code.traced (.within fuel) s).1) :
    (computation x t.machine).Ready ran fuel := by
  obtain ⟨K, owners, L, h⟩ := h
  have hfits := (h.follows (keepsSound ran fuel) hran).1 _ hx
  exact ⟨hfits.regular, hfits.sound⟩

/-- Work passes through sound machines. -/
theorem Passes.sound {w : Work} {n : Machine} (h : w.Passes fuel n) (hw : w.Ready ran fuel)
    (hran : ∀ A, w.Enters fuel A → ran A) : ∃ owners, n.Sound ran owners := by
  induction h with
  | begins => exact hw.sound
  | ends h => exact hw.after hran h
  | made h _ ih => exact ih (hw.made hran h) fun A hA => hran A (.made h hA)
  | native h hf hdepth _ ih => exact ih (hw.native _) fun A hA => hran A (.native h hf hdepth hA)
  | script h hf hdepth hs _ ih =>
    obtain ⟨owners, hc⟩ := hw
    obtain ⟨K, owners', L, hbegins, -⟩ := hc.enters hf hs (hran _ (.script h hf hdepth hs .body))
    exact ih ⟨K, owners', L, hbegins⟩ fun A hA => hran A (.script h hf hdepth hs hA)
  | event h =>
    obtain ⟨K, owners, L, hbegins⟩ := hw
    exact ((hbegins.follows (keepsSound ran _) hran).1 _ h).sound
  | run h _ ih => exact ih (hw.run hran h) fun A hA => hran A (.run h hA)

/-- The activations that work enters have lineages, and what happens in them fits. -/
theorem Enters.fits {w : Work} {A : Activation} (h : w.Enters fuel A) (hw : w.Ready ran fuel)
    (hran : ∀ A, w.Enters fuel A → ran A) : ∃ c L, c.OfSource ∧ Lineage c ran (A :: L) ∧
      ∀ e ∈ A.events, e.Fits c ran (A :: L) := by
  induction h with
  | body =>
    obtain ⟨K, owners, L, hbegins⟩ := hw
    exact ⟨K.compiled, L, K.ofSource, hbegins.lineage, (hbegins.follows (keepsSound ran _) hran).1⟩
  | made h _ ih => exact ih (hw.made hran h) fun A hA => hran A (.made h hA)
  | native h hf hdepth _ ih => exact ih (hw.native _) fun A hA => hran A (.native h hf hdepth hA)
  | script h hf hdepth hs _ ih =>
    obtain ⟨owners, hc⟩ := hw
    obtain ⟨K, owners', L, hbegins, -⟩ := hc.enters hf hs (hran _ (.script h hf hdepth hs .body))
    exact ih ⟨K, owners', L, hbegins⟩ fun A hA => hran A (.script h hf hdepth hs hA)
  | run h _ ih => exact ih (hw.run hran h) fun A hA => hran A (.run h hA)

end Work

/-! ### Tasks -/

/-- Whether a class is that of functions of scripts. -/
def ObjectClass.isScript : ObjectClass → Bool
  | .function (.script ..) => true
  | _ => false

theorem ObjectClass.eq_of_shape {cls : ObjectClass} {code : FunctionCode} {scope : Option RecordRef}
    (h : cls.shape = .script code scope) : cls = .function (.script code scope) := by
  cases cls with
  | function f =>
    cases f with
    | script code scope =>
      cases h
      rfl
    | native f => cases h
  | _ => cases h

/-- On a sound machine the records of a function are linked as the layouts of the bodies around. -/
theorem Machine.Sound.mirrors {m : Machine} {ran : Activation → Prop} {owners : List Activation}
    (h : m.Sound ran owners) {r : Ref} {code : FunctionCode} {scope : Option RecordRef}
    (hr : (m.heap.object r).cls = .function (.script code scope)) :
    ∃ c L, c.OfSource ∧ Born c ran L code r scope ∧ ∃ qs, m.records.Chain scope qs ∧
      List.Forall₂ (Mirrors c L m.records) qs
        (c.analysis.layoutChain c.analysis.layouts.size
          (c.analysis.body code.info.id).parentLayout) := by
  obtain ⟨c, L, hc, hborn, hL⟩ := h.born r code scope (congrArg ObjectClass.shape hr)
  refine ⟨c, L, hc, hborn, ?_⟩
  obtain ⟨K, rfl⟩ := hc.compilation
  have hchain := hborn.stands.layoutChain_eq
  obtain ⟨hlineage, B, outer, rfl, -, rfl⟩ := hborn
  rw [hchain]
  exact hlineage.mirrors fun C hC => (hL C hC).record

namespace Engine

namespace Task

/-- Tasks whose scripts were compiled from sources. -/
def OfSource : Task → Prop
  | .run p => p.OfSource
  | _ => True

/-- The activations that an engine enters with a task. -/
def Enters (fuel : Nat) (e : Engine) (t : Task) (A : Activation) : Prop :=
  ∃ w, t.work? e = some w ∧ w.Enters fuel A

variable {e e' : Engine} {t : Task} {fuel : Nat} {ran : Activation → Prop}
  {owners : List Activation}

/-- The work for a task on a sound machine is ready. -/
theorem OfSource.ready (ht : t.OfSource) (he : e.machine.Sound ran owners) {w : Work}
    (hw : t.work? e = some w) (hran : ∀ A, w.Enters fuel A → ran A) : w.Ready ran fuel := by
  have hscript {c : CompiledProgram} (hc : c.OfSource)
      (hran : ran ⟨fuel, c.code, c.code.begin e.machine⟩) :
      (Work.body c.code (c.code.begin e.machine)).Ready ran fuel := by
    obtain ⟨K, rfl⟩ := hc.compilation
    have hbegun : K.compiled.code.begin e.machine = e.machine.enterFrame K.compiled.code.info
        (.object Intrinsic.global.ref) .undefined .undefined none := rfl
    obtain ⟨owners', hsound, hrecord, -, -⟩ := he.enterFrame
      (A := ⟨fuel, K.compiled.code, K.compiled.code.begin e.machine⟩) hbegun
    have hlineage : Lineage K.compiled ran
        [⟨fuel, K.compiled.code, K.compiled.code.begin e.machine⟩] :=
      .script hran rfl rfl
    refine ⟨K, owners', [], hlineage, hsound, hrecord, fun B hB => absurd hB List.not_mem_nil,
      fun h => ?_⟩
    dsimp only at h
    rw [K.argumentsField_script] at h
    cases h
  cases t with
  | eval source =>
    dsimp only [work?] at hw
    cases hc : e.compile source with
    | error err =>
      rw [hc] at hw
      cases hw
    | ok c =>
      rw [hc] at hw
      cases hw
      refine hscript ?_ (hran _ .body)
      unfold Engine.compile at hc
      split at hc
      · cases hc
      · rename_i p hp
        split at hc
        · cases hc
        · rename_i compiled hcompiled
          cases hc
          exact ⟨source, p, e.options, hp, hcompiled⟩
  | run c =>
    cases hw
    exact hscript ht (hran _ .body)
  | call callee this arguments =>
    cases hw
    exact ⟨owners, he⟩
  | construct callee arguments =>
    cases hw
    exact ⟨Run.regular_construct callee arguments, owners, he⟩

end Task

/-- An engine on which nothing ran: it has no functions of scripts and no records. -/
structure Fresh (e : Engine) : Prop where
  object : ∀ r code scope, (e.machine.heap.object r).cls ≠ .function (.script code scope)
  records : e.machine.records = .empty

theorem fresh_ofConfig (config : EngineConfig) : (ofConfig config).Fresh where
  object r code scope h := by
    have hall : (Heap.initial.objects.all fun o => !o.cls.isScript) = true := by decide +kernel
    change (Heap.initial.object r).cls = _ at h
    rcases Nat.lt_or_ge r Heap.initial.size with hr | hr
    · have hobject := Array.all_eq_true.mp hall r hr
      rw [Heap.object, Array.getElem?_eq_getElem hr, Option.getD_some] at h
      rw [h] at hobject
      cases hobject
    · rw [Heap.object_of_size_le hr] at h
      cases h
  records := rfl

/-- An engine after several tasks, and the activations that were entered for them. -/
inductive History : Engine → (Activation → Prop) → Prop
  | begins {e : Engine} (h : e.Fresh) : History e fun _ => False
  | task {e e' : Engine} {ran : Activation → Prop} {fuel : Nat} {t : Task} (h : History e ran)
      (ht : t.OfSource) (hend : (t.perform fuel e).state? = some e') :
      History e' fun A => ran A ∨ t.Enters fuel e A
  | takeOutput {e : Engine} {ran : Activation → Prop} (h : History e ran) :
    History e.takeOutput.2 ran

variable {e : Engine} {ran : Activation → Prop}

/-- Engines have sound machines after any history. -/
theorem History.sound (h : e.History ran) : ∃ owners, e.machine.Sound ran owners := by
  induction h with
  | @begins e h =>
    refine ⟨[], ?_, fun r code scope hr => ?_⟩
    · rw [h.records]
      rfl
    · exact absurd (ObjectClass.eq_of_shape hr) (h.object r code scope)
  | @task e e' ran fuel t _ ht hend ih =>
    obtain ⟨owners, he⟩ := ih
    replace he : e.machine.Sound (fun A => ran A ∨ t.Enters fuel e A) owners :=
      he.mono fun _ => .inl
    rcases Task.after_perform hend with ⟨-, rfl⟩ | ⟨w, hw, hafter⟩
    · exact ⟨owners, he⟩
    · have hran (A : Activation) (hA : w.Enters fuel A) : ran A ∨ t.Enters fuel e A :=
        .inr ⟨w, hw, hA⟩
      exact (ht.ready he hw hran).after hran hafter
  | takeOutput _ ih =>
    obtain ⟨owners, he⟩ := ih
    exact ⟨owners, he.change he.size (fun _ _ _ hr => hr) fun A hA => ⟨hA.record, hA.arguments⟩⟩

/-- At every moment of every task, the records that a function of a script takes along are linked as
the layouts of the bodies around are: there are as many, and each one is that of the activation,
among those that the function comes from, whose body has the layout, with its number of fields.  So
whenever an activation reads or writes a variable that other bodies share, the record is there, its
field is there, and the record is that of the activation of the declaring body from which the
running function comes; if the variable is a parameter, the field has an arguments object. -/
theorem records_mirror (he : e.History ran) {t : Task} (ht : t.OfSource) (fuel : Nat) :
    (∀ n, t.Passes fuel e n → ∀ r code scope,
      (n.heap.object r).cls = .function (.script code scope) →
      ∃ c L, c.OfSource ∧ Born c (fun A => ran A ∨ t.Enters fuel e A) L code r scope ∧
        ∃ qs, n.records.Chain scope qs ∧ List.Forall₂ (Mirrors c L n.records) qs
          (c.analysis.layoutChain c.analysis.layouts.size
            (c.analysis.body code.info.id).parentLayout)) ∧
    ∀ A, t.Enters fuel e A → ∃ c L, c.OfSource ∧
      Lineage c (fun A => ran A ∨ t.Enters fuel e A) (A :: L) ∧
      ∀ event ∈ A.events, ∀ x address, event.storage? = some x → x.address? = some address →
        ∃ v B q, Finds c (A :: L) x address event.state v B q := by
  obtain ⟨owners, hsound⟩ := he.sound
  replace hsound : e.machine.Sound (fun A => ran A ∨ t.Enters fuel e A) owners :=
    hsound.mono fun _ => .inl
  have hran {w : Work} (hw : t.work? e = some w) (A : Activation) (hA : w.Enters fuel A) :
      ran A ∨ t.Enters fuel e A := .inr ⟨w, hw, hA⟩
  refine ⟨fun n hn r code scope hr => ?_, fun A hA => ?_⟩
  · rcases hn with rfl | ⟨w, hw, hn⟩
    · exact hsound.mirrors hr
    · obtain ⟨owners', hn⟩ := hn.sound (ht.ready hsound hw (hran hw)) (hran hw)
      exact hn.mirrors hr
  · obtain ⟨w, hw, hA⟩ := hA
    obtain ⟨c, L, hc, hlineage, hfits⟩ := hA.fits (ht.ready hsound hw (hran hw)) (hran hw)
    exact ⟨c, L, hc, hlineage, fun event hevent => (hfits event hevent).finds⟩

/-- The code and the records of a function of a script. -/
def closure? : ObjectClass → Option (FunctionCode × Option RecordRef)
  | .function (.script code scope) => some (code, scope)
  | _ => none

theorem eq_of_closure? {cls : ObjectClass} {code : FunctionCode} {scope : Option RecordRef}
    (h : closure? cls = some (code, scope)) : cls = .function (.script code scope) := by
  unfold closure? at h
  split at h
  · cases h
    rfl
  · cases h

theorem records_mirror_closure : ∃ v e' code, History (ofConfig .standard) (fun _ => False) ∧
    (Task.eval "function f(a) \x7b return function () \x7b return a; \x7d; \x7d f(1)();").OfSource ∧
    (Task.eval "function f(a) \x7b return function () \x7b return a; \x7d; \x7d f(1)();").perform 4
      (ofConfig .standard) = .ok v e' ∧
    (e'.machine.heap.object 37).cls = .function (.script code (some 0)) ∧
    ∃ c L l rest, c.OfSource ∧ c.analysis.layoutChain c.analysis.layouts.size
      (c.analysis.body code.info.id).parentLayout = l :: rest ∧
        Mirrors c L e'.machine.records 0 l := by
  have hruns : ((Task.eval
      "function f(a) \x7b return function () \x7b return a; \x7d; \x7d f(1)();").perform 4
      (ofConfig .standard)).passes (fun _ e => (closure? (e.machine.heap.object 37).cls).any
        (·.2 == some 0)) = true := by decide +kernel
  have hbegins : History (ofConfig .standard) fun _ => False := .begins (fresh_ofConfig _)
  obtain ⟨v, e', hend, hclosure⟩ := Ending.exists_of_passes hruns
  obtain ⟨closure, hobject, hscope⟩ := (Option.any_eq_true _ _).mp hclosure
  obtain ⟨code, scope⟩ := closure
  obtain rfl : scope = some 0 := beq_iff_eq.mp hscope
  replace hobject := eq_of_closure? hobject
  obtain ⟨hmirrors, -⟩ := records_mirror hbegins (show Task.OfSource (.eval _) from trivial) 4
  obtain ⟨c, L, hc, -, qs, hchain, hforall⟩ :=
    hmirrors _ (Task.passes_end (congrArg Ending.state? hend)) 37 code (some 0) hobject
  cases hchain with
  | some h =>
    generalize hlayouts : c.analysis.layoutChain c.analysis.layouts.size
      (c.analysis.body code.info.id).parentLayout = layouts at hforall
    cases hforall with
    | cons hq _ =>
      exact ⟨v, e', code, hbegins, trivial, hend, hobject, c, L, _, _, hc, hlayouts, hq⟩

end Engine

end ScriptEngine
