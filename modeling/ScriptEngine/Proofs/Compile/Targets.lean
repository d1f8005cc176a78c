import ScriptEngine.Compile.Body
import ScriptEngine.Proofs.Script.Site
import Mathlib.Data.List.Basic
import Mathlib.Tactic.Tauto

/-!
# Targets of jumps and the statements around

The jump targets that are known at a place stand for the statements around it in the same body.  So
a jump finds its target just if it is legal there.

## Main definitions

* `Jumps.Reflects` : targets that stand for the statements around a place.
* `Jumps.InFront` : the labels in front of a place are those of statements around it that end where
  it does.

## Main statements

* `Jumps.Reflects.enter`, `Jumps.Reflects.label` : the places inside of a statement.
* `Jumps.Reflects.exists_breakTarget_iff`, `Jumps.Reflects.exists_continueTarget_iff` : jumps that
  find a target.
-/

namespace ScriptEngine

namespace Jumps

/-- Jump targets that stand for the statements around a place. -/
structure Reflects (j : Jumps) (around : List Stmt) : Prop where
  taken : ∀ l, j.isTaken l = true ↔ ∃ s ∈ around, s.label? = some l
  loop : (∃ u ∈ j.targets, u.kind = .loop) ↔ ∃ s ∈ around, s.isLoop = true
  «switch» : (∃ u ∈ j.targets, u.kind = .switch) ↔ ∃ s ∈ around, s.isSwitch = true
  kind : ∀ u ∈ j.targets, ∀ l ∈ u.labels, ∀ s ∈ around, s.label? = some l →
    (u.kind = .loop ↔ s.unlabelled.isLoop = true)

/-- The labels directly in front of a statement are labels of it. -/
structure InFront (j : Jumps) (around : List Stmt) (s : Stmt) : Prop where
  unlabelled : ∀ l ∈ j.pending, ∀ t ∈ around, t.label? = some l → t.unlabelled = s.unlabelled
  takes : j.pending ≠ [] → s.takesLabels = true

theorem InFront.of_nil {j : Jumps} (h : j.pending = []) (around : List Stmt) (s : Stmt) :
    j.InFront around s where
  unlabelled := by simp [h]
  takes hne := absurd h hne

theorem InFront.pending {j : Jumps} {around : List Stmt} {s : Stmt} (h : j.InFront around s)
    (hs : s.takesLabels = false) : j.pending = [] := by
  by_contra hne
  rw [h.takes hne] at hs
  cases hs

theorem reflects_none : Jumps.none.Reflects [] where
  taken := by simp [none, isTaken]
  loop := by simp [none]
  «switch» := by simp [none]
  kind := nofun

@[simp] theorem isTaken_enter (j : Jumps) (kind : TargetKind) (l : String) :
    (j.enter kind).isTaken l = j.isTaken l := by
  simp [isTaken, enter]

theorem eq_of_label_eq_error {j : Jumps} {l : String} {e : StaticError} (h : j.label l = .error e) :
    j.isTaken l = true ∧ e = .duplicateLabel l := by
  unfold label at h
  split at h <;> cases h
  exact ⟨‹_›, rfl⟩

theorem isTaken_of_label {j k : Jumps} {l : String} (h : j.label l = .ok k) :
    j.isTaken l = false := by
  unfold label at h
  split at h
  · cases h
  · exact Bool.eq_false_iff.mpr ‹_›

namespace Reflects

variable {j k : Jumps} {around : List Stmt} {s : Stmt}

/-- A statement that no jump may lead to, and that has no label. -/
theorem plain (h : j.Reflects around) (hlabel : s.label? = .none) (hloop : s.isLoop = false)
    (hswitch : s.isSwitch = false) : j.Reflects (s :: around) where
  taken := by simpa [hlabel] using h.taken
  loop := by simpa [hloop] using h.loop
  «switch» := by simpa [hswitch] using h.switch
  kind u hu l hl := List.forall_mem_cons.mpr ⟨by simp [hlabel], h.kind u hu l hl⟩

/-- The inside of a statement that takes the labels in front of it. -/
theorem enter (h : j.Reflects around) (hfront : j.InFront around s) (hlabel : s.label? = .none)
    {kind : TargetKind} (hloop : kind = .loop ↔ s.isLoop = true)
    (hswitch : kind = .switch ↔ s.isSwitch = true) :
    (j.enter kind).Reflects (s :: around) where
  taken := by simpa [hlabel] using h.taken
  loop := by simp only [Jumps.enter, List.exists_mem_cons_iff, hloop, h.loop]
  «switch» := by simp only [Jumps.enter, List.exists_mem_cons_iff, hswitch, h.switch]
  kind u hu l hl := by
    refine List.forall_mem_cons.mpr ⟨by simp [hlabel], fun t ht htl => ?_⟩
    rcases List.mem_cons.mp hu with rfl | hu
    · have hs : s.unlabelled = s := by cases s <;> first | rfl | cases hlabel
      rw [hfront.unlabelled l hl t ht htl, hs]
      exact hloop
    · exact h.kind u hu l hl t ht htl

/-- The inside of a loop. -/
theorem enterLoop (h : j.Reflects around) (hfront : j.InFront around s) (hloop : s.isLoop = true) :
    (j.enter .loop).Reflects (s :: around) := by
  have hs : s.label? = .none ∧ s.isSwitch = false := by
    cases s <;> first | exact ⟨rfl, rfl⟩ | cases hloop
  exact h.enter hfront hs.1 (by simp [hloop]) (by simp [hs.2])

/-- A new label in front of a statement. -/
theorem label (h : j.Reflects around) {span : Span} {label : String} {body : Stmt}
    (hfront : j.InFront around (.labeled span label body)) (hk : j.label label = .ok k) :
    k.Reflects (.labeled span label body :: around) ∧
      ∀ l ∈ k.pending, ∀ t ∈ .labeled span label body :: around, t.label? = some l →
        t.unlabelled = body.unlabelled := by
  unfold Jumps.label at hk
  split at hk
  · cases hk
  rename_i hfree
  obtain rfl := Except.ok.inj hk
  refine ⟨⟨fun l => ?_, ?_, ?_, ?_⟩, fun l hl => ?_⟩
  · have htaken := h.taken l
    simp only [isTaken, Bool.or_eq_true, List.contains_eq_mem, decide_eq_true_eq] at htaken ⊢
    have hhead : (Stmt.labeled span label body).label? = some l ↔ l = label := by
      rw [Stmt.label?, Option.some.injEq, eq_comm]
    rw [List.exists_mem_cons_iff, ← htaken, hhead, List.mem_append, List.mem_singleton]
    tauto
  · simpa [Stmt.isLoop] using h.loop
  · simpa [Stmt.isSwitch] using h.switch
  · intro u hu l hl
    refine List.forall_mem_cons.mpr ⟨fun hlabel => ?_, h.kind u hu l hl⟩
    -- a label that a target has is taken
    obtain rfl := Option.some.inj hlabel
    refine absurd ?_ hfree
    simp only [isTaken, Bool.or_eq_true, List.any_eq_true, List.contains_eq_mem, decide_eq_true_eq]
    exact .inr ⟨u, hu, hl⟩
  · refine List.forall_mem_cons.mpr ⟨fun _ => rfl, fun t ht htl => ?_⟩
    rcases List.mem_append.mp hl with hl | hl
    · exact hfront.unlabelled l hl t ht htl
    · obtain rfl := List.mem_singleton.mp hl
      exact absurd ((h.taken _).mpr ⟨t, ht, htl⟩) hfree

/-- The inside of a statement that can only be left, with all labels in front of it. -/
theorem enterLabeled (h : j.Reflects around)
    (hfront : ∀ l ∈ j.pending, ∀ t ∈ around, t.label? = some l → t.unlabelled.isLoop = false) :
    (j.enter .labeled).Reflects around where
  taken := by simpa using h.taken
  loop := by simpa [Jumps.enter] using h.loop
  «switch» := by simpa [Jumps.enter] using h.switch
  kind u hu l hl t ht htl := by
    rcases List.mem_cons.mp hu with rfl | hu
    · simp [hfront l hl t ht htl]
    · exact h.kind u hu l hl t ht htl

/-! ### Jumps that find a target -/

/-- The targets with a label stand for the statements with it. -/
theorem exists_target_iff (h : j.Reflects around) (hp : j.pending = []) (label : String) :
    (∃ u ∈ j.targets, u.labels.contains label = true) ↔ ∃ s ∈ around, s.label? = some label := by
  rw [← h.taken, isTaken, hp, List.contains_nil, Bool.false_or, List.any_eq_true]

theorem exists_breakTarget_iff (h : j.Reflects around) (hp : j.pending = []) {inProgram : Bool}
    {span : Span} (label : Option String) : (∃ t, j.breakTarget label = .ok t) ↔
      ¬ Site.IsIllegal ⟨inProgram, around, .brk span label⟩ := by
  cases label with
  | some label =>
    have htarget := h.exists_target_iff hp label
    simp only [Site.IsIllegal, Site.IsInside, not_not, ← htarget, breakTarget, labeled]
    cases hfind : j.targets.find? (·.labels.contains label) with
    | some u =>
      simpa using ⟨u, List.mem_of_find?_eq_some hfind, by simpa using List.find?_some hfind⟩
    | none => simpa using hfind
  | none =>
    have hkind (k : TargetKind) : (k != .labeled) = true ↔ k = .loop ∨ k = .switch := by
      cases k <;> decide
    simp only [Site.IsIllegal, not_not, and_or_left, exists_or, ← h.loop, ← h.switch,
      breakTarget, innermost]
    simp only [← exists_or, ← and_or_left, ← hkind]
    cases hfind : j.targets.find? fun u => u.kind != .labeled with
    | some u =>
      simpa using ⟨u, List.mem_of_find?_eq_some hfind, by simpa using List.find?_some hfind⟩
    | none => simpa using hfind

/-- What a `continue` does with the statement that it found. -/
private theorem exists_continued_iff {x : Except StaticError JumpTarget} :
    (∃ t, (x >>= fun u => if u.kind = .loop then pure u.id else throw .illegalContinue :
      Except StaticError TargetId) = .ok t) ↔ ∃ u, x = .ok u ∧ u.kind = .loop := by
  cases x with
  | error e => exact ⟨nofun, nofun⟩
  | ok u =>
    change (∃ t, (if u.kind = .loop then .ok u.id else .error .illegalContinue :
      Except StaticError TargetId) = .ok t) ↔ _
    by_cases hu : u.kind = .loop <;> simp [hu]

theorem exists_continueTarget_iff (h : j.Reflects around) (hp : j.pending = []) {inProgram : Bool}
    {span : Span} (label : Option String) : (∃ t, j.continueTarget label = .ok t) ↔
      ¬ Site.IsIllegal ⟨inProgram, around, .cont span label⟩ := by
  cases label with
  | some label =>
    refine Iff.trans (exists_continued_iff (x := j.labeled label)) ?_
    have htarget := h.exists_target_iff hp label
    simp only [Site.IsIllegal, Site.IsInside, not_or, not_not, ← htarget, labeled]
    cases hfind : j.targets.find? (·.labels.contains label) with
    | some u =>
      have hu := List.mem_of_find?_eq_some hfind
      have hl : u.labels.contains label = true := by simpa using List.find?_some hfind
      have hkind := h.kind u hu label (by simpa using hl)
      obtain ⟨s, hs, hsl⟩ := htarget.mp ⟨u, hu, hl⟩
      simp only [Except.ok.injEq, exists_eq_left', not_exists, not_and]
      constructor
      · refine fun hloop => ⟨⟨u, hu, hl⟩, fun t ht htl => ?_⟩
        simp [(hkind t ht htl).mp hloop]
      · exact fun ⟨_, hloops⟩ => (hkind s hs hsl).mpr (by simpa using hloops s hs hsl)
    | none =>
      have hnot : ¬ ∃ u ∈ j.targets, u.labels.contains label = true := by simpa using hfind
      simp only [reduceCtorEq, false_and, exists_false, hnot]
  | none =>
    refine Iff.trans (exists_continued_iff (x := j.innermost (· == .loop) .illegalContinue)) ?_
    simp only [Site.IsIllegal, not_not, ← h.loop, innermost]
    cases hfind : j.targets.find? fun u => u.kind == .loop with
    | some u =>
      have hu : u.kind = .loop := by simpa using List.find?_some hfind
      simpa [hu] using ⟨u, List.mem_of_find?_eq_some hfind, hu⟩
    | none => simpa using hfind

end Reflects

end Jumps

end ScriptEngine
