import Mathlib.Data.List.Nodup
import ScriptEngine.Run.Evaluate

/-!
# Loops over keys

Each key of a chain of objects belongs to the first object that lists it.  A loop over the keys of
an object goes through those that are enumerable where they belong, in the order of the chain and
then in that of the object.  It takes the keys at its start: what its body adds is not visited, and
what its body removes is passed over when its turn comes.

## Main definitions

* `Heap.owner?` : the object that a key belongs to.
* `Heap.keyRank` : the place of a key along a chain.
* `KeyTurn` : the turn of a key in a loop.
* `KeyTurns` : the turns that a loop takes, one after the other.

## Main statements

* `Heap.mem_enumerate`, `Heap.pairwise_enumerate` : the keys at the start of a loop, and their
  order.
* `KeyTurns.assigned_sublist` : the keys that are assigned are some of these, in order.
* `StatementCode.forIn_visits` : which keys a loop assigns.
-/

namespace ScriptEngine

/-! ### The keys of a chain -/

namespace Heap

/-- Whether an object lists a key. -/
def lists (h : Heap) (r : Ref) (key : String) : Bool :=
  ((h.object r).ownKeys false).contains key

/-- The first object of a chain that lists a key. -/
def owner? (h : Heap) (chain : List Ref) (key : String) : Option Ref :=
  chain.find? (h.lists · key)

/-- The place of a key: that of its object in the chain, and then that among the keys of this
object. -/
def keyRank (h : Heap) (chain : List Ref) (key : String) : Nat × Nat :=
  (chain.findIdx (h.lists · key),
    ((h.owner? chain key).elim [] fun q => (h.object q).ownKeys false).idxOf key)

/-- One key stands before another one. -/
def KeyBefore (h : Heap) (chain : List Ref) (a b : String) : Prop :=
  Prod.Lex (· < ·) (· < ·) (h.keyRank chain a) (h.keyRank chain b)

variable {h : Heap} {key : String} {seen : List String}

theorem lists_iff {r : Ref} : h.lists r key = true ↔ key ∈ (h.object r).ownKeys false := by
  simp [lists]

theorem mem_freshKeys {keys : List String} :
    key ∈ (freshKeys seen keys).1 ↔ key ∈ keys ∧ key ∉ seen := by
  induction keys generalizing seen with
  | nil => simp [freshKeys]
  | cons k rest ih =>
    unfold freshKeys
    split
    · next hk =>
      rw [ih, List.mem_cons]
      have hk : k ∈ seen := by simpa using hk
      refine and_congr_left fun hkey => ?_
      have hne : key ≠ k := fun heq => hkey (heq ▸ hk)
      simp [hne]
    · next hk =>
      have hk : k ∉ seen := by simpa using hk
      simp only [List.mem_cons, ih, not_or]
      by_cases hkey : key = k
      · simp [hkey, hk]
      · simp [hkey]

theorem mem_seen_freshKeys {keys : List String} :
    key ∈ (freshKeys seen keys).2 ↔ key ∈ seen ∨ key ∈ keys := by
  induction keys generalizing seen with
  | nil => simp [freshKeys]
  | cons k rest ih =>
    unfold freshKeys
    split
    · next hk =>
      have hk : k ∈ seen := by simpa using hk
      rw [ih, List.mem_cons]
      by_cases hkey : key = k
      · simp [hkey, hk]
      · simp [hkey]
    · rw [ih]
      simp only [List.mem_cons]
      tauto

/-- The keys of one object stand in its order. -/
theorem pairwise_freshKeys (keys : List String) :
    (freshKeys seen keys).1.Pairwise fun a b => keys.idxOf a < keys.idxOf b := by
  have hlater {k : String} {rest l : List String}
      (hl : l.Pairwise fun a b => rest.idxOf a < rest.idxOf b)
      (hk : k ∉ l) : l.Pairwise fun a b => (k :: rest).idxOf a < (k :: rest).idxOf b := by
    refine hl.imp_of_mem fun {a b} ha hb hlt => ?_
    have hne {c : String} (hc : c ∈ l) : k ≠ c := fun heq => hk (heq ▸ hc)
    rw [List.idxOf_cons_ne _ (hne ha), List.idxOf_cons_ne _ (hne hb)]
    exact Nat.succ_lt_succ hlt
  induction keys generalizing seen with
  | nil => exact .nil
  | cons k rest ih =>
    unfold freshKeys
    split
    · next hk => exact hlater ih fun hmem => (mem_freshKeys.mp hmem).2 (by simpa using hk)
    · have hfree : k ∉ (freshKeys (k :: seen) rest).1 := fun hmem =>
        (mem_freshKeys.mp hmem).2 List.mem_cons_self
      refine List.pairwise_cons.mpr ⟨fun b hb => ?_, hlater ih hfree⟩
      have hne : k ≠ b := fun heq => hfree (heq ▸ hb)
      rw [List.idxOf_cons_self, List.idxOf_cons_ne _ hne]
      exact Nat.succ_pos _

/-- Along a chain the keys that were not met before count where they belong. -/
theorem mem_enumerateFrom {chain : List Ref} :
    key ∈ h.enumerateFrom seen chain ↔
      key ∉ seen ∧ ∃ q, h.owner? chain key = some q ∧ (h.object q).isOwnEnumerable key = true := by
  induction chain generalizing seen with
  | nil => simp [enumerateFrom, owner?]
  | cons r rest ih =>
    unfold enumerateFrom owner?
    simp only [List.mem_append, List.mem_filter, mem_freshKeys, ih, mem_seen_freshKeys,
      List.find?_cons]
    by_cases hr : key ∈ (h.object r).ownKeys false
    · simp [lists_iff.mpr hr, hr]
    · have hlists : h.lists r key = false := Bool.eq_false_iff.mpr fun hl => hr (lists_iff.mp hl)
      simp [hlists, hr, owner?]

theorem pairwise_enumerateFrom (chain : List Ref) :
    (h.enumerateFrom seen chain).Pairwise (h.KeyBefore chain) := by
  induction chain generalizing seen with
  | nil => exact .nil
  | cons r rest ih =>
    -- a key of the first object stands there, and any other key one object later than in the rest
    have hhead {k : String} (hk : k ∈ (h.object r).ownKeys false) :
        h.keyRank (r :: rest) k = (0, ((h.object r).ownKeys false).idxOf k) := by
      have hlists := lists_iff.mpr hk
      simp [keyRank, owner?, List.findIdx_cons, hlists]
    have htail {k : String} (hk : k ∉ (h.object r).ownKeys false) :
        h.keyRank (r :: rest) k = ((h.keyRank rest k).1 + 1, (h.keyRank rest k).2) := by
      have hlists : h.lists r k = false := Bool.eq_false_iff.mpr fun hl => hk (lists_iff.mp hl)
      simp [keyRank, owner?, List.findIdx_cons, hlists]
    have hfresh {k : String}
        (hk : k ∈ h.enumerateFrom (freshKeys seen ((h.object r).ownKeys false)).2 rest) :
        k ∉ (h.object r).ownKeys false := fun hmem =>
      (mem_enumerateFrom.mp hk).1 (mem_seen_freshKeys.mpr (.inr hmem))
    unfold enumerateFrom
    refine List.pairwise_append.mpr ⟨?_, ?_, fun a ha b hb => ?_⟩
    · refine ((pairwise_freshKeys _).imp_of_mem fun ha hb hlt => ?_).filter _
      rw [KeyBefore, hhead (mem_freshKeys.mp ha).1, hhead (mem_freshKeys.mp hb).1]
      exact .right _ hlt
    · refine ih.imp_of_mem fun ha hb hlt => ?_
      rw [KeyBefore, htail (hfresh ha), htail (hfresh hb)]
      unfold KeyBefore at hlt
      rw [Prod.lex_def] at hlt ⊢
      exact hlt.imp Nat.succ_lt_succ fun hlt => ⟨congrArg Nat.succ hlt.1, hlt.2⟩
    · rw [KeyBefore, hhead (mem_freshKeys.mp (List.mem_of_mem_filter ha)).1, htail (hfresh hb)]
      exact .left _ _ (Nat.succ_pos _)

/-- A loop over an object visits the keys that are enumerable where they belong. -/
theorem mem_enumerate {r : Ref} : key ∈ h.enumerate r ↔
    ∃ q, h.owner? (h.chain r) key = some q ∧ (h.object q).isOwnEnumerable key = true := by
  rw [enumerate, mem_enumerateFrom]
  simp

/-- The keys stand in the order of the chain, and then in that of their object. -/
theorem pairwise_enumerate (r : Ref) : (h.enumerate r).Pairwise (h.KeyBefore (h.chain r)) :=
  pairwise_enumerateFrom _

theorem nodup_enumerate (r : Ref) : (h.enumerate r).Nodup := by
  refine (pairwise_enumerate r).imp fun {a b} hlt heq => ?_
  subst heq
  rw [KeyBefore, Prod.lex_def] at hlt
  omega

end Heap

/-! ### The turns of a loop -/

/-- The turn of a key in a loop, with the state at the time. -/
inductive KeyTurn where
  /-- The object does not have the key any more. -/
  | passedOver (key : String) (state : RunState)
  /-- The key is assigned, and the body runs. -/
  | assigned (key : String) (state : RunState)

namespace KeyTurn

/-- The key whose turn it is. -/
def key : KeyTurn → String
  | .passedOver key _ => key
  | .assigned key _ => key

/-- The key that is assigned in a turn. -/
def assigned? : KeyTurn → Option String
  | .passedOver .. => none
  | .assigned key _ => some key

end KeyTurn

/-- What a loop does with a key that is there. -/
def keyRound (assign : Value → Act Unit) (body : Act Completion) (target : TargetId)
    (key : String) :
    Act (Option Completion) := do
  assign (.string key)
  return (← body).afterBody target

/-- A loop over keys of an object takes turns.  It goes on from the state that a turn leaves behind,
until the body leaves it or something fails. -/
inductive KeyTurns (r : Ref) (assign : Value → Act Unit) (body : Act Completion)
    (target : TargetId) :
    List String → RunState → List KeyTurn → Ending RunState RuntimeError (Option Completion) → Prop
  | done {s : RunState} : KeyTurns r assign body target [] s [] (.ok none s)
  | gone {key : String} {keys : List String} {s : RunState} {turns : List KeyTurn}
      {e : Ending RunState RuntimeError (Option Completion)}
      (hgone : s.machine.heap.hasProperty r key = false)
      (rest : KeyTurns r assign body target keys s turns e) :
      KeyTurns r assign body target (key :: keys) s (.passedOver key s :: turns) e
  | goesOn {key : String} {keys : List String} {s t : RunState} {turns : List KeyTurn}
      {e : Ending RunState RuntimeError (Option Completion)}
      (hthere : s.machine.heap.hasProperty r key = true)
      (hround : keyRound assign body target key s = .ok none t)
      (rest : KeyTurns r assign body target keys t turns e) :
      KeyTurns r assign body target (key :: keys) s (.assigned key s :: turns) e
  | ends {key : String} {keys : List String} {s : RunState}
      {e : Ending RunState RuntimeError (Option Completion)}
      (hthere : s.machine.heap.hasProperty r key = true)
      (hround : keyRound assign body target key s = e) (hleft : ∀ t, e ≠ .ok none t) :
      KeyTurns r assign body target (key :: keys) s [.assigned key s] e

namespace KeyTurns

variable {r : Ref} {assign : Value → Act Unit} {body : Act Completion} {target : TargetId}
  {keys : List String} {s : RunState} {turns : List KeyTurn}
  {e : Ending RunState RuntimeError (Option Completion)}

/-- A loop takes the turns of its keys. -/
theorem exists_turns (r : Ref) (assign : Value → Act Unit) (body : Act Completion)
    (target : TargetId) (keys : List String) (s : RunState) :
    ∃ turns, KeyTurns r assign body target keys s turns
      (Exec.firstResult (fun key => visitKey r key assign body target) keys s) := by
  induction keys generalizing s with
  | nil => exact ⟨[], .done⟩
  | cons key rest ih =>
    unfold Exec.firstResult
    have hvisit : visitKey r key assign body target s =
        if s.machine.heap.hasProperty r key then keyRound assign body target key s
          else .ok none s := by
      change (if s.machine.heap.hasProperty r key = true then _ else _ : Act _) s = _
      split <;> rfl
    rw [hvisit]
    cases hkey : s.machine.heap.hasProperty r key with
    | false =>
      obtain ⟨turns, h⟩ := ih s
      exact ⟨_, .gone hkey h⟩
    | true =>
      rw [if_pos rfl]
      cases hround : keyRound assign body target key s with
      | ok c t =>
        cases c with
        | none =>
          obtain ⟨turns, h⟩ := ih t
          exact ⟨_, .goesOn hkey hround h⟩
        | some c => exact ⟨_, .ends hkey hround fun _ => nofun⟩
      | error e t => exact ⟨_, .ends hkey hround fun _ => nofun⟩
      | exhausted => exact ⟨_, .ends hkey hround fun _ => nofun⟩

/-- The keys get their turns in order. -/
theorem prefix_keys (h : KeyTurns r assign body target keys s turns e) :
    turns.map KeyTurn.key <+: keys := by
  induction h with
  | done => exact List.nil_prefix
  | gone _ _ ih => exact List.cons_prefix_cons.mpr ⟨rfl, ih⟩
  | goesOn _ _ _ ih => exact List.cons_prefix_cons.mpr ⟨rfl, ih⟩
  | ends => exact List.cons_prefix_cons.mpr ⟨rfl, List.nil_prefix⟩

/-- Each key gets its turn unless the loop is left before. -/
theorem map_key (h : KeyTurns r assign body target keys s turns e) {t : RunState}
    (he : e = .ok none t) :
    turns.map KeyTurn.key = keys := by
  induction h with
  | done => rfl
  | gone _ _ ih => exact congrArg _ (ih he)
  | goesOn _ _ _ ih => exact congrArg _ (ih he)
  | ends _ _ hleft => exact absurd he (hleft t)

/-- The keys that are assigned are some of the keys, in order. -/
theorem assigned_sublist (h : KeyTurns r assign body target keys s turns e) :
    (turns.filterMap KeyTurn.assigned?).Sublist keys := by
  induction h with
  | done => exact .slnil
  | gone _ _ ih => exact .cons _ ih
  | goesOn _ _ _ ih => exact .cons_cons _ ih
  | ends => exact .cons_cons _ (List.nil_sublist _)

/-- A key is assigned if the object has it at its turn. -/
theorem hasProperty_of_assigned (h : KeyTurns r assign body target keys s turns e) {key : String}
    {t : RunState} (ht : .assigned key t ∈ turns) : t.machine.heap.hasProperty r key = true := by
  induction h with
  | done => cases ht
  | gone _ _ ih =>
    rcases List.mem_cons.mp ht with ht | ht
    · cases ht
    · exact ih ht
  | goesOn hthere _ _ ih =>
    rcases List.mem_cons.mp ht with ht | ht
    · cases ht
      exact hthere
    · exact ih ht
  | ends hthere =>
    cases List.mem_singleton.mp ht
    exact hthere

/-- A key is passed over if the object does not have it at its turn. -/
theorem hasProperty_of_passedOver (h : KeyTurns r assign body target keys s turns e) {key : String}
    {t : RunState} (ht : .passedOver key t ∈ turns) : t.machine.heap.hasProperty r key = false := by
  induction h with
  | done => cases ht
  | gone hgone _ ih =>
    rcases List.mem_cons.mp ht with ht | ht
    · cases ht
      exact hgone
    · exact ih ht
  | goesOn _ _ _ ih =>
    rcases List.mem_cons.mp ht with ht | ht
    · cases ht
    · exact ih ht
  | ends => cases List.mem_singleton.mp ht

end KeyTurns

/-! ### Loops -/

/-- How a loop ends after its turns: in the normal way, unless its body left it in another one. -/
def loopEnding : Ending RunState RuntimeError (Option Completion) →
    Ending RunState RuntimeError Completion
  | .ok c s => .ok (c.getD .normal) s
  | .error e s => .error e s
  | .exhausted => .exhausted

/-- A loop over the keys that an object has in a state. -/
structure KeyLoop (r : Ref) (assign : Value → Act Unit) (body : Act Completion) (target : TargetId)
    (s : RunState) (turns : List KeyTurn) (e : Ending RunState RuntimeError (Option Completion)) :
    Prop where
  run : KeyTurns r assign body target (s.machine.heap.enumerate r) s turns e
  /-- The keys that are assigned are among those at the start, in their order and each once. -/
  sublist : (turns.filterMap KeyTurn.assigned?).Sublist (s.machine.heap.enumerate r)
  nodup : (turns.filterMap KeyTurn.assigned?).Nodup
  assigned : ∀ key t, .assigned key t ∈ turns → t.machine.heap.hasProperty r key = true
  /-- A key is not assigned if the object does not have it at its turn, or if the loop is left
  before. -/
  skipped : ∀ key ∈ s.machine.heap.enumerate r, (key ∉ turns.filterMap KeyTurn.assigned? ↔
    (∃ t, .passedOver key t ∈ turns ∧ t.machine.heap.hasProperty r key = false) ∨
      ((∀ turn ∈ turns, turn.key ≠ key) ∧ ∀ t, e ≠ .ok none t))
  /-- The keys at the start are those that are enumerable in the first object that lists them, -/
  keys : ∀ key, key ∈ s.machine.heap.enumerate r ↔
    ∃ q, s.machine.heap.owner? (s.machine.heap.chain r) key = some q ∧
      (s.machine.heap.object q).isOwnEnumerable key = true
  /-- in the order of these objects, and then in their order of keys. -/
  order : (s.machine.heap.enumerate r).Pairwise (s.machine.heap.KeyBefore (s.machine.heap.chain r))

theorem KeyTurns.loop {r : Ref} {assign : Value → Act Unit} {body : Act Completion}
    {target : TargetId} {s : RunState} {turns : List KeyTurn}
    {e : Ending RunState RuntimeError (Option Completion)}
    (h : KeyTurns r assign body target (s.machine.heap.enumerate r) s turns e) :
    KeyLoop r assign body target s turns e where
  run := h
  sublist := h.assigned_sublist
  nodup := h.assigned_sublist.nodup (Heap.nodup_enumerate r)
  assigned _ _ := h.hasProperty_of_assigned
  skipped key hkey := by
    have hnodup : (turns.map KeyTurn.key).Nodup :=
      h.prefix_keys.sublist.nodup (Heap.nodup_enumerate r)
    have hassigned : key ∈ turns.filterMap KeyTurn.assigned? ↔ ∃ t, .assigned key t ∈ turns := by
      rw [List.mem_filterMap]
      constructor
      · rintro ⟨turn, hturn, hkey⟩
        cases turn with
        | passedOver k t => cases hkey
        | assigned k t =>
          cases hkey
          exact ⟨t, hturn⟩
      · rintro ⟨t, ht⟩
        exact ⟨_, ht, rfl⟩
    rw [hassigned]
    constructor
    · intro hnot
      by_cases hturn : ∃ turn ∈ turns, turn.key = key
      · obtain ⟨turn, hturn, rfl⟩ := hturn
        cases turn with
        | passedOver k t => exact .inl ⟨t, hturn, h.hasProperty_of_passedOver hturn⟩
        | assigned k t => exact absurd ⟨t, hturn⟩ hnot
      · refine .inr ⟨fun turn hmem heq => hturn ⟨turn, hmem, heq⟩, fun t he => hturn ?_⟩
        rw [← h.map_key he] at hkey
        exact List.mem_map.mp hkey
    · rintro (⟨t, ht, -⟩ | ⟨hno, -⟩) ⟨u, hu⟩
      · -- two turns of one key are the same
        have heq := List.inj_on_of_nodup_map hnodup ht hu rfl
        cases heq
      · exact hno _ hu rfl
  keys _ := Heap.mem_enumerate
  order := Heap.pairwise_enumerate r

theorem Run.toObject_of_not_nullish {v : Value} (hv : v.isNullish = false) (m : Machine) :
    ∃ r n, Run.toObject v m = .ok (.object r) n ∧ ∀ q, v = .object q → r = q ∧ n = m := by
  cases v with
  | undefined | null => cases hv
  | object q => exact ⟨q, m, rfl, fun _ h => by cases h; exact ⟨rfl, rfl⟩⟩
  | boolean | number | string => exact ⟨_, _, rfl, nofun⟩

/-- A loop over the keys of an object assigns some of the keys that the object has at the start,
each once and in order, whatever the body does to the heap.  It leaves out just those that the
object has no more when their turn comes, and those after the turn in which the loop is left. -/
theorem StatementCode.forIn_visits (host : Host) (target : TargetId) (place : Reference)
    (object : Code .boxed) (body : StatementCode) {s t : RunState} {v : Value}
    (hobject : object.eval host s = .ok v t) (hv : v.isNullish = false) :
    ∃ r u turns e, Act.lift (Run.toObject v) t = .ok (.object r) u ∧
      (∀ q, v = .object q → r = q ∧ u = t) ∧
      KeyLoop r (fun key => do (← place.resolve host).write key) (body.exec host) target u turns e ∧
      (StatementCode.forIn target place object body).exec host s = loopEnding e := by
  obtain ⟨r, n, hr, hsame⟩ := Run.toObject_of_not_nullish hv t.machine
  have hlift : Act.lift (Run.toObject v) t = .ok (.object r) ⟨t.frame, n⟩ := by
    unfold Act.lift
    dsimp only
    rw [hr]
  obtain ⟨turns, hturns⟩ := KeyTurns.exists_turns r (fun key => do (← place.resolve host).write key)
    (body.exec host) target (n.heap.enumerate r) ⟨t.frame, n⟩
  refine ⟨r, ⟨t.frame, n⟩, turns, _, hlift, fun q hq => ?_, hturns.loop, ?_⟩
  · obtain ⟨rfl, rfl⟩ := hsame q hq
    exact ⟨rfl, rfl⟩
  · rw [StatementCode.exec]
    change Exec.andThen (object.eval host) _ s = _
    rw [Exec.andThen, hobject]
    dsimp only
    unfold forKeys
    rw [hv]
    change Exec.andThen (Act.lift (Run.toObject v)) _ t = _
    rw [Exec.andThen, hlift]
    change Exec.andThen (Exec.firstResult _ (n.heap.enumerate r)) _ (⟨t.frame, n⟩ : RunState) = _
    unfold Exec.andThen loopEnding
    cases Exec.firstResult _ (n.heap.enumerate r) (⟨t.frame, n⟩ : RunState) <;> rfl

/-- A loop over an object with two keys, whose body deletes the second one. -/
theorem StatementCode.forIn_visits_deleted :
    let o : Object := ⟨.ordinary, none, ⟨[⟨"a", .null, true⟩, ⟨"b", .null, true⟩]⟩⟩
    let s : RunState :=
      ⟨{ (default : Frame) with values := #[.undefined] },
        { heap := ⟨#[o]⟩, records := .empty, depth := 0, limit := 0, output := "" }⟩
    let host : Host := ⟨fun _ _ _ _ => .exhausted, 1⟩
    let place : Reference := .name ⟨"k", [], ⟨.slot .boxed 0, none⟩⟩
    let object : Code .boxed := .constant (.object 0)
    let body : StatementCode := .effect (.delete (.member object (.constant (.string "b"))))
    object.eval host s = .ok (.object 0) s ∧ (Value.object 0).isNullish = false ∧
      s.machine.heap.enumerate 0 = ["a", "b"] ∧
      ∃ turns e, KeyLoop 0 (fun key => do (← place.resolve host).write key) (body.exec host)
        1 s turns e ∧
        (StatementCode.forIn 1 place object body).exec host s = loopEnding e := by
  intro o s host place object body
  have hobject : object.eval host s = .ok (.object 0) s := rfl
  obtain ⟨r, u, turns, e, -, hsame, hloop, hexec⟩ :=
    StatementCode.forIn_visits host 1 place object body hobject rfl
  obtain ⟨rfl, rfl⟩ := hsame 0 rfl
  exact ⟨hobject, rfl, by decide, turns, e, hloop, hexec⟩

end ScriptEngine
