import ScriptEngine.Proofs.Code.Trace
import ScriptEngine.Proofs.Run.Keeping

/-!
# Activations on closed machines

An activation is closed if its machine is and if its frame only has values of the machine's heap.
Reading and writing variables, finding places, making functions and entering a body keep it closed.

## Main definitions

* `Frame.Below` : frames with values of a heap.
* `RunState.Closed` : closed activations.

## Main statements

* `Storage.keeps_read`, `Storage.keeps_write` : variables.
* `Place.keeps_read`, `Place.keeps_write` : places.
* `FunctionCode.keeps_enter`, `FunctionCode.closed_begin` : entering a function or a script.
-/

namespace ScriptEngine

variable {α β : Type} {n : Nat}

/-! ### Records -/

namespace Records

theorem record_alloc (rs : Records) (fieldCount : Nat) (parent : Option RecordRef) (r : RecordRef) :
    (rs.alloc fieldCount parent).2.record r =
      if r = rs.entries.size then ⟨Array.replicate fieldCount .undefined, parent⟩
        else rs.record r := by
  simp only [record, alloc, Array.getElem?_push]
  by_cases hr : r = rs.entries.size <;> simp [hr]

/-- New fields are `undefined`. -/
theorem Closed.alloc {rs : Records} (h : rs.Closed n) (fieldCount : Nat)
    (parent : Option RecordRef) :
    (rs.alloc fieldCount parent).2.Closed n := by
  intro r i
  unfold Records.get
  rw [record_alloc]
  split
  · exact (AllBelow.replicate n fieldCount).getD i
  · exact h r i

theorem Closed.set {rs : Records} (h : rs.Closed n) (r : RecordRef) (index : Nat) {v : Value}
    (hv : v.Below n) : (rs.set r index v).Closed n := by
  intro q i
  have hold := h q i
  unfold Records.get record at hold ⊢
  unfold Records.set
  rw [Array.getElem?_modify]
  split
  · cases hq : rs.entries[q]? with
    | none => trivial
    | some x =>
      rw [hq] at hold
      simp only [Option.map_some, Option.getD_some, Array.getElem?_setIfInBounds] at hold ⊢
      split
      · split
        · exact hv
        · trivial
      · exact hold
  · exact hold

end Records

/-! ### Frames -/

/-- All values of a frame are primitive or among the first `n` objects. -/
structure Frame.Below (n : Nat) (f : Frame) : Prop where
  this : f.this.Below n
  callee : f.callee.Below n
  arguments : f.arguments.Below n
  values : AllBelow n f.values
  completion : f.completion.Below n

theorem Frame.Below.mono {f : Frame} {n k : Nat} (h : f.Below n) (hnk : n ≤ k) : f.Below k where
  this := h.this.mono hnk
  callee := h.callee.mono hnk
  arguments := h.arguments.mono hnk
  values := h.values.mono hnk
  completion := h.completion.mono hnk

theorem Frame.Below.slot {f : Frame} (h : f.Below n) (ρ : Rep) (index : Nat) :
    ρ.Below n (f.slot ρ index) := by
  cases ρ with
  | boxed => exact h.values.getD index
  | _ => trivial

theorem Frame.Below.setSlot {f : Frame} (h : f.Below n) {ρ : Rep} (index : Nat) {x : ρ.Carrier}
    (hx : ρ.Below n x) : (f.setSlot ρ index x).Below n := by
  obtain ⟨this, callee, arguments, values, completion⟩ := h
  cases ρ with
  | boxed => exact ⟨this, callee, arguments, values.set index hx, completion⟩
  | _ => exact ⟨this, callee, arguments, values, completion⟩

/-- The machine of an activation is closed, and its frame only has values of the heap. -/
structure RunState.Closed (s : RunState) : Prop where
  machine : s.machine.Closed
  frame : s.frame.Below s.machine.heap.size

instance : HasHeap RunState where
  heap s := s.machine.heap
  Closed := RunState.Closed
  closed_heap h := h.machine.heap

theorem Rep.below_ofPrimitive {ρ : Rep} {v : Value} (hv : v.Below n) :
    ρ.Below n (ρ.ofPrimitive v) := by
  cases ρ with
  | boxed => exact hv
  | _ => trivial

/-! ### Parts of activations -/

namespace Act

variable {Q : Nat → α → Prop}

/-- What keeps the machine closed keeps an activation closed. -/
theorem keeps_lift {x : Run α} (h : x.Keeps n Q) : (lift x).Keeps n Q := by
  rintro ⟨frame, m⟩ ⟨hm, hframe⟩ hn
  have hx := h hm hn
  unfold lift
  dsimp only
  generalize x m = p at hx ⊢
  cases hx with
  | ok closed links result => exact .ok ⟨closed, hframe.mono links.size_le⟩ links result
  | error closed links below => exact .error ⟨closed, hframe.mono links.size_le⟩ links below
  | exhausted => exact .exhausted

theorem keeps_onFrame {f : Frame → α}
    (h : ∀ {frame k}, n ≤ k → Frame.Below k frame → Q k (f frame)) :
    (onFrame f).Keeps n Q :=
  fun _ hs hn => .ok hs (.refl _) (h hn hs.frame)

theorem keeps_lookFrame (f : Frame → α) : (onFrame f).Keeps n Anything :=
  keeps_onFrame fun _ _ => trivial

theorem keeps_changeFrame {f : Frame → Frame}
    (h : ∀ {frame k}, n ≤ k → Frame.Below k frame → Frame.Below k (f frame)) :
    (changeFrame f).Keeps n Anything :=
  fun _ hs hn => .ok ⟨hs.machine, h hn hs.frame⟩ (.refl _) trivial

theorem keeps_onHeap {f : Heap → α}
    (h : ∀ {heap : Heap}, heap.Closed → n ≤ heap.size → Q heap.size (f heap)) :
    (onHeap f).Keeps n Q :=
  fun _ hs hn => .ok hs (.refl _) (h hs.machine.heap hn)

theorem keeps_look (f : Heap → α) : (onHeap f).Keeps n Anything :=
  keeps_onHeap fun _ _ => trivial

theorem keeps_setSlot {ρ : Rep} (index : Nat) {x : ρ.Carrier} (hx : ρ.Below n x) :
    (setSlot ρ index x).Keeps n Anything :=
  keeps_changeFrame fun hk h => h.setSlot index (hx.mono hk)

theorem keeps_record (number : Nat) : (record number).Keeps n Anything := by
  refine (keeps_lookFrame _).bind fun r _ _ _ => ?_
  cases r.join with
  | some r => exact .any r
  | none => exact .raise _ _

theorem keeps_readField (address : FieldAddress) : (readField address).Keeps n Value.Below :=
  (keeps_record _).bind fun r _ _ _ _ hs _ => .ok hs (.refl _) (hs.machine.records r address.index)

theorem keeps_writeField (address : FieldAddress) {v : Value} (hv : v.Below n) :
    (writeField address v).Keeps n Anything :=
  (keeps_record _).bind fun r _ hk _ _ hs hle =>
    .ok ⟨⟨hs.machine.heap, hs.machine.records.set r address.index (hv.mono (Nat.le_trans hk hle))⟩,
      hs.frame⟩ (.refl _) trivial

theorem keeps_argumentsObject (via : Option FieldAddress) :
    (argumentsObject via).Keeps n Value.Below := by
  cases via with
  | none => exact keeps_onFrame fun _ h => h.arguments
  | some address => exact keeps_readField address

end Act

/-! ### Variables -/

theorem Storage.keeps_read (lenient : Bool) (storage : Storage) :
    (storage.read lenient).Keeps n Value.Below := by
  cases storage with
  | global name =>
    refine (Act.keeps_look _).bind fun found _ _ _ => .ite ?_ ?_
    · exact Act.keeps_onHeap fun c _ => c.get _ name
    · exact .ite (.pure fun _ _ => trivial) (.raise _ _)
  | parameter index via =>
    exact (Act.keeps_argumentsObject via).bind fun arguments _ _ _ =>
      Act.keeps_onHeap fun c _ => c.parameter arguments index
  | slot ρ index =>
    exact Act.keeps_onFrame (f := fun f => ρ.box (f.slot ρ index)) fun _ h => h.slot ρ index
  | field address => exact Act.keeps_readField address

theorem Storage.keeps_write {v : Value} (hv : v.Below n) (storage : Storage) :
    (storage.write v).Keeps n Anything := by
  cases storage with
  | global name =>
    refine (Act.keeps_lookFrame _).bind fun strict _ hk _ =>
      (Act.keeps_look _).bind fun found _ hk' _ => ?_
    exact .ite (.raise _ _)
      (Act.keeps_lift (Run.keeps_putOwn _ name (hv.mono (Nat.le_trans hk hk'))))
  | parameter index via =>
    refine (Act.keeps_argumentsObject via).bind fun arguments _ hk _ => ?_
    refine Act.keeps_lift (Run.keeps_changeHeap fun c hle => c.setParameter arguments index ?_)
    exact hv.mono (Nat.le_trans hk hle)
  | slot ρ index => exact Act.keeps_setSlot index (Rep.below_ofPrimitive hv)
  | field address => exact Act.keeps_writeField address hv

theorem Binding.keeps_write (b : Binding) {v : Value} (hv : v.Below n) :
    (b.write v).Keeps n Anything := by
  unfold Binding.write
  split
  · exact Storage.keeps_write hv _
  · exact (Act.keeps_lookFrame _).bind fun _ _ _ _ => .ite (.raise _ _) (.any ())

theorem Binding.keeps_delete (b : Binding) : b.delete.Keeps n Anything := by
  unfold Binding.delete
  split
  · refine (Act.keeps_look _).bind fun _ _ _ _ => .ite ?_ (.any true)
    exact Act.keeps_lift (Run.keeps_deleteProperty _ _ _)
  · exact .any false

/-! ### Places -/

namespace Place

theorem keeps_read {p : Place} (hp : p.Below n) (lenient : Bool) :
    (p.read lenient).Keeps n Value.Below := by
  cases p with
  | binding name b => exact b.storage.keeps_read lenient
  | property base key => exact Act.keeps_lift (Run.keeps_getProperty hp key)

theorem keeps_write (p : Place) {v : Value} (hv : v.Below n) : (p.write v).Keeps n Anything := by
  cases p with
  | binding name b => exact b.keeps_write hv
  | property base key =>
    exact (Act.keeps_lookFrame _).bind fun strict _ hk _ =>
      Act.keeps_lift (Run.keeps_putProperty base key (hv.mono hk) strict)

theorem keeps_delete (p : Place) : p.delete.Keeps n Anything := by
  cases p with
  | binding name b => exact b.keeps_delete
  | property base key =>
    exact (Act.keeps_lookFrame _).bind fun strict _ _ _ =>
      Act.keeps_lift (Run.keeps_deleteProperty base key strict)

end Place

/-! ### Functions -/

theorem keeps_makeFunction {code : FunctionCode} (h : code.Primitive) :
    (makeFunction code).Keeps n Value.Below :=
  (Act.keeps_lookFrame _).bind fun scope _ _ _ =>
    Act.keeps_lift (Run.keeps_new fun c _ => c.newFunction h scope)

theorem keeps_keepArguments (info : FunctionInfo) : (keepArguments info).Keeps n Anything := by
  refine (Act.keeps_onFrame (Q := Value.Below) fun _ h => h.arguments).bind
    fun arguments k _ ha => ?_
  refine (Act.keeps_lookFrame _).bind fun own l hl _ => ?_
  have hslot (i : Nat) (hi : l ≤ i) : (info.slotArguments arguments).Keeps i Anything := by
    unfold FunctionInfo.slotArguments
    cases info.argumentsSlot with
    | some slot => exact Act.keeps_setSlot slot (ha.mono (Nat.le_trans hl hi))
    | none => exact .any ()
  cases info.argumentsField with
  | none => exact hslot l (Nat.le_refl l)
  | some field =>
    cases own with
    | none => exact hslot l (Nat.le_refl l)
    | some r =>
      have hset : (Act.lift fun m : Machine =>
          .ok () { m with records := m.records.set r field arguments }).Keeps l Anything :=
        Act.keeps_lift fun m hm hle =>
          .ok ⟨hm.heap, hm.records.set r field (ha.mono (Nat.le_trans hl hle))⟩
            (.refl _) trivial
      exact hset.bind fun _ i hi _ => hslot i hi

theorem keeps_declareGlobals : ∀ names : List String, (declareGlobals names).Keeps n Anything
  | [] => .any ()
  | name :: rest => by
    have hrest (k : Nat) (hk : n ≤ k) := (keeps_declareGlobals rest).weaken hk
    unfold declareGlobals
    refine (Act.keeps_look _).bind fun found k hk _ => ?_
    cases found with
    | true => exact hrest k hk
    | false =>
      have hput :=
        Act.keeps_lift (Run.keeps_putOwn (n := k) Intrinsic.global.ref name
          (v := .undefined) trivial)
      exact hput.bind fun _ _ hl _ => hrest _ (Nat.le_trans hk hl)

/-- The frame of an activation before its entry. -/
theorem Machine.Closed.enterFrame {m : Machine} (hm : m.Closed) (info : FunctionInfo)
    {this callee arguments : Value} (scope : Option RecordRef) (ht : this.Below m.heap.size)
    (hc : callee.Below m.heap.size) (ha : arguments.Below m.heap.size) :
    (m.enterFrame info this callee arguments scope).Closed := by
  have hvalues : AllBelow m.heap.size (Array.replicate info.layout.values (Rep.initial .boxed)) :=
    .replicate _ _
  unfold Machine.enterFrame
  cases info.layout.ownFields with
  | some fields =>
    exact ⟨⟨hm.heap, hm.records.alloc fields scope⟩,
      ⟨ht, hc, ha, hvalues, show Value.undefined.Below _ from trivial⟩⟩
  | none =>
    exact ⟨⟨hm.heap, hm.records⟩, ⟨ht, hc, ha, hvalues, show Value.undefined.Below _ from trivial⟩⟩

end ScriptEngine
