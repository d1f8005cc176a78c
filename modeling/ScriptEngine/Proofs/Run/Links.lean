import ScriptEngine.Proofs.Run.Calling

/-!
# Prototypes while computations run

What the machine does without calls gives no object another prototype.  So a computation gives none
if its calls do not, and of two calls that it makes one comes first: what this one leaves behind is
the past of the other.

## Main definitions

* `MachineRelation.since` : machines whose heap came from a given one, related to themselves.
* `Run.Follows` : a call that is made after another one ended.

## Main statements

* `Run.Regular.links` : a regular computation gives no object another prototype.
* `Run.Regular.links_of_makes` : up to a call, and from its end on, none has another prototype.
* `Run.Regular.ordered` : of two calls one comes first.
-/

namespace ScriptEngine

variable {α β : Type}

/-- Machines whose heap has the objects of a given one, with their prototypes; related to
themselves. -/
def MachineRelation.since (h : Heap) : MachineRelation where
  code := Eq
  rel m n := m = n ∧ h.KeepsLinks m.heap
  code_name := @FunctionCode.name_congr
  heap := by
    rintro m _ ⟨rfl, -⟩
    exact .refl _
  depth h := congrArg Machine.depth h.1
  limit h := congrArg Machine.limit h.1
  withHeap := by
    rintro m _ h k ⟨rfl, hm⟩ hadvance
    obtain rfl := hadvance.similar.eq
    exact ⟨rfl, hm.trans hadvance.left.links⟩
  withOutput := by
    rintro m _ ⟨rfl, hm⟩ text
    exact ⟨rfl, hm⟩

namespace Run

/-- A call ends, and a machine came from what it leaves behind. -/
def Follows (call : Caller) (c : Call) (m : Machine) : Prop :=
  ∃ n, (c.ending call).state? = some n ∧ n.heap.KeepsLinks m.heap

theorem Follows.trans {call : Caller} {c : Call} {m n : Machine} (h : Follows call c m)
    (hmn : m.heap.KeepsLinks n.heap) : Follows call c n := by
  obtain ⟨p, hp, hl⟩ := h
  exact ⟨p, hp, hl.trans hmn⟩

/-- The calls that a computation makes give no object another prototype. -/
def LinkedCalls (x : Caller → Run α) (call : Caller) (m : Machine) : Prop :=
  ∀ c, Makes x call m c → ∀ n, (c.ending call).state? = some n → c.machine.heap.KeepsLinks n.heap

section Bind

variable {x : Caller → Run α} {f : Caller → α → Run β} {call : Caller} {m n : Machine} {a : α}

theorem LinkedCalls.first (h : LinkedCalls (fun call => x call >>= f call) call m) :
    LinkedCalls x call m :=
  fun c hc => h c hc.first

theorem LinkedCalls.rest (h : LinkedCalls (fun call => x call >>= f call) call m)
    (hx : DependsOnCalls x) (ha : x call m = .ok a n) : LinkedCalls (f · a) call n :=
  fun c hc => h c (hc.rest hx ha)

end Bind

namespace Regular

variable {x : Caller → Run α} {call : Caller} {m : Machine}

/-- The calls agree with themselves on machines that came from a heap. -/
theorem agree_since (hcalls : LinkedCalls x call m) (h : Heap) (f this : Value)
    (arguments : List Value) (p q : Machine) (hmade : Makes x call m ⟨f, this, arguments, p⟩)
    (hpq : (MachineRelation.since h).rel p q) :
    (call f this arguments p).Agree (MachineRelation.since h).rel
    (sameResult (MachineRelation.since h).rel) (call f this arguments q) := by
  obtain ⟨rfl, hp⟩ := hpq
  have hlinks := hcalls _ hmade
  simp only [Call.ending] at hlinks
  cases hend : call f this arguments p with
  | ok a n => exact .ok ⟨rfl, rfl, hp.trans (hlinks n (congrArg Ending.state? hend))⟩
  | error e n => exact .error ⟨rfl, hp.trans (hlinks n (congrArg Ending.state? hend))⟩
  | exhausted => exact .exhausted

/-- A regular computation gives no object another prototype if its calls do not. -/
theorem links (hx : Regular x) (hcalls : LinkedCalls x call m) {n : Machine}
    (h : (x call m).state? = some n) : m.heap.KeepsLinks n.heap := by
  have hagree := hx.agree (agree_since hcalls m.heap) ⟨rfl, .refl _⟩
  generalize x call m = p at h hagree
  cases hagree with
  | ok hQ =>
    cases h
    exact hQ.2.2
  | error hE =>
    cases h
    exact hE.2
  | exhausted => cases h

/-- Up to a call that it makes, a regular computation gives no object another prototype. -/
theorem links_of_makes (hx : Regular x) (hcalls : LinkedCalls x call m) {c : Call}
    (h : Makes x call m c) :
    m.heap.KeepsLinks c.machine.heap := by
  obtain ⟨q, rfl, hc⟩ := hx.related_of_makes h (agree_since hcalls m.heap) ⟨rfl, .refl _⟩
  exact hc

/-- The end of a computation comes after that of each call that it makes. -/
theorem follows_end (hx : Regular x) (hcalls : LinkedCalls x call m) {c : Call}
    (hc : Makes x call m c) {n : Machine} (h : (x call m).state? = some n) : Follows call c n := by
  induction hx generalizing m n with
  | steady same => exact absurd (fun _ _ => rfl) (hc.not_fixed _)
  | call f this arguments =>
    obtain rfl := makes_call.mp hc
    exact ⟨n, h, .refl _⟩
  | @bind _ _ x f hx hf ihx ihf =>
    cases hxm : x call m with
    | ok a p =>
      replace h := (congrArg Ending.state? (bind_of_ok hxm)).symm.trans h
      have hrest := hcalls.rest hx.dependsOnCalls hxm
      rcases hc.of_bind hx.dependsOnCalls with hc | ⟨a', p', hxm', hc⟩
      · exact (ihx hcalls.first hc (congrArg Ending.state? hxm)).trans ((hf a).links hrest h)
      · cases hxm.symm.trans hxm'
        exact ihf a hrest hc h
    | error e p =>
      replace h := (congrArg Ending.state? (bind_of_error hxm)).symm.trans h
      rcases hc.of_bind hx.dependsOnCalls with hc | ⟨a', p', hxm', hc⟩
      · exact ihx hcalls.first hc ((congrArg Ending.state? hxm).trans h)
      · cases hxm.symm.trans hxm'
    | exhausted =>
      cases (congrArg Ending.state? (bind_of_exhausted hxm)).symm.trans h

/-- Of two calls that a computation makes one ends before the other. -/
theorem ordered (hx : Regular x) (hcalls : LinkedCalls x call m) {c d : Call}
    (hc : Makes x call m c) (hd : Makes x call m d) :
    c = d ∨ Follows call c d.machine ∨ Follows call d c.machine := by
  induction hx generalizing m with
  | steady same => exact absurd (fun _ _ => rfl) (hc.not_fixed _)
  | call f this arguments => exact .inl ((makes_call.mp hc).trans (makes_call.mp hd).symm)
  | @bind _ _ x f hx hf ihx ihf =>
    -- A call of the first part ends before each call of the second part.
    have hbefore {c d : Call} (hc : Makes x call m c) {a p} (hxm : x call m = .ok a p)
        (hd : Makes (f · a) call p d) : Follows call c d.machine :=
      (hx.follows_end hcalls.first hc (congrArg Ending.state? hxm)).trans
        ((hf a).links_of_makes (hcalls.rest hx.dependsOnCalls hxm) hd)
    rcases hc.of_bind hx.dependsOnCalls with hc | ⟨a, p, hxm, hc⟩
    · rcases hd.of_bind hx.dependsOnCalls with hd | ⟨a, p, hxm, hd⟩
      · exact ihx hcalls.first hc hd
      · exact .inr (.inl (hbefore hc hxm hd))
    · rcases hd.of_bind hx.dependsOnCalls with hd | ⟨a', p', hxm', hd⟩
      · exact .inr (.inr (hbefore hd hxm hc))
      · cases hxm.symm.trans hxm'
        exact ihf a (hcalls.rest hx.dependsOnCalls hxm) hc hd

end Regular

end Run

end ScriptEngine
