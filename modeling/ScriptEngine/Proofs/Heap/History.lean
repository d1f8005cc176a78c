import Mathlib.Data.List.Basic
import Mathlib.Data.List.TakeWhile
import Std.Data.HashMap.Lemmas
import ScriptEngine.Heap.Object

/-!
# Histories of named properties

The named properties of an object are what its history makes them.  A key has the value that it was
given last, unless it was deleted since, and it stands where it was created: a key that is written
again keeps its place, and a key that is deleted and written again moves to the end.

A key also keeps its flag when it is written, so the flag is that of the last definition since the
key was created, and set where there was none.

## Main definitions

* `PropertyChange` : a change of an own property.
* `lifetime` : the changes of a key since it was last deleted.
* `valueAfter`, `flagAfter`, `keysAfter` : what a history says about the properties.
* `PropertyMap.Follows` : the properties are what a history says.
* `IndexedProperties` : properties kept as a list of keys and a table.

## Main statements

* `PropertyMap.Follows.change` : one change.
* `IndexedProperties.Shows.change` : list and table change alike.
* `Object.properties_follow_history` : the named properties after any changes.
-/

namespace ScriptEngine

/-! ### Maps of properties -/

namespace PropertyMap

variable {key other : String} {change : PropertyEntry → PropertyEntry} {fresh : PropertyEntry}

theorem keys_upsert (hchange : ∀ e, (change e).key = e.key) (hfresh : fresh.key = key)
    (l : List PropertyEntry) :
    (upsert key change fresh l).map (·.key) =
      if key ∈ l.map (·.key) then l.map (·.key) else l.map (·.key) ++ [key] := by
  induction l with
  | nil => simp [upsert, hfresh]
  | cons e rest ih =>
    unfold upsert
    by_cases he : e.key = key
    · simp [he, hchange]
    · have hne : key ≠ e.key := fun h => he h.symm
      simp only [beq_iff_eq, he, if_false, List.map_cons, ih, List.mem_cons, hne, false_or]
      split <;> rfl

theorem find?_upsert_self (hchange : ∀ e, (change e).key = e.key) (hfresh : fresh.key = key)
    (l : List PropertyEntry) :
    (upsert key change fresh l).find? (·.key == key) =
      some (((l.find? (·.key == key)).map change).getD fresh) := by
  induction l with
  | nil => simp [upsert, hfresh]
  | cons e rest ih =>
    unfold upsert
    by_cases he : e.key = key
    · simp [he, hchange]
    · simp [he, ih]

theorem find?_upsert_of_ne (hchange : ∀ e, (change e).key = e.key) (hfresh : fresh.key = key)
    (h : other ≠ key) (l : List PropertyEntry) :
    (upsert key change fresh l).find? (·.key == other) = l.find? (·.key == other) := by
  induction l with
  | nil => simp [upsert, hfresh, h.symm]
  | cons e rest ih =>
    unfold upsert
    by_cases he : e.key = key
    · simp [he, hchange, h.symm]
    · simp only [beq_iff_eq, he, if_false, List.find?_cons, ih]

variable (m : PropertyMap)

theorem mem_keys : key ∈ m.keys ↔ (m.get? key).isSome = true := by
  simp [keys, get?, List.find?_isSome]

theorem contains_eq : m.contains key = (m.get? key).isSome := by
  rw [contains, get?, ← List.isSome_find?]

theorem key_of_get? {e : PropertyEntry} (h : m.get? key = some e) : e.key = key := by
  simpa using List.find?_some h

/-- In a map without repeated keys an entry is found under its key. -/
theorem get?_of_mem (hm : m.keys.Nodup) {e : PropertyEntry} (he : e ∈ m.entries) :
    m.get? e.key = some e := by
  obtain ⟨entries⟩ := m
  unfold get? keys at *
  dsimp only at *
  induction entries with
  | nil => cases he
  | cons d rest ih =>
    obtain ⟨hd, hrest⟩ := List.nodup_cons.mp hm
    rcases List.mem_cons.mp he with rfl | he
    · simp
    · have hne : d.key ≠ e.key := fun h => hd (List.mem_map.mpr ⟨e, he, h.symm⟩)
      simpa [hne] using ih hrest he

theorem keys_put (v : Value) :
    (m.put key v).keys = if key ∈ m.keys then m.keys else m.keys ++ [key] :=
  keys_upsert (by intro e; rfl) (by rfl) m.entries

theorem keys_define (v : Value) (enumerable : Bool) :
    (m.define key v enumerable).keys = if key ∈ m.keys then m.keys else m.keys ++ [key] :=
  keys_upsert (by intro e; rfl) (by rfl) m.entries

theorem keys_erase : (m.erase key).keys = m.keys.filter (· != key) := by
  simp [keys, erase, List.filter_map, Function.comp_def]

theorem get?_put_self (v : Value) :
    (m.put key v).get? key =
    some (((m.get? key).map ({ · with value := v })).getD ⟨key, v, true⟩) :=
  find?_upsert_self (by intro e; rfl) (by rfl) m.entries

theorem get?_put_of_ne (h : other ≠ key) (v : Value) : (m.put key v).get? other = m.get? other :=
  find?_upsert_of_ne (by intro e; rfl) (by rfl) h m.entries

theorem get?_define_self (v : Value) (enumerable : Bool) :
    (m.define key v enumerable).get? key = some ⟨key, v, enumerable⟩ := by
  have hfound : (m.define key v enumerable).get? key =
      some (((m.get? key).map ({ · with value := v, enumerable })).getD ⟨key, v, enumerable⟩) :=
    find?_upsert_self (by intro e; rfl) (by rfl) m.entries
  cases h : m.get? key with
  | none => simpa [h] using hfound
  | some e => simpa [h, m.key_of_get? h] using hfound

theorem get?_define_of_ne (h : other ≠ key) (v : Value) (enumerable : Bool) :
    (m.define key v enumerable).get? other = m.get? other :=
  find?_upsert_of_ne (by intro e; rfl) (by rfl) h m.entries

theorem get?_erase_self : (m.erase key).get? key = none := by
  simp [get?, erase]

theorem get?_erase_of_ne (h : other ≠ key) : (m.erase key).get? other = m.get? other := by
  unfold get? erase
  rw [List.find?_filter]
  refine congrArg (List.find? · m.entries) (funext fun e => ?_)
  by_cases he : e.key = other <;> simp [he, h]

end PropertyMap

/-! ### Changes -/

/-- A change of an own property. -/
inductive PropertyChange where
  | put (key : String) (value : Value)
  | define (key : String) (value : Value) (enumerable : Bool)
  | delete (key : String)

namespace PropertyChange

/-- The key that a change is about. -/
def key : PropertyChange → String
  | .put key _ => key
  | .define key .. => key
  | .delete key => key

/-- Whether a change deletes its key. -/
def isDeletion : PropertyChange → Bool
  | .delete _ => true
  | _ => false

/-- The value that a change gives its key. -/
def value? : PropertyChange → Option Value
  | .put _ value => some value
  | .define _ value _ => some value
  | .delete _ => none

/-- The flag that a change sets. -/
def flag? : PropertyChange → Option Bool
  | .define _ _ enumerable => some enumerable
  | _ => none

/-- The change of an object. -/
def apply (o : Object) : PropertyChange → Object
  | .put key value => o.putOwn key value
  | .define key value enumerable => o.defineOwn key value enumerable
  | .delete key => o.deleteOwn key

/-- The change of named properties. -/
def applyNamed (m : PropertyMap) : PropertyChange → PropertyMap
  | .put key value => m.put key value
  | .define key value enumerable => m.define key value enumerable
  | .delete key => m.erase key

variable {m : PropertyMap} {k : String}

theorem keys_applyNamed (c : PropertyChange) :
    (c.applyNamed m).keys =
      if c.isDeletion then m.keys.filter (· != c.key)
      else if c.key ∈ m.keys then m.keys else m.keys ++ [c.key] := by
  cases c with
  | put key value => exact m.keys_put value
  | define key value enumerable => exact m.keys_define value enumerable
  | delete key => exact m.keys_erase

theorem get?_applyNamed_of_ne {c : PropertyChange} (h : k ≠ c.key) :
    (c.applyNamed m).get? k = m.get? k := by
  cases c with
  | put key value => exact m.get?_put_of_ne h value
  | define key value enumerable => exact m.get?_define_of_ne h value enumerable
  | delete key => exact m.get?_erase_of_ne h

theorem nodup_applyNamed (h : m.keys.Nodup) (c : PropertyChange) : (c.applyNamed m).keys.Nodup := by
  rw [keys_applyNamed]
  split
  · exact h.sublist List.filter_sublist
  · split
    · exact h
    · next hk => simpa [List.nodup_append, h] using fun k hk' heq => hk (by rwa [← heq])

/-- A change leaves the other keys in their order. -/
theorem keys_applyNamed_others (c : PropertyChange) :
    (c.applyNamed m).keys.filter (· != c.key) = m.keys.filter (· != c.key) := by
  rw [keys_applyNamed]
  split
  · simp
  · split
    · rfl
    · simp

end PropertyChange

/-! ### What a history says -/

/-- The changes of a key since it was last deleted, the latest one first. -/
def lifetime (key : String) (history : List PropertyChange) : List PropertyChange :=
  (history.reverse.filter (·.key == key)).takeWhile (!·.isDeletion)

/-- The value that a key was given last, unless it was deleted since. -/
def valueAfter (key : String) (history : List PropertyChange) : Option Value :=
  (lifetime key history).head?.bind (·.value?)

/-- The flag that was set last since the key was created; without a definition it is set. -/
def flagAfter (key : String) (history : List PropertyChange) : Bool :=
  ((lifetime key history).findSome? (·.flag?)).getD true

/-- The keys that changes create and that are not deleted later, in the order of these changes.  A
change creates its key if the history before it leaves no value for the key. -/
def createdAfter (before : List PropertyChange) : List PropertyChange → List String
  | [] => []
  | c :: after =>
    let later := createdAfter (before ++ [c]) after
    if !c.isDeletion && (valueAfter c.key before).isNone &&
        after.all fun d => !(d.isDeletion && d.key == c.key)
    then c.key :: later else later

/-- The keys that are there after a history, in the order of their latest creation. -/
def keysAfter (history : List PropertyChange) : List String :=
  createdAfter [] history

section

variable {k : String} {history : List PropertyChange} {c : PropertyChange}

theorem lifetime_concat_of_ne (h : k ≠ c.key) :
    lifetime k (history ++ [c]) = lifetime k history := by
  simp [lifetime, h.symm]

theorem lifetime_concat_self :
    lifetime c.key (history ++ [c]) =
      if c.isDeletion then [] else c :: lifetime c.key history := by
  cases h : c.isDeletion <;> simp [lifetime, h]

theorem isDeletion_of_mem_lifetime (h : c ∈ lifetime k history) : c.isDeletion = false := by
  simpa using List.mem_takeWhile_imp h

/-- A key without a value has not been changed since it was last deleted. -/
theorem lifetime_eq_nil (h : valueAfter k history = none) : lifetime k history = [] := by
  unfold valueAfter at h
  cases hl : lifetime k history with
  | nil => rfl
  | cons d rest =>
    have hd : d.isDeletion = false := isDeletion_of_mem_lifetime (hl ▸ List.mem_cons_self)
    rw [hl] at h
    cases d with
    | put key v => cases h
    | define key v enumerable => cases h
    | delete key => cases hd

theorem createdAfter_concat (before after : List PropertyChange) :
    createdAfter before (after ++ [c]) =
      if c.isDeletion then (createdAfter before after).filter (· != c.key)
      else if (valueAfter c.key (before ++ after)).isNone then createdAfter before after ++ [c.key]
      else createdAfter before after := by
  induction after generalizing before with
  | nil => cases h : c.isDeletion <;> simp [createdAfter, h]
  | cons d rest ih =>
    rw [List.cons_append, createdAfter, createdAfter, ih]
    simp only [List.append_assoc, List.singleton_append, List.all_append, List.all_cons,
      List.all_nil, Bool.and_true]
    cases hc : c.isDeletion with
    | false =>
      simp only [Bool.false_and, Bool.not_false, Bool.and_true, Bool.false_eq_true, if_false]
      split <;> split <;> rfl
    | true =>
      simp only [Bool.true_and, if_true]
      by_cases hk : c.key = d.key
      · simp only [hk, beq_self_eq_true, Bool.not_true, Bool.and_false,
          Bool.false_eq_true, if_false]
        split <;> simp
      · have hkd : (d.key != c.key) = true := by simpa using fun h => hk h.symm
        simp only [beq_eq_false_iff_ne.mpr hk, Bool.not_false, Bool.and_true]
        split
        · rw [List.filter_cons, if_pos hkd]
        · rfl

theorem keysAfter_concat :
    keysAfter (history ++ [c]) =
      if c.isDeletion then (keysAfter history).filter (· != c.key)
      else if (valueAfter c.key history).isNone then keysAfter history ++ [c.key]
      else keysAfter history :=
  createdAfter_concat [] history

end

/-- Named properties are what a history says. -/
structure PropertyMap.Follows (history : List PropertyChange) (m : PropertyMap) : Prop where
  value : ∀ k, (m.get? k).map (·.value) = valueAfter k history
  flag : ∀ k, ∀ e ∈ m.get? k, e.enumerable = flagAfter k history
  keys : m.keys = keysAfter history
  nodup : m.keys.Nodup

namespace PropertyMap.Follows

variable {history : List PropertyChange} {m : PropertyMap}

theorem empty : Follows [] .empty where
  value _ := rfl
  flag _ e he := by cases he
  keys := rfl
  nodup := List.nodup_nil

theorem isSome_valueAfter (h : m.Follows history) (k : String) :
    (valueAfter k history).isSome = true ↔ k ∈ m.keys := by
  rw [← h.value k, Option.isSome_map, m.mem_keys]

theorem isNone_valueAfter (h : m.Follows history) (k : String) :
    (valueAfter k history).isNone = true ↔ k ∉ m.keys := by
  rw [← h.isSome_valueAfter k]
  cases valueAfter k history <;> simp

/-- One change of named properties. -/
theorem change (h : m.Follows history) (c : PropertyChange) :
    (c.applyNamed m).Follows (history ++ [c]) where
  value k := by
    by_cases hk : k = c.key
    · subst hk
      rw [valueAfter, lifetime_concat_self]
      cases c with
      | put key v =>
        rw [PropertyChange.applyNamed, PropertyChange.key, m.get?_put_self v]
        cases m.get? key <;> rfl
      | define key v enumerable =>
        rw [PropertyChange.applyNamed, PropertyChange.key, m.get?_define_self v enumerable]
        rfl
      | delete key =>
        rw [PropertyChange.applyNamed, PropertyChange.key, m.get?_erase_self]
        rfl
    · rw [PropertyChange.get?_applyNamed_of_ne hk, valueAfter, lifetime_concat_of_ne hk]
      exact h.value k
  flag k e he := by
    by_cases hk : k = c.key
    · subst hk
      rw [flagAfter, lifetime_concat_self]
      cases c with
      | put key v =>
        rw [PropertyChange.applyNamed, PropertyChange.key, m.get?_put_self v] at he
        cases hget : m.get? key with
        | none =>
          -- a key that is not there has had no change since its last deletion
          have hlife : lifetime key history = [] :=
            lifetime_eq_nil (by rw [← h.value key, hget, Option.map_none])
          rw [hget] at he
          cases he
          simp [PropertyChange.isDeletion, PropertyChange.key, hlife, PropertyChange.flag?]
        | some d =>
          rw [hget] at he
          cases he
          exact h.flag key d hget
      | define key v enumerable =>
        rw [PropertyChange.applyNamed, PropertyChange.key, m.get?_define_self v enumerable] at he
        cases he
        rfl
      | delete key =>
        rw [PropertyChange.applyNamed, PropertyChange.key, m.get?_erase_self] at he
        cases he
    · rw [PropertyChange.get?_applyNamed_of_ne hk] at he
      rw [flagAfter, lifetime_concat_of_ne hk]
      exact h.flag k e he
  keys := by
    rw [c.keys_applyNamed, keysAfter_concat, ← h.keys]
    split
    · rfl
    · by_cases hk : c.key ∈ m.keys
      · rw [if_pos hk, if_neg fun hn => (h.isNone_valueAfter _).mp hn hk]
      · rw [if_neg hk, if_pos ((h.isNone_valueAfter _).mpr hk)]
  nodup := PropertyChange.nodup_applyNamed h.nodup c

theorem changes (h : m.Follows history) (cs : List PropertyChange) :
    (cs.foldl PropertyChange.applyNamed m).Follows (history ++ cs) := by
  induction cs generalizing m history with
  | nil => simpa using h
  | cons c rest ih => simpa using ih (h.change c)

end PropertyMap.Follows

/-! ### Properties with a table -/

/-- Named properties as a list of keys in order, and a table with the value and the flag of each
key.  The two are changed one after the other, and the listing skips keys that are not in the
table. -/
structure IndexedProperties where
  order : List String
  table : Std.HashMap String (Value × Bool)

namespace IndexedProperties

/-- No properties. -/
def empty : IndexedProperties := ⟨[], ∅⟩

/-- Puts a value and a flag into the table; a key that was not there is appended to the list. -/
def insert (p : IndexedProperties) (key : String) (value : Value) (enumerable : Bool) :
    IndexedProperties :=
  ⟨if p.table.contains key then p.order else p.order ++ [key],
    p.table.insert key (value, enumerable)⟩

/-- Changes the value of a key in the table; a key that is not there is inserted. -/
def setValue (p : IndexedProperties) (key : String) (value : Value) : IndexedProperties :=
  match p.table[key]? with
  | some (_, enumerable) => { p with table := p.table.insert key (value, enumerable) }
  | none => p.insert key value true

/-- Removes a key from the table, and from the list if it was in the table. -/
def remove (p : IndexedProperties) (key : String) : IndexedProperties :=
  if p.table.contains key then ⟨p.order.filter (· != key), p.table.erase key⟩ else p

/-- A change of the properties. -/
def change (p : IndexedProperties) : PropertyChange → IndexedProperties
  | .put key value => p.setValue key value
  | .define key value enumerable => p.insert key value enumerable
  | .delete key => p.remove key

/-- The keys of the list that are in the table, with what the table says. -/
def listing (p : IndexedProperties) : List PropertyEntry :=
  p.order.filterMap fun key => (p.table[key]?).map fun x => ⟨key, x.1, x.2⟩

/-- List and table show the same properties as a map. -/
structure Shows (p : IndexedProperties) (m : PropertyMap) : Prop where
  order : p.order = m.keys
  table : ∀ key : String, p.table[key]? = (m.get? key).map fun e => (e.value, e.enumerable)

namespace Shows

variable {p : IndexedProperties} {m : PropertyMap}

theorem empty : Shows .empty .empty where
  order := rfl
  table key := by
    rw [IndexedProperties.empty, Std.HashMap.getElem?_empty]
    rfl

theorem contains (h : p.Shows m) (key : String) : p.table.contains key = true ↔ key ∈ m.keys := by
  rw [Std.HashMap.contains_eq_isSome_getElem?, h.table, Option.isSome_map, m.mem_keys]

theorem insert (h : p.Shows m) (key : String) (value : Value) (enumerable : Bool) :
    (p.insert key value enumerable).Shows (m.define key value enumerable) where
  order := by
    unfold IndexedProperties.insert
    rw [m.keys_define, h.order]
    simp only [h.contains key]
  table k := by
    unfold IndexedProperties.insert
    rw [Std.HashMap.getElem?_insert]
    by_cases hk : k = key
    · subst hk
      rw [m.get?_define_self]
      simp
    · rw [m.get?_define_of_ne hk, h.table]
      simp [beq_eq_false_iff_ne.mpr (Ne.symm hk)]

theorem setValue (h : p.Shows m) (key : String) (value : Value) :
    (p.setValue key value).Shows (m.put key value) := by
  unfold IndexedProperties.setValue
  have htable := h.table key
  cases hget : m.get? key with
  | none =>
    rw [hget, Option.map_none] at htable
    rw [htable]
    obtain ⟨horder, hentries⟩ := h.insert key value true
    refine ⟨horder.trans ((m.keys_define value true).trans (m.keys_put value).symm), fun k => ?_⟩
    rw [hentries k]
    by_cases hk : k = key
    · subst hk
      rw [m.get?_define_self, m.get?_put_self, hget]
      rfl
    · rw [m.get?_define_of_ne hk, m.get?_put_of_ne hk]
  | some e =>
    rw [hget, Option.map_some] at htable
    rw [htable]
    refine ⟨?_, fun k => ?_⟩
    · rw [m.keys_put, if_pos (m.mem_keys.mpr (by rw [hget]; rfl))]
      exact h.order
    · rw [Std.HashMap.getElem?_insert]
      by_cases hk : k = key
      · subst hk
        rw [m.get?_put_self, hget]
        simp
      · rw [m.get?_put_of_ne hk, h.table]
        simp [beq_eq_false_iff_ne.mpr (Ne.symm hk)]

theorem remove (h : p.Shows m) (key : String) : (p.remove key).Shows (m.erase key) := by
  unfold IndexedProperties.remove
  split
  · refine ⟨?_, fun k => ?_⟩
    · rw [m.keys_erase, ← h.order]
    · rw [Std.HashMap.getElem?_erase]
      by_cases hk : k = key
      · subst hk
        rw [m.get?_erase_self]
        simp
      · rw [m.get?_erase_of_ne hk, h.table]
        simp [beq_eq_false_iff_ne.mpr (Ne.symm hk)]
  · next hkey =>
    have hkey : key ∉ m.keys := fun hmem => hkey ((h.contains key).mpr hmem)
    refine ⟨?_, fun k => ?_⟩
    · rw [m.keys_erase, h.order, List.filter_eq_self.mpr]
      exact fun k hk => bne_iff_ne.mpr fun heq => hkey (heq ▸ hk)
    · by_cases hk : k = key
      · subst hk
        rw [m.get?_erase_self, h.table, Option.not_isSome_iff_eq_none.mp (mt m.mem_keys.mpr hkey)]
      · rw [m.get?_erase_of_ne hk, h.table]

/-- List and table change alike. -/
theorem change (h : p.Shows m) (c : PropertyChange) : (p.change c).Shows (c.applyNamed m) := by
  cases c with
  | put key value => exact h.setValue key value
  | define key value enumerable => exact h.insert key value enumerable
  | delete key => exact h.remove key

theorem changes (h : p.Shows m) (cs : List PropertyChange) :
    (cs.foldl IndexedProperties.change p).Shows (cs.foldl PropertyChange.applyNamed m) := by
  induction cs generalizing p m with
  | nil => exact h
  | cons c rest ih => exact ih (h.change c)

/-- The listing skips no key. -/
theorem listing (h : p.Shows m) (hm : m.keys.Nodup) : p.listing = m.entries := by
  unfold IndexedProperties.listing
  rw [h.order, PropertyMap.keys, List.filterMap_map]
  have hall : ∀ e ∈ m.entries,
      ((fun key => (p.table[key]?).map fun x => PropertyEntry.mk key x.1 x.2) ∘ (·.key))
        e = some e :=
    fun e he => by
      rw [Function.comp_apply, h.table, m.get?_of_mem hm he]
      rfl
  rw [List.filterMap_congr hall, List.filterMap_some]

end Shows

end IndexedProperties

/-! ### Objects -/

/-- A class whose objects have named properties only. -/
def ObjectClass.HasNamesOnly : ObjectClass → Prop
  | .array _ | .arguments .. | .string _ => False
  | _ => True

namespace Object

variable {o : Object}

theorem getOwn?_of_namesOnly (h : o.cls.HasNamesOnly) (key : String) :
    o.getOwn? key = (o.properties.get? key).map (·.value) := by
  obtain ⟨cls, prototype, properties⟩ := o
  cases cls with
  | array | arguments | string => exact h.elim
  | _ => rfl

theorem hasOwn_of_namesOnly (h : o.cls.HasNamesOnly) (key : String) :
    o.hasOwn key = o.properties.contains key := by
  obtain ⟨cls, prototype, properties⟩ := o
  cases cls with
  | array | arguments | string => exact h.elim
  | _ => simp [hasOwn, hasElement, hasLength]

theorem ownKeys_of_namesOnly (h : o.cls.HasNamesOnly) (enumerableOnly : Bool) :
    o.ownKeys enumerableOnly =
      (o.properties.entries.filter fun e => e.enumerable || !enumerableOnly).map (·.key) := by
  obtain ⟨cls, prototype, properties⟩ := o
  cases cls with
  | array | arguments | string => exact h.elim
  | _ => rfl

theorem ownKeys_false (o : Object) :
    o.ownKeys false = (List.range o.elementCount).map Nat.repr ++ o.properties.keys := by
  rw [ownKeys, PropertyMap.keys, List.filter_eq_self.mpr]
  exact fun e _ => Bool.or_true _

theorem ownKeys_false_of_namesOnly (h : o.cls.HasNamesOnly) :
    o.ownKeys false = o.properties.keys := by
  rw [ownKeys_false]
  obtain ⟨cls, prototype, properties⟩ := o
  cases cls with
  | array | arguments | string => exact h.elim
  | _ => rfl

theorem apply_of_namesOnly (h : o.cls.HasNamesOnly) (c : PropertyChange) :
    c.apply o = { o with properties := c.applyNamed o.properties } := by
  obtain ⟨cls, prototype, properties⟩ := o
  cases c with
  | define key value enumerable => rfl
  | put key value =>
    cases cls with
    | array | arguments | string => exact h.elim
    | _ => rfl
  | delete key =>
    cases cls with
    | array | arguments | string => exact h.elim
    | _ => rfl

theorem changes_of_namesOnly (h : o.cls.HasNamesOnly) (cs : List PropertyChange) :
    cs.foldl PropertyChange.apply o =
      { o with properties := cs.foldl PropertyChange.applyNamed o.properties } := by
  induction cs generalizing o with
  | nil => rfl
  | cons c rest ih =>
    have hc := ih (o := { o with properties := c.applyNamed o.properties }) h
    rw [List.foldl_cons, List.foldl_cons, apply_of_namesOnly h]
    exact hc

/-- What the named properties of an object are after a history, and what one more change does to
them. -/
structure NamesFollow (history : List PropertyChange) (o : Object) : Prop where
  /-- A key has the value that it was given last since it was last deleted. -/
  value : ∀ key, o.getOwn? key = valueAfter key history
  /-- The keys stand in the order of their latest creation, each once. -/
  keys : o.ownKeys false = keysAfter history
  nodup : (o.ownKeys false).Nodup
  present : ∀ key, key ∈ o.ownKeys false ↔ ∃ v, valueAfter key history = some v
  /-- Loops visit the keys whose flag is set. -/
  flag : ∀ key ∈ o.ownKeys false, o.isOwnEnumerable key = flagAfter key history
  enumerable : o.ownKeys true = (o.ownKeys false).filter (flagAfter · history)
  /-- A key that is written again keeps its place and one that is new comes last; a deletion takes a
  key out. -/
  write : ∀ c : PropertyChange, c.isDeletion = false →
    (c.apply o).ownKeys false =
      if c.key ∈ o.ownKeys false then o.ownKeys false else o.ownKeys false ++ [c.key]
  delete : ∀ key, (o.deleteOwn key).ownKeys false = (o.ownKeys false).filter (· != key)
  /-- A change of one key leaves the others alone. -/
  others : ∀ c : PropertyChange, ∀ key, key ≠ c.key →
    (c.apply o).getOwn? key = o.getOwn? key ∧
      (c.apply o).isOwnEnumerable key = o.isOwnEnumerable key
  order : ∀ c : PropertyChange,
    ((c.apply o).ownKeys false).filter (· != c.key) = (o.ownKeys false).filter (· != c.key)

theorem namesFollow {history : List PropertyChange} (h : o.cls.HasNamesOnly)
    (hm : o.properties.Follows history) : NamesFollow history o := by
  have hcls (c : PropertyChange) : (c.apply o).cls.HasNamesOnly := by
    rw [apply_of_namesOnly h]
    exact h
  have hkeys := ownKeys_false_of_namesOnly h
  have hafter (c : PropertyChange) :
      (c.apply o).ownKeys false = (c.applyNamed o.properties).keys := by
    rw [ownKeys_false_of_namesOnly (hcls c), apply_of_namesOnly h]
  exact
  { value := fun key => by rw [getOwn?_of_namesOnly h, hm.value]
    keys := hkeys.trans hm.keys
    nodup := hkeys ▸ hm.nodup
    present := fun key => by rw [hkeys, ← hm.isSome_valueAfter, Option.isSome_iff_exists]
    flag := fun key hkey => by
      rw [hkeys, o.properties.mem_keys] at hkey
      obtain ⟨e, he⟩ := Option.isSome_iff_exists.mp hkey
      rw [isOwnEnumerable, he]
      exact hm.flag key e he
    enumerable := by
      rw [hkeys, ownKeys_of_namesOnly h, PropertyMap.keys, List.filter_map]
      refine congrArg _ (List.filter_congr fun e he => ?_)
      rw [Bool.not_true, Bool.or_false]
      exact hm.flag _ e (o.properties.get?_of_mem hm.nodup he)
    write := fun c hc => by rw [hafter, hkeys, c.keys_applyNamed, hc]; rfl
    delete := fun key => by
      rw [hkeys]
      exact (hafter (.delete key)).trans o.properties.keys_erase
    others := fun c key hkey => by
      have hget := PropertyChange.get?_applyNamed_of_ne (m := o.properties) hkey
      refine ⟨?_, ?_⟩
      · rw [getOwn?_of_namesOnly (hcls c), getOwn?_of_namesOnly h, apply_of_namesOnly h, hget]
      · unfold isOwnEnumerable
        rw [hasOwn_of_namesOnly (hcls c), hasOwn_of_namesOnly h, apply_of_namesOnly h]
        rw [PropertyMap.contains_eq, PropertyMap.contains_eq, hget]
    order := fun c => by rw [hafter, hkeys, c.keys_applyNamed_others] }

/-- The named properties of an object of a class without elements are those of an insertion-ordered
map, after any changes.  Kept as a list of keys and a table they are the same, so that both have the
same keys at any time and none is skipped. -/
theorem properties_follow_history (cls : ObjectClass) (prototype : Option Ref)
    (h : cls.HasNamesOnly) (history : List PropertyChange) :
    let o := history.foldl PropertyChange.apply (Object.plain cls prototype)
    let p := history.foldl IndexedProperties.change .empty
    NamesFollow history o ∧
      (p.order = o.ownKeys false ∧ p.order.Nodup ∧
        (∀ key, key ∈ p.order ↔ p.table.contains key = true) ∧
        p.listing = o.properties.entries) := by
  intro o p
  have ho : o = { Object.plain cls prototype with
      properties := history.foldl PropertyChange.applyNamed .empty
        } := changes_of_namesOnly h history
  have hcls : o.cls.HasNamesOnly := by
    rw [ho]
    exact h
  have hm : o.properties.Follows history := by
    rw [ho]
    exact PropertyMap.Follows.empty.changes history
  have hp : p.Shows o.properties := by
    rw [ho]
    exact IndexedProperties.Shows.empty.changes history
  have hkeys := ownKeys_false_of_namesOnly hcls
  refine ⟨namesFollow hcls hm, hp.order.trans hkeys.symm, ?_, fun key => ?_, hp.listing hm.nodup⟩
  · rw [hp.order]
    exact hm.nodup
  · rw [hp.order, hp.contains]

/-- A key that is deleted and written again moves to the end, with its flag set. -/
theorem properties_follow_history_rewritten :
    let history : List PropertyChange :=
      [.define "a" .null false, .put "b" .null, .put "a" .undefined, .delete "b", .delete "a",
        .put "b" .null, .put "a" .null]
    let o := history.foldl PropertyChange.apply (Object.plain .ordinary none)
    ObjectClass.HasNamesOnly .ordinary ∧ NamesFollow history o ∧
      (o.ownKeys true = ["b", "a"] ∧ o.isOwnEnumerable "a" = true) := by
  intro history o
  exact ⟨trivial, (properties_follow_history .ordinary none trivial history).1, by decide⟩

end Object

end ScriptEngine
