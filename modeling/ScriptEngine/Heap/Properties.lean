import ScriptEngine.Value

/-!
# Named properties

The named properties of an object, in the order in which they were created.

## Main definitions

* `PropertyEntry` : a key with its value and whether loops visit it.
* `PropertyMap` : the properties of an object.
* `PropertyMap.define`, `PropertyMap.put`, `PropertyMap.erase` : the changes.
-/

namespace ScriptEngine

/-- A named property. -/
structure PropertyEntry where
  key : String
  value : Value
  enumerable : Bool
deriving Repr, Inhabited

/-- Named properties in the order of their creation. -/
structure PropertyMap where
  entries : List PropertyEntry
deriving Repr, Inhabited

namespace PropertyMap

/-- No properties. -/
def empty : PropertyMap := ⟨[]⟩

/-- The property with a key. -/
def get? (m : PropertyMap) (key : String) : Option PropertyEntry :=
  m.entries.find? (·.key == key)

/-- Whether there is a property with a key. -/
def contains (m : PropertyMap) (key : String) : Bool :=
  m.entries.any (·.key == key)

/-- The keys in the order of creation. -/
def keys (m : PropertyMap) : List String :=
  m.entries.map (·.key)

/-- Changes the property with a key where it stands, or appends a new one. -/
def upsert (key : String) (change : PropertyEntry → PropertyEntry) (fresh : PropertyEntry) :
    List PropertyEntry → List PropertyEntry
  | [] => [fresh]
  | e :: rest => if e.key == key then change e :: rest else e :: upsert key change fresh rest

/-- Gives a key a value and a flag.  A key that is there keeps its place. -/
def define (m : PropertyMap) (key : String) (value : Value) (enumerable : Bool) : PropertyMap :=
  ⟨upsert key (fun e => { e with value, enumerable }) ⟨key, value, enumerable⟩ m.entries⟩

/-- Gives a key a value.  A key that is there keeps its place and flag; a new one is enumerable. -/
def put (m : PropertyMap) (key : String) (value : Value) : PropertyMap :=
  ⟨upsert key (fun e => { e with value }) ⟨key, value, true⟩ m.entries⟩

/-- Removes a key. -/
def erase (m : PropertyMap) (key : String) : PropertyMap :=
  ⟨m.entries.filter (·.key != key)⟩

end PropertyMap

end ScriptEngine
