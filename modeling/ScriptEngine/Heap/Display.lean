import ScriptEngine.Heap.Basic
import ScriptEngine.Text.Quoted

/-!
# Texts of values

How values are shown to a reader.  No script runs for that, unlike the conversion to a string.

## Main definitions

* `Heap.display` : the text of a value on a console.
* `Heap.inspect` : a text that also tells the type of a value.
-/

namespace ScriptEngine.Heap

/-- The text of an element of an array that is shown. -/
def displayElement : Value → String
  | .undefined | .null => ""
  | .object _ => "[object]"
  | v => v.primitiveToText

/-- The text of an error with the given name and message, `text` being that of a value. -/
def displayError (text : Value → String) (name message : Value) : String :=
  match name, message with
  | .undefined, .undefined => "Error"
  | .undefined, m => "Error: " ++ text m
  | n, .undefined => text n
  | n, .string "" => text n
  | n, m => text n ++ ": " ++ text m

/-- The text of a value; the names and messages of errors may be errors again, `fuel` deep. -/
def displayWithin (h : Heap) : Nat → Value → String
  | 0, _ => ""
  | fuel + 1, .object r =>
    let o := h.object r
    match o.cls with
    | .function _ => "[Function]"
    | .array elements => ",".intercalate (elements.toList.map displayElement)
    | .error => displayError (h.displayWithin fuel) (h.get r "name") (h.get r "message")
    | cls => "[object " ++ cls.name ++ "]"
  | _ + 1, v => v.primitiveToText

/-- The text of a value on a console. -/
def display (h : Heap) (v : Value) : String :=
  h.displayWithin (h.size + 1) v

/-- The text of a value together with its type. -/
def inspect (h : Heap) : Value → String
  | .undefined => "JsValue::Undefined"
  | .null => "JsValue::Null"
  | .boolean b => "JsValue::Boolean(" ++ (if b then "true" else "false") ++ ")"
  | .number x => "JsValue::Number(" ++ inspectText x ++ ")"
  | .string s => "JsValue::String(" ++ Text.quoted s ++ ")"
  | .object r => "JsValue::Object(" ++ h.display (.object r) ++ ")"

end ScriptEngine.Heap
