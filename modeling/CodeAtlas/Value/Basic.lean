import CodeAtlas.Number.Binary64
import CodeAtlas.Number.Integer

/-!
# Dynamic values

Configurations, stored payloads and request bodies are values whose shape is only known when they
are read. Fields keep the order in which they were first set.

Reading a value as something it is not fails with a `SettingError`:

* `field` looks up a key, `integer` reads a number, `truthy` reads a condition (never fails).
-/

namespace CodeAtlas

inductive Value
  | null
  | bool (b : Bool)
  | int (i : Int)
  | real (x : Binary64)
  | text (s : Text)
  | list (items : List Value)
  | dict (fields : List (Text × Value))
deriving Repr

/-- Named values in the order in which the names were first set. -/
abbrev Fields := List (Text × Value)

namespace Fields

def get? (fs : Fields) (key : Text) : Option Value := fs.lookup key

/-- Sets a key in place, or at the end if it is new. -/
def set (fs : Fields) (key : Text) (v : Value) : Fields :=
  match fs with
  | [] => [(key, v)]
  | (k, w) :: rest => if k = key then (key, v) :: rest else (k, w) :: set rest key v

def erase (fs : Fields) (key : Text) : Fields := fs.filter (·.1 != key)

@[simp] theorem get?_nil (key : Text) : get? [] key = none := rfl

theorem get?_cons (k : Text) (v : Value) (fs : Fields) (key : Text) :
    get? ((k, v) :: fs) key = if k = key then some v else get? fs key := by
  by_cases h : k = key
  · simp [get?, h]
  · have : (key == k) = false := by simpa using Ne.symm h
    simp [get?, List.lookup_cons, h, this]

/-- Looking up after setting a key. -/
theorem get?_set (fs : Fields) (key other : Text) (v : Value) :
    get? (set fs key v) other = if key = other then some v else get? fs other := by
  induction fs with
  | nil => simp [set, get?_cons]
  | cons kw rest ih =>
    obtain ⟨k, w⟩ := kw
    unfold set
    split
    · subst k
      simp only [get?_cons]
      split <;> rfl
    · rename_i hk
      simp only [get?_cons, ih]
      split
      · subst k
        split
        · simp_all
        · rfl
      · rfl

end Fields

/-- What is wrong with a setting. -/
inductive SettingError
  /-- A text that writes no integer. -/
  | numeral (text : Text)
  | nanInteger
  | infiniteInteger
  /-- A value of a kind that the operation does not take. -/
  | wrongType
  /-- A value that has no fields, or is no text, where one was asked of it. -/
  | noSuchPart
  /-- An id scheme that does not exist, as it is shown. -/
  | scheme (shown : Text)
  /-- Neither a collection name nor a project to take it from. -/
  | noCollection
deriving DecidableEq, Repr

namespace Value

/-- Whether a value counts as true. -/
def truthy : Value → Bool
  | .null => false
  | .bool b => b
  | .int i => i != 0
  | .real x => !x.isZero
  | .text s => s != ""
  | .list items => !items.isEmpty
  | .dict fields => !fields.isEmpty

/-- The value under a key, or a default if the key is missing. -/
def field (v : Value) (key : Text) (default : Value) : Except SettingError Value :=
  match v with
  | .dict fs => .ok ((Fields.get? fs key).getD default)
  | _ => .error .noSuchPart

/-- The integer that a value stands for: fractions are dropped and texts are read. -/
def integer : Value → Except SettingError Int
  | .bool b => .ok (if b then 1 else 0)
  | .int i => .ok i
  | .real x =>
    match x.truncate? with
    | some i => .ok i
    | none => .error (if x.view = .nan then .nanInteger else .infiniteInteger)
  | .text s =>
    match Integer.read? s with
    | some i => .ok i
    | none => .error (.numeral s)
  | _ => .error .wrongType

/-- What a value lists: a text lists its characters and a dictionary its keys. -/
def elements : Value → Except SettingError (List Value)
  | .list items => .ok items
  | .text s => .ok (s.toList.map fun c => .text (Text.ofList [c]))
  | .dict fs => .ok (fs.map fun f => .text f.1)
  | _ => .error .wrongType

/-- The text that a value is. -/
def text? : Value → Option Text
  | .text s => some s
  | _ => none

/-- The number that a value is, if it is a finite one. -/
def rational? : Value → Option Rat
  | .bool b => some (if b then 1 else 0)
  | .int i => some i
  | .real x => x.toRat?
  | _ => none

end Value

end CodeAtlas
