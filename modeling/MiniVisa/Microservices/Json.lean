import MiniVisa.Server.Text

/-! # JSON values as cJSON keeps them

An object is the list of its members in the order in which they were added or parsed. The
services exchange printed objects; parsing undoes printing, so a body is the value itself.
-/

namespace MiniVisa

set_option autoImplicit false

open Text

inductive Json
  | null
  | bool (value : Bool)
  | number (literal : Bytes)
  | string (value : Bytes)
  | array (items : List Json)
  | object (members : List (Bytes × Json))

namespace Json

/-- The type tag `cJSON_False`, which the clearing service passes where a boolean is expected. -/
def cJSONFalse : Int := 1

/-- The type tag `cJSON_True`. -/
def cJSONTrue : Int := 2

def createObject : Json := .object []

def addItem (object : Json) (key : String) (item : Json) : Json :=
  match object with
  | .object members => .object (members ++ [(lit key, item)])
  | other => other

def addString (object : Json) (key : String) (value : Bytes) : Json :=
  object.addItem key (.string value)

/-- `cJSON_AddBoolToObject`: any number but zero is stored as true. -/
def addBool (object : Json) (key : String) (boolean : Int) : Json :=
  object.addItem key (.bool (boolean != 0))

def addNumber (object : Json) (key : String) (number : Int) : Json :=
  object.addItem key (.number (decimal number))

/-- `cJSON_GetObjectItem`: the first member of that name, without regard to case. -/
def getObjectItem (object : Json) (key : String) : Option Json :=
  match object with
  | .object members =>
    (members.find? fun member => member.1.map tolower == (lit key).map tolower).map Prod.snd
  | _ => none

def valueString : Option Json → Option Bytes
  | some (.string value) => some value
  | _ => none

/-- `cJSON_IsBool(item) && cJSON_IsTrue(item)`. -/
def isTrue : Option Json → Bool
  | some (.bool value) => value
  | _ => false

def stringItem (object : Json) (key : String) : Option Bytes :=
  valueString (object.getObjectItem key)

theorem stringItem_cons_self (key : String) (value : Bytes) (members : List (Bytes × Json)) :
    (Json.object ((lit key, .string value) :: members)).stringItem key = some value := by
  simp [stringItem, getObjectItem, valueString]

theorem stringItem_cons_ne {name : Bytes} {key : String}
    (h : (name.map tolower == (lit key).map tolower) = false) (item : Json)
    (members : List (Bytes × Json)) :
    (Json.object ((name, item) :: members)).stringItem key =
      (Json.object members).stringItem key := by
  simp [stringItem, getObjectItem, h]

end Json

end MiniVisa
