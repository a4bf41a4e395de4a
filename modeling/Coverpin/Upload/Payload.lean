import Coverpin.Upload.UploadWriter

namespace Coverpin.Upload

/-! # `upload_jobs.payload`

The payload of a job is stored as JSON and read back when the job runs.  JSON
values are modelled up to the order of object fields, which are read by name.
-/

inductive Json where
  | null
  | string (text : String)
  | number (hundredths : Nat)
  | array (items : List Json)
  | object (fields : List (String × Json))

namespace Json

def ofText? (text : Option String) : Json :=
  match text with
  | none => null
  | some text => string text

/-- The value of a field; a field that is not there has none. -/
def field : Json → String → Option Json
  | object fields, name => fields.lookup name
  | _, _ => none

def asNullable : Json → Option (Option String)
  | null => some none
  | string text => some (some text)
  | _ => none

end Json

open Json

@[simp] theorem field_cons (name other : String) (value : Json) (fields : List (String × Json)) :
    (object ((name, value) :: fields)).field other =
      if other == name then some value else (object fields).field other := by
  rw [field, List.lookup_cons, field]
  cases other == name <;> rfl

@[simp] theorem asNullable_ofText? (text : Option String) : asNullable (ofText? text) = some text := by
  cases text <;> rfl

end Coverpin.Upload
