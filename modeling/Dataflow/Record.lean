/-!
# Records in documents

A record is written as members with names, in any order, or as a list of values in the declared
order. `Layout` declares the fields; `byName?` and `byPlace?` put what a document holds into one slot
per field, and fail when a field that has to be there is not.

Unknown names are passed over, a known name may occur once, and a list may be short only by fields
that have a default.
-/

namespace Dataflow

/-- What a record does without a field. -/
inductive Presence where
  /-- The field has to be there. -/
  | required
  /-- The field may be left out among named members, but not from a list. -/
  | nullable
  /-- The field has a default and may be left out. -/
  | optional
deriving DecidableEq, Repr

/-- The fields of a record, in the declared order. -/
abbrev Layout :=
  List (String × Presence)

namespace Layout

variable {β : Type}

/-- The value of a field among named members. -/
def lookup? (members : List (String × β)) (field : String × Presence) : Option (Option β) :=
  match members.filter (fun m ↦ m.1 = field.1) with
  | [] => if field.2 = .required then none else some none
  | [m] => some (some m.2)
  | _ => none

/-- The values of the fields among named members. -/
def byName? (fields : Layout) (members : List (String × β)) : Option (List (Option β)) :=
  fields.mapM (lookup? members)

/-- The values of the fields in a list. -/
def byPlace? : Layout → List β → Option (List (Option β))
  | [], [] => some []
  | [], _ :: _ => none
  | field :: fields, [] =>
    if field.2 = .optional then (byPlace? fields []).map (none :: ·) else none
  | _ :: fields, b :: bs => (byPlace? fields bs).map (some b :: ·)

end Layout

end Dataflow
