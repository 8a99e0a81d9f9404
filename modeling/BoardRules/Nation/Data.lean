import BoardRules.Identity

/-!
# Nations in snapshots

A snapshot nests nations: the members of a nation are pieces and further nations. A piece is written
as its identity, a nation as an object. Where a nation is read, an array of its values will do.
-/

namespace BoardRules.Snapshot

/-- What a nation is, its members aside. -/
structure NationHead where
  name : String
  id : NationId
  /-- Index of a colour; negative for none. -/
  color : Int32
  /-- The player who claims the nation, empty when nobody does. -/
  monarch : String
  deriving DecidableEq, Repr

/-- A member of a nation. -/
inductive NationMember where
  | piece (id : PieceId)
  | group (head : NationHead) (members : List NationMember)
  deriving Repr

/-- A nation with everything below it. -/
structure Nation where
  head : NationHead
  members : List NationMember
  deriving Repr

namespace NationHead

/-- The object of a nation with written members. -/
def toJson (head : NationHead) (members : List Json) : Json := .ofFields
  [("name", BoardRules.toJson head.name), ("uuid", BoardRules.toJson head.id),
   ("color", BoardRules.toJson head.color), ("monarch", BoardRules.toJson head.monarch),
   ("sub", .array members)]

/-- The fields of a nation, as they are declared. -/
def fieldNames : List String := ["name", "uuid", "color", "monarch", "sub"]

/-- Read what the fields of an object say of a nation. -/
def ofFields? (fields : Fields) : Option NationHead := do
  return { name := ← fields.withDefault "name" "",
           id := ← fields.withDefault "uuid" .nil,
           color := ← fields.withDefault "color" (-1),
           monarch := ← fields.withDefault "monarch" "" }

end NationHead

namespace NationMember

mutual

/-- Write a member. -/
def toJson : NationMember → Json
  | .piece id => BoardRules.toJson id
  | .group head members => head.toJson (membersToJson members)

/-- Write members in order. -/
def membersToJson : List NationMember → List Json
  | [] => []
  | m :: rest => m.toJson :: membersToJson rest

end

mutual

/-- Read a member: a text is a piece, a finite object or array a nation, and nothing else is a
member. -/
def ofJson? : Json → Option NationMember
  | .string text => some (.piece ⟨text⟩)
  | .object fields =>
    if !Json.fieldsFinite fields then none
    else
      match NationHead.ofFields? fields, membersOfFields? fields with
      | some head, some members => some (.group head members)
      | _, _ => none
  | .array items =>
    if !Json.itemsFinite items then none
    else
      match NationHead.ofFields? (NationHead.fieldNames.zip items), membersOfRow? items with
      | some head, some members => some (.group head members)
      | _, _ => none
  | _ => none

/-- Read the members from the values of a nation in the order of their declaration; they come last,
and there are none when the values end before them. -/
def membersOfRow? : List Json → Option (List NationMember)
  | [] | [_] | [_, _] | [_, _, _] | [_, _, _, _] => some []
  | [_, _, _, _, j] => membersOfJson? j
  | _ => none

/-- Read the members that the fields of a nation list; there are none when the field is absent. -/
def membersOfFields? : List (String × Json) → Option (List NationMember)
  | [] => some []
  | (name, j) :: rest => if name = "sub" then membersOfJson? j else membersOfFields? rest

/-- Read an array of members. -/
def membersOfJson? : Json → Option (List NationMember)
  | .array items => membersOfItems? items
  | _ => none

/-- Read members in order. -/
def membersOfItems? : List Json → Option (List NationMember)
  | [] => some []
  | j :: rest =>
    match ofJson? j, membersOfItems? rest with
    | some m, some ms => some (m :: ms)
    | _, _ => none

end

end NationMember

instance : Wire Nation where
  toJson n := n.head.toJson (NationMember.membersToJson n.members)
  ofJson? j := do
    let fields ← j.structure? NationHead.fieldNames
    return { head := ← NationHead.ofFields? fields,
             members := ← NationMember.membersOfFields? fields }

end BoardRules.Snapshot
