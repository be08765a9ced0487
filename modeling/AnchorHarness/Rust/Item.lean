import AnchorHarness.Rust.TypeRef

/-!
# Items

The parts of a Rust file that matter here: modules, structs and functions, and what stands beside
them. Attributes are siblings that stand before what they belong to, with only comments and other
attributes between, so a list of siblings is kept as it was written, and `attached` gives every node
the attributes that a walk back from it finds.
-/

namespace AnchorHarness.Rust

/-! ### Siblings -/

/-- One of the things that stand side by side in a file, a block or a list of fields. -/
inductive Sibling (α : Type) where
  /-- An attribute, by the text between its brackets. -/
  | attribute (text : String)
  | comment
  | node (value : α)

variable {α : Type}

/-- The walk back over the siblings in front of a node, the nearest first, with the attributes that
it has found so far. It ends at the first sibling that is neither an attribute nor a comment. -/
def walkBack (found : List String) : List (Sibling α) → List String
  | .attribute text :: before => walkBack (found ++ [text]) before
  | .comment :: before => walkBack found before
  | .node _ :: _ => found
  | [] => found

/-- The attributes of a node in the order of the text, by the siblings in front of it, the nearest
first. -/
def outerAttributes (before : List (Sibling α)) : List String :=
  (walkBack [] before).reverse

theorem walkBack_eq (found : List String) (before : List (Sibling α)) :
    walkBack found before = found ++ walkBack [] before := by
  induction before generalizing found with
  | nil => simp [walkBack]
  | cons s before ih =>
    obtain text | _ | value := s
    · rw [walkBack, walkBack, ih (found ++ [text]), ih ([] ++ [text])]
      simp
    · exact ih found
    · simp [walkBack]

@[simp] theorem outerAttributes_nil : outerAttributes ([] : List (Sibling α)) = [] := rfl

@[simp] theorem outerAttributes_node (value : α) (before : List (Sibling α)) :
    outerAttributes (.node value :: before) = [] := rfl

@[simp] theorem outerAttributes_comment (before : List (Sibling α)) :
    outerAttributes (.comment :: before) = outerAttributes before := rfl

/-- The attribute that the walk meets first comes to stand last. -/
@[simp] theorem outerAttributes_attribute (text : String) (before : List (Sibling α)) :
    outerAttributes (.attribute text :: before) = outerAttributes before ++ [text] := by
  rw [outerAttributes, walkBack, walkBack_eq]
  simp [outerAttributes]

/-- Every node with its attributes, behind the siblings that have been passed, the last first. -/
def attachedBehind (before : List (Sibling α)) : List (Sibling α) → List (List String × α)
  | [] => []
  | .node value :: rest =>
    (outerAttributes before, value) :: attachedBehind (.node value :: before) rest
  | .attribute text :: rest => attachedBehind (.attribute text :: before) rest
  | .comment :: rest => attachedBehind (.comment :: before) rest

def attached (siblings : List (Sibling α)) : List (List String × α) :=
  attachedBehind [] siblings

/-! ### Nodes -/

/-- A parameter of a function: a pattern and a type. -/
structure Parameter where
  pattern : String
  type : TypeRef

/-- A named field of a struct. -/
structure FieldDeclaration where
  name : String
  type : TypeRef

/-- What a list of named fields is made of. -/
inductive Member where
  | field (declaration : FieldDeclaration)
  | separator

/-- What a struct holds. -/
inductive StructBody where
  | named (members : List (Sibling Member))
  | unnamed

/-- An item of a file or a module. -/
inductive Item where
  | module (name : String) (body : List (Sibling Item))
  | moduleDeclaration (name : String)
  | struct (name : String) (body : StructBody)
  | function (name : String) (parameters : List Parameter)
  | other

/-- The fields among the members of a struct, each with its attributes. -/
def declaredFields (members : List (Sibling Member)) : List (List String × FieldDeclaration) :=
  (attached members).filterMap fun (attributes, member) =>
    match member with
    | .field declaration => some (attributes, declaration)
    | .separator => none

end AnchorHarness.Rust
