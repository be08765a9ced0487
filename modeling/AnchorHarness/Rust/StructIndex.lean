import AnchorHarness.Rust.Item
import AnchorHarness.Table

/-!
# Structs by name

An index of the structs of a file, its nested modules included. One pass over the file registers the
structs of a scope and then visits the modules of the scope in the order of their declaration. Of
several structs with one name only the first that is met is kept, and a struct that lacks its name,
as in a broken file, is passed over.
-/

namespace AnchorHarness.Rust

/-- A struct and where it was found. -/
structure StructDefinition where
  name : String
  modulePath : List String
  body : StructBody

def StructDefinition.qualifiedName (d : StructDefinition) : String :=
  "::".intercalate (d.modulePath ++ [d.name])

/-- The structs of a file in the order in which they were registered, and the place of each name
among them: that of the first struct of the name, and none if there is no such struct. -/
structure StructIndex where
  definitions : List StructDefinition
  places : Table String Nat
  placed : ∀ name, Table.find? name places = definitions.findIdx? fun d => d.name = name

namespace StructIndex

def empty : StructIndex := ⟨[], [], fun _ => rfl⟩

/-- The places stay right when a definition with a new name is put behind the others. -/
theorem placed_put (index : StructIndex) (d : StructDefinition)
    (fresh : Table.find? d.name index.places = none) (name : String) :
    Table.find? name (Table.put d.name index.definitions.length index.places) =
      (index.definitions ++ [d]).findIdx? fun e => e.name = name := by
  rw [Table.find?_put, List.findIdx?_append, ← index.placed, List.findIdx?_singleton]
  by_cases h : d.name = name
  · subst h
    simp [fresh]
  · simp [h]

/-- Adds a struct unless it has no name or its name is taken. -/
def register (index : StructIndex) (d : StructDefinition) : StructIndex :=
  if new : d.name ≠ "" ∧ Table.find? d.name index.places = none then
    ⟨index.definitions ++ [d], Table.put d.name index.definitions.length index.places,
      index.placed_put d new.2⟩
  else index

/-- Registers the structs that stand directly in a scope. -/
def registerScope (modulePath : List String) (index : StructIndex) :
    List (Sibling Item) → StructIndex
  | [] => index
  | .node (.struct name body) :: rest =>
    registerScope modulePath (index.register ⟨name, modulePath, body⟩) rest
  | _ :: rest => registerScope modulePath index rest

mutual
/-- Visits an item that is a module: its own structs, and then its modules. -/
def visit (modulePath : List String) (index : StructIndex) : Item → StructIndex
  | .module name body =>
    visitModules (modulePath ++ [name]) (index.registerScope (modulePath ++ [name]) body) body
  | _ => index

def visitModules (modulePath : List String) (index : StructIndex) :
    List (Sibling Item) → StructIndex
  | [] => index
  | .node item :: rest => visitModules modulePath (index.visit modulePath item) rest
  | .attribute _ :: rest => visitModules modulePath index rest
  | .comment :: rest => visitModules modulePath index rest
end

def build (items : List (Sibling Item)) : StructIndex :=
  visitModules [] (empty.registerScope [] items) items

def lookup (index : StructIndex) (name : String) : Option StructDefinition :=
  (Table.find? name index.places).bind fun place => index.definitions[place]?

theorem lookup_eq_find? (index : StructIndex) (name : String) :
    index.lookup name = index.definitions.find? fun d => d.name = name := by
  rw [lookup, index.placed, List.find?_eq_bind_findIdx?_getElem?]

def size (index : StructIndex) : Nat := index.definitions.length

end StructIndex

end AnchorHarness.Rust
