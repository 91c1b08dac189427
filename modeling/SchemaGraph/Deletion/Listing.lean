import SchemaGraph.Failure.Basic

/-! Listings that come in pages. Every page but the last tells the cursor of the next one. -/

namespace SchemaGraph

structure Page (α : Type) where
  items : List α
  nextCursor : Option String

abbrev Script (α : Type) := List (Except Failure (Page α))

namespace Script

def exhausted : Failure := Failure.make .unknown "no such page"

/-- The items of all pages in order, or the first failure; beside it the cursors of the fetches
that were made. -/
def drain {α : Type} (cursor : Option String) :
    Script α → Except Failure (List α) × List (Option String)
  | [] => (.error exhausted, [cursor])
  | .error f :: _ => (.error f, [cursor])
  | .ok page :: more =>
    match page.nextCursor with
    | none => (.ok page.items, [cursor])
    | some next =>
      let (items, cursors) := drain (some next) more
      (items.map (page.items ++ ·), cursor :: cursors)

end Script

end SchemaGraph
