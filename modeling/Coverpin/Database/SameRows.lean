import Coverpin.Database.Schema

namespace Coverpin

open Coverpin.Data Coverpin.Database

/-! # Tables that differ in the order of their rows

The database promises no order to a query without ORDER BY, and an update may
move a row.
-/

/-- The same three tables, listed in some order. -/
structure SameRows (db listed : Database) : Prop where
  entities : listed.entities.records.Perm db.entities.records
  ownershipEdges : listed.ownershipEdges.records.Perm db.ownershipEdges.records
  filings : listed.filings.records.Perm db.filings.records

theorem SameRows.refl (db : Database) : SameRows db db :=
  ⟨.refl _, .refl _, .refl _⟩

/-- The tables listed from their ends. -/
def Database.reversed (db : Database) : Database where
  entities := ⟨db.entities.records.reverse, db.entities.unique.perm (List.reverse_perm _)⟩
  ownershipEdges := ⟨db.ownershipEdges.records.reverse, db.ownershipEdges.unique.perm (List.reverse_perm _)⟩
  filings := ⟨db.filings.records.reverse, db.filings.unique.perm (List.reverse_perm _)⟩
  references := by
    have ids : ∀ id, id ∈ db.entities.ids → id ∈ db.entities.records.reverse.map entitySchema.id := by
      intro id listed
      rwa [List.map_reverse, List.mem_reverse]
    refine ⟨fun record member id isDomestic => ?_, fun edge member => ?_, fun filing member => ?_⟩
    · exact ids _ (db.references.domestic record (List.mem_reverse.mp member) id isDomestic)
    · have ends := db.references.edges edge (List.mem_reverse.mp member)
      exact ⟨ids _ ends.1, ids _ ends.2⟩
    · exact ids _ (db.references.filings filing (List.mem_reverse.mp member))

theorem SameRows.reversed (db : Database) : SameRows db db.reversed :=
  ⟨List.reverse_perm _, List.reverse_perm _, List.reverse_perm _⟩

end Coverpin
