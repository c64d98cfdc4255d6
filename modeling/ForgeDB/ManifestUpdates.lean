import ForgeDB.TableIds

/-!
# Changes of the table list that fail

Both changes of the list come before the list is persisted, and both are undone when that
fails. The list and the text file are then as they were. The next id is not: adding a table
has used it up, or has set it back to one.
-/

namespace ForgeDB.ManifestUpdates
open CommandParser CrashPrograms CrashPrograms.Io Database LayeredMaps Reopening SSTables TableIds
open RestartAnswers (directory openedDisk)

/-- The list, the next id and the text file are as before. -/
structure Unchanged (m : Manifest) (d : Disk) (m' : Manifest) (d' : Disk) : Prop where
  tables_eq : m'.tables = m.tables
  next_eq : m'.nextTableId = m.nextTableId
  file_eq : d'.lookup m.filename = d.lookup m.filename

section Updates

variable {m m' : Manifest} {table : SSTableMetadata} {ids : List ℕ} {w w' : World} {e : Bytes}

theorem addTable_failed (h : m.addTable table w = .returned (.error e, m') w') :
    m' = m.popped table ∧ w'.disk.lookup m.filename = w.disk.lookup m.filename := by
  obtain ⟨-, ⟨hok, -⟩ | ⟨⟨e', herror⟩, hfile⟩⟩ := (m.addTable_ensures table w.disk).of_run h
  · cases hok
  · exact ⟨(Prod.mk.inj herror).2, hfile⟩

theorem removeTables_failed (h : m.removeTables ids w = .returned (.error e, m') w') :
    m' = m ∧ w'.disk.lookup m.filename = w.disk.lookup m.filename := by
  obtain ⟨-, ⟨hok, -⟩ | ⟨⟨e', herror⟩, hfile⟩⟩ := (m.removeTables_ensures ids w.disk).of_run h
  · cases hok
  · exact ⟨(Prod.mk.inj herror).2, hfile⟩

theorem popped_next_iff (hid : table.id < 2 ^ 64) :
    (m.popped table).nextTableId = m.nextTableId ↔
      m.tables = [] ∧ m.nextTableId = 1 ∨
        m.tables ≠ [] ∧ (table.id < m.nextTableId ∨ table.id = 2 ^ 64 - 1 ∧ m.nextTableId = 0) := by
  by_cases hempty : m.tables = []
  · simp only [Manifest.popped, hempty, if_true, true_and, ne_eq, not_true_eq_false, false_and,
      or_false]
    exact eq_comm
  · simp only [Manifest.popped, Manifest.pushed, hempty, if_false, false_and, ne_eq,
      not_false_eq_true, true_and, false_or]
    split
    · next hge =>
      by_cases hlast : table.id = 2 ^ 64 - 1
      · have hwrap : (table.id + 1) % 2 ^ 64 = 0 := by
          rw [hlast]
          norm_num
        rw [hwrap]
        omega
      · rw [Nat.mod_eq_of_lt (by omega)]
        omega
    · next hlt => exact iff_of_true rfl (Or.inl (by omega))

end Updates

/-- A failed `add_table` leaves everything as it was exactly when it finds an empty list with
next id one, or a list with tables and an id that is already used up. A failed
`remove_tables` always does. -/
theorem failed_update_unchanged_iff (m : Manifest) (table : SSTableMetadata)
    (hid : table.id < 2 ^ 64) (ids : List ℕ) (w : World) :
    (∀ e m' w', m.addTable table w = .returned (.error e, m') w' →
        (Unchanged m w.disk m' w'.disk ↔
          m.tables = [] ∧ m.nextTableId = 1 ∨
            m.tables ≠ [] ∧ (table.id < m.nextTableId ∨
              table.id = 2 ^ 64 - 1 ∧ m.nextTableId = 0))) ∧
      ∀ e m' w', m.removeTables ids w = .returned (.error e, m') w' →
        Unchanged m w.disk m' w'.disk := by
  constructor
  · intro e m' w' h
    obtain ⟨rfl, hfile⟩ := addTable_failed h
    rw [← popped_next_iff hid]
    constructor
    · exact fun hsame => hsame.next_eq
    · exact fun hnext => ⟨rfl, hnext, hfile⟩
  · intro e m' w' h
    obtain ⟨rfl, hfile⟩ := removeTables_failed h
    exact ⟨rfl, rfl, hfile⟩

/-- The list of a new directory, with the temporary file refused. -/
theorem failed_update_unchanged_first :
    ∃ e m' w', (listing [] 1).storage.manifest.addTable (table 1 (AList.singleton (text "a") value))
        ⟨openedDisk, [.fails 0]⟩ = .returned (.error e, m') w' ∧
      Unchanged (listing [] 1).storage.manifest openedDisk m' w'.disk := by
  have hfailed := (failed_update_unchanged_iff (listing [] 1).storage.manifest
    (table 1 (AList.singleton (text "a") value)) (by decide) [] ⟨openedDisk, [.fails 0]⟩).1
  exact ⟨_, _, _, rfl, (hfailed _ _ _ rfl).mpr (Or.inl ⟨rfl, rfl⟩)⟩

/-- The second table of a run, with the temporary file refused: the next id is three. -/
theorem failed_update_uses_id :
    ∃ intact created, Reached .least (Layout.ofDirectory (text "d")) intact created
        (listing [table 1 (AList.singleton (text "a") value)] 2)
        (entered .least (listing [] 1, openedDisk) (text "PUT a x")).2 ∧
      ∃ e m' w', (listing [table 1 (AList.singleton (text "a") value)] 2).storage.manifest.addTable
          (table 2 (AList.singleton (text "b") value))
          ⟨(entered .least (listing [] 1, openedDisk) (text "PUT a x")).2, [.fails 0]⟩ =
            .returned (.error e, m') w' ∧
        m'.nextTableId = 3 ∧
        ¬ Unchanged (listing [table 1 (AList.singleton (text "a") value)] 2).storage.manifest
          (entered .least (listing [] 1, openedDisk) (text "PUT a x")).2 m' w'.disk := by
  have hstart : Reached .least directory true 0 (listing [] 1) (World.mk openedDisk []).disk :=
    .start (d := ∅) .async ⟨⟨rfl, rfl⟩, fun _ _ => rfl⟩ (by decide +kernel)
  obtain ⟨intact, n, -, hfirst, -⟩ := hstart.command (text "PUT a x") (text "OK") (by decide)
    (show _ = Result.returned (_, listing [table 1 (AList.singleton (text "a") value)] 2)
      ⟨(entered .least (listing [] 1, openedDisk) (text "PUT a x")).2, []⟩ by decide +kernel)
  refine ⟨intact, 0 + n, hfirst, _, _, _, rfl, by decide +kernel, fun hsame => ?_⟩
  exact absurd hsame.next_eq (by decide +kernel)

end ForgeDB.ManifestUpdates
