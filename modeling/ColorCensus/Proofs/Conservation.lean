import ColorCensus.Proofs.Groups
import ColorCensus.Proofs.Pass
import ColorCensus.Report.Document

/-!
# The report lists every occurrence once

The document of an inventory is read back here as a reader of the JSON would do
it: groups, their entries, and the two lists of each entry. What is read is
compared with what the scanner reported in the pass. `groupsOf_perm` says that
no occurrence is lost, repeated or moved to another file on its way into the
groups; the two lists of an entry only part its occurrences by whether they are
definitions.
-/

namespace ColorCensus

namespace Json

/-- The value of a field of an object. -/
def field? (name : String) : Json → Option Json
  | obj fields => fields.lookup name
  | _ => none

/-- The items of the array in a field of an object. -/
def itemsOf (name : String) (j : Json) : List Json :=
  match j.field? name with
  | some (arr items) => items
  | _ => []

/-- What the document of an inventory lists under a heading of its entries,
with the file of the group it is found in. -/
def listed (heading : String) (document : Json) : List (Option Json × Json) :=
  (document.itemsOf "groups").flatMap fun group =>
    (group.itemsOf "entries").flatMap fun entry =>
      (entry.itemsOf heading).map fun o => (group.field? "file", o)

end Json

/-- An occurrence as it is listed in a document, with its own file. -/
def Occurrence.listing (o : Occurrence) : Option Json × Json := (some (.str o.file), o.toJson)

namespace Inventory

theorem listed_eq (i : Inventory) {heading : String} {p : Occurrence → Bool}
    (hlist : ∀ (e : Entry) (os : List Occurrence),
      (e.toJson os).itemsOf heading = (os.filter p).map Occurrence.toJson) :
    i.toJson.listed heading =
      ((i.groups.flatMap fun g => g.entries.flatMap fun m => m.2.map fun o => (g.file, o)).filter
        fun fo => p fo.2).map fun fo => (some (.str fo.1), fo.2.toJson) := by
  have hgroups : i.toJson.itemsOf "groups" = i.groups.map Group.toJson := rfl
  have hentries : ∀ g : Group, g.toJson.itemsOf "entries" =
      g.entries.map fun m => m.1.toJson m.2 := fun _ => rfl
  have hfile : ∀ g : Group, g.toJson.field? "file" = some (.str g.file) := fun _ => rfl
  unfold Json.listed
  rw [hgroups, List.flatMap_map]
  simp only [hentries, hfile, hlist, List.flatMap_map, List.filter_flatMap, List.map_flatMap,
    List.filter_map, List.map_map]
  rfl

theorem listed_perm {i : Inventory} {os : List Occurrence} (heading : String)
    {p : Occurrence → Bool}
    (hgroups : (i.groups.flatMap fun g =>
      g.entries.flatMap fun m => m.2.map fun o => (g.file, o)).Perm
        (os.map fun o => (o.file, o)))
    (hlist : ∀ (e : Entry) (os : List Occurrence),
      (e.toJson os).itemsOf heading = (os.filter p).map Occurrence.toJson) :
    (i.toJson.listed heading).Perm ((os.filter p).map Occurrence.listing) := by
  rw [listed_eq i hlist]
  have h := (hgroups.filter fun fo => p fo.2).map fun fo =>
    (some (Json.str fo.1), fo.2.toJson)
  rw [List.filter_map, List.map_map] at h
  exact h

/-- The document of an inventory lists certain occurrences: each as often as it
is among them, in the group of its own file, and under definitions exactly if it
is one. -/
structure Lists (i : Inventory) (os : List Occurrence) : Prop where
  all : ((i.toJson.listed "definitions" ++ i.toJson.listed "usages").map (·.2)).Perm
    (os.map Occurrence.toJson)
  definitions : (i.toJson.listed "definitions").Perm
    ((os.filter (·.isDefinition)).map Occurrence.listing)
  usages : (i.toJson.listed "usages").Perm
    ((os.filter (!·.isDefinition)).map Occurrence.listing)

theorem lists_of_groups {i : Inventory} {os : List Occurrence}
    (hgroups : (i.groups.flatMap fun g =>
      g.entries.flatMap fun m => m.2.map fun o => (g.file, o)).Perm
        (os.map fun o => (o.file, o))) : i.Lists os := by
  have hdefinitions := listed_perm "definitions" hgroups fun _ _ => rfl
  have husages := listed_perm "usages" hgroups fun _ _ => rfl
  refine ⟨?_, hdefinitions, husages⟩
  have hboth := (hdefinitions.append husages).map (·.2)
  rw [← List.map_append, List.map_map] at hboth
  have hparts := List.filter_append_perm (fun o : Occurrence => o.isDefinition) os
  exact hboth.trans (hparts.map Occurrence.toJson)

end Inventory

namespace Census

variable {host : Host Id} {settings : Settings} {workspace root : Path} {cap : Option Int}

theorem scannedIn_labels {scanned : List (Source × List Occurrence)}
    (h : scannedIn host settings workspace root cap = some scanned) :
    ∀ r ∈ scanned, ∀ o ∈ r.2, o.file = r.1.label := by
  obtain ⟨precedence, -, -, rfl⟩ := scannedIn_eq_some_iff.mp h
  exact reportsOf_labels

/-- The document of an inventory lists exactly the occurrences that the scanner
reported over the files visited, each as often as it was reported, in the group
of its own file, and under definitions exactly if it is one. -/
theorem take_lists_every_occurrence {inventory : Inventory}
    (h : (take host settings workspace root cap).run.1 = .ok inventory) :
    ∃ scanned, scannedIn host settings workspace root cap = some scanned ∧
      scanned.map (·.1) = (graphIn host settings workspace root cap).files ∧
      (∀ r ∈ scanned, ∀ o ∈ r.2, o.file = r.1.label) ∧
      inventory.Lists (scanned.flatMap (·.2)) := by
  obtain ⟨-, scanned, hscanned, rfl⟩ := take_eq_ok_iff.mp h
  have hfiles := scannedIn_files hscanned
  have hlabel := scannedIn_labels hscanned
  refine ⟨scanned, hscanned, hfiles, hlabel, ?_⟩
  have hcover : ∀ o ∈ scanned.flatMap (·.2),
      o.file ∈ (graphIn host settings workspace root cap).files.map (·.label) := by
    intro o ho
    obtain ⟨r, hr, ho⟩ := List.mem_flatMap.mp ho
    rw [hlabel r hr o ho, ← hfiles, List.map_map]
    exact List.mem_map_of_mem hr
  exact Inventory.lists_of_groups (Inventory.groupsOf_perm settings.aggregate.perFile _ _ hcover)

/-- The use in the first of two sheets and the definition in the second are
listed. -/
theorem take_lists_sheets :
    ∃ inventory, (take sheets {} folder firstSheet (some 2)).run.1 = .ok inventory ∧
      (reportsOfTwo.map fun r => r.2.map fun o => (o.name, o.value, o.isDefinition)) =
        [[(some "--x", "#fff", false)], [(some "--x", "#fff", true)]] ∧
      inventory.Lists (reportsOfTwo.flatMap (·.2)) := by
  obtain ⟨inventory, h⟩ := exists_take_sheets (some 2)
  obtain ⟨scanned, hscanned, -, -, hlists⟩ := take_lists_every_occurrence h
  cases scannedIn_sheets_two.symm.trans hscanned
  exact ⟨inventory, h, reportsOfTwo_found, hlists⟩

end Census

end ColorCensus
