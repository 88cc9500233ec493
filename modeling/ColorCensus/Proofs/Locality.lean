import ColorCensus.Proofs.Growth

/-!
# Files outside the closure do not count

A walk asks a host for the texts of the files it visits and, for the imports of
those, whether the candidates are files. Two hosts that give the same answers
there cannot be told apart by it: turn by turn they queue the same paths and
put down the same files (`walk_congr`). What the other files hold, and which
other files there are, makes no difference.

Where the hosts have to agree is said by the first walk alone, for the files it
has visited when it stops. The induction goes the other way, from the start, so
it needs that a file once visited stays among the files (`prefix_walk`).

A host that fails to read a file may give any reason for it. The reasons are
only told, so the walks agree in their files and not in what they tell.
-/

namespace ColorCensus

namespace Import

/-- The paths that the imports of a path may mean. -/
def tried (host : Host Id) (settings : Settings) (workspace p : Path) : List Path :=
  match host.text? p with
  | none => []
  | some text => (edges text).flatMap fun e =>
      candidates settings.aliases settings.extensions workspace p e.kind e.specifier

end Import

/-- Two hosts agree on a file: it holds the same text or cannot be read on
either, and its imports find the same files. -/
structure Host.AgreeOn (host host' : Host Id) (settings : Import.Settings) (workspace p : Path) :
    Prop where
  text : host.text? p = host'.text? p
  isFile : ∀ q ∈ Import.tried host settings workspace p,
    (host.isFile q).run = (host'.isFile q).run

namespace Import

variable {host host' : Host Id} {settings : Settings} {workspace : Path}

theorem firstFile?_congr {ps : List Path}
    (h : ∀ p ∈ ps, (host.isFile p).run = (host'.isFile p).run) :
    firstFile? host settings workspace ps = firstFile? host' settings workspace ps := by
  induction ps with
  | nil => rfl
  | cons p ps ih =>
      have hp : host.isFile p = host'.isFile p := h p List.mem_cons_self
      rw [firstFile?, firstFile?, hp, ih fun q hq => h q (List.mem_cons_of_mem _ hq)]

theorem leadsTo?_congr {importer : Path} {e : Edge}
    (h : ∀ q ∈ candidates settings.aliases settings.extensions workspace importer e.kind
      e.specifier, (host.isFile q).run = (host'.isFile q).run) :
    leadsTo? host settings workspace importer e = leadsTo? host' settings workspace importer e := by
  unfold leadsTo? target?
  dsimp only
  rw [firstFile?_congr h]

theorem imported_congr {p : Path} (h : host.AgreeOn host' settings workspace p) :
    imported host settings workspace p = imported host' settings workspace p := by
  have hfiles := h.isFile
  rw [imported, imported, ← h.text]
  rw [tried] at hfiles
  cases htext : host.text? p with
  | none => rfl
  | some text =>
      rw [htext] at hfiles
      refine List.filterMap_congr fun e he => leadsTo?_congr fun q hq => ?_
      exact hfiles q (List.mem_flatMap.mpr ⟨e, he, hq⟩)

theorem visit_congr {p : Path} (hlabel : ∀ q, host.label workspace q = host'.label workspace q)
    (h : host.AgreeOn host' settings workspace p) :
    visit host workspace p = visit host' workspace p := by
  simp only [visit, hlabel, h.text]

/-- Hosts that agree on the files of one walk send the other one the same way. -/
theorem walk_congr (hlabel : ∀ q, host.label workspace q = host'.label workspace q)
    {room : Nat} {queue : List Path} {files : List Source} {told told' : List Log.Event}
    (h : ∀ s ∈ (walk host settings workspace room queue files told).run.1.files,
      host.AgreeOn host' settings workspace s.path) :
    (walk host settings workspace room queue files told).run.1 =
      (walk host' settings workspace room queue files told').run.1 := by
  induction room generalizing queue files told told' with
  | zero =>
      cases queue with
      | nil => rw [walk, walk]; rfl
      | cons p queue => rw [walk.eq_def, walk.eq_def]; rfl
  | succ room ihRoom =>
      induction queue generalizing files told told' with
      | nil => rw [walk, walk]; rfl
      | cons p queue ihQueue =>
          by_cases hp : p ∈ files.map (·.path)
          · rw [walk_visited hp] at h ⊢
            rw [walk_visited hp]
            exact ihQueue h
          · obtain ⟨after, hwalk⟩ : ∃ after, walk host settings workspace _ _ _ told = _ :=
              walk_fresh room queue told hp
            obtain ⟨after', hwalk'⟩ : ∃ after, walk host' settings workspace _ _ _ told' = _ :=
              walk_fresh room queue told' hp
            rw [hwalk] at h ⊢
            have hfinal : visit host workspace p ∈ files ++ [visit host workspace p] :=
              List.mem_append_right _ List.mem_cons_self
            have hagree : host.AgreeOn host' settings workspace p :=
              h _ ((prefix_walk _ _ _ _).mem hfinal)
            rw [hwalk', ← imported_congr hagree, ← visit_congr hlabel hagree]
            exact ihRoom h

end Import

namespace Census

variable {host host' : Host Id} {settings : Settings} {workspace root : Path} {cap : Option Int}

theorem graphIn_congr (hlabel : ∀ p, host.label workspace p = host'.label workspace p)
    (h : ∀ s ∈ (graphIn host settings workspace root cap).files,
      host.AgreeOn host' settings.imports workspace s.path) :
    graphIn host settings workspace root cap = graphIn host' settings workspace root cap :=
  Import.walk_congr hlabel h

/-- Passes over two hosts with the same labels come to the same result, an
inventory or a fault, if the hosts agree on whether the root is a file and on
the files visited over the first one. -/
theorem take_local (hlabel : ∀ p, host.label workspace p = host'.label workspace p)
    (hroot : (host.isFile root).run = (host'.isFile root).run)
    (hfiles : (host.isFile root).run = true →
      ∀ s ∈ (graphIn host settings workspace root cap).files,
        host.AgreeOn host' settings.imports workspace s.path) :
    (take host settings workspace root cap).run.1 =
      (take host' settings workspace root cap).run.1 := by
  rw [take_run, take_run, ← hroot]
  split
  · next h => rw [graphIn_congr hlabel (hfiles h), hlabel root]
  · rfl

/-- The two sheets next to a third one, which imports them and has its own idea of the color. -/
def crowded : Host Id :=
  holding [("/w/c.css", "@import \"a.css\";.c\x7b--x:#000;\x7d"),
    ("/w/a.css", "@import \"b.css\";.a\x7bcolor:var(--x)\x7d"),
    ("/w/b.css", ".b\x7b--x:#fff;\x7d")]

theorem agreeOn_firstSheet : sheets.AgreeOn crowded {} folder firstSheet :=
  ⟨by decide +kernel, by decide +kernel⟩

theorem agreeOn_secondSheet : sheets.AgreeOn crowded {} folder secondSheet :=
  ⟨by decide +kernel, by decide +kernel⟩

/-- The third sheet does not show in the inventory of the first one. -/
theorem take_local_sheets :
    ∃ inventory, (take sheets {} folder firstSheet (some 2)).run.1 = .ok inventory ∧
      (take crowded {} folder firstSheet (some 2)).run.1 = .ok inventory := by
  obtain ⟨inventory, h⟩ := exists_take_sheets (some 2)
  have hfiles : ∀ s ∈ (graphIn sheets {} folder firstSheet (some 2)).files,
      sheets.AgreeOn crowded {} folder s.path := by
    intro s hs
    rw [graphIn_sheets_two] at hs
    rcases List.mem_pair.mp hs with rfl | rfl
    · exact agreeOn_firstSheet
    · exact agreeOn_secondSheet
  have hlabel : ∀ p, sheets.label folder p = crowded.label folder p := fun _ => rfl
  have hroot : (sheets.isFile firstSheet).run = (crowded.isFile firstSheet).run := by
    decide +kernel
  exact ⟨inventory, h, (take_local hlabel hroot fun _ => hfiles).symm.trans h⟩

end Census

end ColorCensus
