import ColorCensus.Context.Extractor
import ColorCensus.Import.Resolve

/-!
# Settings

Everything that can be configured about a pass and its report, with the values that hold when
nothing is configured. Choices are kept by name; what a name means is settled where the choice
is made.
-/

namespace ColorCensus

structure Settings.Themes where
  attributes : List String := ["data-theme-mode"]
deriving DecidableEq, Repr

structure Settings.Declarations where
  precedence : String := "first"
deriving DecidableEq, Repr

structure Settings.Aggregate where
  perFile : Bool := true
deriving DecidableEq, Repr

structure Settings.Report where
  format : String := "markdown"
  autoScanMinutes : Int := 0
  maxUsages : Int := 50
deriving DecidableEq, Repr

structure Settings where
  imports : Import.Settings := {}
  context : Context.Settings := {}
  themes : Settings.Themes := {}
  declarations : Settings.Declarations := {}
  aggregate : Settings.Aggregate := {}
  report : Settings.Report := {}
deriving DecidableEq, Repr

/-- Minutes between two scans: none at all from zero down, otherwise one to ten. -/
def Settings.clampMinutes (minutes : Int) : Int := if minutes ≤ 0 then 0 else min 10 minutes

theorem Settings.clampMinutes_bounds (minutes : Int) :
    0 ≤ clampMinutes minutes ∧ clampMinutes minutes ≤ 10 := by
  unfold clampMinutes
  split <;> omega

end ColorCensus
