-- SUMMARY: Settings of a heap, their normal form, and reading them from named text values.
import SegregatedFit.FreeLists.Policy
import SegregatedFit.Log.Level
import SegregatedFit.Text.Blank
import SegregatedFit.Text.Numeral

/-!
# Settings

A heap asks its arena for at least `chunkSize` bytes when it grows, gives a
block that it has to move room for `resizeFactor` times the request, searches by
the policy `search`, and logs from `logLevel` on.

`normalized` makes any settings usable. `ofLookup` reads them from named texts,
where a text that cannot be read counts as absent. Main statements: the chunk
size of normalized settings is a multiple of `pairSize` not below `minBlock`,
their factor is positive, and normalizing them again changes nothing.
-/
namespace SegregatedFit

/-- The settings of a heap. -/
structure Config where
  /-- The least number of bytes that the heap grows by. -/
  chunkSize : Nat := 4096
  /-- A block that moves gets room for this many times the request. -/
  resizeFactor : Nat := 2
  search : SearchPolicy := .skipCanonical
  /-- The least severe level that is logged; with `none`, nothing is. -/
  logLevel : Option Level := some .info
  deriving DecidableEq, Repr, Inhabited

/-! ## Normal form -/

namespace Config

/-- The chunk size rounded up to a multiple of `pairSize` that holds a block,
the default where no word holds that multiple; the factor at least one. -/
def normalized (config : Config) : Config :=
  { config with
    chunkSize :=
      (Word.roundUp? (max config.chunkSize minBlock) pairSize).getD ({} : Config).chunkSize
    resizeFactor := max config.resizeFactor 1 }

def withChunkSize (config : Config) (chunkSize : Nat) : Config :=
  { config with chunkSize }.normalized

def withResizeFactor (config : Config) (resizeFactor : Nat) : Config :=
  { config with resizeFactor }.normalized

def withSearch (config : Config) (search : SearchPolicy) : Config :=
  { config with search }

def withLogLevel (config : Config) (logLevel : Option Level) : Config :=
  { config with logLevel }

theorem chunkSize_normalized (config : Config) :
    pairSize ∣ config.normalized.chunkSize ∧ minBlock ≤ config.normalized.chunkSize ∧
      config.normalized.chunkSize < wordCount := by
  simp only [normalized, Word.roundUp?]
  split
  · rename_i h
    exact ⟨Word.dvd_roundUp _ _,
      Nat.le_trans (Nat.le_max_right _ _) (Word.le_roundUp _ (by decide)), h⟩
  · exact ⟨by decide, by decide, by decide⟩

/-- A chunk for a block of proper size has a proper block size, too. -/
theorem max_chunkSize_proper {config : Config} {size : Nat} (hconfig : config.normalized = config)
    (hdvd : pairSize ∣ size) (hlt : size < wordCount) :
    pairSize ∣ max size config.chunkSize ∧ minBlock ≤ max size config.chunkSize ∧
      max size config.chunkSize < wordCount := by
  obtain ⟨hdvd', hmin', hlt'⟩ := hconfig ▸ config.chunkSize_normalized
  refine ⟨?_, Nat.le_trans hmin' (Nat.le_max_right _ _), Nat.max_lt.2 ⟨hlt, hlt'⟩⟩
  rcases Nat.le_total size config.chunkSize with hle | hle
  · rwa [Nat.max_eq_right hle]
  · rwa [Nat.max_eq_left hle]

theorem resizeFactor_normalized_pos (config : Config) : 0 < config.normalized.resizeFactor :=
  Nat.le_max_right _ _

/-- A size does not get smaller by the factor. -/
theorem le_of_mul?_resizeFactor {config : Config} {n target : Nat}
    (hconfig : config.normalized = config)
    (htarget : Word.mul? n config.resizeFactor = some target) : n ≤ target := by
  have hpos := hconfig ▸ config.resizeFactor_normalized_pos
  rw [Word.mul?, Option.ite_none_right_eq_some, Option.some.injEq] at htarget
  exact htarget.2 ▸ Nat.le_mul_of_pos_right n hpos

/-- Normalizing twice is normalizing once. -/
theorem normalized_normalized (config : Config) :
    config.normalized.normalized = config.normalized := by
  obtain ⟨hdvd, hmin, hlt⟩ := chunkSize_normalized config
  have hpos := resizeFactor_normalized_pos config
  generalize config.normalized = c at *
  have hround : Word.roundUp c.chunkSize pairSize = c.chunkSize := by
    simp only [Word.roundUp, pairSize] at hdvd ⊢
    omega
  have hmax : max c.chunkSize minBlock = c.chunkSize := Nat.max_eq_left hmin
  have hfactor : max c.resizeFactor 1 = c.resizeFactor := by omega
  simp [normalized, Word.roundUp?, hmax, hround, hlt, hfactor]

/-! ## Reading -/

/-- The threshold that a word names, in either case; `none` turns logging off.
A word that names nothing stands for the default. -/
def logLevelOfWord (word : List Char) : Option Level :=
  let word := Text.lowerCase word
  if word = "trace".toList then some .trace
  else if word = "debug".toList then some .debug
  else if word = "warn".toList ∨ word = "warning".toList then some .warn
  else if word = "error".toList then some .error
  else if word = "off".toList ∨ word = "none".toList ∨ word = "disabled".toList then none
  else some .info

/-- The name under which the chunk size is found. -/
def chunkSizeName : String := "SEGALLOC_CHUNK_SIZE"

/-- The name under which the resize factor is found. -/
def resizeFactorName : String := "SEGALLOC_RESIZE_FACTOR"

/-- The name under which the search policy is found. -/
def searchName : String := "SEGALLOC_SEARCH"

/-- The name under which the log level is found. -/
def logLevelName : String := "SEGALLOC_LOG"

/-- The names of all settings. -/
def names : List String := [chunkSizeName, resizeFactorName, searchName, logLevelName]

/-- The settings found under their names, without the blanks around them. -/
def ofLookup (lookup : String → Option String) : Config :=
  let text (name : String) : Option (List Char) := (lookup name).map fun s => Text.trim s.toList
  let standard : Config := {}
  normalized
    { chunkSize := ((text chunkSizeName).bind Text.readWord?).getD standard.chunkSize
      resizeFactor := ((text resizeFactorName).bind Text.readWord?).getD standard.resizeFactor
      search := ((text searchName).map SearchPolicy.ofWord).getD standard.search
      logLevel := ((text logLevelName).map logLevelOfWord).getD standard.logLevel }

end Config
end SegregatedFit
