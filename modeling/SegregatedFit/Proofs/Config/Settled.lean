-- SUMMARY: What settings are read from named texts, and that a heap's settings are in normal form.
import Mathlib.Order.Bounds.Defs
import SegregatedFit.Heap.Basic
import SegregatedFit.Proofs.Text.Meaning

/-!
# Settled settings

Settings are settled if normalizing them changes nothing; the chunk size is then a
multiple of `pairSize` that holds a block, and the factor is positive (`Settled`). The
settings that are read from named texts, those that are built from the default ones, and
those of any heap are settled. What is read is given by what the texts mean (`FoundBy`).
Main statement: `settled_everywhere`.
-/
namespace SegregatedFit.Config

open Text

/-- Settings in normal form, and what that comes to. -/
structure Settled (config : Config) : Prop where
  normalized_eq : config.normalized = config
  dvd_chunkSize : pairSize ∣ config.chunkSize
  minBlock_le : minBlock ≤ config.chunkSize
  one_le_resizeFactor : 1 ≤ config.resizeFactor

/-- The chunk size that `v` asks for: the least multiple of `pairSize` not below `v` and
`minBlock`, or 4096 where no word holds such a multiple. -/
def ChunkFor (v chunkSize : Nat) : Prop :=
  IsLeast {m | pairSize ∣ m ∧ max v minBlock ≤ m ∧ m < wordCount} chunkSize ∨
    (∀ m, pairSize ∣ m → max v minBlock ≤ m → wordCount ≤ m) ∧ chunkSize = 4096

/-- The words for a search policy. -/
def searchWords : List (String × SearchPolicy) :=
  [("canonical", .canonical), ("exact", .canonical), ("first", .canonical)]

/-- The words for the level of the log. -/
def logLevelWords : List (String × Option Level) :=
  [("trace", some .trace), ("debug", some .debug), ("warn", some .warn), ("warning", some .warn),
   ("error", some .error), ("off", none), ("none", none), ("disabled", none)]

/-- The settings are what the texts under the four names mean. -/
structure FoundBy (config : Config) (lookup : String → Option String) : Prop where
  chunkSize : ∃ v, (∀ k, Number 4096 (lookup chunkSizeName) k ↔ v = k) ∧
    ChunkFor v config.chunkSize
  resizeFactor : ∃ w, (∀ k, Number 2 (lookup resizeFactorName) k ↔ w = k) ∧
    config.resizeFactor = max w 1
  search : ∀ policy, Named searchWords .skipCanonical (lookup searchName) policy ↔
    config.search = policy
  logLevel : ∀ level, Named logLevelWords (some .info) (lookup logLevelName) level ↔
    config.logLevel = level

/-- One change of the settings. -/
inductive Change where
  | chunkSize (n : Nat)
  | resizeFactor (n : Nat)
  | search (policy : SearchPolicy)
  | logLevel (level : Option Level)
  deriving DecidableEq, Repr

/-- The settings after a change. -/
def Change.apply : Change → Config → Config
  | .chunkSize n, config => config.withChunkSize n
  | .resizeFactor n, config => config.withResizeFactor n
  | .search policy, config => config.withSearch policy
  | .logLevel level, config => config.withLogLevel level

/-- The default settings after the changes. -/
def built (changes : List Change) : Config :=
  changes.foldl (fun config change => change.apply config) {}

/-! ## Normal form -/

theorem chunkFor_normalized (config : Config) :
    ChunkFor config.chunkSize config.normalized.chunkSize := by
  cases hround : Word.roundUp? (max config.chunkSize minBlock) pairSize with
  | none =>
    refine Or.inr ⟨fun m hdvd hle => ?_, by simp only [normalized, hround]; rfl⟩
    have hover := Word.roundUp?_eq_none_iff.1 hround
    exact Nat.le_trans hover (Word.roundUp_le (by decide) hdvd hle)
  | some m =>
    obtain ⟨rfl, hlt⟩ := Word.roundUp?_eq_some_iff.1 hround
    refine Or.inl ?_
    simp only [normalized, hround, Option.getD_some]
    constructor
    · exact ⟨Word.dvd_roundUp _ _, Word.le_roundUp _ (by decide), hlt⟩
    · rintro k ⟨hdvd, hle, -⟩
      exact Word.roundUp_le (by decide) hdvd hle

theorem settled_of_normalized_eq {config : Config} (h : config.normalized = config) :
    config.Settled where
  normalized_eq := h
  dvd_chunkSize := h ▸ config.chunkSize_normalized.1
  minBlock_le := h ▸ config.chunkSize_normalized.2.1
  one_le_resizeFactor := h ▸ config.resizeFactor_normalized_pos

theorem settled_normalized (config : Config) : config.normalized.Settled :=
  settled_of_normalized_eq config.normalized_normalized

/-- A change leaves settled settings settled. -/
theorem Settled.apply {config : Config} (h : config.Settled) (change : Change) :
    (change.apply config).Settled := by
  cases change with
  | chunkSize n => exact settled_normalized _
  | resizeFactor n => exact settled_normalized _
  | search policy =>
    exact settled_of_normalized_eq (congrArg (withSearch · policy) h.normalized_eq)
  | logLevel level =>
    exact settled_of_normalized_eq (congrArg (withLogLevel · level) h.normalized_eq)

theorem settled_built (changes : List Change) : (built changes).Settled := by
  have hall : ∀ config : Config, config.Settled →
      (changes.foldl (fun config change => change.apply config) config).Settled := by
    induction changes with
    | nil => exact fun _ h => h
    | cons change changes ih => exact fun config h => ih _ (h.apply change)
  exact hall {} (settled_of_normalized_eq (by decide))

/-! ## Reading -/

theorem ofWord_eq_meaning (word : List Char) :
    SearchPolicy.ofWord word = meaning searchWords .skipCanonical (lowerCase word) := by
  simp only [SearchPolicy.ofWord, searchWords, meaning_cons, meaning_nil, List.mem_cons,
    List.not_mem_nil, or_false, ite_or]

theorem logLevelOfWord_eq_meaning (word : List Char) :
    logLevelOfWord word = meaning logLevelWords (some .info) (lowerCase word) := by
  simp only [logLevelOfWord, logLevelWords, meaning_cons, meaning_nil, ite_or]

/-- Reading, with the words looked up in their tables. -/
theorem ofLookup_eq (lookup : String → Option String) :
    ofLookup lookup = normalized
      { chunkSize := ((lookup chunkSizeName).bind fun s => readWord? (trim s.toList)).getD 4096
        resizeFactor := ((lookup resizeFactorName).bind fun s => readWord? (trim s.toList)).getD 2
        search := ((lookup searchName).map fun s =>
          meaning searchWords .skipCanonical (lowerCase (trim s.toList))).getD .skipCanonical
        logLevel := ((lookup logLevelName).map fun s =>
          meaning logLevelWords (some .info) (lowerCase (trim s.toList))).getD (some .info) } := by
  simp only [ofLookup, Option.bind_map, Option.map_map, Function.comp_def, ofWord_eq_meaning,
    logLevelOfWord_eq_meaning]

/-- The settings that are read are what the texts mean. -/
theorem foundBy_ofLookup (lookup : String → Option String) : (ofLookup lookup).FoundBy lookup where
  chunkSize := by
    rw [ofLookup_eq]
    exact ⟨_, fun k => number_iff, chunkFor_normalized _⟩
  resizeFactor := by
    rw [ofLookup_eq]
    exact ⟨_, fun k => number_iff, rfl⟩
  search policy := by
    rw [ofLookup_eq]
    exact named_iff (by decide) (by decide)
  logLevel level := by
    rw [ofLookup_eq]
    exact named_iff (by decide) (by decide)

/-- Texts that differ in the blanks around them at most are read alike, and words also if
they differ in case. -/
theorem ofLookup_congr {lookup lookup' : String → Option String}
    (hnumbers : ∀ name ∈ [chunkSizeName, resizeFactorName],
      Option.Rel (fun s t => SameText s.toList t.toList) (lookup name) (lookup' name))
    (hwords : ∀ name ∈ [searchName, logLevelName],
      Option.Rel (fun s t => SameWord s.toList t.toList) (lookup name) (lookup' name)) :
    ofLookup lookup = ofLookup lookup' := by
  have hchunk := bind_readWord?_eq (hnumbers chunkSizeName (by simp))
  have hfactor := bind_readWord?_eq (hnumbers resizeFactorName (by simp))
  have hsearch := map_meaning_eq searchWords .skipCanonical (hwords searchName (by simp))
  have hlevel := map_meaning_eq logLevelWords (some .info) (hwords logLevelName (by simp))
  rw [ofLookup_eq, ofLookup_eq, hchunk, hfactor, hsearch, hlevel]

/-! ## Both -/

/-- The settings that are read are what the texts under the four names mean, and depend on
each of them only up to the blanks around it and the case of its words. Normalizing twice
is normalizing once; and whichever way settings come to a heap, by changing the default
ones, by reading them, or with any numbers in them, they are settled. -/
theorem settled_everywhere :
    (∀ lookup, (ofLookup lookup).FoundBy lookup) ∧
    (∀ lookup lookup' : String → Option String,
      (∀ name ∈ [chunkSizeName, resizeFactorName],
        Option.Rel (fun s t => SameText s.toList t.toList) (lookup name) (lookup' name)) →
      (∀ name ∈ [searchName, logLevelName],
        Option.Rel (fun s t => SameWord s.toList t.toList) (lookup name) (lookup' name)) →
      ofLookup lookup = ofLookup lookup') ∧
    (∀ config : Config, config.normalized.normalized = config.normalized) ∧
    (∀ changes, (built changes).Settled) ∧
    (∀ lookup, (ofLookup lookup).Settled) ∧
    ∀ (R : Type) (region : R) (config : Config), (Heap.ofRegion region config).config.Settled :=
  ⟨foundBy_ofLookup, fun _ _ => ofLookup_congr, normalized_normalized, settled_built,
    fun _ => settled_normalized _, fun _ _ config => settled_normalized config⟩

/-- Blanks around a number, and a word in upper case. -/
theorem settled_everywhere_of_blanks :
    ofLookup (fun name => [(chunkSizeName, " +1000\t"), (searchName, "EXACT ")].lookup name) =
      ofLookup fun name => [(chunkSizeName, "+1000"), (searchName, "exact")].lookup name := by
  refine settled_everywhere.2.1 _ _ ?_ ?_
  · intro name hname
    rcases List.mem_cons.1 hname with rfl | hname
    · have hblanks : Padded " +1000\t".toList "+1000".toList :=
        ⟨[' '], ['\t'], rfl, by simp [isBlank, blankRanges]⟩
      exact .some ⟨_, hblanks, ⟨[], [], by simp⟩⟩
    · obtain rfl := List.mem_singleton.1 hname
      exact .none
  · intro name hname
    rcases List.mem_cons.1 hname with rfl | hname
    · have hblanks : Padded "EXACT ".toList "EXACT".toList :=
        ⟨[], [' '], rfl, by simp [isBlank, blankRanges]⟩
      exact .some ⟨_, "exact".toList, hblanks, ⟨[], [], by simp⟩, by decide⟩
    · obtain rfl := List.mem_singleton.1 hname
      exact .none

example :
    (ofLookup fun name => [(chunkSizeName, "+1000")].lookup name).chunkSize = 1008 ∧
    (ofLookup fun name => [(chunkSizeName, "18446744073709551615")].lookup name).chunkSize =
      4096 := by
  decide

end SegregatedFit.Config
