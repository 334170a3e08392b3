-- SUMMARY: The number that a text writes and the word that it spells, up to blanks around them.
import Mathlib.Data.List.Induction
import Mathlib.Data.List.TakeWhile
import SegregatedFit.Text.Blank
import SegregatedFit.Text.Case
import SegregatedFit.Text.Numeral

/-!
# The meaning of a text

A text is read without the blanks around it (`Padded`). It writes a number in decimal
digits, with at most one plus sign in front (`Writes`), or spells a word, in either case
(`Spells`). The reading functions compute just this: `readWord?_trim_eq_some_iff` for
numbers, `spells_iff` for words. What stands under a name that may be missing is `Number`
or `Named`, with a default where there is nothing that can be read.
-/
namespace SegregatedFit.Text

variable {text text' core word : List Char} {n : Nat}

/-- The text is `core` with blanks around it. -/
def Padded (text core : List Char) : Prop :=
  ∃ before after, text = before ++ core ++ after ∧
    (∀ c ∈ before, isBlank c) ∧ ∀ c ∈ after, isBlank c

/-- The text writes the number: digits with at most one plus sign in front, and blanks
around them. -/
def Writes (text : List Char) (n : Nat) : Prop :=
  ∃ sign digits, (sign = [] ∨ sign = ['+']) ∧ Padded text (sign ++ digits) ∧ digits ≠ [] ∧
    (∀ c ∈ digits, c.isDigit) ∧ Nat.ofDigitChars 10 digits 0 = n

/-- The text spells the word in either case, with blanks around it. -/
def Spells (text word : List Char) : Prop := ∃ core, Padded text core ∧ lowerCase core = word

/-- The texts are the same but for the blanks around them. -/
def SameText (text text' : List Char) : Prop := ∃ core, Padded text core ∧ Padded text' core

/-- The texts are the same but for the blanks around them and for the case of letters. -/
def SameWord (text text' : List Char) : Prop :=
  ∃ core core', Padded text core ∧ Padded text' core' ∧ lowerCase core = lowerCase core'

/-! ## Blanks around a text -/

theorem trim_append_of_blanks {after : List Char} (h : ∀ c ∈ after, isBlank c)
    (text : List Char) : trim (text ++ after) = trim text := by
  induction after using List.reverseRecOn with
  | nil => rw [List.append_nil]
  | append_singleton after c ih =>
    rw [← List.append_assoc, trim_append_of_isBlank (h c (by simp))]
    exact ih fun d hd => h d (List.mem_append_left _ hd)

theorem trim_blanks_append {before : List Char} (h : ∀ c ∈ before, isBlank c)
    (text : List Char) : trim (before ++ text) = trim text := by
  induction before with
  | nil => rfl
  | cons c before ih =>
    rw [List.cons_append, trim_cons_of_isBlank (h c List.mem_cons_self)]
    exact ih fun d hd => h d (List.mem_cons_of_mem c hd)

theorem trim_eq_of_padded (h : Padded text core) : trim text = trim core := by
  obtain ⟨before, after, rfl, hbefore, hafter⟩ := h
  rw [trim_append_of_blanks hafter, trim_blanks_append hbefore]

theorem SameText.trim_eq (h : SameText text text') : trim text = trim text' := by
  obtain ⟨core, hpadded, hpadded'⟩ := h
  rw [trim_eq_of_padded hpadded, trim_eq_of_padded hpadded']

/-- Trimming takes off nothing but blanks. -/
theorem padded_trim (text : List Char) : Padded text (trim text) := by
  refine ⟨text.takeWhile isBlank,
    ((text.dropWhile isBlank).reverse.takeWhile isBlank).reverse, ?_, ?_, ?_⟩
  · rw [trim, List.append_assoc, ← List.reverse_append, List.takeWhile_append_dropWhile,
      List.reverse_reverse, List.takeWhile_append_dropWhile]
  · exact fun c hc => List.mem_takeWhile_imp hc
  · exact fun c hc => List.mem_takeWhile_imp (List.mem_reverse.1 hc)

/-- Without blanks there is nothing to trim. -/
theorem trim_of_not_blank (h : ∀ c ∈ core, isBlank c = false) : trim core = core := by
  have hdrop : ∀ l : List Char, (∀ c ∈ l, isBlank c = false) → l.dropWhile isBlank = l := by
    intro l hl
    cases l with
    | nil => rfl
    | cons c l => rw [List.dropWhile_cons_of_neg (by simp [hl c])]
  rw [trim, hdrop core h, hdrop core.reverse fun c hc => h c (List.mem_reverse.1 hc),
    List.reverse_reverse]

/-- The visible characters of ASCII are not blank. -/
theorem isBlank_eq_false_of_visible {c : Char} (h : 33 ≤ c.toNat ∧ c.toNat ≤ 126) :
    isBlank c = false := by
  simp only [isBlank, blankRanges, List.any_cons, List.any_nil, Bool.or_false, Bool.or_eq_false_iff,
    Bool.and_eq_false_iff, decide_eq_false_iff_not]
  omega

/-! ## Numbers -/

theorem isBlank_eq_false_of_isDigit {c : Char} (h : c.isDigit) : isBlank c = false := by
  have hc : 48 ≤ c.toNat ∧ c.toNat ≤ 57 := by
    simpa [Char.isDigit, UInt32.le_iff_toNat_le] using h
  exact isBlank_eq_false_of_visible (by omega)

/-- A sign and digits hold no blank. -/
theorem trim_numeral {sign digits : List Char} (hsign : sign = [] ∨ sign = ['+'])
    (hdigits : ∀ c ∈ digits, c.isDigit) : trim (sign ++ digits) = sign ++ digits := by
  refine trim_of_not_blank fun c hc => ?_
  rcases List.mem_append.1 hc with hc | hc
  · rcases hsign with rfl | rfl
    · cases hc
    · rw [List.mem_singleton.1 hc]
      decide
  · exact isBlank_eq_false_of_isDigit (hdigits c hc)

theorem dropPlus_numeral {sign digits : List Char} (hsign : sign = [] ∨ sign = ['+'])
    (hdigits : ∀ c ∈ digits, c.isDigit) : dropPlus (sign ++ digits) = digits := by
  rcases hsign with rfl | rfl
  · exact dropPlus_of_isDigit hdigits
  · rfl

theorem exists_sign (text : List Char) :
    ∃ sign, (sign = [] ∨ sign = ['+']) ∧ text = sign ++ dropPlus text := by
  unfold dropPlus
  split
  · exact ⟨['+'], Or.inr rfl, rfl⟩
  · exact ⟨[], Or.inl rfl, rfl⟩

theorem readDigits?_eq_some_iff {digits : List Char} :
    readDigits? digits = some n ↔
      digits ≠ [] ∧ (∀ c ∈ digits, c.isDigit) ∧ Nat.ofDigitChars 10 digits 0 = n := by
  simp [readDigits?, and_assoc]

/-- The word that is read from a trimmed text is the number that the text writes, where a
word holds it. -/
theorem readWord?_trim_eq_some_iff :
    readWord? (trim text) = some n ↔ Writes text n ∧ n < wordCount := by
  rw [readWord?, Option.filter_eq_some_iff, readDigits?_eq_some_iff, decide_eq_true_iff]
  refine and_congr_left fun _ => ⟨?_, ?_⟩
  · rintro ⟨hne, hdigits, hvalue⟩
    obtain ⟨sign, hsign, htrim⟩ := exists_sign (trim text)
    exact ⟨sign, dropPlus (trim text), hsign, htrim ▸ padded_trim text, hne, hdigits, hvalue⟩
  · rintro ⟨sign, digits, hsign, hpadded, hne, hdigits, hvalue⟩
    rw [trim_eq_of_padded hpadded, trim_numeral hsign hdigits, dropPlus_numeral hsign hdigits]
    exact ⟨hne, hdigits, hvalue⟩

/-- The number that a text writes if it is there and a word holds the number, the default
otherwise. -/
inductive Number (standard : Nat) : Option String → Nat → Prop
  | missing : Number standard none standard
  | written {s : String} {n : Nat} : Writes s.toList n → n < wordCount → Number standard (some s) n
  | unreadable {s : String} : (∀ n, Writes s.toList n → wordCount ≤ n) →
    Number standard (some s) standard

/-- Reading a text that may be missing finds its number, and there is only one. -/
theorem number_iff {standard : Nat} {s? : Option String} :
    Number standard s? n ↔
      (s?.bind fun s => readWord? (trim s.toList)).getD standard = n := by
  cases s? with
  | none =>
    constructor
    · rintro ⟨⟩
      rfl
    · rintro rfl
      exact .missing
  | some s =>
    rw [Option.bind_some]
    cases hread : readWord? (trim s.toList) with
    | none =>
      have hnone : ∀ k, Writes s.toList k → wordCount ≤ k := fun k hk =>
        Nat.le_of_not_lt fun hlt => by
          rw [readWord?_trim_eq_some_iff.2 ⟨hk, hlt⟩] at hread
          cases hread
      constructor
      · rintro (_ | ⟨hwrites, hlt⟩ | _)
        · exact absurd (hnone n hwrites) (Nat.not_le.2 hlt)
        · rfl
      · rintro rfl
        exact .unreadable hnone
    | some k =>
      obtain ⟨hwrites, hlt⟩ := readWord?_trim_eq_some_iff.1 hread
      constructor
      · rintro (_ | ⟨hwrites', hlt'⟩ | hnone)
        · rw [readWord?_trim_eq_some_iff.2 ⟨hwrites', hlt'⟩] at hread
          exact (Option.some.inj hread).symm
        · exact absurd (hnone k hwrites) (Nat.not_le.2 hlt)
      · rintro rfl
        exact .written hwrites hlt

/-- Texts that are the same but for blanks are read as the same number. -/
theorem bind_readWord?_eq {s? t? : Option String}
    (h : Option.Rel (fun s t => SameText s.toList t.toList) s? t?) :
    (s?.bind fun s => readWord? (trim s.toList)) = t?.bind fun t => readWord? (trim t.toList) := by
  cases h with
  | none => rfl
  | some hsame => exact congrArg readWord? hsame.trim_eq

/-! ## Words -/

/-- No blank has a case. -/
theorem isBlank_toLower (c : Char) : isBlank c.toLower = isBlank c := by
  unfold Char.toLower
  split
  · rename_i h
    have hc : 65 ≤ c.toNat ∧ c.toNat ≤ 90 := by
      simpa [UInt32.le_iff_toNat_le] using h
    have hlower : (c.val + ('a'.val - 'A'.val)).toNat = c.toNat + 32 := by
      have hsum : (c.val + 32).toNat = (c.toNat + 32) % 2 ^ 32 := UInt32.toNat_add c.val 32
      have hcase : 'a'.val - 'A'.val = (32 : UInt32) := by decide
      rw [hcase, hsum]
      omega
    have hvisible : 33 ≤ (c.val + ('a'.val - 'A'.val)).toNat ∧
        (c.val + ('a'.val - 'A'.val)).toNat ≤ 126 := by
      omega
    rw [isBlank_eq_false_of_visible (c := c) (by omega)]
    exact isBlank_eq_false_of_visible (c := ⟨_, _⟩) hvisible
  · rfl

theorem lowerCase_trim (text : List Char) : lowerCase (trim text) = trim (lowerCase text) := by
  have hblank : isBlank ∘ Char.toLower = isBlank := funext isBlank_toLower
  simp only [lowerCase, trim, List.dropWhile_map, hblank, ← List.map_reverse]

theorem SameWord.lowerCase_trim_eq (h : SameWord text text') :
    lowerCase (trim text) = lowerCase (trim text') := by
  obtain ⟨core, core', hpadded, hpadded', hsame⟩ := h
  rw [trim_eq_of_padded hpadded, trim_eq_of_padded hpadded', lowerCase_trim, lowerCase_trim, hsame]

/-- A trimmed text in lower case is the word that it spells. -/
theorem spells_iff (hword : trim word = word) :
    Spells text word ↔ lowerCase (trim text) = word := by
  constructor
  · rintro ⟨core, hpadded, hcore⟩
    rw [trim_eq_of_padded hpadded, lowerCase_trim, hcore, hword]
  · intro hspells
    exact ⟨trim text, padded_trim text, hspells⟩

/-- What a lower-case word stands for by a table, or by default. -/
def meaning {α : Type} (table : List (String × α)) (standard : α) (word : List Char) : α :=
  ((table.find? fun entry => entry.1.toList = word).map Prod.snd).getD standard

section Tables

variable {α : Type} {table : List (String × α)} {standard a : α} {s? : Option String}

theorem meaning_nil (standard : α) (word : List Char) : meaning [] standard word = standard := rfl

theorem meaning_cons (entry : String × α) (table : List (String × α)) (standard : α)
    (word : List Char) :
    meaning (entry :: table) standard word =
      if word = entry.1.toList then entry.2 else meaning table standard word := by
  by_cases h : word = entry.1.toList
  · simp [meaning, h]
  · have hne : ¬ entry.1.toList = word := fun heq => h heq.symm
    simp [meaning, h, hne]

/-- What the word of the table that a text spells stands for, if there is a text and it
spells one; the default otherwise. -/
inductive Named (table : List (String × α)) (standard : α) : Option String → α → Prop
  | missing : Named table standard none standard
  | known {s word : String} {a : α} : (word, a) ∈ table → Spells s.toList word.toList →
    Named table standard (some s) a
  | unknown {s : String} : (∀ entry ∈ table, ¬ Spells s.toList entry.1.toList) →
    Named table standard (some s) standard

theorem find?_of_mem {word : String} (hnodup : (table.map Prod.fst).Nodup)
    (hmem : (word, a) ∈ table) :
    (table.find? fun entry => entry.1.toList = word.toList) = some (word, a) := by
  induction table with
  | nil => cases hmem
  | cons entry table ih =>
    obtain ⟨hnew, hnodup⟩ := List.nodup_cons.1 hnodup
    rcases List.mem_cons.1 hmem with rfl | hmem
    · simp
    · have hne : entry.1 ≠ word := by
        rintro rfl
        exact hnew (List.mem_map.2 ⟨_, hmem, rfl⟩)
      rw [List.find?_cons_of_neg (by simpa [String.toList_inj] using hne)]
      exact ih hnodup hmem

/-- Looking up the trimmed text finds what it stands for, and there is only one such thing,
as long as no word is in the table twice or has blanks around it. -/
theorem named_iff (hnodup : (table.map Prod.fst).Nodup)
    (htrim : ∀ entry ∈ table, trim entry.1.toList = entry.1.toList) :
    Named table standard s? a ↔
      (s?.map fun s => meaning table standard (lowerCase (trim s.toList))).getD standard = a := by
  cases s? with
  | none =>
    constructor
    · rintro ⟨⟩
      rfl
    · rintro rfl
      exact .missing
  | some s =>
    rw [Option.map_some, Option.getD_some, meaning]
    constructor
    · rintro (_ | ⟨hmem, hspells⟩ | hnone)
      · rw [(spells_iff (htrim _ hmem)).1 hspells, find?_of_mem hnodup hmem]
        rfl
      · have hfind : (table.find? fun entry => entry.1.toList = lowerCase (trim s.toList)) =
            none := by
          refine List.find?_eq_none.2 fun entry hentry heq => hnone entry hentry ?_
          exact (spells_iff (htrim entry hentry)).2 (of_decide_eq_true heq).symm
        rw [hfind]
        rfl
    · rintro rfl
      cases hfind : table.find? fun entry => entry.1.toList = lowerCase (trim s.toList) with
      | none =>
        refine .unknown fun entry hentry hspells => ?_
        have heq := (spells_iff (htrim entry hentry)).1 hspells
        exact List.find?_eq_none.1 hfind entry hentry (decide_eq_true heq.symm)
      | some entry =>
        have hentry := List.mem_of_find?_eq_some hfind
        have heq : entry.1.toList = lowerCase (trim s.toList) := by
          simpa using List.find?_some hfind
        exact .known hentry ((spells_iff (htrim entry hentry)).2 heq.symm)

/-- Texts that are the same but for blanks and case mean the same. -/
theorem map_meaning_eq (table : List (String × α)) (standard : α) {s? t? : Option String}
    (h : Option.Rel (fun s t => SameWord s.toList t.toList) s? t?) :
    (s?.map fun s => meaning table standard (lowerCase (trim s.toList))) =
      t?.map fun t => meaning table standard (lowerCase (trim t.toList)) := by
  cases h with
  | none => rfl
  | some hsame => exact congrArg (some <| meaning table standard ·) hsame.lowerCase_trim_eq

end Tables

end SegregatedFit.Text
