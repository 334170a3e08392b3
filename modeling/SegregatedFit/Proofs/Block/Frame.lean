-- SUMMARY: Which bytes belong to a block, what an edit of the memory leaves alone, and writing tags.
import SegregatedFit.Block.Size
import SegregatedFit.Block.Tiling

/-!
# Bytes of a block

A block owns its header, its payload and its footer. `Edited m m' within` says
that the two memories differ in the bytes `within` at most; what is read from
other bytes is then the same. Main statement: `taggedIn_tagged`, a block whose
tags are written is tagged, and only its tags changed (`edited_tagged`).
-/
namespace SegregatedFit

/-- `m'` is `m` after an edit that touched no byte but those `within`. -/
structure Memory.Edited (m m' : Memory) (within : Nat → Prop) : Prop where
  size_eq : m'.size = m.size
  byteAt_eq : ∀ i, ¬ within i → m'.byteAt i = m.byteAt i

namespace Memory

variable {m m' m'' : Memory} {w w' : Nat → Prop}

theorem Edited.refl (m : Memory) (w : Nat → Prop) : m.Edited m w :=
  ⟨rfl, fun _ _ => rfl⟩

theorem Edited.mono (h : m.Edited m' w) (hw : ∀ i, w i → w' i) : m.Edited m' w' :=
  ⟨h.size_eq, fun i hi => h.byteAt_eq i fun hwi => hi (hw i hwi)⟩

theorem Edited.trans (h : m.Edited m' w) (h' : m'.Edited m'' w) : m.Edited m'' w :=
  ⟨h'.size_eq.trans h.size_eq, fun i hi => (h'.byteAt_eq i hi).trans (h.byteAt_eq i hi)⟩

/-- A load of bytes that the edit left alone. -/
theorem Edited.load_eq (h : m.Edited m' w) {off n : Nat}
    (hout : ∀ i, off ≤ i → i < off + n → ¬ w i) : m'.load off n = m.load off n :=
  load_congr fun i hi hlt => h.byteAt_eq i (hout i hi hlt)

theorem Edited.readWord_eq (h : m.Edited m' w) {off : Nat}
    (hout : ∀ i, off ≤ i → i < off + wordSize → ¬ w i) : m'.readWord off = m.readWord off := by
  simp only [readWord, h.size_eq, h.load_eq hout]

/-- Past the end a load sees zeros. -/
theorem load_of_size_le {m : Memory} {off : Nat} (h : m.size ≤ off) (n : Nat) :
    m.load off n = 0 := by
  induction n generalizing off with
  | zero => rfl
  | succ n ih => rw [load, ih (Nat.le_succ_of_le h), byteAt_of_size_le h]; rfl

/-- Loads from two places with the same bytes. -/
theorem load_eq_of_shifted {off off' n : Nat}
    (h : ∀ k, k < n → m'.byteAt (off' + k) = m.byteAt (off + k)) :
    m'.load off' n = m.load off n := by
  induction n generalizing off off' with
  | zero => rfl
  | succ n ih =>
    have hfirst : m'.byteAt off' = m.byteAt off := h 0 (Nat.succ_pos n)
    rw [load, load, hfirst, ih fun k hk => ?_]
    rw [Nat.add_right_comm off' 1 k, Nat.add_right_comm off 1 k]
    exact h (k + 1) (Nat.succ_lt_succ hk)

/-- A loaded number leaves its bytes no choice. -/
theorem byteAt_eq_of_load_eq {off n i : Nat} (h : m'.load off n = m.load off n) (hi : off ≤ i)
    (hlt : i < off + n) : m'.byteAt i = m.byteAt i := by
  induction n generalizing off with
  | zero => omega
  | succ n ih =>
    have hbyte := (m.byteAt off).toNat_lt
    have hbyte' := (m'.byteAt off).toNat_lt
    rw [load, load] at h
    have hrest : m'.load (off + 1) n = m.load (off + 1) n := by omega
    rcases Nat.eq_or_lt_of_le hi with rfl | hi
    · exact UInt8.toNat_inj.1 (by omega)
    · exact ih hrest hi (by omega)

/-- A copied byte is the one that it was copied from. -/
theorem byteAt_copied {src n dst k : Nat} (hin : dst + n ≤ m.size) (hk : k < n) :
    (m.setSlice dst (m.slice src n)).byteAt (dst + k) = m.byteAt (src + k) := by
  have hslice : (m.setSlice dst (m.slice src n)).slice dst (m.slice src n).length =
      m.slice src n := slice_setSlice (by rwa [length_slice])
  rw [length_slice] at hslice
  have hbyte := congrArg (·[k]?) hslice
  simpa [slice, hk] using hbyte

/-- A load sees the last store to its bytes. -/
theorem load_store {m : Memory} {off value n : Nat} (h : off + n ≤ m.size)
    (hv : value < 256 ^ n) : (m.store off value n).load off n = value := by
  induction n generalizing m off value with
  | zero => simp_all [load]
  | succ n ih =>
    have hlt : value / 256 < 256 ^ n :=
      Nat.div_lt_of_lt_mul (by rwa [Nat.pow_succ, Nat.mul_comm] at hv)
    rw [load, store, ih (by simp; omega) hlt, byteAt_store_of_outside (by omega),
      byteAt_setByte_self _ (by omega)]
    simp only [UInt8.toNat_ofNat']
    omega

theorem edited_store (m : Memory) (off value n : Nat) :
    m.Edited (m.store off value n) fun i => off ≤ i ∧ i < off + n := by
  refine ⟨size_store m off value n, ?_⟩
  intro i hi
  exact byteAt_store_of_outside (by omega)

theorem edited_setSlice (m : Memory) (off : Nat) (bs : List UInt8) :
    m.Edited (m.setSlice off bs) fun i => off ≤ i ∧ i < off + bs.length := by
  refine ⟨size_setSlice m off bs, ?_⟩
  intro i hi
  exact byteAt_setSlice_of_outside (by omega)

/-- `m'` is no shorter than `m` and has the same bytes where `keep` holds. -/
structure Kept (m m' : Memory) (keep : Nat → Prop) : Prop where
  size_le : m.size ≤ m'.size
  byteAt_eq : ∀ i, keep i → m'.byteAt i = m.byteAt i

theorem Kept.trans {keep : Nat → Prop} (h : m.Kept m' keep) (h' : m'.Kept m'' keep) :
    m.Kept m'' keep :=
  ⟨Nat.le_trans h.size_le h'.size_le, fun i hi => (h'.byteAt_eq i hi).trans (h.byteAt_eq i hi)⟩

theorem Kept.mono {keep keep' : Nat → Prop} (h : m.Kept m' keep) (hkeep : ∀ i, keep' i → keep i) :
    m.Kept m' keep' :=
  ⟨h.size_le, fun i hi => h.byteAt_eq i (hkeep i hi)⟩

theorem Edited.kept {keep : Nat → Prop} (h : m.Edited m' w) (hout : ∀ i, keep i → ¬ w i) :
    m.Kept m' keep :=
  ⟨Nat.le_of_eq h.size_eq.symm, fun i hi => h.byteAt_eq i (hout i hi)⟩

/-- Slices of bytes that did not change. -/
theorem slice_congr {off n : Nat} (h : ∀ i, off ≤ i → i < off + n → m'.byteAt i = m.byteAt i) :
    m'.slice off n = m.slice off n := by
  apply List.map_congr_left
  intro i hi
  obtain ⟨k, hk, rfl⟩ := List.mem_range'.1 hi
  exact h _ (by omega) (by omega)

end Memory

namespace Block

namespace Span

/-- The bytes of the header, the payload and the footer. -/
def Covers (s : Span) (i : Nat) : Prop := s.offset ≤ i + wordSize ∧ i + wordSize < s.stop

/-- The bytes between the tags. -/
def InPayload (s : Span) (i : Nat) : Prop := s.offset ≤ i ∧ i + pairSize < s.stop

/-- The bytes of the two tags. -/
def InTags (s : Span) (i : Nat) : Prop :=
  s.offset ≤ i + wordSize ∧ i < s.offset ∨ s.stop ≤ i + pairSize ∧ i + wordSize < s.stop

/-- The block has room for two tags and lies inside a memory of words. -/
structure Inside (s : Span) (m : Memory) : Prop where
  start_le : wordSize ≤ s.offset
  pair_le : pairSize ≤ s.size
  stop_le : s.stop ≤ m.size
  size_lt : m.size < wordCount

/-- The block has room for two tags, and both lie inside the memory. What follows the
footer need not: the block may be the last thing there is. -/
structure Fits (s : Span) (m : Memory) : Prop where
  start_le : wordSize ≤ s.offset
  pair_le : pairSize ≤ s.size
  footer_le : s.stop ≤ m.size + wordSize
  stop_lt : s.stop < wordCount

theorem Inside.fits {m : Memory} {s : Span} (h : s.Inside m) : s.Fits m where
  start_le := h.start_le
  pair_le := h.pair_le
  footer_le := Nat.le_trans h.stop_le (Nat.le_add_right _ _)
  stop_lt := Nat.lt_of_le_of_lt h.stop_le h.size_lt

theorem Fits.of_size_eq {m m' : Memory} {s : Span} (h : s.Fits m) (hsize : m'.size = m.size) :
    s.Fits m' :=
  ⟨h.start_le, h.pair_le, hsize ▸ h.footer_le, h.stop_lt⟩

theorem Inside.of_size_eq {m m' : Memory} {s : Span} (h : s.Inside m) (hsize : m'.size = m.size) :
    s.Inside m' :=
  ⟨h.start_le, h.pair_le, hsize ▸ h.stop_le, hsize ▸ h.size_lt⟩

/-- Whether the block is free. -/
def isFree (s : Span) : Bool := !s.allocated

theorem isFree_iff {s : Span} : s.isFree = true ↔ s.allocated = false := by
  simp [isFree]

theorem Covers.of_inPayload {s : Span} {i : Nat} (h : s.InPayload i) : s.Covers i := by
  simp only [Covers, InPayload, wordSize, pairSize] at *
  omega

theorem Covers.of_inTags {s : Span} {i : Nat} (hs : pairSize ≤ s.size) (h : s.InTags i) :
    s.Covers i := by
  simp only [Covers, InTags, stop, wordSize, pairSize] at *
  omega

theorem not_inTags_of_inPayload {s : Span} {i : Nat} (h : s.InPayload i) : ¬ s.InTags i := by
  simp only [InTags, InPayload, wordSize, pairSize] at *
  omega

/-- A payload reads the same where the bytes of its block did not change. -/
theorem slice_congr {m m' : Memory} {s : Span} {n : Nat} (hn : n ≤ payloadSize s.size)
    (h : ∀ i, s.Covers i → m'.byteAt i = m.byteAt i) : m'.slice s.offset n = m.slice s.offset n := by
  refine Memory.slice_congr fun i hi hlt => h i (.of_inPayload ⟨hi, ?_⟩)
  simp only [Span.stop, payloadSize, pairSize] at *
  omega

/-- Blocks that follow one another share no byte. -/
theorem Covers.apart {s t : Span} {i : Nat} (hs : s.Covers i) (ht : t.Covers i)
    (h : s.stop ≤ t.offset ∨ t.stop ≤ s.offset) : False := by
  simp only [Covers, wordSize] at *
  omega

end Span

/-! ## Reading tags -/

variable {m m' : Memory} {s : Span} {w : Nat → Prop}

theorem readTag_of_le {off : Nat} (h : off + wordSize ≤ m.size) :
    readTag m off = .ok (.decode (m.load off wordSize)) := by
  simp only [readTag, Memory.readWord, if_pos h]
  rfl

theorem readTag_eq_ok_iff {off : Nat} {tag : Tag} :
    readTag m off = .ok tag ↔
      off + wordSize ≤ m.size ∧ Tag.decode (m.load off wordSize) = tag := by
  by_cases h : off + wordSize ≤ m.size
  · simp [readTag_of_le h, h]
  · simp [readTag, Memory.readWord, h, bind, Except.bind]

/-- A tag in bytes that an edit left alone. -/
theorem readTag_edited (h : m.Edited m' w) {off : Nat}
    (hout : ∀ i, off ≤ i → i < off + wordSize → ¬ w i) : readTag m' off = readTag m off := by
  simp only [readTag, h.readWord_eq hout]

theorem header_of_fits (h : s.Fits m) :
    header m s.offset = readTag m (s.offset - wordSize) := by
  rw [header, headerOffset_of_le h.start_le]

theorem footerOffset_of_fits (h : s.Fits m) :
    footerOffset s.offset s.size = s.stop - pairSize := by
  have hpair := h.pair_le
  have hlt := h.stop_lt
  simp only [Span.stop] at *
  exact footerOffset_of_le (by omega) hlt

/-- The two words of a tagged block. -/
theorem taggedIn_iff (h : s.Fits m) :
    s.TaggedIn m ↔ readTag m (s.offset - wordSize) = .ok s.tag ∧
      readTag m (s.stop - pairSize) = .ok s.tag := by
  rw [Span.TaggedIn, header_of_fits h, footerOffset_of_fits h]

/-- A block stays tagged under an edit that keeps away from its tags. -/
theorem Span.TaggedIn.edited (ht : s.TaggedIn m) (hs : s.Fits m) (h : m.Edited m' w)
    (hout : ∀ i, s.InTags i → ¬ w i) : s.TaggedIn m' := by
  have hs' := hs.of_size_eq h.size_eq
  have hstart := hs.start_le
  have hpair := hs.pair_le
  rw [taggedIn_iff hs] at ht
  rw [taggedIn_iff hs']
  simp only [Span.InTags, Span.stop, wordSize, pairSize] at *
  constructor
  · rw [← ht.1]
    refine readTag_edited h fun i hi hlt => hout i (Or.inl ?_)
    simp only [wordSize] at hlt
    omega
  · rw [← ht.2]
    refine readTag_edited h fun i hi hlt => hout i (Or.inr ?_)
    simp only [wordSize] at hlt
    omega

/-- The two tags of a block are the header and the footer that are found through it. -/
theorem Span.TaggedIn.footer_eq (ht : s.TaggedIn m) : footer m s.offset = .ok s.tag := by
  rw [footer, ht.1]
  exact ht.2

/-- A tagged block leads to where it ends. -/
theorem Span.TaggedIn.next_eq (ht : s.TaggedIn m) (hlt : s.stop < wordCount) :
    next m s.offset = .ok s.stop := by
  have hlt' : s.offset + s.tag.size < wordCount := hlt
  simp only [next, ht.1, bind, Except.bind, if_pos hlt']
  rfl

/-- A tagged block is found from where it ends. -/
theorem Span.TaggedIn.previous_eq (ht : s.TaggedIn m) (hlt : s.stop < wordCount) :
    previous m s.stop = .ok s.offset := by
  have hfooter : footerOffset s.offset s.size = Word.wrapSub s.stop pairSize := by
    rw [footerOffset, Word.wrapAdd_of_lt hlt]
    rfl
  have htag : readTag m (Word.wrapSub s.stop pairSize) = .ok s.tag := hfooter ▸ ht.2
  have hle : s.tag.size ≤ s.stop := Nat.le_add_left _ _
  simp only [previous, htag, bind, Except.bind, if_pos hle]
  simp [Span.stop, Span.tag]

/-! ## Writing tags -/

/-- The memory with the two tags of the block. -/
def tagged (m : Memory) (s : Span) : Memory :=
  (m.store (s.offset - wordSize) s.tag.encode wordSize).store (s.stop - pairSize) s.tag.encode
    wordSize

theorem writeTags_apply (h : s.Fits m) :
    writeTags s.offset s.tag m = .ok () (tagged m s) := by
  have hstart := h.start_le
  have hpair := h.pair_le
  have hstop := h.footer_le
  have hfirst : headerOffset s.offset = s.offset - wordSize := headerOffset_of_le h.start_le
  have hlast : footerOffset s.offset s.tag.size = s.stop - pairSize := footerOffset_of_fits h
  have hheader : ¬ m.size < s.offset - wordSize + wordSize := by
    simp only [Span.stop, wordSize, pairSize] at *
    omega
  have hfooter : ¬ m.size < s.stop - pairSize + wordSize := by
    simp only [Span.stop, wordSize, pairSize] at *
    omega
  simp only [writeTags, hfirst, hlast, tagged, if_neg hheader, if_neg hfooter]

theorem edited_tagged (h : s.Fits m) : m.Edited (tagged m s) s.InTags := by
  have hstart := h.start_le
  have hpair := h.pair_le
  have hheader : m.Edited (m.store (s.offset - wordSize) s.tag.encode wordSize) s.InTags := by
    refine (m.edited_store _ _ _).mono ?_
    intro i hi
    simp only [Span.InTags, Span.stop, wordSize, pairSize] at *
    omega
  refine hheader.trans ((Memory.edited_store _ _ _ _).mono ?_)
  intro i hi
  simp only [Span.InTags, Span.stop, wordSize, pairSize] at *
  omega

@[simp] theorem size_tagged (m : Memory) (s : Span) : (tagged m s).size = m.size := by
  simp [tagged]

/-- The memory holds the very words of the tag. A word that only reads as the tag may
differ from it in bits that mean nothing. -/
structure Span.Stamped (s : Span) (m : Memory) : Prop where
  header_eq : m.load (s.offset - wordSize) wordSize = s.tag.encode
  footer_eq : m.load (s.stop - pairSize) wordSize = s.tag.encode

/-- Writing tags stamps the block. -/
theorem stamped_tagged (h : s.Fits m) (hdvd : pairSize ∣ s.size) : s.Stamped (tagged m s) := by
  have hstart := h.start_le
  have hpair := h.pair_le
  have hstop := h.footer_le
  have hlt := h.stop_lt
  have hword : s.tag.encode < 256 ^ wordSize := by
    have hsize : s.tag.size < wordCount := by simp only [Span.tag, Span.stop] at *; omega
    exact Tag.encode_lt hdvd hsize
  simp only [Span.stop, wordSize, pairSize] at *
  constructor
  · rw [tagged, Memory.load_store_of_disjoint (by simp only [Span.stop, wordSize, pairSize]; omega),
      Memory.load_store (by omega) hword]
  · rw [tagged]
    simp only [Span.stop, wordSize, pairSize]
    rw [Memory.load_store (by rw [Memory.size_store]; omega) hword]

-- from here on, what is known of `tagged` are the lemmas above
attribute [irreducible] tagged

/-- A stamped block reads back its tags. -/
theorem Span.Stamped.taggedIn (hstamped : s.Stamped m) (h : s.Fits m) (hdvd : pairSize ∣ s.size) :
    s.TaggedIn m := by
  have hstart := h.start_le
  have hpair := h.pair_le
  have hstop := h.footer_le
  have hdecode : Tag.decode s.tag.encode = s.tag := Tag.decode_encode hdvd
  rw [taggedIn_iff h, readTag_eq_ok_iff, readTag_eq_ok_iff, hstamped.header_eq,
    hstamped.footer_eq]
  simp only [Span.stop, wordSize, pairSize] at *
  exact ⟨⟨by omega, hdecode⟩, ⟨by omega, hdecode⟩⟩

/-- A block whose tags were written reads back its tags. -/
theorem taggedIn_tagged (h : s.Fits m) (hdvd : pairSize ∣ s.size) : s.TaggedIn (tagged m s) :=
  (stamped_tagged h hdvd).taggedIn (h.of_size_eq (size_tagged m s)) hdvd

/-- A block stays stamped where the bytes of its tags stay. -/
theorem Span.Stamped.congr (hstamped : s.Stamped m) (h : s.Fits m)
    (hsame : ∀ i, s.InTags i → m'.byteAt i = m.byteAt i) : s.Stamped m' := by
  have hstart := h.start_le
  have hpair := h.pair_le
  constructor
  · rw [← hstamped.header_eq]
    refine Memory.load_congr fun i hi hlt => hsame i (Or.inl ?_)
    simp only [wordSize] at *
    omega
  · rw [← hstamped.footer_eq]
    refine Memory.load_congr fun i hi hlt => hsame i (Or.inr ?_)
    simp only [Span.stop, wordSize, pairSize] at *
    omega

/-- Two memories that a block is stamped in have the same bytes in its tags. -/
theorem Span.Stamped.byteAt_eq (hstamped : s.Stamped m) (hstamped' : s.Stamped m')
    (h : s.Fits m) {i : Nat} (hi : s.InTags i) : m'.byteAt i = m.byteAt i := by
  have hstart := h.start_le
  have hpair := h.pair_le
  have hheader := hstamped'.header_eq.trans hstamped.header_eq.symm
  have hfooter := hstamped'.footer_eq.trans hstamped.footer_eq.symm
  simp only [Span.InTags, Span.stop, wordSize, pairSize] at *
  rcases hi with hi | hi
  · exact Memory.byteAt_eq_of_load_eq hheader (by omega) (by omega)
  · exact Memory.byteAt_eq_of_load_eq hfooter (by omega) (by omega)

end Block
end SegregatedFit
