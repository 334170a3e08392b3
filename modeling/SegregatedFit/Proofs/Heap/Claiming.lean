-- SUMMARY: Which blocks a heap claims after an operation.
import SegregatedFit.Proofs.Heap.Founding
import SegregatedFit.Proofs.Heap.Readings
import SegregatedFit.Proofs.Heap.Resizing

/-!
# Claiming

Freeing takes back the claim of its block (`claims_free`), allocating makes one claim
(`claims_allocate`), and moving a payload does both (`claims_relocate`): the copy
claims nothing, since there was no claim inside the payload. So a heap whose claims
are those of its live blocks stays so (`Candid`), as long as no one else writes into
its memory.
-/
namespace SegregatedFit.Heap

open Block SegregatedFit.Action

variable {h g : Heap Arena} {spans : List Span} {s : Span} {n p ptr : Nat} {live : List Nat}
variable {rings : Bucket → List Nat}

/-! ## Claims after an operation -/

/-- Freeing a block takes back its claim, and makes none. -/
theorem claims_free (h' : h.Arranged spans rings) (hs : s ∈ held spans)
    (hrun : free s.offset h = .ok () g) (hptr : Claims g.region.memory ptr) :
    ptr ≠ s.offset ∧ Claims h.region.memory ptr := by
  obtain ⟨hoff, hsize, -⟩ := h'.row.proper s (mem_held.1 hs).1
  obtain ⟨front, back, rfl, halloc⟩ := exists_middle_of_held hs
  obtain ⟨hin, hmerge⟩ := rewritten_of_freed h' halloc hrun
  have htags : Claims (tagged h.region.memory s.freed) ptr := hmerge.claims_of_nil hptr
  exact (claims_tagged hin hoff hsize htags).resolve_left fun hclaim => Bool.noConfusion hclaim.2

/-- Allocating claims the block that it hands out. -/
theorem claims_allocate (h' : h.Arranged spans rings) (hconfig : h.config.normalized = h.config)
    (hrun : allocate n h = .ok p g) (hptr : Claims g.region.memory ptr) :
    Claims h.region.memory ptr ∨ ptr = p := by
  obtain ⟨k, size, growths, front, s, back, rfl, hready, -, hcarved, -⟩ :=
    exists_carves_of_allocate h' hconfig hrun
  exact (hcarved.claims ptr hptr).imp (hready.claims ptr) List.mem_singleton.1

/-- An allocation that was answered made a new block. -/
theorem exists_exchanged_of_allocate (h' : h.Arranged spans rings)
    (hconfig : h.config.normalized = h.config) (hrun : allocate n h = .ok p g) :
    ∃ spans' t, t.offset = p ∧ h.Exchanged g spans spans' [] [t] ∧ n ≤ payloadSize t.size := by
  rcases allocate_cases h' hconfig n with
    ⟨cause, events, hrefused⟩ | ⟨trap, k, htrapped⟩ | ⟨k, spans', t, hallocated, hex, hfits⟩
  · rw [hrefused] at hrun
    cases hrun
  · rw [htrapped] at hrun
    cases hrun
  · rw [hallocated] at hrun
    cases hrun
    exact ⟨spans', t, rfl, hex, hfits⟩

/-- No block begins inside the payload of another one. -/
theorem offset_not_in_payload {t : Span} (h' : h.Arranged spans rings) (hs : s ∈ spans)
    (ht : t ∈ spans) {k : Nat} (hpos : 0 < k) (hk : k ≤ payloadSize s.size) :
    t.offset ≠ s.offset + k := by
  have hbt := h'.row.bounds ht
  intro hoff
  rcases h'.row.tiles.eq_or_apart hs ht with rfl | hapart
  · omega
  · simp only [payloadSize, Span.stop, pairSize, minBlock] at *
    omega

/-- Copying a payload in which there is no claim, and then freeing its block. -/
theorem claims_transfer {k₁ k₂ : Heap Arena} {t : Span} (h' : h.Arranged spans rings)
    (hs : s ∈ held spans) (ht : t ∈ held spans)
    (hfits : payloadSize s.size ≤ payloadSize t.size)
    (hinner : ∀ k, 0 < k → k ≤ payloadSize s.size → ¬ Claims h.region.memory (s.offset + k))
    (hcopy : write (Memory.copy s.offset (payloadSize s.size) t.offset) h = .ok () k₁)
    (hfree : free s.offset k₁ = .ok () k₂) (hptr : Claims k₂.region.memory ptr) :
    ptr ≠ s.offset ∧ Claims h.region.memory ptr := by
  obtain ⟨hrun, hedit⟩ := copy_apply h' hs ht hfits
  obtain ⟨-, rfl⟩ := EStateM.Result.ok.inj (hrun.symm.trans hcopy)
  obtain ⟨hne, hcopied⟩ := claims_free (h'.edited_payload ht hedit) hs hfree hptr
  obtain ⟨hsoff, hssize, -⟩ := h'.row.proper s (mem_held.1 hs).1
  obtain ⟨htoff, -, -⟩ := h'.row.proper t (mem_held.1 ht).1
  have hbs := h'.row.bounds (mem_held.1 hs).1
  have hbt := h'.row.bounds (mem_held.1 ht).1
  have hsin : s.offset + payloadSize s.size ≤ h.region.memory.size := by
    simp only [payloadSize, Span.stop, pairSize, minBlock] at *
    omega
  have htin : t.offset + payloadSize s.size ≤ h.region.memory.size := by
    simp only [payloadSize, Span.stop, pairSize, minBlock] at *
    omega
  rcases claims_copied hsoff htoff (Nat.dvd_sub hssize (Nat.dvd_refl _)) hsin htin hcopied with
    hclaims | ⟨k, hpos, hk, hclaims⟩
  · exact ⟨hne, hclaims⟩
  · exact (hinner k hpos hk hclaims).elim

/-- A move that was answered copied the payload into a new block that is large enough. -/
theorem exists_exchanged_of_relocate (h' : h.Arranged spans rings)
    (hconfig : h.config.normalized = h.config) (hs : s ∈ held spans)
    (hgrows : payloadSize s.size < n) (hrun : relocate s.offset s.size n h = .ok p g) :
    ∃ target k₁ k₂ k₃ spans' rings' t, t.offset = p ∧
      h.Relocated g s.offset s.size n p target k₁ k₂ k₃ ∧ k₁.Arranged spans' rings' ∧
      s ∈ held spans' ∧ t ∈ held spans' ∧ payloadSize s.size ≤ payloadSize t.size := by
  obtain ⟨target, k₁, k₂, k₃, hmoved⟩ := relocated_of_ok hrun
  obtain ⟨spans', t, rfl, hex, hroom⟩ := exists_exchanged_of_allocate h' hconfig hmoved.allocated
  obtain ⟨rings', k'⟩ := hex.arranged
  refine ⟨target, k₁, k₂, k₃, spans', rings', t, rfl, hmoved, k',
    hex.perm.mem_iff.2 (List.mem_cons_of_mem t hs), hex.perm.mem_iff.2 List.mem_cons_self, ?_⟩
  have hle := Config.le_of_mul?_resizeFactor hconfig hmoved.target_eq
  omega

/-- Moving a payload in which there is no claim. -/
theorem claims_relocate (h' : h.Arranged spans rings) (hconfig : h.config.normalized = h.config)
    (hs : s ∈ held spans) (hgrows : payloadSize s.size < n)
    (hinner : ∀ k, 0 < k → k ≤ payloadSize s.size → ¬ Claims h.region.memory (s.offset + k))
    (hrun : relocate s.offset s.size n h = .ok p g) (hptr : Claims g.region.memory ptr) :
    ptr = p ∨ ptr ≠ s.offset ∧ Claims h.region.memory ptr := by
  obtain ⟨target, k₁, k₂, k₃, spans', rings', t, rfl, hmoved, k', hs', ht, hfits⟩ :=
    exists_exchanged_of_relocate h' hconfig hs hgrows hrun
  have hinner' : ∀ j, 0 < j → j ≤ payloadSize s.size →
      ¬ Claims k₁.region.memory (s.offset + j) := by
    intro j hpos hj hclaims
    rcases claims_allocate h' hconfig hmoved.allocated hclaims with hold | hnew
    · exact hinner j hpos hj hold
    · exact offset_not_in_payload k' (mem_held.1 hs').1 (mem_held.1 ht).1 hpos hj hnew.symm
  obtain ⟨hne, hclaims⟩ := claims_transfer k' hs' ht hfits hinner' hmoved.copied hmoved.freed
    (hmoved.memory_eq ▸ hptr)
  exact (claims_allocate h' hconfig hmoved.allocated hclaims).symm.imp_right fun hold =>
    ⟨hne, hold⟩

/-- Resizing a block, whether it is moved or not. -/
theorem claims_resize {answer : Option Nat} (h' : h.Arranged spans rings)
    (hconfig : h.config.normalized = h.config) (hs : s ∈ held spans) (hn : n ≠ 0)
    (hinner : ∀ k, 0 < k → k ≤ payloadSize s.size → ¬ Claims h.region.memory (s.offset + k))
    (hrun : resize s.offset n h = .ok answer g) (hptr : Claims g.region.memory ptr) :
    answer = some ptr ∨ ptr ≠ s.offset ∧ Claims h.region.memory ptr := by
  rcases resize_eq_ok h' hs hn hrun with ⟨size, rfl, rfl⟩ | ⟨hgrows, p, rfl, hmoved⟩
  · by_cases hp : ptr = s.offset
    · exact Or.inl (congrArg some hp.symm)
    · exact Or.inr ⟨hp, hptr⟩
  · exact (claims_relocate h' hconfig hs hgrows hinner hmoved hptr).imp_left
      fun hp => congrArg some hp.symm

/-! ## Candid heaps -/

/-- Behind its prologue, the memory of the heap claims no blocks but those that are
live. -/
def Candid (h : Heap Arena) (live : List Nat) : Prop :=
  ∀ prologue, h.prologue = some prologue →
    ∀ ptr, prologue < ptr → Claims h.region.memory ptr → ptr ∈ live

/-- A heap that is not laid out claims nothing. -/
theorem Blank.candid (hblank : h.Blank) (live : List Nat) : h.Candid live := by
  intro prologue hprologue
  rw [hblank.prologue_eq] at hprologue
  cases hprologue

theorem Candid.loggedAll (hcandid : h.Candid live) (events : List Event) :
    (h.loggedAll events).Candid live := by
  obtain ⟨log, hlog, -⟩ := loggedAll_eq h events
  rw [hlog]
  exact hcandid

/-- Laying out makes no claims. -/
theorem candid_init (hconfig : h.config.normalized = h.config) (hrun : init h = .ok () g) :
    g.Candid [] := by
  have hfounds := founds_of_init hconfig hrun
  obtain ⟨rings, g'⟩ := hfounds.founded.arranged
  intro prologue hprologue ptr hlow hptr
  rw [g'.prologue_eq] at hprologue
  cases hprologue
  exact (hfounds.unclaimed ptr hlow hptr).elim

theorem Candid.allocate (hcandid : h.Candid live) (h' : h.Arranged spans rings)
    (hconfig : h.config.normalized = h.config) (hrun : allocate n h = .ok p g) :
    g.Candid (p :: live) := by
  intro prologue hprologue ptr hlow hptr
  have hsame : g.prologue = h.prologue := (readings_allocate hrun).prologue_eq
  rcases claims_allocate h' hconfig hrun hptr with hold | rfl
  · exact List.mem_cons_of_mem p (hcandid prologue (hsame ▸ hprologue) ptr hlow hold)
  · exact List.mem_cons_self

theorem Candid.free (hcandid : h.Candid live) (h' : h.Arranged spans rings)
    (hs : s ∈ held spans) (hrun : free s.offset h = .ok () g) :
    g.Candid (live.erase s.offset) := by
  intro prologue hprologue ptr hlow hptr
  have hsame : g.prologue = h.prologue :=
    congrArg Readings.prologue ((keeps_free s.offset).of_ok hrun)
  obtain ⟨hne, hold⟩ := claims_free h' hs hrun hptr
  exact (List.mem_erase_of_ne hne).2 (hcandid prologue (hsame ▸ hprologue) ptr hlow hold)

/-- A payload claims nothing, unless a live block begins in it. -/
theorem Candid.inner (hcandid : h.Candid live) (h' : h.Arranged spans rings)
    (hlive : ∀ q ∈ live, ∃ u ∈ held spans, u.offset = q) (hs : s ∈ held spans) :
    ∀ k, 0 < k → k ≤ payloadSize s.size → ¬ Claims h.region.memory (s.offset + k) := by
  intro k hpos hk hclaims
  have hstart := (h'.row.bounds (mem_held.1 hs).1).1
  have hlow : h.base + pairSize < s.offset + k := by omega
  obtain ⟨u, hu, hoff⟩ := hlive _ (hcandid _ h'.prologue_eq _ hlow hclaims)
  exact offset_not_in_payload h' (mem_held.1 hs).1 (mem_held.1 hu).1 hpos hk hoff

theorem Candid.resize {answer : Option Nat} (hcandid : h.Candid live) (h' : h.Arranged spans rings)
    (hconfig : h.config.normalized = h.config)
    (hlive : ∀ q ∈ live, ∃ u ∈ held spans, u.offset = q) (hs : s ∈ held spans) (hn : n ≠ 0)
    (hrun : resize s.offset n h = .ok answer g) :
    g.Candid (answer.toList ++ live.erase s.offset) := by
  intro prologue hprologue ptr hlow hptr
  have hsame : g.prologue = h.prologue := by
    obtain ⟨-, hkept | ⟨r, hr, hmoved⟩⟩ := readings_resize (ne_null_of_held h' hs) hn hrun
    · exact congrArg Readings.prologue hkept
    · exact (congrArg Readings.prologue hmoved).trans hr.prologue_eq
  rcases claims_resize h' hconfig hs hn (hcandid.inner h' hlive hs) hrun hptr with
    rfl | ⟨hne, hold⟩
  · simp
  · have hmem := (List.mem_erase_of_ne hne).2 (hcandid prologue (hsame ▸ hprologue) ptr hlow hold)
    exact List.mem_append_right _ hmem

end SegregatedFit.Heap
