-- SUMMARY: The free lists as fifteen plain lists: what insertion and removal do to them.
import Mathlib.Data.List.Nodup
import Mathlib.Logic.Function.Basic
import SegregatedFit.Proofs.FreeLists.Wiring

/-!
# Threading

`Threaded lists m rings` says that the buckets lead through the given lists of
blocks, which share no link word. Main statements: insertion puts a block in
front of the list of its bucket (`Threaded.insert`), and removal takes it out of
whichever list holds it (`Threaded.remove`).
-/
namespace SegregatedFit.FreeLists

variable {lists lists' : FreeLists} {m m' : Memory} {rings : Bucket → List Nat}

/-- The buckets hold these blocks, which share no link word with one another. -/
structure Threaded (lists : FreeLists) (m : Memory) (rings : Bucket → List Nat) : Prop where
  ring : ∀ b, Ring lists m b (rings b)
  nodup : ∀ b, (rings b).Nodup
  disjoint : ∀ b c, b ≠ c → (rings b).Disjoint (rings c)
  storable : ∀ b, ∀ p ∈ rings b, (Link.block p).Storable
  room : ∀ b, ∀ p ∈ rings b, (Link.block p).Room m
  apart : ∀ b c, ∀ p ∈ rings b, ∀ q ∈ rings c, p ≠ q → (Link.block p).Apart (.block q)

/-- The nodes of the rings: their blocks and all sentinels. -/
def Node (rings : Bucket → List Nat) : Link → Prop
  | .sentinel _ => True
  | .block p => ∃ b, p ∈ rings b

/-- The bytes that store the links of the blocks in the rings. -/
def LinkBytes (rings : Bucket → List Nat) (i : Nat) : Prop :=
  ∃ b, ∃ p ∈ rings b, (Link.block p).Owns i

/-- The rings after a block was put in front of those of a bucket. -/
def pushed (rings : Bucket → List Nat) (bucket : Bucket) (bp : Nat) : Bucket → List Nat :=
  Function.update rings bucket (bp :: rings bucket)

/-- The rings without the given blocks. -/
def dropped (rings : Bucket → List Nat) (gone : List Nat) : Bucket → List Nat := fun b =>
  (rings b).filter (· ∉ gone)

@[simp] theorem pushed_self (rings : Bucket → List Nat) (bucket : Bucket) (bp : Nat) :
    pushed rings bucket bp bucket = bp :: rings bucket :=
  Function.update_self ..

theorem pushed_of_ne {rings : Bucket → List Nat} {bucket b : Bucket} (h : b ≠ bucket) (bp : Nat) :
    pushed rings bucket bp b = rings b :=
  Function.update_of_ne h ..

theorem mem_pushed {bucket b : Bucket} {bp p : Nat} :
    p ∈ pushed rings bucket bp b ↔ b = bucket ∧ p = bp ∨ p ∈ rings b := by
  by_cases h : b = bucket
  · subst h
    simp
  · simp [pushed_of_ne h, h]

theorem mem_dropped {gone : List Nat} {b : Bucket} {p : Nat} :
    p ∈ dropped rings gone b ↔ p ∈ rings b ∧ p ∉ gone := by
  simp [dropped]

@[simp] theorem dropped_nil (rings : Bucket → List Nat) : dropped rings [] = rings := by
  funext b
  simp [dropped]

theorem dropped_dropped (rings : Bucket → List Nat) (gone gone' : List Nat) :
    dropped (dropped rings gone) gone' = dropped rings (gone ++ gone') := by
  funext b
  simp only [dropped, List.filter_filter, List.mem_append, not_or]
  apply List.filter_congr
  intro p _
  rw [Bool.and_comm, Bool.decide_and]

/-- Whatever is pushed and dropped again was pushed in vain. -/
theorem dropped_pushed (rings : Bucket → List Nat) (bucket : Bucket) {bp : Nat} {gone : List Nat}
    (hgone : bp ∈ gone) : dropped (pushed rings bucket bp) gone = dropped rings gone := by
  funext b
  by_cases hb : b = bucket
  · subst hb
    rw [dropped, dropped, pushed_self, List.filter_cons_of_neg (by simpa using hgone)]
  · rw [dropped, dropped, pushed_of_ne hb]

/-- What is dropped twice is dropped. -/
theorem dropped_idem (rings : Bucket → List Nat) (gone : List Nat) :
    dropped (dropped rings gone) gone = dropped rings gone := by
  funext b
  simp only [dropped, List.filter_filter, Bool.and_self]

/-! ## Chains -/

/-- A chain depends on the links of its nodes alone. -/
theorem Chain.congr {nodes : List Link} (h : Chain lists m nodes)
    (hafter : ∀ x ∈ nodes.dropLast, lists'.after m' x = lists.after m x)
    (hbefore : ∀ x ∈ nodes.tail, lists'.before m' x = lists.before m x) :
    Chain lists' m' nodes := by
  induction nodes with
  | nil => exact trivial
  | cons x rest ih =>
    cases rest with
    | nil => exact trivial
    | cons y rest =>
      obtain ⟨⟨hxy, hyx⟩, hrest⟩ := h
      refine ⟨⟨?_, ?_⟩, ih hrest ?_ ?_⟩
      · rw [hafter x (by simp), hxy]
      · rw [hbefore y (by simp), hyx]
      · intro z hz
        exact hafter z (List.mem_cons_of_mem x hz)
      · intro z hz
        exact hbefore z (List.mem_cons_of_mem y hz)

/-- The nodes of a bucket are distinct. -/
theorem nodup_nodes {blocks : List Nat} (h : blocks.Nodup) (bucket : Bucket) :
    (Link.sentinel bucket :: blocks.map Link.block).Nodup := by
  refine List.nodup_cons.2 ⟨by simp, h.map ?_⟩
  intro a b hab
  exact Link.block.inj hab

/-- What holds of all sentinels and of the blocks in the rings holds of each node. -/
theorem Node.of_blocks {P : Link → Prop} {x : Link} (hx : Node rings x)
    (hsentinel : ∀ b, P (.sentinel b)) (hblock : ∀ b, ∀ p ∈ rings b, P (.block p)) : P x := by
  cases x with
  | sentinel b => exact hsentinel b
  | block p =>
    obtain ⟨b, hp⟩ := hx
    exact hblock b p hp

theorem Threaded.room_of_node (h : Threaded lists m rings) {x : Link} (hx : Node rings x) :
    x.Room m :=
  hx.of_blocks (P := Link.Room m) (fun _ => trivial) h.room

theorem Threaded.storable_of_node (h : Threaded lists m rings) {x : Link} (hx : Node rings x) :
    x.Storable :=
  hx.of_blocks (P := Link.Storable) (fun _ => trivial) h.storable

theorem Threaded.apart_of_node (h : Threaded lists m rings) {x y : Link} (hx : Node rings x)
    (hy : Node rings y) (hne : x ≠ y) : x.Apart y := by
  cases x with
  | sentinel b =>
    cases y with
    | sentinel c => exact fun hbc => hne (congrArg Link.sentinel hbc)
    | block q => exact trivial
  | block p =>
    cases y with
    | sentinel c => exact trivial
    | block q =>
      obtain ⟨b, hp⟩ := hx
      obtain ⟨c, hq⟩ := hy
      exact h.apart b c p hp q hq fun hpq => hne (congrArg Link.block hpq)

theorem mem_dropLast_ring {bucket : Bucket} {blocks : List Nat} {x : Link} :
    x ∈ (.sentinel bucket :: blocks.map .block ++ [.sentinel bucket] : List Link).dropLast ↔
      x = .sentinel bucket ∨ ∃ p ∈ blocks, x = .block p := by
  rw [List.dropLast_concat]
  simp [eq_comm]

theorem mem_tail_ring {bucket : Bucket} {blocks : List Nat} {x : Link} :
    x ∈ (.sentinel bucket :: blocks.map .block ++ [.sentinel bucket] : List Link).tail ↔
      x = .sentinel bucket ∨ ∃ p ∈ blocks, x = .block p := by
  simp only [List.cons_append, List.tail_cons, List.mem_append, List.mem_map, List.mem_singleton,
    eq_comm (a := Link.block _)]
  exact Or.comm

/-- A link is read from the bytes of its word. -/
theorem readLink_congr {off : Nat} (h : off + wordSize ≤ m.size) (hle : m.size ≤ m'.size)
    (hbytes : ∀ i, off ≤ i → i < off + wordSize → m'.byteAt i = m.byteAt i) :
    readLink m' off = readLink m off := by
  simp only [readLink, Memory.readWord, if_pos h, if_pos (Nat.le_trans h hle),
    Memory.load_congr hbytes]

/-- Rings depend on the table and on the bytes of their links alone. -/
theorem Threaded.congr (h : Threaded lists m rings) (hle : m.size ≤ m'.size)
    (hm : m'.size < wordCount) (hbytes : ∀ i, LinkBytes rings i → m'.byteAt i = m.byteAt i) :
    Threaded lists m' rings := by
  have hlink : ∀ x, Node rings x →
      lists.after m' x = lists.after m x ∧ lists.before m' x = lists.before m x := by
    intro x hx
    cases x with
    | sentinel b => exact ⟨rfl, rfl⟩
    | block p =>
      obtain ⟨b, hp⟩ := hx
      have hroom : p + pairSize ≤ m.size := h.room b p hp
      have howns : ∀ i, p ≤ i → i < p + pairSize → m'.byteAt i = m.byteAt i :=
        fun i hi hlt => hbytes i ⟨b, p, hp, hi, hlt⟩
      simp only [pairSize] at *
      refine ⟨readLink_congr (by simp only [wordSize]; omega) hle ?_, ?_⟩
      · intro i hi hlt
        simp only [wordSize] at hlt
        exact howns i hi (by omega)
      · have hlt : p + wordSize < wordCount := by
          simp only [wordSize]
          omega
        rw [before_block hlt, before_block hlt]
        congr 1
        refine readLink_congr (by simp only [wordSize]; omega) hle ?_
        intro i hi hlt
        simp only [wordSize] at hi hlt
        exact howns i (by omega) (by omega)
  have hnode : ∀ b x, x = .sentinel b ∨ (∃ p ∈ rings b, x = .block p) → Node rings x := by
    rintro b x (rfl | ⟨p, hp, rfl⟩)
    · exact trivial
    · exact ⟨b, hp⟩
  refine ⟨fun b => (h.ring b).congr ?_ ?_, h.nodup, h.disjoint,
    h.storable, fun b p hp => (h.room b p hp).mono hle, h.apart⟩
  · intro x hx
    exact (hlink x (hnode b x (mem_dropLast_ring.1 hx))).1
  · intro x hx
    exact (hlink x (hnode b x (mem_tail_ring.1 hx))).2

theorem Threaded.edited {w : Nat → Prop} (h : Threaded lists m rings) (hm : m.size < wordCount)
    (hedit : m.Edited m' w) (hout : ∀ i, LinkBytes rings i → ¬ w i) : Threaded lists m' rings :=
  h.congr (Nat.le_of_eq hedit.size_eq.symm) (hedit.size_eq ▸ hm) fun i hi =>
    hedit.byteAt_eq i (hout i hi)

/-- The number of blocks has no part in the rings. -/
theorem Threaded.of_sentinels (h : Threaded lists m rings)
    (hsame : lists'.sentinels = lists.sentinels) : Threaded lists' m rings := by
  obtain ⟨sentinels, n⟩ := lists
  obtain ⟨sentinels', n'⟩ := lists'
  subst hsame
  have hlink : ∀ x : Link, after ⟨sentinels', n'⟩ m x = after ⟨sentinels', n⟩ m x ∧
      before ⟨sentinels', n'⟩ m x = before ⟨sentinels', n⟩ m x := by
    intro x
    cases x <;> exact ⟨rfl, rfl⟩
  exact ⟨fun b => (h.ring b).congr (fun x _ => (hlink x).1) fun x _ => (hlink x).2, h.nodup,
    h.disjoint, h.storable, h.room, h.apart⟩

/-! ## Insertion -/

theorem Threaded.first_node (h : Threaded lists m rings) (bucket : Bucket) :
    Node rings (lists.first bucket) := by
  rw [(h.ring bucket).first_eq]
  cases hring : rings bucket with
  | nil => exact trivial
  | cons p rest => exact ⟨bucket, by simp [hring]⟩

/-- The links after an insertion: the block stands between the sentinel and what
was its first node, and all other links are as before. -/
theorem Threaded.links_inserted (h : Threaded lists m rings) (hm : m.size < wordCount) {bp : Nat}
    (hstorable : (Link.block bp).Storable) (hroom : (Link.block bp).Room m)
    (hapart : ∀ x, Node rings x → x.Apart (.block bp)) {bucket : Bucket} {head : Link}
    (hhead : Node rings head) {σ : FreeLists × Memory}
    (hσ : σ = withAfter (.sentinel bucket) (.block bp) (withBefore head (.block bp)
      (withAfter (.block bp) head (withBefore (.block bp) (.sentinel bucket) (lists, m))))) :
    afterOf σ (.sentinel bucket) = .ok (.block bp) ∧ afterOf σ (.block bp) = .ok head ∧
      beforeOf σ head = .ok (.block bp) ∧ beforeOf σ (.block bp) = .ok (.sentinel bucket) ∧
      (∀ x, Node rings x → x ≠ .sentinel bucket → afterOf σ x = afterOf (lists, m) x) ∧
      ∀ x, Node rings x → x ≠ head → beforeOf σ x = beforeOf (lists, m) x := by
  have hsame : ∀ x, Node rings x → ∀ y, Node rings y → x = y ∨ x.Apart y := fun x hx y hy =>
    or_iff_not_imp_left.2 fun hne => h.apart_of_node hx hy hne
  have hsent : Node rings (.sentinel bucket) := trivial
  have hbpSent : (Link.block bp).Apart (.sentinel bucket) := trivial
  have hbpHead : (Link.block bp).Apart head := (hapart head hhead).symm
  have hword : (Link.block bp).encode < 256 ^ wordSize := Link.encode_lt hroom hm
  -- the states on the way, each with the size of the memory
  obtain ⟨σ₁, hσ₁⟩ : ∃ σ₁, σ₁ = withBefore (.block bp) (.sentinel bucket) (lists, m) := ⟨_, rfl⟩
  obtain ⟨σ₂, hσ₂⟩ : ∃ σ₂, σ₂ = withAfter (.block bp) head σ₁ := ⟨_, rfl⟩
  obtain ⟨σ₃, hσ₃⟩ : ∃ σ₃, σ₃ = withBefore head (.block bp) σ₂ := ⟨_, rfl⟩
  have hm₁ : σ₁.2.size = m.size := by simp [hσ₁]
  have hm₂ : σ₂.2.size = m.size := by simp [hσ₂, hm₁]
  have hm₃ : σ₃.2.size = m.size := by simp [hσ₃, hm₂]
  have hlt₁ : σ₁.2.size < wordCount := hm₁ ▸ hm
  have hlt₂ : σ₂.2.size < wordCount := hm₂ ▸ hm
  have hlt₃ : σ₃.2.size < wordCount := hm₃ ▸ hm
  have room₁ : ∀ {x : Link}, x.Room m → x.Room σ₁.2 := fun hx => hx.mono (Nat.le_of_eq hm₁.symm)
  have room₂ : ∀ {x : Link}, x.Room m → x.Room σ₂.2 := fun hx => hx.mono (Nat.le_of_eq hm₂.symm)
  have room₃ : ∀ {x : Link}, x.Room m → x.Room σ₃.2 := fun hx => hx.mono (Nat.le_of_eq hm₃.symm)
  have hheadRoom := h.room_of_node hhead
  rw [← hσ₁, ← hσ₂, ← hσ₃] at hσ
  subst hσ
  refine ⟨?_, ?_, ?_, ?_, ?_, ?_⟩
  · exact afterOf_withAfter_self trivial hstorable hword
  · rw [afterOf_withAfter hbpSent, hσ₃, afterOf_withBefore (Or.inr hbpHead), hσ₂]
    exact afterOf_withAfter_self (room₁ hroom) (h.storable_of_node hhead)
      (Link.encode_lt hheadRoom hm)
  · rw [beforeOf_withAfter (hsame head hhead _ hsent) hlt₃ (room₃ hheadRoom), hσ₃]
    exact beforeOf_withBefore_self (room₂ hheadRoom) hlt₂ hstorable hword
  · rw [beforeOf_withAfter (Or.inr hbpSent) hlt₃ (room₃ hroom), hσ₃,
      beforeOf_withBefore hbpHead hlt₂ (room₂ hroom), hσ₂,
      beforeOf_withAfter (Or.inl rfl) hlt₁ (room₁ hroom), hσ₁]
    exact beforeOf_withBefore_self hroom hm trivial
      (Link.encode_lt (h.room_of_node hsent) hm)
  · intro x hx hne
    have hbp := hapart x hx
    rw [afterOf_withAfter (h.apart_of_node hx hsent hne), hσ₃,
      afterOf_withBefore (hsame x hx head hhead), hσ₂, afterOf_withAfter hbp, hσ₁,
      afterOf_withBefore (Or.inr hbp)]
  · intro x hx hne
    have hbp := hapart x hx
    have hx' := h.room_of_node hx
    rw [beforeOf_withAfter (hsame x hx _ hsent) hlt₃ (room₃ hx'), hσ₃,
      beforeOf_withBefore (h.apart_of_node hx hhead hne) hlt₂ (room₂ hx'), hσ₂,
      beforeOf_withAfter (Or.inr hbp) hlt₁ (room₁ hx'), hσ₁, beforeOf_withBefore hbp hm hx']

/-- The first node of a bucket is a node of no other one. -/
theorem Threaded.first_not_mem (h : Threaded lists m rings) {b bucket : Bucket} (hb : b ≠ bucket) :
    lists.first bucket ≠ .sentinel b ∧ ∀ p ∈ rings b, lists.first bucket ≠ .block p := by
  rw [(h.ring bucket).first_eq]
  cases hblocks : rings bucket with
  | nil => simpa using Ne.symm hb
  | cons q rest =>
    refine ⟨by simp, ?_⟩
    intro p hp heq
    obtain rfl : q = p := by simpa using heq
    exact h.disjoint b bucket hb hp (by simp [hblocks])

/-- The rings after an insertion, from the links that changed and those that did not. -/
theorem Threaded.rings_inserted (h : Threaded lists m rings) {bp : Nat} {bucket : Bucket}
    (hsent : Linked lists' m' (.sentinel bucket) (.block bp))
    (hhead : Linked lists' m' (.block bp) (lists.first bucket))
    (hafter : ∀ x, Node rings x → x ≠ .sentinel bucket → lists'.after m' x = lists.after m x)
    (hbefore : ∀ x, Node rings x → x ≠ lists.first bucket →
      lists'.before m' x = lists.before m x) (b : Bucket) :
    Ring lists' m' b (pushed rings bucket bp b) := by
  have hold := h.ring b
  by_cases hb : b = bucket
  · subst hb
    have hfirst := hold.first_eq
    have hnodup := h.nodup b
    have hin : ∀ q ∈ rings b, Node rings (.block q) := fun q hq => ⟨b, hq⟩
    rw [pushed_self]
    refine ⟨hsent, ?_⟩
    cases hblocks : rings b with
    | nil =>
      rw [hblocks] at hfirst
      rw [hfirst] at hhead
      exact ⟨hhead, trivial⟩
    | cons p rest =>
      rw [hblocks] at hold hfirst hnodup hin
      rw [hfirst] at hhead
      refine ⟨hhead, hold.2.congr ?_ ?_⟩
      · intro x hx
        have hx' : x ∈ (Link.block p :: rest.map Link.block ++ [Link.sentinel b]).dropLast := hx
        rw [List.dropLast_concat, ← List.map_cons, List.mem_map] at hx'
        obtain ⟨q, hq, rfl⟩ := hx'
        exact hafter (.block q) (hin q hq) (by simp)
      · intro x hx
        have hx' : x ∈ rest.map Link.block ++ [Link.sentinel b] := hx
        rcases List.mem_append.1 hx' with hx' | hx'
        · obtain ⟨q, hq, rfl⟩ := List.mem_map.1 hx'
          refine hbefore (.block q) (hin q (List.mem_cons_of_mem p hq)) ?_
          rw [hfirst]
          rintro heq
          obtain rfl : q = p := by simpa using heq
          exact (List.nodup_cons.1 hnodup).1 hq
        · obtain rfl := List.mem_singleton.1 hx'
          exact hbefore (.sentinel b) trivial (by simp [hfirst])
  · obtain ⟨hsentNe, hblockNe⟩ := h.first_not_mem hb
    rw [pushed_of_ne hb]
    refine hold.congr ?_ ?_
    · intro x hx
      rcases mem_dropLast_ring.1 hx with rfl | ⟨p, hp, rfl⟩
      · exact hafter (.sentinel b) trivial (by simpa using hb)
      · exact hafter (.block p) ⟨b, hp⟩ (by simp)
    · intro x hx
      rcases mem_tail_ring.1 hx with rfl | ⟨p, hp, rfl⟩
      · exact hbefore (.sentinel b) trivial hsentNe.symm
      · exact hbefore (.block p) ⟨b, hp⟩ (hblockNe p hp).symm

theorem linkBytes_of_owns {x : Link} (hx : Node rings x) {i : Nat} (hi : x.Owns i) :
    LinkBytes rings i :=
  hx.of_blocks (P := fun x => x.Owns i → LinkBytes rings i) (fun _ hi => hi.elim)
    (fun b p hp hi => ⟨b, p, hp, hi⟩) hi

theorem linkBytes_of_pushed {bucket : Bucket} {bp i : Nat}
    (hi : LinkBytes (pushed rings bucket bp) i) : LinkBytes rings i ∨ (Link.block bp).Owns i := by
  obtain ⟨b, p, hp, hpi⟩ := hi
  rcases mem_pushed.1 hp with ⟨-, rfl⟩ | hp'
  · exact Or.inr hpi
  · exact Or.inl ⟨b, p, hp', hpi⟩

theorem linkBytes_of_dropped {gone : List Nat} {i : Nat} (hi : LinkBytes (dropped rings gone) i) :
    LinkBytes rings i := by
  obtain ⟨b, p, hp, hpi⟩ := hi
  exact ⟨b, p, (mem_dropped.1 hp).1, hpi⟩

theorem Node.pushed {x : Link} (hx : Node rings x) (bucket : Bucket) (bp : Nat) :
    Node (pushed rings bucket bp) x :=
  hx.of_blocks (P := Node (FreeLists.pushed rings bucket bp)) (fun _ => trivial)
    fun b _ hp => ⟨b, mem_pushed.2 (Or.inr hp)⟩

/-- Rings that lead through one more block, which has room and links of its own. -/
theorem Threaded.of_pushed (h : Threaded lists m rings) {bp : Nat} {bucket : Bucket}
    (hstorable : (Link.block bp).Storable) (hroom : (Link.block bp).Room m)
    (hapart : ∀ b, ∀ p ∈ rings b, (Link.block p).Apart (.block bp)) (hle : m.size ≤ m'.size)
    (hring : ∀ b, Ring lists' m' b (pushed rings bucket bp b)) :
    Threaded lists' m' (pushed rings bucket bp) := by
  have hfresh : ∀ b, bp ∉ rings b := by
    intro b hbp
    have hself := hapart b bp hbp
    simp only [Link.Apart, pairSize] at hself
    omega
  refine ⟨hring, ?_, ?_, ?_, ?_, ?_⟩
  · intro b
    by_cases hb : b = bucket
    · subst hb
      rw [pushed_self]
      exact List.nodup_cons.2 ⟨hfresh b, h.nodup b⟩
    · rw [pushed_of_ne hb]
      exact h.nodup b
  · intro b c hbc p hp hq
    rcases mem_pushed.1 hp with ⟨hb, rfl⟩ | hp' <;> rcases mem_pushed.1 hq with ⟨hc, hpq⟩ | hq'
    · exact hbc (hb.trans hc.symm)
    · exact hfresh c hq'
    · exact hfresh b (hpq ▸ hp')
    · exact h.disjoint b c hbc hp' hq'
  · intro b p hp
    rcases mem_pushed.1 hp with ⟨-, rfl⟩ | hp'
    · exact hstorable
    · exact h.storable b p hp'
  · intro b p hp
    refine Link.Room.mono ?_ hle
    rcases mem_pushed.1 hp with ⟨-, rfl⟩ | hp'
    · exact hroom
    · exact h.room b p hp'
  · intro b c p hp q hq hne
    rcases mem_pushed.1 hp with ⟨-, rfl⟩ | hp' <;> rcases mem_pushed.1 hq with ⟨-, hq'⟩ | hq'
    · exact (hne hq'.symm).elim
    · exact (hapart c q hq').symm
    · exact hq' ▸ hapart b p hp'
    · exact h.apart b c p hp' q hq' hne

/-- Insertion puts the block in front of the list of its bucket. -/
theorem Threaded.insert (h : Threaded lists m rings) (hm : m.size < wordCount) {bp : Nat}
    (hstorable : (Link.block bp).Storable) (hroom : (Link.block bp).Room m)
    (hapart : ∀ b, ∀ p ∈ rings b, (Link.block p).Apart (.block bp))
    (hsize : lists.size + 1 < wordCount) (bucket : Bucket) :
    ∃ lists' m', FreeLists.insert bp bucket (lists, m) = .ok () (lists', m') ∧
      Threaded lists' m' (pushed rings bucket bp) ∧ lists'.size = lists.size + 1 ∧
      m.Edited m' (LinkBytes (pushed rings bucket bp)) := by
  have hhead : Node rings (lists.first bucket) := h.first_node bucket
  have hapart' : ∀ x, Node rings x → x.Apart (.block bp) := by
    intro x hx
    cases x with
    | sentinel b => exact trivial
    | block p =>
      obtain ⟨b, hp⟩ := hx
      exact hapart b p hp
  obtain ⟨σ, hσ⟩ : ∃ σ, σ = withAfter (.sentinel bucket) (.block bp)
      (withBefore (lists.first bucket) (.block bp) (withAfter (.block bp) (lists.first bucket)
        (withBefore (.block bp) (.sentinel bucket) (lists, m)))) := ⟨_, rfl⟩
  have hrun : FreeLists.insert bp bucket (lists, m) = .ok () (withSize (lists.size + 1) σ) :=
    hσ ▸ insert_apply rfl hroom (h.room_of_node hhead) hm hsize
  have hedit : m.Edited σ.2 (LinkBytes (pushed rings bucket bp)) := by
    have hbp : Node (pushed rings bucket bp) (.block bp) := ⟨bucket, by simp⟩
    have hhead' := hhead.pushed bucket bp
    have hsent : Node (pushed rings bucket bp) (.sentinel bucket) := trivial
    rw [hσ]
    refine .trans (.trans (.trans
      ((edited_withBefore _ _ (lists, m)).mono fun i hi => linkBytes_of_owns hbp hi)
      ((edited_withAfter _ _ _).mono fun i hi => linkBytes_of_owns hbp hi))
      ((edited_withBefore _ _ _).mono fun i hi => linkBytes_of_owns hhead' hi))
      ((edited_withAfter _ _ _).mono fun i hi => linkBytes_of_owns hsent hi)
  obtain ⟨hsentAfter, hbpAfter, hheadBefore, hbpBefore, hafter, hbefore⟩ :=
    h.links_inserted hm hstorable hroom hapart' hhead hσ
  have hring := h.rings_inserted ⟨hsentAfter, hbpBefore⟩ ⟨hbpAfter, hheadBefore⟩ hafter hbefore
  have hthreaded : Threaded σ.1 σ.2 (pushed rings bucket bp) :=
    h.of_pushed hstorable hroom hapart (Nat.le_of_eq hedit.size_eq.symm) hring
  exact ⟨_, _, hrun, hthreaded.of_sentinels rfl, rfl, hedit⟩

/-! ## Removal -/

/-- The node that comes first when a bucket holds these blocks. -/
def firstNode (bucket : Bucket) (blocks : List Nat) : Link :=
  (blocks.head?.map Link.block).getD (.sentinel bucket)

/-- The node that comes last when a bucket holds these blocks. -/
def lastNode (bucket : Bucket) (blocks : List Nat) : Link :=
  (blocks.getLast?.map Link.block).getD (.sentinel bucket)

theorem exists_eq_firstNode (bucket : Bucket) (blocks : List Nat) :
    ∃ rest, blocks.map Link.block ++ [.sentinel bucket] = firstNode bucket blocks :: rest := by
  cases blocks with
  | nil => exact ⟨[], rfl⟩
  | cons p rest => exact ⟨rest.map Link.block ++ [.sentinel bucket], rfl⟩

theorem exists_eq_lastNode (bucket : Bucket) (blocks : List Nat) :
    ∃ front, .sentinel bucket :: blocks.map Link.block = front ++ [lastNode bucket blocks] := by
  rcases List.eq_nil_or_concat' blocks with rfl | ⟨front, p, rfl⟩
  · exact ⟨[], rfl⟩
  · exact ⟨.sentinel bucket :: front.map Link.block, by simp [lastNode]⟩

theorem firstNode_cases (bucket : Bucket) (blocks : List Nat) :
    firstNode bucket blocks = .sentinel bucket ∨
      ∃ p ∈ blocks, firstNode bucket blocks = .block p := by
  cases blocks with
  | nil => exact Or.inl rfl
  | cons p rest => exact Or.inr ⟨p, List.mem_cons_self, rfl⟩

theorem lastNode_cases (bucket : Bucket) (blocks : List Nat) :
    lastNode bucket blocks = .sentinel bucket ∨
      ∃ p ∈ blocks, lastNode bucket blocks = .block p := by
  rcases List.eq_nil_or_concat' blocks with rfl | ⟨front, p, rfl⟩
  · exact Or.inl rfl
  · exact Or.inr ⟨p, by simp, by simp [lastNode]⟩

theorem block_ne_firstNode {bucket : Bucket} {blocks : List Nat} {p : Nat} (h : p ∉ blocks) :
    Link.block p ≠ firstNode bucket blocks := by
  rcases firstNode_cases bucket blocks with hnode | ⟨q, hq, hnode⟩
  · simp [hnode]
  · rw [hnode]
    exact fun heq => h (Link.block.inj heq ▸ hq)

theorem block_ne_lastNode {bucket : Bucket} {blocks : List Nat} {p : Nat} (h : p ∉ blocks) :
    Link.block p ≠ lastNode bucket blocks := by
  rcases lastNode_cases bucket blocks with hnode | ⟨q, hq, hnode⟩
  · simp [hnode]
  · rw [hnode]
    exact fun heq => h (Link.block.inj heq ▸ hq)

theorem sentinel_ne_firstNode {b bucket : Bucket} (h : b ≠ bucket) (blocks : List Nat) :
    Link.sentinel b ≠ firstNode bucket blocks := by
  rcases firstNode_cases bucket blocks with hnode | ⟨q, -, hnode⟩ <;> simp [hnode, h]

theorem sentinel_ne_lastNode {b bucket : Bucket} (h : b ≠ bucket) (blocks : List Nat) :
    Link.sentinel b ≠ lastNode bucket blocks := by
  rcases lastNode_cases bucket blocks with hnode | ⟨q, -, hnode⟩ <;> simp [hnode, h]

/-- The last node is not among those before it. -/
theorem ne_lastNode_of_mem_dropLast {bucket : Bucket} {blocks : List Nat} {x : Link}
    (h : blocks.Nodup) (hx : x ∈ (Link.sentinel bucket :: blocks.map Link.block).dropLast) :
    x ≠ lastNode bucket blocks := by
  obtain ⟨front, hfront⟩ := exists_eq_lastNode bucket blocks
  have hnodes := nodup_nodes h bucket
  rw [hfront] at hnodes hx
  rw [List.dropLast_concat] at hx
  exact (List.nodup_append.1 hnodes).2.2 x hx _ (List.mem_singleton.2 rfl)

/-- The first node is not among those after it. -/
theorem ne_firstNode_of_mem_tail {bucket : Bucket} {blocks : List Nat} {x : Link}
    (h : blocks.Nodup) (hx : x ∈ (blocks.map Link.block ++ [Link.sentinel bucket]).tail) :
    x ≠ firstNode bucket blocks := by
  obtain ⟨rest, hrest⟩ := exists_eq_firstNode bucket blocks
  have hperm := List.perm_append_singleton (Link.sentinel bucket) (blocks.map Link.block)
  have hnodes := hperm.nodup_iff.2 (nodup_nodes h bucket)
  rw [hrest] at hnodes hx
  exact fun heq => (List.nodup_cons.1 hnodes).1 (heq ▸ hx)

/-- A ring may be cut between any two of its nodes. -/
theorem ring_append_iff {bucket : Bucket} {pre post : List Nat} :
    Ring lists m bucket (pre ++ post) ↔
      Chain lists m (.sentinel bucket :: pre.map .block) ∧
      Linked lists m (lastNode bucket pre) (firstNode bucket post) ∧
      Chain lists m (post.map .block ++ [.sentinel bucket]) := by
  obtain ⟨rest, hrest⟩ := exists_eq_firstNode bucket post
  obtain ⟨front, hfront⟩ := exists_eq_lastNode bucket pre
  have hnodes : Link.sentinel bucket :: (pre ++ post).map Link.block ++ [.sentinel bucket] =
      front ++ lastNode bucket pre :: firstNode bucket post :: rest := by
    rw [List.map_append, ← List.cons_append, hfront, List.append_assoc, hrest]
    simp
  rw [Ring, hnodes, chain_append, chain_cons_cons, hfront, hrest]

/-- The sentinel of a bucket names the last node. -/
theorem Ring.last_eq {bucket : Bucket} {blocks : List Nat} (h : Ring lists m bucket blocks) :
    (lists.sentinels.get bucket).prev = lastNode bucket blocks := by
  obtain ⟨front, hfront⟩ := exists_eq_lastNode bucket blocks
  rw [Ring, hfront, List.append_assoc, List.singleton_append, chain_append] at h
  exact Except.ok.inj h.2.1.2

/-- A block of a ring stands between the last node before it and the first one after it. -/
theorem ring_middle_iff {bucket : Bucket} {pre post : List Nat} {bp : Nat} :
    Ring lists m bucket (pre ++ bp :: post) ↔
      Chain lists m (.sentinel bucket :: pre.map .block) ∧
      Linked lists m (lastNode bucket pre) (.block bp) ∧
      Linked lists m (.block bp) (firstNode bucket post) ∧
      Chain lists m (post.map .block ++ [.sentinel bucket]) := by
  obtain ⟨rest, hrest⟩ := exists_eq_firstNode bucket post
  rw [ring_append_iff, List.map_cons, List.cons_append, hrest, chain_cons_cons]
  exact Iff.rfl

/-- The neighbours of a block in its ring are linked to one another, and all links
of other nodes are as before. -/
structure Unlinked (lists : FreeLists) (m : Memory) (lists' : FreeLists) (m' : Memory)
    (rings : Bucket → List Nat) (bucket : Bucket) (pre : List Nat) (bp : Nat) (post : List Nat) :
    Prop where
  linked : Linked lists' m' (lastNode bucket pre) (firstNode bucket post)
  after_eq : ∀ x, Node rings x → x ≠ .block bp → x ≠ lastNode bucket pre →
    lists'.after m' x = lists.after m x
  before_eq : ∀ x, Node rings x → x ≠ .block bp → x ≠ firstNode bucket post →
    lists'.before m' x = lists.before m x

/-- The ring of a block that was unlinked. -/
theorem Threaded.ring_removed_self (h : Threaded lists m rings) {bp : Nat} {bucket : Bucket}
    {pre post : List Nat} (hblocks : rings bucket = pre ++ bp :: post)
    (hunlinked : Unlinked lists m lists' m' rings bucket pre bp post) :
    Ring lists' m' bucket (pre ++ post) := by
  have hnodup := h.nodup bucket
  rw [hblocks] at hnodup
  obtain ⟨hpre, hnodup', hcross⟩ := List.nodup_append.1 hnodup
  obtain ⟨hbpPost, hpost⟩ := List.nodup_cons.1 hnodup'
  have hbpPre : bp ∉ pre := fun hp => hcross bp hp bp List.mem_cons_self rfl
  have hapart : ∀ q ∈ pre, q ∉ post := fun q hq hq' =>
    hcross q hq q (List.mem_cons_of_mem bp hq') rfl
  have hnode : ∀ q, q ∈ pre ∨ q ∈ post → Node rings (.block q) ∧ Link.block q ≠ .block bp := by
    intro q hq
    refine ⟨⟨bucket, by rw [hblocks]; rcases hq with hq | hq <;> simp [hq]⟩, fun heq => ?_⟩
    obtain rfl := Link.block.inj heq
    exact hq.elim hbpPre hbpPost
  obtain ⟨hfront, -, -, hback⟩ := ring_middle_iff.1 (hblocks ▸ h.ring bucket)
  refine ring_append_iff.2 ⟨hfront.congr ?_ ?_, hunlinked.linked, hback.congr ?_ ?_⟩
  · intro x hx
    have hne := ne_lastNode_of_mem_dropLast hpre hx
    rcases List.mem_cons.1 (List.dropLast_subset _ hx) with rfl | hmem
    · exact hunlinked.after_eq _ trivial (by simp) hne
    · obtain ⟨q, hq, rfl⟩ := List.mem_map.1 hmem
      obtain ⟨hq', hqbp⟩ := hnode q (Or.inl hq)
      exact hunlinked.after_eq _ hq' hqbp hne
  · intro x hx
    obtain ⟨q, hq, rfl⟩ := List.mem_map.1 (List.tail_cons ▸ hx)
    obtain ⟨hq', hqbp⟩ := hnode q (Or.inl hq)
    exact hunlinked.before_eq _ hq' hqbp (block_ne_firstNode (hapart q hq))
  · intro x hx
    rw [List.dropLast_concat] at hx
    obtain ⟨q, hq, rfl⟩ := List.mem_map.1 hx
    obtain ⟨hq', hqbp⟩ := hnode q (Or.inr hq)
    exact hunlinked.after_eq _ hq' hqbp (block_ne_lastNode fun hq'' => hapart q hq'' hq)
  · intro x hx
    have hne := ne_firstNode_of_mem_tail hpost hx
    rcases List.mem_append.1 (List.mem_of_mem_tail hx) with hmem | hmem
    · obtain ⟨q, hq, rfl⟩ := List.mem_map.1 hmem
      obtain ⟨hq', hqbp⟩ := hnode q (Or.inr hq)
      exact hunlinked.before_eq _ hq' hqbp hne
    · obtain rfl := List.mem_singleton.1 hmem
      exact hunlinked.before_eq _ trivial (by simp) hne

/-- The rings of the other buckets. -/
theorem Threaded.ring_removed_other (h : Threaded lists m rings) {bp : Nat} {bucket : Bucket}
    {pre post : List Nat} (hblocks : rings bucket = pre ++ bp :: post)
    (hunlinked : Unlinked lists m lists' m' rings bucket pre bp post) {b : Bucket}
    (hb : b ≠ bucket) : Ring lists' m' b (rings b) := by
  have hother : ∀ q ∈ rings b, q ∉ pre ∧ q ≠ bp ∧ q ∉ post := by
    intro q hq
    have hnotMem : q ∉ pre ++ bp :: post := fun hq' => h.disjoint b bucket hb hq (hblocks ▸ hq')
    simpa [not_or] using hnotMem
  refine (h.ring b).congr ?_ ?_
  · intro x hx
    rcases mem_dropLast_ring.1 hx with rfl | ⟨q, hq, rfl⟩
    · exact hunlinked.after_eq _ trivial (by simp) (sentinel_ne_lastNode hb pre)
    · obtain ⟨hpre, hne, -⟩ := hother q hq
      exact hunlinked.after_eq _ ⟨b, hq⟩ (by simpa using hne) (block_ne_lastNode hpre)
  · intro x hx
    rcases mem_tail_ring.1 hx with rfl | ⟨q, hq, rfl⟩
    · exact hunlinked.before_eq _ trivial (by simp) (sentinel_ne_firstNode hb post)
    · obtain ⟨-, hne, hpost⟩ := hother q hq
      exact hunlinked.before_eq _ ⟨b, hq⟩ (by simpa using hne) (block_ne_firstNode hpost)

/-- The rings after a removal, from the links that changed and those that did not. -/
theorem Threaded.rings_removed (h : Threaded lists m rings) {bp : Nat} {bucket : Bucket}
    {pre post : List Nat} (hblocks : rings bucket = pre ++ bp :: post)
    (hunlinked : Unlinked lists m lists' m' rings bucket pre bp post) (b : Bucket) :
    Ring lists' m' b (dropped rings [bp] b) := by
  by_cases hb : b = bucket
  · subst hb
    have hnodup := h.nodup b
    rw [hblocks] at hnodup
    have hdropped : dropped rings [bp] b = pre ++ post := by
      have herase : (pre ++ bp :: post).filter (· ∉ [bp]) = (pre ++ bp :: post).erase bp := by
        rw [hnodup.erase_eq_filter]
        apply List.filter_congr
        intro q _
        simp [bne, beq_eq_decide]
      have hpre : bp ∉ pre := fun hp =>
        (List.nodup_append.1 hnodup).2.2 bp hp bp List.mem_cons_self rfl
      rw [dropped, hblocks, herase, List.erase_append_right _ hpre, List.erase_cons_head]
    rw [hdropped]
    exact h.ring_removed_self hblocks hunlinked
  · have hdropped : dropped rings [bp] b = rings b := by
      apply List.filter_eq_self.2
      intro q hq
      have hne : q ≠ bp := by
        rintro rfl
        exact h.disjoint b bucket hb hq (hblocks ▸ by simp)
      simpa using hne
    rw [hdropped]
    exact h.ring_removed_other hblocks hunlinked hb

/-- The links after a removal: the two neighbours of the block are linked to one
another, and all links of other nodes are as before. -/
theorem Threaded.links_removed (h : Threaded lists m rings) (hm : m.size < wordCount)
    {bp n : Nat} {next prev : Link} (hbp : Node rings (.block bp)) (hnext : Node rings next)
    (hprev : Node rings prev) (hnextNe : next ≠ .block bp) (hprevNe : prev ≠ .block bp)
    {σ : FreeLists × Memory}
    (hσ : σ = withCleared bp (withSize n (withBefore next prev (withAfter prev next (lists, m))))) :
    afterOf σ prev = .ok next ∧ beforeOf σ next = .ok prev ∧
      (∀ x, Node rings x → x ≠ .block bp → x ≠ prev → afterOf σ x = afterOf (lists, m) x) ∧
      ∀ x, Node rings x → x ≠ .block bp → x ≠ next → beforeOf σ x = beforeOf (lists, m) x := by
  have hsame : ∀ x, Node rings x → ∀ y, Node rings y → x = y ∨ x.Apart y := fun x hx y hy =>
    or_iff_not_imp_left.2 fun hne => h.apart_of_node hx hy hne
  obtain ⟨σ₁, hσ₁⟩ : ∃ σ₁, σ₁ = withAfter prev next (lists, m) := ⟨_, rfl⟩
  obtain ⟨σ₂, hσ₂⟩ : ∃ σ₂, σ₂ = withBefore next prev σ₁ := ⟨_, rfl⟩
  have hm₁ : σ₁.2.size = m.size := by simp [hσ₁]
  have hm₂ : (withSize n σ₂).2.size = m.size := by simp [hσ₂, hm₁]
  have hlt₁ : σ₁.2.size < wordCount := hm₁ ▸ hm
  have hlt₂ : (withSize n σ₂).2.size < wordCount := hm₂ ▸ hm
  have room₁ : ∀ {x : Link}, x.Room m → x.Room σ₁.2 := fun hx => hx.mono (Nat.le_of_eq hm₁.symm)
  have room₂ : ∀ {x : Link}, x.Room m → x.Room (withSize n σ₂).2 :=
    fun hx => hx.mono (Nat.le_of_eq hm₂.symm)
  have hafter₂ : ∀ x, afterOf (withSize n σ₂) x = afterOf σ₂ x := fun x => by cases x <;> rfl
  have hbefore₂ : ∀ x, beforeOf (withSize n σ₂) x = beforeOf σ₂ x := fun x => by cases x <;> rfl
  rw [← hσ₁, ← hσ₂] at hσ
  subst hσ
  have hnextRoom := h.room_of_node hnext
  have hprevRoom := h.room_of_node hprev
  refine ⟨?_, ?_, ?_, ?_⟩
  · rw [afterOf_withCleared (h.apart_of_node hprev hbp hprevNe), hafter₂, hσ₂,
      afterOf_withBefore (hsame prev hprev next hnext), hσ₁]
    exact afterOf_withAfter_self hprevRoom (h.storable_of_node hnext) (Link.encode_lt hnextRoom hm)
  · rw [beforeOf_withCleared (h.apart_of_node hnext hbp hnextNe) hlt₂ (room₂ hnextRoom), hbefore₂,
      hσ₂]
    exact beforeOf_withBefore_self (room₁ hnextRoom) hlt₁ (h.storable_of_node hprev)
      (Link.encode_lt hprevRoom hm)
  · intro x hx hbpNe hne
    rw [afterOf_withCleared (h.apart_of_node hx hbp hbpNe), hafter₂, hσ₂,
      afterOf_withBefore (hsame x hx next hnext), hσ₁,
      afterOf_withAfter (h.apart_of_node hx hprev hne)]
  · intro x hx hbpNe hne
    have hx' := h.room_of_node hx
    rw [beforeOf_withCleared (h.apart_of_node hx hbp hbpNe) hlt₂ (room₂ hx'), hbefore₂, hσ₂,
      beforeOf_withBefore (h.apart_of_node hx hnext hne) hlt₁ (room₁ hx'), hσ₁,
      beforeOf_withAfter (hsame x hx prev hprev) hm hx']

/-- The nodes around a block of a ring are nodes of the rings, and not the block. -/
theorem Threaded.neighbours (h : Threaded lists m rings) {bp : Nat} {bucket : Bucket}
    {pre post : List Nat} (hblocks : rings bucket = pre ++ bp :: post) :
    (Node rings (firstNode bucket post) ∧ firstNode bucket post ≠ .block bp) ∧
      Node rings (lastNode bucket pre) ∧ lastNode bucket pre ≠ .block bp := by
  have hnodup := h.nodup bucket
  rw [hblocks] at hnodup
  obtain ⟨-, hpost, hcross⟩ := List.nodup_append.1 hnodup
  refine ⟨⟨?_, ?_⟩, ?_, ?_⟩
  · rcases firstNode_cases bucket post with hnode | ⟨q, hq, hnode⟩ <;> rw [hnode]
    · exact trivial
    · exact ⟨bucket, by simp [hblocks, hq]⟩
  · exact (block_ne_firstNode (List.nodup_cons.1 hpost).1).symm
  · rcases lastNode_cases bucket pre with hnode | ⟨q, hq, hnode⟩ <;> rw [hnode]
    · exact trivial
    · exact ⟨bucket, by simp [hblocks, hq]⟩
  · exact (block_ne_lastNode fun hp => hcross bp hp bp List.mem_cons_self rfl).symm

/-- Removal takes the block out of the list that holds it. -/
theorem Threaded.remove (h : Threaded lists m rings) (hm : m.size < wordCount) {bp : Nat}
    {bucket : Bucket} (hbp : bp ∈ rings bucket) (hsize : 1 ≤ lists.size) :
    ∃ lists' m', FreeLists.remove bp (lists, m) = .ok () (lists', m') ∧
      Threaded lists' m' (dropped rings [bp]) ∧ lists'.size = lists.size - 1 ∧
      m.Edited m' (LinkBytes rings) := by
  obtain ⟨pre, post, hblocks⟩ := List.append_of_mem hbp
  obtain ⟨-, hlast, hfirst, -⟩ := ring_middle_iff.1 (hblocks ▸ h.ring bucket)
  have hbpNode : Node rings (.block bp) := ⟨bucket, hbp⟩
  obtain ⟨hnext, hprev⟩ := h.neighbours hblocks
  obtain ⟨σ, hσ⟩ : ∃ σ, σ = withCleared bp (withSize (lists.size - 1)
      (withBefore (firstNode bucket post) (lastNode bucket pre)
        (withAfter (lastNode bucket pre) (firstNode bucket post) (lists, m)))) := ⟨_, rfl⟩
  have hrun : FreeLists.remove bp (lists, m) = .ok () σ :=
    hσ ▸ remove_apply hfirst.1 hlast.2 (h.room_of_node hbpNode) (h.room_of_node hnext.1)
      (h.room_of_node hprev.1) hm hsize
  have hedit : m.Edited σ.2 (LinkBytes rings) := by
    rw [hσ]
    refine .trans (.trans
      ((edited_withAfter _ _ (lists, m)).mono fun i hi => linkBytes_of_owns hprev.1 hi)
      ((edited_withBefore _ _ _).mono fun i hi => linkBytes_of_owns hnext.1 hi))
      ((edited_withCleared bp _).mono fun i hi => linkBytes_of_owns hbpNode hi)
  have hcount : σ.1.size = lists.size - 1 := by
    rw [hσ]
    rfl
  obtain ⟨hprevAfter, hnextBefore, hafter', hbefore'⟩ :=
    h.links_removed hm hbpNode hnext.1 hprev.1 hnext.2 hprev.2 hσ
  have hring := h.rings_removed hblocks ⟨⟨hprevAfter, hnextBefore⟩, hafter', hbefore'⟩
  have hsub : ∀ b, ∀ p ∈ dropped rings [bp] b, p ∈ rings b := fun b p hp => (mem_dropped.1 hp).1
  refine ⟨σ.1, σ.2, hrun, ⟨hring, fun b => (h.nodup b).filter _, ?_,
    fun b p hp => h.storable b p (hsub b p hp), ?_, fun b c p hp q hq =>
      h.apart b c p (hsub b p hp) q (hsub c q hq)⟩, hcount, hedit⟩
  · intro b c hbc p hp hq
    exact h.disjoint b c hbc (hsub b p hp) (hsub c p hq)
  · intro b p hp
    exact (h.room b p (hsub b p hp)).mono (Nat.le_of_eq hedit.size_eq.symm)

end SegregatedFit.FreeLists
