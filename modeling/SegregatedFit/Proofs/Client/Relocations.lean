-- SUMMARY: How often a block that is resized again and again is moved.
import Mathlib.Data.List.MinMax
import Mathlib.Data.Nat.Log
import SegregatedFit.Proofs.Client.Effects
import SegregatedFit.Proofs.Plain.Sessions

/-!
# Relocations

A block that has to move gets room for `resizeFactor` times the request, and it is
not moved before a request exceeds that room. So from one move to the next the
requests grow by that factor, whatever becomes of all other blocks in between.
`Followed` is a client that resizes one block again and again, with the sizes it
asked for and the number of moves. Main statement: `Followed.moves_logarithmic`.
-/
namespace SegregatedFit.Session

/-- A session that can be reached, in which the block at `p`, live some calls ago, was
since then resized to each of `sizes` (the last one first) and moved `moves` times. Other
calls in between do not free or resize it, and do not start over. -/
inductive Followed (arena : Arena) (config : Config) :
    (s : Session) → (p : Nat) → (sizes : List Nat) → (moves : Nat) → Prop
  | start {s : Session} {p : Nat} : Reached arena config s → p ∈ s.live →
    Followed arena config s p [] 0
  | between {s s' : Session} {p moves : Nat} {sizes : List Nat} {call : Call} :
    Followed arena config s p sizes moves → s.Allows call → ¬ call.Restarts →
    call ≠ .free p → (∀ n, call ≠ .resize p n) → s.after call = some s' →
    Followed arena config s' p sizes moves
  | resized {s s' : Session} {p q n moves : Nat} {sizes : List Nat} :
    Followed arena config s p sizes moves → 0 < n →
    s.reply (.resize p n) = .answered (some q) → s.after (.resize p n) = some s' →
    Followed arena config s' q (n :: sizes) (if q = p then moves else moves + 1)

/-- The largest of the sizes; zero if there is none. -/
def largest (sizes : List Nat) : Nat := sizes.foldr max 0

variable {arena : Arena} {config : Config} {s s' : Session} {call : Call} {answer : Option Nat}
variable {p q n factor moves : Nat} {sizes : List Nat} {g : Heap Arena}

theorem le_largest_of_mem (h : n ∈ sizes) : n ≤ largest sizes :=
  List.le_max_of_le' 0 h (Nat.le_refl n)

/-- The run of an answered call. -/
theorem run_of_reply (hreply : s.reply call = .answered answer) :
    ∃ g, call.run s.heap = .ok answer g ∧
      s.after call = some ⟨g, call.liveAfter s.live answer⟩ := by
  unfold reply at hreply
  split at hreply
  case h_1 answer' g hrun =>
    obtain rfl := Reply.answered.inj hreply
    exact ⟨g, hrun, by rw [after, hrun]⟩
  case h_2 => cases hreply
  case h_3 => cases hreply

/-- What holds of the block at `p` after `moves` moves: a next move needs a request
for more than `factor` to that power, and the last one had a request for as much as
`factor` to the power before. -/
structure Outgrows (s : Session) (factor p : Nat) (sizes : List Nat) (moves : Nat) : Prop where
  live : p ∈ s.live
  usable : ∃ u, s.heap.payloadSize? p = some u ∧ 17 * factor ^ moves ≤ u + 1
  asked : moves ≠ 0 → ∃ n ∈ sizes, 17 * factor ^ (moves - 1) ≤ n

/-- A live block has the payload of the smallest block at least. -/
theorem Sound.outgrows (hs : s.Sound) (hp : p ∈ s.live) : s.Outgrows factor p [] 0 := by
  refine ⟨hp, ?_, fun hmoves => (hmoves rfl).elim⟩
  obtain ⟨spans, rings, u, h', -, hu, rfl⟩ := hs.exists_held hp
  have hmin := (h'.row.bounds (Block.mem_held.1 hu).1).2.1
  refine ⟨_, Heap.payloadSize?_of_held h' hu, ?_⟩
  simp only [Block.payloadSize, pairSize, minBlock, pow_zero] at *
  omega

/-- A call that leaves the block where it is leaves its room as it is. -/
theorem Outgrows.kept (h : s.Outgrows factor p sizes moves) (hs : s.Sound)
    (hallows : s.Allows call) (hgoes : ¬ call.Restarts) (hfree : call ≠ .free p)
    (hresize : ∀ n, call ≠ .resize p n) (hafter : s.after call = some s') :
    s'.Outgrows factor p sizes moves := by
  have hreleases : ¬ s.Releases call p := by
    rintro ⟨answer, g, -, rfl | ⟨n, rfl, -⟩⟩
    · exact hfree rfl
    · exact hresize n rfl
  obtain ⟨hlive, hsize, -⟩ := (hs.payloadsKept hallows hgoes hafter).kept p h.live hreleases
  exact ⟨hlive, hsize ▸ h.usable, h.asked⟩

/-- A block that is not moved keeps its room. -/
theorem Outgrows.in_place (h : s.Outgrows factor p sizes moves)
    (hsize : g.payloadSize? p = s.heap.payloadSize? p) :
    Outgrows ⟨g, Call.liveAfter s.live (.resize p n) (some p)⟩ factor p (n :: sizes) moves := by
  refine ⟨List.mem_cons_self, hsize.symm ▸ h.usable, fun hmoves => ?_⟩
  obtain ⟨k, hk, hle⟩ := h.asked hmoves
  exact ⟨k, List.mem_cons_of_mem n hk, hle⟩

/-- A block that is moved was asked to hold more than it did, and gets room for `factor`
times as much. -/
theorem Outgrows.moved {u : Nat} (h : s.Outgrows factor p sizes moves)
    (hfactor : s.heap.config.resizeFactor = factor) (hu : s.heap.payloadSize? p = some u)
    (hgrows : u < n) (hmoved : s.Moved p u n q g) :
    Outgrows ⟨g, Call.liveAfter s.live (.resize p n) (some q)⟩ factor q (n :: sizes)
      (moves + 1) := by
  obtain ⟨u', hu', hroom⟩ := h.usable
  obtain rfl := Option.some.inj (hu.symm.trans hu')
  obtain ⟨w, hw, hfits, -⟩ := hmoved.usable
  have hasked : 17 * factor ^ moves ≤ n := Nat.le_trans hroom hgrows
  refine ⟨List.mem_cons_self, ⟨w, hw, ?_⟩, fun _ => ⟨n, List.mem_cons_self, hasked⟩⟩
  calc 17 * factor ^ (moves + 1) = 17 * factor ^ moves * factor := by rw [pow_succ, mul_assoc]
    _ ≤ n * factor := Nat.mul_le_mul_right factor hasked
    _ ≤ w := hfactor ▸ hfits
    _ ≤ w + 1 := Nat.le_succ w

/-- A resize that is answered, in place or with a move. -/
theorem Outgrows.resized (h : s.Outgrows factor p sizes moves) (hs : s.Sound)
    (hfactor : s.heap.config.resizeFactor = factor) (hn : 0 < n)
    (hreply : s.reply (.resize p n) = .answered (some q))
    (hafter : s.after (.resize p n) = some s') :
    s'.Outgrows factor q (n :: sizes) (if q = p then moves else moves + 1) := by
  obtain ⟨g, hrun, hafter'⟩ := run_of_reply hreply
  obtain rfl := Option.some.inj (hafter.symm.trans hafter')
  obtain ⟨spans, rings, u, h', howns, hu, rfl⟩ := hs.exists_held h.live
  have hresized := hs.resized h' howns hu hn hrun
  by_cases hfits : n ≤ Block.payloadSize u.size
  · obtain ⟨rfl, log, hheap⟩ := hresized.1 hfits
    rw [if_pos rfl]
    exact h.in_place (hheap ▸ rfl)
  · have hgrows := Nat.lt_of_not_le hfits
    have hmoved := hresized.2 hgrows
    rw [if_neg hmoved.ne]
    exact h.moved hfactor (Heap.payloadSize?_of_held h' hu) hgrows hmoved

/-- The block that is followed is live in a session that can be reached, and outgrew its
room as often as it was moved. -/
theorem Followed.outgrows (h : Followed arena config s p sizes moves) :
    Reached arena config s ∧ s.Outgrows config.normalized.resizeFactor p sizes moves := by
  induction h with
  | start hreached hp => exact ⟨hreached, hreached.sound.outgrows hp⟩
  | between _ hallows hgoes hfree hresize hafter ih =>
    obtain ⟨hreached, houtgrows⟩ := ih
    exact ⟨hreached.step hallows hafter,
      houtgrows.kept hreached.sound hallows hgoes hfree hresize hafter⟩
  | @resized s _ p _ n _ _ _ hn hreply hafter ih =>
    obtain ⟨hreached, houtgrows⟩ := ih
    have hallows : s.Allows (.resize p n) := Or.inr (Or.inl houtgrows.live)
    have hfactor := congrArg Config.resizeFactor hreached.bounded.config_eq
    exact ⟨hreached.step hallows hafter,
      houtgrows.resized hreached.sound hfactor hn hreply hafter⟩

/-- However often a block is resized, and to whichever sizes: if it was moved at all, then
the largest size is at least 17 times the factor to the power of the moves but one. So the
number of moves is logarithmic in the largest size. -/
theorem Followed.moves_logarithmic (h : Followed arena config s p sizes moves) :
    (moves ≠ 0 → 17 * config.normalized.resizeFactor ^ (moves - 1) ≤ largest sizes) ∧
      (1 < config.normalized.resizeFactor →
        moves ≤ 1 + Nat.log config.normalized.resizeFactor (largest sizes / 17)) := by
  have hlargest : moves ≠ 0 →
      17 * config.normalized.resizeFactor ^ (moves - 1) ≤ largest sizes := by
    intro hmoves
    obtain ⟨n, hn, hle⟩ := h.outgrows.2.asked hmoves
    exact Nat.le_trans hle (le_largest_of_mem hn)
  refine ⟨hlargest, fun hfactor => ?_⟩
  by_cases hmoves : moves = 0
  · exact hmoves ▸ Nat.zero_le _
  · have hpow : config.normalized.resizeFactor ^ (moves - 1) ≤ largest sizes / 17 :=
      (Nat.le_div_iff_mul_le (by decide)).2 (Nat.mul_comm _ 17 ▸ hlargest hmoves)
    have hlog := Nat.le_log_of_pow_le hfactor hpow
    omega

/-- The smallest block, moved by the least request that moves it. -/
theorem Followed.moves_logarithmic_of_least :
    ∃ s, Followed {} { chunkSize := 32, logLevel := none } s 64 [17] 1 ∧
      17 * 2 ^ 0 ≤ largest [17] ∧ 1 ≤ 1 + Nat.log 2 (largest [17] / 17) := by
  have hrun : ((Session.start {} { chunkSize := 32, logLevel := none }).afterAll
      [.init, .allocate 1]).map (fun s => (s.live, s.reply (.resize 32 17))) =
      some ([32], .answered (some 64)) := by
    decide +kernel
  obtain ⟨s, hs, hstate⟩ := Option.map_eq_some_iff.1 hrun
  obtain ⟨hlive, hreply⟩ := Prod.mk.injEq .. ▸ hstate
  obtain ⟨g, -, hafter⟩ := run_of_reply hreply
  have hfollowed := (Followed.start (Reached.start.afterAll hs)
    (hlive ▸ List.mem_cons_self)).resized (by decide) hreply hafter
  obtain ⟨hlargest, hlog⟩ := Followed.moves_logarithmic hfollowed
  exact ⟨_, hfollowed, hlargest (by decide), hlog (by decide)⟩

end SegregatedFit.Session
