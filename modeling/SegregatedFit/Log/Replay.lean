-- SUMMARY: The live pointers that a row of events leaves, by what their records show.
import SegregatedFit.Log.Event
import SegregatedFit.Text.Numeral

/-!
# Replaying events

An allocation makes a pointer live and a free ends its life. Replaying the
events of a log from nothing gives the pointers that are live at its end, unless
some event makes no sense: a pointer handed out twice, or one freed that was not
live. A replay reads nothing but the names and the pointers that the records show.
-/
namespace SegregatedFit

/-- The live pointers after the event, if it makes sense. -/
def Event.replay? (live : List Nat) (event : Event) : Option (List Nat) :=
  if event.name = "alloc" then do
    let ptr ← event.ptr
    if ptr ∈ live then none else some (ptr :: live)
  else if event.name = "free" then do
    let ptr ← event.ptr
    if ptr ∈ live then some (live.erase ptr) else none
  else some live

/-- The live pointers after all events in order, if each of them makes sense. -/
def Event.replayAll? (live : List Nat) (events : List Event) : Option (List Nat) :=
  events.foldlM replay? live

theorem Event.replayAll?_append (live : List Nat) (events more : List Event) :
    replayAll? live (events ++ more) = (replayAll? live events).bind (replayAll? · more) := by
  simp [replayAll?, List.foldlM_append]

/-- Whether the event bears the name of an allocation or of a free. -/
def Event.Books (event : Event) : Prop := event.name = "alloc" ∨ event.name = "free"

/-- No other event bears one of the two names. -/
theorem Event.books_iff {event : Event} :
    event.Books ↔ (∃ ptr n size placed source, event = .allocated ptr n size placed source) ∨
      ∃ ptr size merged, event = .freed ptr size merged := by
  cases event with
  | freeRefused _ cause => cases cause <;> simp [Books, name]
  | _ => simp [Books, name]

/-- A pointer is live at most once. -/
theorem Event.nodup_replay? {live live' : List Nat} {event : Event} (hnodup : live.Nodup)
    (h : event.replay? live = some live') : live'.Nodup := by
  unfold replay? at h
  split at h
  case isTrue =>
    obtain ⟨ptr, -, hlive⟩ := Option.bind_eq_some_iff.1 h
    obtain ⟨hfresh, ⟨⟩⟩ := Option.ite_none_left_eq_some.1 hlive
    exact List.nodup_cons.2 ⟨hfresh, hnodup⟩
  case isFalse =>
    split at h
    case isTrue =>
      obtain ⟨ptr, -, hlive⟩ := Option.bind_eq_some_iff.1 h
      obtain ⟨-, ⟨⟩⟩ := Option.ite_none_right_eq_some.1 hlive
      exact hnodup.erase ptr
    case isFalse =>
      cases h
      exact hnodup

/-! ## The blocks of allocations and frees -/

/-- The block that the record of an allocation or of a free shows: its pointer, and its
size, with which the details of an allocation end. -/
def Event.block? (event : Event) : Option (Nat × Nat) := do
  let ptr ← event.ptr
  let size ← if event.name = "alloc" then Text.endingNumber? event.details.toList else event.size
  return (ptr, size)

theorem Event.endingNumber?_details (ptr n size placed : Nat) (source : Source) :
    Text.endingNumber? (allocated ptr n size placed source).details.toList = some placed := by
  have hdetails : (allocated ptr n size placed source).details.toList =
      s!"path={source.name} asize={size} block_size".toList ++ '=' :: Nat.toDigits 10 placed := by
    simp [details, toString, Nat.repr]
  rw [hdetails]
  exact Text.endingNumber?_toDigits (by decide) _ placed

@[simp] theorem Event.block?_allocated (ptr n size placed : Nat) (source : Source) :
    (allocated ptr n size placed source).block? = some (ptr, placed) := by
  simp [block?, Event.ptr, name, endingNumber?_details]

@[simp] theorem Event.block?_freed (ptr size merged : Nat) :
    (freed ptr size merged).block? = some (ptr, size) := rfl

end SegregatedFit
