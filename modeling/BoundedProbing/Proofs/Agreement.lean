import BoundedProbing.Proofs.Growth

/-!
# The Two Searches Agree

What a look-up and the search of an insertion have in common, in any array.

The searches are two recursions with different ends. The look-up gives up at an
empty place. The insertion stops there too, but with the place in hand or with
a tombstone it passed before. Both walk along the window of the key, and the
window is the view in which they can be compared: a list of places, cut at the
place where the walk ends. `Slots.WalksTo` says which slots a walk has passed
on its way to a place. A look-up passes what is neither empty nor the key, and
an absent key is put behind a walk that passes entries only.

Nothing is assumed of the slots. The array may be of one, two or four places, so
that the window goes around several times, tombstones may stand anywhere, and a
key may be stored twice or behind an empty place.

The second walk does not tell a tombstone from an empty place. So the place for
a new key depends on the entries and on nothing else.

## Main definitions

* `Slots.WalksTo`: The places of a window before a place are all passed.
* `Slots.SameEntries`: Two arrays that differ in their free slots at most.

## Theorems

* `Slots.walksTo_iff`: A walk in terms of distances.
* `Slots.SameEntries.place_eq`: The place for a new key in two such arrays.
* `Slots.SameEntries.locate_eq`, `Slots.SameEntries.place_eq_of_sound`: The
  searches for any key, if both arrays are sound.
* `Slots.SameEntries.entries_eq`: Such arrays list the same entries.
* `searches_agree`: What the two searches find, and that they agree.
-/

namespace BoundedProbing

universe u

variable {α : Type u}

namespace Slots

variable {slots other : Slots α} {key : UInt64} {passed : Slot α → Prop} {index : Nat}

/-- The place is in the window of the key, and the slots of all places before it
    are passed. -/
def WalksTo (slots : Slots α) (key : UInt64) (passed : Slot α → Prop) (index : Nat) : Prop :=
  ∃ nearer farther, windowOf slots key = nearer ++ index :: farther ∧
    ∀ before ∈ nearer, passed (slots.read before)

/-- A window is cut at one of its distances. -/
theorem walksTo_iff :
    slots.WalksTo key passed index ↔
      ∃ distance, distance < probeLimit ∧ index = ahead (home key slots.size) distance slots.size ∧
        ∀ nearer, nearer < distance →
          passed (slots.read (ahead (home key slots.size) nearer slots.size)) := by
  unfold WalksTo windowOf window
  constructor
  · intro hwalk
    rcases hwalk with ⟨nearer, farther, hcut, hpassed⟩
    rcases List.map_eq_append_iff.mp hcut with ⟨smaller, rest, hoffsets, rfl, hrest⟩
    rcases List.map_eq_cons_iff.mp hrest with ⟨distance, larger, rfl, hindex, _⟩
    rcases offsets_eq_append_cons_iff.mp hoffsets with ⟨hlt, rfl, _⟩
    refine ⟨distance, hlt, hindex.symm, fun before hbefore => ?_⟩
    exact hpassed _ (List.mem_map.mpr ⟨before, List.mem_range.mpr hbefore, rfl⟩)
  · intro hdistance
    rcases hdistance with ⟨distance, hlt, rfl, hpassed⟩
    rw [offsets_eq_append_cons_iff.mpr ⟨hlt, rfl, rfl⟩, List.map_append, List.map_cons]
    refine ⟨_, _, rfl, fun before hmem => ?_⟩
    rcases List.mem_map.mp hmem with ⟨smaller, hsmaller, rfl⟩
    exact hpassed smaller (List.mem_range.mp hsmaller)

/-- The arrays are of one size and hold the same entries in the same slots. In
    their free slots one may have a tombstone where the other has none. -/
structure SameEntries (slots other : Slots α) : Prop where
  size_eq : slots.size = other.size
  read_iff : ∀ index key value,
    slots.read index = .entry key value ↔ other.read index = .entry key value

namespace SameEntries

theorem entry?_eq (h : slots.SameEntries other) (index : Nat) :
    Slot.entry? (slots.read index) = Slot.entry? (other.read index) := by
  ext pair
  rcases pair with ⟨key, value⟩
  simp only [entry?_eq_some_iff, h.read_iff]

theorem isEntry_eq (h : slots.SameEntries other) (index : Nat) :
    (slots.read index).isEntry = (other.read index).isEntry := by
  have hsome : ∀ slot : Slot α, slot.isEntry = slot.entry?.isSome := by
    intro slot
    cases slot <;> rfl
  rw [hsome, hsome, h.entry?_eq]

theorem holds_iff (h : slots.SameEntries other) (index : Nat) (key : UInt64) :
    slots.Holds index key ↔ other.Holds index key := by
  simp only [Holds, h.read_iff]

theorem entries_eq (h : slots.SameEntries other) : slots.entries = other.entries := by
  have hread : Slot.entry? ∘ slots.read = Slot.entry? ∘ other.read := funext h.entry?_eq
  rw [entries_eq_filterMap, entries_eq_filterMap, toList_eq_map_read, toList_eq_map_read,
    List.filterMap_map, List.filterMap_map, h.size_eq, hread]

/-- The place for a new key is the same, or there is none in either array. -/
theorem place_eq (h : slots.SameEntries other) (hnone : locate slots key = none)
    (hother : locate other key = none) : place slots key = place other key := by
  have hfree : firstFree slots (home key slots.size) offsets =
      firstFree other (home key other.size) offsets := by
    simp only [firstFree, h.size_eq, h.isEntry_eq]
  rw [place_eq_locate, place_eq_locate, hnone, hother, hfree]

/-- In sound arrays a look-up finds what is there, so it finds the same. -/
theorem locate_eq (h : slots.SameEntries other) (hslots : slots.Sound) (hother : other.Sound)
    (key : UInt64) : locate slots key = locate other key := by
  ext index
  rw [hslots.locate_eq_some_iff_holds, hother.locate_eq_some_iff_holds, h.holds_iff]

theorem place_eq_of_sound (h : slots.SameEntries other) (hslots : slots.Sound)
    (hother : other.Sound) (key : UInt64) : place slots key = place other key := by
  have hlocate := h.locate_eq hslots hother key
  cases hfound : locate slots key with
  | none => exact h.place_eq hfound (hlocate.symm.trans hfound)
  | some index =>
      rw [place_eq_found_iff.mpr hfound, place_eq_found_iff.mpr (hlocate.symm.trans hfound)]

end SameEntries

end Slots

variable {slots : Slots α} {key : UInt64} {index : Nat}

/-- A look-up passes tombstones and other keys. -/
theorem locate_eq_some_iff_walksTo :
    locate slots key = some index ↔
      slots.Holds index key ∧
        slots.WalksTo key (fun slot => slot ≠ .empty ∧ ∀ value, slot ≠ .entry key value) index := by
  rw [locate_eq_some_iff, Slots.walksTo_iff]
  constructor
  · intro hfound
    rcases hfound with ⟨distance, hlt, hindex, hholds, hclear, hother⟩
    refine ⟨hholds, distance, hlt, hindex, fun nearer hless => ⟨hclear nearer hless, ?_⟩⟩
    exact fun value hread => hother nearer hless ⟨value, hread⟩
  · intro hwalk
    rcases hwalk with ⟨hholds, distance, hlt, hindex, hpassed⟩
    refine ⟨distance, hlt, hindex, hholds, fun nearer hless => (hpassed nearer hless).1, ?_⟩
    intro nearer hless hheld
    rcases hheld with ⟨value, hread⟩
    exact (hpassed nearer hless).2 value hread

/-- The search for a new key passes entries and no other slot. -/
theorem place_eq_vacant_iff_walksTo (hnone : locate slots key = none) :
    place slots key = .vacant index ↔
      (slots.read index).isEntry = false ∧
        slots.WalksTo key (fun slot => slot.isEntry = true) index := by
  rw [place_eq_vacant_iff, Slots.walksTo_iff]
  constructor
  · intro hplace
    rcases hplace with ⟨_, distance, hlt, hindex, hfree, hpassed⟩
    exact ⟨hfree, distance, hlt, hindex, hpassed⟩
  · intro hwalk
    rcases hwalk with ⟨hfree, distance, hlt, hindex, hpassed⟩
    exact ⟨hnone, distance, hlt, hindex, hfree, hpassed⟩

theorem place_eq_exhausted_iff_windowFull (hnone : locate slots key = none) :
    place slots key = .exhausted ↔ slots.WindowFull key := by
  rw [place_eq_exhausted_iff, Slots.WindowFull, windowOf, window, List.forall_mem_map]
  simp only [hnone, true_and, offsets, List.mem_range]

/-- The two searches agree in every array. An insertion finds a key exactly
    where a look-up does, and that is the first place of the window that holds
    the key, if no empty place comes before it. For a key that a look-up does
    not find, an insertion comes to the first place of the window that no entry
    takes, and is exhausted if entries take them all. Which of the free slots
    are tombstones makes no difference to it. -/
theorem searches_agree (slots : Slots α) (key : UInt64) :
    (∀ index, place slots key = .found index ↔ locate slots key = some index) ∧
      (∀ index, locate slots key = some index ↔ slots.Holds index key ∧
        slots.WalksTo key (fun slot => slot ≠ .empty ∧ ∀ value, slot ≠ .entry key value) index) ∧
      (locate slots key = none →
        (∀ index, place slots key = .vacant index ↔ (slots.read index).isEntry = false ∧
          slots.WalksTo key (fun slot => slot.isEntry = true) index) ∧
        (place slots key = .exhausted ↔ slots.WindowFull key)) ∧
      ∀ other : Slots α, slots.SameEntries other → locate slots key = none →
        locate other key = none → place slots key = place other key := by
  refine ⟨fun index => place_eq_found_iff, fun index => locate_eq_some_iff_walksTo, ?_, ?_⟩
  · intro hnone
    exact ⟨fun index => place_eq_vacant_iff_walksTo hnone, place_eq_exhausted_iff_windowFull hnone⟩
  · exact fun other hsame hnone hother => hsame.place_eq hnone hother

/-- Two arrays of four slots, one with a tombstone where the other is empty and
    the other way round. The window of the key starts at the last slot and goes
    around twice. -/
theorem searches_agree_around :
    let slots : Slots Nat := #[.tombstone, .entry 5 50, .empty, .entry 2 20]
    let other : Slots Nat := #[.empty, .entry 5 50, .tombstone, .entry 2 20]
    windowOf slots 1 = [3, 0, 1, 2, 3, 0, 1, 2] ∧ slots.SameEntries other ∧
      locate slots 1 = none ∧ locate other 1 = none ∧ place slots 1 = place other 1 ∧
      (place slots 1 = .vacant 0 ↔ (slots.read 0).isEntry = false ∧
        slots.WalksTo 1 (fun slot => slot.isEntry = true) 0) := by
  intro slots other
  have hnone : locate slots 1 = none := by decide +kernel
  have hother : locate other 1 = none := by decide +kernel
  have hsame : slots.SameEntries other := by
    refine ⟨rfl, fun index key value => ?_⟩
    have hshown : Slot.entry? (slots.read index) = Slot.entry? (other.read index) := by
      rcases index with _ | _ | _ | _ | index <;> rfl
    rw [← Slots.entry?_eq_some_iff, hshown, Slots.entry?_eq_some_iff]
  rcases searches_agree slots 1 with ⟨_, _, habsent, hfree⟩
  exact ⟨by decide +kernel, hsame, hnone, hother, hfree other hsame hnone hother,
    (habsent hnone).1 0⟩

end BoundedProbing
